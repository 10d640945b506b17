import Intel8080.Core.Basic
import Intel8080.Proofs.Cycles.Locality

/-! Words on the stack. A push writes the two bytes right below the stack pointer and nothing
else, and a pop reads back what lies there; both addresses may wrap around. -/

namespace Intel8080

/-- The address is one of the `n` right below the stack pointer, modulo the address space. -/
def Word.Below (n : Nat) (sp addr : Word) : Prop := 1 ≤ (sp - addr).toNat ∧ (sp - addr).toNat ≤ n

instance (n : Nat) (sp addr : Word) : Decidable (Word.Below n sp addr) :=
  inferInstanceAs (Decidable (_ ∧ _))

/-- The bytes of a word in the order in which they lie in memory. -/
def Word.bytes (w : Word) : List Byte := [low w, high w]

@[simp] theorem Word.length_bytes (w : Word) : w.bytes.length = 2 := rfl

namespace Word

variable {n k : Nat} {sp addr : Word}

theorem add_ofNat_succ (w : Word) (k : Nat) :
    w + UInt16.ofNat (k + 1) = w + 1 + UInt16.ofNat k := by
  rw [UInt16.ofNat_add]
  grind

theorem toNat_ofNat (h : k < 65536) : (UInt16.ofNat k).toNat = k := UInt16.toNat_ofNat_of_lt' h

theorem Below.mono (h : Below n sp addr) (hk : n ≤ k) : Below k sp addr :=
  ⟨h.1, Nat.le_trans h.2 hk⟩

/-- What is right below a stack pointer that was lowered is also below it. -/
theorem Below.of_sub (h : Below n (sp - UInt16.ofNat k) addr) (hk : n + k < 65536) :
    Below (n + k) sp addr := by
  obtain ⟨hpos, hle⟩ := h
  have hk' : (UInt16.ofNat k).toNat = k := toNat_ofNat (by omega)
  have := sp.toNat_lt
  have := addr.toNat_lt
  constructor <;>
    · simp only [UInt16.toNat_sub, hk'] at *
      omega

/-- The addresses from `n` below the stack pointer on. -/
theorem below_sub_add (hk : k < n) (hn : n < 65536) :
    Below n sp (sp - UInt16.ofNat n + UInt16.ofNat k) := by
  have hk' : (UInt16.ofNat k).toNat = k := toNat_ofNat (by omega)
  have hn' : (UInt16.ofNat n).toNat = n := toNat_ofNat hn
  have := sp.toNat_lt
  constructor <;>
    · simp only [UInt16.toNat_sub, UInt16.toNat_add, hk', hn']
      omega

theorem below_two : Below 2 sp addr ↔ addr = sp - 1 ∨ addr = sp - 2 := by
  have hone : sp - addr = 1 ↔ addr = sp - 1 := by grind
  have htwo : sp - addr = 2 ↔ addr = sp - 2 := by grind
  rw [← hone, ← htwo, ← UInt16.toNat_inj, ← UInt16.toNat_inj]
  change 1 ≤ _ ∧ _ ≤ 2 ↔ _ = 1 ∨ _ = 2
  omega

/-- What lies above a stack pointer is not right below it. -/
theorem not_below_add (h : k + n < 65536) : ¬ Below n sp (sp + UInt16.ofNat k) := by
  rintro ⟨hpos, hle⟩
  have hk' : (UInt16.ofNat k).toNat = k := toNat_ofNat (by omega)
  have := sp.toNat_lt
  simp only [UInt16.toNat_sub, UInt16.toNat_add, hk'] at hpos hle
  omega

end Word

namespace Memory

/-- The image has these bytes from the address on. -/
def Holds (m : Memory) (addr : Word) (vs : List Byte) : Prop :=
  ∀ k (h : k < vs.length), m.read (addr + UInt16.ofNat k) = .ok vs[k]

variable {m m' : Memory} {addr sp : Word} {v : Byte} {vs ws : List Byte}

@[simp] theorem holds_nil : m.Holds addr [] := nofun

theorem holds_cons : m.Holds addr (v :: vs) ↔ m.read addr = .ok v ∧ m.Holds (addr + 1) vs := by
  have hzero : addr + UInt16.ofNat 0 = addr := UInt16.add_zero addr
  constructor
  · intro h
    refine ⟨?_, fun k hk => ?_⟩
    · exact hzero ▸ h 0 (Nat.zero_lt_succ _)
    · exact Word.add_ofNat_succ addr k ▸ h (k + 1) (Nat.succ_lt_succ hk)
  · rintro ⟨hv, hvs⟩ k hk
    cases k with
    | zero => exact hzero.symm ▸ hv
    | succ k => exact Word.add_ofNat_succ addr k ▸ hvs k (Nat.lt_of_succ_lt_succ hk)

theorem holds_append :
    m.Holds addr (vs ++ ws) ↔ m.Holds addr vs ∧ m.Holds (addr + UInt16.ofNat vs.length) ws := by
  induction vs generalizing addr with
  | nil =>
    have hzero : addr + UInt16.ofNat 0 = addr := UInt16.add_zero addr
    rw [List.nil_append, List.length_nil, hzero, and_iff_right holds_nil]
  | cons v vs ih =>
    rw [List.cons_append, holds_cons, holds_cons, ih, and_assoc, List.length_cons,
      Word.add_ofNat_succ]

theorem Holds.congr (h : m.Holds addr vs)
    (hk : ∀ k < vs.length, m'.read (addr + UInt16.ofNat k) = m.read (addr + UInt16.ofNat k)) :
    m'.Holds addr vs := by
  intro k hlt
  rw [hk k hlt]
  exact h k hlt

theorem write_granted (m : Memory) {addr : Word} (v : Byte) (h : addr.toNat < m.size) :
    m.write addr v = (.ok (), (m.write addr v).2) := by
  obtain ⟨m', hw⟩ := write_of_inRange v (outOfRange?_eq_none.mpr h)
  rw [hw]

/-- The image after a push of the word. -/
def pushed (m : Memory) (sp w : Word) : Memory :=
  ((m.write (sp - 1) (Word.high w)).2.write (sp - 2) (Word.low w)).2

@[simp] theorem size_pushed (m : Memory) (sp w : Word) : (m.pushed sp w).size = m.size := by
  rw [pushed, size_write, size_write]

theorem read_pushed (w : Word) (h : ¬ Word.Below 2 sp addr) :
    (m.pushed sp w).read addr = m.read addr := by
  rw [Word.below_two, not_or] at h
  rw [pushed, read_write_of_ne _ _ h.2, read_write_of_ne _ _ h.1]

theorem read_pushed_high (w : Word) (h : (sp - 1).toNat < m.size) :
    (m.pushed sp w).read (sp - 1) = .ok (Word.high w) := by
  have hne : sp - 1 ≠ sp - 2 := by grind
  rw [pushed, read_write_of_ne _ _ hne, read_write_self _ _ h]

theorem read_pushed_low (w : Word) (h : (sp - 2).toNat < m.size) :
    (m.pushed sp w).read (sp - 2) = .ok (Word.low w) := by
  rw [pushed, read_write_self _ _ (by rwa [← size, size_write])]

/-- What was on the stack is still there after a push, unless the push wraps around to it. -/
theorem Holds.pushed (h : m.Holds sp vs) (w : Word) (hlen : vs.length + 2 ≤ 65536) :
    (m.pushed sp w).Holds sp vs :=
  h.congr fun _ hk => read_pushed w (Word.not_below_add (by omega))

theorem holds_pushed (h : m.Holds sp vs) (w : Word) (hlen : vs.length + 2 ≤ 65536)
    (hroom : ∀ a, Word.Below 2 sp a → a.toNat < m.size) :
    (m.pushed sp w).Holds (sp - 2) (w.bytes ++ vs) := by
  have hone := hroom _ (Word.below_two.mpr (.inl rfl))
  have htwo := hroom _ (Word.below_two.mpr (.inr rfl))
  have hnext : sp - 2 + 1 = sp - 1 := by grind
  have hrest : sp - 2 + 1 + 1 = sp := by grind
  simp only [Word.bytes, List.cons_append, List.nil_append, holds_cons]
  rw [hrest, hnext]
  exact ⟨read_pushed_low w htwo, read_pushed_high w hone, h.pushed w hlen⟩

end Memory

namespace Core

variable {β : Type} {bus : Bus β} {c : Core} {m : Memory} {b : β} {w : Word}

theorem pushWord_run (hroom : ∀ a, Word.Below 2 c.registers.sp a → a.toNat < m.size) :
    (c.pushWord w).run bus m b =
      ⟨.ok { c with registers := { c.registers with sp := c.registers.sp - 2 } },
        m.pushed c.registers.sp w, b, []⟩ := by
  have hone := hroom _ (Word.below_two.mpr (.inl rfl))
  have htwo := hroom _ (Word.below_two.mpr (.inr rfl))
  have hfirst := m.write_granted (Word.high w) hone
  have hsecond := (m.write (c.registers.sp - 1) (Word.high w)).2.write_granted (Word.low w)
    (by rwa [Memory.size_write])
  simp only [pushWord, Cycles.run_bind, Cycles.writeByte, Cycles.run]
  rw [hfirst]
  simp only [Trail.andThen]
  rw [hsecond]
  rfl

theorem call_run (bus : Bus β) (target : Word) (b : β)
    (hroom : ∀ a, Word.Below 2 c.registers.sp a → a.toNat < m.size) :
    (c.call target).run bus m b =
      ⟨.ok { c with registers := { c.registers with sp := c.registers.sp - 2, pc := target } },
        m.pushed c.registers.sp c.registers.pc, b, []⟩ := by
  simp only [call, Cycles.run_bind, pushWord_run hroom, Trail.andThen]
  rfl

/-- A pop of a word that lies on top of the stack. -/
theorem popWord_run (h : m.Holds c.registers.sp w.bytes) :
    c.popWord.run bus m b =
      ⟨.ok (w, { c with registers := { c.registers with sp := c.registers.sp + 2 } }),
        m, b, []⟩ := by
  rw [Word.bytes, Memory.holds_cons, Memory.holds_cons] at h
  obtain ⟨hlow, hhigh, -⟩ := h
  simp only [popWord, Cycles.run_bind, Cycles.readWord, Cycles.readByte, Cycles.run, hlow, hhigh,
    Trail.andThen]
  rw [Word.ofBytes_high_low]
  rfl

theorem pop_run (bus : Bus β) (b : β) (p : StackPair) (h : m.Holds c.registers.sp w.bytes) :
    (c.pop p).run bus m b =
      ⟨.ok (setStackWord p w
        { c with registers := { c.registers with sp := c.registers.sp + 2 } }), m, b, []⟩ := by
  simp only [pop, Cycles.run_bind, popWord_run h, Trail.andThen]
  rfl

theorem ret_run (bus : Bus β) (b : β) (h : m.Holds c.registers.sp w.bytes) :
    c.ret.run bus m b =
      ⟨.ok { c with registers := { c.registers with sp := c.registers.sp + 2, pc := w } },
        m, b, []⟩ := by
  simp only [ret, Cycles.run_bind, popWord_run h, Trail.andThen]
  rfl

end Core

end Intel8080
