import Intel8080.Proofs.Cycles.Atomic
import Intel8080.Proofs.Cycles.Locality

/-! The footprint of a run: the bytes that it loads and the bytes that it stores. A run depends on
what it loads and on nothing else of memory, and it leaves alone what it does not store. Two images
of one size that agree on the loads may differ anywhere else; afterwards they differ there still,
except where a byte was stored, which is then the same in both. -/

namespace Intel8080

/-- An access to memory that was granted. -/
inductive Access where
  | load (addr : Word)
  | store (addr : Word)
  deriving DecidableEq

/-- The address that is accessed. -/
def Access.addr : Access → Word
  | load addr | store addr => addr

variable {α β γ : Type}

/-- The accesses from where a trail ends, of which there are none after a refusal. -/
def Trail.accessesThen (t : Trail α β) (next : α → Memory → β → List Access) : List Access :=
  match t with
  | ⟨.ok a, m, b, _⟩ => next a m b
  | ⟨.error _, _, _, _⟩ => []

@[simp] theorem Trail.emitBefore_accessesThen (es : List Emission) (t : Trail α β)
    (next : α → Memory → β → List Access) :
    (t.emitBefore es).accessesThen next = t.accessesThen next := by
  rcases t with ⟨_ | _, m, b, fs⟩ <;> rfl

theorem Trail.mem_accessesThen {t : Trail α β} {next : α → Memory → β → List Access} {x : Access} :
    x ∈ t.accessesThen next ↔ ∃ a, t.result = .ok a ∧ x ∈ next a t.memory t.bus := by
  rcases t with ⟨f | a, m, b, es⟩ <;> simp [accessesThen]

/-- A granted write leaves its byte at the address and all others as they were. -/
theorem Memory.read_of_write {m m' : Memory} {addr : Word} {v : Byte}
    (h : m.write addr v = (.ok (), m')) :
    m'.read addr = .ok v ∧ ∀ other ≠ addr, m'.read other = m.read other := by
  have hlt : addr.toNat < m.bytes.size := by
    by_contra hn
    rw [write_of_outOfRange v (outOfRange?_eq_some.mpr ⟨Nat.not_lt.mp hn, rfl⟩)] at h
    cases h
  have hself := m.read_write_self v hlt
  have hother (other : Word) (ho : other ≠ addr) := m.read_write_of_ne v ho
  rw [h] at hself hother
  exact ⟨hself, hother⟩

namespace Cycles

/-- The accesses of a run, up to the first one that is refused. -/
def accesses (bus : Bus β) : Cycles α → Memory → β → List Access
  | done _, _, _ => []
  | refuse _, _, _ => []
  | note _ next, m, b => next.accesses bus m b
  | read addr next, m, b =>
    match m.read addr with
    | .ok v => .load addr :: (next v).accesses bus m b
    | .error _ => []
  | write addr v next, m, b =>
    match m.write addr v with
    | (.ok (), m) => .store addr :: next.accesses bus m b
    | (.error _, _) => []
  | input port next, m, b =>
    match bus.read b port with
    | (v, b, _) => (next v).accesses bus m b
  | output port v next, m, b =>
    match bus.write b port v with
    | (b, _) => next.accesses bus m b

variable {bus : Bus β} {c : Cycles α} {m m' : Memory} {b : β} {addr : Word}

theorem accesses_bind (bus : Bus β) (c : Cycles α) (f : α → Cycles γ) (m : Memory) (b : β) :
    (c >>= f).accesses bus m b =
      c.accesses bus m b ++
        (c.run bus m b).accessesThen fun a m b => (f a).accesses bus m b := by
  change (c.bind f).accesses bus m b = _
  induction c generalizing m b with
  | done a => rfl
  | refuse x => rfl
  | note e next ih => simp only [Cycles.bind, accesses, run, ih, Trail.emitBefore_accessesThen]
  | read addr next ih =>
    simp only [Cycles.bind, accesses, run]
    cases m.read addr with
    | ok v => exact congrArg (_ :: ·) (ih v m b)
    | error x => rfl
  | write addr v next ih =>
    simp only [Cycles.bind, accesses, run]
    rcases m.write addr v with ⟨x | ⟨⟩, m₁⟩
    · rfl
    · exact congrArg (_ :: ·) (ih m₁ b)
  | input port next ih =>
    simp only [Cycles.bind, accesses, run, ih, Trail.emitBefore_accessesThen]
  | output port v next ih =>
    simp only [Cycles.bind, accesses, run, ih, Trail.emitBefore_accessesThen]

theorem mem_accesses_bind {f : α → Cycles γ} {x : Access} :
    x ∈ (c >>= f).accesses bus m b ↔
      x ∈ c.accesses bus m b ∨
        ∃ a, (c.run bus m b).result = .ok a ∧
          x ∈ (f a).accesses bus (c.run bus m b).memory (c.run bus m b).bus := by
  rw [accesses_bind, List.mem_append, Trail.mem_accessesThen]

/-! ### What a footprint can hold -/

theorem Within.accesses {s : Set Word} (h : c.Within s bus m b) :
    ∀ x ∈ c.accesses bus m b, x.addr ∈ s := by
  intro x hx
  induction c generalizing m b with
  | done a => cases hx
  | refuse f => cases hx
  | note e next ih => exact ih h hx
  | read addr next ih =>
    rw [Cycles.accesses] at hx
    cases hr : m.read addr with
    | ok v =>
      rw [hr] at hx
      rcases List.mem_cons.mp hx with rfl | hx
      · exact h.1
      · exact ih v (h.2 v hr) hx
    | error f =>
      rw [hr] at hx
      cases hx
  | write addr v next ih =>
    rw [Cycles.accesses] at hx
    rcases hw : m.write addr v with ⟨f | ⟨⟩, m₁⟩ <;> rw [hw] at hx
    · cases hx
    · rcases List.mem_cons.mp hx with rfl | hx
      · exact h.1
      · exact ih (h.2 m₁ hw) hx
  | input port next ih => exact ih _ h hx
  | output port v next ih => exact ih h hx

/-- Nothing is written. -/
def ReadOnly : Cycles α → Prop
  | done _ | refuse _ => True
  | note _ next => next.ReadOnly
  | read _ next => ∀ v, (next v).ReadOnly
  | write _ _ _ => False
  | input _ next => ∀ v, (next v).ReadOnly
  | output _ _ next => next.ReadOnly

theorem Quiet.readOnly (h : c.Quiet) : c.ReadOnly := by
  induction c with
  | done a => trivial
  | refuse x => trivial
  | note e next ih => exact ih h
  | read addr next ih => exact fun v => ih v (h v)
  | write addr v next ih => exact h.elim
  | input port next ih => exact h.elim
  | output port v next ih => exact h.elim

theorem ReadOnly.loads (h : c.ReadOnly) : ∀ x ∈ c.accesses bus m b, ∃ addr, x = .load addr := by
  intro x hx
  induction c generalizing m b with
  | done a => cases hx
  | refuse f => cases hx
  | note e next ih => exact ih h hx
  | read addr next ih =>
    rw [accesses] at hx
    split at hx
    next v _ =>
      rcases List.mem_cons.mp hx with rfl | hx
      · exact ⟨addr, rfl⟩
      · exact ih v (h v) hx
    next => cases hx
  | write addr v next ih => exact h.elim
  | input port next ih => exact ih _ (h _) hx
  | output port v next ih => exact ih h hx

/-! ### What a footprint decides -/

/-- A run keeps every byte that it does not store. -/
theorem run_kept (h : .store addr ∉ c.accesses bus m b) :
    (c.run bus m b).memory.read addr = m.read addr := by
  induction c generalizing m b with
  | done a => rfl
  | refuse f => rfl
  | note e next ih => exact ih h
  | read other next ih =>
    rw [accesses] at h
    rw [run]
    split
    next v hr =>
      rw [hr] at h
      exact ih v (List.not_mem_of_not_mem_cons h)
    next => rfl
  | write other v next ih =>
    rw [accesses] at h
    rw [run]
    cases ho : outOfRange? m.size other with
    | some f =>
      rw [Memory.write_of_outOfRange v ho]
    | none =>
      obtain ⟨m₁, hw⟩ := Memory.write_of_inRange v ho
      rw [hw] at h ⊢
      obtain ⟨hne, hrest⟩ := not_or.mp (List.mem_cons.not.mp h)
      have hother := (Memory.read_of_write hw).2 addr fun e => hne (congrArg Access.store e)
      exact (ih hrest).trans hother
  | input port next ih => exact ih _ h
  | output port v next ih => exact ih h

/-- A second run that does the same as a first one on another image. The bytes that are stored
come out the same, and elsewhere the second image stays as `m'` was. -/
structure Reprise (xs : List Access) (m' : Memory) (t t' : Trail α β) : Prop where
  result : t'.result = t.result
  bus : t'.bus = t.bus
  emitted : t'.emitted = t.emitted
  stored : ∀ addr, .store addr ∈ xs → t'.memory.read addr = t.memory.read addr
  kept : ∀ addr, .store addr ∉ xs → t'.memory.read addr = m'.read addr

/-- Nothing more to be done, with the same result. -/
theorem Reprise.nil (r : Except Fault α) (m m' : Memory) (b : β) :
    Reprise [] m' ⟨r, m, b, []⟩ ⟨r, m', b, []⟩ :=
  ⟨rfl, rfl, rfl, fun _ hx => absurd hx List.not_mem_nil, fun _ _ => rfl⟩

theorem Reprise.emitBefore {xs : List Access} {t t' : Trail α β} (h : Reprise xs m' t t')
    (es : List Emission) : Reprise xs m' (t.emitBefore es) (t'.emitBefore es) :=
  ⟨h.result, h.bus, congrArg (es ++ ·) h.emitted, h.stored, h.kept⟩

/-- Where the images agreed before, they agree again. -/
theorem Reprise.read {t' : Trail α β} (h : Reprise (c.accesses bus m b) m' (c.run bus m b) t')
    (ha : m'.read addr = m.read addr) : t'.memory.read addr = (c.run bus m b).memory.read addr := by
  by_cases hs : .store addr ∈ c.accesses bus m b
  · exact h.stored addr hs
  · rw [h.kept addr hs, run_kept hs, ha]

/-- On images of one size that agree on what a run loads, it does the same. -/
theorem run_reprise (hsize : m'.size = m.size)
    (h : ∀ addr, .load addr ∈ c.accesses bus m b → m'.read addr = m.read addr) :
    Reprise (c.accesses bus m b) m' (c.run bus m b) (c.run bus m' b) := by
  induction c generalizing m m' b with
  | done a => exact .nil _ _ _ _
  | refuse f => exact .nil _ _ _ _
  | note e next ih => exact (ih hsize h).emitBefore _
  | read addr next ih =>
    rw [accesses] at h ⊢
    rw [run, run]
    cases ho : outOfRange? m.size addr with
    | some f =>
      rw [Memory.read_of_outOfRange ho, Memory.read_of_outOfRange (hsize ▸ ho)]
      exact .nil _ _ _ _
    | none =>
      have hr := Memory.read_of_inRange ho
      rw [hr] at h ⊢
      have hr' : m'.read addr = .ok (m.peek addr) := (h addr List.mem_cons_self).trans hr
      rw [hr']
      have hnext := ih (m.peek addr) hsize fun a ha => h a (List.mem_cons_of_mem _ ha)
      refine ⟨hnext.result, hnext.bus, hnext.emitted, fun a ha => hnext.stored a ?_,
        fun a ha => hnext.kept a (List.not_mem_of_not_mem_cons ha)⟩
      simpa using ha
  | write addr v next ih =>
    rw [accesses] at h ⊢
    rw [run, run]
    cases ho : outOfRange? m.size addr with
    | some f =>
      rw [Memory.write_of_outOfRange v ho, Memory.write_of_outOfRange v (hsize ▸ ho)]
      exact .nil _ _ _ _
    | none =>
      obtain ⟨m₁, hw⟩ := Memory.write_of_inRange v ho
      obtain ⟨m₁', hw'⟩ := Memory.write_of_inRange (m := m') v (hsize ▸ ho)
      obtain ⟨hself, hother⟩ := Memory.read_of_write hw
      obtain ⟨hself', hother'⟩ := Memory.read_of_write hw'
      rw [hw] at h ⊢
      rw [hw']
      have hsize₁ : m₁'.size = m₁.size := by
        rw [Memory.size_of_write hw', Memory.size_of_write hw, hsize]
      have hnext := ih (b := b) hsize₁ fun a ha => by
        by_cases e : a = addr
        · rw [e, hself, hself']
        · rw [hother a e, hother' a e]
          exact h a (List.mem_cons_of_mem _ ha)
      refine ⟨hnext.result, hnext.bus, hnext.emitted, fun a ha => ?_, fun a ha => ?_⟩
      · by_cases hagain : .store a ∈ next.accesses bus m₁ b
        · exact hnext.stored a hagain
        · -- the byte is stored here and not again, so it is the one that both images got
          obtain rfl : a = addr :=
            Access.store.inj ((List.mem_cons.mp ha).resolve_right hagain)
          rw [hnext.kept a hagain, run_kept hagain, hself, hself']
      · obtain ⟨hne, hrest⟩ := not_or.mp (List.mem_cons.not.mp ha)
        rw [hnext.kept a hrest]
        exact hother' a fun e => hne (congrArg Access.store e)
  | input port next ih => exact (ih _ hsize h).emitBefore _
  | output port v next ih => exact (ih hsize h).emitBefore _

end Cycles

end Intel8080
