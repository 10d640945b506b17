import Intel8080.Proofs.Cycles.Refusal

/-! A run depends on the bytes that it reaches and on no others. Two memory images that answer
alike wherever a run goes let it go the same way on both, and every byte elsewhere stays as it
was. So an image can be enlarged, or changed out of reach, without any run noticing. -/

namespace Intel8080

namespace Memory

/-- Reading after a write, at any address; a refused write leaves nothing to read. -/
theorem read_write (m : Memory) (addr other : Word) (v : Byte) :
    (m.write addr v).2.read other =
      if other = addr then (m.read addr).map fun _ => v else m.read other := by
  split
  next h =>
    subst h
    cases ho : outOfRange? m.size other with
    | none =>
      have hlt := outOfRange?_eq_none.mp ho
      rw [read_write_self m v hlt, read_eq_ok m hlt]
      rfl
    | some f =>
      rw [write_of_outOfRange v ho, read_of_outOfRange ho]
      rfl
  next h => exact read_write_of_ne m v h

/-- A write is granted where a read is. -/
theorem write_result (m : Memory) (addr : Word) (v : Byte) :
    (m.write addr v).1 = (m.read addr).map fun _ => () := by
  cases ho : outOfRange? m.size addr with
  | none =>
    obtain ⟨m', hw⟩ := write_of_inRange v ho
    rw [hw, read_of_inRange ho]
    rfl
  | some f =>
    rw [write_of_outOfRange v ho, read_of_outOfRange ho]
    rfl

/-- The two images answer alike at every address in the set. -/
def AgreeOn (s : Set Word) (m m' : Memory) : Prop := ∀ addr ∈ s, m'.read addr = m.read addr

namespace AgreeOn

variable {s : Set Word} {m m' : Memory} {addr : Word}

theorem write (h : AgreeOn s m m') (ha : addr ∈ s) (v : Byte) :
    AgreeOn s (m.write addr v).2 (m'.write addr v).2 := by
  intro other ho
  rw [read_write, read_write, h addr ha, h other ho]

end AgreeOn

end Memory

/-- The result is not the fault of an access beyond memory. -/
def InRange {α : Type} (r : Except Fault α) : Prop :=
  ∀ addr len, r ≠ .error (.addressOutOfRange addr len)

theorem inRange_ok {α : Type} (a : α) : InRange (.ok a : Except Fault α) := nofun

theorem InRange.error {α γ : Type} {f : Fault} (h : InRange (.error f : Except Fault α)) :
    InRange (.error f : Except Fault γ) :=
  fun addr len he => h addr len (congrArg Except.error (Except.error.inj he))

namespace Cycles

variable {α β : Type}

/-- The run accesses no address outside the set. -/
def Within (s : Set Word) (bus : Bus β) : Cycles α → Memory → β → Prop
  | done _, _, _ => True
  | refuse _, _, _ => True
  | note _ next, m, b => next.Within s bus m b
  | read addr next, m, b => addr ∈ s ∧ ∀ v, m.read addr = .ok v → (next v).Within s bus m b
  | write addr v next, m, b =>
    addr ∈ s ∧ ∀ m', m.write addr v = (.ok (), m') → next.Within s bus m' b
  | input port next, m, b =>
    match bus.read b port with
    | (v, b, _) => (next v).Within s bus m b
  | output port v next, m, b =>
    match bus.write b port v with
    | (b, _) => next.Within s bus m b

/-- A second run that does the same as a first one, on an image that agrees with the other one on
the set and elsewhere stays as `m'` was. -/
structure Echo (s : Set Word) (m' : Memory) (t t' : Trail α β) : Prop where
  result : t'.result = t.result
  bus : t'.bus = t.bus
  emitted : t'.emitted = t.emitted
  agree : Memory.AgreeOn s t.memory t'.memory
  kept : ∀ addr ∉ s, t'.memory.read addr = m'.read addr

theorem Echo.emitBefore {s : Set Word} {m' : Memory} {t t' : Trail α β} (h : Echo s m' t t')
    (es : List Emission) : Echo s m' (t.emitBefore es) (t'.emitBefore es) :=
  ⟨h.result, h.bus, congrArg (es ++ ·) h.emitted, h.agree, h.kept⟩

variable {s : Set Word} {bus : Bus β}

/-- On images that agree where a run goes, it does the same. -/
theorem run_echo {c : Cycles α} {m m' : Memory} {b : β} (h : c.Within s bus m b)
    (ha : Memory.AgreeOn s m m') : Echo s m' (c.run bus m b) (c.run bus m' b) := by
  induction c generalizing m m' b with
  | done a => exact ⟨rfl, rfl, rfl, ha, fun _ _ => rfl⟩
  | refuse x => exact ⟨rfl, rfl, rfl, ha, fun _ _ => rfl⟩
  | note e next ih => exact (ih h ha).emitBefore _
  | read addr next ih =>
    rw [run, run, ha addr h.1]
    cases hr : m.read addr with
    | ok v => exact ih v (h.2 v hr) ha
    | error x => exact ⟨rfl, rfl, rfl, ha, fun _ _ => rfl⟩
  | write addr v next ih =>
    have hsame : (m'.write addr v).1 = (m.write addr v).1 := by
      rw [Memory.write_result, Memory.write_result, ha addr h.1]
    have hagree := ha.write h.1 v
    have hkept : ∀ other ∉ s, (m'.write addr v).2.read other = m'.read other :=
      fun other ho => Memory.read_write_of_ne m' v fun e => ho (e ▸ h.1)
    have hw' : m'.write addr v = ((m.write addr v).1, (m'.write addr v).2) := Prod.ext hsame rfl
    rw [run, run, hw']
    rcases hw : m.write addr v with ⟨x | ⟨⟩, m₁⟩ <;> rw [hw] at hagree
    · exact ⟨rfl, rfl, rfl, hagree, hkept⟩
    · have he := ih (h.2 m₁ hw) hagree
      exact ⟨he.result, he.bus, he.emitted, he.agree,
        fun other ho => (he.kept other ho).trans (hkept other ho)⟩
  | input port next ih => exact (ih _ h ha).emitBefore _
  | output port v next ih => exact (ih h ha).emitBefore _

/-- The echo of a run that is given by what it leaves behind. -/
theorem echo_of_run {c : Cycles α} {m m' : Memory} {b : β} {t : Trail α β}
    (h : c.Within s bus m b) (ha : Memory.AgreeOn s m m') (ht : c.run bus m b = t) :
    ∃ m₁, c.run bus m' b = ⟨t.result, m₁, t.bus, t.emitted⟩ ∧ Memory.AgreeOn s t.memory m₁ ∧
      m₁.size = m'.size ∧ ∀ addr ∉ s, m₁.read addr = m'.read addr := by
  subst ht
  obtain ⟨hresult, hbus, hemitted, hagree, hkept⟩ := run_echo h ha
  refine ⟨(c.run bus m' b).memory, ?_, hagree, size_run bus c m' b, hkept⟩
  rw [← hresult, ← hbus, ← hemitted]

/-- A run that meets no address beyond memory stays within memory. -/
theorem within_of_inRange {c : Cycles α} {m : Memory} {b : β} {n : Nat} (hn : m.size = n)
    (h : InRange (c.run bus m b).result) : c.Within {addr | addr.toNat < n} bus m b := by
  induction c generalizing m b with
  | done a => trivial
  | refuse x => trivial
  | note e next ih => exact ih hn h
  | read addr next ih =>
    rw [run] at h
    cases ho : outOfRange? m.size addr with
    | none =>
      rw [Memory.read_of_inRange ho] at h
      refine ⟨hn ▸ outOfRange?_eq_none.mp ho, fun v hv => ?_⟩
      rw [Memory.read_of_inRange ho] at hv
      obtain rfl := Except.ok.inj hv
      exact ih _ hn h
    | some x =>
      obtain ⟨-, rfl⟩ := outOfRange?_eq_some.mp ho
      rw [Memory.read_of_outOfRange ho] at h
      exact absurd rfl (h addr m.size)
  | write addr v next ih =>
    rw [run] at h
    cases ho : outOfRange? m.size addr with
    | none =>
      refine ⟨hn ▸ outOfRange?_eq_none.mp ho, fun m' hm => ?_⟩
      rw [hm] at h
      exact ih ((Memory.size_of_write hm).trans hn) h
    | some x =>
      obtain ⟨-, rfl⟩ := outOfRange?_eq_some.mp ho
      rw [Memory.write_of_outOfRange v ho] at h
      exact absurd rfl (h addr m.size)
  | input port next ih => exact ih _ hn h
  | output port v next ih => exact ih hn h

end Cycles

end Intel8080
