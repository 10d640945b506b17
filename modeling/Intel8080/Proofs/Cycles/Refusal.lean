import Intel8080.Proofs.Cycles.Flat

/-! The first refusal that some cycles meet. It can be read off a flat memory and the size of the
image: a run is refused by the first access beyond the image, or where the cycles refuse to go
on. -/

namespace Intel8080

/-- The fault of an access, if the address is beyond a memory of that size. -/
def outOfRange? (size : Nat) (addr : Word) : Option Fault :=
  if addr.toNat < size then none else some (.addressOutOfRange addr size)

theorem outOfRange?_eq_none {size : Nat} {addr : Word} :
    outOfRange? size addr = none ↔ addr.toNat < size := by
  simp [outOfRange?]

theorem outOfRange?_eq_some {size : Nat} {addr : Word} {f : Fault} :
    outOfRange? size addr = some f ↔ size ≤ addr.toNat ∧ f = .addressOutOfRange addr size := by
  simp [outOfRange?, eq_comm]

namespace Memory

variable {m : Memory} {addr : Word}

theorem read_of_inRange (h : outOfRange? m.size addr = none) : m.read addr = .ok (m.peek addr) := by
  unfold outOfRange? at h
  split at h
  next hlt =>
    have hread := m.read_eq_ok hlt
    rw [hread, peek_of_read hread]
  next => cases h

theorem read_of_outOfRange {f : Fault} (h : outOfRange? m.size addr = some f) :
    m.read addr = .error f := by
  unfold outOfRange? at h
  split at h <;> cases h
  next hn => exact dif_neg hn

theorem write_of_inRange (v : Byte) (h : outOfRange? m.size addr = none) :
    ∃ m', m.write addr v = (.ok (), m') := by
  unfold outOfRange? at h
  split at h
  next hlt => exact ⟨_, dif_pos hlt⟩
  next => cases h

theorem write_of_outOfRange {f : Fault} (v : Byte) (h : outOfRange? m.size addr = some f) :
    m.write addr v = (.error f, m) := by
  unfold outOfRange? at h
  split at h <;> cases h
  next hn => exact dif_neg hn

end Memory

namespace Cycles

variable {α γ β : Type}

/-- The first refusal on a memory of the given size, by the contents of that memory. -/
def refusal? (bus : Bus β) (size : Nat) : Cycles α → (Word → Byte) → β → Option Fault
  | done _, _, _ => none
  | refuse x, _, _ => some x
  | note _ next, m, b => next.refusal? bus size m b
  | read addr next, m, b => (outOfRange? size addr).or ((next (m addr)).refusal? bus size m b)
  | write addr v next, m, b =>
    (outOfRange? size addr).or (next.refusal? bus size (Function.update m addr v) b)
  | input port next, m, b =>
    match bus.read b port with
    | (v, b, _) => (next v).refusal? bus size m b
  | output port v next, m, b =>
    match bus.write b port v with
    | (b, _) => next.refusal? bus size m b

/-- A run ends in the first refusal, and is granted if there is none. -/
theorem run_eq_error_iff {bus : Bus β} {c : Cycles α} {m : Memory} {b : β} {f : Fault} :
    (c.run bus m b).result = .error f ↔ c.refusal? bus m.size m.peek b = some f := by
  induction c generalizing m b with
  | done a => exact ⟨nofun, nofun⟩
  | refuse x => exact ⟨fun h => congrArg some (Except.error.inj h), fun h => by cases h; rfl⟩
  | note e next ih => exact ih
  | read addr next ih =>
    rw [run, refusal?]
    cases ho : outOfRange? m.size addr with
    | none => rw [Memory.read_of_inRange ho, Option.none_or, ← ih]
    | some x =>
      rw [Memory.read_of_outOfRange ho, Option.some_or, Option.some_inj]
      exact ⟨Except.error.inj, congrArg _⟩
  | write addr v next ih =>
    rw [run, refusal?]
    cases ho : outOfRange? m.size addr with
    | none =>
      obtain ⟨m', hw⟩ := Memory.write_of_inRange v ho
      rw [hw, Option.none_or, ← Memory.peek_of_write hw, ← Memory.size_of_write hw]
      exact ih
    | some x =>
      rw [Memory.write_of_outOfRange v ho, Option.some_or, Option.some_inj]
      exact ⟨Except.error.inj, congrArg _⟩
  | input port next ih => exact ih _
  | output port v next ih => exact ih

/-- What is done with the value at the end refuses nothing. -/
theorem refusal?_map (bus : Bus β) (size : Nat) (c : Cycles α) (f : α → γ) (m : Word → Byte)
    (b : β) : (c >>= fun a => pure (f a)).refusal? bus size m b = c.refusal? bus size m b := by
  change (c.bind fun a => done (f a)).refusal? bus size m b = _
  induction c generalizing m b with
  | done a => rfl
  | refuse x => rfl
  | note e next ih => exact ih m b
  | read addr next ih => simp only [Cycles.bind, refusal?, ih]
  | write addr v next ih => simp only [Cycles.bind, refusal?, ih]
  | input port next ih => exact ih _ m _
  | output port v next ih => exact ih m _

end Cycles

end Intel8080
