import Intel8080.Proofs.Cycles.Refusal

/-! What a run has done by the time it is refused. Cycles that only read have done nothing, and so
have cycles that end with their first write or use of a port. Two writes in a row can be refused
half done. -/

namespace Intel8080.Cycles

variable {α β γ : Type} {bus : Bus β} {m m' : Memory} {b b' : β} {f : Fault}

/-- Nothing is written and no port is used. -/
def Quiet : Cycles α → Prop
  | done _ | refuse _ => True
  | note _ next => next.Quiet
  | read _ next => ∀ v, (next v).Quiet
  | write _ _ _ | input _ _ | output _ _ _ => False

/-- Nothing follows the first write or use of a port, so a refusal comes before it. -/
def Atomic : Cycles α → Prop
  | done _ | refuse _ => True
  | note _ next => next.Atomic
  | read _ next => ∀ v, (next v).Atomic
  | write _ _ next | output _ _ next => ∃ a, next = done a
  | input _ next => ∀ v, ∃ a, next v = done a

theorem Quiet.bind {c : Cycles α} {k : α → Cycles γ} (h : c.Quiet) (hk : ∀ a, (k a).Quiet) :
    (c >>= k).Quiet := by
  change (c.bind k).Quiet
  induction c with
  | done a => exact hk a
  | refuse x => trivial
  | note e next ih => exact ih h
  | read addr next ih => exact fun v => ih v (h v)
  | write addr v next ih => exact h.elim
  | input port next ih => exact h.elim
  | output port v next ih => exact h.elim

theorem Quiet.run {c : Cycles α} (h : c.Quiet) (bus : Bus β) (m : Memory) (b : β) :
    (c.run bus m b).memory = m ∧ (c.run bus m b).bus = b := by
  induction c with
  | done a => exact ⟨rfl, rfl⟩
  | refuse x => exact ⟨rfl, rfl⟩
  | note e next ih => exact ih h
  | read addr next ih =>
    rw [Cycles.run]
    split
    next v _ => exact ih v (h v)
    next => exact ⟨rfl, rfl⟩
  | write addr v next ih => exact h.elim
  | input port next ih => exact h.elim
  | output port v next ih => exact h.elim

theorem Quiet.run_eq {c : Cycles α} (h : c.Quiet) (bus : Bus β) (m : Memory) (b : β) :
    ∃ r es, c.run bus m b = ⟨r, m, b, es⟩ := by
  obtain ⟨hm, hb⟩ := h.run bus m b
  rcases hc : c.run bus m b with ⟨r, m', b', es⟩
  rw [hc] at hm hb
  obtain rfl : m' = m := hm
  obtain rfl : b' = b := hb
  exact ⟨r, es, rfl⟩

theorem Quiet.flat {c : Cycles α} (h : c.Quiet) (bus : Bus β) (mem : Word → Byte) (b : β) :
    (c.flat bus mem b).memory = mem ∧ (c.flat bus mem b).bus = b := by
  induction c with
  | done a => exact ⟨rfl, rfl⟩
  | refuse x => exact ⟨rfl, rfl⟩
  | note e next ih => exact ih h
  | read addr next ih => exact ih _ (h _)
  | write addr v next ih => exact h.elim
  | input port next ih => exact h.elim
  | output port v next ih => exact h.elim

theorem Atomic.refused {c : Cycles α} (h : c.Atomic) (hr : (c.run bus m b).result = .error f) :
    (c.run bus m b).memory = m ∧ (c.run bus m b).bus = b := by
  induction c with
  | done a => cases hr
  | refuse x => exact ⟨rfl, rfl⟩
  | note e next ih => exact ih h hr
  | read addr next ih =>
    rw [run] at hr ⊢
    cases hread : m.read addr with
    | ok v =>
      rw [hread] at hr
      exact ih v (h v) hr
    | error x => exact ⟨rfl, rfl⟩
  | write addr v next ih =>
    obtain ⟨a, rfl⟩ := h
    rw [run] at hr ⊢
    cases ho : outOfRange? m.size addr with
    | none =>
      obtain ⟨m₁, hw⟩ := Memory.write_of_inRange v ho
      rw [hw] at hr
      cases hr
    | some x =>
      rw [Memory.write_of_outOfRange v ho]
      exact ⟨rfl, rfl⟩
  | input port next ih =>
    rcases hin : bus.read b port with ⟨v, b₁, es⟩
    obtain ⟨a, ha⟩ := h v
    simp only [run, hin, ha] at hr
    cases hr
  | output port v next ih =>
    obtain ⟨a, rfl⟩ := h
    cases hr

/-- Two writes, of which the first may be granted and the second refused. -/
theorem write_write_refused {addr addr' : Word} {x y : Byte} {a : α} {c : Cycles α}
    (hc : c = write addr x (write addr' y (done a)))
    (hr : (c.run bus m b).result = .error f) :
    (c.run bus m b).bus = b ∧
      (m.size ≤ addr.toNat ∧ (c.run bus m b).memory = m ∨
        addr.toNat < m.size ∧ m.size ≤ addr'.toNat ∧
          (c.run bus m b).memory = (m.write addr x).2) := by
  subst hc
  rw [run] at hr ⊢
  cases ho : outOfRange? m.size addr with
  | some e =>
    rw [Memory.write_of_outOfRange x ho]
    exact ⟨rfl, .inl ⟨(outOfRange?_eq_some.mp ho).1, rfl⟩⟩
  | none =>
    obtain ⟨m₁, hw⟩ := Memory.write_of_inRange x ho
    have hsize := Memory.size_of_write hw
    rw [hw] at hr ⊢
    simp only [run] at hr ⊢
    cases ho' : outOfRange? m₁.size addr' with
    | none =>
      obtain ⟨m₂, hw'⟩ := Memory.write_of_inRange y ho'
      rw [hw'] at hr
      cases hr
    | some e =>
      rw [Memory.write_of_outOfRange y ho']
      exact ⟨rfl, .inr ⟨outOfRange?_eq_none.mp ho, hsize ▸ (outOfRange?_eq_some.mp ho').1, rfl⟩⟩

/-- What is done with the value at the end does not show in a refusal. -/
theorem run_of_map_refused {c : Cycles α} {k : α → γ} {es : List Emission}
    (h : (c >>= fun a => pure (k a)).run bus m b = ⟨.error f, m', b', es⟩) :
    c.run bus m b = ⟨.error f, m', b', es⟩ := by
  rw [run_bind] at h
  rcases hc : c.run bus m b with ⟨x | a, m₁, b₁, fs⟩ <;> rw [hc] at h <;> cases h
  rfl

end Intel8080.Cycles
