import Intel8080.Cycles

/-! Postconditions of cycles: what holds of every value that some cycles can end with, whatever
the memory and the ports answer. A postcondition is read off the cycles alone and carries over
to every run that is granted. Cycles that are silent in addition use no port, so every run leaves
the bus as it was. -/

namespace Intel8080.Cycles

variable {α γ β : Type}

/-- Every value that the cycles end with satisfies `P`. -/
def Ensures (P : α → Prop) : Cycles α → Prop
  | done a => P a
  | refuse _ => True
  | note _ next => next.Ensures P
  | read _ next => ∀ v, (next v).Ensures P
  | write _ _ next => next.Ensures P
  | input _ next => ∀ v, (next v).Ensures P
  | output _ _ next => next.Ensures P

variable {P Q : α → Prop}

@[simp] theorem ensures_done (a : α) : (done a).Ensures P ↔ P a := Iff.rfl

@[simp] theorem ensures_pure (a : α) : (pure a : Cycles α).Ensures P ↔ P a := Iff.rfl

@[simp] theorem ensures_refuse (x : Fault) : (refuse x : Cycles α).Ensures P := trivial

@[simp] theorem ensures_note (e : Event) (next : Cycles α) :
    (note e next).Ensures P ↔ next.Ensures P := Iff.rfl

@[simp] theorem ensures_bind {P : γ → Prop} (c : Cycles α) (f : α → Cycles γ) :
    (c >>= f).Ensures P ↔ c.Ensures fun a => (f a).Ensures P := by
  change (c.bind f).Ensures P ↔ _
  induction c with
  | done a => rfl
  | refuse x => rfl
  | note e next ih => exact ih
  | read addr next ih => exact forall_congr' ih
  | write addr v next ih => exact ih
  | input port next ih => exact forall_congr' ih
  | output port v next ih => exact ih

theorem Ensures.mono {c : Cycles α} (h : c.Ensures P) (hPQ : ∀ a, P a → Q a) : c.Ensures Q := by
  induction c with
  | done a => exact hPQ a h
  | refuse x => trivial
  | note e next ih => exact ih h
  | read addr next ih => exact fun v => ih v (h v)
  | write addr v next ih => exact ih h
  | input port next ih => exact fun v => ih v (h v)
  | output port v next ih => exact ih h

theorem ensures_of_forall {c : Cycles α} (h : ∀ a, P a) : c.Ensures P := by
  induction c with
  | done a => exact h a
  | refuse x => trivial
  | note e next ih => exact ih
  | read addr next ih => exact ih
  | write addr v next ih => exact ih
  | input port next ih => exact ih
  | output port v next ih => exact ih

/-- A postcondition holds of the result of every run that is granted. -/
theorem Ensures.of_run {c : Cycles α} (h : c.Ensures P) {bus : Bus β} {m : Memory} {b : β} {a : α}
    (hr : (c.run bus m b).result = .ok a) : P a := by
  induction c generalizing m b with
  | done x =>
    obtain rfl : x = a := by simpa [run] using hr
    exact h
  | refuse x => simp [run] at hr
  | note e next ih => exact ih h hr
  | read addr next ih =>
    simp only [run] at hr
    split at hr
    · exact ih _ (h _) hr
    · contradiction
  | write addr v next ih =>
    simp only [run] at hr
    split at hr
    · exact ih h hr
    · contradiction
  | input port next ih => exact ih _ (h _) hr
  | output port v next ih => exact ih h hr

/-! ### Silence -/

/-- No port is used, and every value that the cycles end with satisfies `P`. -/
def Silent (P : α → Prop) : Cycles α → Prop
  | done a => P a
  | refuse _ => True
  | note _ next => next.Silent P
  | read _ next => ∀ v, (next v).Silent P
  | write _ _ next => next.Silent P
  | input _ _ | output _ _ _ => False

@[simp] theorem silent_pure (a : α) : (pure a : Cycles α).Silent P ↔ P a := Iff.rfl

@[simp] theorem silent_readByte {P : Byte → Prop} (addr : Word) :
    (readByte addr).Silent P ↔ ∀ v, P v := Iff.rfl

@[simp] theorem silent_writeByte {P : Unit → Prop} (addr : Word) (v : Byte) :
    (writeByte addr v).Silent P ↔ P () := Iff.rfl

@[simp] theorem silent_bind {P : γ → Prop} (c : Cycles α) (f : α → Cycles γ) :
    (c >>= f).Silent P ↔ c.Silent fun a => (f a).Silent P := by
  change (c.bind f).Silent P ↔ _
  induction c with
  | done a => rfl
  | refuse x => rfl
  | note e next ih => exact ih
  | read addr next ih => exact forall_congr' ih
  | write addr v next ih => exact ih
  | input port next ih => rfl
  | output port v next ih => rfl

@[simp] theorem silent_readWord {P : Word → Prop} (addr : Word) :
    (readWord addr).Silent P ↔ ∀ low high, P (Word.ofBytes high low) := Iff.rfl

@[simp] theorem silent_writeWord {P : Unit → Prop} (addr w : Word) :
    (writeWord addr w).Silent P ↔ P () := Iff.rfl

theorem Silent.mono {c : Cycles α} (h : c.Silent P) (hPQ : ∀ a, P a → Q a) : c.Silent Q := by
  induction c with
  | done a => exact hPQ a h
  | refuse x => trivial
  | note e next ih => exact ih h
  | read addr next ih => exact fun v => ih v (h v)
  | write addr v next ih => exact ih h
  | input port next ih => exact h.elim
  | output port v next ih => exact h.elim

theorem Silent.ensures {c : Cycles α} (h : c.Silent P) : c.Ensures P := by
  induction c with
  | done a => exact h
  | refuse x => trivial
  | note e next ih => exact ih h
  | read addr next ih => exact fun v => ih v (h v)
  | write addr v next ih => exact ih h
  | input port next ih => exact h.elim
  | output port v next ih => exact h.elim

theorem Silent.run {c : Cycles α} (h : c.Silent P) (bus : Bus β) (m : Memory) (b : β) :
    (c.run bus m b).bus = b := by
  induction c generalizing m with
  | done a => rfl
  | refuse x => rfl
  | note e next ih => exact ih h m
  | read addr next ih =>
    rw [Cycles.run]
    split
    · exact ih _ (h _) m
    · rfl
  | write addr v next ih =>
    rw [Cycles.run]
    split
    · exact ih h _
    · rfl
  | input port next ih => exact h.elim
  | output port v next ih => exact h.elim

end Intel8080.Cycles
