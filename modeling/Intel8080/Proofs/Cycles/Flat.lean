import Intel8080.Cycles
import Mathlib.Logic.Function.Basic

/-! Cycles on a flat memory, which holds a byte at every address and refuses nothing. A run on a
memory image that is granted does on the image what the flat run does on its contents, so the
effect of an instruction can be computed without its range checks. -/

namespace Intel8080

namespace Memory

/-- The byte at an address, zero beyond the image. -/
def peek (m : Memory) (addr : Word) : Byte := m.bytes.getD addr.toNat 0

theorem peek_of_read {m : Memory} {addr : Word} {v : Byte} (h : m.read addr = .ok v) :
    m.peek addr = v := by
  unfold read at h
  split at h
  next hlt =>
    rw [peek, Array.getD_eq_getD_getElem?, Array.getElem?_eq_getElem hlt]
    exact Except.ok.inj h
  next => contradiction

theorem peek_of_write {m m' : Memory} {addr : Word} {v : Byte} (h : m.write addr v = (.ok (), m')) :
    m'.peek = Function.update m.peek addr v := by
  unfold write at h
  split at h
  next hlt =>
    obtain rfl := (Prod.mk.inj h).2
    funext other
    by_cases ho : other = addr
    · subst ho
      simp [peek, hlt]
    · have hn : addr.toNat ≠ other.toNat := fun e => ho (UInt16.toNat_inj.mp e.symm)
      simp [peek, Function.update_of_ne ho, Array.getElem?_set_ne hlt hn]
  next => simp at h

theorem size_of_write {m m' : Memory} {addr : Word} {v : Byte} {r : Except Fault Unit}
    (h : m.write addr v = (r, m')) : m'.size = m.size := by
  rw [← size_write m addr v, h]

end Memory

/-- What a run on a flat memory leaves behind. -/
structure FlatTrail (α β : Type) where
  result : Except Fault α
  memory : Word → Byte
  bus : β
  emitted : List Emission

namespace FlatTrail

variable {α γ β : Type}

/-- Emissions from before the trail. -/
def emitBefore (es : List Emission) (t : FlatTrail α β) : FlatTrail α β :=
  { t with emitted := es ++ t.emitted }

/-- Goes on from where the trail ends, unless that is a refusal. -/
def andThen (t : FlatTrail α β) (next : α → (Word → Byte) → β → FlatTrail γ β) : FlatTrail γ β :=
  match t with
  | ⟨.ok a, m, b, es⟩ => (next a m b).emitBefore es
  | ⟨.error x, m, b, es⟩ => ⟨.error x, m, b, es⟩

@[simp] theorem andThen_ok (a : α) (m : Word → Byte) (b : β) (es : List Emission)
    (next : α → (Word → Byte) → β → FlatTrail γ β) :
    (FlatTrail.mk (.ok a) m b es).andThen next = (next a m b).emitBefore es := rfl

theorem emitBefore_andThen (es : List Emission) (t : FlatTrail α β)
    (next : α → (Word → Byte) → β → FlatTrail γ β) :
    (t.emitBefore es).andThen next = (t.andThen next).emitBefore es := by
  rcases t with ⟨_ | _, m, b, fs⟩
  · rfl
  · simp [emitBefore, andThen]

end FlatTrail

/-- A trail with the contents of its memory image. -/
def Trail.flatten {α β : Type} (t : Trail α β) : FlatTrail α β :=
  ⟨t.result, t.memory.peek, t.bus, t.emitted⟩

namespace Cycles

variable {α γ β : Type}

def flat (bus : Bus β) : Cycles α → (Word → Byte) → β → FlatTrail α β
  | done a, m, b => ⟨.ok a, m, b, []⟩
  | refuse x, m, b => ⟨.error x, m, b, []⟩
  | note e next, m, b => (next.flat bus m b).emitBefore [.event e]
  | read addr next, m, b => (next (m addr)).flat bus m b
  | write addr v next, m, b => next.flat bus (Function.update m addr v) b
  | input port next, m, b =>
    match bus.read b port with
    | (v, b, es) => ((next v).flat bus m b).emitBefore es
  | output port v next, m, b =>
    match bus.write b port v with
    | (b, es) => (next.flat bus m b).emitBefore es

@[simp] theorem flat_pure (bus : Bus β) (a : α) (m : Word → Byte) (b : β) :
    (pure a : Cycles α).flat bus m b = ⟨.ok a, m, b, []⟩ := rfl

@[simp] theorem flat_readByte (bus : Bus β) (addr : Word) (m : Word → Byte) (b : β) :
    (readByte addr).flat bus m b = ⟨.ok (m addr), m, b, []⟩ := rfl

theorem flat_bind (bus : Bus β) (c : Cycles α) (f : α → Cycles γ) (m : Word → Byte) (b : β) :
    (c >>= f).flat bus m b = (c.flat bus m b).andThen fun a m b => (f a).flat bus m b := by
  change (c.bind f).flat bus m b = _
  induction c generalizing m b with
  | done a => rfl
  | refuse x => rfl
  | note e next ih => rw [Cycles.bind, flat, flat, ih, FlatTrail.emitBefore_andThen]
  | read addr next ih => exact ih _ m b
  | write addr v next ih => exact ih _ b
  | input port next ih => simp only [Cycles.bind, flat, ih, FlatTrail.emitBefore_andThen]
  | output port v next ih => simp only [Cycles.bind, flat, ih, FlatTrail.emitBefore_andThen]

/-- No run changes the size of the memory image. -/
theorem size_run (bus : Bus β) (c : Cycles α) (m : Memory) (b : β) :
    (c.run bus m b).memory.size = m.size := by
  induction c generalizing m b with
  | done a => rfl
  | refuse x => rfl
  | note e next ih => exact ih m b
  | read addr next ih =>
    simp only [run]
    split
    · exact ih _ m b
    · rfl
  | write addr v next ih =>
    simp only [run]
    split
    next m' h => rw [ih, Memory.size_of_write h]
    next m' h => exact Memory.size_of_write h
  | input port next ih => exact ih _ m _
  | output port v next ih => exact ih m _

/-- A run that is granted does on the contents of the image what the flat run does. -/
theorem flat_of_run {bus : Bus β} {c : Cycles α} {m : Memory} {b : β} {a : α}
    (h : (c.run bus m b).result = .ok a) :
    c.flat bus m.peek b = (c.run bus m b).flatten := by
  induction c generalizing m b with
  | done a => rfl
  | refuse x => rfl
  | note e next ih => exact congrArg (FlatTrail.emitBefore _) (ih h)
  | read addr next ih =>
    simp only [run] at h ⊢
    split at h
    next v hv => rw [flat, Memory.peek_of_read hv, ih v h]
    next => contradiction
  | write addr v next ih =>
    simp only [run] at h ⊢
    split at h
    next m' hm => rw [flat, ← Memory.peek_of_write hm, ih h]
    next => contradiction
  | input port next ih => exact congrArg (FlatTrail.emitBefore _) (ih _ h)
  | output port v next ih => exact congrArg (FlatTrail.emitBefore _) (ih h)

/-- The same for a run that is given by what it leaves behind. -/
theorem flat_of_run_eq {bus : Bus β} {c : Cycles α} {m m' : Memory} {b b' : β} {a : α}
    {es : List Emission} (h : c.run bus m b = ⟨.ok a, m', b', es⟩) :
    c.flat bus m.peek b = ⟨.ok a, m'.peek, b', es⟩ ∧ m'.size = m.size := by
  have hs := size_run bus c m b
  have hf : c.flat bus m.peek b = (c.run bus m b).flatten := flat_of_run (congrArg Trail.result h)
  rw [h] at hs hf
  exact ⟨hf, hs⟩

end Cycles

end Intel8080
