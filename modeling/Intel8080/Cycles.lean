import Intel8080.Event
import Intel8080.Memory
import Intel8080.Signal

/-! Machine cycles: what an instruction asks of the outside, access by access, with the rest of
its work waiting for each answer. Running the cycles answers memory accesses from a memory
image and port accesses from a bus, and stops at the first access that is refused. -/

namespace Intel8080

inductive Cycles (α : Type) where
  | done (a : α)
  | refuse (fault : Fault)
  | note (event : Event) (next : Cycles α)
  | read (addr : Word) (next : Byte → Cycles α)
  | write (addr : Word) (value : Byte) (next : Cycles α)
  | input (port : Byte) (next : Byte → Cycles α)
  | output (port value : Byte) (next : Cycles α)

/-- What a device lets out while it is accessed. -/
inductive Emission where
  | signal (s : Signal)
  /-- The device gives up its sender. -/
  | hangUp
  | event (e : Event)
  deriving DecidableEq

/-- A device behind the ports, with a state of type `β`. -/
structure Bus (β : Type) where
  read : β → Byte → Byte × β × List Emission
  write : β → Byte → Byte → β × List Emission

/-- The bus with nothing attached. -/
def Bus.null : Bus Unit where
  read _ _ := (0, (), [])
  write _ _ _ := ((), [])

/-- What running some cycles leaves behind. -/
structure Trail (α β : Type) where
  result : Except Fault α
  memory : Memory
  bus : β
  emitted : List Emission

namespace Trail

variable {α γ β : Type}

/-- Emissions from before the trail. -/
def emitBefore (es : List Emission) (t : Trail α β) : Trail α β :=
  { t with emitted := es ++ t.emitted }

/-- Goes on from where the trail ends, unless that is a refusal. -/
def andThen (t : Trail α β) (next : α → Memory → β → Trail γ β) : Trail γ β :=
  match t with
  | ⟨.ok a, m, b, es⟩ => (next a m b).emitBefore es
  | ⟨.error x, m, b, es⟩ => ⟨.error x, m, b, es⟩

@[simp] theorem emitBefore_nil (t : Trail α β) : t.emitBefore [] = t := rfl

theorem emitBefore_append (es fs : List Emission) (t : Trail α β) :
    t.emitBefore (es ++ fs) = (t.emitBefore fs).emitBefore es := by
  simp [emitBefore]

theorem emitBefore_andThen (es : List Emission) (t : Trail α β)
    (next : α → Memory → β → Trail γ β) :
    (t.emitBefore es).andThen next = (t.andThen next).emitBefore es := by
  rcases t with ⟨_ | _, m, b, fs⟩
  · rfl
  · exact emitBefore_append _ _ _

end Trail

namespace Cycles

variable {α γ β : Type}

protected def bind : Cycles α → (α → Cycles γ) → Cycles γ
  | done a, f => f a
  | refuse x, _ => refuse x
  | note e next, f => note e (next.bind f)
  | read addr next, f => read addr fun v => (next v).bind f
  | write addr v next, f => write addr v (next.bind f)
  | input port next, f => input port fun v => (next v).bind f
  | output port v next, f => output port v (next.bind f)

instance : Monad Cycles where
  pure := done
  bind := Cycles.bind

def readByte (addr : Word) : Cycles Byte := read addr done

def writeByte (addr : Word) (v : Byte) : Cycles Unit := write addr v (done ())

/-- Low byte first, from adjacent addresses modulo the address space. -/
def readWord (addr : Word) : Cycles Word := do
  let low ← readByte addr
  let high ← readByte (addr + 1)
  return Word.ofBytes high low

def writeWord (addr w : Word) : Cycles Unit := do
  writeByte addr (Word.low w)
  writeByte (addr + 1) (Word.high w)

def run (bus : Bus β) : Cycles α → Memory → β → Trail α β
  | done a, m, b => ⟨.ok a, m, b, []⟩
  | refuse x, m, b => ⟨.error x, m, b, []⟩
  | note e next, m, b => (next.run bus m b).emitBefore [.event e]
  | read addr next, m, b =>
    match m.read addr with
    | .ok v => (next v).run bus m b
    | .error x => ⟨.error x, m, b, []⟩
  | write addr v next, m, b =>
    match m.write addr v with
    | (.ok (), m) => next.run bus m b
    | (.error x, m) => ⟨.error x, m, b, []⟩
  | input port next, m, b =>
    match bus.read b port with
    | (v, b, es) => ((next v).run bus m b).emitBefore es
  | output port v next, m, b =>
    match bus.write b port v with
    | (b, es) => (next.run bus m b).emitBefore es

/-- Cycles that use no port, on a memory alone. -/
def perform (c : Cycles α) (m : Memory) : Except Fault α × Memory :=
  let t := c.run Bus.null m ()
  (t.result, t.memory)

@[simp] theorem pure_bind (a : α) (f : α → Cycles γ) : (pure a >>= f) = f a := rfl

theorem bind_assoc {δ : Type} (c : Cycles α) (f : α → Cycles γ) (g : γ → Cycles δ) :
    c >>= f >>= g = c >>= fun a => f a >>= g := by
  change (c.bind f).bind g = c.bind fun a => (f a).bind g
  induction c with
  | done a => rfl
  | refuse x => rfl
  | note e next ih => simp [Cycles.bind, ih]
  | read addr next ih => simp [Cycles.bind, ih]
  | write addr v next ih => simp [Cycles.bind, ih]
  | input port next ih => simp [Cycles.bind, ih]
  | output port v next ih => simp [Cycles.bind, ih]

/-- Running cycles in sequence is running them one after the other. -/
theorem run_bind (bus : Bus β) (c : Cycles α) (f : α → Cycles γ) (m : Memory) (b : β) :
    (c >>= f).run bus m b = (c.run bus m b).andThen fun a m b => (f a).run bus m b := by
  change (c.bind f).run bus m b = _
  induction c generalizing m b with
  | done a => rfl
  | refuse x => rfl
  | note e next ih => simp only [Cycles.bind, run, ih, Trail.emitBefore_andThen]
  | read addr next ih =>
    simp only [Cycles.bind, run]
    split
    · exact ih _ _ _
    · rfl
  | write addr v next ih =>
    simp only [Cycles.bind, run]
    split
    · exact ih _ _
    · rfl
  | input port next ih => simp only [Cycles.bind, run, ih, Trail.emitBefore_andThen]
  | output port v next ih => simp only [Cycles.bind, run, ih, Trail.emitBefore_andThen]

end Cycles

end Intel8080
