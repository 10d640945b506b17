import Intel8080.Config
import Intel8080.Cycles

/-! The processor without its memory: registers, flags, the interrupt enable and the bus
latches, with the stack operations as machine cycles. A core is handed on only when all cycles
were granted, so a refused access leaves it as it was. -/

namespace Intel8080

@[ext] structure Core where
  registers : Registers := {}
  flags : Flags := {}
  interruptsEnabled : Bool := true
  halted : Bool := false
  /-- Interrupts are held off until one more instruction has run. -/
  shadow : Bool := false
  /-- The port last used, in both bytes. -/
  addressBus : Word := 0
  /-- The byte last moved through a port. -/
  dataBus : Byte := 0
  deriving DecidableEq

namespace Core

/-- The core after a reset. -/
def initial (config : Config) : Core := { interruptsEnabled := config.interruptsEnabled }

def jump (target : Word) (c : Core) : Core :=
  { c with registers := { c.registers with pc := target } }

def setA (v : Byte) (c : Core) : Core :=
  { c with registers := { c.registers with a := v } }

def setPair (p : Pair) (w : Word) (c : Core) : Core :=
  { c with registers := c.registers.setPair p w }

/-- The accumulator and flags that an operation produced. -/
def setResult (x : Byte × Flags) (c : Core) : Core :=
  { c with registers := { c.registers with a := x.1 }, flags := x.2 }

def load (o : Operand) (c : Core) : Cycles Byte :=
  match o with
  | .reg r => return c.registers.get r
  | .memory => .readByte c.registers.hl

def store (o : Operand) (v : Byte) (c : Core) : Cycles Core :=
  match o with
  | .reg r => return { c with registers := c.registers.set r v }
  | .memory => do
    .writeByte c.registers.hl v
    return c

/-- An operand replaced by a function of itself and the flags. -/
def modify (f : Byte → Flags → Byte × Flags) (o : Operand) (c : Core) : Cycles Core := do
  let v ← c.load o
  let x := f v c.flags
  let c ← c.store o x.1
  return { c with flags := x.2 }

/-- The high byte goes just below the stack pointer, the low byte below that. -/
def pushWord (w : Word) (c : Core) : Cycles Core := do
  let sp := c.registers.sp
  .writeByte (sp - 1) (Word.high w)
  .writeByte (sp - 2) (Word.low w)
  return { c with registers := { c.registers with sp := sp - 2 } }

def popWord (c : Core) : Cycles (Word × Core) := do
  let sp := c.registers.sp
  let w ← .readWord sp
  return (w, { c with registers := { c.registers with sp := sp + 2 } })

/-- The word that a push of the pair stores. -/
def stackWord (p : StackPair) (c : Core) : Word :=
  match p with
  | .bc => c.registers.bc
  | .de => c.registers.de
  | .hl => c.registers.hl
  | .psw => Word.ofBytes c.registers.a c.flags.status

/-- The effect of popping the word into the pair. -/
def setStackWord (p : StackPair) (w : Word) (c : Core) : Core :=
  match p with
  | .bc => c.setPair .bc w
  | .de => c.setPair .de w
  | .hl => c.setPair .hl w
  | .psw => c.setResult (Word.high w, Flags.ofStatus (Word.low w))

def push (p : StackPair) (c : Core) : Cycles Core := c.pushWord (c.stackWord p)

def pop (p : StackPair) (c : Core) : Cycles Core := do
  let (w, c) ← c.popWord
  return c.setStackWord p w

/-- Pushes the program counter and continues at the target. -/
def call (target : Word) (c : Core) : Cycles Core := do
  let c ← c.pushWord c.registers.pc
  return c.jump target

/-- A call of the vector's own address, eight times its number; the last three bits count. -/
def restart (n : Byte) (c : Core) : Cycles Core := c.call ((n &&& 0x07).toUInt16 * 8)

theorem restart_eq_call (n : Byte) (c : Core) :
    c.restart n = c.call (UInt16.ofNat (8 * n.last.val)) := by
  have htarget : (n &&& 0x07).toUInt16 * 8 = UInt16.ofNat (8 * n.last.val) := by
    apply UInt16.toNat_inj.mp
    rw [UInt16.toNat_mul, UInt8.toNat_toUInt16, n.toNat_mask, UInt16.toNat_ofNat', Nat.mul_comm]
    rfl
  rw [restart, htarget]

/-- Pops the program counter. -/
def ret (c : Core) : Cycles Core := do
  let (w, c) ← c.popWord
  return c.jump w

end Core

end Intel8080
