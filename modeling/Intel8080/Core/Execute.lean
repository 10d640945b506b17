import Intel8080.Core.Basic

/-! The effect of each operation on the core, as machine cycles. The program counter already
points behind the instruction; the immediate byte or word comes as an argument. -/

namespace Intel8080.Core

/-- Reads the port into the accumulator. -/
def input (port : Byte) (c : Core) : Cycles Core :=
  .input port fun v =>
    .done { c.setA v with addressBus := Word.ofBytes port port, dataBus := v }

/-- Writes the accumulator to the port. -/
def output (port : Byte) (c : Core) : Cycles Core :=
  let v := c.registers.a
  .output port v (.done { c with addressBus := Word.ofBytes port port, dataBus := v })

/-- HL and the word on top of the stack change places, through WZ. -/
def exchangeTop (c : Core) : Cycles Core := do
  let sp := c.registers.sp
  let w ← .readWord sp
  .writeWord sp c.registers.hl
  let c := c.setPair .hl w
  return { c with registers := { c.registers with wz := w } }

/-- HL and DE change places, through WZ. -/
def exchange (c : Core) : Core :=
  let { d, e, h, l, .. } := c.registers
  { c with registers := { c.registers with h := d, l := e, d := h, e := l, wz := c.registers.hl } }

/-- Enables interrupts, from the next instruction boundary on or one later. -/
def enableInterrupts (delayed : Bool) (c : Core) : Core :=
  { c with interruptsEnabled := true, shadow := delayed }

def disableInterrupts (c : Core) : Core :=
  { c with interruptsEnabled := false, shadow := false }

def execute (delayedEi : Bool) (op : Operation) (immediate : Word) (c : Core) : Cycles Core :=
  let r := c.registers
  match op with
  | .nop => return c
  | .hlt => .note (.haltedAt (r.pc - 1)) (.done { c with halted := true })
  | .mov dst src => do
    let v ← c.load src
    c.store dst v
  | .mvi dst => c.store dst (Word.low immediate)
  | .lxi pair => return c.setPair pair immediate
  | .lda => return c.setA (← .readByte immediate)
  | .sta => do
    .writeByte immediate r.a
    return c
  | .lhld => return c.setPair .hl (← .readWord immediate)
  | .shld => do
    .writeWord immediate r.hl
    return c
  | .ldax pointer => return c.setA (← .readByte (r.pair pointer.pair))
  | .stax pointer => do
    .writeByte (r.pair pointer.pair) r.a
    return c
  | .xchg => return c.exchange
  | .alu op src => do
    let v ← c.load src
    return c.setResult (op.apply r.a v c.flags)
  | .aluImmediate op => return c.setResult (op.apply r.a (Word.low immediate) c.flags)
  | .inr dst => c.modify Alu.increment dst
  | .dcr dst => c.modify Alu.decrement dst
  | .inx pair => return c.setPair pair (Alu.incrementWord (r.pair pair))
  | .dcx pair => return c.setPair pair (Alu.decrementWord (r.pair pair))
  | .dad pair =>
    let x := Alu.addWord r.hl (r.pair pair) c.flags
    return { c.setPair .hl x.1 with flags := x.2 }
  | .rotate rotation => return c.setResult (rotation.apply r.a c.flags)
  | .daa => return c.setResult (Alu.decimalAdjust r.a c.flags)
  | .cma => return c.setA (Alu.complement r.a)
  | .stc => return { c with flags := { c.flags with carry := true } }
  | .cmc => return { c with flags := { c.flags with carry := !c.flags.carry } }
  | .jmp => return c.jump immediate
  | .jcc condition => return if condition.holds c.flags then c.jump immediate else c
  | .call => c.call immediate
  | .ccc condition => if condition.holds c.flags then c.call immediate else return c
  | .ret => c.ret
  | .rcc condition => if condition.holds c.flags then c.ret else return c
  | .rst vector => c.restart vector
  | .pchl => return c.jump r.hl
  | .push pair => c.push pair
  | .pop pair => c.pop pair
  | .xthl => c.exchangeTop
  | .sphl => return c.setPair .sp r.hl
  | .input => c.input (Word.low immediate)
  | .output => c.output (Word.low immediate)
  | .ei => .note .enabledInterrupts (.done (c.enableInterrupts delayedEi))
  | .di => .note .disabledInterrupts (.done c.disableInterrupts)

end Intel8080.Core
