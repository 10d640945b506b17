import Intel8080.Core.Basic

/-! What stands before execution: an instruction is fetched and decoded at the program counter,
or an interrupt supplies its opcode. Either ends in an operation that is ready to execute. -/

namespace Intel8080

/-- An operation with its immediate byte or word, and the core that it executes on. -/
structure Prepared where
  operation : Operation
  immediate : Word
  core : Core

namespace Core

/-- Lets a documented opcode pass, and an undefined one only where those run as aliases. -/
def permit (config : Config) (code : Byte) (pc : Word) : Cycles Unit :=
  if Operation.documented code then return ()
  else
    match config.undefinedOpcodes with
    | .fault => .refuse (.undefinedOpcode code pc)
    | .alias => .note (.ranUndefined code pc) (.done ())

/-- The bytes behind an opcode as one word, which is zero where there are none. -/
def readImmediate (kind : Immediate) (addr : Word) : Cycles Word :=
  match kind with
  | .none => return 0
  | .byte => return (← .readByte addr).toUInt16
  | .word => .readWord addr

/-- The core once an instruction has been read: the program counter behind it, a word operand
in WZ, and the shadow of an earlier EI gone. -/
def advance (op : Operation) (immediate : Word) (c : Core) : Core :=
  let r := c.registers
  let wz := if op.immediate = .word then immediate else r.wz
  { c with registers := { r with wz, pc := r.pc + op.length }, shadow := false }

/-- Reads the instruction at the program counter. -/
def fetch (config : Config) (c : Core) : Cycles Prepared := do
  let r := c.registers
  let code ← .readByte r.pc
  permit config code r.pc
  let op := Operation.decode code
  let immediate ← readImmediate op.immediate (r.pc + 1)
  .note (.fetched r.pc code immediate r.a c.flags.status r.sp) (.done ())
  return ⟨op, immediate, c.advance op immediate⟩

/-- Takes the opcode an interrupt supplies: interrupts go off and a halted processor wakes. -/
def acknowledge (config : Config) (code : Byte) (c : Core) : Cycles Prepared := do
  let op := Operation.decode code
  if op.immediate ≠ .none then .refuse (.multiByteInterrupt code)
  else
    let pc := c.registers.pc
    permit config code pc
    .note (.tookInterrupt code pc) (.done ())
    return ⟨op, 0, { c with interruptsEnabled := false, halted := false }⟩

end Core

end Intel8080
