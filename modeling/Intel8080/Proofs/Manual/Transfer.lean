import Intel8080.Cpu
import Intel8080.Proofs.Manual.Arithmetic
import Intel8080.Proofs.Manual.Instruction
import Mathlib.Logic.Function.Basic

/-! What each instruction does, as the manual gives it: a transfer between registers, flags, ports
and a memory that has a byte at every address. Whatever a transfer does not name stays. Before the
transfer the program counter moves behind the instruction, a word operand is left in WZ, and the
shadow of an earlier EI ends. -/

namespace Intel8080.Manual

/-- The core with all of the address space and a device behind the ports. -/
structure Machine (β : Type) extends Core where
  memory : Word → Byte
  device : β
  /-- What the device lets out. -/
  emitted : List Emission

namespace Machine

variable {β : Type}

/-- A pair of registers as a word, with the first of them in the upper half. -/
def pair (s : Machine β) : Pair → Word
  | .bc => halves s.registers.b s.registers.c
  | .de => halves s.registers.d s.registers.e
  | .hl => halves s.registers.h s.registers.l
  | .sp => s.registers.sp

def setPair (s : Machine β) (p : Pair) (w : Word) : Machine β :=
  match p with
  | .bc => { s with registers.b := upperHalf w, registers.c := lowerHalf w }
  | .de => { s with registers.d := upperHalf w, registers.e := lowerHalf w }
  | .hl => { s with registers.h := upperHalf w, registers.l := lowerHalf w }
  | .sp => { s with registers.sp := w }

/-- A register, or the byte that HL points at. -/
def operand (s : Machine β) : Operand → Byte
  | .reg .a => s.registers.a
  | .reg .b => s.registers.b
  | .reg .c => s.registers.c
  | .reg .d => s.registers.d
  | .reg .e => s.registers.e
  | .reg .h => s.registers.h
  | .reg .l => s.registers.l
  | .memory => s.memory (s.pair .hl)

def setOperand (s : Machine β) (o : Operand) (v : Byte) : Machine β :=
  match o with
  | .reg .a => { s with registers.a := v }
  | .reg .b => { s with registers.b := v }
  | .reg .c => { s with registers.c := v }
  | .reg .d => { s with registers.d := v }
  | .reg .e => { s with registers.e := v }
  | .reg .h => { s with registers.h := v }
  | .reg .l => { s with registers.l := v }
  | .memory => { s with memory := Function.update s.memory (s.pair .hl) v }

/-- Where a pointer points. -/
def target (s : Machine β) : Pointer → Word
  | .bc => s.pair .bc
  | .de => s.pair .de

/-- The accumulator and the flags. -/
def setResult (s : Machine β) (x : Byte × Flags) : Machine β :=
  { s with registers.a := x.1, flags := x.2 }

/-- The word at an address, low byte first. -/
def word (s : Machine β) (addr : Word) : Word := halves (s.memory (addr + 1)) (s.memory addr)

def setWord (s : Machine β) (addr w : Word) : Machine β :=
  { s with
    memory := Function.update (Function.update s.memory addr (lowerHalf w)) (addr + 1)
      (upperHalf w) }

/-- The high byte goes to SP-1 and the low byte to SP-2. -/
def push (s : Machine β) (w : Word) : Machine β :=
  { s with
    memory := Function.update (Function.update s.memory (s.registers.sp - 1) (upperHalf w))
      (s.registers.sp - 2) (lowerHalf w)
    registers.sp := s.registers.sp - 2 }

/-- The word on top of the stack. -/
def top (s : Machine β) : Word := s.word s.registers.sp

def pop (s : Machine β) : Machine β := { s with registers.sp := s.registers.sp + 2 }

def jump (s : Machine β) (target : Word) : Machine β := { s with registers.pc := target }

def call (s : Machine β) (target : Word) : Machine β := (s.push s.registers.pc).jump target

def ret (s : Machine β) : Machine β := s.pop.jump s.top

/-- The program status word is the accumulator over the status byte. -/
def stackPair (s : Machine β) : StackPair → Word
  | .bc => s.pair .bc
  | .de => s.pair .de
  | .hl => s.pair .hl
  | .psw => halves s.registers.a (byteOfBits (statusBits s.flags))

def setStackPair (s : Machine β) (p : StackPair) (w : Word) : Machine β :=
  match p with
  | .bc => s.setPair .bc w
  | .de => s.setPair .de w
  | .hl => s.setPair .hl w
  | .psw =>
    let bit i := (lowerHalf w).toNat.testBit i
    s.setResult (upperHalf w,
      { carry := bit 0, parity := bit 2, auxiliary := bit 4, zero := bit 6, sign := bit 7 })

/-- The port number goes out on both halves of the address bus. -/
def latchPort (s : Machine β) (port v : Byte) : Machine β :=
  { s with addressBus := halves port port, dataBus := v }

end Machine

namespace Instruction

variable {β : Type}

/-- The machine once the instruction has been read. -/
def fetched (i : Instruction) (s : Machine β) : Machine β :=
  { s with
    registers.pc := s.registers.pc + UInt16.ofNat i.bytes.length
    registers.wz := if i.bytes.length = 3 then i.immediate else s.registers.wz
    shadow := false }

/-- The transfer itself. -/
def transfer (bus : Bus β) (delayedEi : Bool) (i : Instruction) (s : Machine β) : Machine β :=
  let r := s.registers
  let hl := s.pair .hl
  match i with
  | mov dst src _ => s.setOperand dst (s.operand src)
  | mvi dst v => s.setOperand dst v
  | lxi pair w => s.setPair pair w
  | lda addr => { s with registers.a := s.memory addr }
  | sta addr => { s with memory := Function.update s.memory addr r.a }
  | lhld addr => s.setPair .hl (s.word addr)
  | shld addr => s.setWord addr hl
  | ldax pointer => { s with registers.a := s.memory (s.target pointer) }
  | stax pointer => { s with memory := Function.update s.memory (s.target pointer) r.a }
  | xchg => { s.setPair .hl (s.pair .de) |>.setPair .de hl with registers.wz := hl }
  | alu op src => s.setResult (combine op r.a (s.operand src) s.flags)
  | aluImmediate op v => s.setResult (combine op r.a v s.flags)
  | inr dst =>
    let x := increment (s.operand dst) s.flags
    { s.setOperand dst x.1 with flags := x.2 }
  | dcr dst =>
    let x := decrement (s.operand dst) s.flags
    { s.setOperand dst x.1 with flags := x.2 }
  | inx pair => s.setPair pair (s.pair pair + 1)
  | dcx pair => s.setPair pair (s.pair pair - 1)
  | dad pair =>
    let x := addWords hl (s.pair pair) s.flags
    { s.setPair .hl x.1 with flags := x.2 }
  | rotate rotation => s.setResult (turn rotation r.a s.flags)
  | daa => s.setResult (adjust r.a s.flags)
  | cma => { s with registers.a := r.a ^^^ 0xFF }
  | stc => { s with flags.carry := true }
  | cmc => { s with flags.carry := !s.flags.carry }
  | jmp target => s.jump target
  | jcc condition target => if tested condition s.flags then s.jump target else s
  | call target => s.call target
  | ccc condition target => if tested condition s.flags then s.call target else s
  | ret => s.ret
  | rcc condition => if tested condition s.flags then s.ret else s
  | rst vector => s.call (UInt16.ofNat (8 * vector.val))
  | pchl => s.jump hl
  | push pair => s.push (s.stackPair pair)
  | pop pair => s.pop.setStackPair pair s.top
  | xthl => { s.setWord r.sp hl |>.setPair .hl s.top with registers.wz := s.top }
  | sphl => { s with registers.sp := hl }
  | input port =>
    match bus.read s.device port with
    | (v, device, es) =>
      { s.latchPort port v with registers.a := v, device, emitted := s.emitted ++ es }
  | output port =>
    match bus.write s.device port r.a with
    | (device, es) => { s.latchPort port r.a with device, emitted := s.emitted ++ es }
  | ei => { s with interruptsEnabled := true, shadow := delayedEi }
  | di => { s with interruptsEnabled := false }
  | hlt => { s with halted := true }
  | nop => s

def perform (bus : Bus β) (delayedEi : Bool) (i : Instruction) (s : Machine β) : Machine β :=
  i.transfer bus delayedEi (i.fetched s)

/-- The states that the instruction takes; a call or a return whose condition holds takes more. -/
def cost (f : Flags) : Instruction → Nat
  | mov dst src _ => if dst = .memory ∨ src = .memory then 7 else 5
  | mvi dst _ => if dst = .memory then 10 else 7
  | alu _ src => if src = .memory then 7 else 4
  | inr dst | dcr dst => if dst = .memory then 10 else 5
  | ccc condition _ => if tested condition f then 17 else 11
  | rcc condition => if tested condition f then 11 else 5
  | nop | xchg | rotate _ | daa | cma | stc | cmc | ei | di => 4
  | inx _ | dcx _ | pchl | sphl => 5
  | aluImmediate _ _ | ldax _ | stax _ | hlt => 7
  | lxi _ _ | dad _ | jmp _ | jcc _ _ | ret | pop _ | input _ | output _ => 10
  | push _ | rst _ => 11
  | lda _ | sta _ => 13
  | lhld _ | shld _ => 16
  | call _ => 17
  | xthl => 18

end Instruction

end Intel8080.Manual
