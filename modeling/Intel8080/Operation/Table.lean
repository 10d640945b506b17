import Intel8080.Operation.Basic

/-! The instruction table: the mnemonic of each operation, the bytes that follow its opcode, and
how many states it takes. A conditional call or return takes longer when its condition holds. -/

namespace Intel8080

/-- The bytes that follow the opcode. -/
inductive Immediate where
  | none | byte | word
  deriving DecidableEq

/-- Instruction length in bytes, opcode included. -/
def Immediate.length : Immediate → Word
  | none => 1
  | byte => 2
  | word => 3

namespace Operation

def mnemonic : Operation → String
  | nop => "NOP"
  | hlt => "HLT"
  | mov _ _ => "MOV"
  | mvi _ => "MVI"
  | lxi _ => "LXI"
  | lda => "LDA"
  | sta => "STA"
  | lhld => "LHLD"
  | shld => "SHLD"
  | ldax _ => "LDAX"
  | stax _ => "STAX"
  | xchg => "XCHG"
  | alu op _ => op.mnemonic
  | aluImmediate op => op.immediateMnemonic
  | inr _ => "INR"
  | dcr _ => "DCR"
  | inx _ => "INX"
  | dcx _ => "DCX"
  | dad _ => "DAD"
  | rotate r => r.mnemonic
  | daa => "DAA"
  | cma => "CMA"
  | stc => "STC"
  | cmc => "CMC"
  | jmp => "JMP"
  | jcc c => "J" ++ c.letters
  | call => "CALL"
  | ccc c => "C" ++ c.letters
  | ret => "RET"
  | rcc c => "R" ++ c.letters
  | rst _ => "RST"
  | pchl => "PCHL"
  | push _ => "PUSH"
  | pop _ => "POP"
  | xthl => "XTHL"
  | sphl => "SPHL"
  | input => "IN"
  | output => "OUT"
  | ei => "EI"
  | di => "DI"

def immediate : Operation → Immediate
  | mvi _ | aluImmediate _ | input | output => .byte
  | lxi _ | lda | sta | lhld | shld | jmp | jcc _ | call | ccc _ => .word
  | _ => .none

/-- Length in bytes, opcode included. -/
def length (op : Operation) : Word := op.immediate.length

/-- States taken when no condition holds. -/
def states : Operation → Nat
  | nop => 4
  | hlt => 7
  | mov dst src => if dst = .memory ∨ src = .memory then 7 else 5
  | mvi dst => if dst = .memory then 10 else 7
  | lxi _ => 10
  | lda | sta => 13
  | lhld | shld => 16
  | ldax _ | stax _ => 7
  | xchg => 4
  | alu _ src => if src = .memory then 7 else 4
  | aluImmediate _ => 7
  | inr dst | dcr dst => if dst = .memory then 10 else 5
  | inx _ | dcx _ => 5
  | dad _ => 10
  | rotate _ | daa | cma | stc | cmc => 4
  | jmp | jcc _ => 10
  | call => 17
  | ccc _ => 11
  | ret => 10
  | rcc _ => 5
  | rst _ => 11
  | pchl => 5
  | push _ => 11
  | pop _ => 10
  | xthl => 18
  | sphl => 5
  | input | output => 10
  | ei | di => 4

/-- States taken when the condition, if there is one, holds. -/
def statesTaken : Operation → Nat
  | ccc _ => 17
  | rcc _ => 11
  | op => op.states

/-- The condition of a conditional jump, call or return. -/
def condition? : Operation → Option Condition
  | jcc c | ccc c | rcc c => some c
  | _ => none

/-- States taken under the given flags. -/
def cost (op : Operation) (f : Flags) : Nat :=
  match op.condition? with
  | some c => if c.holds f then op.statesTaken else op.states
  | none => op.states

end Operation

end Intel8080
