import Intel8080.Registers

/-! The causes for which an operation is refused, and their wording. -/

namespace Intel8080

/-- The largest memory that sixteen-bit addresses reach. -/
def maxMemorySize : Nat := 65536

def Pair.name : Pair → String
  | bc => "BC"
  | de => "DE"
  | hl => "HL"
  | sp => "SP"

inductive Fault where
  /-- An access beyond the memory image. -/
  | addressOutOfRange (addr : Word) (size : Nat)
  /-- A push or pop of a pair that the stack operations cannot name. -/
  | invalidStackOperand (pair : Pair)
  /-- An undefined opcode, where those are not run as aliases. -/
  | undefinedOpcode (code : Byte) (pc : Word)
  /-- An interrupt opcode with immediate bytes, which an interrupt cannot supply. -/
  | multiByteInterrupt (code : Byte)
  | programTooLarge (size : Nat) (offset : Word) (capacity : Nat)
  | invalidMemorySize (size : Nat)
  deriving DecidableEq

namespace Fault

def message : Fault → String
  | addressOutOfRange addr size =>
    "address 0x" ++ Word.hex addr ++ " is outside memory of " ++ toString size ++ " bytes"
  | invalidStackOperand pair =>
    "register pair " ++ pair.name ++ " cannot be used as a PUSH/POP operand"
  | undefinedOpcode code pc =>
    "undefined opcode 0x" ++ code.hex ++ " at PC=0x" ++ Word.hex pc
  | multiByteInterrupt code =>
    "interrupt opcode 0x" ++ code.hex ++ " needs operand bytes the interrupt cannot supply"
  | programTooLarge size offset capacity =>
    "program of " ++ toString size ++ " bytes at offset 0x" ++ Word.hex offset ++
      " does not fit in " ++ toString capacity ++ " bytes of memory"
  | invalidMemorySize size =>
    "memory size " ++ toString size ++ " is outside 1..=" ++ toString maxMemorySize

end Fault

end Intel8080
