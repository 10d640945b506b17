import Intel8080.Operation.Table
import Intel8080.Memory

/-! The assembly language of the processor: instructions with their operands, and the bytes they
assemble to. An opcode byte is put together from bit fields: a destination, a condition or an
arithmetic operation in bits 3 to 5, a source in bits 0 to 2, a pair in bits 4 and 5. Immediate
words follow low byte first. Every opcode byte decodes to the operation it was assembled from. -/

namespace Intel8080.Manual

inductive Instruction where
  /-- Not from memory to memory. -/
  | mov (dst src : Operand) (distinct : dst ≠ .memory ∨ src ≠ .memory)
  | mvi (dst : Operand) (value : Byte)
  | lxi (pair : Pair) (value : Word)
  | lda (addr : Word)
  | sta (addr : Word)
  | lhld (addr : Word)
  | shld (addr : Word)
  | ldax (pointer : Pointer)
  | stax (pointer : Pointer)
  | xchg
  | alu (op : AluOp) (src : Operand)
  | aluImmediate (op : AluOp) (value : Byte)
  | inr (dst : Operand)
  | dcr (dst : Operand)
  | inx (pair : Pair)
  | dcx (pair : Pair)
  | dad (pair : Pair)
  | rotate (rotation : Rotation)
  | daa
  | cma
  | stc
  | cmc
  | jmp (target : Word)
  | jcc (condition : Condition) (target : Word)
  | call (target : Word)
  | ccc (condition : Condition) (target : Word)
  | ret
  | rcc (condition : Condition)
  | rst (vector : Fin 8)
  | pchl
  | push (pair : StackPair)
  | pop (pair : StackPair)
  | xthl
  | sphl
  | input (port : Byte)
  | output (port : Byte)
  | ei
  | di
  | hlt
  | nop
  deriving DecidableEq

/-- A three-bit field in bits 3 to 5. -/
def upper (n : Fin 8) : Byte := UInt8.ofNat n.val <<< 3

/-- A three-bit field in bits 0 to 2. -/
def lower (n : Fin 8) : Byte := UInt8.ofNat n.val

/-- A two-bit field in bits 4 and 5. -/
def pairField (n : Fin 4) : Byte := UInt8.ofNat n.val <<< 4

/-- Bits 8 to 15 of a word. -/
def upperHalf (w : Word) : Byte := (w >>> 8).toUInt8

/-- Bits 0 to 7 of a word. -/
def lowerHalf (w : Word) : Byte := w.toUInt8

/-- The word with the two bytes for its halves. -/
def halves (upper lower : Byte) : Word := upper.toUInt16 <<< 8 ||| lower.toUInt16

theorem upperHalf_eq (w : Word) : upperHalf w = Word.high w := by
  have hshift : (w >>> 8).toNat = w.toNat / 256 := Nat.shiftRight_eq_div_pow w.toNat 8
  apply UInt8.toNat_inj.mp
  have := w.toNat_lt
  rw [upperHalf, UInt16.toNat_toUInt8, hshift, Word.toNat_high]
  omega

theorem lowerHalf_eq (w : Word) : lowerHalf w = Word.low w := by
  apply UInt8.toNat_inj.mp
  rw [lowerHalf, UInt16.toNat_toUInt8, Word.toNat_low]

theorem halves_eq (h l : Byte) : halves h l = Word.ofBytes h l := by
  have hl : l.toNat < 2 ^ 8 := l.toNat_lt
  have := h.toNat_lt
  have hshift : (h.toUInt16 <<< 8).toNat = h.toNat <<< 8 := by
    rw [UInt16.toNat_shiftLeft, UInt8.toNat_toUInt16]
    change h.toNat <<< 8 % 65536 = _
    rw [Nat.shiftLeft_eq]
    omega
  apply UInt16.toNat_inj.mp
  rw [halves, UInt16.toNat_or, hshift, UInt8.toNat_toUInt16, ← Nat.shiftLeft_add_eq_or_of_lt hl,
    Nat.shiftLeft_eq, Word.toNat_ofBytes, Nat.mul_comm]

namespace Instruction

def opcode : Instruction → Byte
  | mov dst src _ => 0x40 ||| upper dst.field ||| lower src.field
  | mvi dst _ => 0x06 ||| upper dst.field
  | lxi pair _ => 0x01 ||| pairField pair.field
  | lda _ => 0x3A
  | sta _ => 0x32
  | lhld _ => 0x2A
  | shld _ => 0x22
  | ldax pointer => 0x0A ||| pairField pointer.pair.field
  | stax pointer => 0x02 ||| pairField pointer.pair.field
  | xchg => 0xEB
  | alu op src => 0x80 ||| upper op.field ||| lower src.field
  | aluImmediate op _ => 0xC6 ||| upper op.field
  | inr dst => 0x04 ||| upper dst.field
  | dcr dst => 0x05 ||| upper dst.field
  | inx pair => 0x03 ||| pairField pair.field
  | dcx pair => 0x0B ||| pairField pair.field
  | dad pair => 0x09 ||| pairField pair.field
  | rotate .left => 0x07
  | rotate .right => 0x0F
  | rotate .leftThroughCarry => 0x17
  | rotate .rightThroughCarry => 0x1F
  | daa => 0x27
  | cma => 0x2F
  | stc => 0x37
  | cmc => 0x3F
  | jmp _ => 0xC3
  | jcc condition _ => 0xC2 ||| upper condition.field
  | call _ => 0xCD
  | ccc condition _ => 0xC4 ||| upper condition.field
  | ret => 0xC9
  | rcc condition => 0xC0 ||| upper condition.field
  | rst vector => 0xC7 ||| upper vector
  | pchl => 0xE9
  | push pair => 0xC5 ||| pairField pair.field
  | pop pair => 0xC1 ||| pairField pair.field
  | xthl => 0xE3
  | sphl => 0xF9
  | input _ => 0xDB
  | output _ => 0xD3
  | ei => 0xFB
  | di => 0xF3
  | hlt => 0x76
  | nop => 0x00

/-- The immediate bytes behind the opcode. -/
def operandBytes : Instruction → List Byte
  | mvi _ v | aluImmediate _ v | input v | output v => [v]
  | lxi _ w | lda w | sta w | lhld w | shld w | jmp w | jcc _ w | call w | ccc _ w =>
    [lowerHalf w, upperHalf w]
  | _ => []

/-- What the instruction assembles to. -/
def bytes (i : Instruction) : List Byte := i.opcode :: i.operandBytes

/-- The bytes stand in memory from the address on, modulo the address space. -/
def StandsAt (i : Instruction) (m : Memory) (addr : Word) : Prop :=
  ∀ k (h : k < i.bytes.length), m.read (addr + UInt16.ofNat k) = .ok i.bytes[k]

/-- The operation without its immediate operand. -/
def operation : Instruction → Operation
  | mov dst src _ => .mov dst src
  | mvi dst _ => .mvi dst
  | lxi pair _ => .lxi pair
  | lda _ => .lda
  | sta _ => .sta
  | lhld _ => .lhld
  | shld _ => .shld
  | ldax pointer => .ldax pointer
  | stax pointer => .stax pointer
  | xchg => .xchg
  | alu op src => .alu op src
  | aluImmediate op _ => .aluImmediate op
  | inr dst => .inr dst
  | dcr dst => .dcr dst
  | inx pair => .inx pair
  | dcx pair => .dcx pair
  | dad pair => .dad pair
  | rotate rotation => .rotate rotation
  | daa => .daa
  | cma => .cma
  | stc => .stc
  | cmc => .cmc
  | jmp _ => .jmp
  | jcc condition _ => .jcc condition
  | call _ => .call
  | ccc condition _ => .ccc condition
  | ret => .ret
  | rcc condition => .rcc condition
  | rst vector => .rst vector
  | pchl => .pchl
  | push pair => .push pair
  | pop pair => .pop pair
  | xthl => .xthl
  | sphl => .sphl
  | input _ => .input
  | output _ => .output
  | ei => .ei
  | di => .di
  | hlt => .hlt
  | nop => .nop

/-- The immediate operand as a word, zero where there is none. -/
def immediate : Instruction → Word
  | mvi _ v | aluImmediate _ v | input v | output v => v.toUInt16
  | lxi _ w | lda w | sta w | lhld w | shld w | jmp w | jcc _ w | call w | ccc _ w => w
  | _ => 0

/-- The two ways of putting an opcode byte together agree, and it is a documented one. -/
theorem opcode_eq_code (i : Instruction) :
    i.opcode = i.operation.code ∧ Operation.documented i.opcode = true := by
  cases i with
  | mov dst src _ =>
    rcases dst with (_ | _ | _ | _ | _ | _ | _) | _ <;>
      rcases src with (_ | _ | _ | _ | _ | _ | _) | _ <;> exact ⟨rfl, rfl⟩
  | alu op src =>
    rcases src with (_ | _ | _ | _ | _ | _ | _) | _ <;> cases op <;> exact ⟨rfl, rfl⟩
  | mvi dst _ | inr dst | dcr dst =>
    rcases dst with (_ | _ | _ | _ | _ | _ | _) | _ <;> exact ⟨rfl, rfl⟩
  | lxi x _ | ldax x | stax x | aluImmediate x _ | inx x | dcx x | dad x | rotate x | jcc x _
  | ccc x _ | rcc x | push x | pop x => cases x <;> exact ⟨rfl, rfl⟩
  | rst vector => revert vector; decide
  | _ => exact ⟨rfl, rfl⟩

theorem decode_opcode (i : Instruction) : Operation.decode i.opcode = i.operation := by
  rw [(opcode_eq_code i).1]
  apply Operation.decode_code
  cases i with
  | mov dst src distinct =>
    rw [operation, Ne, Operation.mov.injEq]
    rintro ⟨rfl, rfl⟩
    simp at distinct
  | _ => nofun

end Instruction

end Intel8080.Manual
