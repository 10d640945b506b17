import Intel8080.Alu
import Intel8080.Registers

/-! The operations of the processor and their opcode bytes. An operation names everything the
opcode byte selects; the immediate byte or word that follows the opcode is kept apart. An
opcode byte reads as three octal digits, and decoding is a table on those digits. -/

namespace Intel8080

inductive Operation where
  | nop
  | hlt
  | mov (dst src : Operand)
  | mvi (dst : Operand)
  | lxi (pair : Pair)
  | lda
  | sta
  | lhld
  | shld
  | ldax (pointer : Pointer)
  | stax (pointer : Pointer)
  | xchg
  | alu (op : AluOp) (src : Operand)
  | aluImmediate (op : AluOp)
  | inr (dst : Operand)
  | dcr (dst : Operand)
  | inx (pair : Pair)
  | dcx (pair : Pair)
  | dad (pair : Pair)
  | rotate (rotation : Rotation)
  | daa
  | cma
  | stc
  | cmc
  | jmp
  | jcc (condition : Condition)
  | call
  | ccc (condition : Condition)
  | ret
  | rcc (condition : Condition)
  | rst (vector : Fin 8)
  | pchl
  | push (pair : StackPair)
  | pop (pair : StackPair)
  | xthl
  | sphl
  | input
  | output
  | ei
  | di
  deriving DecidableEq

namespace Byte

/-- The leading octal digit. -/
def group (v : Byte) : Fin 4 := ⟨v.toNat / 64, by have := v.toNat_lt; omega⟩

/-- The middle octal digit. -/
def middle (v : Byte) : Fin 8 := ⟨v.toNat / 8 % 8, Nat.mod_lt _ (by decide)⟩

/-- The last octal digit. -/
def last (v : Byte) : Fin 8 := ⟨v.toNat % 8, Nat.mod_lt _ (by decide)⟩

@[simp] theorem last_field (n : Fin 8) : last n = n := by
  revert n
  decide

theorem toNat_mask (v : Byte) : (v &&& 0x07).toNat = v.last.val :=
  Nat.and_two_pow_sub_one_eq_mod v.toNat 3

end Byte

namespace Operation

/-- The operations with leading octal digit 0. -/
def ofGroup0 (y z : Fin 8) : Operation :=
  match z with
  | 0 => nop
  | 1 =>
    match y with
    | 0 => lxi .bc
    | 1 => dad .bc
    | 2 => lxi .de
    | 3 => dad .de
    | 4 => lxi .hl
    | 5 => dad .hl
    | 6 => lxi .sp
    | 7 => dad .sp
  | 2 =>
    match y with
    | 0 => stax .bc
    | 1 => ldax .bc
    | 2 => stax .de
    | 3 => ldax .de
    | 4 => shld
    | 5 => lhld
    | 6 => sta
    | 7 => lda
  | 3 =>
    match y with
    | 0 => inx .bc
    | 1 => dcx .bc
    | 2 => inx .de
    | 3 => dcx .de
    | 4 => inx .hl
    | 5 => dcx .hl
    | 6 => inx .sp
    | 7 => dcx .sp
  | 4 => inr (.ofField y)
  | 5 => dcr (.ofField y)
  | 6 => mvi (.ofField y)
  | 7 =>
    match y with
    | 0 => rotate .left
    | 1 => rotate .right
    | 2 => rotate .leftThroughCarry
    | 3 => rotate .rightThroughCarry
    | 4 => daa
    | 5 => cma
    | 6 => stc
    | 7 => cmc

/-- The operations with leading octal digit 3. -/
def ofGroup3 (y z : Fin 8) : Operation :=
  match z with
  | 0 => rcc (.ofField y)
  | 1 =>
    match y with
    | 0 => pop .bc
    | 1 => ret
    | 2 => pop .de
    | 3 => ret
    | 4 => pop .hl
    | 5 => pchl
    | 6 => pop .psw
    | 7 => sphl
  | 2 => jcc (.ofField y)
  | 3 =>
    match y with
    | 0 => jmp
    | 1 => jmp
    | 2 => output
    | 3 => input
    | 4 => xthl
    | 5 => xchg
    | 6 => di
    | 7 => ei
  | 4 => ccc (.ofField y)
  | 5 =>
    match y with
    | 0 => push .bc
    | 1 => call
    | 2 => push .de
    | 3 => call
    | 4 => push .hl
    | 5 => call
    | 6 => push .psw
    | 7 => call
  | 6 => aluImmediate (.ofField y)
  | 7 => rst y

/-- Every byte decodes; the move from memory to memory has its place taken by the halt. -/
def decode (code : Byte) : Operation :=
  match code.group with
  | 0 => ofGroup0 code.middle code.last
  | 1 =>
    if code = 0x76 then hlt else mov (.ofField code.middle) (.ofField code.last)
  | 2 => alu (.ofField code.middle) (.ofField code.last)
  | 3 => ofGroup3 code.middle code.last

/-- The opcode bytes without a meaning of their own. They run as the operation they decode to. -/
def undefinedCodes : List Byte :=
  [0x08, 0x10, 0x18, 0x20, 0x28, 0x30, 0x38, 0xCB, 0xD9, 0xDD, 0xED, 0xFD]

def documented (code : Byte) : Bool := !undefinedCodes.contains code

/-- The documented opcode byte. -/
def code : Operation → Byte
  | nop => 0x00
  | hlt => 0x76
  | mov dst src => UInt8.ofNat (0x40 + 8 * dst.field.val + src.field.val)
  | mvi dst => UInt8.ofNat (0x06 + 8 * dst.field.val)
  | lxi pair => UInt8.ofNat (0x01 + 16 * pair.field.val)
  | lda => 0x3A
  | sta => 0x32
  | lhld => 0x2A
  | shld => 0x22
  | ldax pointer => UInt8.ofNat (0x0A + 16 * pointer.pair.field.val)
  | stax pointer => UInt8.ofNat (0x02 + 16 * pointer.pair.field.val)
  | xchg => 0xEB
  | alu op src => UInt8.ofNat (0x80 + 8 * op.field.val + src.field.val)
  | aluImmediate op => UInt8.ofNat (0xC6 + 8 * op.field.val)
  | inr dst => UInt8.ofNat (0x04 + 8 * dst.field.val)
  | dcr dst => UInt8.ofNat (0x05 + 8 * dst.field.val)
  | inx pair => UInt8.ofNat (0x03 + 16 * pair.field.val)
  | dcx pair => UInt8.ofNat (0x0B + 16 * pair.field.val)
  | dad pair => UInt8.ofNat (0x09 + 16 * pair.field.val)
  | rotate .left => 0x07
  | rotate .right => 0x0F
  | rotate .leftThroughCarry => 0x17
  | rotate .rightThroughCarry => 0x1F
  | daa => 0x27
  | cma => 0x2F
  | stc => 0x37
  | cmc => 0x3F
  | jmp => 0xC3
  | jcc condition => UInt8.ofNat (0xC2 + 8 * condition.field.val)
  | call => 0xCD
  | ccc condition => UInt8.ofNat (0xC4 + 8 * condition.field.val)
  | ret => 0xC9
  | rcc condition => UInt8.ofNat (0xC0 + 8 * condition.field.val)
  | rst vector => UInt8.ofNat (0xC7 + 8 * vector.val)
  | pchl => 0xE9
  | push pair => UInt8.ofNat (0xC5 + 16 * pair.field.val)
  | pop pair => UInt8.ofNat (0xC1 + 16 * pair.field.val)
  | xthl => 0xE3
  | sphl => 0xF9
  | input => 0xDB
  | output => 0xD3
  | ei => 0xFB
  | di => 0xF3

theorem decode_code (op : Operation) (h : op ≠ mov .memory .memory) : decode op.code = op := by
  cases op with
  | mov dst src =>
    rcases dst with (_ | _ | _ | _ | _ | _ | _) | _ <;>
      rcases src with (_ | _ | _ | _ | _ | _ | _) | _ <;>
      first | rfl | exact absurd rfl h
  | mvi dst | inr dst | dcr dst => rcases dst with (_ | _ | _ | _ | _ | _ | _) | _ <;> rfl
  | alu op src => rcases src with (_ | _ | _ | _ | _ | _ | _) | _ <;> cases op <;> rfl
  | lxi x | ldax x | stax x | aluImmediate x | inx x | dcx x | dad x | rotate x | jcc x | ccc x
  | rcc x | push x | pop x => cases x <;> rfl
  | rst vector => revert vector; decide
  | _ => rfl

end Operation

end Intel8080
