import Intel8080.Word

/-! The register file: seven byte registers, three of whose neighbours pair up into words,
the stack pointer, the program counter and the internal latch WZ. Opcode fields select a
register, an operand or a pair by number. -/

namespace Intel8080

inductive Register where
  | b | c | d | e | h | l | a
  deriving DecidableEq

/-- What a three-bit field selects: a register, or the memory byte that HL points at. -/
inductive Operand where
  | reg (r : Register)
  | memory
  deriving DecidableEq

/-- What a two-bit field selects. -/
inductive Pair where
  | bc | de | hl | sp
  deriving DecidableEq

/-- The pairs that can point at the byte moved to or from the accumulator. -/
inductive Pointer where
  | bc | de
  deriving DecidableEq

/-- What can be pushed and popped; PSW is the accumulator over the status byte. -/
inductive StackPair where
  | bc | de | hl | psw
  deriving DecidableEq

namespace Operand

def ofField : Fin 8 → Operand
  | 0 => reg .b
  | 1 => reg .c
  | 2 => reg .d
  | 3 => reg .e
  | 4 => reg .h
  | 5 => reg .l
  | 6 => memory
  | 7 => reg .a

def field : Operand → Fin 8
  | reg .b => 0
  | reg .c => 1
  | reg .d => 2
  | reg .e => 3
  | reg .h => 4
  | reg .l => 5
  | memory => 6
  | reg .a => 7

@[simp] theorem ofField_field (o : Operand) : ofField o.field = o := by
  rcases o with (_ | _ | _ | _ | _ | _ | _) | _ <;> rfl

@[simp] theorem field_ofField (n : Fin 8) : (ofField n).field = n := by
  revert n; decide

end Operand

namespace Pair

def ofField : Fin 4 → Pair
  | 0 => bc
  | 1 => de
  | 2 => hl
  | 3 => sp

def field : Pair → Fin 4
  | bc => 0
  | de => 1
  | hl => 2
  | sp => 3

@[simp] theorem ofField_field (p : Pair) : ofField p.field = p := by
  cases p <;> rfl

@[simp] theorem field_ofField (n : Fin 4) : (ofField n).field = n := by
  revert n; decide

/-- The stack pointer itself cannot be pushed or popped. -/
def stackPair? : Pair → Option StackPair
  | bc => some .bc
  | de => some .de
  | hl => some .hl
  | sp => none

end Pair

namespace Pointer

def pair : Pointer → Pair
  | bc => .bc
  | de => .de

end Pointer

namespace StackPair

/-- The field that means SP elsewhere means PSW on the stack. -/
def ofField : Fin 4 → StackPair
  | 0 => bc
  | 1 => de
  | 2 => hl
  | 3 => psw

def field : StackPair → Fin 4
  | bc => 0
  | de => 1
  | hl => 2
  | psw => 3

@[simp] theorem ofField_field (p : StackPair) : ofField p.field = p := by
  cases p <;> rfl

@[simp] theorem field_ofField (n : Fin 4) : (ofField n).field = n := by
  revert n; decide

end StackPair

@[ext] structure Registers where
  a : Byte := 0
  b : Byte := 0
  c : Byte := 0
  d : Byte := 0
  e : Byte := 0
  h : Byte := 0
  l : Byte := 0
  sp : Word := 0
  wz : Word := 0
  pc : Word := 0
  deriving DecidableEq

namespace Registers

def get (r : Registers) : Register → Byte
  | .b => r.b
  | .c => r.c
  | .d => r.d
  | .e => r.e
  | .h => r.h
  | .l => r.l
  | .a => r.a

def set (r : Registers) (x : Register) (v : Byte) : Registers :=
  match x with
  | .b => { r with b := v }
  | .c => { r with c := v }
  | .d => { r with d := v }
  | .e => { r with e := v }
  | .h => { r with h := v }
  | .l => { r with l := v }
  | .a => { r with a := v }

def bc (r : Registers) : Word := Word.ofBytes r.b r.c

def de (r : Registers) : Word := Word.ofBytes r.d r.e

def hl (r : Registers) : Word := Word.ofBytes r.h r.l

def pair (r : Registers) : Pair → Word
  | .bc => r.bc
  | .de => r.de
  | .hl => r.hl
  | .sp => r.sp

def setPair (r : Registers) (p : Pair) (w : Word) : Registers :=
  match p with
  | .bc => { r with b := Word.high w, c := Word.low w }
  | .de => { r with d := Word.high w, e := Word.low w }
  | .hl => { r with h := Word.high w, l := Word.low w }
  | .sp => { r with sp := w }

@[simp] theorem get_set_self (r : Registers) (x : Register) (v : Byte) : (r.set x v).get x = v := by
  cases x <;> rfl

theorem get_set_of_ne (r : Registers) {x y : Register} (v : Byte) (h : y ≠ x) :
    (r.set x v).get y = r.get y := by
  cases x <;> cases y <;> simp_all [get, set]

@[simp] theorem pair_setPair_self (r : Registers) (p : Pair) (w : Word) :
    (r.setPair p w).pair p = w := by
  cases p <;> simp [pair, setPair, bc, de, hl]

theorem pair_setPair_of_ne (r : Registers) {p q : Pair} (w : Word) (h : q ≠ p) :
    (r.setPair p w).pair q = r.pair q := by
  cases p <;> cases q <;> simp_all [pair, setPair, bc, de, hl]

@[simp] theorem setPair_pair (r : Registers) (p : Pair) : r.setPair p (r.pair p) = r := by
  cases p <;> simp [pair, setPair, bc, de, hl]

end Registers

end Intel8080
