import Intel8080.Flags

/-! Arithmetic and logic on bytes and words. Every operation returns its result together with
the flags afterwards; sums and differences are taken on natural numbers and then cut to size. -/

namespace Intel8080

namespace Alu

/-- Sum with a carry in: the auxiliary flag is the carry out of bit 3. -/
def add (a v : Byte) (carry : Bool) : Byte × Flags :=
  let total := a.toNat + v.toNat + carry.toNat
  let nibble := a.toNat % 16 + v.toNat % 16 + carry.toNat
  let value := UInt8.ofNat total
  (value, Flags.ofResult value (decide (16 ≤ nibble)) (decide (256 ≤ total)))

/-- Difference with a borrow in: both carries report borrows. -/
def subtract (a v : Byte) (borrow : Bool) : Byte × Flags :=
  let value := UInt8.ofNat (a.toNat + 256 - (v.toNat + borrow.toNat))
  (value,
    Flags.ofResult value (decide (a.toNat % 16 < v.toNat % 16 + borrow.toNat))
      (decide (a.toNat < v.toNat + borrow.toNat)))

/-- A difference is the sum with the complement, with both carries inverted. -/
theorem subtract_eq_add_complement (a v : Byte) (borrow : Bool) :
    subtract a v borrow =
      let x := add a (~~~v) (!borrow)
      (x.1, { x.2 with auxiliary := !x.2.auxiliary, carry := !x.2.carry }) := by
  have ha := a.toNat_lt
  have hv := v.toNat_lt
  have hle := borrow.toNat_le
  have hcomplement : (~~~v).toNat = 255 - v.toNat := UInt8.toNat_not v
  have hborrow : (!borrow).toNat = 1 - borrow.toNat := by cases borrow <;> rfl
  have hvalue : UInt8.ofNat (a.toNat + 256 - (v.toNat + borrow.toNat)) =
      UInt8.ofNat (a.toNat + (255 - v.toNat) + (1 - borrow.toNat)) := congrArg _ (by omega)
  have hauxiliary : decide (a.toNat % 16 < v.toNat % 16 + borrow.toNat) =
      !decide (16 ≤ a.toNat % 16 + (255 - v.toNat) % 16 + (1 - borrow.toNat)) := by
    rw [← decide_not, decide_eq_decide]
    omega
  have hcarry : decide (a.toNat < v.toNat + borrow.toNat) =
      !decide (256 ≤ a.toNat + (255 - v.toNat) + (1 - borrow.toNat)) := by
    rw [← decide_not, decide_eq_decide]
    omega
  simp only [subtract, add, hcomplement, hborrow, hvalue, hauxiliary, hcarry, Flags.ofResult,
    Flags.withResult]
/-- Flags of the difference alone. -/
def compare (a v : Byte) : Flags := (subtract a v false).2

/-- The auxiliary flag is bit 3 of either operand. -/
def conjoin (a v : Byte) : Byte × Flags :=
  (a &&& v, Flags.ofResult (a &&& v) ((a ||| v).toNat.testBit 3) false)

def disjoin (a v : Byte) : Byte × Flags :=
  (a ||| v, Flags.ofResult (a ||| v) false false)

def exclude (a v : Byte) : Byte × Flags :=
  (a ^^^ v, Flags.ofResult (a ^^^ v) false false)

/-- One more; the carry stays. -/
def increment (v : Byte) (f : Flags) : Byte × Flags :=
  ((add v 1 false).1, { (add v 1 false).2 with carry := f.carry })

/-- One less; the carry stays. -/
def decrement (v : Byte) (f : Flags) : Byte × Flags :=
  ((subtract v 1 false).1, { (subtract v 1 false).2 with carry := f.carry })

def complement (a : Byte) : Byte := ~~~a

/-- Decimal adjustment: a low digit above nine or an auxiliary carry adds six, then a high
digit above nine or a carry adds sixty hexadecimal. A carry is never cleared. -/
def decimalAdjust (a : Byte) (f : Flags) : Byte × Flags :=
  let lowAbove := decide (9 < a.toNat % 16)
  let adjusted := if lowAbove || f.auxiliary then a.toNat + 6 else a.toNat
  let total := if decide (9 < adjusted / 16) || f.carry then adjusted + 96 else adjusted
  let value := UInt8.ofNat total
  (value, Flags.ofResult value lowAbove (f.carry || decide (256 ≤ total)))

/-- Word sum; only the carry changes. -/
def addWord (x y : Word) (f : Flags) : Word × Flags :=
  (x + y, { f with carry := decide (65536 ≤ x.toNat + y.toNat) })

/-- No flag changes. -/
def incrementWord (w : Word) : Word := w + 1

/-- No flag changes. -/
def decrementWord (w : Word) : Word := w - 1

end Alu

/-- The accumulator rotations: around the byte, or around the byte and the carry. -/
inductive Rotation where
  | left | right | leftThroughCarry | rightThroughCarry
  deriving DecidableEq

namespace Rotation

/-- The bit that leaves the byte becomes the carry; the other flags stay. -/
def apply (r : Rotation) (a : Byte) (f : Flags) : Byte × Flags :=
  let top := a.toNat.testBit 7
  let bottom := a.toNat.testBit 0
  match r with
  | left => (UInt8.ofNat (2 * a.toNat + top.toNat), { f with carry := top })
  | right => (UInt8.ofNat (a.toNat / 2 + 128 * bottom.toNat), { f with carry := bottom })
  | leftThroughCarry => (UInt8.ofNat (2 * a.toNat + f.carry.toNat), { f with carry := top })
  | rightThroughCarry =>
    (UInt8.ofNat (a.toNat / 2 + 128 * f.carry.toNat), { f with carry := bottom })

def mnemonic : Rotation → String
  | left => "RLC"
  | right => "RRC"
  | leftThroughCarry => "RAL"
  | rightThroughCarry => "RAR"

end Rotation

/-- The operations between the accumulator and an operand. -/
inductive AluOp where
  | add | addCarry | subtract | subtractBorrow | conjoin | exclude | disjoin | compare
  deriving DecidableEq

namespace AluOp

def ofField : Fin 8 → AluOp
  | 0 => add
  | 1 => addCarry
  | 2 => subtract
  | 3 => subtractBorrow
  | 4 => conjoin
  | 5 => exclude
  | 6 => disjoin
  | 7 => compare

def field : AluOp → Fin 8
  | add => 0
  | addCarry => 1
  | subtract => 2
  | subtractBorrow => 3
  | conjoin => 4
  | exclude => 5
  | disjoin => 6
  | compare => 7

@[simp] theorem ofField_field (op : AluOp) : ofField op.field = op := by
  cases op <;> rfl

@[simp] theorem field_ofField (n : Fin 8) : (ofField n).field = n := by
  revert n; decide

/-- The accumulator and flags afterwards; a comparison keeps the accumulator. -/
def apply (op : AluOp) (a v : Byte) (f : Flags) : Byte × Flags :=
  match op with
  | add => Alu.add a v false
  | addCarry => Alu.add a v f.carry
  | subtract => Alu.subtract a v false
  | subtractBorrow => Alu.subtract a v f.carry
  | conjoin => Alu.conjoin a v
  | exclude => Alu.exclude a v
  | disjoin => Alu.disjoin a v
  | compare => (a, Alu.compare a v)

def mnemonic : AluOp → String
  | add => "ADD"
  | addCarry => "ADC"
  | subtract => "SUB"
  | subtractBorrow => "SBB"
  | conjoin => "ANA"
  | exclude => "XRA"
  | disjoin => "ORA"
  | compare => "CMP"

def immediateMnemonic : AluOp → String
  | add => "ADI"
  | addCarry => "ACI"
  | subtract => "SUI"
  | subtractBorrow => "SBI"
  | conjoin => "ANI"
  | exclude => "XRI"
  | disjoin => "ORI"
  | compare => "CPI"

end AluOp

end Intel8080
