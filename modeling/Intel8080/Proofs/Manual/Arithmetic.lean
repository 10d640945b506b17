import Intel8080.Alu
import Mathlib.Data.FinEnum
import Mathlib.Data.Finset.Card
import Mathlib.Data.Finset.Range
import Mathlib.Data.Int.Notation

/-! Arithmetic as the manual describes it. A sum or difference is first taken exactly, as an
integer, of the whole bytes and of their low digits; the byte kept is the exact result modulo
256, a carry or borrow is an exact result that does not fit, and the auxiliary carry is the same
of the low digits. Rotations are shifts. The operations of the processor agree with all of it. -/

namespace Intel8080.Manual

/-- Sign, zero and parity of a byte, next to two given carries. -/
def describe (v : Byte) (auxiliary carry : Bool) : Flags where
  sign := v.toNat.testBit 7
  zero := decide (v = 0)
  auxiliary
  parity := decide (((Finset.range 8).filter fun i => v.toNat.testBit i).card % 2 = 0)
  carry

theorem describe_eq (v : Byte) (auxiliary carry : Bool) :
    describe v auxiliary carry = Flags.ofResult v auxiliary carry := by
  have hs : ∀ v : Byte, v.toNat.testBit 7 = decide (128 ≤ v.toNat) := by decide +kernel
  have hp : ∀ v : Byte,
      decide (((Finset.range 8).filter fun i => v.toNat.testBit i).card % 2 = 0) =
        v.evenParity := by decide +kernel
  ext1
  · exact hs v
  · rfl
  · rfl
  · exact hp v
  · rfl

/-- A result taken exactly, of whole bytes and of their low digits alone. -/
structure Exact where
  value : ℤ
  digit : ℤ

namespace Exact

def sum (a v : Byte) (carry : Bool) : Exact where
  value := a.toNat + v.toNat + carry.toNat
  digit := (a.toNat % 16 : ℕ) + (v.toNat % 16 : ℕ) + carry.toNat

def difference (a v : Byte) (borrow : Bool) : Exact where
  value := a.toNat - v.toNat - borrow.toNat
  digit := (a.toNat % 16 : ℕ) - (v.toNat % 16 : ℕ) - borrow.toNat

/-- The byte that is kept. -/
def byte (x : Exact) : Byte := UInt8.ofInt x.value

/-- A carry or a borrow leaves the range of a byte, or of a digit. -/
def flags (x : Exact) : Flags :=
  describe x.byte (decide ¬(0 ≤ x.digit ∧ x.digit < 16)) (decide ¬(0 ≤ x.value ∧ x.value < 256))

theorem byte_sum (a v : Byte) (carry : Bool) : (sum a v carry).byte = (Alu.add a v carry).1 := by
  apply UInt8.toNat_inj.mp
  simp only [byte, sum, Alu.add, UInt8.ofInt, UInt8.toNat_ofNat']
  omega

theorem flags_sum (a v : Byte) (carry : Bool) : (sum a v carry).flags = (Alu.add a v carry).2 := by
  have hd : ¬(0 ≤ (sum a v carry).digit ∧ (sum a v carry).digit < 16) ↔
      16 ≤ a.toNat % 16 + v.toNat % 16 + carry.toNat := by
    simp only [sum]
    omega
  have hv : ¬(0 ≤ (sum a v carry).value ∧ (sum a v carry).value < 256) ↔
      256 ≤ a.toNat + v.toNat + carry.toNat := by
    simp only [sum]
    omega
  rw [flags, byte_sum, describe_eq, decide_eq_decide.mpr hd, decide_eq_decide.mpr hv]
  rfl

theorem byte_difference (a v : Byte) (borrow : Bool) :
    (difference a v borrow).byte = (Alu.subtract a v borrow).1 := by
  apply UInt8.toNat_inj.mp
  have := v.toNat_lt
  have := borrow.toNat_le
  simp only [byte, difference, Alu.subtract, UInt8.ofInt, UInt8.toNat_ofNat']
  omega

theorem flags_difference (a v : Byte) (borrow : Bool) :
    (difference a v borrow).flags = (Alu.subtract a v borrow).2 := by
  have := a.toNat_lt
  have hd : ¬(0 ≤ (difference a v borrow).digit ∧ (difference a v borrow).digit < 16) ↔
      a.toNat % 16 < v.toNat % 16 + borrow.toNat := by
    simp only [difference]
    omega
  have hv : ¬(0 ≤ (difference a v borrow).value ∧ (difference a v borrow).value < 256) ↔
      a.toNat < v.toNat + borrow.toNat := by
    simp only [difference]
    omega
  rw [flags, byte_difference, describe_eq, decide_eq_decide.mpr hd, decide_eq_decide.mpr hv]
  rfl

end Exact

/-- An operation between the accumulator and an operand. -/
def combine (op : AluOp) (a v : Byte) (f : Flags) : Byte × Flags :=
  match op with
  | .add => ((Exact.sum a v false).byte, (Exact.sum a v false).flags)
  | .addCarry => ((Exact.sum a v f.carry).byte, (Exact.sum a v f.carry).flags)
  | .subtract => ((Exact.difference a v false).byte, (Exact.difference a v false).flags)
  | .subtractBorrow => ((Exact.difference a v f.carry).byte, (Exact.difference a v f.carry).flags)
  | .conjoin => (a &&& v, describe (a &&& v) ((a ||| v).toNat.testBit 3) false)
  | .exclude => (a ^^^ v, describe (a ^^^ v) false false)
  | .disjoin => (a ||| v, describe (a ||| v) false false)
  | .compare => (a, (Exact.difference a v false).flags)

theorem combine_eq (op : AluOp) (a v : Byte) (f : Flags) : combine op a v f = op.apply a v f := by
  cases op <;>
    simp only [combine, AluOp.apply, Alu.conjoin, Alu.exclude, Alu.disjoin, Alu.compare,
      Exact.byte_sum, Exact.flags_sum, Exact.byte_difference, Exact.flags_difference, describe_eq]

/-- One more, with the old carry. -/
def increment (v : Byte) (f : Flags) : Byte × Flags :=
  ((Exact.sum v 1 false).byte, { (Exact.sum v 1 false).flags with carry := f.carry })

/-- One less, with the old carry. -/
def decrement (v : Byte) (f : Flags) : Byte × Flags :=
  ((Exact.difference v 1 false).byte, { (Exact.difference v 1 false).flags with carry := f.carry })

theorem increment_eq (v : Byte) (f : Flags) : increment v f = Alu.increment v f := by
  rw [increment, Exact.byte_sum, Exact.flags_sum, Alu.increment]

theorem decrement_eq (v : Byte) (f : Flags) : decrement v f = Alu.decrement v f := by
  rw [decrement, Exact.byte_difference, Exact.flags_difference, Alu.decrement]

/-- The decimal adjustment in its two corrections. The auxiliary carry is the one out of the low
digit's correction; the high digit is judged with that carry in it. -/
def adjust (a : Byte) (f : Flags) : Byte × Flags :=
  let low := if 9 < a.toNat % 16 ∨ f.auxiliary then 6 else 0
  let corrected := a.toNat + low
  let high := if 9 < corrected / 16 ∨ f.carry then 6 else 0
  let total := corrected + 16 * high
  let v := UInt8.ofNat total
  (v, describe v (decide (15 < a.toNat % 16 + low)) (f.carry || decide (255 < total)))

theorem adjust_eq (a : Byte) (f : Flags) : adjust a f = Alu.decimalAdjust a f := by
  simp only [adjust, Alu.decimalAdjust, describe_eq, Bool.or_eq_true, decide_eq_true_eq]
  have hlow : (if 9 < a.toNat % 16 ∨ f.auxiliary = true then a.toNat + 6 else a.toNat) =
      a.toNat + if 9 < a.toNat % 16 ∨ f.auxiliary = true then 6 else 0 := by split <;> rfl
  rw [hlow]
  generalize hl : (if 9 < a.toNat % 16 ∨ f.auxiliary = true then 6 else 0) = low
  have haux : decide (15 < a.toNat % 16 + low) = decide (9 < a.toNat % 16) := by
    rw [decide_eq_decide]
    split at hl <;> omega
  have hhigh : (if 9 < (a.toNat + low) / 16 ∨ f.carry = true then a.toNat + low + 96
      else a.toNat + low) =
      a.toNat + low + 16 * if 9 < (a.toNat + low) / 16 ∨ f.carry = true then 6 else 0 := by
    split <;> rfl
  rw [haux, hhigh]
  rfl

/-- The accumulator turned by one bit; the bit that leaves it becomes the carry. -/
def turn (r : Rotation) (a : Byte) (f : Flags) : Byte × Flags :=
  match r with
  | .left => (a <<< 1 ||| a >>> 7, { f with carry := a.toNat.testBit 7 })
  | .right => (a >>> 1 ||| a <<< 7, { f with carry := a.toNat.testBit 0 })
  | .leftThroughCarry =>
    (a <<< 1 ||| UInt8.ofNat f.carry.toNat, { f with carry := a.toNat.testBit 7 })
  | .rightThroughCarry =>
    (a >>> 1 ||| UInt8.ofNat f.carry.toNat <<< 7, { f with carry := a.toNat.testBit 0 })

theorem turn_eq (r : Rotation) (a : Byte) (f : Flags) : turn r a f = r.apply a f := by
  have hl : ∀ a : Byte,
      a <<< 1 ||| a >>> 7 = UInt8.ofNat (2 * a.toNat + (a.toNat.testBit 7).toNat) := by
    decide +kernel
  have hr : ∀ a : Byte,
      a >>> 1 ||| a <<< 7 = UInt8.ofNat (a.toNat / 2 + 128 * (a.toNat.testBit 0).toNat) := by
    decide +kernel
  have hlc : ∀ (a : Byte) (c : Bool),
      a <<< 1 ||| UInt8.ofNat c.toNat = UInt8.ofNat (2 * a.toNat + c.toNat) := by
    decide +kernel
  have hrc : ∀ (a : Byte) (c : Bool),
      a >>> 1 ||| UInt8.ofNat c.toNat <<< 7 = UInt8.ofNat (a.toNat / 2 + 128 * c.toNat) := by
    decide +kernel
  cases r
  · simp only [turn, Rotation.apply, hl]
  · simp only [turn, Rotation.apply, hr]
  · simp only [turn, Rotation.apply, hlc]
  · simp only [turn, Rotation.apply, hrc]

/-- The sum of two words; the carry is the one out of it. -/
def addWords (x y : Word) (f : Flags) : Word × Flags :=
  (UInt16.ofNat (x.toNat + y.toNat), { f with carry := decide (65535 < x.toNat + y.toNat) })

theorem addWords_eq (x y : Word) (f : Flags) : addWords x y f = Alu.addWord x y f := by
  have hv : UInt16.ofNat (x.toNat + y.toNat) = x + y := by
    apply UInt16.toNat_inj.mp
    simp only [UInt16.toNat_ofNat', UInt16.toNat_add]
  rw [addWords, Alu.addWord, hv]
  rfl

/-- The flag that a condition looks at; the odd conditions want it set and the even ones clear. -/
def tested (c : Condition) (f : Flags) : Bool :=
  let flag : Bool :=
    match c with
    | .notZero | .zero => f.zero
    | .noCarry | .carry => f.carry
    | .parityOdd | .parityEven => f.parity
    | .plus | .minus => f.sign
  flag == decide (c.field.val % 2 = 1)

theorem tested_eq (c : Condition) (f : Flags) : tested c f = c.holds f := by
  rcases f with ⟨_ | _, _ | _, _ | _, _ | _, _ | _⟩ <;> cases c <;> rfl

/-- The status byte, bit by bit from the least significant. -/
def statusBits (f : Flags) : List Bool :=
  [f.carry, true, f.parity, false, f.auxiliary, false, f.zero, f.sign]

/-- The byte with the given bits, least significant first. -/
def byteOfBits (bits : List Bool) : Byte :=
  bits.foldr (fun bit v => UInt8.ofNat bit.toNat + 2 * v) 0

theorem byteOfBits_statusBits (f : Flags) : byteOfBits (statusBits f) = f.status := by
  rcases f with ⟨_ | _, _ | _, _ | _, _ | _, _ | _⟩ <;> rfl

end Intel8080.Manual
