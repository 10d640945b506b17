import Intel8080.Word

/-! The five condition flags, the status byte that packs them, and the eight conditions a
branch can test. Bits 5 and 3 of the status byte are always clear and bit 1 is always set. -/

namespace Intel8080

@[ext] structure Flags where
  sign : Bool := false
  zero : Bool := false
  auxiliary : Bool := false
  parity : Bool := false
  carry : Bool := false
  deriving DecidableEq

/-- How many bits are set. -/
def Byte.ones (v : Byte) : Nat := (List.range 8).countP fun i => v.toNat.testBit i

/-- True when an even number of bits is set. -/
def Byte.evenParity (v : Byte) : Bool := v.ones % 2 == 0

namespace Flags

/-- Sign, zero and parity describe the result; the two carries stay. -/
def withResult (f : Flags) (v : Byte) : Flags :=
  { f with sign := decide (128 ≤ v.toNat), zero := v == 0, parity := v.evenParity }

/-- The flags of a result together with its two carries. -/
def ofResult (v : Byte) (auxiliary carry : Bool) : Flags :=
  withResult { auxiliary, carry } v

/-- S Z 0 A 0 P 1 C, most significant bit first. -/
def status (f : Flags) : Byte :=
  UInt8.ofNat
    (128 * f.sign.toNat + 64 * f.zero.toNat + 16 * f.auxiliary.toNat + 4 * f.parity.toNat + 2 +
      f.carry.toNat)

def ofStatus (v : Byte) : Flags where
  sign := v.toNat.testBit 7
  zero := v.toNat.testBit 6
  auxiliary := v.toNat.testBit 4
  parity := v.toNat.testBit 2
  carry := v.toNat.testBit 0

@[simp] theorem ofStatus_status (f : Flags) : ofStatus f.status = f := by
  rcases f with ⟨_ | _, _ | _, _ | _, _ | _, _ | _⟩ <;> rfl

end Flags

inductive Condition where
  | notZero | zero | noCarry | carry | parityOdd | parityEven | plus | minus
  deriving DecidableEq

namespace Condition

def ofField : Fin 8 → Condition
  | 0 => notZero
  | 1 => zero
  | 2 => noCarry
  | 3 => carry
  | 4 => parityOdd
  | 5 => parityEven
  | 6 => plus
  | 7 => minus

def field : Condition → Fin 8
  | notZero => 0
  | zero => 1
  | noCarry => 2
  | carry => 3
  | parityOdd => 4
  | parityEven => 5
  | plus => 6
  | minus => 7

@[simp] theorem ofField_field (c : Condition) : ofField c.field = c := by
  cases c <;> rfl

@[simp] theorem field_ofField (n : Fin 8) : (ofField n).field = n := by
  revert n; decide

def holds (c : Condition) (f : Flags) : Bool :=
  match c with
  | notZero => !f.zero
  | zero => f.zero
  | noCarry => !f.carry
  | carry => f.carry
  | parityOdd => !f.parity
  | parityEven => f.parity
  | plus => !f.sign
  | minus => f.sign

/-- The letters that a conditional jump, call or return adds to its first letter. -/
def letters : Condition → String
  | notZero => "NZ"
  | zero => "Z"
  | noCarry => "NC"
  | carry => "C"
  | parityOdd => "PO"
  | parityEven => "PE"
  | plus => "P"
  | minus => "M"

end Condition

end Intel8080
