/-! Numbers as a command line writes them: decimal, or hexadecimal after `0x`. Digits are read
from the left, and the first one that is no digit, or that carries the value past its bound,
decides the error. -/

namespace Intel8080

namespace Numeral

inductive Error where
  | empty
  | invalidDigit
  /-- Beyond the largest value allowed. -/
  | tooLarge
  /-- Below the smallest value allowed. -/
  | tooSmall
  deriving DecidableEq

def Error.message : Error → String
  | empty => "cannot parse integer from empty string"
  | invalidDigit => "invalid digit found in string"
  | tooLarge => "number too large to fit in target type"
  | tooSmall => "number too small to fit in target type"

/-- The value of a digit below the radix, in either case. -/
def digit? (radix : Nat) (c : Char) : Option Nat :=
  let v :=
    if '0' ≤ c ∧ c ≤ '9' then c.toNat - '0'.toNat
    else if 'a' ≤ c ∧ c ≤ 'z' then c.toNat - 'a'.toNat + 10
    else if 'A' ≤ c ∧ c ≤ 'Z' then c.toNat - 'A'.toNat + 10
    else radix
  if v < radix then some v else none

/-- The value of some digits behind a value already read, all of it below the bound; `excess` is
the error for a value that is not. -/
def digits (radix bound : Nat) (excess : Error) : List Char → Nat → Except Error Nat
  | [], value => .ok value
  | c :: cs, value =>
    match digit? radix c with
    | none => .error .invalidDigit
    | some d =>
      if value * radix + d < bound then digits radix bound excess cs (value * radix + d)
      else .error excess

/-- One past the largest number a command line can hold. -/
def bound : Nat := UInt64.size

/-- One past the largest number with a sign. -/
def signedBound : Nat := bound / 2

/-- Digits behind at most one plus sign, which does not stand alone. -/
def unsigned (radix : Nat) (cs : List Char) : Except Error Nat :=
  match cs with
  | [] => .error .empty
  | ['+'] => .error .invalidDigit
  | '+' :: rest => digits radix bound .tooLarge rest 0
  | cs => digits radix bound .tooLarge cs 0

/-- A number in decimal, or in hexadecimal behind `0x` or `0X`. -/
def parse (text : String) : Except Error Nat :=
  match text.toList with
  | '0' :: 'x' :: rest => unsigned 16 rest
  | '0' :: 'X' :: rest => unsigned 16 rest
  | cs => unsigned 10 cs

/-- A decimal number that fits in sixty-four bits with its sign. -/
def parseSigned (text : String) : Except Error Int :=
  match text.toList with
  | [] => .error .empty
  | ['+'] | ['-'] => .error .invalidDigit
  | '+' :: rest => (digits 10 signedBound .tooLarge rest 0).map Int.ofNat
  | '-' :: rest => (digits 10 (signedBound + 1) .tooSmall rest 0).map fun n => -(n : Int)
  | cs => (digits 10 signedBound .tooLarge cs 0).map Int.ofNat

end Numeral

end Intel8080
