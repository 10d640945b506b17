import Intel8080.Proofs.Manual.Arithmetic
import Mathlib.Algebra.Order.Ring.Int
import Mathlib.Tactic.LinearCombination
import Mathlib.Tactic.Ring

/-! Numbers of many bytes. An operation that reads the carry and leaves it behind can be applied
to the bytes of two numbers in turn, and the carry takes what leaves one byte into the next. If
the books balance in each byte, they balance for the numbers. -/

namespace Intel8080.Multibyte

/-! ### Passes over the digits -/

section Digitwise

variable {α : Type} {step : α → Flags → Byte × Flags} {xs : List α}

/-- One digit after the other, the least significant first, with the flags handed on. -/
def digitwise (step : α → Flags → Byte × Flags) : List α → Flags → List Byte × Flags
  | [], f => ([], f)
  | x :: xs, f =>
    let first := step x f
    let rest := digitwise step xs first.2
    (first.1 :: rest.1, rest.2)

@[simp] theorem length_digitwise (step : α → Flags → Byte × Flags) (xs : List α) (f : Flags) :
    (digitwise step xs f).1.length = xs.length := by
  induction xs generalizing f with
  | nil => rfl
  | cons x xs ih => exact congrArg Nat.succ (ih _)

/-- One more digit behind the others. -/
theorem digitwise_concat (step : α → Flags → Byte × Flags) (xs : List α) (x : α) (f : Flags) :
    digitwise step (xs ++ [x]) f =
      ((digitwise step xs f).1 ++ [(step x (digitwise step xs f).2).1],
        (step x (digitwise step xs f).2).2) := by
  induction xs generalizing f with
  | nil => rfl
  | cons y xs ih => simp only [List.cons_append, digitwise, ih]

/-- What every step makes sure of its digit holds of all digits. -/
theorem forall_mem_digitwise {P : Byte → Prop} (h : ∀ x ∈ xs, ∀ f, P (step x f).1) (f : Flags) :
    ∀ v ∈ (digitwise step xs f).1, P v := by
  induction xs generalizing f with
  | nil => intro v hv; cases hv
  | cons x xs ih =>
    intro v hv
    obtain rfl | hv := List.mem_cons.mp hv
    · exact h x List.mem_cons_self f
    · exact ih (fun y hy => h y (List.mem_cons_of_mem x hy)) _ v hv

/-- The number with these digits, the least significant first. -/
def number (base : ℤ) (digit : α → ℤ) : List α → ℤ
  | [] => 0
  | x :: xs => digit x + base * number base digit xs

theorem number_add_mul (base k : ℤ) (d e : α → ℤ) (xs : List α) :
    number base (fun x => d x + k * e x) xs = number base d xs + k * number base e xs := by
  induction xs with
  | nil => simp [number]
  | cons x xs ih =>
    simp only [number, ih]
    ring

theorem number_map {β : Type} (base : ℤ) (digit : β → ℤ) (g : α → β) (xs : List α) :
    number base digit (xs.map g) = number base (fun x => digit (g x)) xs := by
  induction xs with
  | nil => rfl
  | cons x xs ih => simp only [List.map_cons, number, ih]

/-- Digits below the base denote a number below its power. -/
theorem number_bounds {base : ℤ} {digit : α → ℤ} (hd : ∀ x ∈ xs, 0 ≤ digit x ∧ digit x < base) :
    0 ≤ number base digit xs ∧ number base digit xs < base ^ xs.length := by
  induction xs with
  | nil => exact ⟨le_rfl, by simp [number]⟩
  | cons x xs ih =>
    obtain ⟨hpos, hlt⟩ := hd x List.mem_cons_self
    obtain ⟨ihpos, ihlt⟩ := ih fun y hy => hd y (List.mem_cons_of_mem x hy)
    have hbase : 0 ≤ base := hpos.trans hlt.le
    refine ⟨add_nonneg hpos (mul_nonneg hbase ihpos), ?_⟩
    calc digit x + base * number base digit xs
        < base + base * number base digit xs := by omega
      _ = base * (number base digit xs + 1) := by ring
      _ ≤ base * base ^ xs.length := mul_le_mul_of_nonneg_left ihlt hbase
      _ = base ^ (xs.length + 1) := by ring

/-- What `carried` says of the flags makes up for the digit in every step, so it makes up for the
number in the end. -/
theorem number_digitwise {base : ℤ} {digit : Byte → ℤ} {addend : α → ℤ} (carried : Flags → ℤ)
    (hstep : ∀ x ∈ xs, ∀ f, digit (step x f).1 + base * carried (step x f).2 = addend x + carried f)
    (f : Flags) :
    number base digit (digitwise step xs f).1 +
        base ^ xs.length * carried (digitwise step xs f).2 =
      number base addend xs + carried f := by
  induction xs generalizing f with
  | nil => simp [number, digitwise]
  | cons x xs ih =>
    have hfirst := hstep x List.mem_cons_self f
    have hrest := ih (fun y hy => hstep y (List.mem_cons_of_mem x hy)) (step x f).2
    simp only [number, digitwise, List.length_cons]
    linear_combination hfirst + base * hrest

/-- If besides every digit is below the base, what is kept of the exact result is its remainder,
and what is carried its quotient. -/
theorem digitwise_divMod {base : ℤ} {digit : Byte → ℤ} {addend : α → ℤ} (carried : Flags → ℤ)
    (hbase : 0 < base)
    (hstep : ∀ x ∈ xs, ∀ f, digit (step x f).1 + base * carried (step x f).2 = addend x + carried f)
    {f : Flags} (hdigit : ∀ v ∈ (digitwise step xs f).1, 0 ≤ digit v ∧ digit v < base) :
    number base digit (digitwise step xs f).1 =
        (number base addend xs + carried f) % base ^ xs.length ∧
      carried (digitwise step xs f).2 = (number base addend xs + carried f) / base ^ xs.length := by
  have hbounds := number_bounds hdigit
  rw [length_digitwise] at hbounds
  have hunique := Int.ediv_emod_unique (pow_pos hbase xs.length) |>.mpr
    ⟨number_digitwise carried hstep f, hbounds⟩
  exact ⟨hunique.2.symm, hunique.1.symm⟩

end Digitwise

section Quotient

variable {c : Bool} {s weight : ℤ}

/-- A carry that is the quotient of a number tells whether that number reaches the weight. -/
theorem carry_of_quotient (hweight : 0 < weight) (h : (c.toNat : ℤ) = s / weight) :
    c = decide (weight ≤ s) := by
  have hquotient := Int.le_ediv_iff_mul_le (a := 1) (b := s) hweight
  rw [one_mul, ← h] at hquotient
  rw [Bool.eq_iff_iff, decide_eq_true_iff, ← hquotient]
  cases c <;> decide

/-- A borrow that is the quotient of a number tells whether that number is negative. -/
theorem borrow_of_quotient (hweight : 0 < weight) (h : -(c.toNat : ℤ) = s / weight) :
    c = decide (s < 0) := by
  have hquotient := Int.ediv_lt_iff_lt_mul (a := s) (b := 0) hweight
  rw [zero_mul, ← h] at hquotient
  rw [Bool.eq_iff_iff, decide_eq_true_iff, ← hquotient]
  cases c <;> decide

end Quotient

/-- The number that bytes denote, the least significant first. -/
def binary : List Byte → ℤ := number 256 fun v => v.toNat

theorem byte_bounds (v : Byte) : 0 ≤ (v.toNat : ℤ) ∧ (v.toNat : ℤ) < 256 := by
  have := v.toNat_lt
  omega

theorem binary_bounds (vs : List Byte) : 0 ≤ binary vs ∧ binary vs < 256 ^ vs.length :=
  number_bounds fun v _ => byte_bounds v

/-! ### Sums and differences -/

/-- An operation on other values, in between two digits. -/
inductive Aside where
  | increment (v : Byte)
  | decrement (v : Byte)
  | incrementWord (w : Word)
  | decrementWord (w : Word)
  | complement (v : Byte)

/-- The flags afterwards. -/
def Aside.flags (f : Flags) : Aside → Flags
  | increment v => (Alu.increment v f).2
  | decrement v => (Alu.decrement v f).2
  | incrementWord _ | decrementWord _ | complement _ => f

/-- A byte of either number, and what is done before they are combined. -/
structure Digit where
  asides : List Aside := []
  left : Byte
  right : Byte

namespace Digit

def combine (op : AluOp) (d : Digit) (f : Flags) : Byte × Flags :=
  op.apply d.left d.right (d.asides.foldl Aside.flags f)

theorem carry_asides (asides : List Aside) (f : Flags) :
    (asides.foldl Aside.flags f).carry = f.carry := by
  induction asides generalizing f with
  | nil => rfl
  | cons aside asides ih =>
    rw [List.foldl_cons, ih]
    cases aside <;> rfl

theorem combine_addCarry (d : Digit) (f : Flags) :
    d.combine .addCarry f = Alu.add d.left d.right f.carry := by
  rw [combine, AluOp.apply, carry_asides]

theorem combine_subtractBorrow (d : Digit) (f : Flags) :
    d.combine .subtractBorrow f = Alu.subtract d.left d.right f.carry := by
  rw [combine, AluOp.apply, carry_asides]

end Digit

variable {op : AluOp} {k : ℤ}

/-- The two numbers in the digits. -/
def left : List Digit → ℤ := number 256 fun d => d.left.toNat

@[inherit_doc left]
def right : List Digit → ℤ := number 256 fun d => d.right.toNat

/-- The carry stands for `k` times the weight of the next byte. -/
def Balanced (k : ℤ) (op : AluOp) : Prop :=
  ∀ a v f, ((op.apply a v f).1.toNat : ℤ) + 256 * (k * (op.apply a v f).2.carry.toNat) =
    a.toNat + k * v.toNat + k * f.carry.toNat

theorem addCarry_balanced : Balanced 1 .addCarry := by
  intro a v f
  have := a.toNat_lt
  have := v.toNat_lt
  have := Bool.toNat_lt f.carry
  simp only [AluOp.apply, Alu.add, Flags.ofResult, Flags.withResult, UInt8.toNat_ofNat']
  by_cases h : 256 ≤ a.toNat + v.toNat + f.carry.toNat <;> simp only [h, decide_true, decide_false,
    Bool.toNat_true, Bool.toNat_false] <;> omega

theorem subtractBorrow_balanced : Balanced (-1) .subtractBorrow := by
  intro a v f
  have := a.toNat_lt
  have := v.toNat_lt
  have := Bool.toNat_lt f.carry
  simp only [AluOp.apply, Alu.subtract, Flags.ofResult, Flags.withResult, UInt8.toNat_ofNat']
  by_cases h : a.toNat < v.toNat + f.carry.toNat <;> simp only [h, decide_true, decide_false,
    Bool.toNat_true, Bool.toNat_false] <;> omega

theorem Balanced.digit (h : Balanced k op) (d : Digit) (f : Flags) :
    ((d.combine op f).1.toNat : ℤ) + 256 * (k * (d.combine op f).2.carry.toNat) =
      d.left.toNat + k * d.right.toNat + k * f.carry.toNat := by
  simpa only [Digit.combine, Digit.carry_asides] using
    h d.left d.right (d.asides.foldl Aside.flags f)

/-- What is kept of an exact result is its remainder, and what is carried its quotient. -/
theorem Balanced.divMod (h : Balanced k op) (ds : List Digit) (f : Flags) :
    let r := digitwise (Digit.combine op) ds f
    let s := left ds + k * right ds + k * f.carry.toNat
    binary r.1 = s % 256 ^ ds.length ∧ k * r.2.carry.toNat = s / 256 ^ ds.length := by
  intro r s
  have hs : number 256 (fun d : Digit => d.left.toNat + k * d.right.toNat) ds +
      k * f.carry.toNat = s := by
    rw [number_add_mul]
    rfl
  rw [← hs]
  exact digitwise_divMod (fun f => k * f.carry.toNat) (by decide) (fun d _ f => h.digit d f)
    fun v _ => byte_bounds v

/-- Additions with carry, digit by digit. -/
def sum (ds : List Digit) (f : Flags) : List Byte × Flags :=
  digitwise (Digit.combine .addCarry) ds f

/-- Subtractions with borrow, digit by digit. -/
def difference (ds : List Digit) (f : Flags) : List Byte × Flags :=
  digitwise (Digit.combine .subtractBorrow) ds f

theorem carry_sum (ds : List Digit) (f : Flags) :
    (sum ds f).2.carry = decide (256 ^ ds.length ≤ left ds + right ds + f.carry.toNat) := by
  obtain ⟨-, hcarry⟩ := addCarry_balanced.divMod ds f
  simp only [one_mul] at hcarry
  exact carry_of_quotient (pow_pos (by decide) _) hcarry

theorem carry_difference (ds : List Digit) (f : Flags) :
    (difference ds f).2.carry = decide (left ds < right ds + f.carry.toNat) := by
  obtain ⟨-, hcarry⟩ := subtractBorrow_balanced.divMod ds f
  rw [neg_one_mul, neg_one_mul, neg_one_mul, ← sub_eq_add_neg, ← sub_eq_add_neg,
    sub_sub] at hcarry
  rw [difference, borrow_of_quotient (pow_pos (by decide) _) hcarry]
  simp only [sub_neg]

/-- Additions with carry and subtractions with borrow, digit by digit, add and subtract whole
numbers, whatever else is counted in between. -/
theorem sum_and_difference (ds : List Digit) (f : Flags) :
    ((sum ds f).1.length = ds.length ∧
      binary (sum ds f).1 = (left ds + right ds + f.carry.toNat) % 256 ^ ds.length ∧
      (sum ds f).2.carry = decide (256 ^ ds.length ≤ left ds + right ds + f.carry.toNat)) ∧
    ((difference ds f).1.length = ds.length ∧
      binary (difference ds f).1 = (left ds - right ds - f.carry.toNat) % 256 ^ ds.length ∧
      (difference ds f).2.carry = decide (left ds < right ds + f.carry.toNat)) ∧
    (difference ds { f with carry := false }).2.carry = decide (left ds < right ds) ∧
    ∀ d : Digit,
      (∃ v, (sum (ds ++ [d]) f).1 = (sum ds f).1 ++ [v] ∧
        (sum (ds ++ [d]) f).2 =
          Manual.describe v
            (decide (16 ≤ d.left.toNat % 16 + d.right.toNat % 16 + (sum ds f).2.carry.toNat))
            (sum (ds ++ [d]) f).2.carry) ∧
      ∃ v, (difference (ds ++ [d]) f).1 = (difference ds f).1 ++ [v] ∧
        (difference (ds ++ [d]) f).2 =
          Manual.describe v
            (decide (d.left.toNat % 16 < d.right.toNat % 16 + (difference ds f).2.carry.toNat))
            (difference (ds ++ [d]) f).2.carry := by
  refine ⟨⟨length_digitwise _ ds f, ?_, carry_sum ds f⟩,
    ⟨length_digitwise _ ds f, ?_, carry_difference ds f⟩, ?_, fun d => ⟨?_, ?_⟩⟩
  · have hvalue := (addCarry_balanced.divMod ds f).1
    rwa [one_mul, one_mul] at hvalue
  · have hvalue := (subtractBorrow_balanced.divMod ds f).1
    rwa [neg_one_mul, neg_one_mul, ← sub_eq_add_neg, ← sub_eq_add_neg] at hvalue
  · have hcarry := carry_difference ds { f with carry := false }
    rwa [Bool.toNat_false, Nat.cast_zero, add_zero] at hcarry
  · rw [sum, digitwise_concat, Digit.combine_addCarry, ← sum]
    exact ⟨_, rfl, (Manual.describe_eq _ _ _).symm⟩
  · rw [difference, digitwise_concat, Digit.combine_subtractBorrow, ← difference]
    exact ⟨_, rfl, (Manual.describe_eq _ _ _).symm⟩

example :
    sum [⟨[], 0xFF, 0x01⟩, ⟨[.decrement 0x10, .incrementWord 0xFFFF], 0x12, 0x34⟩] {} =
      ([0x00, 0x47], { parity := true }) := by decide

end Intel8080.Multibyte
