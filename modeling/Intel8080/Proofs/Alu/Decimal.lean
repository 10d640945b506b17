import Intel8080.Proofs.Alu.Multibyte

/-! Decimal numbers of many bytes, two digits to the byte. Bytes that are adjusted after each
addition add as decimal numbers do, and to take one number from another its complement to
ninety-nine is added in each byte, where a carry stands for a borrow that was not needed. Either
way the books balance in each byte, and so they do for the numbers. -/

namespace Intel8080.Decimal

open Multibyte (digitwise number)

/-- Both halves of the byte are decimal digits. -/
def Packed (v : Byte) : Prop := v.toNat / 16 ≤ 9 ∧ v.toNat % 16 ≤ 9

/-- The halves of a byte, read as tens and units. -/
def pair (v : Byte) : ℤ := 10 * (v.toNat / 16 : ℕ) + (v.toNat % 16 : ℕ)

/-- The number that packed bytes denote, the least significant first. -/
def decimal : List Byte → ℤ := number 100 pair

theorem Packed.pair_bounds {v : Byte} (h : Packed v) : 0 ≤ pair v ∧ pair v < 100 := by
  obtain ⟨htens, hunits⟩ := h
  simp only [pair]
  omega

/-! ### One byte -/

/-- The low correction takes what is above nine units into the tens. -/
theorem correct_units {a tens units : ℕ} {aux carry : Bool} (hunits : units ≤ 19)
    (ha : a + 256 * carry.toNat = 16 * tens + units) (haux : aux = decide (16 ≤ units)) :
    (if decide (9 < a % 16) || aux then a + 6 else a) + 256 * carry.toNat =
      16 * (tens + units / 10) + units % 10 := by
  have habove : (decide (9 < a % 16) || aux) = decide (10 ≤ units) := by
    rw [haux, ← Bool.decide_or, decide_eq_decide]
    omega
  rw [habove]
  by_cases h : 10 ≤ units <;> simp only [h, decide_true, decide_false, if_true, Bool.false_eq_true,
    if_false] <;> omega

/-- The high correction carries what is above nine tens out of the byte, and nothing else does. -/
theorem correct_tens {a tens units : ℕ} {carry : Bool} (htens : tens ≤ 19) (hunits : units ≤ 9)
    (ha : a + 256 * carry.toNat = 16 * tens + units) :
    let total := if decide (9 < a / 16) || carry then a + 96 else a
    total % 256 = 16 * (tens % 10) + units ∧
      (carry || decide (256 ≤ total)).toNat = tens / 10 := by
  have habove : (decide (9 < a / 16) || carry) = decide (10 ≤ tens) := by
    cases carry <;> simp only [Bool.toNat_false, Bool.toNat_true, Bool.or_false, Bool.or_true,
      decide_eq_decide, eq_comm (a := true), decide_eq_true_iff] at ha ⊢ <;> omega
  rw [habove]
  by_cases h : 10 ≤ tens
  · simp only [h, decide_true, if_true]
    have hcarry : (carry || decide (256 ≤ a + 96)) = true := by
      cases carry <;> simp only [Bool.toNat_false, Bool.false_or, Bool.true_or,
        decide_eq_true_iff] at ha ⊢
      omega
    rw [hcarry, Bool.toNat_true]
    omega
  · simp only [h, decide_false, Bool.false_eq_true, if_false]
    have hcarry : (carry || decide (256 ≤ a)) = false := by
      cases carry <;> simp only [Bool.toNat_false, Bool.toNat_true, Bool.false_or,
        decide_eq_false_iff_not] at ha ⊢ <;> omega
    rw [hcarry, Bool.toNat_false]
    omega

/-- A binary sum of tens and units is adjusted to their decimal sum. The units may come to
nineteen, of whatever they are the sum. -/
theorem decimalAdjust_sum {tens units : ℕ} (htens : tens ≤ 18) (hunits : units ≤ 19) {a : Byte}
    {f : Flags} (ha : a.toNat + 256 * f.carry.toNat = 16 * tens + units)
    (haux : f.auxiliary = decide (16 ≤ units)) :
    Packed (Alu.decimalAdjust a f).1 ∧
      pair (Alu.decimalAdjust a f).1 + 100 * (Alu.decimalAdjust a f).2.carry.toNat =
        10 * tens + units := by
  obtain ⟨hvalue, hcarry⟩ :=
    correct_tens (by omega) (by omega) (correct_units hunits ha haux)
  have hbyte : (Alu.decimalAdjust a f).1.toNat = 16 * ((tens + units / 10) % 10) + units % 10 := by
    rw [← hvalue]
    exact UInt8.toNat_ofNat'
  have hbit : (Alu.decimalAdjust a f).2.carry.toNat = (tens + units / 10) / 10 := hcarry
  simp only [Packed, pair, hbyte, hbit]
  omega

/-- A sum is adjusted even if one of the halves added is a ten. -/
theorem decimalAdjust_add {a v : Byte} {c : Bool} (htens : a.toNat / 16 + v.toNat / 16 ≤ 18)
    (hunits : a.toNat % 16 + v.toNat % 16 + c.toNat ≤ 19) :
    let s := Alu.add a v c
    let r := Alu.decimalAdjust s.1 s.2
    Packed r.1 ∧ pair r.1 + 100 * r.2.carry.toNat = pair a + pair v + c.toNat := by
  intro s r
  have hs : s.1.toNat + 256 * s.2.carry.toNat = a.toNat + v.toNat + c.toNat := by
    have hbalanced := Multibyte.addCarry_balanced a v { carry := c }
    rw [one_mul, one_mul, one_mul] at hbalanced
    exact_mod_cast hbalanced
  have hadjusted := decimalAdjust_sum htens hunits (a := s.1) (f := s.2) (by omega) rfl
  refine ⟨hadjusted.1, hadjusted.2.trans ?_⟩
  simp only [pair]
  push_cast
  ring

/-- Bytes that are added with the carry and adjusted. -/
def addAdjusted (d : Byte × Byte) (f : Flags) : Byte × Flags :=
  let s := AluOp.addCarry.apply d.1 d.2 f
  Alu.decimalAdjust s.1 s.2

/-- Ninety-nine and the carry, less a byte. -/
def complement (v : Byte) (f : Flags) : Byte × Flags :=
  let nines := AluOp.addCarry.apply 0x99 0 f
  AluOp.subtract.apply nines.1 v nines.2

/-- The first byte is added to the complement of the second, and the sum is adjusted. -/
def subtractAdjusted (d : Byte × Byte) (f : Flags) : Byte × Flags :=
  let rest := complement d.2 f
  let s := AluOp.add.apply rest.1 d.1 rest.2
  Alu.decimalAdjust s.1 s.2

/-- The complement borrows nothing, but a carry can leave ten units. -/
theorem complement_halves {v : Byte} (h : Packed v) (f : Flags) :
    (complement v f).1.toNat / 16 = 9 - v.toNat / 16 ∧
      (complement v f).1.toNat % 16 = 9 + f.carry.toNat - v.toNat % 16 := by
  obtain ⟨htens, hunits⟩ := h
  have hbit := Bool.toNat_lt f.carry
  have hnines : (AluOp.addCarry.apply 0x99 0 f).1.toNat = 153 + f.carry.toNat := by
    cases hc : f.carry <;> simp [AluOp.apply, Alu.add, hc]
  simp only [complement, AluOp.apply] at hnines ⊢
  simp only [Alu.subtract, hnines, UInt8.toNat_ofNat', Nat.reducePow, Bool.toNat_false]
  omega

/-! ### Numbers -/

/-- A step on packed bytes leaves one, in balance with `k` times the second added to the first, if
what `carried` says of the flags is worth a hundred afterwards. -/
def Balanced (k : ℤ) (carried : Flags → ℤ) (step : Byte × Byte → Flags → Byte × Flags) : Prop :=
  ∀ d f, Packed d.1 → Packed d.2 → Packed (step d f).1 ∧
    pair (step d f).1 + 100 * carried (step d f).2 = pair d.1 + k * pair d.2 + carried f

theorem addAdjusted_balanced : Balanced 1 (fun f => f.carry.toNat) addAdjusted := by
  intro d f ⟨htens, hunits⟩ ⟨htens', hunits'⟩
  have hbit := Bool.toNat_lt f.carry
  rw [one_mul]
  exact decimalAdjust_add (by omega) (by omega)

/-- The carry tells that nothing was borrowed. -/
theorem subtractAdjusted_balanced :
    Balanced (-1) (fun f => -(!f.carry).toNat) subtractAdjusted := by
  intro d f ⟨htens, hunits⟩ hsecond
  have hbit := Bool.toNat_lt f.carry
  obtain ⟨hrest, hrest'⟩ := complement_halves hsecond f
  have hadjusted : Packed (subtractAdjusted d f).1 ∧ pair (subtractAdjusted d f).1 +
      100 * (subtractAdjusted d f).2.carry.toNat = pair (complement d.2 f).1 + pair d.1 + (0 : ℕ) :=
    decimalAdjust_add (by omega) (by rw [Bool.toNat_false]; omega)
  have hcomplement : pair (complement d.2 f).1 = 99 + f.carry.toNat - pair d.2 := by
    obtain ⟨htens', hunits'⟩ := hsecond
    simp only [pair, hrest, hrest']
    omega
  have hborrow : ∀ c : Bool, (c.toNat : ℤ) = 1 - (!c).toNat := by decide
  obtain ⟨hpacked, hbalance⟩ := hadjusted
  rw [hcomplement, hborrow f.carry, hborrow (subtractAdjusted d f).2.carry] at hbalance
  refine ⟨hpacked, ?_⟩
  linear_combination hbalance

variable {k : ℤ} {carried : Flags → ℤ} {step : Byte × Byte → Flags → Byte × Flags}
  {xs ys : List Byte}

theorem decimal_zip (k : ℤ) (hlen : xs.length = ys.length) :
    number 100 (fun d => pair d.1 + k * pair d.2) (xs.zip ys) = decimal xs + k * decimal ys := by
  rw [Multibyte.number_add_mul, ← Multibyte.number_map 100 pair Prod.fst,
    ← Multibyte.number_map 100 pair Prod.snd, List.map_fst_zip hlen.le, List.map_snd_zip hlen.ge]
  rfl

/-- The bytes stay packed, and they keep the remainder of the exact result. -/
theorem Balanced.divMod (h : Balanced k carried step) (hlen : xs.length = ys.length)
    (hxs : ∀ v ∈ xs, Packed v) (hys : ∀ v ∈ ys, Packed v) (f : Flags) :
    let r := digitwise step (xs.zip ys) f
    let s := decimal xs + k * decimal ys + carried f
    r.1.length = xs.length ∧ (∀ v ∈ r.1, Packed v) ∧
      decimal r.1 = s % 100 ^ xs.length ∧ carried r.2 = s / 100 ^ xs.length := by
  intro r s
  have hzip : (xs.zip ys).length = xs.length := by
    rw [List.length_zip, ← hlen, min_self]
  have hmem : ∀ d ∈ xs.zip ys, Packed d.1 ∧ Packed d.2 := fun d hd =>
    (List.of_mem_zip hd).imp (hxs d.1) (hys d.2)
  have hpacked : ∀ v ∈ r.1, Packed v := Multibyte.forall_mem_digitwise
    (fun d hd f => (h d f (hmem d hd).1 (hmem d hd).2).1) f
  have hdivMod := Multibyte.digitwise_divMod carried (by decide)
    (fun d hd f => (h d f (hmem d hd).1 (hmem d hd).2).2)
    fun v hv => (hpacked v hv).pair_bounds
  rw [decimal_zip k hlen, hzip] at hdivMod
  exact ⟨(Multibyte.length_digitwise _ _ f).trans hzip, hpacked, hdivMod⟩

/-- Additions with carry, each adjusted, add decimal numbers. -/
theorem sum_of_packed (xs ys : List Byte) (f : Flags) (hlen : xs.length = ys.length)
    (hxs : ∀ v ∈ xs, Packed v) (hys : ∀ v ∈ ys, Packed v) :
    let r := digitwise addAdjusted (xs.zip ys) f
    let s := decimal xs + decimal ys + f.carry.toNat
    r.1.length = xs.length ∧ (∀ v ∈ r.1, Packed v) ∧ decimal r.1 = s % 100 ^ xs.length ∧
      r.2.carry = decide (100 ^ xs.length ≤ s) := by
  intro r s
  obtain ⟨hlength, hpacked, hvalue, hcarry⟩ := addAdjusted_balanced.divMod hlen hxs hys f
  rw [one_mul] at hvalue hcarry
  exact ⟨hlength, hpacked, hvalue, Multibyte.carry_of_quotient (pow_pos (by decide) _) hcarry⟩

theorem sum_of_packed_overflow :
    (∀ v ∈ ([0x38, 0x95] : List Byte), Packed v) ∧ (∀ v ∈ ([0x47, 0x67] : List Byte), Packed v) ∧
      let r := digitwise addAdjusted (List.zip [0x38, 0x95] [0x47, 0x67]) { carry := true }
      decimal r.1 = (9538 + 6747 + 1) % 10000 ∧ r.2.carry = true := by
  have hxs : ∀ v ∈ ([0x38, 0x95] : List Byte), Packed v := by simp [Packed]
  have hys : ∀ v ∈ ([0x47, 0x67] : List Byte), Packed v := by simp [Packed]
  obtain ⟨-, -, hvalue, hcarry⟩ :=
    sum_of_packed [0x38, 0x95] [0x47, 0x67] { carry := true } rfl hxs hys
  exact ⟨hxs, hys, hvalue, hcarry.trans (by decide)⟩

/-- Complements added and adjusted, behind a first carry, subtract decimal numbers. -/
theorem difference_of_packed (xs ys : List Byte) (f : Flags) (hlen : xs.length = ys.length)
    (hxs : ∀ v ∈ xs, Packed v) (hys : ∀ v ∈ ys, Packed v) :
    let r := digitwise subtractAdjusted (xs.zip ys) { f with carry := true }
    r.1.length = xs.length ∧ (∀ v ∈ r.1, Packed v) ∧
      decimal r.1 = (decimal xs - decimal ys) % 100 ^ xs.length ∧
      r.2.carry = decide (decimal ys ≤ decimal xs) := by
  intro r
  obtain ⟨hlength, hpacked, hvalue, hcarry⟩ :=
    subtractAdjusted_balanced.divMod hlen hxs hys { f with carry := true }
  have hs : decimal xs + -1 * decimal ys + -((!true).toNat : ℤ) = decimal xs - decimal ys := by
    rw [Bool.not_true, Bool.toNat_false]
    ring
  rw [hs] at hvalue hcarry
  have hborrow := Multibyte.borrow_of_quotient (pow_pos (by decide) _) hcarry
  refine ⟨hlength, hpacked, hvalue, ?_⟩
  rw [← Bool.not_not r.2.carry, hborrow, ← decide_not]
  simp only [not_lt, sub_nonneg]

/-- The zero among the units of the second number leaves ten of them in its complement. -/
theorem difference_of_packed_borrow :
    (∀ v ∈ ([0x12, 0x10] : List Byte), Packed v) ∧ (∀ v ∈ ([0x30, 0x11] : List Byte), Packed v) ∧
      let r := digitwise subtractAdjusted (List.zip [0x12, 0x10] [0x30, 0x11]) { carry := true }
      decimal r.1 = (1012 - 1130) % 10000 ∧ r.2.carry = false := by
  have hxs : ∀ v ∈ ([0x12, 0x10] : List Byte), Packed v := by simp [Packed]
  have hys : ∀ v ∈ ([0x30, 0x11] : List Byte), Packed v := by simp [Packed]
  obtain ⟨-, -, hvalue, hcarry⟩ := difference_of_packed [0x12, 0x10] [0x30, 0x11] {} rfl hxs hys
  exact ⟨hxs, hys, hvalue, hcarry.trans (by decide)⟩

end Intel8080.Decimal
