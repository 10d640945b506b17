import Intel8080.Proofs.Alu.Multibyte

/-! Numbers of many bytes shifted by one bit. The carry takes the bit that leaves one byte into the
next, upwards in rotations to the left and downwards in rotations to the right, so that one pass
doubles the number and the other halves it, and each takes back what the other does. -/

namespace Intel8080.Shift

open Multibyte (digitwise number binary)

/-- Each byte is rotated left through the carry, the least significant first. -/
def double (xs : List Byte) (f : Flags) : List Byte × Flags :=
  digitwise Rotation.leftThroughCarry.apply xs f

/-- Each byte is rotated right through the carry, the most significant first. -/
def halve (xs : List Byte) (f : Flags) : List Byte × Flags :=
  let r := digitwise Rotation.rightThroughCarry.apply xs.reverse f
  (r.1.reverse, r.2)

/-! ### One byte -/

section Rotated

variable (a : Byte) (f : Flags)

theorem left_balance :
    (Rotation.leftThroughCarry.apply a f).1.toNat +
        256 * (Rotation.leftThroughCarry.apply a f).2.carry.toNat =
      2 * a.toNat + f.carry.toNat := by
  have hbyte := a.toNat_lt
  have hbit := Bool.toNat_lt f.carry
  simp only [Rotation.apply, Nat.toNat_testBit, UInt8.toNat_ofNat']
  omega

theorem right_balance :
    2 * (Rotation.rightThroughCarry.apply a f).1.toNat +
        (Rotation.rightThroughCarry.apply a f).2.carry.toNat =
      a.toNat + 256 * f.carry.toNat := by
  have hbyte := a.toNat_lt
  have hbit := Bool.toNat_lt f.carry
  simp only [Rotation.apply, Nat.toNat_testBit, UInt8.toNat_ofNat']
  omega

/-- Only the carry changes. -/
theorem rotation_flags (r : Rotation) :
    (r.apply a f).2 = { f with carry := (r.apply a f).2.carry } := by
  cases r <;> rfl

theorem bit_inj {b c : Bool} (h : b.toNat = c.toNat) : b = c := by
  revert b c
  decide

variable {a f} in
theorem eq_of_flags {r : Byte × Flags} (hflags : r.2 = { f with carry := r.2.carry })
    (hbyte : r.1.toNat = a.toNat) (hcarry : r.2.carry.toNat = f.carry.toNat) : r = (a, f) := by
  refine Prod.ext (UInt8.toNat_inj.mp hbyte) ?_
  rw [hflags, bit_inj hcarry]

theorem right_left :
    Rotation.rightThroughCarry.apply (Rotation.leftThroughCarry.apply a f).1
      (Rotation.leftThroughCarry.apply a f).2 = (a, f) := by
  obtain ⟨l, hl⟩ : ∃ l, l = Rotation.leftThroughCarry.apply a f := ⟨_, rfl⟩
  have hleft := left_balance a f
  have hright := right_balance l.1 l.2
  have hbit := Bool.toNat_lt f.carry
  have hbit' := Bool.toNat_lt (Rotation.rightThroughCarry.apply l.1 l.2).2.carry
  rw [← hl] at hleft ⊢
  refine eq_of_flags ?_ (by omega) (by omega)
  rw [rotation_flags, hl, rotation_flags a f]

theorem left_right :
    Rotation.leftThroughCarry.apply (Rotation.rightThroughCarry.apply a f).1
      (Rotation.rightThroughCarry.apply a f).2 = (a, f) := by
  obtain ⟨r, hr⟩ : ∃ r, r = Rotation.rightThroughCarry.apply a f := ⟨_, rfl⟩
  have hright := right_balance a f
  have hleft := left_balance r.1 r.2
  have hbyte := a.toNat_lt
  have hbyte' := (Rotation.leftThroughCarry.apply r.1 r.2).1.toNat_lt
  rw [← hr] at hright ⊢
  refine eq_of_flags ?_ (by omega) (by omega)
  rw [rotation_flags, hr, rotation_flags a f]

end Rotated

/-! ### Numbers -/

variable (xs : List Byte) (f : Flags)

@[simp] theorem double_cons (x : Byte) :
    double (x :: xs) f =
      ((Rotation.leftThroughCarry.apply x f).1 ::
          (double xs (Rotation.leftThroughCarry.apply x f).2).1,
        (double xs (Rotation.leftThroughCarry.apply x f).2).2) := rfl

/-- The bytes above come first. -/
@[simp] theorem halve_cons (x : Byte) :
    halve (x :: xs) f =
      ((Rotation.rightThroughCarry.apply x (halve xs f).2).1 :: (halve xs f).1,
        (Rotation.rightThroughCarry.apply x (halve xs f).2).2) := by
  simp only [halve, List.reverse_cons, Multibyte.digitwise_concat, List.reverse_append,
    List.reverse_nil, List.nil_append, List.singleton_append]

theorem halve_double : halve (double xs f).1 (double xs f).2 = (xs, f) := by
  induction xs generalizing f with
  | nil => rfl
  | cons x xs ih => simp only [double_cons, halve_cons, ih, right_left]

theorem double_halve : double (halve xs f).1 (halve xs f).2 = (xs, f) := by
  induction xs with
  | nil => rfl
  | cons x xs ih => simp only [double_cons, halve_cons, left_right, ih]

/-- A pass of rotations, like each of them, changes the carry only. -/
theorem pass_flags (r : Rotation) :
    (digitwise r.apply xs f).2 = { f with carry := (digitwise r.apply xs f).2.carry } := by
  induction xs generalizing f with
  | nil => rfl
  | cons x xs ih =>
    rw [digitwise, ih, rotation_flags x f]

theorem length_halve : (halve xs f).1.length = xs.length := by
  rw [halve, List.length_reverse, Multibyte.length_digitwise, List.length_reverse]

theorem binary_double :
    binary (double xs f).1 = (2 * binary xs + f.carry.toNat) % 256 ^ xs.length ∧
      ((double xs f).2.carry.toNat : ℤ) =
        (2 * binary xs + f.carry.toNat) / 256 ^ xs.length := by
  have hstep : ∀ x ∈ xs, ∀ f, ((Rotation.leftThroughCarry.apply x f).1.toNat : ℤ) +
      256 * (Rotation.leftThroughCarry.apply x f).2.carry.toNat =
        x.toNat + 1 * x.toNat + f.carry.toNat := by
    intro x _ f
    have := left_balance x f
    omega
  have hdivMod := Multibyte.digitwise_divMod (fun f => f.carry.toNat) (by decide) hstep (f := f)
    fun v _ => Multibyte.byte_bounds v
  rw [Multibyte.number_add_mul, one_mul, ← two_mul] at hdivMod
  exact hdivMod

/-- What is halved is the number with the carry above it. -/
theorem binary_halve :
    2 * binary (halve xs f).1 + (halve xs f).2.carry.toNat =
      binary xs + f.carry.toNat * 256 ^ xs.length := by
  induction xs with
  | nil => simp [binary, number, halve, digitwise]
  | cons x xs ih =>
    have hbyte := congrArg (Nat.cast (R := ℤ)) (right_balance x (halve xs f).2)
    push_cast at hbyte
    rw [halve_cons, List.length_cons, pow_succ]
    simp only [binary, number] at ih ⊢
    linear_combination hbyte + 256 * ih

/-- What leaves a number above as it is doubled is its top bit. -/
theorem carry_double (hxs : xs ≠ []) :
    (double xs f).2.carry = (binary xs).toNat.testBit (8 * xs.length - 1) := by
  obtain ⟨n, hn⟩ : ∃ n, 8 * xs.length = n + 1 :=
    ⟨8 * xs.length - 1, by have := List.length_pos_iff.mpr hxs; omega⟩
  have hweight : (256 : ℤ) ^ xs.length = 2 * 2 ^ n := by
    rw [← pow_succ', ← hn, pow_mul]
    norm_num
  obtain ⟨hpos, hlt⟩ := Multibyte.binary_bounds xs
  obtain ⟨x, hx⟩ := Int.eq_ofNat_of_zero_le hpos
  have hcarry := (binary_double xs f).2
  rw [hx, hweight] at hlt hcarry
  have hbit := Bool.toNat_lt f.carry
  have hquotient : (double xs f).2.carry.toNat = x / 2 ^ n := by
    have hhalf : (2 * (x : ℤ) + f.carry.toNat) / 2 = x := by omega
    rw [← Int.ediv_ediv_of_nonneg (by decide), hhalf] at hcarry
    exact_mod_cast hcarry
  have hsmall : x / 2 ^ n < 2 := Nat.div_lt_of_lt_mul (by rw [mul_comm]; exact_mod_cast hlt)
  apply bit_inj
  rw [hquotient, hx, Int.toNat_natCast, Nat.toNat_testBit, hn, Nat.add_sub_cancel,
    Nat.mod_eq_of_lt hsmall]

/-- What leaves a number below as it is halved is its lowest bit. -/
theorem halve_divMod (hxs : xs ≠ []) :
    binary (halve xs f).1 = (binary xs + f.carry.toNat * 256 ^ xs.length) / 2 ∧
      (halve xs f).2.carry = (binary xs).toNat.testBit 0 := by
  obtain ⟨n, hn⟩ : ∃ n, xs.length = n + 1 :=
    Nat.exists_eq_add_one.mpr (List.length_pos_iff.mpr hxs)
  have hbit := Bool.toNat_lt (halve xs f).2.carry
  have hhalve := binary_halve xs f
  have hpos := (Multibyte.binary_bounds xs).1
  have hweight : (f.carry.toNat : ℤ) * 256 ^ xs.length = 2 * (f.carry.toNat * 128 * 256 ^ n) := by
    rw [hn, pow_succ]
    ring
  rw [hweight] at hhalve ⊢
  refine ⟨by omega, bit_inj ?_⟩
  rw [Nat.toNat_testBit]
  omega

/-- Rotations through the carry shift a whole number by one bit, to the left from its first byte
up and to the right from its last byte down. -/
theorem shift_through_carry (hxs : xs ≠ []) :
    ((double xs f).1.length = xs.length ∧
      binary (double xs f).1 = (2 * binary xs + f.carry.toNat) % 256 ^ xs.length ∧
      (double xs f).2 = { f with carry := (binary xs).toNat.testBit (8 * xs.length - 1) }) ∧
    ((halve xs f).1.length = xs.length ∧
      binary (halve xs f).1 = (binary xs + f.carry.toNat * 256 ^ xs.length) / 2 ∧
      (halve xs f).2 = { f with carry := (binary xs).toNat.testBit 0 }) ∧
    halve (double xs f).1 (double xs f).2 = (xs, f) ∧
    double (halve xs f).1 (halve xs f).2 = (xs, f) := by
  obtain ⟨hhalf, hbottom⟩ := halve_divMod xs f hxs
  refine ⟨⟨Multibyte.length_digitwise _ xs f, (binary_double xs f).1, ?_⟩,
    ⟨length_halve xs f, hhalf, ?_⟩, halve_double xs f, double_halve xs f⟩
  · rw [← carry_double xs f hxs]
    exact pass_flags xs f .leftThroughCarry
  · rw [← hbottom]
    exact pass_flags xs.reverse f .rightThroughCarry

theorem shift_through_carry_word :
    ([0x80, 0x81] : List Byte) ≠ [] ∧
      double [0x80, 0x81] { carry := true } = ([0x01, 0x03], { carry := true }) ∧
      binary (double [0x80, 0x81] { carry := true }).1 = (2 * 0x8180 + 1) % 0x10000 ∧
      binary (halve [0x80, 0x81] { carry := true }).1 = (0x8180 + 0x10000) / 2 ∧
      (halve [0x80, 0x81] { carry := true }).2 = {} := by
  obtain ⟨⟨-, hdouble, -⟩, ⟨-, hhalve, hbottom⟩, -⟩ :=
    shift_through_carry [0x80, 0x81] { carry := true } (by decide)
  exact ⟨by decide, by decide, hdouble, hhalve, hbottom.trans (by decide)⟩

end Intel8080.Shift
