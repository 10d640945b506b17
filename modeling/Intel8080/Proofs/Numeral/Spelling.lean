import Intel8080.Numeral
import Mathlib.Data.Nat.Digits.Defs
import Mathlib.Tactic.IntervalCases

/-! Numbers spelled out as digits, and in the notations of the command line. Whatever spells a
number below the bound is read as that number. -/

namespace Intel8080.Numeral

/-- The characters are digits that denote the number together. -/
structure Spells (radix : Nat) (cs : List Char) (n : Nat) : Prop where
  nonempty : cs ≠ []
  denotes : ∃ ds : List Nat, cs.map (digit? radix) = ds.map some ∧ n = Nat.ofDigits radix ds.reverse

/-- The text writes the number in decimal, or in hexadecimal behind `0x`. -/
inductive Writes : String → Nat → Prop
  | decimal {text n} (h : Spells 10 text.toList n) : Writes text n
  | hex {text x cs n} (hx : x = 'x' ∨ x = 'X') (ht : text.toList = '0' :: x :: cs)
      (h : Spells 16 cs n) : Writes text n

variable {radix n d : Nat} {c : Char} {cs : List Char} {text : String}

theorem digit?_lt (h : digit? radix c = some d) : d < radix := by
  simp only [digit?, Option.ite_none_right_eq_some, Option.some.injEq] at h
  exact h.2 ▸ h.1

/-- Neither sign is a digit. -/
theorem digit?_sign (radix : Nat) : digit? radix '+' = none ∧ digit? radix '-' = none := by
  constructor <;> simp [digit?]

/-! ### Reading -/

/-- Digits in front are read as what they denote behind the value already read, unless they carry
it past the bound. -/
theorem digits_append {bound : Nat} (excess : Error) {ds : List Nat} (rest : List Char) {value : Nat}
    (hcs : cs.map (digit? radix) = ds.map some) (hvalue : value < bound) :
    digits radix bound excess (cs ++ rest) value =
      if value * radix ^ ds.length + Nat.ofDigits radix ds.reverse < bound then
        digits radix bound excess rest (value * radix ^ ds.length + Nat.ofDigits radix ds.reverse)
      else .error excess := by
  induction ds generalizing cs value with
  | nil =>
    obtain rfl : cs = [] := by simpa using hcs
    simp [hvalue]
  | cons d ds ih =>
    obtain ⟨c, cs, rfl⟩ : ∃ c cs', cs = c :: cs' := by
      cases cs with
      | nil => cases hcs
      | cons c cs => exact ⟨c, cs, rfl⟩
    obtain ⟨hd, hcs⟩ := List.cons.inj hcs
    have hpos : 0 < radix ^ ds.length := Nat.pow_pos (Nat.zero_lt_of_lt (digit?_lt hd))
    have htotal : value * radix ^ (d :: ds).length + Nat.ofDigits radix (d :: ds).reverse =
        (value * radix + d) * radix ^ ds.length + Nat.ofDigits radix ds.reverse := by
      rw [Nat.ofDigits_reverse_cons, List.length_cons, Nat.pow_succ]
      ring
    have hle : value * radix + d ≤ (value * radix + d) * radix ^ ds.length :=
      Nat.le_mul_of_pos_right _ hpos
    rw [htotal, List.cons_append, digits, hd]
    dsimp only
    by_cases hnext : value * radix + d < bound
    · rw [if_pos hnext]
      exact ih hcs hnext
    · rw [if_neg hnext, if_neg (by omega)]

theorem Spells.digits {bound : Nat} {excess : Error} (h : Spells radix cs n) (hn : n < bound) :
    digits radix bound excess cs 0 = .ok n := by
  obtain ⟨ds, hcs, rfl⟩ := h.denotes
  have hread := digits_append excess [] hcs (Nat.zero_lt_of_lt hn)
  rwa [List.append_nil, Nat.zero_mul, Nat.zero_add, if_pos hn] at hread

theorem Spells.digit (h : Spells radix cs n) (hc : c ∈ cs) : ∃ d, digit? radix c = some d := by
  obtain ⟨ds, hcs, -⟩ := h.denotes
  have hmem : digit? radix c ∈ ds.map some := hcs ▸ List.mem_map_of_mem hc
  obtain ⟨d, -, hd⟩ := List.mem_map.mp hmem
  exact ⟨d, hd.symm⟩

theorem Spells.ne_sign (h : Spells radix cs n) (hc : c ∈ cs) : c ≠ '+' ∧ c ≠ '-' := by
  obtain ⟨d, hd⟩ := h.digit hc
  constructor <;> rintro rfl
  · rw [(digit?_sign radix).1] at hd
    cases hd
  · rw [(digit?_sign radix).2] at hd
    cases hd

theorem Spells.head (h : Spells radix cs n) : cs.head? ≠ some '-' :=
  fun hd => (h.ne_sign (List.mem_of_mem_head? hd)).2 rfl

theorem Spells.unsigned (h : Spells radix cs n) (hn : n < bound) : unsigned radix cs = .ok n := by
  unfold Numeral.unsigned
  split
  · exact absurd rfl h.nonempty
  · exact absurd rfl (h.ne_sign List.mem_cons_self).1
  · exact absurd rfl (h.ne_sign List.mem_cons_self).1
  · exact h.digits hn

/-- A decimal digit is not the mark of a hexadecimal number. -/
theorem Spells.not_mark (h : Spells 10 cs n) : 'x' ∉ cs ∧ 'X' ∉ cs := by
  constructor <;> intro hx <;> obtain ⟨d, hd⟩ := h.digit hx <;> simp [digit?] at hd

theorem Writes.head (h : Writes text n) : text.toList.head? ≠ some '-' := by
  cases h with
  | decimal h => exact h.head
  | hex _ ht =>
    rw [ht]
    simp

theorem Writes.parse (h : Writes text n) (hn : n < bound) : parse text = .ok n := by
  unfold Numeral.parse
  cases h with
  | decimal h =>
    obtain ⟨hx, hX⟩ := h.not_mark
    split
    next ht => simp [ht] at hx
    next ht => simp [ht] at hX
    next => exact h.unsigned hn
  | hex hx ht h =>
    rw [ht]
    rcases hx with rfl | rfl <;> exact h.unsigned hn

/-- Small numbers in decimal are read with a sign allowed for. -/
theorem Spells.parseSigned (h : Spells 10 text.toList n) (hn : n < signedBound) :
    parseSigned text = .ok (n : Int) := by
  unfold Numeral.parseSigned
  split
  next ht => exact absurd ht h.nonempty
  next ht => exact absurd rfl (h.ne_sign (ht ▸ List.mem_cons_self)).1
  next ht => exact absurd rfl (h.ne_sign (ht ▸ List.mem_cons_self)).2
  next ht => exact absurd rfl (h.ne_sign (ht ▸ List.mem_cons_self)).1
  next ht => exact absurd rfl (h.ne_sign (ht ▸ List.mem_cons_self)).2
  next =>
    rw [h.digits hn]
    rfl

/-! ### Writing -/

theorem digit?_digitChar (hr : radix ≤ 16) (hd : d < radix) :
    digit? radix (Nat.digitChar d) = some d := by
  have hd' : d < 16 := Nat.lt_of_lt_of_le hd hr
  interval_cases d <;> simp [digit?, Nat.digitChar, hd]

/-- The digits of a number spell it. -/
theorem spells_toDigits (hr : 1 < radix) (hr' : radix ≤ 16) (n : Nat) :
    Spells radix (Nat.toDigits radix n) n := by
  induction n using Nat.strong_induction_on with
  | _ n ih =>
    rw [Nat.toDigits_eq_if hr]
    split
    next hn =>
      exact ⟨nofun, [n], by simp [digit?_digitChar hr' hn], by simp⟩
    next hn =>
      have hlt : n / radix < n := Nat.div_lt_self (by omega) hr
      obtain ⟨ds, hcs, hvalue⟩ := (ih _ hlt).denotes
      have hd := digit?_digitChar hr' (Nat.mod_lt n (Nat.zero_lt_of_lt hr))
      refine ⟨by simp, ds ++ [n % radix], by simp [hcs, hd], ?_⟩
      rw [List.reverse_append, List.reverse_singleton, List.singleton_append, Nat.ofDigits_cons,
        ← hvalue]
      exact (Nat.mod_add_div n radix).symm

theorem spells_toString (n : Nat) : Spells 10 (toString n).toList n := by
  rw [Nat.toString_eq_ofList_toDigits, String.toList_ofList]
  exact spells_toDigits (by decide) (by decide) n

/-- Both notations of a number write it. -/
theorem writes_toString (n : Nat) : Writes (toString n) n := .decimal (spells_toString n)

theorem writes_hex (n : Nat) : Writes ("0x" ++ String.ofList (Nat.toDigits 16 n)) n := by
  refine .hex (.inl rfl) ?_ (spells_toDigits (by decide) (by decide) n)
  have hmark : "0x".toList = ['0', 'x'] := rfl
  rw [String.toList_append, hmark, String.toList_ofList]
  rfl

end Intel8080.Numeral
