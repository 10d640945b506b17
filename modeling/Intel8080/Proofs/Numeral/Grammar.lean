import Intel8080.Proofs.Numeral.Spelling
import Mathlib.Data.List.Forall2

/-! The numerals of a command line by their grammar. A text is read if and only if the grammar
admits it for a number below the bound, and then as that number. All others are refused for one of
three reasons, which the body of the text and the digits in front of it decide. -/

namespace Intel8080.Numeral

/-! ### The grammar -/

/-- The character is this digit of the radix, in either case. -/
def IsDigit (radix : Nat) (c : Char) (d : Nat) : Prop :=
  d < radix ∧ (c = d.digitChar ∨ c = d.digitChar.toUpper)

/-- The characters are digits, the most significant first, that denote the number together. -/
def Denotes (radix : Nat) (cs : List Char) (n : Nat) : Prop :=
  ∃ ds, List.Forall₂ (IsDigit radix) cs ds ∧ n = Nat.ofDigits radix ds.reverse

/-- At most one plus sign, and behind it one digit or more. -/
def Magnitude (radix : Nat) (body : List Char) (n : Nat) : Prop :=
  ∃ sign cs, (sign = [] ∨ sign = ['+']) ∧ cs ≠ [] ∧ body = sign ++ cs ∧ Denotes radix cs n

/-- The texts of a number: decimal, or hexadecimal behind a mark. -/
inductive Admits : List Char → Nat → Prop
  | decimal {body n} (h : Magnitude 10 body n) : Admits body n
  | hex {x body n} (hx : x = 'x' ∨ x = 'X') (h : Magnitude 16 body n) : Admits ('0' :: x :: body) n

/-- The radix of a text and its body, which is behind the mark if there is one. -/
def divide (cs : List Char) : Nat × List Char :=
  if ['0', 'x'] <+: cs ∨ ['0', 'X'] <+: cs then (16, cs.drop 2) else (10, cs)

/-- The digits of a body, behind its plus sign if there is one. -/
def digitsOf (body : List Char) : List Char :=
  if body.head? = some '+' then body.tail else body

/-- The longest run of digits that the characters begin with denotes the number. -/
def Leads (radix : Nat) (cs : List Char) (n : Nat) : Prop :=
  ∃ run rest, cs = run ++ rest ∧ Denotes radix run n ∧ ∀ c ∈ rest.head?, ∀ d, ¬ IsDigit radix c d

variable {radix n d : Nat} {c : Char} {cs body : List Char}

/-! ### Digits -/

theorem toNat_letter (hd : 10 ≤ d) (hd' : d < 16) :
    d.digitChar.toNat = 87 + d ∧ d.digitChar.toUpper.toNat = 55 + d := by
  interval_cases d <;> exact ⟨rfl, rfl⟩

theorem isDigit_of_digit? (hr : radix ≤ 16) (h : digit? radix c = some d) : IsDigit radix c d := by
  have hd := digit?_lt h
  simp only [digit?, Option.ite_none_right_eq_some, Option.some.injEq] at h
  obtain ⟨-, hvalue⟩ := h
  refine ⟨hd, ?_⟩
  split_ifs at hvalue with hfigure hsmall hcapital
  · have hc : 48 ≤ c.toNat ∧ c.toNat ≤ 57 := hfigure
    change c.toNat - 48 = d at hvalue
    refine .inl (Char.toNat_inj.mp ?_)
    rw [Nat.toNat_digitChar_of_lt_ten (by omega)]
    omega
  · have hc : 97 ≤ c.toNat ∧ c.toNat ≤ 122 := hsmall
    change c.toNat - 97 + 10 = d at hvalue
    refine .inl (Char.toNat_inj.mp ?_)
    rw [(toNat_letter (by omega) (by omega)).1]
    omega
  · have hc : 65 ≤ c.toNat ∧ c.toNat ≤ 90 := hcapital
    change c.toNat - 65 + 10 = d at hvalue
    refine .inr (Char.toNat_inj.mp ?_)
    rw [(toNat_letter (by omega) (by omega)).2]
    omega
  · omega

theorem digit?_of_isDigit (hr : radix ≤ 16) (h : IsDigit radix c d) : digit? radix c = some d := by
  obtain ⟨hd, rfl | rfl⟩ := h
  · exact digit?_digitChar hr hd
  · have hd' : d < 16 := Nat.lt_of_lt_of_le hd hr
    interval_cases d <;> simp [digit?, Nat.digitChar, hd]

theorem digit?_eq_some_iff (hr : radix ≤ 16) : digit? radix c = some d ↔ IsDigit radix c d :=
  ⟨isDigit_of_digit? hr, digit?_of_isDigit hr⟩

theorem digit?_eq_none_iff (hr : radix ≤ 16) :
    digit? radix c = none ↔ ∀ d, ¬ IsDigit radix c d := by
  simp only [Option.eq_none_iff_forall_ne_some, ne_eq, digit?_eq_some_iff hr]

theorem denotes_iff (hr : radix ≤ 16) : Denotes radix cs n ↔
    ∃ ds : List Nat, cs.map (digit? radix) = ds.map some ∧ n = Nat.ofDigits radix ds.reverse := by
  simp only [Denotes, ← List.forall₂_eq_eq_eq, List.forall₂_map_left_iff,
    List.forall₂_map_right_iff, digit?_eq_some_iff hr]

theorem spells_iff (hr : radix ≤ 16) : Spells radix cs n ↔ cs ≠ [] ∧ Denotes radix cs n := by
  rw [denotes_iff hr]
  exact ⟨fun h => ⟨h.nonempty, h.denotes⟩, fun h => ⟨h.1, h.2⟩⟩

/-- Some digits lead any characters, if only none. -/
theorem exists_leads (radix : Nat) (cs : List Char) : ∃ n, Leads radix cs n := by
  suffices h : ∃ run rest ds, cs = run ++ rest ∧ List.Forall₂ (IsDigit radix) run ds ∧
      ∀ c ∈ rest.head?, ∀ d, ¬ IsDigit radix c d by
    obtain ⟨run, rest, ds, hcs, hds, hrest⟩ := h
    exact ⟨_, run, rest, hcs, ⟨ds, hds, rfl⟩, hrest⟩
  induction cs with
  | nil => exact ⟨[], [], [], rfl, .nil, by simp⟩
  | cons c cs ih =>
    obtain ⟨run, rest, ds, rfl, hds, hrest⟩ := ih
    by_cases hc : ∃ d, IsDigit radix c d
    · obtain ⟨d, hd⟩ := hc
      exact ⟨c :: run, rest, d :: ds, rfl, .cons hd hds, hrest⟩
    · exact ⟨[], c :: (run ++ rest), [], rfl, .nil, by simpa using hc⟩

/-- Digits in front are read up to where they end, unless they carry the value past the bound. -/
theorem digits_of_leads {bound : Nat} {excess : Error} {run rest : List Char} (hr : radix ≤ 16)
    (hrun : Denotes radix run n) (hrest : ∀ c ∈ rest.head?, ∀ d, ¬ IsDigit radix c d)
    (hbound : 0 < bound) :
    digits radix bound excess (run ++ rest) 0 =
      if n < bound then if rest = [] then .ok n else .error .invalidDigit else .error excess := by
  obtain ⟨ds, hds, rfl⟩ := (denotes_iff hr).mp hrun
  rw [digits_append excess rest hds hbound, Nat.zero_mul, Nat.zero_add]
  refine if_congr Iff.rfl ?_ rfl
  cases rest with
  | nil => rfl
  | cons c rest =>
    rw [digits, (digit?_eq_none_iff hr).mpr (hrest c rfl)]
    rfl

/-! ### Bodies -/

theorem magnitude_iff (hr : radix ≤ 16) :
    Magnitude radix body n ↔ digitsOf body ≠ [] ∧ Denotes radix (digitsOf body) n := by
  constructor
  · rintro ⟨_, cs, rfl | rfl, hne, hbody, hcs⟩
    · have hhead : cs.head? ≠ some '+' := fun hhead =>
        (((spells_iff hr).mpr ⟨hne, hcs⟩).ne_sign (List.mem_of_mem_head? hhead)).1 rfl
      rw [hbody, List.nil_append, digitsOf, if_neg hhead]
      exact ⟨hne, hcs⟩
    · rw [hbody]
      exact ⟨hne, hcs⟩
  · intro h
    unfold digitsOf at h
    split at h
    next hhead =>
      exact ⟨['+'], body.tail, .inr rfl, h.1, (List.cons_head?_tail hhead).symm, h.2⟩
    next => exact ⟨[], body, .inl rfl, h.1, rfl, h.2⟩

/-- The digits of a body are read, if the body has any. -/
theorem unsigned_eq (radix : Nat) (body : List Char) :
    unsigned radix body =
      if body = [] then .error .empty
      else if digitsOf body = [] then .error .invalidDigit
      else digits radix bound .tooLarge (digitsOf body) 0 := by
  unfold unsigned
  split
  next => rfl
  next => rfl
  next rest hplus =>
    have hne : rest ≠ [] := hplus
    simp [digitsOf, hne]
  next hnil hplus hsign =>
    have hne : body ≠ [] := hnil
    have hhead : body.head? ≠ some '+' := by
      intro hhead
      obtain ⟨rest, rfl⟩ := List.head?_eq_some_iff.mp hhead
      exact hsign rest rfl
    simp [digitsOf, hhead, hne]

theorem ne_nil_of_digitsOf (h : digitsOf body ≠ []) : body ≠ [] := by
  rintro rfl
  exact h rfl

theorem Magnitude.unsigned (hr : radix ≤ 16) (h : Magnitude radix body n) (hn : n < bound) :
    unsigned radix body = .ok n := by
  obtain ⟨hne, hdigits⟩ := (magnitude_iff hr).mp h
  rw [unsigned_eq, if_neg (ne_nil_of_digitsOf hne), if_neg hne]
  exact ((spells_iff hr).mpr ⟨hne, hdigits⟩).digits hn

theorem Leads.unsigned (hr : radix ≤ 16) (h : Leads radix (digitsOf body) n) (hn : bound ≤ n) :
    unsigned radix body = .error .tooLarge := by
  obtain ⟨run, rest, hdigits, hrun, hrest⟩ := h
  have hne : digitsOf body ≠ [] := by
    intro hnil
    obtain ⟨rfl, -⟩ := List.append_eq_nil_iff.mp (hdigits.symm.trans hnil)
    obtain ⟨ds, hds, rfl⟩ := hrun
    cases hds
    exact absurd hn (by simp [bound])
  rw [unsigned_eq, if_neg (ne_nil_of_digitsOf hne), if_neg hne, hdigits,
    digits_of_leads hr hrun hrest (by decide), if_neg hn.not_gt]

/-- A body is read in one of four ways. -/
inductive Reads (radix : Nat) (body : List Char) : Except Error Nat → Prop
  | empty (h : body = []) : Reads radix body (.error .empty)
  | number {n : Nat} (h : Magnitude radix body n) (hn : n < bound) : Reads radix body (.ok n)
  | tooLarge {n : Nat} (h : Leads radix (digitsOf body) n) (hn : bound ≤ n) :
    Reads radix body (.error .tooLarge)
  | invalidDigit (h : body ≠ []) : Reads radix body (.error .invalidDigit)

theorem unsigned_reads (hr : radix ≤ 16) (body : List Char) :
    Reads radix body (unsigned radix body) := by
  rw [unsigned_eq]
  split
  next hnil => exact .empty hnil
  next hbody =>
    split
    next => exact .invalidDigit hbody
    next hne =>
      obtain ⟨n, run, rest, hdigits, hrun, hrest⟩ := exists_leads radix (digitsOf body)
      rw [hdigits, digits_of_leads hr hrun hrest (by decide)]
      split
      next hn =>
        split
        next hnil =>
          rw [hnil, List.append_nil] at hdigits
          exact .number ((magnitude_iff hr).mpr ⟨hne, hdigits ▸ hrun⟩) hn
        next => exact .invalidDigit hbody
      next hn => exact .tooLarge ⟨run, rest, hdigits, hrun, hrest⟩ (Nat.le_of_not_lt hn)

/-! ### Texts -/

theorem divide_of_unmarked (h : ∀ rest, cs ≠ '0' :: 'x' :: rest)
    (h' : ∀ rest, cs ≠ '0' :: 'X' :: rest) : divide cs = (10, cs) := by
  have hmark : ¬ (['0', 'x'] <+: cs ∨ ['0', 'X'] <+: cs) := by
    rintro (⟨rest, hrest⟩ | ⟨rest, hrest⟩)
    · exact h rest hrest.symm
    · exact h' rest hrest.symm
  rw [divide, if_neg hmark]

theorem parse_eq (text : String) :
    parse text = unsigned (divide text.toList).1 (divide text.toList).2 := by
  unfold parse
  split
  next rest htext => simp [divide, htext]
  next rest htext => simp [divide, htext]
  next hx hX => rw [divide_of_unmarked hx hX]

theorem radix_le (cs : List Char) : (divide cs).1 ≤ 16 := by
  unfold divide
  split
  · exact le_rfl
  · exact Nat.le_of_ble_eq_true rfl

/-- A decimal text has no mark. -/
theorem Magnitude.not_marked {x : Char} {rest : List Char} (h : Magnitude 10 body n)
    (hx : x = 'x' ∨ x = 'X') : body ≠ '0' :: x :: rest := by
  obtain ⟨sign, cs, rfl | rfl, hne, rfl, hcs⟩ := h
  · rintro rfl
    have hmark := ((spells_iff (by decide)).mpr ⟨hne, hcs⟩).not_mark
    rcases hx with rfl | rfl <;> simp at hmark
  · simp

theorem admits_iff : Admits cs n ↔ Magnitude (divide cs).1 (divide cs).2 n := by
  constructor
  · rintro (h | ⟨rfl | rfl, h⟩)
    · rw [divide_of_unmarked (fun _ => h.not_marked (.inl rfl)) fun _ => h.not_marked (.inr rfl)]
      exact h
    · simpa [divide] using h
    · simpa [divide] using h
  · intro h
    unfold divide at h
    split at h
    next hmark =>
      rcases hmark with ⟨rest, rfl⟩ | ⟨rest, rfl⟩
      · exact .hex (.inl rfl) h
      · exact .hex (.inr rfl) h
    next => exact .decimal h

/-- Numbers are read from exactly the texts that the grammar admits for them. Of the others those
without a body are refused as empty, those whose leading digits come to the bound as too large,
and the rest for a digit that is none. -/
theorem parse_exactly (text : String) :
    let radix := (divide text.toList).1
    let body := (divide text.toList).2
    (∀ v, parse text = .ok v ↔ Admits text.toList v ∧ v < bound) ∧
    (parse text = .error .empty ↔ body = []) ∧
    (parse text = .error .tooLarge ↔ ∃ n, Leads radix (digitsOf body) n ∧ bound ≤ n) ∧
    (parse text = .error .invalidDigit ↔ (¬ ∃ v, Admits text.toList v ∧ v < bound) ∧
      body ≠ [] ∧ ¬ ∃ n, Leads radix (digitsOf body) n ∧ bound ≤ n) ∧
    ∀ v : UInt64, parse (toString v.toNat) = .ok v.toNat ∧
      parse ("0x" ++ String.ofList (Nat.toDigits 16 v.toNat)) = .ok v.toNat := by
  intro radix body
  have hr : radix ≤ 16 := radix_le _
  have hparse : parse text = unsigned radix body := parse_eq text
  have hreads : Reads radix body (parse text) := hparse ▸ unsigned_reads hr body
  have hnumber : ∀ v, parse text = .ok v ↔ Admits text.toList v ∧ v < bound := by
    intro v
    rw [admits_iff]
    refine ⟨fun h => ?_, fun h => hparse.trans (h.1.unsigned hr h.2)⟩
    rw [h] at hreads
    cases hreads with
    | number h hn => exact ⟨h, hn⟩
  have hempty : parse text = .error .empty ↔ body = [] := by
    refine ⟨fun h => ?_, fun h => ?_⟩
    · rw [h] at hreads
      cases hreads with
      | empty h => exact h
    · rw [hparse, h]
      rfl
  have htooLarge : parse text = .error .tooLarge ↔
      ∃ n, Leads radix (digitsOf body) n ∧ bound ≤ n := by
    refine ⟨fun h => ?_, fun ⟨n, h, hn⟩ => hparse.trans (h.unsigned hr hn)⟩
    rw [h] at hreads
    cases hreads with
    | tooLarge h hn => exact ⟨_, h, hn⟩
  refine ⟨hnumber, hempty, htooLarge, ?_, fun v => ?_⟩
  · rw [← htooLarge, ne_eq, ← hempty]
    simp only [← hnumber]
    generalize parse text = result at hreads ⊢
    cases hreads <;> simp
  · exact ⟨(writes_toString _).parse v.toNat_lt, (writes_hex _).parse v.toNat_lt⟩

/-- The value is past the bound before the character that is no digit is met. -/
example : parse "0x10000000000000000-" = .error .tooLarge := by decide

end Intel8080.Numeral
