import Intel8080.Proofs.CommandLine.Documented
import Mathlib.Data.List.TakeWhile

/-! The reader keeps what is documented of lines. However an argument is written, its words settle
what was pending before them and fill its place; so a line fills the places of its arguments one
after the other. -/

namespace Intel8080.CommandLine

namespace Reader

/-! ### Values -/

section Values

variable {α : Type} {a : Action α} {v : α}

theorem exists_read_of_value {text : String} (h : a.value? (some text) = some v) :
    ∃ read, a = .set read ∧ read text = .ok v := by
  cases a with
  | store w => cases h
  | set read =>
    refine ⟨read, rfl, ?_⟩
    cases hr : read text with
    | error e => simp [Action.value?, hr, Except.toOption] at h
    | ok w => simpa [Action.value?, hr, Except.toOption] using h

theorem eq_store_of_value (h : a.value? none = some v) : a = .store v := by
  cases a with
  | set read => cases h
  | store w => exact congrArg _ (Option.some.inj h)

end Values

variable {ι : Type} [DecidableEq ι] {Field : ι → Type}

/-! ### Filling places -/

section Places

variable {t : Table Field} {i j : ι} {v : Field i}

theorem Table.place_self (t : Table Field) (i : ι) (v : Field i) : t.place i v i = some v := by
  simp [place]

theorem Table.place_of_ne (h : i ≠ j) : t.place i v j = t j := dif_neg h

theorem put_of_none (h : t i = none) : put i (.ok v) t = .ok (t.place i v) := by
  rw [put, h]
  rfl

theorem put_of_isSome (h : (t i).isSome) (value : Except Error (Field i)) :
    put i value t = .error .conflict := by
  obtain ⟨v, hv⟩ := Option.isSome_iff_exists.mp h
  rw [put, hv]
  rfl

end Places

variable {d : Declaration ι Field}

/-- Fills the place of an argument with the value that it stands for. -/
def give (d : Declaration ι Field) (t : Table Field) (g : Given ι) : Except Error (Table Field) :=
  match g.value? d with
  | some v => put g.argument (.ok v) t
  | none => .error .noValue

theorem give_eq {g : Given ι} {v : Field g.argument} (h : g.value? d = some v) (t : Table Field) :
    give d t g = put g.argument (.ok v) t := by
  rw [give, h]

section Giving

variable {gs : List (Given ι)}

omit [DecidableEq ι] in
theorem mem_names_cons {g : Given ι} {i : ι} :
    i ∈ names (g :: gs) ↔ i = g.argument ∨ i ∈ names gs := List.mem_cons

/-- Arguments that are all different find their places empty. -/
theorem foldlM_give (hv : ∀ g ∈ gs, (g.value? d).isSome) (hn : (names gs).Nodup) (t : Table Field)
    (ht : ∀ i ∈ names gs, t i = none) :
    ∃ u, gs.foldlM (give d) t = .ok u ∧ (∀ g ∈ gs, u g.argument = g.value? d) ∧
      ∀ i ∉ names gs, u i = t i := by
  induction gs generalizing t with
  | nil => exact ⟨t, rfl, by simp, fun _ _ => rfl⟩
  | cons g gs ih =>
    obtain ⟨hg, hn⟩ := List.nodup_cons.mp hn
    obtain ⟨v, hgv⟩ := Option.isSome_iff_exists.mp (hv g List.mem_cons_self)
    have hput : give d t g = .ok (t.place g.argument v) := by
      rw [give_eq hgv, put_of_none (ht _ (mem_names_cons.mpr (.inl rfl)))]
    have hrest : ∀ i ∈ names gs, t.place g.argument v i = none := by
      intro i hi
      rw [Table.place_of_ne (ne_of_mem_of_not_mem hi hg).symm]
      exact ht i (mem_names_cons.mpr (.inr hi))
    obtain ⟨u, hu, hgiven, hkept⟩ := ih (fun x hx => hv x (List.mem_cons_of_mem g hx)) hn _ hrest
    refine ⟨u, ?_, fun x hx => ?_, fun i hi => ?_⟩
    · rw [List.foldlM_cons, hput]
      exact hu
    · obtain rfl | hx := List.mem_cons.mp hx
      · rw [hkept _ hg, Table.place_self, hgv]
      · exact hgiven x hx
    · rw [mem_names_cons, not_or] at hi
      rw [hkept i hi.2, Table.place_of_ne (Ne.symm hi.1)]

/-- An argument that is given twice, or whose place is taken, is a conflict. -/
theorem foldlM_give_conflict (hv : ∀ g ∈ gs, (g.value? d).isSome) (t : Table Field)
    (h : ¬ (names gs).Nodup ∨ ∃ i ∈ names gs, (t i).isSome) :
    gs.foldlM (give d) t = .error .conflict := by
  induction gs generalizing t with
  | nil => simp [names] at h
  | cons g gs ih =>
    obtain ⟨v, hgv⟩ := Option.isSome_iff_exists.mp (hv g List.mem_cons_self)
    rw [List.foldlM_cons, give_eq hgv]
    by_cases ht : (t g.argument).isSome
    · rw [put_of_isSome ht]
      rfl
    · rw [put_of_none (by simpa using ht)]
      refine ih (fun x hx => hv x (List.mem_cons_of_mem g hx)) _ ?_
      -- What stood in the way before still does, or else it is the place just filled.
      obtain h | ⟨i, hi, hti⟩ := h
      · by_cases hg : g.argument ∈ names gs
        · exact .inr ⟨g.argument, hg, by simp [Table.place_self]⟩
        · exact .inl fun hn => h (List.nodup_cons.mpr ⟨hg, hn⟩)
      · have hne : i ≠ g.argument := by
          rintro rfl
          exact ht hti
        refine .inr ⟨i, (mem_names_cons.mp hi).resolve_left hne, ?_⟩
        rwa [Table.place_of_ne hne.symm]

end Giving

/-! ### Reading a word -/

/-- The name ends where the value begins. -/
theorem splitValue_attached {name : String} (hn : '=' ∉ name.toList) (text : String) :
    splitValue (name.toList ++ '=' :: text.toList) = (name, some text) := by
  have htake : (name.toList ++ '=' :: text.toList).takeWhile (· ≠ '=') = name.toList := by
    rw [List.takeWhile_append_of_pos fun c hc => by simpa using ne_of_mem_of_not_mem hc hn]
    simp
  simp only [splitValue, htake, List.drop_left, String.ofList_toList]

theorem splitValue_name {name : String} (hn : '=' ∉ name.toList) :
    splitValue name.toList = (name, none) := by
  have htake : name.toList.takeWhile (· ≠ '=') = name.toList :=
    List.takeWhile_eq_self_iff.mpr fun c hc => by simpa using ne_of_mem_of_not_mem hc hn
  simp only [splitValue, htake, List.drop_length, String.ofList_toList]

omit [DecidableEq ι] in
/-- The only argument that goes by a name, or by none, is found by it. -/
theorem find_long {i : ι} {p : ι → Bool}
    (hp : ∀ j, p j = true ↔ (d.declared j).long = (d.declared i).long) :
    d.arguments.find? p = some i := by
  cases h : d.arguments.find? p with
  | none => exact absurd ((hp i).mpr rfl) (List.find?_eq_none.mp h i (d.mem_arguments i))
  | some j => exact congrArg some (d.distinct j i ((hp j).mp (List.find?_some h)))

variable {s : State Field} {i : ι} {name text : String}

/-- A word without a dash is a value, where one is awaited, or else an argument without a name. -/
theorem word_plain (ht : s.trailing = false) (hd : text.toList.head? ≠ some '-') :
    word d s text =
      match s.pending with
      | .awaiting i => .ok { s with pending := .valued i text }
      | _ => value d s text := by
  rw [word, ht, if_neg Bool.false_ne_true]
  split
  next h => simp [h] at hd
  next h => simp [h] at hd
  next h => simp [h] at hd
  next => rfl

/-- Behind two dashes there is an option. -/
theorem word_dashed (ht : s.trailing = false) (hn : name ≠ "") :
    word d s ("--" ++ name) =
      long d s (splitValue name.toList).1 (splitValue name.toList).2 := by
  have hlist : ("--" ++ name).toList = '-' :: '-' :: name.toList := by
    rw [String.toList_append]
    rfl
  rw [word, ht, if_neg Bool.false_ne_true, hlist]
  cases hcs : name.toList with
  | nil => exact absurd (String.toList_eq_nil_iff.mp hcs) hn
  | cons c cs => rfl

theorem word_name (ht : s.trailing = false) (hi : (d.declared i).long = some name) :
    word d s ("--" ++ name) = long d s name none := by
  have hname := d.plain i name hi
  rw [word_dashed ht hname.nonempty, splitValue_name hname.noEquals]

theorem word_attached (ht : s.trailing = false) (hi : (d.declared i).long = some name) :
    word d s ("--" ++ (name ++ ("=" ++ text))) = long d s name (some text) := by
  have hlist : (name ++ ("=" ++ text)).toList = name.toList ++ '=' :: text.toList := by
    rw [String.toList_append, String.toList_append]
    rfl
  have hempty : name ++ ("=" ++ text) ≠ "" := by
    rw [Ne, ← String.toList_eq_nil_iff, hlist]
    simp
  rw [word_dashed ht hempty, hlist, splitValue_attached (d.plain i name hi).noEquals]

/-- A name stands for the argument that goes by it. -/
theorem long_eq (hi : (d.declared i).long = some name) (attached : Option String) :
    long d s name attached = named d s i attached := by
  have hfind : (d.arguments.find? fun j => (d.declared j).long = some name) = some i :=
    find_long fun j => by rw [hi, decide_eq_true_iff]
  unfold long
  rw [if_neg (d.plain i name hi).notHelp, hfind]

/-- An argument without a name waits for what comes next. -/
theorem value_eq (hi : (d.declared i).long = none) (hp : s.placed = false) :
    value d s text = (settled d s).map fun t =>
      { s with given := t, pending := .valued i text, placed := true } := by
  have hfind : (d.arguments.find? fun j => (d.declared j).long = none) = some i :=
    find_long fun j => by rw [hi, decide_eq_true_iff]
  rw [value, hfind]
  simp only [hp]
  cases settled d s <;> rfl

/-! ### Reading arguments -/

/-- No argument has been left without its value, and words can still be options. -/
structure Between (s : State Field) : Prop where
  trailing : s.trailing = false
  pending : ∀ i, s.pending ≠ .awaiting i

/-- The words settle what was pending and give the argument. -/
def Gives (d : Declaration ι Field) (s : State Field) (ws : List String) (g : Given ι) : Prop :=
  ∃ next : Table Field → Except Error (State Field),
    ws.foldlM (word d) s = settled d s >>= next ∧
    ∀ t, (next t >>= settled d) = give d t g ∧
      ∀ u, next t = .ok u → Between u ∧ u.placed = (s.placed || decide (g.Nameless d))

theorem gives_of_give {w : String} {g : Given ι} (hs : Between s) (hg : ¬ g.Nameless d)
    (hw : word d s w = settled d s >>= fun t =>
      (give d t g).map fun u => { s with given := u, pending := .nothing }) :
    Gives d s [w] g := by
  refine ⟨fun t => (give d t g).map fun u => { s with given := u, pending := .nothing }, ?_,
    fun t => ⟨?_, fun u hu => ?_⟩⟩
  · rw [List.foldlM_cons, hw]
    exact bind_pure _
  · dsimp only
    cases give d t g <;> rfl
  · dsimp only at hu
    cases ht : give d t g with
    | error e =>
      rw [ht] at hu
      cases hu
    | ok u' =>
      rw [ht] at hu
      cases hu
      exact ⟨⟨hs.trailing, fun i h => by cases h⟩, by simp [hg]⟩

/-- A text that denotes a value is given once it is settled. -/
theorem settled_valued {v : Field i} (hv : Given.value? d ⟨i, some text⟩ = some v)
    {t : State Field} (ht : t.pending = .valued i text) :
    settled d t = give d t.given ⟨i, some text⟩ := by
  obtain ⟨read, haction, hread⟩ := exists_read_of_value (a := (d.declared i).action) hv
  rw [settled, ht, give_eq hv]
  simp only [haction, Action.read, hread]

/-- However an argument is written, its words settle what was pending and give it. -/
theorem gives_of_words {g : Given ι} {ws : List String} (h : g.Words d ws)
    (hv : (g.value? d).isSome) (hs : Between s) (hp : s.placed = true → ¬ g.Nameless d) :
    Gives d s ws g := by
  obtain ⟨v, hv⟩ := Option.isSome_iff_exists.mp hv
  cases h with
  | @nameless i text hi _ hd =>
    have hplaced : s.placed = false := by
      by_contra h
      exact hp (by simpa using h) hi
    have hword : word d s text = value d s text := by
      rw [word_plain hs.trailing hd]
      split
      next i h => exact absurd h (hs.pending i)
      next => rfl
    refine ⟨fun t => .ok { s with given := t, pending := .valued i text, placed := true }, ?_,
      fun t => ⟨?_, ?_⟩⟩
    · rw [List.foldlM_cons, hword, value_eq hi hplaced]
      cases settled d s <;> rfl
    · exact settled_valued
        (t := { s with given := t, pending := .valued i text, placed := true }) hv rfl
    · rintro u ⟨⟩
      exact ⟨⟨hs.trailing, fun i h => by cases h⟩, by simp [Given.Nameless, hi]⟩
  | @separate i name text hi hd =>
    obtain ⟨read, haction, -⟩ := exists_read_of_value (a := (d.declared i).action) hv
    refine ⟨fun t => .ok { s with given := t, pending := .valued i text }, ?_,
      fun t => ⟨?_, ?_⟩⟩
    · rw [List.foldlM_cons, word_name hs.trailing hi, long_eq hi]
      unfold named
      rw [haction]
      cases settled d s with
      | error e => rfl
      | ok t =>
        have hword := word_plain (d := d) (s := { s with given := t, pending := .awaiting i })
          hs.trailing hd
        simp only [bind, Except.bind, pure, Except.pure, List.foldlM_cons, hword]
        rfl
    · exact settled_valued (t := { s with given := t, pending := .valued i text }) hv rfl
    · rintro u ⟨⟩
      exact ⟨⟨hs.trailing, fun i h => by cases h⟩, by simp [Given.Nameless, hi]⟩
  | @attached i name text hi =>
    obtain ⟨read, haction, hread⟩ := exists_read_of_value (a := (d.declared i).action) hv
    refine gives_of_give hs (by simp [Given.Nameless, hi]) ?_
    rw [word_attached hs.trailing hi, long_eq hi]
    unfold named
    simp only [haction, hread, give_eq hv]
    exact bind_congr fun t => by cases put i (.ok v) t <;> rfl
  | @flag i name hi =>
    refine gives_of_give hs (by simp [Given.Nameless, hi]) ?_
    rw [word_name hs.trailing hi, long_eq hi]
    unfold named
    simp only [eq_store_of_value (a := (d.declared i).action) hv, give_eq hv]
    exact bind_congr fun t => by cases put i (.ok v) t <;> rfl

/-! ### Reading lines -/

/-- The words of a line fill the places of its arguments one after the other. -/
theorem foldlM_word {gs : List (Given ι)} {line : List String} (h : Spelled d gs line)
    (hv : ∀ g ∈ gs, (g.value? d).isSome) {s : State Field} (hs : Between s)
    (hone : s.placed.toNat + gs.countP (Given.Nameless d) ≤ 1) :
    (line.foldlM (word d) s >>= settled d) = settled d s >>= fun t => gs.foldlM (give d) t := by
  induction h generalizing s with
  | nil => exact (bind_pure (settled d s)).symm
  | @cons g gs ws line hw _ ih =>
    rw [List.countP_cons] at hone
    have hp : s.placed = true → ¬ g.Nameless d := by
      intro hp hg
      simp [hp, hg] at hone
    -- What the words of `g` lead to depends on `s` through the places alone.
    obtain ⟨next, hread, hnext⟩ := gives_of_words hw (hv g List.mem_cons_self) hs hp
    rw [List.foldlM_append, hread]
    cases settled d s with
    | error e => rfl
    | ok t =>
      obtain ⟨hgive, hbetween⟩ := hnext t
      change (next t >>= fun u => line.foldlM (word d) u) >>= settled d =
        give d t g >>= fun u => gs.foldlM (give d) u
      rw [← hgive]
      cases hu : next t with
      | error e => rfl
      | ok u =>
        obtain ⟨hs', hplaced⟩ := hbetween u hu
        have hone' : u.placed.toNat + gs.countP (Given.Nameless d) ≤ 1 := by
          rw [hplaced]
          cases hx : s.placed <;> by_cases hg : g.Nameless d <;> simp [hx, hg] at hone ⊢ <;> omega
        exact ih (fun x hx => hv x (List.mem_cons_of_mem g hx)) hs' hone'

theorem read_eq {gs : List (Given ι)} {line : List String} (h : Line d gs line) :
    read d line = gs.foldlM (give d) (fun _ => none) >>= fields d := by
  have hfold := foldlM_word h.spelled h.valued (s := {}) ⟨rfl, fun i h => by cases h⟩
    (by simpa using h.single)
  change (line.foldlM (word d) {} >>= fun s => settled d s >>= fields d) = _
  rw [← bind_assoc, hfold]
  rfl

/-- Every argument that is given has its place filled, and no other has. -/
structure Gathered (d : Declaration ι Field) (gs : List (Given ι)) (t : Table Field) : Prop where
  given : ∀ g ∈ gs, t g.argument = g.value? d
  rest : ∀ i ∉ names gs, t i = none

namespace Gathered

variable {gs : List (Given ι)} {t : Table Field} (h : Gathered d gs t)
  (hv : ∀ g ∈ gs, (g.value? d).isSome)

include h hv

theorem isSome_iff : (t i).isSome ↔ i ∈ names gs := by
  constructor
  · intro ht
    by_contra hi
    simp [h.rest i hi] at ht
  · intro hi
    obtain ⟨g, hg, rfl⟩ := List.mem_map.mp hi
    rw [h.given g hg]
    exact hv g hg

theorem complete_iff : Complete d t ↔ ¬ Lacks d gs := by
  have hsome (i : ι) : ((t i).or (d.declared i).absent).isSome ↔
      ((d.declared i).absent = none → i ∈ names gs) := by
    rw [← h.isSome_iff hv]
    cases t i <;> cases (d.declared i).absent <;> simp
  constructor
  · rintro hc (⟨i, ha, hi⟩ | ⟨i, hi, j, hj, hn⟩)
    · exact hi ((hsome i).mp (hc i (d.mem_arguments i)).1 ha)
    · exact hn ((h.isSome_iff hv).mp
        ((hc i (d.mem_arguments i)).2 ((h.isSome_iff hv).mpr hi) j hj))
  · intro hl i _
    refine ⟨(hsome i).mpr fun ha => ?_, fun hi j hj => (h.isSome_iff hv).mpr ?_⟩
    · by_contra hi
      exact hl (.inl ⟨i, ha, hi⟩)
    · by_contra hn
      exact hl (.inr ⟨i, (h.isSome_iff hv).mp hi, j, hj, hn⟩)

omit [DecidableEq ι] in
theorem filled (hc : Complete d t) : Filled d gs fun i =>
    ((t i).or (d.declared i).absent).get (hc i (d.mem_arguments i)).1 where
  given g hg := by
    obtain ⟨v, hgv⟩ := Option.isSome_iff_exists.mp (hv g hg)
    simp [h.given g hg, hgv]
  absent i hi := by simp [h.rest i hi]

end Gathered

theorem exists_gathered {gs : List (Given ι)} {line : List String} (hl : Line d gs line)
    (hn : (names gs).Nodup) :
    ∃ t, gs.foldlM (give d) (fun _ => none) = .ok t ∧ Gathered d gs t := by
  obtain ⟨t, ht, hgiven, hrest⟩ := foldlM_give hl.valued hn (fun _ => none) fun _ _ => rfl
  exact ⟨t, ht, hgiven, hrest⟩

theorem documented_read (d : Declaration ι Field) : Documented d (read d) where
  conflict hl hn := by
    rw [read_eq hl, foldlM_give_conflict hl.valued _ (.inl hn)]
    rfl
  missing hl hn hlacks := by
    obtain ⟨t, ht, hg⟩ := exists_gathered hl hn
    rw [read_eq hl, ht]
    exact dif_neg fun hc => (hg.complete_iff hl.valued).mp hc hlacks
  accepted hl hn hlacks := by
    obtain ⟨t, ht, hg⟩ := exists_gathered hl hn
    have hc : Complete d t := (hg.complete_iff hl.valued).mpr hlacks
    refine ⟨_, ?_, hg.filled hl.valued hc⟩
    rw [read_eq hl, ht]
    exact dif_pos hc

theorem byteWithin_of_spells {lo hi n : Nat} {text : String} (h : Numeral.Spells 10 text.toList n)
    (hlo : lo ≤ n) (hhi : n ≤ hi) (hb : hi ≤ 255) :
    byteWithin lo hi text = .ok (UInt8.ofNat n) := by
  have hn : ((Numeral.parseSigned text).mapError fun e => Error.badValue e.message) =
      .ok (n : Int) := by
    rw [h.parseSigned (Nat.lt_of_le_of_lt (hhi.trans hb) (by decide))]
    rfl
  have hrange : (lo : Int) ≤ n ∧ (n : Int) ≤ hi := by omega
  simp only [byteWithin, hn, bind, Except.bind, if_pos hrange]
  rfl

end Reader

theorem reader_documented : reader.Documented where
  path h := if_neg h
  byteWithin h hlo hhi hb := Reader.byteWithin_of_spells h hlo hhi hb
  read d := Reader.documented_read d

end Intel8080.CommandLine
