import Intel8080.Proofs.CommandLine.Arguments
import Intel8080.Proofs.CommandLine.Reader
import Mathlib.Data.List.Nodup

/-! Settings written out as a command line and read back by any library that keeps its
documentation. All that such a library goes by is which arguments are given, so they can come in
any order. -/

namespace Intel8080.CommandLine

/-- The program, and the options that need each other. -/
def Argument.isRequired : Argument → Bool
  | program _ | rst _ | every _ => true
  | _ => false

/-- A command line can give the argument. -/
def Argument.Valid : Argument → Prop
  | program name => name ≠ "" ∧ name.toList.head? ≠ some '-'
  | memory n | every n | limit n => n < Numeral.bound
  | offset _ | rst _ | autoReenable | delayedEi => True

instance : DecidablePred Argument.Valid
  | .program _ => inferInstanceAs (Decidable (_ ∧ _))
  | .memory _ | .every _ | .limit _ => inferInstanceAs (Decidable (_ < _))
  | .offset _ | .rst _ | .autoReenable | .delayedEi => inferInstanceAs (Decidable True)

/-! ### Settings -/

/-- What a line can give, each at most once. -/
structure Settings where
  program : Option String := none
  offset : Option Word := none
  memory : Option Nat := none
  rst : Option (Fin 8) := none
  every : Option Nat := none
  limit : Option Nat := none
  autoReenable : Bool := false
  delayedEi : Bool := false

variable {s : Settings} {a b : Argument} {as bs : List Argument} {line : List String}

namespace Settings

/-- The arguments that give the settings. -/
def arguments (s : Settings) : List Argument :=
  s.program.toList.map .program ++ (s.offset.toList.map .offset ++ (s.memory.toList.map .memory ++
    (s.rst.toList.map .rst ++ (s.every.toList.map .every ++ (s.limit.toList.map .limit ++
      ((if s.autoReenable then [.autoReenable] else []) ++
        if s.delayedEi then [.delayedEi] else []))))))

/-- What the settings say of an argument, if anything. -/
def field (s : Settings) : (i : Name) → Option i.Field
  | .program => s.program
  | .offset => s.offset
  | .memory => s.memory
  | .rst => s.rst.map fun v : Fin 8 => some (v : Byte)
  | .every => s.every.map some
  | .limit => s.limit.map some
  | .autoReenable => if s.autoReenable then some true else none
  | .delayedEi => if s.delayedEi then some true else none

theorem field_of_mem (h : a ∈ s.arguments) : s.field a.name = some a.value := by
  cases a <;> simp_all [arguments, field, Argument.name, Argument.value]

theorem mem_names {i : Name} : i ∈ s.arguments.map Argument.name ↔ (s.field i).isSome := by
  cases i <;> simp [arguments, field, Argument.name, Option.isSome_iff_exists]

theorem sublist_of_toList {α : Type} (f : α → Argument) {key : Name} (h : ∀ v, (f v).name = key)
    (place : Option α) : ((place.toList.map f).map Argument.name).Sublist [key] := by
  cases place with
  | none => exact List.nil_sublist _
  | some v => exact h v ▸ List.Sublist.refl _

theorem sublist_of_flag (a : Argument) (on : Bool) :
    ((if on then [a] else []).map Argument.name).Sublist [a.name] := by
  cases on
  · exact List.nil_sublist _
  · exact List.Sublist.refl _

/-- The arguments are for different things. -/
theorem nodup_names (s : Settings) : (s.arguments.map Argument.name).Nodup := by
  have hsublist : (s.arguments.map Argument.name).Sublist
      [.program, .offset, .memory, .rst, .every, .limit, .autoReenable, .delayedEi] := by
    simp only [arguments, List.map_append]
    exact (sublist_of_toList .program (fun _ => rfl) s.program).append <|
      (sublist_of_toList .offset (fun _ => rfl) s.offset).append <|
      (sublist_of_toList .memory (fun _ => rfl) s.memory).append <|
      (sublist_of_toList .rst (fun _ => rfl) s.rst).append <|
      (sublist_of_toList .every (fun _ => rfl) s.every).append <|
      (sublist_of_toList .limit (fun _ => rfl) s.limit).append <|
      (sublist_of_flag .autoReenable s.autoReenable).append
        (sublist_of_flag .delayedEi s.delayedEi)
  exact hsublist.nodup (by decide)

/-- What a line that gives the program and all it needs says. -/
structure Complete (s : Settings) (name : String) : Prop where
  program : s.program = some name
  together : s.rst.isSome = s.every.isSome
  valid : ∀ a ∈ s.arguments, a.Valid

/-- The options in the settings, with the defaults for the rest. -/
def options (s : Settings) : RunOptions where
  offset := s.offset.getD 0
  memorySize := s.memory.getD Memory.defaultSize
  timer := s.rst.bind fun vector => s.every.map fun period => { vector, period }
  limit := s.limit
  autoReenable := s.autoReenable
  delayedEi := s.delayedEi

end Settings

theorem mem_names_of_perm (has : as.Perm s.arguments) {i : Name} :
    i ∈ as.map Argument.name ↔ (s.field i).isSome :=
  (has.map Argument.name).mem_iff.trans Settings.mem_names

theorem nodup_of_perm (has : as.Perm s.arguments) : (as.map Argument.name).Nodup :=
  (has.map Argument.name).nodup_iff.mpr s.nodup_names

section Complete

variable {name : String} (hs : s.Complete name) (has : as.Perm s.arguments)

include hs has

theorem Settings.Complete.program_mem : .program name ∈ as :=
  has.mem_iff.mpr (by simp [Settings.arguments, hs.program])

theorem Settings.Complete.rst_iff_every :
    .rst ∈ as.map Argument.name ↔ .every ∈ as.map Argument.name := by
  simp [mem_names_of_perm has, Settings.field, hs.together]

end Complete

/-! ### What a library makes of them -/

section Defaults

variable {α : Type}

theorem eq_getD_of_or {x v : α} {o : Option α} (h : some x = o.or (some v)) : x = o.getD v := by
  cases o <;> exact Option.some.inj h

theorem getD_map_some (o : Option α) : (o.map some).getD none = o := by cases o <;> rfl

theorem getD_flag (on : Bool) : (if on then some true else none).getD false = on := by
  cases on <;> rfl

end Defaults

section Lines

variable {lib : Library}

section Filled

variable {gs : List (Given Name)} {fields : Args} (has : as.Perm s.arguments)
  (hgs : List.Forall₂ (Argument.Taken lib) as gs) (hf : Filled (declaration lib) gs fields)

include has hgs hf

/-- A field is what the settings say of it, or else its default. -/
theorem field_of_filled (i : Name) :
    some (fields i) = (s.field i).or (declared lib i).absent := by
  cases h : s.field i with
  | none =>
    refine (hf.absent i fun hi => ?_).symm
    rw [names_of_taken hgs, mem_names_of_perm has, h] at hi
    cases hi
  | some v =>
    have hi : i ∈ as.map Argument.name := by
      rw [mem_names_of_perm has, h]
      rfl
    obtain ⟨a, ha, rfl⟩ := List.mem_map.mp hi
    rw [field_of_taken hgs hf ha, ← Settings.field_of_mem (has.mem_iff.mp ha), h]
    rfl

theorem options_of_filled : Args.options fields = s.options := by
  have hfield := field_of_filled has hgs hf
  have hoffset : fields .offset = s.offset.getD 0 := eq_getD_of_or (hfield .offset)
  have hmemory : fields .memory = s.memory.getD Memory.defaultSize :=
    eq_getD_of_or (hfield .memory)
  have hrst : fields .rst = (s.rst.map fun v : Fin 8 => some (v : Byte)).getD none :=
    eq_getD_of_or (hfield .rst)
  have hevery : fields .every = s.every :=
    (eq_getD_of_or (hfield .every)).trans (getD_map_some s.every)
  have hlimit : fields .limit = s.limit :=
    (eq_getD_of_or (hfield .limit)).trans (getD_map_some s.limit)
  have hauto : fields .autoReenable = s.autoReenable :=
    (eq_getD_of_or (hfield .autoReenable)).trans (getD_flag s.autoReenable)
  have hdelayed : fields .delayedEi = s.delayedEi :=
    (eq_getD_of_or (hfield .delayedEi)).trans (getD_flag s.delayedEi)
  simp only [Args.options, Settings.options, hoffset, hmemory, hrst, hevery, hlimit, hauto,
    hdelayed]
  cases s.rst <;> cases s.every <;> simp

end Filled

/-- What is required is the program, and each option of the timer beside the other. -/
theorem lacks_iff {gs : List (Given Name)} : Lacks (declaration lib) gs ↔
    .program ∉ names gs ∨ (.rst ∈ names gs ∧ .every ∉ names gs) ∨
      (.every ∈ names gs ∧ .rst ∉ names gs) := by
  constructor
  · rintro (⟨i, hi, h⟩ | ⟨i, hi, j, hj, h⟩)
    · cases i <;> first | exact .inl h | cases hi
    · cases i <;> simp only [declaration, declared, List.mem_singleton, List.not_mem_nil] at hj
      · exact .inr (.inl ⟨hi, hj ▸ h⟩)
      · exact .inr (.inr ⟨hi, hj ▸ h⟩)
  · rintro (h | ⟨hi, h⟩ | ⟨hi, h⟩)
    · exact .inl ⟨.program, rfl, h⟩
    · exact .inr ⟨.rst, hi, .every, List.mem_singleton_self _, h⟩
    · exact .inr ⟨.every, hi, .rst, List.mem_singleton_self _, h⟩

variable (hlib : lib.Documented) (hline : Writes as line)

include hlib hline

theorem parse_of_conflict (hone : (as.map Argument.name).count .program ≤ 1)
    (hn : ¬ (as.map Argument.name).Nodup) : lib.parse line = .error .conflict := by
  obtain ⟨gs, hl, hgs⟩ := hline.declared hlib hone
  rw [← names_of_taken hgs] at hn
  rw [Library.parse, (hlib.read _).conflict hl hn]
  rfl

theorem parse_of_missing (hn : (as.map Argument.name).Nodup)
    (h : .program ∉ as.map Argument.name ∨
      (.rst ∈ as.map Argument.name ∧ .every ∉ as.map Argument.name) ∨
      (.every ∈ as.map Argument.name ∧ .rst ∉ as.map Argument.name)) :
    lib.parse line = .error .missingArgument := by
  obtain ⟨gs, hl, hgs⟩ := hline.declared hlib (List.nodup_iff_count_le_one.mp hn _)
  rw [← names_of_taken hgs] at hn h
  rw [Library.parse, (hlib.read _).missing hl hn (lacks_iff.mpr h)]
  rfl

theorem parse_of_complete {name : String} (hs : s.Complete name) (has : as.Perm s.arguments) :
    lib.parse line = .ok { program := name, options := s.options } := by
  have hn : (as.map Argument.name).Nodup := nodup_of_perm has
  obtain ⟨gs, hl, hgs⟩ := hline.declared hlib (List.nodup_iff_count_le_one.mp hn _)
  have hlacks : ¬ Lacks (declaration lib) gs := by
    rw [lacks_iff, names_of_taken hgs]
    rintro (h | ⟨hi, h⟩ | ⟨hi, h⟩)
    · exact h (List.mem_map_of_mem (hs.program_mem has))
    · exact h ((hs.rst_iff_every has).mp hi)
    · exact h ((hs.rst_iff_every has).mpr hi)
  obtain ⟨fields, hread, hf⟩ := (hlib.read _).accepted hl (names_of_taken hgs ▸ hn) hlacks
  have hprogram : fields .program = name :=
    field_of_taken (a := .program name) hgs hf (hs.program_mem has)
  rw [Library.parse, hread, ← hprogram, ← options_of_filled has hgs hf]
  rfl

end Lines

/-- The usual text of a number, in hexadecimal or in decimal. -/
def numeralText (hex : Bool) (n : Nat) : String :=
  if hex then "0x" ++ String.ofList (Nat.toDigits 16 n) else toString n

theorem writes_numeralText (hex : Bool) (n : Nat) : Numeral.Writes (numeralText hex n) n := by
  cases hex
  · exact Numeral.writes_toString n
  · exact Numeral.writes_hex n

/-- The words for a value, which may be attached to the name of its option. -/
def optionWords (option : String) (attached : Bool) (text : String) : List String :=
  if attached then ["--" ++ (option ++ ("=" ++ text))] else ["--" ++ option, text]

/-- The usual words for an argument. -/
def Argument.render (hex attached : Bool) : Argument → List String
  | program name => [name]
  | offset v => optionWords "offset" attached (numeralText hex v.toNat)
  | memory n => optionWords "memory" attached (numeralText hex n)
  | rst v => optionWords "rst" attached (toString v.val)
  | every n => optionWords "every" attached (numeralText hex n)
  | limit n => optionWords "limit" attached (numeralText hex n)
  | autoReenable => ["--" ++ "auto-reenable"]
  | delayedEi => ["--" ++ "delayed-ei"]

theorem Denotes.words {option text : String} (h : Denotes option text a) (attached : Bool) :
    a.Words (optionWords option attached text) := by
  cases attached
  · exact .separate h
  · exact .attached h

theorem Argument.Valid.words (h : a.Valid) (hex attached : Bool) :
    a.Words (a.render hex attached) := by
  cases a with
  | program name => exact .program h.1 h.2
  | offset v => exact (Denotes.offset (writes_numeralText hex v.toNat)).words attached
  | memory n => exact (Denotes.memory (writes_numeralText hex n) h).words attached
  | rst v => exact (Denotes.rst (Numeral.spells_toString v.val)).words attached
  | every n => exact (Denotes.every (writes_numeralText hex n) h).words attached
  | limit n => exact (Denotes.limit (writes_numeralText hex n) h).words attached
  | autoReenable => exact .autoReenable
  | delayedEi => exact .delayedEi

theorem writes_render (h : ∀ a ∈ as, a.Valid) (hex attached : Argument → Bool) :
    Writes as (as.flatMap fun a => a.render (hex a) (attached a)) := by
  induction as with
  | nil => exact .nil
  | cons a as ih =>
    rw [List.flatMap_cons]
    exact .cons ((h a List.mem_cons_self).words _ _)
      (ih fun b hb => h b (List.mem_cons_of_mem a hb))

/-- Without an argument, the others are still there, and none of them is for the same. -/
theorem mem_names_erase {i : Name} (hn : (as.map Argument.name).Nodup) (ha : a ∈ as) :
    i ∈ (as.erase a).map Argument.name ↔ i ≠ a.name ∧ i ∈ as.map Argument.name := by
  have hperm := (List.perm_cons_erase ha).map Argument.name
  have hgone : a.name ∉ (as.erase a).map Argument.name :=
    (List.nodup_cons.mp (hperm.nodup_iff.mp hn)).1
  rw [hperm.mem_iff, List.map_cons, List.mem_cons]
  constructor
  · exact fun hi => ⟨ne_of_mem_of_not_mem hi hgone, .inr hi⟩
  · exact fun ⟨hne, hi⟩ => hi.resolve_left hne

/-- A line that gives the program, and a restart vector and a period together or not at all, is
read as what its arguments give, in whatever order and notation. Without the program, or with one
of those two missing, something is missing; with two arguments for one option there is a conflict,
wherever they stand. -/
theorem parse_round_trip {lib : Library} (hlib : lib.Documented) {name : String}
    (hs : s.Complete name) (has : as.Perm s.arguments) :
    (∀ hex attached : Argument → Bool,
      Writes as (as.flatMap fun a => a.render (hex a) (attached a))) ∧
    (∀ line, Writes as line →
      lib.parse line = .ok { program := name, options := s.options }) ∧
    (∀ a ∈ as, a.isRequired = true → ∀ line, Writes (as.erase a) line →
      lib.parse line = .error .missingArgument) ∧
    (∀ a ∈ as, a.name ≠ .program → ∀ b, b.name = a.name → ∀ bs, bs.Perm (b :: as) →
      ∀ line, Writes bs line → lib.parse line = .error .conflict) := by
  have hn : (as.map Argument.name).Nodup := nodup_of_perm has
  refine ⟨writes_render fun a ha => hs.valid a (has.mem_iff.mp ha),
    fun line hline => parse_of_complete hlib hline hs has,
    fun a ha hr line hline => parse_of_missing hlib hline ?_ ?_,
    fun a ha hp b hab bs hbs line hline => parse_of_conflict hlib hline ?_ ?_⟩
  · exact hn.sublist ((List.erase_sublist).map Argument.name)
  · have hi : a.name ∈ as.map Argument.name := List.mem_map_of_mem ha
    simp only [mem_names_erase hn ha]
    cases a with
    | program name => exact .inl fun h => h.1 rfl
    | rst v =>
      have hevery := (hs.rst_iff_every has).mp hi
      exact .inr (.inr ⟨⟨by rintro ⟨⟩, hevery⟩, fun h => h.1 rfl⟩)
    | every n =>
      have hrst := (hs.rst_iff_every has).mpr hi
      exact .inr (.inl ⟨⟨by rintro ⟨⟩, hrst⟩, fun h => h.1 rfl⟩)
    | _ => cases hr
  · rw [(hbs.map Argument.name).count_eq, List.map_cons, List.count_cons_of_ne (hab ▸ hp)]
    exact List.nodup_iff_count_le_one.mp hn _
  · rw [(hbs.map Argument.name).nodup_iff, List.map_cons, hab]
    exact fun h => (List.nodup_cons.mp h).1 (List.mem_map_of_mem ha)

/-- A program with a timer, the program between the two options of the timer. -/
def clockwork : Settings where
  program := "clock.com"
  offset := some 0x100
  rst := some 1
  every := some 16

theorem parse_round_trip_clockwork :
    reader.Documented ∧
    (clockwork.Complete "clock.com" ∧
      [.rst 1, .program "clock.com", .every 16, .offset 0x100].Perm clockwork.arguments) ∧
    parse ["--rst=1", "clock.com", "--every=0x10", "--offset=256"] =
      .ok { program := "clock.com", options := { offset := 0x100, timer := some ⟨1, 16⟩ } } ∧
    parse ["--rst=1", "clock.com", "--offset=256"] = .error .missingArgument ∧
    parse ["--rst=2", "--rst=1", "clock.com", "--every=0x10", "--offset=256"] =
      .error .conflict := by
  have hs : clockwork.Complete "clock.com" := ⟨rfl, rfl, by decide⟩
  have has : [.rst 1, .program "clock.com", .every 16, .offset 0x100].Perm clockwork.arguments := by
    decide
  have hwrites (as : List Argument) (h : ∀ a ∈ as, a.Valid) :
      Writes as (as.flatMap fun a => a.render (a = .every 16) true) :=
    writes_render h (fun a => a = .every 16) fun _ => true
  obtain ⟨-, hread, hmissing, hconflict⟩ := parse_round_trip reader_documented hs has
  exact ⟨reader_documented, ⟨hs, has⟩, hread _ (hwrites _ (by decide)),
    hmissing (.every 16) (by decide) rfl _ (hwrites _ (by decide)),
    hconflict (.rst 1) (by decide) (by decide) (.rst 2) rfl _ (.refl _) _
      (hwrites _ (by decide))⟩

end Intel8080.CommandLine
