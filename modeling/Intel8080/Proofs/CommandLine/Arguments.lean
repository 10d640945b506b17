import Intel8080.Proofs.CommandLine.Documented

/-! The arguments of the command, as they are written on its line. A library that keeps its
documentation takes them for what the command has declared. -/

namespace Intel8080.CommandLine

/-- What a command line can give. -/
inductive Argument where
  | program (name : String)
  | offset (v : Word)
  | memory (n : Nat)
  | rst (v : Fin 8)
  | every (n : Nat)
  | limit (n : Nat)
  | autoReenable
  | delayedEi
  deriving DecidableEq

/-- The text gives a value behind the option. The restart vector is written in decimal only. -/
inductive Denotes : String → String → Argument → Prop
  | offset {text} {v : Word} (h : Numeral.Writes text v.toNat) : Denotes "offset" text (.offset v)
  | memory {text n} (h : Numeral.Writes text n) (hn : n < Numeral.bound) :
      Denotes "memory" text (.memory n)
  | rst {text : String} {v : Fin 8} (h : Numeral.Spells 10 text.toList v.val) :
      Denotes "rst" text (.rst v)
  | every {text n} (h : Numeral.Writes text n) (hn : n < Numeral.bound) :
      Denotes "every" text (.every n)
  | limit {text n} (h : Numeral.Writes text n) (hn : n < Numeral.bound) :
      Denotes "limit" text (.limit n)

namespace Argument

/-- The ways to write an argument. A value is a word of its own or follows an equals sign. -/
inductive Words : Argument → List String → Prop
  | program {name : String} (hn : name ≠ "") (hd : name.toList.head? ≠ some '-') :
      Words (.program name) [name]
  | separate {option text a} (h : Denotes option text a) : Words a ["--" ++ option, text]
  | attached {option text a} (h : Denotes option text a) :
      Words a ["--" ++ (option ++ ("=" ++ text))]
  | autoReenable : Words .autoReenable ["--" ++ "auto-reenable"]
  | delayedEi : Words .delayedEi ["--" ++ "delayed-ei"]

/-- What the argument is for. -/
def name : Argument → Name
  | program _ => .program
  | offset _ => .offset
  | memory _ => .memory
  | rst _ => .rst
  | every _ => .every
  | limit _ => .limit
  | autoReenable => .autoReenable
  | delayedEi => .delayedEi

def value : (a : Argument) → a.name.Field
  | program name => name
  | offset v => v
  | memory n => n
  | rst v => some (v : Byte)
  | every n => some n
  | limit n => some n
  | autoReenable => true
  | delayedEi => true

end Argument

/-- The line gives the arguments, in this order. -/
inductive Writes : List Argument → List String → Prop
  | nil : Writes [] []
  | cons {a as ws line} (h : a.Words ws) (hl : Writes as line) : Writes (a :: as) (ws ++ line)

variable {text option : String} {a : Argument} {as : List Argument} {line : List String}

/-! ### Values -/

theorem numeral_of_writes {n : Nat} (h : Numeral.Writes text n) (hn : n < Numeral.bound) :
    numeral text = .ok n := by
  rw [numeral, h.parse hn]
  rfl

theorem address_of_writes {v : Word} (h : Numeral.Writes text v.toNat) : address text = .ok v := by
  have hlt : v.toNat < 65536 := v.toNat_lt
  have hn := numeral_of_writes h (Nat.lt_trans hlt (by decide))
  simp only [address, hn, bind, Except.bind, if_pos hlt]
  exact congrArg Except.ok v.ofNat_toNat

/-- The argument, as the command has declared it. -/
def Argument.Taken (lib : Library) (a : Argument) (g : Given Name) : Prop :=
  ∃ text, g = ⟨a.name, text⟩ ∧ ((declaration lib).declared a.name).action.value? text = some a.value

variable {lib : Library}

theorem value?_checked {α β : Type} {read : String → Except String α} {f : α → β} {v : α}
    (h : read text = .ok v) : (Action.checked read f).value? (some text) = some (f v) := by
  simp only [Action.checked, Action.value?, h]
  rfl

/-- An option goes by its name, and its text is read as the value. -/
theorem Denotes.value? (hlib : lib.Documented) (h : Denotes option text a) :
    ((declaration lib).declared a.name).long = some option ∧
      ((declaration lib).declared a.name).action.value? (some text) = some a.value := by
  cases h with
  | offset h => exact ⟨rfl, value?_checked (address_of_writes h)⟩
  | memory h hn => exact ⟨rfl, value?_checked (numeral_of_writes h hn)⟩
  | every h hn => exact ⟨rfl, value?_checked (numeral_of_writes h hn)⟩
  | limit h hn => exact ⟨rfl, value?_checked (numeral_of_writes h hn)⟩
  | @rst text v h =>
    have hread := hlib.byteWithin h (Nat.zero_le _) (Nat.le_of_lt_succ v.isLt) (by decide)
    refine ⟨rfl, ?_⟩
    change (((lib.byteWithin 0 7 text).map some).toOption : Option (Option Byte)) = _
    rw [hread]
    rfl

theorem Denotes.head (h : Denotes option text a) : text.toList.head? ≠ some '-' := by
  cases h with
  | offset h | memory h | rst h | every h | limit h => exact h.head

/-! ### Lines -/

theorem Argument.Words.taken (hlib : lib.Documented) {ws : List String} (h : a.Words ws) :
    ∃ g : Given Name, g.Words (declaration lib) ws ∧ a.Taken lib g := by
  cases h with
  | @program name hn hd =>
    refine ⟨⟨.program, some name⟩, .nameless rfl hn hd, some name, rfl, ?_⟩
    change (lib.path name).toOption = some name
    rw [hlib.path hn]
    rfl
  | separate h =>
    obtain ⟨hlong, hvalue⟩ := h.value? hlib
    exact ⟨⟨a.name, some _⟩, .separate hlong h.head, some _, rfl, hvalue⟩
  | attached h =>
    obtain ⟨hlong, hvalue⟩ := h.value? hlib
    exact ⟨⟨a.name, some _⟩, .attached hlong, some _, rfl, hvalue⟩
  | autoReenable => exact ⟨⟨.autoReenable, none⟩, .flag rfl, none, rfl, rfl⟩
  | delayedEi => exact ⟨⟨.delayedEi, none⟩, .flag rfl, none, rfl, rfl⟩

theorem Writes.spelled (hlib : lib.Documented) (h : Writes as line) :
    ∃ gs, Spelled (declaration lib) gs line ∧ List.Forall₂ (Argument.Taken lib) as gs := by
  induction h with
  | nil => exact ⟨[], .nil, .nil⟩
  | cons hw _ ih =>
    obtain ⟨g, hwords, hg⟩ := hw.taken hlib
    obtain ⟨gs, hspelled, hgs⟩ := ih
    exact ⟨g :: gs, .cons hwords hspelled, .cons hg hgs⟩

section Taken

variable {gs : List (Given Name)} (h : List.Forall₂ (Argument.Taken lib) as gs)

include h

theorem names_of_taken : names gs = as.map Argument.name := by
  induction h with
  | nil => rfl
  | cons hg _ ih =>
    obtain ⟨text, rfl, -⟩ := hg
    exact congrArg _ ih

theorem valued_of_taken : ∀ g ∈ gs, (g.value? (declaration lib)).isSome := by
  induction h with
  | nil => simp
  | cons hg _ ih =>
    obtain ⟨text, rfl, hvalue⟩ := hg
    exact List.forall_mem_cons.mpr ⟨Option.isSome_iff_exists.mpr ⟨_, hvalue⟩, ih⟩

theorem exists_taken (ha : a ∈ as) : ∃ g ∈ gs, a.Taken lib g := by
  induction h with
  | nil => cases ha
  | @cons b g as gs hg _ ih =>
    obtain rfl | ha := List.mem_cons.mp ha
    · exact ⟨g, List.mem_cons_self, hg⟩
    · obtain ⟨g', hg', ht⟩ := ih ha
      exact ⟨g', List.mem_cons_of_mem g hg', ht⟩

/-- The field of an argument that is given is its value. -/
theorem field_of_taken {fields : Args} (hf : Filled (declaration lib) gs fields) (ha : a ∈ as) :
    fields a.name = a.value := by
  obtain ⟨g, hg, text, rfl, hvalue⟩ := exists_taken h ha
  exact Option.some.inj ((hf.given _ hg).symm.trans hvalue)

end Taken

theorem nameless_iff (lib : Library) (i : Name) :
    ((declaration lib).declared i).long = none ↔ i = .program := by
  cases i <;> simp [declaration, declared]

/-- A line is what the command has declared, if it gives one program at most. -/
theorem Writes.declared (hlib : lib.Documented) (h : Writes as line)
    (hone : (as.map Argument.name).count .program ≤ 1) :
    ∃ gs, Line (declaration lib) gs line ∧ List.Forall₂ (Argument.Taken lib) as gs := by
  obtain ⟨gs, hspelled, hgs⟩ := h.spelled hlib
  refine ⟨gs, ⟨hspelled, valued_of_taken hgs, ?_⟩, hgs⟩
  calc gs.countP (Given.Nameless (declaration lib))
    _ = (names gs).count .program := by
      rw [names, List.count, List.countP_map]
      refine List.countP_congr fun g _ => ?_
      simp [Given.Nameless, nameless_iff]
    _ ≤ 1 := by rwa [names_of_taken hgs]

end Intel8080.CommandLine
