import Intel8080.CommandLine
import Intel8080.Proofs.Numeral.Spelling

/-! What the documentation of a library promises of the lines that give declared arguments in the
usual ways. How the library comes to its answer is left open. -/

namespace Intel8080.CommandLine

/-- An argument on a line, and the text of its value unless it is a flag. -/
structure Given (ι : Type) where
  argument : ι
  text : Option String

/-- The value that an argument stands for. -/
def Action.value? {α : Type} : Action α → Option String → Option α
  | .set read, some text => (read text).toOption
  | .store v, none => some v
  | _, _ => none

/-- The arguments that are given. -/
def names {ι : Type} (gs : List (Given ι)) : List ι := gs.map Given.argument

section Lines

variable {ι : Type} {Field : ι → Type} (d : Declaration ι Field)

namespace Given

def value? (g : Given ι) : Option (Field g.argument) :=
  (d.declared g.argument).action.value? g.text

/-- The argument goes by no name. -/
def Nameless (g : Given ι) : Prop := (d.declared g.argument).long = none

instance : DecidablePred (Nameless d) := fun g =>
  inferInstanceAs (Decidable ((d.declared g.argument).long = none))

/-- The ways to write an argument. A value is a word of its own or follows an equals sign. -/
inductive Words : Given ι → List String → Prop
  | nameless {i text} (hi : (d.declared i).long = none) (ht : text ≠ "")
      (hd : text.toList.head? ≠ some '-') : Words ⟨i, some text⟩ [text]
  | separate {i name text} (hi : (d.declared i).long = some name)
      (hd : text.toList.head? ≠ some '-') : Words ⟨i, some text⟩ ["--" ++ name, text]
  | attached {i name text} (hi : (d.declared i).long = some name) :
      Words ⟨i, some text⟩ ["--" ++ (name ++ ("=" ++ text))]
  | flag {i name} (hi : (d.declared i).long = some name) : Words ⟨i, none⟩ ["--" ++ name]

end Given

/-- The words of a line that gives the arguments in this order. -/
inductive Spelled : List (Given ι) → List String → Prop
  | nil : Spelled [] []
  | cons {g gs ws line} (h : g.Words d ws) (hl : Spelled gs line) : Spelled (g :: gs) (ws ++ line)

/-- A line with a value for every argument, in which at most one is without a name. -/
structure Line (gs : List (Given ι)) (line : List String) : Prop where
  spelled : Spelled d gs line
  valued : ∀ g ∈ gs, (g.value? d).isSome
  single : gs.countP (Given.Nameless d) ≤ 1

/-- An argument that must be given is not, by itself or beside another. -/
def Lacks (gs : List (Given ι)) : Prop :=
  (∃ i, (d.declared i).absent = none ∧ i ∉ names gs) ∨
    ∃ i ∈ names gs, ∃ j ∈ (d.declared i).requires, j ∉ names gs

/-- Every argument that is given has its value, and the others have their defaults. -/
structure Filled (gs : List (Given ι)) (fields : (i : ι) → Field i) : Prop where
  given : ∀ g ∈ gs, g.value? d = some (fields g.argument)
  absent : ∀ i ∉ names gs, (d.declared i).absent = some (fields i)

/-- Lines are read as the documentation has it. -/
structure Documented (read : List String → Except Error ((i : ι) → Field i)) : Prop where
  conflict : ∀ {gs line}, Line d gs line → ¬ (names gs).Nodup → read line = .error .conflict
  missing : ∀ {gs line}, Line d gs line → (names gs).Nodup → Lacks d gs →
    read line = .error .missingArgument
  accepted : ∀ {gs line}, Line d gs line → (names gs).Nodup → ¬ Lacks d gs →
    ∃ fields, read line = .ok fields ∧ Filled d gs fields

end Lines

/-- The documented behaviour of a library, whatever the declaration. -/
structure Library.Documented (lib : Library) : Prop where
  path : ∀ {text}, text ≠ "" → lib.path text = .ok text
  byteWithin : ∀ {lo hi n text}, Numeral.Spells 10 text.toList n → lo ≤ n → n ≤ hi → hi ≤ 255 →
    lib.byteWithin lo hi text = .ok (UInt8.ofNat n)
  read : ∀ {ι : Type} [DecidableEq ι] {Field : ι → Type} (d : Declaration ι Field),
    CommandLine.Documented d (lib.read d)

end Intel8080.CommandLine
