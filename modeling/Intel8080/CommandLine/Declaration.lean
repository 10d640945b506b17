/-! What a command declares of its arguments: their names, how the text of a value is read, what
holds of an argument that is not given, and which arguments go together. -/

namespace Intel8080.CommandLine

inductive Error where
  | unknownArgument
  /-- The text of a value does not denote one. -/
  | badValue (message : String)
  | missingArgument
  /-- An option without its value, or an empty program name. -/
  | noValue
  /-- An option given twice. -/
  | conflict
  /-- A value for a flag. -/
  | needlessValue
  /-- Not an error but a request for help. -/
  | help
  deriving DecidableEq

/-- What giving an argument does to its field. -/
inductive Action (α : Type) where
  /-- The argument takes a value, which its text denotes. -/
  | set (read : String → Except Error α)
  /-- The argument takes no value and stands for this one. -/
  | store (v : α)

/-- One argument among those that `ι` counts. -/
structure Declared (ι α : Type) where
  /-- The name behind two dashes. An argument without one is its value alone. -/
  long : Option String := none
  action : Action α
  /-- The field of an argument that is not given. Without one, it must be given. -/
  absent : Option α := none
  /-- What must be given beside it. -/
  requires : List ι := []

/-- A name that can be told from the dashes in front of it, from a value behind an equals sign and
from the request for help. -/
structure Plain (name : String) : Prop where
  nonempty : name ≠ ""
  undashed : name.toList.head? ≠ some '-'
  noEquals : '=' ∉ name.toList
  notHelp : name ≠ "help"

theorem plain_iff {name : String} : Plain name ↔
    name ≠ "" ∧ name.toList.head? ≠ some '-' ∧ '=' ∉ name.toList ∧ name ≠ "help" :=
  ⟨fun h => ⟨h.nonempty, h.undashed, h.noEquals, h.notHelp⟩, fun ⟨h, h', k, k'⟩ => ⟨h, h', k, k'⟩⟩

instance : DecidablePred Plain := fun _ => decidable_of_iff _ plain_iff.symm

/-- The arguments of a command and their fields. Each goes by a name of its own, and at most one
by none. -/
structure Declaration (ι : Type) (Field : ι → Type) where
  arguments : List ι
  declared : (i : ι) → Declared ι (Field i)
  mem_arguments : ∀ i, i ∈ arguments
  distinct : ∀ i j, (declared i).long = (declared j).long → i = j
  plain : ∀ i name, (declared i).long = some name → Plain name

end Intel8080.CommandLine
