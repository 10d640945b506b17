import Intel8080.CommandLine.Declaration
import Intel8080.Numeral
import Intel8080.Word

/-! One reader of command lines, for any declaration. Words are read from left to right; the text
of a value is judged only when the next argument or the end of the line shows that it is complete.
What is known of the command does not rest on this reader, but on what is documented of all. -/

namespace Intel8080.CommandLine.Reader

/-- An argument that the next word may still complete. -/
inductive Pending (ι : Type) where
  | nothing
  | awaiting (i : ι)
  | valued (i : ι) (text : String)

/-- The fields of the arguments given so far. -/
abbrev Table {ι : Type} (Field : ι → Type) := (i : ι) → Option (Field i)

structure State {ι : Type} (Field : ι → Type) where
  given : Table Field := fun _ => none
  pending : Pending ι := .nothing
  /-- After two dashes alone, no word is an option. -/
  trailing : Bool := false
  /-- The argument without a name has been given. -/
  placed : Bool := false

variable {ι : Type} [DecidableEq ι] {Field : ι → Type}

def Table.place (t : Table Field) (i : ι) (v : Field i) : Table Field :=
  fun j => if h : i = j then some (h ▸ v) else t j

/-- Fills the place of an argument, which must still be empty. -/
def put (i : ι) (value : Except Error (Field i)) (t : Table Field) : Except Error (Table Field) :=
  match t i with
  | some _ => throw .conflict
  | none => value.map (t.place i)

/-- Reads the text of an argument that takes a value. -/
def Action.read {α : Type} (a : Action α) (text : String) : Except Error α :=
  match a with
  | .set read => read text
  | .store _ => throw .needlessValue

variable (d : Declaration ι Field)

/-- The table once the pending argument is complete. -/
def settled (s : State Field) : Except Error (Table Field) :=
  match s.pending with
  | .nothing => return s.given
  | .awaiting _ => throw .noValue
  | .valued i text => put i (Action.read (d.declared i).action text) s.given

/-- A word that is an argument without a name; there is room for one. -/
def value (s : State Field) (text : String) : Except Error (State Field) :=
  match d.arguments.find? fun i => (d.declared i).long = none with
  | none => throw .unknownArgument
  | some i =>
    if s.placed then throw .unknownArgument
    else return { s with given := ← settled d s, pending := .valued i text, placed := true }

/-- An argument that goes by a name, with the value attached to it. -/
def named (s : State Field) (i : ι) (attached : Option String) : Except Error (State Field) :=
  match (d.declared i).action, attached with
  | .set read, some text => do
    let given ← settled d s
    return { s with given := ← put i (read text) given, pending := .nothing }
  | .set _, none => return { s with given := ← settled d s, pending := .awaiting i }
  | .store _, some _ => throw .needlessValue
  | .store v, none => do
    let given ← settled d s
    return { s with given := ← put i (.ok v) given, pending := .nothing }

/-- A name behind two dashes, with the value that an equals sign attaches. -/
def long (s : State Field) (name : String) (attached : Option String) :
    Except Error (State Field) :=
  if name = "help" then
    match attached with
    | some _ => throw .needlessValue
    | none => do
      let _ ← settled d s
      throw .help
  else
    match d.arguments.find? fun i => (d.declared i).long = some name with
    | none => throw .unknownArgument
    | some i => named d s i attached

/-- Letters behind a single dash, of which only the one for help is known. -/
def short (s : State Field) (letters : List Char) : Except Error (State Field) := do
  if letters.head? = some 'h' then
    let _ ← settled d s
    throw .help
  else throw .unknownArgument

/-- A name and the value behind its first equals sign, if it has one. -/
def splitValue (cs : List Char) : String × Option String :=
  let name := cs.takeWhile (· ≠ '=')
  match cs.drop name.length with
  | [] => (String.ofList name, none)
  | _ :: text => (String.ofList name, some (String.ofList text))

def word (s : State Field) (text : String) : Except Error (State Field) :=
  if s.trailing then value d s text
  else
    match text.toList with
    | ['-', '-'] => return { s with trailing := true }
    | '-' :: '-' :: cs =>
      let (name, attached) := splitValue cs
      long d s name attached
    | '-' :: c :: cs => short d s (c :: cs)
    | _ =>
      match s.pending with
      | .awaiting i => return { s with pending := .valued i text }
      | _ => value d s text

/-- What must be given is given, by itself or beside another argument. -/
def Complete (t : Table Field) : Prop :=
  ∀ i ∈ d.arguments, ((t i).or (d.declared i).absent).isSome ∧
    ((t i).isSome → ∀ j ∈ (d.declared i).requires, (t j).isSome)

instance (t : Table Field) : Decidable (Complete d t) :=
  inferInstanceAs (Decidable (∀ i ∈ d.arguments, _))

/-- The fields of all arguments, of those that are not given too. -/
def fields (t : Table Field) : Except Error ((i : ι) → Field i) :=
  if h : Complete d t then
    .ok fun i => ((t i).or (d.declared i).absent).get (h i (d.mem_arguments i)).1
  else .error .missingArgument

def read (line : List String) : Except Error ((i : ι) → Field i) := do
  let s ← line.foldlM (word d) {}
  fields d (← settled d s)

/-- A path is any text but the empty one. -/
def path (text : String) : Except Error String :=
  if text = "" then .error .noValue else .ok text

/-- A byte between two bounds, in decimal. -/
def byteWithin (lo hi : Nat) (text : String) : Except Error Byte := do
  let n ← (Numeral.parseSigned text).mapError fun e => .badValue e.message
  if lo ≤ n ∧ n ≤ hi then return UInt8.ofNat n.toNat
  else throw (.badValue (toString n ++ " is not in " ++ toString lo ++ "..=" ++ toString hi))

end Intel8080.CommandLine.Reader
