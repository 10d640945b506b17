import Intel8080.CommandLine.Reader
import Intel8080.Runner

/-! The command line of the runner: one program file, options that take a value, and flags. What
the words of a line come to is up to the library that reads them; what the command declares of its
arguments, and which options it runs the program with, is said here. -/

namespace Intel8080

namespace CommandLine

/-! ### Values -/

def numeral (text : String) : Except String Nat :=
  (Numeral.parse text).mapError Numeral.Error.message

def address (text : String) : Except String Word := do
  let n ← numeral text
  if n < 65536 then return UInt16.ofNat n
  else throw (text ++ " does not fit in 16 bits")

/-! ### Arguments -/

inductive Name where
  | program | offset | memory | rst | every | limit | autoReenable | delayedEi
  deriving DecidableEq

abbrev Name.Field : Name → Type
  | program => String
  | offset => Word
  | memory => Nat
  | rst => Option Byte
  | every | limit => Option Nat
  | autoReenable | delayedEi => Bool

/-- The fields of all arguments. -/
abbrev Args := (i : Name) → i.Field

/-- What reads command lines: two kinds of values that it knows itself, and what the words of a
line come to under a declaration. -/
structure Library where
  path : String → Except Error String
  byteWithin : Nat → Nat → String → Except Error Byte
  read : {ι : Type} → [DecidableEq ι] → {Field : ι → Type} → Declaration ι Field →
    List String → Except Error ((i : ι) → Field i)

/-- An argument that takes a value, which `f` wraps. -/
def Action.checked {α β : Type} (read : String → Except String α) (f : α → β) : Action β :=
  .set fun text => ((read text).mapError .badValue).map f

def declared (lib : Library) : (i : Name) → Declared Name i.Field
  | .program => { action := .set lib.path }
  | .offset => { long := some "offset", action := .checked address id, absent := some (0 : Word) }
  | .memory =>
    { long := some "memory", action := .checked numeral id, absent := some Memory.defaultSize }
  | .rst =>
    { long := some "rst"
      action := .set fun text => (lib.byteWithin 0 7 text).map some
      absent := some none
      requires := [.every] }
  | .every =>
    { long := some "every"
      action := .checked numeral some
      absent := some none
      requires := [.rst] }
  | .limit => { long := some "limit", action := .checked numeral some, absent := some none }
  | .autoReenable =>
    { long := some "auto-reenable", action := .store true, absent := some false }
  | .delayedEi => { long := some "delayed-ei", action := .store true, absent := some false }

def declaration (lib : Library) : Declaration Name Name.Field where
  arguments := [.program, .offset, .memory, .rst, .every, .limit, .autoReenable, .delayedEi]
  declared := declared lib
  mem_arguments i := by cases i <;> decide
  distinct i j h := by cases i <;> cases j <;> simp_all [declared]
  plain i name h := by
    have hplain : ∀ name ∈ (declared lib i).long, Plain name := by
      cases i <;> simp [declared] <;> decide
    exact hplain name h

/-- A restart vector and a period make a timer. -/
def Args.options (args : Args) : RunOptions where
  offset := args .offset
  memorySize := args .memory
  timer :=
    match args .rst, args .every with
    | some n, some period => some { vector := n.last, period }
    | _, _ => none
  limit := args .limit
  autoReenable := args .autoReenable
  delayedEi := args .delayedEi

/-- A program file and the options to run it with. -/
structure Request where
  program : String
  options : RunOptions
  deriving DecidableEq

def Library.parse (lib : Library) (line : List String) : Except Error Request := do
  let args ← lib.read (declaration lib) line
  return ⟨args .program, Args.options args⟩

/-- The library that the command runs with. -/
def reader : Library where
  path := Reader.path
  byteWithin := Reader.byteWithin
  read := Reader.read

def parse (line : List String) : Except Error Request := reader.parse line

end CommandLine

end Intel8080
