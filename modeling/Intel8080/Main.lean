import Intel8080.CommandLine

/-! The command `i8080`: reads the program file, runs it against standard output and lets the
interrupt timer tick by the clock. -/

namespace Intel8080

def usage : String := "Usage: i8080 [OPTIONS] <PROGRAM>"

def CommandLine.Error.text : CommandLine.Error → String
  | unknownArgument => "unexpected argument"
  | badValue message => "invalid value: " ++ message
  | missingArgument => "a required argument is missing"
  | noValue => "a value is required but none was supplied"
  | conflict => "an option cannot be used more than once"
  | needlessValue => "a flag takes no value"
  | help => usage

/-- Rounds between two looks at the clock. -/
def sliceRounds : Nat := 4096

/-- Runs a prepared session to its end, slice by slice. -/
def runSession (o : RunOptions) (prepared : Session Sink) : IO (Except RunFailure Outcome) := do
  let out ← IO.getStdout
  let period := o.timer.elim 0 (·.period)
  let mut s := prepared
  let mut due := (← IO.monoMsNow) + period
  repeat
    let (p, t) := s.run Console.bus o.limit sliceRounds
    out.write ⟨t.device.written⟩
    out.flush
    s := { t with device := {}, log := #[] }
    match Runner.conclude? p s with
    | some (result, _) => return result
    | none => pure ()
    if let some timer := o.timer then
      if p = .blocked then
        IO.sleep (UInt32.ofNat (due - (← IO.monoMsNow)))
      if due ≤ (← IO.monoMsNow) then
        s := Runner.tick timer s
        due := due + period
  return .ok ⟨.halted, s.tally⟩

def run (request : CommandLine.Request) : IO UInt32 := do
  let program ← IO.FS.readBinFile request.program
  match Runner.prepare program.data request.options with
  | .error failure =>
    IO.eprintln ("Error: " ++ failure.message)
    return 1
  | .ok s =>
    match ← runSession request.options s with
    | .error failure =>
      IO.eprintln ("Error: " ++ failure.message)
      return 1
    | .ok _ => return 0

end Intel8080

open Intel8080 in
def main (arguments : List String) : IO UInt32 := do
  match CommandLine.parse arguments with
  | .error .help =>
    IO.println usage
    return 0
  | .error e =>
    IO.eprintln ("error: " ++ e.text)
    return 2
  | .ok request =>
    try run request
    catch e =>
      IO.eprintln ("Error: " ++ toString e)
      return 1
