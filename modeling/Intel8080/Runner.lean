import Intel8080.Console
import Intel8080.Session

/-! Running one program against the console from beginning to end. An interrupt timer, if there
is one, ticks whenever the processor waits, so a waiting processor always gets a next signal. -/

namespace Intel8080

/-- A periodic restart; the period is in milliseconds. -/
structure Timer where
  vector : Fin 8
  period : Nat
  deriving DecidableEq

structure RunOptions where
  /-- Where the program is loaded and starts. -/
  offset : Word := 0
  memorySize : Nat := Memory.defaultSize
  timer : Option Timer := none
  limit : Option Nat := none
  autoReenable : Bool := false
  delayedEi : Bool := false
  deriving DecidableEq

namespace RunOptions

def config (o : RunOptions) : Config where
  memorySize := o.memorySize
  interruptPolicy := if o.autoReenable then .autoReenable else .manual
  delayedEi := o.delayedEi

end RunOptions

/-- Why a program did not run to its end. -/
inductive RunFailure where
  | creation (fault : Fault)
  | loading (fault : Fault)
  /-- The program counter is the one that the fault left behind. -/
  | execution (pc : Word) (fault : Fault)
  deriving DecidableEq

def RunFailure.message : RunFailure → String
  | creation fault => "Failed to create CPU: " ++ fault.message
  | loading fault => "Failed to load program: " ++ fault.message
  | execution pc fault => "CPU stopped at PC=0x" ++ Word.hex pc ++ ": " ++ fault.message

namespace Runner

/-- The session in which a program is about to start. The timer is the only sender. -/
def prepare (program : Array Byte) (o : RunOptions) : Except RunFailure (Session Sink) := do
  let cpu ← (Cpu.ofConfig o.config).mapError .creation
  let s : Session Sink :=
    { cpu, device := {}, mailbox := { senders := if o.timer.isSome then 1 else 0 } }
  match s.load o.offset program with
  | (.error fault, _) => .error (.loading fault)
  | (.ok (), s) =>
    match o.timer with
    | some t => return s.record (.startedTimer t.vector.val t.period)
    | none => return s

/-- The timer sends its signal. -/
def tick (t : Timer) (s : Session Sink) : Session Sink :=
  { s with mailbox := s.mailbox.send (.rst t.vector) }

/-- Rounds in which the timer ticks whenever the processor waits. -/
def rounds (o : RunOptions) (n : Nat) (s : Session Sink) : Progress × Session Sink :=
  s.rounds Console.bus o.limit (fun s => o.timer.map (tick · s)) n

/-- What a finished run amounts to; there is nothing to say of a run that goes on. -/
def conclude? (p : Progress) (s : Session Sink) :
    Option (Except RunFailure Outcome × Session Sink) :=
  match p with
  | .running | .blocked => none
  | .stopped reason =>
    let outcome : Outcome := ⟨reason, s.tally⟩
    some (.ok outcome, s.record (.finished outcome))
  | .faulted fault => some (.error (.execution s.cpu.core.registers.pc fault), s)

/-- The result of a whole run, the bytes it put out and its log. -/
structure Report where
  result : Except RunFailure Outcome
  output : Array Byte := #[]
  log : Array Event := #[]

/-- Runs a program for at most the given number of rounds; there is no report if it goes on. -/
def run? (program : Array Byte) (o : RunOptions) (n : Nat) : Option Report :=
  match prepare program o with
  | .error failure => some { result := .error failure }
  | .ok s =>
    let (p, s) := rounds o n s
    (conclude? p s).map fun (result, s) => ⟨result, s.device.written, s.log⟩

end Runner

end Intel8080
