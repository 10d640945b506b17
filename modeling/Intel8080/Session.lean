import Intel8080.Cpu
import Intel8080.Mailbox

/-! A session: one processor with its device, its mailbox, the counts of the current run and the
log. Running goes in rounds: each polls the mailbox and then does one thing, be it stopping,
servicing an interrupt, waiting for a signal or executing an instruction. -/

namespace Intel8080

structure Session (β : Type) where
  cpu : Cpu
  device : β
  mailbox : Mailbox := {}
  tally : Tally := {}
  log : Array Event := #[]

/-- Where a run stands after a round. -/
inductive Progress where
  | running
  /-- The processor is halted and waits for a signal that may still come. -/
  | blocked
  | stopped (reason : StopReason)
  | faulted (fault : Fault)
  deriving DecidableEq

namespace Session

variable {β : Type}

def record (e : Event) (s : Session β) : Session β := { s with log := s.log.push e }

def recordAll (es : List Event) (s : Session β) : Session β := { s with log := s.log ++ es }

/-- What a device emits goes to the mailbox or to the log. -/
def absorb (e : Emission) (s : Session β) : Session β :=
  match e with
  | .signal x => { s with mailbox := s.mailbox.send x }
  | .hangUp => { s with mailbox := s.mailbox.dropSender }
  | .event e => s.record e

def absorbAll (es : List Emission) (s : Session β) : Session β :=
  es.foldl (fun s e => s.absorb e) s

/-- A call on the processor, with whatever the device emits during it. -/
def apply {α : Type} (call : Cpu → β → Reply α β) (s : Session β) :
    Except Fault α × Session β :=
  match s with
  | ⟨cpu, device, mailbox, tally, log⟩ =>
    match call cpu device with
    | ⟨result, cpu, device, emitted⟩ =>
      (result, absorbAll emitted ⟨cpu, device, mailbox, tally, log⟩)

def step (bus : Bus β) (s : Session β) : Except Fault Nat × Session β :=
  s.apply (Cpu.step bus)

def interrupt (bus : Bus β) (code : Byte) (s : Session β) : Except Fault (Option Nat) × Session β :=
  s.apply (Cpu.interrupt bus code)

def load (offset : Word) (program : Array Byte) (s : Session β) : Except Fault Unit × Session β :=
  match s.cpu.load offset program with
  | .ok cpu => (.ok (), record (.loaded program.size offset) { s with cpu })
  | .error fault => (.error fault, s)

def poll (s : Session β) : Session β :=
  let (mailbox, es) := s.mailbox.poll
  recordAll es { s with mailbox }

def stop (reason : StopReason) (s : Session β) : Progress × Session β :=
  (.stopped reason, s.record (.stopped reason s.tally.instructions s.tally.interrupts))

/-- Waits, when the processor is halted and can be woken. -/
def await (s : Session β) : Progress × Session β :=
  if s.cpu.core.interruptsEnabled then
    match s.mailbox.wait? with
    | none => (.blocked, s)
    | some (true, mailbox, es) => (.running, recordAll es { s with mailbox })
    | some (false, mailbox, es) => (recordAll es { s with mailbox }).stop .halted
  else s.stop .halted

/-- Executes the next instruction, unless the processor is halted or the limit is reached. -/
def proceed (bus : Bus β) (limit : Option Nat) (s : Session β) : Progress × Session β :=
  if s.cpu.core.halted then s.await
  else if limit.any fun n => decide (n ≤ s.tally.instructions) then s.stop .instructionLimit
  else
    match s.step bus with
    | (.ok cost, s) => (.running, { s with tally := s.tally.addInstruction cost })
    | (.error fault, s) => (.faulted fault, s)

/-- Services the interrupt that the mailbox holds. -/
def service (bus : Bus β) (limit : Option Nat) (code : Byte) (s : Session β) :
    Progress × Session β :=
  match s.interrupt bus code with
  | (.ok (some cost), s) => (.running, { s with tally := s.tally.addInterrupt cost })
  | (.ok none, s) => s.proceed bus limit
  | (.error fault, s) => (.faulted fault, s)

/-- One round: a power-off comes first, then a pending interrupt that is accepted. -/
def round (bus : Bus β) (limit : Option Nat) (s : Session β) : Progress × Session β :=
  let s := s.poll
  if s.mailbox.powerOff then
    (s.record (.poweredOff s.cpu.core.registers.pc)).stop .powerOff
  else if s.cpu.acceptsInterrupts then
    match s.mailbox.take with
    | (some code, mailbox) => service bus limit code { s with mailbox }
    | (none, mailbox) => proceed bus limit { s with mailbox }
  else s.proceed bus limit

/-- At most the given number of rounds, fewer when the run ends before. A blocked session goes
on with what `wake` makes of it, and stays blocked if that is nothing. -/
def rounds (bus : Bus β) (limit : Option Nat) (wake : Session β → Option (Session β)) :
    Nat → Session β → Progress × Session β
  | 0, s => (.running, s)
  | n + 1, s =>
    match s.round bus limit with
    | (.running, s) => rounds bus limit wake n s
    | (.blocked, s) =>
      match wake s with
      | some s => rounds bus limit wake n s
      | none => (.blocked, s)
    | ended => ended

/-- Rounds with nobody to wake a blocked session. -/
def run (bus : Bus β) (limit : Option Nat) (n : Nat) (s : Session β) : Progress × Session β :=
  s.rounds bus limit (fun _ => none) n

/-- The start of a run: nothing is counted yet. -/
def start (s : Session β) : Session β := { s with tally := {} }

end Session

end Intel8080
