import Intel8080.Fault
import Intel8080.Operation.Table
import Intel8080.Outcome

/-! The events worth logging, their levels and their wording. -/

namespace Intel8080

inductive LogLevel where
  | error | warn | info | debug | trace
  deriving DecidableEq

namespace LogLevel

def name : LogLevel → String
  | error => "ERROR"
  | warn => "WARN"
  | info => "INFO"
  | debug => "DEBUG"
  | trace => "TRACE"

/-- From the gravest on. -/
def rank : LogLevel → Nat
  | error => 1
  | warn => 2
  | info => 3
  | debug => 4
  | trace => 5

end LogLevel

/-- A period in milliseconds, in the largest unit that keeps it at least one. -/
def periodText (ms : Nat) : String :=
  if ms = 0 then "0ns"
  else if ms < 1000 then toString ms ++ "ms"
  else
    let thousandths := [ms / 100 % 10, ms / 10 % 10, ms % 10]
    let kept := (thousandths.reverse.dropWhile (· == 0)).reverse
    let fraction := String.ofList (kept.map hexDigit)
    toString (ms / 1000) ++ (if kept = [] then "" else "." ++ fraction) ++ "s"

inductive Event where
  | loaded (size : Nat) (offset : Word)
  /-- An instruction was fetched; accumulator, status and stack pointer are those before it. -/
  | fetched (pc : Word) (code : Byte) (operand : Word) (a status : Byte) (sp : Word)
  | ranUndefined (code : Byte) (pc : Word)
  | faulted (pc : Word) (fault : Fault)
  | tookInterrupt (code : Byte) (pc : Word)
  | haltedAt (pc : Word)
  | enabledInterrupts
  | disabledInterrupts
  | replacedInterrupt (old new : Byte)
  | requestedPowerOff
  | poweredOff (pc : Word)
  | stopped (reason : StopReason) (instructions interrupts : Nat)
  | readPort (port : Byte)
  | wrotePort (port value : Byte)
  | failedWrite (cause : String)
  | startedTimer (vector : Nat) (period : Nat)
  | finished (outcome : Outcome)
  deriving DecidableEq

namespace Event

def level : Event → LogLevel
  | faulted _ _ => .error
  | ranUndefined _ _ | replacedInterrupt _ _ | failedWrite _ => .warn
  | loaded _ _ | startedTimer _ _ | finished _ => .info
  | fetched _ _ _ _ _ _ => .trace
  | _ => .debug

def message : Event → String
  | loaded size offset => "Loaded " ++ toString size ++ " bytes at 0x" ++ Word.hex offset
  | fetched pc code operand a status sp =>
    "PC=0x" ++ Word.hex pc ++ " op=0x" ++ code.hex ++ " " ++ (Operation.decode code).mnemonic ++
      " data=0x" ++ Word.hex operand ++ " A=0x" ++ a.hex ++ " F=0x" ++ status.hex ++ " SP=0x" ++
      Word.hex sp
  | ranUndefined code pc =>
    "Undefined opcode 0x" ++ code.hex ++ " at PC=0x" ++ Word.hex pc ++ " executed as " ++
      (Operation.decode code).mnemonic
  | faulted pc fault => "CPU fault at PC=0x" ++ Word.hex pc ++ ": " ++ fault.message
  | tookInterrupt code pc =>
    "Interrupt 0x" ++ code.hex ++ " (" ++ (Operation.decode code).mnemonic ++ ") at PC=0x" ++
      Word.hex pc
  | haltedAt pc => "HLT at PC=0x" ++ Word.hex pc
  | enabledInterrupts => "EI"
  | disabledInterrupts => "DI"
  | replacedInterrupt old new =>
    "Interrupt 0x" ++ old.hex ++ " replaced by 0x" ++ new.hex ++ " before it was taken"
  | requestedPowerOff => "Power-off requested"
  | poweredOff pc => "Power-off at PC=0x" ++ Word.hex pc
  | stopped reason instructions interrupts =>
    "Stopped (" ++ reason.name ++ ") after " ++ toString instructions ++ " instructions, " ++
      toString interrupts ++ " interrupts"
  | readPort port => "IN 0x" ++ port.hex ++ " -> 0x00"
  | wrotePort port value => "OUT 0x" ++ port.hex ++ " <- 0x" ++ value.hex
  | failedWrite cause => "Console write failed: " ++ cause
  | startedTimer vector period =>
    "RST " ++ toString vector ++ " every " ++ periodText period
  | finished outcome =>
    outcome.reason.name ++ ": " ++ toString outcome.tally.instructions ++ " instructions, " ++
      toString outcome.tally.interrupts ++ " interrupts, " ++ toString outcome.tally.states ++
      " states"

def line (e : Event) : String := e.level.name ++ " " ++ e.message

end Event

end Intel8080
