import Intel8080.Event
import Intel8080.Signal

/-! The mailbox between the senders of signals and the processor. Signals queue up in sending
order; polling consumes them, keeps the newest interrupt request and remembers a power-off.
Once the queue is empty and every sender is gone the mailbox is disconnected for good. -/

namespace Intel8080

structure Mailbox where
  queue : List Signal := []
  /-- Senders still alive. -/
  senders : Nat := 1
  /-- The interrupt opcode consumed last and not taken yet. -/
  pending : Option Byte := none
  powerOff : Bool := false
  connected : Bool := true
  deriving DecidableEq

namespace Mailbox

/-- Queues a signal, if there is a sender to send it. -/
def send (s : Signal) (m : Mailbox) : Mailbox :=
  if m.senders = 0 then m else { m with queue := m.queue ++ [s] }

def addSender (m : Mailbox) : Mailbox := { m with senders := m.senders + 1 }

def dropSender (m : Mailbox) : Mailbox := { m with senders := m.senders - 1 }

/-- One signal consumed; a request that was not taken yet gives way to a newer one. -/
def accept (s : Signal) (m : Mailbox) : Mailbox × List Event :=
  match s with
  | .interrupt code =>
    ({ m with pending := some code },
      match m.pending with
      | some old => [.replacedInterrupt old code]
      | none => [])
  | .powerOff => ({ m with powerOff := true }, [.requestedPowerOff])

def acceptAll : List Signal → Mailbox → Mailbox × List Event
  | [], m => (m, [])
  | s :: rest, m =>
    let (m, es) := m.accept s
    let (m, fs) := m.acceptAll rest
    (m, es ++ fs)

/-- Consumes whatever is queued. -/
def poll (m : Mailbox) : Mailbox × List Event :=
  if m.connected then
    let (n, es) := acceptAll m.queue { m with queue := [] }
    ({ n with connected := decide (n.senders ≠ 0) }, es)
  else (m, [])

/-- Waits for at least one signal and then consumes all; the answer is false when nothing can
arrive any more. There is no answer while nothing is queued and some sender is alive. -/
def wait? (m : Mailbox) : Option (Bool × Mailbox × List Event) :=
  if m.connected then
    match m.queue with
    | [] => if m.senders = 0 then some (false, { m with connected := false }, []) else none
    | _ :: _ => some (true, m.poll)
  else some (false, m, [])

/-- Hands out the pending interrupt, which is then no longer pending. -/
def take (m : Mailbox) : Option Byte × Mailbox := (m.pending, { m with pending := none })

end Mailbox

/-- A channel ends when its receiver is given up, whatever senders are left. -/
abbrev Channel := Option Mailbox

namespace Channel

/-- True when there is a sender to send and a receiver to send to. -/
def send (s : Signal) (c : Channel) : Bool × Channel :=
  (c.any fun m => decide (m.senders ≠ 0), c.map (·.send s))

end Channel

end Intel8080
