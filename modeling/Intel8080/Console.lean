import Intel8080.Cycles

/-! The console: a device that writes every byte put out to a sink and reads zero from every
port. A sink with limited room refuses whatever comes after it is full; the device notes that
and goes on. -/

namespace Intel8080

structure Sink where
  written : Array Byte := #[]
  /-- How many bytes fit, if there is a limit. -/
  room : Option Nat := none

namespace Sink

/-- Writes a byte, unless the sink is full. -/
def write? (v : Byte) (s : Sink) : Option Sink :=
  if s.room.any fun n => decide (n ≤ s.written.size) then none
  else some { s with written := s.written.push v }

end Sink

namespace Console

/-- Why a sink refuses a byte. -/
def full : String := "sink full"

def bus : Bus Sink where
  read s port := (0, s, [.event (.readPort port)])
  write s port v :=
    let wrote := Emission.event (.wrotePort port v)
    match s.write? v with
    | some s => (s, [wrote])
    | none => (s, [wrote, .event (.failedWrite full)])

end Console

end Intel8080
