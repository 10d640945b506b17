import Intel8080.Session

/-! A scripted device: each port reads from a prepared stream of bytes, each write is answered by
a prepared batch of signals, and all traffic is kept. A patient device holds its signals back
until the processor waits for one. -/

namespace Intel8080

/-- A byte that went through a port. -/
inductive Transfer where
  | read (port value : Byte)
  | write (port value : Byte)
  deriving DecidableEq

/-- What the device sends after a write, and whether it then gives up its sender. -/
structure Reaction where
  signals : List Signal := []
  hangUp : Bool := false

def Reaction.emissions (r : Reaction) : List Emission :=
  r.signals.map .signal ++ if r.hangUp then [.hangUp] else []

structure Script where
  /-- The bytes each port has left to read, the last of which lasts. -/
  streams : List (Byte × List Byte) := []
  /-- What any other port reads. -/
  idle : Byte := 255
  /-- The answers to the writes to come. -/
  reactions : List Reaction := []
  patient : Bool := false
  /-- What a patient device holds back. -/
  held : List Emission := []
  traffic : Array Transfer := #[]

namespace Script

/-- The next byte of a port, and the streams afterwards. -/
def next (port idle : Byte) : List (Byte × List Byte) → Byte × List (Byte × List Byte)
  | [] => (idle, [])
  | (p, bytes) :: rest =>
    if p = port then
      match bytes with
      | [] => (idle, (p, []) :: rest)
      | [v] => (v, (p, [v]) :: rest)
      | v :: left => (v, (p, left) :: rest)
    else
      let (v, rest) := next port idle rest
      (v, (p, bytes) :: rest)

def bus : Bus Script where
  read s port :=
    let (v, streams) := next port s.idle s.streams
    (v, { s with streams, traffic := s.traffic.push (.read port v) }, [])
  write s port v :=
    let traffic := s.traffic.push (.write port v)
    match s.reactions with
    | [] => ({ s with traffic }, [])
    | r :: rest =>
      if s.patient then
        ({ s with traffic, reactions := rest, held := s.held ++ r.emissions }, [])
      else ({ s with traffic, reactions := rest }, r.emissions)

/-- The device lets out what it holds back. -/
def release (s : Session Script) : Session Script :=
  Session.absorbAll s.device.held { s with device := { s.device with held := [] } }

/-- A waiting processor is woken by what the device holds back, if that is anything. -/
def wake (s : Session Script) : Option (Session Script) :=
  if s.device.held = [] then none else some (release s)

end Script

end Intel8080
