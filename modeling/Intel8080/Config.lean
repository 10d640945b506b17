import Intel8080.Memory

/-! The settings a processor is built with. -/

namespace Intel8080

/-- Whether interrupts stay disabled after one is taken, or are enabled again. -/
inductive InterruptPolicy where
  | manual | autoReenable
  deriving DecidableEq

/-- Whether an undefined opcode runs as the operation it decodes to, or faults. -/
inductive UndefinedOpcodePolicy where
  | alias | fault
  deriving DecidableEq

structure Config where
  memorySize : Nat := Memory.defaultSize
  interruptPolicy : InterruptPolicy := .manual
  undefinedOpcodes : UndefinedOpcodePolicy := .alias
  /-- The interrupt enable after a reset. -/
  interruptsEnabled : Bool := true
  /-- Whether EI holds interrupts off for one more instruction. -/
  delayedEi : Bool := false
  deriving DecidableEq

end Intel8080
