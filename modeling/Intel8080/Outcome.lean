/-! Why a run stopped, and what it counted. -/

namespace Intel8080

inductive StopReason where
  /-- A power-off signal arrived. -/
  | powerOff
  /-- The processor is halted and nothing can wake it. -/
  | halted
  | instructionLimit
  deriving DecidableEq

def StopReason.name : StopReason → String
  | powerOff => "PowerOff"
  | halted => "Halted"
  | instructionLimit => "InstructionLimit"

/-- Instructions fetched, interrupts serviced, and the states both took. -/
structure Tally where
  instructions : Nat := 0
  interrupts : Nat := 0
  states : Nat := 0
  deriving DecidableEq

namespace Tally

def addInstruction (t : Tally) (cost : Nat) : Tally :=
  { t with instructions := t.instructions + 1, states := t.states + cost }

def addInterrupt (t : Tally) (cost : Nat) : Tally :=
  { t with interrupts := t.interrupts + 1, states := t.states + cost }

/-- What is counted in two stretches together. -/
instance : Add Tally where
  add a b := ⟨a.instructions + b.instructions, a.interrupts + b.interrupts, a.states + b.states⟩

theorem add_assoc (a b c : Tally) : a + b + c = a + (b + c) := by
  change Tally.mk _ _ _ = Tally.mk _ _ _
  congr 1 <;> exact Nat.add_assoc _ _ _

theorem zero_add (t : Tally) : {} + t = t := by
  change Tally.mk _ _ _ = Tally.mk _ _ _
  congr 1 <;> exact Nat.zero_add _

end Tally

structure Outcome where
  reason : StopReason
  tally : Tally
  deriving DecidableEq

end Intel8080
