import Intel8080.Proofs.Cpu.CarryOut

/-! A bus that keeps a record of its calls. It answers as the bus it wraps, so a processor does on
it what it does without the record, and the record tells which ports were used. -/

namespace Intel8080

/-- A use of a port, with the byte that was moved. -/
inductive PortCall where
  | read (port answer : Byte)
  | write (port value : Byte)
  deriving DecidableEq

variable {α β γ : Type}

/-- The same bus with a record of its calls, oldest first. -/
def Bus.recorded (bus : Bus β) : Bus (β × List PortCall) where
  read x port :=
    match bus.read x.1 port with
    | (v, b, es) => (v, (b, x.2 ++ [.read port v]), es)
  write x port v :=
    match bus.write x.1 port v with
    | (b, es) => ((b, x.2 ++ [.write port v]), es)

/-- The trail without the record. -/
def Trail.forget (t : Trail α (β × γ)) : Trail α β := ⟨t.result, t.memory, t.bus.1, t.emitted⟩

/-- The reply without the record. -/
def Reply.forget (r : Reply α (β × γ)) : Reply α β := ⟨r.result, r.cpu, r.bus.1, r.emitted⟩

theorem Cycles.run_recorded (bus : Bus β) (c : Cycles α) (m : Memory) (x : β × List PortCall) :
    (c.run bus.recorded m x).forget = c.run bus m x.1 := by
  induction c generalizing m x with
  | done a => rfl
  | refuse f => rfl
  | note e next ih => exact congrArg (Trail.emitBefore _) (ih m x)
  | read addr next ih =>
    rw [run, run]
    split
    · exact ih _ m x
    · rfl
  | write addr v next ih =>
    rw [run, run]
    split
    · exact ih _ x
    · rfl
  | input port next ih => exact congrArg (Trail.emitBefore _) (ih _ m _)
  | output port v next ih => exact congrArg (Trail.emitBefore _) (ih m _)

namespace Cpu

variable (bus : Bus β) (cpu : Cpu) (x : β × List PortCall)

theorem carryOut_recorded (prepare : Cycles Prepared) (execute : Prepared → Cycles Core) :
    (cpu.carryOut bus.recorded prepare execute x).forget =
      cpu.carryOut bus prepare execute x.1 := by
  have hp := prepare.run_recorded bus cpu.memory x
  rcases ht : prepare.run bus.recorded cpu.memory x with ⟨f | p, m, x₁, es⟩ <;> rw [ht] at hp
  · rw [carryOut_refused ht, carryOut_refused hp.symm]
    rfl
  · have he := (execute p).run_recorded bus m x₁
    rcases ht' : (execute p).run bus.recorded m x₁ with ⟨f | c, m₂, x₂, fs⟩ <;> rw [ht'] at he
    · rw [carryOut_failed ht ht', carryOut_failed hp.symm he.symm]
      rfl
    · rw [carryOut_granted ht ht', carryOut_granted hp.symm he.symm]
      rfl

theorem step_recorded : (cpu.step bus.recorded x).forget = cpu.step bus x.1 := by
  unfold step
  split
  · rfl
  · split
    · rfl
    · exact carryOut_recorded bus cpu x _ _

theorem interrupt_recorded (code : Byte) :
    (cpu.interrupt bus.recorded code x).forget = cpu.interrupt bus code x.1 := by
  unfold interrupt
  split
  · rfl
  · split
    · exact congrArg (Reply.map some) (carryOut_recorded bus cpu x _ _)
    · rfl

end Cpu

end Intel8080
