import Intel8080.Cpu

/-! How a step and an interrupt end. Either the preparation is refused and the core stays as it
was, or the execution is refused and the core stays as the preparation left it, or both are
granted. Every property of a single step is read off these three ways. -/

namespace Intel8080.Cpu

variable {β : Type} {bus : Bus β} {prepare : Cycles Prepared} {execute : Prepared → Cycles Core}
  {cpu : Cpu} {b : β}

/-- The ways in which preparing and executing an operation can end. -/
inductive CarriedOut (bus : Bus β) (prepare : Cycles Prepared) (execute : Prepared → Cycles Core)
    (cpu : Cpu) (b : β) : Reply Nat β → Prop
  | refused {fault memory b₁ es}
      (hp : prepare.run bus cpu.memory b = ⟨.error fault, memory, b₁, es⟩) :
      CarriedOut bus prepare execute cpu b
        ⟨.error fault, ⟨cpu.core, memory, some ⟨fault, cpu.core.registers.pc⟩, cpu.config⟩, b₁,
          es ++ [.event (.faulted cpu.core.registers.pc fault)]⟩
  | failed {prepared memory b₁ es fault memory₂ b₂ fs}
      (hp : prepare.run bus cpu.memory b = ⟨.ok prepared, memory, b₁, es⟩)
      (he : (execute prepared).run bus memory b₁ = ⟨.error fault, memory₂, b₂, fs⟩) :
      CarriedOut bus prepare execute cpu b
        ⟨.error fault,
          ⟨prepared.core, memory₂, some ⟨fault, cpu.core.registers.pc⟩, cpu.config⟩, b₂,
          es ++ fs ++ [.event (.faulted cpu.core.registers.pc fault)]⟩
  | granted {prepared memory b₁ es core memory₂ b₂ fs}
      (hp : prepare.run bus cpu.memory b = ⟨.ok prepared, memory, b₁, es⟩)
      (he : (execute prepared).run bus memory b₁ = ⟨.ok core, memory₂, b₂, fs⟩) :
      CarriedOut bus prepare execute cpu b
        ⟨.ok (prepared.operation.cost prepared.core.flags), ⟨core, memory₂, none, cpu.config⟩, b₂,
          es ++ fs⟩

/-! ### Each of the three ways -/

variable {fault : Fault} {prepared : Prepared} {core : Core} {memory memory₂ : Memory} {b₁ b₂ : β}
  {es fs : List Emission}

theorem carryOut_refused (hp : prepare.run bus cpu.memory b = ⟨.error fault, memory, b₁, es⟩) :
    cpu.carryOut bus prepare execute b =
      ⟨.error fault, ⟨cpu.core, memory, some ⟨fault, cpu.core.registers.pc⟩, cpu.config⟩, b₁,
        es ++ [.event (.faulted cpu.core.registers.pc fault)]⟩ := by
  unfold carryOut
  simp only [hp]

theorem carryOut_failed (hp : prepare.run bus cpu.memory b = ⟨.ok prepared, memory, b₁, es⟩)
    (he : (execute prepared).run bus memory b₁ = ⟨.error fault, memory₂, b₂, fs⟩) :
    cpu.carryOut bus prepare execute b =
      ⟨.error fault, ⟨prepared.core, memory₂, some ⟨fault, cpu.core.registers.pc⟩, cpu.config⟩, b₂,
        es ++ fs ++ [.event (.faulted cpu.core.registers.pc fault)]⟩ := by
  unfold carryOut
  simp only [hp, he]

theorem carryOut_granted (hp : prepare.run bus cpu.memory b = ⟨.ok prepared, memory, b₁, es⟩)
    (he : (execute prepared).run bus memory b₁ = ⟨.ok core, memory₂, b₂, fs⟩) :
    cpu.carryOut bus prepare execute b =
      ⟨.ok (prepared.operation.cost prepared.core.flags), ⟨core, memory₂, none, cpu.config⟩, b₂,
        es ++ fs⟩ := by
  unfold carryOut
  simp only [hp, he]

theorem carriedOut (bus : Bus β) (prepare : Cycles Prepared) (execute : Prepared → Cycles Core)
    (cpu : Cpu) (b : β) :
    CarriedOut bus prepare execute cpu b (cpu.carryOut bus prepare execute b) := by
  rcases hp : prepare.run bus cpu.memory b with ⟨fault | prepared, memory, b₁, es⟩
  · rw [carryOut_refused hp]
    exact .refused hp
  · rcases he : (execute prepared).run bus memory b₁ with ⟨fault | core, memory₂, b₂, fs⟩
    · rw [carryOut_failed hp he]
      exact .failed hp he
    · rw [carryOut_granted hp he]
      exact .granted hp he

/-- A step that is neither latched nor halted carries an instruction out. -/
theorem step_eq_carryOut (bus : Bus β) (b : β) (hl : cpu.latch = none)
    (hh : cpu.core.halted = false) :
    cpu.step bus b = cpu.carryOut bus (cpu.core.fetch cpu.config) (execution cpu.config) b := by
  simp only [step, hl, hh]
  rfl

/-- So does an interrupt that is accepted, with its opcode. -/
theorem interrupt_eq_carryOut (bus : Bus β) (code : Byte) (b : β)
    (ha : cpu.acceptsInterrupts = true) :
    cpu.interrupt bus code b =
      (cpu.carryOut bus (cpu.core.acknowledge cpu.config code)
        (fun p => return reenable cpu.config (← execution cpu.config p)) b).map some := by
  have hl : cpu.latch = none := by
    simp only [acceptsInterrupts, Bool.and_eq_true, Option.isNone_iff_eq_none] at ha
    exact ha.2
  simp only [interrupt, hl, ha, if_true]

end Intel8080.Cpu
