import Intel8080.Proofs.Cpu.Control
import Intel8080.Proofs.Cpu.Preparation

/-! From one instruction boundary to the next: what a step and an offered interrupt answer, and
what they do to the latch and to the control state. Invariants over many boundaries only need
the cases given here. -/

namespace Intel8080.Cpu

variable {β : Type}

/-- What a step answers and leaves behind. -/
inductive Stepped (cpu : Cpu) : Except Fault Nat → Cpu → Prop
  | latched {l} (hl : cpu.latch = some l) : Stepped cpu (.error l.fault) cpu
  | idle (hl : cpu.latch = none) (hh : cpu.core.halted = true) : Stepped cpu (.ok 0) cpu
  | faulted {fault core memory} (hl : cpu.latch = none) (hh : cpu.core.halted = false)
      (hc : core.halted = false) :
      Stepped cpu (.error fault) ⟨core, memory, some ⟨fault, cpu.core.registers.pc⟩, cpu.config⟩
  | executed {n core memory} (hl : cpu.latch = none) (hh : cpu.core.halted = false)
      (hc : Core.Controlled cpu.config.delayedEi
        (Operation.decode (cpu.memory.peek cpu.core.registers.pc))
        { cpu.core with shadow := false } core) :
      Stepped cpu (.ok n) ⟨core, memory, none, cpu.config⟩

/-- What an offered interrupt answers and leaves behind. -/
inductive Offered (cpu : Cpu) (code : Byte) : Except Fault (Option Nat) → Cpu → Prop
  | latched {l} (hl : cpu.latch = some l) : Offered cpu code (.error l.fault) cpu
  | declined (hl : cpu.latch = none) (ha : cpu.acceptsInterrupts = false) :
      Offered cpu code (.ok none) cpu
  /-- The opcode is turned down, and a halted processor does not wake. -/
  | refused {fault memory} (ha : cpu.acceptsInterrupts = true)
      (hf : fault = .multiByteInterrupt code ∨
        fault = .undefinedOpcode code cpu.core.registers.pc) :
      Offered cpu code (.error fault)
        ⟨cpu.core, memory, some ⟨fault, cpu.core.registers.pc⟩, cpu.config⟩
  | failed {fault core memory} (ha : cpu.acceptsInterrupts = true) (hc : core.halted = false) :
      Offered cpu code (.error fault)
        ⟨core, memory, some ⟨fault, cpu.core.registers.pc⟩, cpu.config⟩
  | taken {n core memory} (ha : cpu.acceptsInterrupts = true)
      (hc : Core.Controlled cpu.config.delayedEi (Operation.decode code)
        { cpu.core with interruptsEnabled := false, halted := false } core) :
      Offered cpu code (.ok (some n)) ⟨reenable cpu.config core, memory, none, cpu.config⟩

/-! ### The latch tells the fault -/

theorem Stepped.unlatched {cpu cpu' : Cpu} {n : Nat} (h : Stepped cpu (.ok n) cpu') :
    cpu'.latch = none := by
  cases h with
  | idle hl _ => exact hl
  | executed => rfl

theorem Stepped.faultLatched {cpu cpu' : Cpu} {fault : Fault} (h : Stepped cpu (.error fault) cpu') :
    ∃ pc, cpu'.latch = some ⟨fault, pc⟩ := by
  cases h with
  | @latched l hl => exact ⟨l.pc, hl⟩
  | faulted => exact ⟨_, rfl⟩

theorem Offered.unlatched {cpu cpu' : Cpu} {code : Byte} {r : Option Nat}
    (h : Offered cpu code (.ok r) cpu') : cpu'.latch = none := by
  cases h with
  | declined hl _ => exact hl
  | taken => rfl

theorem Offered.faultLatched {cpu cpu' : Cpu} {code : Byte} {fault : Fault}
    (h : Offered cpu code (.error fault) cpu') : ∃ pc, cpu'.latch = some ⟨fault, pc⟩ := by
  cases h with
  | @latched l hl => exact ⟨l.pc, hl⟩
  | refused | failed => exact ⟨_, rfl⟩

/-! ### What a call does is one of these -/

theorem step_stepped (bus : Bus β) (cpu : Cpu) (b : β) :
    Stepped cpu (cpu.step bus b).result (cpu.step bus b).cpu := by
  cases hl : cpu.latch with
  | some l =>
    simp only [step, hl]
    exact .latched hl
  | none =>
    cases hh : cpu.core.halted with
    | true =>
      simp only [step, hl, hh]
      exact .idle hl hh
    | false =>
      rw [step_eq_carryOut bus b hl hh]
      have hc := carriedOut bus (cpu.core.fetch cpu.config) (execution cpu.config) cpu b
      generalize cpu.carryOut bus (cpu.core.fetch cpu.config) (execution cpu.config) b = r at hc ⊢
      cases hc with
      | refused hp => exact .faulted hl hh hh
      | failed hp he =>
        have hprep := Core.fetch_prepared (congrArg Trail.result hp)
        subst hprep
        exact .faulted hl hh hh
      | @granted p _ _ _ core _ _ _ hp he =>
        have hx : (execution cpu.config p).Ensures
            (Core.Controlled cpu.config.delayedEi p.operation p.core) :=
          p.core.execute_controlled _ _ _
        have hx := hx.of_run (congrArg Trail.result he)
        have hprep := Core.fetch_prepared (congrArg Trail.result hp)
        subst hprep
        exact .executed hl hh ⟨hx.1, hx.2, hx.3⟩

theorem acceptsInterrupts_eq_true {cpu : Cpu} :
    cpu.acceptsInterrupts = true ↔
      cpu.core.interruptsEnabled = true ∧ cpu.core.shadow = false ∧ cpu.latch = none := by
  simp [acceptsInterrupts, and_assoc]

theorem interrupt_offered (bus : Bus β) (code : Byte) (cpu : Cpu) (b : β) :
    Offered cpu code (cpu.interrupt bus code b).result (cpu.interrupt bus code b).cpu := by
  cases hl : cpu.latch with
  | some l =>
    simp only [interrupt, hl]
    exact .latched hl
  | none =>
    cases ha : cpu.acceptsInterrupts with
    | false =>
      simp only [interrupt, hl, ha]
      exact .declined hl ha
    | true =>
      simp only [interrupt, hl, ha, if_true, Reply.map]
      have hc := carriedOut bus (cpu.core.acknowledge cpu.config code)
        (fun p => return reenable cpu.config (← execution cpu.config p)) cpu b
      generalize cpu.carryOut bus (cpu.core.acknowledge cpu.config code)
        (fun p => return reenable cpu.config (← execution cpu.config p)) b = r at hc ⊢
      cases hc with
      | refused hp => exact .refused ha (Core.acknowledge_refused (congrArg Trail.result hp))
      | failed hp he =>
        have hprep := Core.acknowledge_prepared (congrArg Trail.result hp)
        subst hprep
        exact .failed ha rfl
      | @granted p _ _ _ core _ _ _ hp he =>
        have hprep := Core.acknowledge_prepared (congrArg Trail.result hp)
        have hx : (p.core.execute cpu.config.delayedEi p.operation p.immediate >>=
            fun c => pure (reenable cpu.config c)).Ensures fun c' =>
              ∃ c, Core.Controlled cpu.config.delayedEi p.operation p.core c ∧
                c' = reenable cpu.config c := by
          rw [Cycles.ensures_bind]
          exact (p.core.execute_controlled _ _ _).mono fun c hc => ⟨c, hc, rfl⟩
        obtain ⟨c, hc, rfl⟩ := hx.of_run (congrArg Trail.result he)
        subst hprep
        exact .taken ha hc

/-- An interrupt that is accepted is not passed over: it executes or faults. -/
theorem interrupt_ne_none {cpu : Cpu} (bus : Bus β) {code : Byte} (b : β)
    (ha : cpu.acceptsInterrupts = true) : (cpu.interrupt bus code b).result ≠ .ok none := by
  intro h
  have hi := interrupt_offered bus code cpu b
  rw [h] at hi
  generalize (cpu.interrupt bus code b).cpu = cpu' at hi
  cases hi with
  | declined _ hn =>
    rw [ha] at hn
    cases hn

/-- A new processor is one that was just reset. -/
theorem ofConfig_reset {config : Config} {cpu : Cpu} (h : ofConfig config = .ok cpu) :
    cpu.reset = cpu ∧ cpu.config = config := by
  unfold ofConfig at h
  cases hm : Memory.ofSize config.memorySize with
  | error fault =>
    rw [hm] at h
    cases h
  | ok memory =>
    rw [hm] at h
    cases h
    exact ⟨rfl, rfl⟩

/-- Loading a program moves the program counter, and beside memory nothing else. -/
theorem load_eq {cpu cpu' : Cpu} {offset : Word} {program : Array Byte}
    (h : cpu.load offset program = .ok cpu') :
    ∃ memory, cpu' = { cpu with memory, core := cpu.core.jump offset } := by
  unfold load at h
  cases hm : cpu.memory.load offset program with
  | error fault =>
    rw [hm] at h
    cases h
  | ok memory =>
    rw [hm] at h
    cases h
    exact ⟨memory, rfl⟩

@[simp] theorem reenable_interruptsEnabled (config : Config) (c : Core) :
    (reenable config c).interruptsEnabled =
      (decide (config.interruptPolicy = .autoReenable) || c.interruptsEnabled) := by
  unfold reenable
  split <;> simp_all

@[simp] theorem reenable_registers (config : Config) (c : Core) :
    (reenable config c).registers = c.registers := by
  unfold reenable
  split <;> rfl

@[simp] theorem reenable_shadow (config : Config) (c : Core) :
    (reenable config c).shadow = c.shadow := by
  unfold reenable
  split <;> rfl

@[simp] theorem reenable_halted (config : Config) (c : Core) :
    (reenable config c).halted = c.halted := by
  unfold reenable
  split <;> rfl

end Intel8080.Cpu
