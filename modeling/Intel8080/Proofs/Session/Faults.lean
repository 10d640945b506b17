import Intel8080.Proofs.Cpu.Demands
import Intel8080.Proofs.Session.Reachable

/-! Which faults there can be. Steps and interrupts raise three of the six: an address beyond
memory, an undefined opcode, and an interrupt opcode that needs more bytes. The others belong to
calls from outside the program, so no run ever shows them. Where memory spans the address space and
undefined opcodes run as aliases, a program raises none at all. -/

namespace Intel8080

open Relation

/-- The fault that each demand raises when it is not met. -/
inductive Demand.Raises (size : Nat) : Demand → Fault → Prop
  | access (addr : Word) : Raises size (.access addr) (.addressOutOfRange addr size)
  | opcode (code : Byte) (pc : Word) : Raises size (.opcode code pc) (.undefinedOpcode code pc)
  | supply (code : Byte) : Raises size (.supply code) (.multiByteInterrupt code)

theorem Demand.raises_of_refusal? {d : Demand} {config : Config} {size : Nat} {f : Fault}
    (h : d.refusal? config size = some f) : d.Raises size f := by
  cases d with
  | access addr =>
    simp only [refusal?, outOfRange?] at h
    split at h <;> cases h
    exact .access addr
  | opcode code pc =>
    simp only [refusal?] at h
    split at h
    · cases h
    · split at h <;> cases h
      exact .opcode code pc
  | supply code =>
    simp only [refusal?] at h
    split at h <;> cases h
    exact .supply code

/-- A fault that some demand raises. -/
def Fault.Raised (f : Fault) : Prop := ∃ size d, Demand.Raises size d f

theorem Fault.Raised.ne_invalidStackOperand {f : Fault} (h : f.Raised) (p : Pair) :
    f ≠ .invalidStackOperand p := by
  obtain ⟨size, d, h⟩ := h
  cases h <;> nofun

/-- A memory that spans the address space and aliases leave an interrupt opcode as the only demand
that may not be met. -/
theorem Demand.met {d : Demand} {config : Config} (hp : config.undefinedOpcodes = .alias)
    (hs : ∀ code, d = .supply code → (Operation.decode code).immediate = .none) :
    d.refusal? config maxMemorySize = none := by
  cases d with
  | access addr => exact if_pos addr.toNat_lt
  | opcode code pc =>
    simp only [Demand.refusal?, hp]
    exact ite_self none
  | supply code => exact if_pos (hs code rfl)

namespace Cpu

variable {β : Type} {bus : Bus β} {cpu cpu' : Cpu} {code : Byte} {b : β} {f : Fault}

/-! ### Faults that are never raised -/

theorem step_raised (hl : cpu.latch = none) (h : (cpu.step bus b).result = .error f) :
    ∃ d ∈ cpu.demands, d.Raises cpu.memory.size f := by
  cases hh : cpu.core.halted with
  | true => simp [step, hl, hh] at h
  | false =>
    rw [step_eq_error_iff hl hh] at h
    obtain ⟨d, hd, hf⟩ := List.exists_of_findSome?_eq_some h
    exact ⟨d, hd, Demand.raises_of_refusal? hf⟩

theorem interrupt_raised (hl : cpu.latch = none)
    (h : (cpu.interrupt bus code b).result = .error f) : f.Raised := by
  cases ha : cpu.acceptsInterrupts with
  | false => simp [interrupt, hl, ha] at h
  | true =>
    rw [interrupt_eq_error_iff ha] at h
    obtain ⟨d, -, hf⟩ := List.exists_of_findSome?_eq_some h
    exact ⟨_, d, Demand.raises_of_refusal? hf⟩

/-- A fault that is latched was raised by a step or an interrupt. -/
def LatchRaised (cpu : Cpu) : Prop := ∀ l, cpu.latch = some l → l.fault.Raised

namespace LatchRaised

theorem of_unlatched (hl : cpu.latch = none) : LatchRaised cpu := by
  intro l hl'
  rw [hl] at hl'
  cases hl'

theorem step (h : LatchRaised cpu) (hr : (cpu.step bus b).result = .error f) : f.Raised := by
  cases hl : cpu.latch with
  | none =>
    obtain ⟨d, -, hf⟩ := step_raised hl hr
    exact ⟨_, d, hf⟩
  | some l =>
    simp only [Cpu.step, hl] at hr
    obtain rfl := Except.error.inj hr
    exact h l hl

theorem interrupt (h : LatchRaised cpu) (hr : (cpu.interrupt bus code b).result = .error f) :
    f.Raised := by
  cases hl : cpu.latch with
  | none => exact interrupt_raised hl hr
  | some l =>
    simp only [Cpu.interrupt, hl] at hr
    obtain rfl := Except.error.inj hr
    exact h l hl

/-- What was latched is the fault that a call answered with. -/
theorem of_result {α : Type} {r : Except Fault α} (hok : ∀ a, r = .ok a → cpu.latch = none)
    (herror : ∀ f, r = .error f → f.Raised ∧ ∃ pc, cpu.latch = some ⟨f, pc⟩) :
    LatchRaised cpu := by
  cases r with
  | ok a => exact of_unlatched (hok a rfl)
  | error f =>
    obtain ⟨hf, pc, hpc⟩ := herror f rfl
    intro l hl
    rw [hpc] at hl
    obtain rfl := Option.some.inj hl
    exact hf

theorem move (h : LatchRaised cpu) (hm : Move cpu cpu') : LatchRaised cpu' := by
  cases hm with
  | step bus _ b =>
    have hs := step_stepped bus cpu b
    refine of_result (r := (cpu.step bus b).result) (fun n hr => ?_) fun f hr => ?_
    · rw [hr] at hs
      exact hs.unlatched
    · rw [hr] at hs
      exact ⟨h.step hr, hs.faultLatched⟩
  | interrupt bus code _ b =>
    have ho := interrupt_offered bus code cpu b
    refine of_result (r := (cpu.interrupt bus code b).result) (fun n hr => ?_) fun f hr => ?_
    · rw [hr] at ho
      exact ho.unlatched
    · rw [hr] at ho
      exact ⟨h.interrupt hr, ho.faultLatched⟩

theorem moves (h : LatchRaised cpu) (hm : ReflTransGen Move cpu cpu') : LatchRaised cpu' := by
  induction hm with
  | refl => exact h
  | tail _ hm ih => exact ih.move hm

end LatchRaised

theorem Reachable.latchRaised (h : Reachable cpu) : LatchRaised cpu := by
  induction h with
  | new h =>
    rw [← (ofConfig_reset h).1]
    exact .of_unlatched rfl
  | call _ hc ih =>
    rcases hc.moves_or_sameLatch with hm | hs
    · exact ih.moves hm
    · intro l hl
      rw [hs.latch] at hl
      exact ih l hl
  | reset => exact .of_unlatched rfl

/-! ### No faults at all -/

/-- A step, or the offer of an interrupt opcode without operand bytes. -/
inductive Advance : Cpu → Cpu → Prop
  | step {β : Type} (bus : Bus β) (cpu : Cpu) (b : β) : Advance cpu (cpu.step bus b).cpu
  | interrupt {β : Type} (bus : Bus β) (code : Byte) (cpu : Cpu) (b : β)
      (h : (Operation.decode code).immediate = .none) : Advance cpu (cpu.interrupt bus code b).cpu

/-- Every demand of the processor is met. -/
structure Unfailing (cpu : Cpu) : Prop where
  latch : cpu.latch = none
  size : cpu.memory.size = maxMemorySize
  policy : cpu.config.undefinedOpcodes = .alias

theorem carryOut_keeps (bus : Bus β) (prepare : Cycles Prepared) (execute : Prepared → Cycles Core)
    (cpu : Cpu) (b : β) :
    (cpu.carryOut bus prepare execute b).cpu.memory.size = cpu.memory.size ∧
      (cpu.carryOut bus prepare execute b).cpu.config = cpu.config := by
  have hc := carriedOut bus prepare execute cpu b
  generalize cpu.carryOut bus prepare execute b = r at hc ⊢
  cases hc with
  | refused hp =>
    have hsize := Cycles.size_run bus prepare cpu.memory b
    rw [hp] at hsize
    exact ⟨hsize, rfl⟩
  | @failed p memory b₁ _ _ _ _ _ hp he | @granted p memory b₁ _ _ _ _ _ hp he =>
    have hsize := Cycles.size_run bus prepare cpu.memory b
    have hsize' := Cycles.size_run bus (execute p) memory b₁
    rw [hp] at hsize
    rw [he] at hsize'
    exact ⟨hsize'.trans hsize, rfl⟩

theorem step_keeps (bus : Bus β) (cpu : Cpu) (b : β) :
    (cpu.step bus b).cpu.memory.size = cpu.memory.size ∧
      (cpu.step bus b).cpu.config = cpu.config := by
  unfold step
  split
  · exact ⟨rfl, rfl⟩
  · split
    · exact ⟨rfl, rfl⟩
    · exact carryOut_keeps bus _ _ cpu b

theorem interrupt_keeps (bus : Bus β) (code : Byte) (cpu : Cpu) (b : β) :
    (cpu.interrupt bus code b).cpu.memory.size = cpu.memory.size ∧
      (cpu.interrupt bus code b).cpu.config = cpu.config := by
  unfold interrupt
  split
  · exact ⟨rfl, rfl⟩
  · split
    · exact carryOut_keeps bus _ _ cpu b
    · exact ⟨rfl, rfl⟩

namespace Unfailing

theorem step_ok (h : Unfailing cpu) (bus : Bus β) (b : β) :
    ∃ n, (cpu.step bus b).result = .ok n := by
  cases hr : (cpu.step bus b).result with
  | ok n => exact ⟨n, rfl⟩
  | error f =>
    exfalso
    cases hh : cpu.core.halted with
    | true => simp [step, h.latch, hh] at hr
    | false =>
      have hnone : cpu.demands.findSome? (Demand.refusal? cpu.config cpu.memory.size) = none := by
        rw [List.findSome?_eq_none_iff, h.size]
        intro d hd
        refine Demand.met h.policy ?_
        rintro code rfl
        simp [demands] at hd
      rw [step_eq_error_iff h.latch hh, hnone] at hr
      cases hr

theorem interrupt_ok (h : Unfailing cpu) (bus : Bus β) (b : β)
    (hcode : (Operation.decode code).immediate = .none) :
    ∃ n, (cpu.interrupt bus code b).result = .ok n := by
  cases hr : (cpu.interrupt bus code b).result with
  | ok n => exact ⟨n, rfl⟩
  | error f =>
    exfalso
    cases ha : cpu.acceptsInterrupts with
    | false => simp [interrupt, h.latch, ha] at hr
    | true =>
      have hnone : (cpu.interruptDemands code).findSome?
          (Demand.refusal? cpu.config cpu.memory.size) = none := by
        rw [List.findSome?_eq_none_iff, h.size]
        intro d hd
        refine Demand.met h.policy ?_
        rintro code' rfl
        obtain rfl : code' = code := by simpa [interruptDemands] using hd
        exact hcode
      rw [interrupt_eq_error_iff ha, hnone] at hr
      cases hr

theorem advance (h : Unfailing cpu) (ha : Advance cpu cpu') : Unfailing cpu' := by
  cases ha with
  | step bus _ b =>
    obtain ⟨hsize, hconfig⟩ := step_keeps bus cpu b
    have hs := step_stepped bus cpu b
    obtain ⟨n, hn⟩ := h.step_ok bus b
    rw [hn] at hs
    exact ⟨hs.unlatched, hsize.trans h.size, by rw [hconfig, h.policy]⟩
  | interrupt bus code _ b hcode =>
    obtain ⟨hsize, hconfig⟩ := interrupt_keeps bus code cpu b
    have ho := interrupt_offered bus code cpu b
    obtain ⟨n, hn⟩ := h.interrupt_ok bus b hcode
    rw [hn] at ho
    exact ⟨ho.unlatched, hsize.trans h.size, by rw [hconfig, h.policy]⟩

theorem advances (h : Unfailing cpu) (ha : ReflTransGen Advance cpu cpu') : Unfailing cpu' := by
  induction ha with
  | refl => exact h
  | tail _ ha ih => exact ih.advance ha

end Unfailing

end Cpu

namespace Session

theorem Returns.raised {β : Type} {bus : Bus β} {limit : Option Nat} {s u : Session β}
    {xs : List Signal} {f : Fault} (h : Returns bus limit s xs (.faulted f) u)
    (hs : s.cpu.LatchRaised) : f.Raised := by
  cases h with
  | faulted h hr =>
    have ht := hs.moves h.moves
    cases rounded_of_round hr with
    | serviceFaulted _ _ _ hres => exact ht.interrupt hres
    | stepFaulted _ _ _ hres => exact ht.step hres

end Session

namespace Cpu

/-- A step faults exactly with the first demand that is not met, and with no fault that belongs to
other calls; nor do interrupts and runs raise the fault of a stack call. Where no demand can fail,
nothing ever faults. -/
theorem step_faults_exactly :
    (∀ {β : Type} (bus : Bus β) (cpu : Cpu) (b : β) (f : Fault), cpu.latch = none →
      cpu.core.halted = false →
        ((cpu.step bus b).result = .error f ↔
          cpu.demands.findSome? (Demand.refusal? cpu.config cpu.memory.size) = some f) ∧
        ((cpu.step bus b).result = .error f →
          (∀ pair, f ≠ .invalidStackOperand pair) ∧ (∀ code, f ≠ .multiByteInterrupt code) ∧
            (∀ size offset capacity, f ≠ .programTooLarge size offset capacity) ∧
            ∀ size, f ≠ .invalidMemorySize size)) ∧
      (∀ {β : Type} (bus : Bus β) (s : Session β), s.cpu.latch = none ∨ s.cpu.Reachable →
        (∀ code b pair, (s.cpu.interrupt bus code b).result ≠ .error (.invalidStackOperand pair)) ∧
          ∀ limit xs u pair,
            ¬ Session.Returns bus limit s xs (.faulted (.invalidStackOperand pair)) u) ∧
      ∀ cpu cpu' : Cpu, cpu.latch = none → cpu.memory.size = 65536 →
        cpu.config.undefinedOpcodes = .alias → ReflTransGen Advance cpu cpu' →
        cpu'.latch = none ∧ ∀ {β : Type} (bus : Bus β) (b : β),
          (∃ n, (cpu'.step bus b).result = .ok n) ∧
            ∀ code, (Operation.decode code).immediate = .none →
              ∃ n, (cpu'.interrupt bus code b).result = .ok n := by
  refine ⟨?_, ?_, ?_⟩
  · intro β bus cpu b f hl hh
    refine ⟨step_eq_error_iff hl hh, fun h => ?_⟩
    obtain ⟨d, hd, hf⟩ := step_raised hl h
    cases hf with
    | access | opcode => exact ⟨nofun, nofun, nofun, nofun⟩
    | supply => simp [demands] at hd
  · intro β bus s hs
    have hraised : s.cpu.LatchRaised := by
      rcases hs with hl | hr
      · exact .of_unlatched hl
      · exact hr.latchRaised
    refine ⟨fun code b pair h => ?_, fun limit xs u pair h => ?_⟩
    · exact (hraised.interrupt h).ne_invalidStackOperand pair rfl
    · exact (h.raised hraised).ne_invalidStackOperand pair rfl
  · intro cpu cpu' hl hs hp ha
    have h := (Unfailing.mk hl hs hp).advances ha
    exact ⟨h.latch, fun bus b => ⟨h.step_ok bus b, fun _ hcode => h.interrupt_ok bus b hcode⟩⟩

/-- A processor at a PUSH whose second byte would go below address zero. -/
def atPush : Cpu where
  core := { registers := { sp := 1 } }
  memory := ⟨#[0xC5, 0, 0, 0], by decide, by decide⟩
  latch := none
  config := { memorySize := 4 }

/-- A new processor with all the memory that it can address. -/
def spanning : Cpu where
  core := Core.initial { memorySize := maxMemorySize }
  memory := ⟨Array.replicate maxMemorySize 0, by simp [maxMemorySize], by simp⟩
  latch := none
  config := { memorySize := maxMemorySize }

/-- The PUSH faults, and in a run it does so as well. -/
theorem step_faults_exactly_push :
    (atPush.step Bus.null ()).result = .error (.addressOutOfRange 0xFFFF 4) ∧
      (∃ u : Session Unit, Session.Returns Bus.null none { cpu := atPush, device := () } []
        (.faulted (.addressOutOfRange 0xFFFF 4)) u) ∧
      (∀ pair, (atPush.interrupt Bus.null 0xC5 ()).result ≠ .error (.invalidStackOperand pair)) ∧
      ∀ cpu, ReflTransGen Advance spanning cpu → cpu.latch = none := by
  have hpush := (step_faults_exactly.1 Bus.null atPush () (.addressOutOfRange 0xFFFF 4) rfl rfl).1
  refine ⟨hpush.mpr rfl, ⟨_, .faulted .start rfl⟩, fun pair => ?_, fun cpu h => ?_⟩
  · exact (step_faults_exactly.2.1 Bus.null { cpu := atPush, device := () } (.inl rfl)).1 _ _ _
  · have hsize : spanning.memory.size = 65536 := Array.size_replicate
    exact (step_faults_exactly.2.2 spanning cpu rfl hsize rfl h).1

end Cpu

end Intel8080
