import Intel8080.Proofs.Cpu.CarryOut
import Intel8080.Proofs.Manual.Agreement
import Mathlib.Tactic.IntervalCases

/-! A step of a running processor performs the instruction that stands at the program counter, as
the manual gives it, and leaves everything else as it was. -/

namespace Intel8080.Manual

variable {β : Type}

/-- A processor and its bus as a machine that has let nothing out yet. -/
def machine (cpu : Cpu) (b : β) : Machine β := ⟨cpu.core, cpu.memory.peek, b, []⟩

/-- What is left of a step that did the instruction, and nothing but the instruction. -/
structure Performed (bus : Bus β) (i : Instruction) (cpu : Cpu) (b : β) (r : Reply Nat β) :
    Prop where
  states : r.result = .ok (i.cost cpu.core.flags)
  core : r.cpu.core = (i.perform bus cpu.config.delayedEi (machine cpu b)).toCore
  memory : r.cpu.memory.peek = (i.perform bus cpu.config.delayedEi (machine cpu b)).memory
  device : r.bus = (i.perform bus cpu.config.delayedEi (machine cpu b)).device
  emitted : r.emitted =
    i.reading cpu.core :: i.notes cpu.core.registers.pc ++
      (i.perform bus cpu.config.delayedEi (machine cpu b)).emitted
  size : r.cpu.memory.size = cpu.memory.size
  latch : r.cpu.latch = none
  config : r.cpu.config = cpu.config

namespace Instruction

/-- The program counter behind an instruction that leaves a note points right behind its opcode. -/
theorem notes_fetched (i : Instruction) (s : Machine β) :
    i.notes ((i.fetched s).registers.pc - 1) = i.notes s.registers.pc := by
  have h : s.registers.pc + 1 - 1 = s.registers.pc := UInt16.add_sub_cancel _ _
  cases i with
  | hlt => exact congrArg (fun pc => [Emission.event (.haltedAt pc)]) h
  | _ => rfl

/-- A step at an instruction, if no access is refused, performs that instruction and no more. -/
theorem step_performed (bus : Bus β) (i : Instruction) (cpu : Cpu) (b : β)
    (hl : cpu.latch = none) (hh : cpu.core.halted = false)
    (hat : i.StandsAt cpu.memory cpu.core.registers.pc)
    (hok : ∃ n, (cpu.step bus b).result = .ok n) :
    Performed bus i cpu b (cpu.step bus b) := by
  obtain ⟨n, hn⟩ := hok
  have hc := Cpu.carriedOut bus (cpu.core.fetch cpu.config) (Cpu.execution cpu.config) cpu b
  rw [Cpu.step_eq_carryOut bus b hl hh] at hn ⊢
  generalize cpu.carryOut bus (cpu.core.fetch cpu.config) (Cpu.execution cpu.config) b = r
    at hc hn ⊢
  cases hc with
  | refused hp => cases hn
  | failed hp he => cases hn
  | @granted prepared memory b₁ es core memory₂ b₂ fs hp he =>
    have hpeek : ∀ k (h : k < i.bytes.length),
        cpu.memory.peek (cpu.core.registers.pc + UInt16.ofNat k) = i.bytes[k] :=
      fun k h => Memory.peek_of_read (hat k h)
    obtain ⟨hfetched, hsize⟩ := Cycles.flat_of_run_eq hp
    obtain ⟨hexecuted, hsize₂⟩ := Cycles.flat_of_run_eq he
    have hfetch := fetch_flat bus cpu.config i (machine cpu b) hpeek
    rw [machine, hfetched] at hfetch
    obtain ⟨hprepared, hmemory, hdevice, hes⟩ := FlatTrail.mk.inj hfetch
    obtain rfl := Except.ok.inj hprepared
    have hexecute := execute_flat bus cpu.config.delayedEi i (i.fetched (machine cpu b)) rfl rfl
    rw [hmemory, hdevice] at hexecuted
    obtain ⟨hcore, hmemory₂, hdevice₂, hfs⟩ := FlatTrail.mk.inj (hexecuted.symm.trans hexecute)
    rw [notes_fetched] at hfs
    exact
      { states := congrArg Except.ok (cost_operation i _)
        core := Except.ok.inj hcore
        memory := hmemory₂
        device := hdevice₂
        emitted := by rw [hes, hfs]; rfl
        size := hsize₂.trans hsize
        latch := rfl
        config := rfl }

/-- A processor at a conditional call, with room for the return address behind it. -/
def atConditionalCall : Cpu where
  core := { registers := { sp := 8 } }
  memory := ⟨#[0xC4, 0x05, 0x00, 0, 0, 0, 0, 0], by decide, by decide⟩
  latch := none
  config := { memorySize := 8 }

/-- The call is taken, which costs 17 states. -/
theorem step_performed_conditional_call :
    (ccc .notZero 5).StandsAt atConditionalCall.memory 0 ∧
      (atConditionalCall.step Bus.null ()).result = .ok 17 ∧
      Performed Bus.null (ccc .notZero 5) atConditionalCall ()
        (atConditionalCall.step Bus.null ()) := by
  have hat : (ccc .notZero 5).StandsAt atConditionalCall.memory 0 := by
    intro k h
    have hk : k < 3 := h
    interval_cases k <;> rfl
  have hok : (atConditionalCall.step Bus.null ()).result = .ok 17 := rfl
  exact ⟨hat, hok, step_performed Bus.null (ccc .notZero 5) atConditionalCall () rfl rfl hat
    ⟨17, hok⟩⟩

end Instruction

end Intel8080.Manual
