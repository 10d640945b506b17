import Intel8080.Proofs.Cpu.Boundary
import Mathlib.Logic.Relation

/-! What a halted processor can be: it is never under the shadow of an EI, and if it is latched
on a fault, that was an interrupt opcode turned down while it slept, with interrupts still on.
Every step and every offered interrupt keeps this. -/

namespace Intel8080

/-- The fault is that of an interrupt opcode that was turned down. -/
def Latch.TurnedDown (l : Latch) : Prop :=
  ∃ code, l.fault = .multiByteInterrupt code ∨ l.fault = .undefinedOpcode code l.pc

/-- An operation that halts is not an EI, so it leaves no shadow. -/
theorem Core.Controlled.unshadowed {d : Bool} {op : Operation} {c c' : Core}
    (hc : Controlled d op c c') (hh : c.halted = false) (hs : c.shadow = false)
    (hh' : c'.halted = true) : c'.shadow = false := by
  have hop : op = .hlt := by
    by_contra hop
    rw [hc.halted, if_neg hop, hh] at hh'
    cases hh'
  subst hop
  exact hc.shadow.trans hs

namespace Cpu

open Relation

/-- A step or an offered interrupt, whatever the bus. -/
inductive Move : Cpu → Cpu → Prop
  | step {β : Type} (bus : Bus β) (cpu : Cpu) (b : β) : Move cpu (cpu.step bus b).cpu
  | interrupt {β : Type} (bus : Bus β) (code : Byte) (cpu : Cpu) (b : β) :
      Move cpu (cpu.interrupt bus code b).cpu

/-- What holds of a processor while it is halted. -/
structure SoundAsleep (cpu : Cpu) : Prop where
  unshadowed : cpu.core.halted = true → cpu.core.shadow = false
  turnedDown : ∀ l, cpu.latch = some l → cpu.core.halted = true →
    cpu.core.interruptsEnabled = true ∧ l.TurnedDown

namespace SoundAsleep

theorem of_awake {cpu : Cpu} (h : cpu.core.halted = false) : SoundAsleep cpu := by
  refine ⟨fun hh => ?_, fun l hl hh => ?_⟩ <;>
    · rw [h] at hh
      cases hh

theorem stepped {cpu cpu' : Cpu} {r : Except Fault Nat} (h : SoundAsleep cpu)
    (hs : Stepped cpu r cpu') : SoundAsleep cpu' := by
  cases hs with
  | latched | idle => exact h
  | faulted _ _ hc => exact of_awake hc
  | executed _ hh hc => exact ⟨fun hh' => hc.unshadowed hh rfl hh', nofun⟩

theorem offered {cpu cpu' : Cpu} {code : Byte} {r : Except Fault (Option Nat)}
    (h : SoundAsleep cpu) (ho : Offered cpu code r cpu') : SoundAsleep cpu' := by
  cases ho with
  | latched | declined => exact h
  | refused ha hf =>
    refine ⟨h.unshadowed, ?_⟩
    intro l hl _
    obtain rfl := Option.some.inj hl
    exact ⟨(acceptsInterrupts_eq_true.mp ha).1, code, hf⟩
  | failed _ hc => exact of_awake hc
  | taken ha hc =>
    refine ⟨fun hh' => ?_, nofun⟩
    rw [reenable_halted] at hh'
    rw [reenable_shadow]
    exact hc.unshadowed rfl (acceptsInterrupts_eq_true.mp ha).2.1 hh'

theorem move {cpu cpu' : Cpu} (h : SoundAsleep cpu) (hm : Move cpu cpu') : SoundAsleep cpu' := by
  cases hm with
  | step bus _ b => exact h.stepped (step_stepped bus cpu b)
  | interrupt bus code _ b => exact h.offered (interrupt_offered bus code cpu b)

theorem moves {cpu cpu' : Cpu} (h : SoundAsleep cpu) (hm : ReflTransGen Move cpu cpu') :
    SoundAsleep cpu' := by
  induction hm with
  | refl => exact h
  | tail _ hm ih => exact ih.move hm

end SoundAsleep

end Cpu

end Intel8080
