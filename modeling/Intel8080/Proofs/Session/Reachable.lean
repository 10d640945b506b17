import Intel8080.Proofs.Session.Underway

/-! The processors that can be reached from a new one by the calls on it: loading, steps,
interrupts, runs, the stack operations and resets, in any order, with any bus and any mailbox.
A halted one among them is sound asleep. -/

namespace Intel8080.Cpu

open Relation

/-- What a call other than a reset makes of a processor. A load that fails changes nothing. -/
inductive Call : Cpu → Cpu → Prop
  | load {cpu cpu' offset program} (h : cpu.load offset program = .ok cpu') : Call cpu cpu'
  | step {β : Type} (bus : Bus β) (cpu : Cpu) (b : β) : Call cpu (cpu.step bus b).cpu
  | interrupt {β : Type} (bus : Bus β) (code : Byte) (cpu : Cpu) (b : β) :
      Call cpu (cpu.interrupt bus code b).cpu
  | run {β : Type} {bus : Bus β} {limit : Option Nat} {s u : Session β} {xs : List Signal}
      {p : Progress} (h : s.Returns bus limit xs p u) : Call s.cpu u.cpu
  | call (target : Word) (cpu : Cpu) : Call cpu (cpu.call target).2
  | restart (n : Byte) (cpu : Cpu) : Call cpu (cpu.restart n).2
  | ret (cpu : Cpu) : Call cpu cpu.ret.2
  | push (p : StackPair) (cpu : Cpu) : Call cpu (cpu.push p).2
  | pop (p : StackPair) (cpu : Cpu) : Call cpu (cpu.pop p).2
  | pushPair (p : Pair) (cpu : Cpu) : Call cpu (cpu.pushPair p).2
  | popPair (p : Pair) (cpu : Cpu) : Call cpu (cpu.popPair p).2

inductive Reachable : Cpu → Prop
  | new {config cpu} (h : ofConfig config = .ok cpu) : Reachable cpu
  | call {cpu cpu'} (h : Reachable cpu) (hc : Call cpu cpu') : Reachable cpu'
  | reset {cpu} (h : Reachable cpu) : Reachable cpu.reset

/-- The latch and the control state are the same. -/
structure SameLatch (cpu cpu' : Cpu) : Prop where
  latch : cpu'.latch = cpu.latch
  control : Core.SameControl cpu.core cpu'.core

theorem manipulate_sameLatch {act : Core → Cycles Core} {cpu : Cpu}
    (h : (act cpu.core).Silent (Core.SameRest cpu.core)) :
    SameLatch cpu (cpu.manipulate act).2 := by
  unfold manipulate
  split
  next core memory hx =>
    exact ⟨rfl, (h.ensures.of_run (congrArg Prod.fst hx)).control⟩
  next => exact ⟨rfl, .refl _⟩

theorem push_sameLatch (p : StackPair) (cpu : Cpu) : SameLatch cpu (cpu.push p).2 :=
  manipulate_sameLatch (cpu.core.push_silent p)

theorem pop_sameLatch (p : StackPair) (cpu : Cpu) : SameLatch cpu (cpu.pop p).2 :=
  manipulate_sameLatch (cpu.core.pop_silent p)

/-- A call moves through steps and interrupts, or leaves latch and control state alone. -/
theorem Call.moves_or_sameLatch {cpu cpu' : Cpu} (h : Call cpu cpu') :
    ReflTransGen Move cpu cpu' ∨ SameLatch cpu cpu' := by
  cases h with
  | load h =>
    obtain ⟨memory, rfl⟩ := load_eq h
    exact .inr ⟨rfl, rfl, rfl, rfl⟩
  | step bus _ b => exact .inl (.single (.step bus cpu b))
  | interrupt bus code _ b => exact .inl (.single (.interrupt bus code cpu b))
  | run h => exact .inl h.moves
  | call target => exact .inr (manipulate_sameLatch (cpu.core.call_silent target))
  | restart n => exact .inr (manipulate_sameLatch (cpu.core.call_silent _))
  | ret => exact .inr (manipulate_sameLatch cpu.core.ret_silent)
  | push p => exact .inr (push_sameLatch p cpu)
  | pop p => exact .inr (pop_sameLatch p cpu)
  | pushPair p =>
    right
    unfold Cpu.pushPair
    split
    next q _ => exact push_sameLatch q cpu
    next => exact ⟨rfl, .refl _⟩
  | popPair p =>
    right
    unfold Cpu.popPair
    split
    next q _ => exact pop_sameLatch q cpu
    next => exact ⟨rfl, .refl _⟩

theorem SoundAsleep.sameLatch {cpu cpu' : Cpu} (h : SoundAsleep cpu) (hs : SameLatch cpu cpu') :
    SoundAsleep cpu' := by
  refine ⟨fun hh => ?_, fun l hl hh => ?_⟩
  · rw [hs.control.halted] at hh
    rw [hs.control.shadow]
    exact h.unshadowed hh
  · rw [hs.control.halted] at hh
    rw [hs.latch] at hl
    rw [hs.control.interruptsEnabled]
    exact h.turnedDown l hl hh

theorem Reachable.soundAsleep {cpu : Cpu} (h : Reachable cpu) : SoundAsleep cpu := by
  induction h with
  | new h =>
    rw [← (ofConfig_reset h).1]
    exact .of_awake rfl
  | call _ hc ih =>
    rcases hc.moves_or_sameLatch with hm | hs
    · exact ih.moves hm
    · exact ih.sameLatch hs
  | reset => exact .of_awake rfl

end Intel8080.Cpu
