import Intel8080.Proofs.Session.Reachable

/-! A latched fault stays until a reset. Steps and interrupts repeat it and change nothing. A run
repeats it too, unless the fault was an interrupt opcode turned down while the processor slept:
the processor is still halted then, and a run waits for signals that it cannot take, or reports
the halt once no sender is left. -/

namespace Intel8080

open Relation Mailbox Session

namespace Cpu

theorem step_latched {β : Type} {cpu : Cpu} {l : Latch} (hl : cpu.latch = some l) (bus : Bus β)
    (b : β) : cpu.step bus b = ⟨.error l.fault, cpu, b, []⟩ := by
  simp only [step, hl]

theorem interrupt_latched {β : Type} {cpu : Cpu} {l : Latch} (hl : cpu.latch = some l)
    (bus : Bus β) (code : Byte) (b : β) :
    cpu.interrupt bus code b = ⟨.error l.fault, cpu, b, []⟩ := by
  simp only [interrupt, hl]

theorem moves_latched {cpu cpu' : Cpu} {l : Latch} (hl : cpu.latch = some l)
    (hm : ReflTransGen Move cpu cpu') : cpu' = cpu := by
  induction hm with
  | refl => rfl
  | tail _ hm ih =>
    subst ih
    cases hm with
    | step bus _ b => rw [step_latched hl]
    | interrupt bus code _ b => rw [interrupt_latched hl]

theorem calls_latched {cpu cpu' : Cpu} {l : Latch} (hl : cpu.latch = some l)
    (hc : ReflTransGen Call cpu cpu') : cpu'.latch = some l := by
  induction hc with
  | refl => exact hl
  | tail _ hc ih =>
    rcases hc.moves_or_sameLatch with hm | hs
    · rw [moves_latched ih hm, ih]
    · rw [hs.latch, ih]

end Cpu

namespace Session

variable {β : Type} {bus : Bus β} {limit : Option Nat} {s t u : Session β} {xs : List Signal}
  {l : Latch}

/-- How a round of a latched processor ends, with the given number of senders. -/
def latchedProgress (halted : Bool) (senders : Nat) (fault : Fault) : Progress :=
  if halted then if senders = 0 then .stopped .halted else .blocked else .faulted fault

/-- A latched processor at a boundary of a run that has counted nothing. -/
structure Stuck (l : Latch) (received : List Signal) (t : Session β) : Prop where
  latched : t.cpu.latch = some l
  asleep : t.cpu.SoundAsleep
  received : Received received t.mailbox
  uncounted : t.tally.instructions = 0

theorem Rounded.latched {p : Progress} (h : Stuck l xs t) (hlimit : limit ≠ some 0)
    (hoff : Signal.powerOff ∉ xs ++ t.mailbox.queue) (hr : Rounded bus limit t p u) :
    u.cpu = t.cpu ∧ p = latchedProgress t.cpu.core.halted t.mailbox.senders l.fault := by
  have hpolled := h.received.polled.consistent
  have hdeaf : t.cpu.acceptsInterrupts ≠ true := by
    intro ha
    have hn := (Cpu.acceptsInterrupts_eq_true.mp ha).2.2
    rw [h.latched] at hn
    cases hn
  cases hr with
  | poweredOff ho => exact absurd (hpolled.powerOff.mp ho) hoff
  | serviced _ ha | serviceFaulted _ ha => exact absurd ha hdeaf
  | stepped _ _ _ hres =>
    rw [Cpu.step_latched h.latched] at hres
    cases hres
  | stepFaulted _ hh _ hres hc =>
    rw [Cpu.step_latched h.latched] at hres hc
    cases hres
    exact ⟨hc, by rw [hh]; rfl⟩
  | limited _ _ hl hn =>
    rw [h.uncounted, Nat.le_zero] at hn
    rw [hl, hn] at hlimit
    exact absurd rfl hlimit
  | disabled _ hh he =>
    rw [(h.asleep.turnedDown l h.latched hh).1] at he
    cases he
  | blocked _ hh _ hw hc =>
    have hs := (wait?_none hw).2.1
    rw [poll_senders] at hs
    refine ⟨hc, ?_⟩
    rw [hh, latchedProgress, if_pos rfl, if_neg hs]
  | abandoned _ hh _ hw hc =>
    have hs : t.mailbox.poll.1.senders = 0 := by
      cases hd : t.mailbox.poll.1.connected with
      | true => exact ((wait?_false hw).2 hd).1
      | false => exact (hpolled.disconnected hd).1
    rw [poll_senders] at hs
    refine ⟨hc, ?_⟩
    rw [hh, latchedProgress, if_pos rfl, if_pos hs]

theorem latchedProgress_ne_running (halted : Bool) (senders : Nat) (fault : Fault) :
    latchedProgress halted senders fault ≠ .running := by
  unfold latchedProgress
  split
  · split <;> nofun
  · nofun

theorem latchedProgress_of_ne_blocked {halted : Bool} {senders : Nat} {fault : Fault}
    (h : latchedProgress halted senders fault ≠ .blocked) :
    latchedProgress halted senders fault = if halted then .stopped .halted else .faulted fault := by
  unfold latchedProgress at h ⊢
  split
  next hh =>
    rw [if_pos hh] at h
    split
    · rfl
    next hs => exact absurd (if_neg hs) h
  · rfl

/-- No boundary of the run gets beyond a round that blocks. -/
theorem Underway.stuck {before : List Signal} (hl : s.cpu.latch = some l)
    (hs : s.cpu.SoundAsleep) (hm : Received before s.mailbox) (hlimit : limit ≠ some 0)
    (h : Underway bus limit s xs t) (hoff : Signal.powerOff ∉ before ++ xs) :
    Stuck l (before ++ xs) t ∧ t.cpu = s.cpu := by
  induction h with
  | start =>
    rw [List.append_nil]
    exact ⟨⟨hl, hs, hm, rfl⟩, rfl⟩
  | traffic _ hm ih =>
    obtain ⟨hst, hc⟩ := ih hoff
    exact ⟨⟨hst.latched, hst.asleep, hst.received.traffic hm, hst.uncounted⟩, hc⟩
  | running _ hr ih =>
    rw [← List.append_assoc] at hoff
    obtain ⟨hst, -⟩ := ih fun hx => hoff (List.mem_append_left _ hx)
    have hp := ((rounded_of_round hr).latched hst hlimit hoff).2
    exact absurd hp.symm (latchedProgress_ne_running _ _ _)
  | blocked _ hr ih =>
    rw [← List.append_assoc] at hoff ⊢
    obtain ⟨hst, hc⟩ := ih fun hx => hoff (List.mem_append_left _ hx)
    cases rounded_of_round hr with
    | blocked _ _ _ _ hcpu hmail htally =>
      refine ⟨⟨?_, ?_, ?_, ?_⟩, hcpu.trans hc⟩
      · rw [hcpu, hst.latched]
      · rw [hcpu]
        exact hst.asleep
      · rw [hmail]
        exact hst.received.polled
      · rw [htally, hst.uncounted]

theorem Underway.round_latched {before : List Signal} (hl : s.cpu.latch = some l)
    (hs : s.cpu.SoundAsleep) (hm : Received before s.mailbox) (hlimit : limit ≠ some 0)
    (h : Underway bus limit s xs t)
    (hoff : Signal.powerOff ∉ before ++ (xs ++ t.mailbox.queue)) :
    (t.round bus limit).2.cpu = s.cpu ∧
      (t.round bus limit).1 = latchedProgress s.cpu.core.halted t.mailbox.senders l.fault := by
  rw [← List.append_assoc] at hoff
  obtain ⟨hst, hc⟩ := h.stuck hl hs hm hlimit fun hx => hoff (List.mem_append_left _ hx)
  rw [← hc]
  exact (round_rounded bus limit t).latched hst hlimit hoff

/-- What a latched fault means for every call up to the next reset. -/
structure Final (cpu : Cpu) (l : Latch) : Prop where
  kept : ∀ cpu', ReflTransGen Cpu.Call cpu cpu' → cpu'.latch = some l
  step : ∀ {β : Type} (bus : Bus β) (b : β), cpu.step bus b = ⟨.error l.fault, cpu, b, []⟩
  interrupt : ∀ {β : Type} (bus : Bus β) (code : Byte) (b : β),
    cpu.interrupt bus code b = ⟨.error l.fault, cpu, b, []⟩
  /-- A processor that is both halted and latched was offered an opcode that it turned down. -/
  asleep : cpu.core.halted = true → cpu.core.interruptsEnabled = true ∧ l.TurnedDown
  /-- Without a power-off every round of a run ends in the fault, or if the processor is halted
  blocks while there are senders. -/
  round : ∀ {β : Type} (bus : Bus β) (limit : Option Nat) (s t : Session β)
    (before during : List Signal), s.cpu = cpu → limit ≠ some 0 → Received before s.mailbox →
    Underway bus limit s during t → Signal.powerOff ∉ before ++ (during ++ t.mailbox.queue) →
    (t.round bus limit).2.cpu = cpu ∧
      (t.round bus limit).1 = latchedProgress cpu.core.halted t.mailbox.senders l.fault
  /-- A run of a processor that is not halted returns at once and reports the fault. -/
  reports : cpu.core.halted = false → ∀ {β : Type} (bus : Bus β) (limit : Option Nat)
    (s : Session β) (before : List Signal), s.cpu = cpu → limit ≠ some 0 →
    Received before s.mailbox → Signal.powerOff ∉ before ++ s.mailbox.queue →
    ∃ u, Returns bus limit s s.mailbox.queue (.faulted l.fault) u ∧ u.cpu = cpu
  /-- However a run returns, it reports the fault exactly if the processor is not halted. -/
  returns : ∀ {β : Type} (bus : Bus β) (limit : Option Nat) (s u : Session β)
    (before during : List Signal) (p : Progress), s.cpu = cpu → limit ≠ some 0 →
    Received before s.mailbox → Returns bus limit s during p u →
    Signal.powerOff ∉ before ++ during →
    u.cpu = cpu ∧ p = if cpu.core.halted then .stopped .halted else .faulted l.fault

theorem latched_final {cpu : Cpu} (h : cpu.Reachable) (hl : cpu.latch = some l) :
    Final cpu l := by
  have hs := h.soundAsleep
  refine ⟨fun _ => Cpu.calls_latched hl, Cpu.step_latched hl, Cpu.interrupt_latched hl,
    hs.turnedDown l hl, ?_, ?_, ?_⟩
  · rintro β bus limit s t before during rfl hlimit hm hu hoff
    exact hu.round_latched hl hs hm hlimit hoff
  · rintro hh β bus limit s before rfl hlimit hm hoff
    have hu : Underway bus limit s [] s.start := .start
    obtain ⟨hc, hp⟩ := hu.round_latched hl hs hm hlimit hoff
    rw [hh] at hp
    exact ⟨_, .faulted .start (Prod.ext hp rfl), hc⟩
  · rintro β bus limit s u before during p rfl hlimit hm hret hoff
    cases hret with
    | stopped hu hr | faulted hu hr =>
      obtain ⟨hc, hp⟩ := hu.round_latched hl hs hm hlimit hoff
      rw [hr] at hc hp
      refine ⟨hc, hp.trans (latchedProgress_of_ne_blocked ?_)⟩
      rw [← hp]
      nofun

/-- A new processor with one byte of memory, once it has executed the HLT there and was offered a
CALL. -/
def turnedDown : Cpu where
  core := { registers := { pc := 1 }, halted := true }
  memory := ⟨#[0x76], by decide, by decide⟩
  latch := some ⟨.multiByteInterrupt 0xCD, 1⟩
  config := { memorySize := 1 }

theorem turnedDown_reachable : turnedDown.Reachable := by
  have hnew : Cpu.ofConfig { memorySize := 1 } =
      .ok ⟨{}, ⟨#[0], by decide, by decide⟩, none, { memorySize := 1 }⟩ := rfl
  have hload : Cpu.load 0 #[0x76] ⟨{}, ⟨#[0], by decide, by decide⟩, none, { memorySize := 1 }⟩ =
      .ok ⟨{}, ⟨#[0x76], by decide, by decide⟩, none, { memorySize := 1 }⟩ := rfl
  have h₁ := (Cpu.Reachable.new hnew).call (.load hload)
  have h₂ := h₁.call (.step Bus.null _ ())
  exact h₂.call (.interrupt Bus.null 0xCD _ ())

theorem latched_final_turned_down :
    turnedDown.Reachable ∧ turnedDown.latch = some ⟨.multiByteInterrupt 0xCD, 1⟩ ∧
      Final turnedDown ⟨.multiByteInterrupt 0xCD, 1⟩ :=
  ⟨turnedDown_reachable, rfl, latched_final turnedDown_reachable rfl⟩

/-- With the last sender gone its run returns as if nothing were wrong. -/
theorem run_of_turned_down_halts :
    turnedDown.Reachable ∧ turnedDown.latch = some ⟨.multiByteInterrupt 0xCD, 1⟩ ∧
      Received [] (Mailbox.dropSender {}) ∧
      ∃ u, Returns Bus.null none ⟨turnedDown, (), Mailbox.dropSender {}, {}, #[]⟩ []
        (.stopped .halted) u :=
  ⟨turnedDown_reachable, rfl, .traffic .new (.dropSender _), _, .stopped .start rfl⟩

end Session

end Intel8080
