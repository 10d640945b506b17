import Intel8080.Proofs.Session.Reachable

/-! What the reason says for which a run returns. At every boundary of a run the processor is
unlatched, sound asleep if it is halted, and within the limit; each reason to stop is then read
off the round that gave it. -/

namespace Intel8080.Session

open Mailbox

variable {β : Type} {bus : Bus β} {limit : Option Nat} {s t u : Session β} {xs : List Signal}

/-- What holds at every boundary of a run, where the signals have been consumed so far. -/
structure Ready (limit : Option Nat) (received : List Signal) (t : Session β) : Prop where
  unlatched : t.cpu.latch = none
  asleep : t.cpu.SoundAsleep
  received : Received received t.mailbox
  within : ∀ n, limit = some n → t.tally.instructions ≤ n

/-- What the end of a run says about the processor and the signals it has consumed. -/
structure SoundReturn (limit : Option Nat) (received : List Signal) (p : Progress) (u : Session β) :
    Prop where
  powerOff : p = .stopped .powerOff → Signal.powerOff ∈ received
  instructionLimit : p = .stopped .instructionLimit →
    limit = some u.tally.instructions ∧ u.cpu.core.halted = false ∧
      Signal.powerOff ∉ received ∧
      ¬(u.cpu.acceptsInterrupts = true ∧ u.mailbox.pending.isSome = true)
  /-- A processor that can still be woken is not given up. -/
  halted : p = .stopped .halted →
    u.cpu.core.halted = true ∧ Signal.powerOff ∉ received ∧
      (u.cpu.core.interruptsEnabled = false ∨
        u.mailbox.senders = 0 ∧ u.mailbox.queue = [] ∧ u.mailbox.pending = none)
  faulted : ∀ fault, p = .faulted fault → ∃ pc, u.cpu.latch = some ⟨fault, pc⟩
  unlatched : ∀ reason, p = .stopped reason → u.cpu.latch = none

/-! ### Every boundary -/

namespace Ready

theorem start (hs : s.cpu.SoundAsleep) (hl : s.cpu.latch = none) (hm : Received xs s.mailbox) :
    Ready limit xs s.start :=
  ⟨hl, hs, hm, fun n _ => n.zero_le⟩

theorem traffic {m : Mailbox} (h : Ready limit xs t) (hm : Traffic t.mailbox m) :
    Ready limit xs { t with mailbox := m } :=
  ⟨h.unlatched, h.asleep, h.received.traffic hm, h.within⟩

theorem running (h : Ready limit xs t) (hr : Rounded bus limit t .running u) :
    Ready limit (xs ++ t.mailbox.queue) u := by
  cases hr with
  | @serviced _ code cost _ _ _ hres hc hm ht =>
    have ho := Cpu.interrupt_offered bus code t.cpu t.device
    rw [hres, ← hc] at ho
    refine ⟨ho.unlatched, h.asleep.offered ho, h.received.polled.take.traffics hm, ?_⟩
    rw [ht]
    exact h.within
  | @stepped _ cost _ _ hl hres hc hm ht =>
    have hx := Cpu.step_stepped bus t.cpu t.device
    rw [hres, ← hc] at hx
    refine ⟨hx.unlatched, h.asleep.stepped hx, h.received.polled.traffics hm, ?_⟩
    rw [ht]
    exact hl

theorem blocked (h : Ready limit xs t) (hr : Rounded bus limit t .blocked u) :
    Ready limit (xs ++ t.mailbox.queue) u := by
  cases hr with
  | blocked _ _ _ _ hc hm ht =>
    refine ⟨?_, ?_, ?_, ?_⟩
    · rw [hc]
      exact h.unlatched
    · rw [hc]
      exact h.asleep
    · rw [hm]
      exact h.received.polled
    · rw [ht]
      exact h.within

end Ready

theorem Underway.ready {before : List Signal} (hs : s.cpu.SoundAsleep) (hl : s.cpu.latch = none)
    (hm : Received before s.mailbox) (h : Underway bus limit s xs t) :
    Ready limit (before ++ xs) t := by
  induction h with
  | start =>
    rw [List.append_nil]
    exact .start hs hl hm
  | traffic _ hm ih => exact ih.traffic hm
  | running _ hr ih =>
    rw [← List.append_assoc]
    exact ih.running (rounded_of_round hr)
  | blocked _ hr ih =>
    rw [← List.append_assoc]
    exact ih.blocked (rounded_of_round hr)

/-! ### The last round -/

theorem Rounded.soundReturn {p : Progress} (h : Ready limit xs t) (hr : Rounded bus limit t p u) :
    SoundReturn limit (xs ++ t.mailbox.queue) p u := by
  have hpolled := h.received.polled.consistent
  have hquiet : t.mailbox.poll.1.powerOff = false →
      Signal.powerOff ∉ xs ++ t.mailbox.queue := by
    intro ho hx
    rw [hpolled.powerOff.mpr hx] at ho
    cases ho
  cases hr with
  | poweredOff ho hc hm =>
    exact ⟨fun _ => hpolled.powerOff.mp ho, nofun, nofun, nofun, fun _ _ => hc ▸ h.unlatched⟩
  | serviced | stepped | blocked => exact ⟨nofun, nofun, nofun, nofun, nofun⟩
  | @serviceFaulted _ code fault _ _ _ hres hc =>
    refine ⟨nofun, nofun, nofun, ?_, nofun⟩
    rintro _ ⟨⟩
    have ho := Cpu.interrupt_offered bus code t.cpu t.device
    rw [hres, ← hc] at ho
    exact ho.faultLatched
  | @stepFaulted _ fault _ _ _ hres hc =>
    refine ⟨nofun, nofun, nofun, ?_, nofun⟩
    rintro _ ⟨⟩
    have hx := Cpu.step_stepped bus t.cpu t.device
    rw [hres, ← hc] at hx
    exact hx.faultLatched
  | @limited _ n hu hh hl hn hc hm ht =>
    refine ⟨nofun, fun _ => ⟨?_, ?_, hquiet hu.powerOff, ?_⟩, nofun, nofun, fun _ _ => ?_⟩
    · rw [ht, hl, Nat.le_antisymm (h.within n hl) hn]
    · rw [hc, hh]
    · rintro ⟨ha, hp⟩
      rw [hc] at ha
      rw [hm, hu.pending ha] at hp
      cases hp
    · rw [hc, h.unlatched]
  | disabled hu hh he hc =>
    refine ⟨nofun, nofun, fun _ => ⟨?_, hquiet hu.powerOff, .inl ?_⟩, nofun, fun _ _ => ?_⟩
    · rw [hc, hh]
    · rw [hc, he]
    · rw [hc, h.unlatched]
  | abandoned hu hh he hw hc =>
    refine ⟨nofun, nofun, fun _ => ⟨?_, hquiet hu.powerOff, .inr ?_⟩, nofun, fun _ _ => ?_⟩
    · rw [hc, hh]
    · -- asleep and unlatched, the processor accepts, so a pending interrupt was taken before
      have ha : t.cpu.acceptsInterrupts = true :=
        Cpu.acceptsInterrupts_eq_true.mpr ⟨he, h.asleep.unshadowed hh, h.unlatched⟩
      obtain ⟨hm, hconnected⟩ := wait?_false hw
      have hgone : t.mailbox.poll.1.senders = 0 ∧ t.mailbox.poll.1.queue = [] := by
        cases hd : t.mailbox.poll.1.connected with
        | true => exact hconnected hd
        | false => exact hpolled.disconnected hd
      rw [hm]
      exact ⟨hgone.1, hgone.2, hu.pending ha⟩
    · rw [hc, h.unlatched]

/-- Every reason to stop is sound, whatever the senders do meanwhile and whatever the device sends,
and an interrupt that is taken from the mailbox is not passed over. -/
theorem returns_sound (hr : s.cpu.Reachable) (hl : s.cpu.latch = none) {before : List Signal}
    (hm : Received before s.mailbox) :
    (∀ during p u, Returns bus limit s during p u → SoundReturn limit (before ++ during) p u) ∧
      ∀ earlier t code m, Underway bus limit s earlier t →
        t.poll.cpu.acceptsInterrupts = true → t.poll.mailbox.take = (some code, m) →
        (Session.interrupt bus code { t.poll with mailbox := m }).1 ≠ .ok none := by
  have hready : ∀ earlier t, Underway bus limit s earlier t → Ready limit (before ++ earlier) t :=
    fun _ _ h => h.ready hr.soundAsleep hl hm
  refine ⟨?_, ?_⟩
  · intro during p u h
    cases h with
    | stopped h hr | faulted h hr =>
      rw [← List.append_assoc]
      exact (rounded_of_round hr).soundReturn (hready _ _ h)
  · intro earlier t code m _ ha _
    rw [(interrupt_frame bus code _).1]
    exact Cpu.interrupt_ne_none bus _ ha

/-- A new processor with a single byte of memory, which is a NOP. -/
def oneNop : Session Unit where
  cpu := ⟨Core.initial { memorySize := 1 }, ⟨#[0], by decide, by decide⟩, none, { memorySize := 1 }⟩
  device := ()

/-- The NOP runs and uses up the limit. -/
theorem returns_sound_instruction_limit :
    oneNop.cpu.Reachable ∧ Received [] oneNop.mailbox ∧
      ∃ u, Returns Bus.null (some 1) oneNop [] (.stopped .instructionLimit) u ∧
        SoundReturn (some 1) [] (.stopped .instructionLimit) u := by
  have hnew : Cpu.ofConfig { memorySize := 1 } = .ok oneNop.cpu := rfl
  have hr : oneNop.cpu.Reachable := .new hnew
  have h : Underway Bus.null (some 1) oneNop [] _ := .running .start rfl
  have hret : Returns Bus.null (some 1) oneNop [] (.stopped .instructionLimit) _ := .stopped h rfl
  exact ⟨hr, .new, _, hret, (returns_sound hr rfl .new).1 [] _ _ hret⟩

end Intel8080.Session
