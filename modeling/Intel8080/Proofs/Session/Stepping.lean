import Intel8080.Proofs.Cpu.Steps
import Intel8080.Proofs.Session.Ends
import Mathlib.Order.Bounds.Basic

/-! A run that no signal can reach is steps and nothing else. It halts where the steps first halt
the processor, it stops at the limit if they do not halt it so far, and it meets the fault that the
first faulting step meets. -/

namespace Intel8080

namespace Mailbox

/-- Nothing is in the mailbox and no sender is left to change that. -/
structure Deserted (m : Mailbox) : Prop where
  queue : m.queue = []
  senders : m.senders = 0
  pending : m.pending = none
  powerOff : m.powerOff = false

namespace Deserted

variable {m m' : Mailbox}

theorem poll_eq (h : Deserted m) : m.poll.1 = { m with connected := false } := by
  cases hc : m.connected with
  | true => exact poll_of_hungUp hc h.queue h.senders
  | false => rw [poll_of_disconnected hc, ← hc]

theorem poll (h : Deserted m) : Deserted m.poll.1 := by
  rw [h.poll_eq]
  exact ⟨h.queue, h.senders, h.pending, h.powerOff⟩

theorem traffics (h : Deserted m) (ht : Relation.ReflTransGen Traffic m m') : m' = m := by
  induction ht with
  | refl => rfl
  | tail _ ht ih =>
    subst ih
    exact ht.eq_of_no_senders h.senders

end Deserted

end Mailbox

namespace Cpu

variable {β : Type}

/-- None of so many steps faults, and they leave the processor halted. -/
def HaltedAfter (bus : Bus β) (cpu : Cpu) (b : β) (k : Nat) : Prop :=
  ∃ c b', steps bus k cpu b = .ok (c, b') ∧ c.core.halted = true

/-- None of so many steps faults, and they do not leave the processor halted. -/
def AwakeAfter (bus : Bus β) (cpu : Cpu) (b : β) (k : Nat) : Prop :=
  ∃ c b', steps bus k cpu b = .ok (c, b') ∧ c.core.halted = false

theorem HaltedAfter.not_awakeAfter {bus : Bus β} {cpu : Cpu} {b : β} {k : Nat}
    (h : HaltedAfter bus cpu b k) : ¬ AwakeAfter bus cpu b k := by
  obtain ⟨c, b', hsteps, hh⟩ := h
  rintro ⟨c', b'', hsteps', hh'⟩
  rw [hsteps] at hsteps'
  obtain ⟨rfl, rfl⟩ := Prod.mk.inj (Except.ok.inj hsteps')
  rw [hh] at hh'
  cases hh'

end Cpu

namespace Session

open Mailbox Cpu

variable {β : Type} {bus : Bus β} {limit : Option Nat} {s t t' u : Session β} {p : Progress}
  {k i : Nat}

/-! ### One round -/

/-- What a round does when nothing is in the mailbox. -/
inductive Solo (bus : Bus β) (limit : Option Nat) (s : Session β) : Progress → Session β → Prop
  | halted {u : Session β} (hh : s.cpu.core.halted = true) (hc : u.cpu = s.cpu)
      (hd : u.device = s.device) (ht : u.tally = s.tally) : Solo bus limit s (.stopped .halted) u
  | limited {u : Session β} {n} (hh : s.cpu.core.halted = false) (hl : limit = some n)
      (hn : n ≤ s.tally.instructions) (hc : u.cpu = s.cpu) (hd : u.device = s.device)
      (ht : u.tally = s.tally) : Solo bus limit s (.stopped .instructionLimit) u
  | stepped {u : Session β} {cost es} (hh : s.cpu.core.halted = false)
      (hl : ∀ n, limit = some n → s.tally.instructions < n)
      (hs : s.cpu.step bus s.device = ⟨.ok cost, u.cpu, u.device, es⟩)
      (ht : u.tally = s.tally.addInstruction cost) (hm : u.mailbox.Deserted) :
      Solo bus limit s .running u
  | faulted {u : Session β} {fault es} (hh : s.cpu.core.halted = false)
      (hl : ∀ n, limit = some n → s.tally.instructions < n)
      (hs : s.cpu.step bus s.device = ⟨.error fault, u.cpu, u.device, es⟩)
      (ht : u.tally = s.tally) : Solo bus limit s (.faulted fault) u

theorem round_solo (bus : Bus β) (limit : Option Nat) (h : s.mailbox.Deserted) :
    Solo bus limit s (s.round bus limit).1 (s.round bus limit).2 := by
  have hpolled : s.poll.mailbox.Deserted := h.poll
  have hdisconnected : s.poll.mailbox.connected = false := congrArg Mailbox.connected h.poll_eq
  have hd := turn_decided limit s.poll
  rw [round_eq_act]
  generalize s.poll.turn limit = x at hd ⊢
  cases hd with
  | powerOff ho =>
    rw [hpolled.powerOff] at ho
    cases ho
  | service _ _ hp =>
    rw [hpolled.pending] at hp
    cases hp
  | limit _ hh hl hn => exact .limited hh hl hn rfl rfl rfl
  | rest _ hh =>
    have hwait : s.poll.mailbox.wait? = some (false, s.poll.mailbox, []) := by
      simp [wait?, hdisconnected]
    simp only [act, await, hwait]
    split
    · exact .halted hh rfl rfl rfl
    · exact .halted hh rfl rfl rfl
  | execute _ hh hl =>
    have hcall : s.poll.step bus =
        ((s.cpu.step bus s.device).result, s.poll.after (s.cpu.step bus s.device)) := apply_eq _ _
    have hmailbox := hpolled.traffics (s.poll.after_traffic (s.cpu.step bus s.device))
    have hcpu := s.poll.after_cpu (s.cpu.step bus s.device)
    have hdevice := s.poll.after_device (s.cpu.step bus s.device)
    have htally := s.poll.after_tally (s.cpu.step bus s.device)
    rw [act, hcall]
    generalize s.poll.after (s.cpu.step bus s.device) = u at *
    rcases hs : s.cpu.step bus s.device with ⟨fault | cost, c, b, es⟩ <;>
      rw [hs] at hcpu hdevice <;> dsimp only at hcpu hdevice <;> subst hcpu hdevice
    · exact .faulted hh hl hs htally
    · exact .stepped hh hl hs (congrArg (Tally.addInstruction · cost) htally)
        (by rw [hmailbox]; exact hpolled)

/-! ### The run -/

/-- Where so many steps lead a run: nothing but these steps is counted, none of them was taken while
the processor was halted, and the limit allows them. -/
structure Replayed (bus : Bus β) (limit : Option Nat) (s : Session β) (k : Nat) (t : Session β) :
    Prop where
  steps : Cpu.steps bus k s.cpu s.device = .ok (t.cpu, t.device)
  tally : t.tally = ⟨k, 0, spent bus k s.cpu s.device⟩
  awake : ∀ j < k, AwakeAfter bus s.cpu s.device j
  within : ∀ n, limit = some n → k ≤ n

/-- The ends that steps can lead a run to. -/
inductive Concluded (bus : Bus β) (limit : Option Nat) (s : Session β) : Progress → Session β → Prop
  | halted {i : Nat} {u : Session β} (h : Replayed bus limit s i u)
      (hh : u.cpu.core.halted = true) : Concluded bus limit s (.stopped .halted) u
  | limited {i : Nat} {u : Session β} (h : Replayed bus limit s i u)
      (hh : u.cpu.core.halted = false) (hl : limit = some i) :
      Concluded bus limit s (.stopped .instructionLimit) u
  | faulted {i : Nat} {t u : Session β} {fault es} (h : Replayed bus limit s i t)
      (hh : t.cpu.core.halted = false) (hl : ∀ n, limit = some n → i < n)
      (hs : t.cpu.step bus t.device = ⟨.error fault, u.cpu, u.device, es⟩)
      (ht : u.tally = t.tally) : Concluded bus limit s (.faulted fault) u

namespace Replayed

theorem start (bus : Bus β) (limit : Option Nat) (s : Session β) :
    Replayed bus limit s 0 s.start :=
  ⟨rfl, rfl, nofun, fun n _ => Nat.zero_le n⟩

theorem instructions (h : Replayed bus limit s k t) : t.tally.instructions = k := by rw [h.tally]

theorem same (h : Replayed bus limit s k t) (hc : u.cpu = t.cpu) (hd : u.device = t.device)
    (ht : u.tally = t.tally) : Replayed bus limit s k u :=
  ⟨by rw [hc, hd, h.steps], ht.trans h.tally, h.awake, h.within⟩

/-- The steps lead nowhere else. -/
theorem unique {c : Cpu} {b : β} (h : Replayed bus limit s k t)
    (hs : Cpu.steps bus k s.cpu s.device = .ok (c, b)) : c = t.cpu ∧ b = t.device := by
  rw [h.steps] at hs
  obtain ⟨rfl, rfl⟩ := Prod.mk.inj (Except.ok.inj hs)
  exact ⟨rfl, rfl⟩

theorem halted_of_haltedAfter (h : Replayed bus limit s k t)
    (hh : HaltedAfter bus s.cpu s.device k) : t.cpu.core.halted = true := by
  obtain ⟨c, b, hsteps, hhalted⟩ := hh
  rwa [← (h.unique hsteps).1]

theorem awake_of_awakeAfter (h : Replayed bus limit s k t)
    (hh : AwakeAfter bus s.cpu s.device k) : t.cpu.core.halted = false := by
  obtain ⟨c, b, hsteps, hawake⟩ := hh
  rwa [← (h.unique hsteps).1]

theorem awakeAfter (h : Replayed bus limit s k t) (hh : t.cpu.core.halted = false) :
    ∀ j ≤ k, AwakeAfter bus s.cpu s.device j := by
  intro j hj
  rcases Nat.lt_or_eq_of_le hj with hlt | rfl
  · exact h.awake j hlt
  · exact ⟨_, _, h.steps, hh⟩

theorem stepped {cost : Nat} {es : List Emission} (h : Replayed bus limit s k t)
    (hh : t.cpu.core.halted = false) (hl : ∀ n, limit = some n → t.tally.instructions < n)
    (hs : t.cpu.step bus t.device = ⟨.ok cost, u.cpu, u.device, es⟩)
    (ht : u.tally = t.tally.addInstruction cost) : Replayed bus limit s (k + 1) u := by
  obtain ⟨hsteps, hspent⟩ := steps_concat h.steps hs
  refine ⟨hsteps, ?_, ?_, ?_⟩
  · rw [ht, h.tally, hspent]
    rfl
  · intro j hj
    exact h.awakeAfter hh j (Nat.le_of_lt_succ hj)
  · intro n hn
    have := hl n hn
    rwa [h.instructions] at this

/-- However the run goes on from there, it ends as steps do. -/
theorem concluded (h : Replayed bus limit s k t) (hm : t.mailbox.Deserted)
    (he : Ends bus limit t p u) : Concluded bus limit s p u := by
  induction he generalizing k with
  | @last t p u hr hp =>
    have hsolo := round_solo bus limit hm
    rw [hr] at hsolo
    cases hsolo with
    | halted hh hc hd ht =>
      refine .halted (h.same hc hd ht) ?_
      rw [hc]
      exact hh
    | limited hh hl hn hc hd ht =>
      rw [h.instructions] at hn
      refine .limited (h.same hc hd ht) ?_ (hl.trans (congrArg some ?_))
      · rw [hc]
        exact hh
      · exact Nat.le_antisymm hn (h.within _ hl)
    | stepped => exact absurd rfl hp
    | faulted hh hl hs ht =>
      rw [h.instructions] at hl
      exact .faulted h hh hl hs ht
  | @more t t' p u hr _ ih =>
    have hsolo := round_solo bus limit hm
    rw [hr] at hsolo
    cases hsolo with
    | stepped hh hl hs ht hm' => exact ih (h.stepped hh hl hs ht) hm'

end Replayed

/-- Steps that neither fault nor halt too early are taken by a run that allows them. -/
theorem exists_replayed (hm : s.mailbox.Deserted) (hw : ∀ n, limit = some n → i ≤ n)
    (ha : ∀ j < i, AwakeAfter bus s.cpu s.device j)
    (hok : ∃ c b, Cpu.steps bus i s.cpu s.device = .ok (c, b)) :
    ∃ t, Replayed bus limit s i t ∧ t.mailbox.Deserted ∧
      ∀ p u, Ends bus limit t p u → Ends bus limit s.start p u := by
  induction i with
  | zero => exact ⟨s.start, .start bus limit s, hm, fun _ _ h => h⟩
  | succ i ih =>
    obtain ⟨c, b, hok⟩ := hok
    obtain ⟨t, ht, hmt, hends⟩ := ih (fun n hn => Nat.le_of_succ_le (hw n hn))
      (fun j hj => ha j (Nat.lt_succ_of_lt hj)) (steps_of_le hok (Nat.le_succ i))
    have hawake : t.cpu.core.halted = false := ht.awake_of_awakeAfter (ha i (Nat.lt_succ_self i))
    rw [steps_add 1 ht.steps, Cpu.steps] at hok
    have hsolo := round_solo bus limit hmt
    rcases hr : t.round bus limit with ⟨q, t'⟩
    rw [hr] at hsolo
    cases hsolo with
    | halted hh =>
      rw [hawake] at hh
      cases hh
    | limited _ hl hn =>
      rw [ht.instructions] at hn
      exact absurd (hw _ hl) (Nat.not_le_of_lt (Nat.lt_succ_of_le hn))
    | stepped hh hl hs hcount hm' =>
      exact ⟨t', ht.stepped hh hl hs hcount, hm', fun p u h => hends p u (.more hr h)⟩
    | faulted _ _ hs =>
      rw [hs] at hok
      cases hok

/-- The run that no signal reaches and the steps that it takes. -/
structure Iterates (bus : Bus β) (limit : Option Nat) (s : Session β) : Prop where
  only : ∀ p u, Ends bus limit s.start p u →
    p = .stopped .halted ∨ p = .stopped .instructionLimit ∨ ∃ fault, p = .faulted fault
  halted : ∀ i, (∃ u, Ends bus limit s.start (.stopped .halted) u ∧ u.tally.instructions = i) ↔
    IsLeast {k | HaltedAfter bus s.cpu s.device k} i ∧ ∀ n, limit = some n → i ≤ n
  limited : ∀ i,
    (∃ u, Ends bus limit s.start (.stopped .instructionLimit) u ∧ u.tally.instructions = i) ↔
      limit = some i ∧ ∀ j ≤ i, AwakeAfter bus s.cpu s.device j
  faulted : ∀ fault, (∃ u, Ends bus limit s.start (.faulted fault) u) ↔
    ∃ i, (∀ n, limit = some n → i < n) ∧ (∀ j ≤ i, AwakeAfter bus s.cpu s.device j) ∧
      ∃ c b, Cpu.steps bus i s.cpu s.device = .ok (c, b) ∧ (c.step bus b).result = .error fault
  /-- A run that stops leaves what the steps leave. -/
  left : ∀ reason u, Ends bus limit s.start (.stopped reason) u →
    Cpu.steps bus u.tally.instructions s.cpu s.device = .ok (u.cpu, u.device) ∧
      u.tally.interrupts = 0 ∧ u.tally.states = spent bus u.tally.instructions s.cpu s.device
  /-- One that meets a fault leaves what the faulting step leaves. -/
  leftFaulted : ∀ fault u, Ends bus limit s.start (.faulted fault) u →
    ∃ c b es, Cpu.steps bus u.tally.instructions s.cpu s.device = .ok (c, b) ∧
      c.step bus b = ⟨.error fault, u.cpu, u.device, es⟩ ∧ u.tally.interrupts = 0 ∧
      u.tally.states = spent bus u.tally.instructions s.cpu s.device

section

variable (hm : s.mailbox.Deserted)
include hm

theorem halted_iff : (∃ u, Ends bus limit s.start (.stopped .halted) u ∧ u.tally.instructions = i) ↔
    IsLeast {k | HaltedAfter bus s.cpu s.device k} i ∧ ∀ n, limit = some n → i ≤ n := by
  constructor
  · rintro ⟨u, hu, rfl⟩
    cases (Replayed.start bus limit s).concluded hm hu with
    | halted h hh =>
      rw [h.instructions]
      refine ⟨⟨⟨_, _, h.steps, hh⟩, fun j hj => ?_⟩, h.within⟩
      exact Nat.le_of_not_lt fun hlt => HaltedAfter.not_awakeAfter hj (h.awake j hlt)
  · rintro ⟨⟨hhalted, hleast⟩, hw⟩
    have ⟨c, b, hsteps, _⟩ := hhalted
    have hawake : ∀ j < i, AwakeAfter bus s.cpu s.device j := by
      intro j hj
      obtain ⟨d, e, hd⟩ := steps_of_le hsteps (Nat.le_of_lt hj)
      cases hh : d.core.halted with
      | false => exact ⟨d, e, hd, hh⟩
      | true => exact absurd (hleast ⟨d, e, hd, hh⟩) (Nat.not_le_of_lt hj)
    obtain ⟨t, ht, hmt, hends⟩ := exists_replayed hm hw hawake ⟨c, b, hsteps⟩
    have hsolo := round_solo bus limit hmt
    rcases hr : t.round bus limit with ⟨q, u⟩
    rw [hr] at hsolo
    cases hsolo with
    | halted _ _ _ htally =>
      refine ⟨u, hends _ _ (.last hr nofun), ?_⟩
      rw [htally, ht.instructions]
    | limited hh | stepped hh | faulted hh =>
      rw [ht.halted_of_haltedAfter hhalted] at hh
      cases hh

theorem limited_iff :
    (∃ u, Ends bus limit s.start (.stopped .instructionLimit) u ∧ u.tally.instructions = i) ↔
      limit = some i ∧ ∀ j ≤ i, AwakeAfter bus s.cpu s.device j := by
  constructor
  · rintro ⟨u, hu, rfl⟩
    cases (Replayed.start bus limit s).concluded hm hu with
    | limited h hh hl =>
      rw [h.instructions]
      exact ⟨hl, h.awakeAfter hh⟩
  · rintro ⟨rfl, hawake⟩
    obtain ⟨c, b, hsteps, -⟩ := hawake i le_rfl
    have hw : ∀ n, some i = some n → i ≤ n := fun n hn => (Option.some.inj hn).le
    obtain ⟨t, ht, hmt, hends⟩ :=
      exists_replayed hm hw (fun j hj => hawake j (Nat.le_of_lt hj)) ⟨c, b, hsteps⟩
    have hsolo := round_solo bus (some i) hmt
    rcases hr : t.round bus (some i) with ⟨q, u⟩
    rw [hr] at hsolo
    cases hsolo with
    | halted hh =>
      rw [ht.awake_of_awakeAfter (hawake i le_rfl)] at hh
      cases hh
    | limited _ _ _ _ _ htally =>
      refine ⟨u, hends _ _ (.last hr nofun), ?_⟩
      rw [htally, ht.instructions]
    | stepped _ hl | faulted _ hl =>
      have hlt := hl i rfl
      rw [ht.instructions] at hlt
      exact absurd hlt (Nat.lt_irrefl i)

theorem faulted_iff {fault : Fault} : (∃ u, Ends bus limit s.start (.faulted fault) u) ↔
    ∃ i, (∀ n, limit = some n → i < n) ∧ (∀ j ≤ i, AwakeAfter bus s.cpu s.device j) ∧
      ∃ c b, Cpu.steps bus i s.cpu s.device = .ok (c, b) ∧
        (c.step bus b).result = .error fault := by
  constructor
  · rintro ⟨u, hu⟩
    cases (Replayed.start bus limit s).concluded hm hu with
    | @faulted i t _ _ _ h hh hl hs _ =>
      refine ⟨i, hl, h.awakeAfter hh, _, _, h.steps, ?_⟩
      rw [hs]
  · rintro ⟨i, hl, hawake, c, b, hsteps, hres⟩
    obtain ⟨t, ht, hmt, hends⟩ := exists_replayed hm (fun n hn => Nat.le_of_lt (hl n hn))
      (fun j hj => hawake j (Nat.le_of_lt hj)) ⟨c, b, hsteps⟩
    obtain ⟨rfl, rfl⟩ := ht.unique hsteps
    have hsolo := round_solo bus limit hmt
    rcases hr : t.round bus limit with ⟨q, u⟩
    rw [hr] at hsolo
    cases hsolo with
    | halted hh =>
      rw [ht.awake_of_awakeAfter (hawake i le_rfl)] at hh
      cases hh
    | limited _ hlim hn =>
      rw [ht.instructions] at hn
      exact absurd (hl _ hlim) (Nat.not_lt_of_le hn)
    | stepped _ _ hs =>
      rw [hs] at hres
      cases hres
    | faulted _ _ hs =>
      rw [hs] at hres
      cases hres
      exact ⟨u, hends _ _ (.last hr nofun)⟩

end

/-- A run without signals is iterated steps. -/
theorem run_iterates (bus : Bus β) (limit : Option Nat) (s : Session β)
    (hm : s.mailbox.Deserted) : Iterates bus limit s := by
  have hconcluded : ∀ p u, Ends bus limit s.start p u → Concluded bus limit s p u :=
    fun p u hu => (Replayed.start bus limit s).concluded hm hu
  refine ⟨fun p u hu => ?_, fun _ => halted_iff hm, fun _ => limited_iff hm,
    fun _ => faulted_iff hm, fun reason u hu => ?_, fun fault u hu => ?_⟩
  · cases hconcluded p u hu with
    | halted => exact .inl rfl
    | limited => exact .inr (.inl rfl)
    | faulted => exact .inr (.inr ⟨_, rfl⟩)
  · cases hconcluded _ u hu with
    | halted h | limited h =>
      rw [h.instructions, h.tally]
      exact ⟨h.steps, rfl, rfl⟩
  · cases hconcluded _ u hu with
    | faulted h _ _ hs ht =>
      rw [ht, h.instructions, h.tally]
      exact ⟨_, _, _, h.steps, hs, rfl, rfl⟩

/-- A new processor in front of a NOP and an HLT, with every sender gone. -/
def beforeHalt : Session Unit where
  cpu := ⟨Core.initial { memorySize := 2 }, ⟨#[0x00, 0x76], by decide, by decide⟩, none,
    { memorySize := 2 }⟩
  device := ()
  mailbox := Mailbox.dropSender {}

/-- Under a limit of two it halts, as the HLT is the second instruction. -/
theorem run_iterates_to_halt :
    beforeHalt.mailbox.Deserted ∧ Iterates Bus.null (some 2) beforeHalt ∧
      ∃ u, Ends Bus.null (some 2) beforeHalt.start (.stopped .halted) u ∧
        u.tally = ⟨2, 0, 11⟩ := by
  have hm : beforeHalt.mailbox.Deserted := ⟨rfl, rfl, rfl, rfl⟩
  have h := run_iterates Bus.null (some 2) beforeHalt hm
  have hleast : IsLeast {k | HaltedAfter Bus.null beforeHalt.cpu beforeHalt.device k} 2 := by
    refine ⟨⟨_, _, rfl, rfl⟩, fun k hk => ?_⟩
    match k with
    | 0 => exact absurd ⟨_, _, rfl, rfl⟩ hk.not_awakeAfter
    | 1 => exact absurd ⟨_, _, rfl, rfl⟩ hk.not_awakeAfter
    | k + 2 => exact Nat.le_add_left 2 k
  obtain ⟨u, hu, hi⟩ := (h.halted 2).mpr ⟨hleast, fun n hn => (Option.some.inj hn).le⟩
  obtain ⟨-, hinterrupts, hstates⟩ := h.left _ u hu
  rw [hi] at hstates
  refine ⟨hm, h, u, hu, ?_⟩
  rw [← hi, ← hinterrupts]
  exact congrArg (Tally.mk _ _) hstates

end Session

end Intel8080
