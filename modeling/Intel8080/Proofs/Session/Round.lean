import Intel8080.Proofs.Cpu.Boundary
import Intel8080.Proofs.Mailbox.Requests
import Intel8080.Session

/-! One round of a running session: everything it can do, and what is then left of the processor,
the mailbox and the counts. What a device emits on the way reaches the mailbox as traffic. -/

namespace Intel8080.Session

open Relation Mailbox

variable {β : Type}

/-! ### Calls on the processor -/

theorem absorb_frame (e : Emission) (s : Session β) :
    (s.absorb e).cpu = s.cpu ∧ (s.absorb e).tally = s.tally ∧
      ReflTransGen Traffic s.mailbox (s.absorb e).mailbox := by
  cases e with
  | signal x => exact ⟨rfl, rfl, .single (.send _ x)⟩
  | hangUp => exact ⟨rfl, rfl, .single (.dropSender _)⟩
  | event e => exact ⟨rfl, rfl, .refl⟩

theorem absorbAll_frame (es : List Emission) (s : Session β) :
    (absorbAll es s).cpu = s.cpu ∧ (absorbAll es s).tally = s.tally ∧
      ReflTransGen Traffic s.mailbox (absorbAll es s).mailbox := by
  induction es generalizing s with
  | nil => exact ⟨rfl, rfl, .refl⟩
  | cons e es ih =>
    obtain ⟨hc, ht, hm⟩ := s.absorb_frame e
    obtain ⟨hc', ht', hm'⟩ := ih (s.absorb e)
    exact ⟨hc'.trans hc, ht'.trans ht, hm.trans hm'⟩

theorem absorbAll_device (es : List Emission) (s : Session β) :
    (absorbAll es s).device = s.device := by
  induction es generalizing s with
  | nil => rfl
  | cons e es ih =>
    rw [absorbAll, List.foldl_cons, ← absorbAll, ih]
    cases e <;> rfl

/-- What is emitted joins the queue, and is not consumed yet. -/
theorem absorbAll_mailbox (es : List Emission) (s : Session β) :
    (absorbAll es s).mailbox.queue = s.mailbox.queue ++ posted es s.mailbox.senders ∧
      (absorbAll es s).mailbox.pending = s.mailbox.pending ∧
      (absorbAll es s).mailbox.powerOff = s.mailbox.powerOff ∧
      (absorbAll es s).mailbox.connected = s.mailbox.connected := by
  induction es generalizing s with
  | nil => simp [absorbAll, posted]
  | cons e es ih =>
    obtain ⟨hq, hp, ho, hc⟩ := ih (s.absorb e)
    rw [absorbAll, List.foldl_cons]
    change (absorbAll es (s.absorb e)).mailbox.queue = _ ∧ _
    rw [hq]
    cases e with
    | event e => exact ⟨rfl, hp, ho, hc⟩
    | hangUp => exact ⟨rfl, hp, ho, hc⟩
    | signal x =>
      by_cases hs : s.mailbox.senders = 0
      · have hsend : s.mailbox.send x = s.mailbox := if_pos hs
        simp only [absorb, hsend] at hp ho hc ⊢
        refine ⟨?_, hp, ho, hc⟩
        rw [posted, if_pos hs, hs]
      · have hsend : s.mailbox.send x = { s.mailbox with queue := s.mailbox.queue ++ [x] } :=
          if_neg hs
        simp only [absorb, hsend] at hp ho hc ⊢
        refine ⟨?_, hp, ho, hc⟩
        rw [posted, if_neg hs, List.append_assoc, List.singleton_append]

/-- A call does to the processor what it does alone, and sends at most signals. -/
theorem apply_frame {α : Type} (call : Cpu → β → Reply α β) (s : Session β) :
    (s.apply call).1 = (call s.cpu s.device).result ∧
      (s.apply call).2.cpu = (call s.cpu s.device).cpu ∧ (s.apply call).2.tally = s.tally ∧
      ReflTransGen Traffic s.mailbox (s.apply call).2.mailbox := by
  obtain ⟨hc, ht, hm⟩ := absorbAll_frame (call s.cpu s.device).emitted
    { s with cpu := (call s.cpu s.device).cpu, device := (call s.cpu s.device).bus }
  exact ⟨rfl, hc, ht, hm⟩

theorem step_frame (bus : Bus β) (s : Session β) :
    (s.step bus).1 = (s.cpu.step bus s.device).result ∧
      (s.step bus).2.cpu = (s.cpu.step bus s.device).cpu ∧ (s.step bus).2.tally = s.tally ∧
      ReflTransGen Traffic s.mailbox (s.step bus).2.mailbox :=
  s.apply_frame _

theorem interrupt_frame (bus : Bus β) (code : Byte) (s : Session β) :
    (s.interrupt bus code).1 = (s.cpu.interrupt bus code s.device).result ∧
      (s.interrupt bus code).2.cpu = (s.cpu.interrupt bus code s.device).cpu ∧
      (s.interrupt bus code).2.tally = s.tally ∧
      ReflTransGen Traffic s.mailbox (s.interrupt bus code).2.mailbox :=
  s.apply_frame _

/-! ### The round -/

/-- Nothing in the mailbox comes before the next instruction. -/
structure Undisturbed (cpu : Cpu) (m : Mailbox) : Prop where
  powerOff : m.powerOff = false
  pending : cpu.acceptsInterrupts = true → m.pending = none

/-- Everything a round can do, once the mailbox is polled. -/
inductive Rounded (bus : Bus β) (limit : Option Nat) (s : Session β) : Progress → Session β → Prop
  | poweredOff {t} (ho : s.mailbox.poll.1.powerOff = true) (hc : t.cpu = s.cpu)
      (hm : t.mailbox = s.mailbox.poll.1) : Rounded bus limit s (.stopped .powerOff) t
  | serviced {t code cost} (ho : s.mailbox.poll.1.powerOff = false)
      (ha : s.cpu.acceptsInterrupts = true) (hp : s.mailbox.poll.1.pending = some code)
      (hr : (s.cpu.interrupt bus code s.device).result = .ok (some cost))
      (hc : t.cpu = (s.cpu.interrupt bus code s.device).cpu)
      (hm : ReflTransGen Traffic s.mailbox.poll.1.take.2 t.mailbox)
      (ht : t.tally = s.tally.addInterrupt cost) : Rounded bus limit s .running t
  | serviceFaulted {t code fault} (ho : s.mailbox.poll.1.powerOff = false)
      (ha : s.cpu.acceptsInterrupts = true) (hp : s.mailbox.poll.1.pending = some code)
      (hr : (s.cpu.interrupt bus code s.device).result = .error fault)
      (hc : t.cpu = (s.cpu.interrupt bus code s.device).cpu) :
      Rounded bus limit s (.faulted fault) t
  | stepped {t cost} (hu : Undisturbed s.cpu s.mailbox.poll.1) (hh : s.cpu.core.halted = false)
      (hl : ∀ n, limit = some n → s.tally.instructions < n)
      (hr : (s.cpu.step bus s.device).result = .ok cost)
      (hc : t.cpu = (s.cpu.step bus s.device).cpu)
      (hm : ReflTransGen Traffic s.mailbox.poll.1 t.mailbox)
      (ht : t.tally = s.tally.addInstruction cost) : Rounded bus limit s .running t
  | stepFaulted {t fault} (hu : Undisturbed s.cpu s.mailbox.poll.1)
      (hh : s.cpu.core.halted = false) (hl : ∀ n, limit = some n → s.tally.instructions < n)
      (hr : (s.cpu.step bus s.device).result = .error fault)
      (hc : t.cpu = (s.cpu.step bus s.device).cpu) : Rounded bus limit s (.faulted fault) t
  | limited {t n} (hu : Undisturbed s.cpu s.mailbox.poll.1) (hh : s.cpu.core.halted = false)
      (hl : limit = some n) (hn : n ≤ s.tally.instructions) (hc : t.cpu = s.cpu)
      (hm : t.mailbox = s.mailbox.poll.1) (ht : t.tally = s.tally) :
      Rounded bus limit s (.stopped .instructionLimit) t
  | disabled {t} (hu : Undisturbed s.cpu s.mailbox.poll.1) (hh : s.cpu.core.halted = true)
      (he : s.cpu.core.interruptsEnabled = false) (hc : t.cpu = s.cpu) :
      Rounded bus limit s (.stopped .halted) t
  | blocked {t} (hu : Undisturbed s.cpu s.mailbox.poll.1) (hh : s.cpu.core.halted = true)
      (he : s.cpu.core.interruptsEnabled = true) (hw : s.mailbox.poll.1.wait? = none)
      (hc : t.cpu = s.cpu) (hm : t.mailbox = s.mailbox.poll.1) (ht : t.tally = s.tally) :
      Rounded bus limit s .blocked t
  | abandoned {t es} (hu : Undisturbed s.cpu s.mailbox.poll.1) (hh : s.cpu.core.halted = true)
      (he : s.cpu.core.interruptsEnabled = true)
      (hw : s.mailbox.poll.1.wait? = some (false, t.mailbox, es)) (hc : t.cpu = s.cpu) :
      Rounded bus limit s (.stopped .halted) t

variable {bus : Bus β} {limit : Option Nat} {s u : Session β}

/-- Going on with the next instruction, from what polling the mailbox has left. -/
theorem proceed_rounded (hc : u.cpu = s.cpu) (hd : u.device = s.device) (ht : u.tally = s.tally)
    (hm : u.mailbox = s.mailbox.poll.1) (hu : Undisturbed s.cpu s.mailbox.poll.1) :
    Rounded bus limit s (u.proceed bus limit).1 (u.proceed bus limit).2 := by
  unfold proceed
  cases hh : s.cpu.core.halted with
  | true =>
    rw [if_pos (by rw [hc, hh])]
    unfold await
    cases he : s.cpu.core.interruptsEnabled with
    | false =>
      rw [if_neg (by rw [hc, he]; nofun)]
      exact .disabled hu hh he hc
    | true =>
      rw [if_pos (by rw [hc, he])]
      split
      next hw =>
        rw [hm] at hw
        exact .blocked hu hh he hw hc hm ht
      next m' es hw =>
        rw [hm] at hw
        exact absurd hw (poll_wait? _ _ _)
      next m' es hw =>
        rw [hm] at hw
        exact .abandoned hu hh he hw hc
  | false =>
    rw [if_neg (by rw [hc, hh]; nofun)]
    split
    next hl =>
      obtain ⟨n, hn, hle⟩ := (Option.any_eq_true _ _).mp hl
      exact .limited hu hh hn (ht ▸ of_decide_eq_true hle) hc hm ht
    next hl =>
      have hbelow : ∀ n, limit = some n → s.tally.instructions < n := by
        intro n hn
        rw [hn, Option.any_some, decide_eq_true_eq, ht] at hl
        exact Nat.lt_of_not_le hl
      obtain ⟨hres, hcpu, htally, hmail⟩ := u.step_frame bus
      rw [hc, hd] at hres hcpu
      rw [hm] at hmail
      rw [ht] at htally
      split
      next cost v hx =>
        rw [hx] at hres hcpu hmail htally
        exact .stepped hu hh hbelow hres.symm hcpu hmail
          (congrArg (Tally.addInstruction · cost) htally)
      next fault v hx =>
        rw [hx] at hres hcpu
        exact .stepFaulted hu hh hbelow hres.symm hcpu

theorem service_rounded {code : Byte} (hc : u.cpu = s.cpu) (hd : u.device = s.device)
    (ht : u.tally = s.tally) (hm : u.mailbox = s.mailbox.poll.1.take.2)
    (ho : s.mailbox.poll.1.powerOff = false) (ha : s.cpu.acceptsInterrupts = true)
    (hp : s.mailbox.poll.1.pending = some code) :
    Rounded bus limit s (u.service bus limit code).1 (u.service bus limit code).2 := by
  obtain ⟨hres, hcpu, htally, hmail⟩ := u.interrupt_frame bus code
  rw [hc, hd] at hres hcpu
  rw [hm] at hmail
  rw [ht] at htally
  unfold service
  split
  next cost v hx =>
    rw [hx] at hres hcpu hmail htally
    exact .serviced ho ha hp hres.symm hcpu hmail (congrArg (Tally.addInterrupt · cost) htally)
  next v hx =>
    rw [hx] at hres
    exact absurd hres.symm (Cpu.interrupt_ne_none bus s.device ha)
  next fault v hx =>
    rw [hx] at hres hcpu
    exact .serviceFaulted ho ha hp hres.symm hcpu

theorem round_rounded (bus : Bus β) (limit : Option Nat) (s : Session β) :
    Rounded bus limit s (s.round bus limit).1 (s.round bus limit).2 := by
  simp only [round]
  have hcpu : s.poll.cpu = s.cpu := rfl
  have hmail : s.poll.mailbox = s.mailbox.poll.1 := rfl
  rw [hmail, hcpu]
  cases ho : s.mailbox.poll.1.powerOff with
  | true =>
    rw [if_pos rfl]
    exact .poweredOff ho rfl rfl
  | false =>
    rw [if_neg (by nofun)]
    cases ha : s.cpu.acceptsInterrupts with
    | false =>
      rw [if_neg (by nofun)]
      exact proceed_rounded rfl rfl rfl rfl ⟨ho, fun h => by rw [ha] at h; cases h⟩
    | true =>
      rw [if_pos rfl]
      split
      next code m htake =>
        obtain ⟨hp, rfl⟩ := Prod.mk.inj htake
        exact service_rounded rfl rfl rfl rfl ho ha hp
      next m htake =>
        obtain ⟨hp, rfl⟩ := Prod.mk.inj htake
        refine proceed_rounded rfl rfl rfl ?_ ⟨ho, fun _ => hp⟩
        rw [← hp]

theorem rounded_of_round {p : Progress} (hr : s.round bus limit = (p, u)) :
    Rounded bus limit s p u := by
  have h := round_rounded bus limit s
  rw [hr] at h
  exact h

end Intel8080.Session
