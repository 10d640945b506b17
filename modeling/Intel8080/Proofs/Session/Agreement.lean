import Intel8080.Proofs.Cycles.Agreement
import Intel8080.Proofs.Mailbox.Coalescing
import Intel8080.Proofs.Session.Ends
import Intel8080.Proofs.Session.Underway

/-! Runs on devices that agree. Two sessions that start alike go side by side: at every boundary
processor, counts and what is in the mailbox are the same, so both decide the same. Only a device
that gives up its sender makes a difference, and only to a processor that waits: it halts for good
where it would else be blocked. -/

namespace Intel8080

variable {β γ : Type}

namespace Mailbox

/-- The mailboxes hold the same, and one of them may have lost its senders. -/
structure Level (m m' : Mailbox) : Prop where
  queue : m'.queue = m.queue
  pending : m'.pending = m.pending
  powerOff : m'.powerOff = m.powerOff
  connected : m'.connected = m.connected ∨ m.queue = []

namespace Level

variable {m m' : Mailbox}

theorem refl (m : Mailbox) : Level m m := ⟨rfl, rfl, rfl, .inl rfl⟩

theorem symm (h : Level m m') : Level m' m :=
  ⟨h.queue.symm, h.pending.symm, h.powerOff.symm,
    h.connected.imp Eq.symm fun hq => h.queue.trans hq⟩

theorem due (h : Level m m') : m'.due = m.due := by
  rcases h.connected with hc | hq
  · rw [Mailbox.due, Mailbox.due, hc, h.queue]
  · rw [Mailbox.due, Mailbox.due, h.queue, hq, ite_self, ite_self]

theorem poll (h : Level m m') : Level m.poll.1 m'.poll.1 := by
  have hqueue : m'.poll.1.queue = m.poll.1.queue := by
    have hm := m.due_append_queue
    rw [← h.queue, ← m'.due_append_queue, h.due] at hm
    exact (List.append_cancel_left hm).symm
  refine ⟨hqueue, ?_, ?_, ?_⟩
  · rw [poll_pending, poll_pending, h.pending, h.due]
  · rw [Bool.eq_iff_iff, poll_powerOff_iff, poll_powerOff_iff, h.powerOff, h.due]
  · cases hc : m.connected with
    | true => exact .inr (poll_queue hc)
    | false =>
      rw [poll_of_disconnected hc]
      cases hc' : m'.connected with
      | false =>
        rw [poll_of_disconnected hc', hc, hc']
        exact .inl rfl
      | true =>
        refine .inr (h.connected.resolve_left ?_)
        rw [hc, hc']
        nofun

theorem take (h : Level m m') : Level m.take.2 m'.take.2 :=
  ⟨h.queue, rfl, h.powerOff, h.connected⟩

theorem withSenders (h : Level m m') (n n' : Nat) :
    Level { m with senders := n } { m' with senders := n' } :=
  ⟨h.queue, h.pending, h.powerOff, h.connected⟩

/-- A mailbox with nothing due can be disconnected. -/
theorem disconnect (h : Level m m') (hd : m.due = []) :
    Level { m with connected := false } m' := by
  refine ⟨h.queue, h.pending, h.powerOff, ?_⟩
  cases hc : m.connected with
  | true => exact .inr ((due_of_connected hc).symm.trans hd)
  | false => exact h.connected.imp_left fun hc' => hc'.trans hc

end Level

end Mailbox

/-- The runs stand alike, but that one may have halted for good where the other is blocked, unless
the devices kept their senders. -/
inductive Progress.Matches (kept : Prop) : Progress → Progress → Prop
  | same (p : Progress) : Matches kept p p
  | gaveUp (h : ¬ kept) : Matches kept .blocked (.stopped .halted)
  | waits (h : ¬ kept) : Matches kept (.stopped .halted) .blocked

namespace Progress.Matches

variable {kept : Prop} {p q : Progress}

theorem eq (h : Matches kept p q) (hk : kept) : q = p := by
  cases h with
  | same => rfl
  | gaveUp hn | waits hn => exact absurd hk hn

theorem ne_running (h : Matches kept p q) (hp : p ≠ .running) : q ≠ .running := by
  cases h with
  | same => exact hp
  | gaveUp | waits => nofun

theorem of_running (h : Matches kept .running q) : q = .running := by
  cases h
  rfl

theorem cases (h : Matches kept p q) :
    q = p ∨
      ¬ kept ∧ (p = .blocked ∧ q = .stopped .halted ∨ p = .stopped .halted ∧ q = .blocked) := by
  cases h with
  | same => exact .inl rfl
  | gaveUp hk => exact .inr ⟨hk, .inl ⟨rfl, rfl⟩⟩
  | waits hk => exact .inr ⟨hk, .inr ⟨rfl, rfl⟩⟩

/-- Runs that return both return alike. -/
theorem eq_of_returned (h : Matches kept p q) (hp : p ≠ .blocked) (hq : q ≠ .blocked) : q = p := by
  cases h with
  | same => rfl
  | gaveUp => exact absurd rfl hp
  | waits => exact absurd rfl hq

end Progress.Matches

namespace Session

open Mailbox

/-- The session with another device. -/
def onto (b : γ) (s : Session β) : Session γ := ⟨s.cpu, b, s.mailbox, s.tally, s.log⟩

/-- The sessions differ in their devices, in the logs and, unless the devices kept them, in the
senders. -/
structure Abreast (kept : Prop) (R : β → γ → Prop) (s : Session β) (t : Session γ) : Prop where
  cpu : t.cpu = s.cpu
  tally : t.tally = s.tally
  level : s.mailbox.Level t.mailbox
  mailbox : kept → t.mailbox = s.mailbox
  device : R s.device t.device

/-- What a device emits discreetly takes at most senders from a mailbox. -/
theorem absorbAll_discreet {kept : Prop} {es : List Emission} (he : Discreet kept es)
    (s : Session β) :
    ∃ n, (absorbAll es s).mailbox = { s.mailbox with senders := n } ∧
      (kept → n = s.mailbox.senders) := by
  induction es generalizing s with
  | nil => exact ⟨_, rfl, fun _ => rfl⟩
  | cons e es ih =>
    have hes : Discreet kept es := ⟨fun x hx => he.signals x (List.mem_cons_of_mem _ hx),
      fun hk hx => he.hangUps hk (List.mem_cons_of_mem _ hx)⟩
    obtain ⟨n, hm, hn⟩ := ih hes (s.absorb e)
    rw [absorbAll, List.foldl_cons, ← absorbAll, hm]
    cases e with
    | signal x => exact absurd List.mem_cons_self (he.signals x)
    | hangUp => exact ⟨n, rfl, fun hk => absurd List.mem_cons_self (he.hangUps hk)⟩
    | event e => exact ⟨n, rfl, hn⟩

variable {kept : Prop} {R : β → γ → Prop} {bus : Bus β} {bus' : Bus γ} {limit : Option Nat}
  {s u : Session β} {t v : Session γ} {p : Progress}

namespace Abreast

theorem record (h : Abreast kept R s t) (e f : Event) : Abreast kept R (s.record e) (t.record f) :=
  ⟨h.cpu, h.tally, h.level, h.mailbox, h.device⟩

theorem count (h : Abreast kept R s t) {x y : Tally} (hx : y = x) :
    Abreast kept R { s with tally := x } { t with tally := y } :=
  ⟨h.cpu, hx, h.level, h.mailbox, h.device⟩

theorem withMailbox (h : Abreast kept R s t) {m m' : Mailbox} (hm : m.Level m')
    (hk : kept → m' = m) : Abreast kept R { s with mailbox := m } { t with mailbox := m' } :=
  ⟨h.cpu, h.tally, hm, hk, h.device⟩

theorem poll (h : Abreast kept R s t) : Abreast kept R s.poll t.poll :=
  ⟨h.cpu, h.tally, h.level.poll, fun hk => congrArg (·.poll.1) (h.mailbox hk), h.device⟩

theorem withdraw (h : Abreast kept R s t) : Abreast kept R s.withdraw t.withdraw :=
  h.withMailbox h.level.take fun hk => congrArg (·.take.2) (h.mailbox hk)

/-- Both decide the same. -/
theorem turn (h : Abreast kept R s t) (limit : Option Nat) : t.turn limit = s.turn limit := by
  rw [Session.turn, Session.turn, h.level.powerOff, h.level.pending, h.cpu, h.tally]

/-- Replies that agree keep the sessions abreast. -/
theorem after {α : Type} (h : Abreast kept R s t) {r : Reply α β} {r' : Reply α γ}
    (hr : r.Agree kept R r') : Abreast kept R (s.after r) (t.after r') := by
  obtain ⟨n, hm, hn⟩ := absorbAll_discreet hr.discreet { s with cpu := r.cpu, device := r.bus }
  obtain ⟨n', hm', hn'⟩ :=
    absorbAll_discreet hr.discreet' { t with cpu := r'.cpu, device := r'.bus }
  refine ⟨?_, ?_, ?_, fun hk => ?_, ?_⟩
  · rw [after_cpu, after_cpu, hr.cpu]
  · rw [after_tally, after_tally, h.tally]
  · rw [Session.after, Session.after, hm, hm']
    exact h.level.withSenders n n'
  · rw [Session.after, Session.after, hm, hm', hn hk, hn' hk]
    exact h.mailbox hk
  · rw [after_device, after_device]
    exact hr.bus

theorem step (h : Abreast kept R s t) (hb : bus.Agree kept R bus') :
    (t.step bus').1 = (s.step bus).1 ∧ Abreast kept R (s.step bus).2 (t.step bus').2 := by
  have hr := s.cpu.step_agree hb h.device
  rw [Session.step, Session.step, apply_eq, apply_eq, h.cpu]
  exact ⟨hr.result, h.after hr⟩

theorem interrupt (h : Abreast kept R s t) (hb : bus.Agree kept R bus') (code : Byte) :
    (t.interrupt bus' code).1 = (s.interrupt bus code).1 ∧
      Abreast kept R (s.interrupt bus code).2 (t.interrupt bus' code).2 := by
  have hr := s.cpu.interrupt_agree hb code h.device
  rw [Session.interrupt, Session.interrupt, apply_eq, apply_eq, h.cpu]
  exact ⟨hr.result, h.after hr⟩

end Abreast

/-- The rounds of sessions that go side by side. -/
structure Paired (kept : Prop) (R : β → γ → Prop) (r : Progress × Session β)
    (r' : Progress × Session γ) : Prop where
  progress : r.1.Matches kept r'.1
  abreast : Abreast kept R r.2 r'.2

namespace Abreast

theorem paired (h : Abreast kept R s t) (p : Progress) : Paired kept R (p, s) (p, t) :=
  ⟨.same p, h⟩

theorem stop (h : Abreast kept R s t) (reason : StopReason) :
    Paired kept R (s.stop reason) (t.stop reason) := by
  have hcount : t.tally = s.tally := h.tally
  rw [Session.stop, Session.stop, hcount]
  exact (h.record _ _).paired _

/-- With nothing due, each waits for as long as it has senders. -/
theorem await (h : Abreast kept R s t) (hs : s.mailbox.due = []) :
    Paired kept R s.await t.await := by
  have ht : t.mailbox.due = [] := h.level.due.trans hs
  have henabled : t.cpu.core.interruptsEnabled = s.cpu.core.interruptsEnabled := by rw [h.cpu]
  have halike (hk : kept) : t.mailbox.connected = true ∧ t.mailbox.senders ≠ 0 ↔
      s.mailbox.connected = true ∧ s.mailbox.senders ≠ 0 := by rw [h.mailbox hk]
  have hlost := h.level.disconnect hs
  have hlost' := (h.level.symm.disconnect ht).symm
  have hboth := (hlost.symm.disconnect ht).symm
  rw [Session.await, Session.await, wait?_of_due hs, wait?_of_due ht, henabled]
  split
  · by_cases hw : s.mailbox.connected = true ∧ s.mailbox.senders ≠ 0 <;>
      by_cases hw' : t.mailbox.connected = true ∧ t.mailbox.senders ≠ 0
    · rw [if_pos hw, if_pos hw']
      exact h.paired _
    · rw [if_pos hw, if_neg hw']
      have hk : ¬ kept := fun hk => hw' ((halike hk).mpr hw)
      exact ⟨.gaveUp hk, h.cpu, h.tally, hlost', fun hk' => absurd hk' hk, h.device⟩
    · rw [if_neg hw, if_pos hw']
      have hk : ¬ kept := fun hk => hw ((halike hk).mp hw')
      exact ⟨.waits hk, h.cpu, h.tally, hlost, fun hk' => absurd hk' hk, h.device⟩
    · rw [if_neg hw, if_neg hw']
      exact (h.withMailbox hboth fun hk => by rw [h.mailbox hk]).stop .halted
  · exact h.stop .halted

theorem charge {α : Type} (count : α → Tally → Tally) {r : Except Fault α × Session β}
    {r' : Except Fault α × Session γ} (h : Abreast kept R r.2 r'.2) (hr : r'.1 = r.1) :
    Paired kept R (Session.charge count r) (Session.charge count r') := by
  obtain ⟨x, s⟩ := r
  obtain ⟨y, t⟩ := r'
  obtain rfl : y = x := hr
  cases y with
  | error fault => exact h.paired _
  | ok cost => exact (h.count (congrArg (count cost) h.tally)).paired _

theorem act (h : Abreast kept R s t) (hb : bus.Agree kept R bus') (hs : s.mailbox.due = [])
    (x : Turn) : Paired kept R (s.act bus x) (t.act bus' x) := by
  cases x with
  | powerOff => exact (h.record _ _).stop .powerOff
  | rest => exact h.await hs
  | limit => exact h.stop .instructionLimit
  | service code =>
    obtain ⟨hres, ha⟩ := h.withdraw.interrupt hb code
    rw [act_service, act_service]
    exact ha.charge _ hres
  | execute =>
    obtain ⟨hres, ha⟩ := h.step hb
    rw [act_execute, act_execute]
    exact ha.charge _ hres

theorem round (h : Abreast kept R s t) (hb : bus.Agree kept R bus') (limit : Option Nat) :
    Paired kept R (s.round bus limit) (t.round bus' limit) := by
  rw [round_eq_act, round_eq_act, h.poll.turn]
  exact h.poll.act hb (due_poll _) _

/-- A run that ends has one beside it that ends. -/
theorem ends (h : Abreast kept R s t) (hb : bus.Agree kept R bus') (he : Ends bus limit s p u) :
    ∃ q v, Ends bus' limit t q v ∧ Paired kept R (p, u) (q, v) := by
  induction he generalizing t with
  | @last s p u hr hp =>
    have hround := h.round hb limit
    rw [hr] at hround
    exact ⟨_, _, .last rfl (hround.progress.ne_running hp), hround⟩
  | @more s s' p u hr _ ih =>
    have hround := h.round hb limit
    rcases hr' : t.round bus' limit with ⟨q, t'⟩
    rw [hr, hr'] at hround
    obtain rfl := hround.progress.of_running
    obtain ⟨q, v, hv, hpaired⟩ := ih hround.abreast
    exact ⟨q, v, .more hr' hv, hpaired⟩

end Abreast

end Session

end Intel8080
