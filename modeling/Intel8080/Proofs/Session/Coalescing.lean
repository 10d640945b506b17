import Intel8080.Proofs.Cycles.Correspondence
import Intel8080.Proofs.Session.Ends

/-! Coalescing the signals of a device, batch by batch, makes no difference to a run. The run on the
device that sends every signal and the one on the device that sends at most a request and a
power-off at a time go side by side: at every boundary a poll would leave the same in both
mailboxes, so both decide the same. -/

namespace Intel8080

variable {β γ : Type}

def Emission.isSignal : Emission → Bool
  | .signal _ => true
  | _ => false

/-- What is emitted during a call, with the signals that were sent replaced by the coalesced batch.
The senders that are given up are given up behind it. -/
def coalesceEmitted (senders : Nat) (es : List Emission) : List Emission :=
  (coalesce (posted es senders)).map .signal ++ es.filter fun e => !e.isSignal

/-- The same device with the signals of each call coalesced. It keeps count of its senders. -/
def Bus.coalesced (bus : Bus β) : Bus (Nat × β) where
  read x port :=
    match bus.read x.2 port with
    | (v, b, es) => (v, (x.1 - hangUps es, b), coalesceEmitted x.1 es)
  write x port v :=
    match bus.write x.2 port v with
    | (b, es) => ((x.1 - hangUps es, b), coalesceEmitted x.1 es)

theorem posted_zero (es : List Emission) : posted es 0 = [] := by
  induction es with
  | nil => rfl
  | cons e es ih => cases e <;> exact ih

theorem posted_signals {n : Nat} (hn : n ≠ 0) (xs : List Signal) :
    posted (xs.map .signal) n = xs := by
  induction xs with
  | nil => rfl
  | cons x xs ih => rw [List.map_cons, posted, if_neg hn, ih]

theorem hangUps_signals (xs : List Signal) : hangUps (xs.map .signal) = 0 := by
  rw [hangUps, List.count_eq_zero]
  simp

theorem posted_filter_not_signal (es : List Emission) (n : Nat) :
    posted (es.filter fun e => !e.isSignal) n = [] := by
  induction es generalizing n with
  | nil => rfl
  | cons e es ih => cases e <;> exact ih _

theorem hangUps_filter_not_signal (es : List Emission) :
    hangUps (es.filter fun e => !e.isSignal) = hangUps es := List.count_filter rfl

/-- The batch that arrives is the coalesced one. -/
theorem posted_coalesceEmitted (n : Nat) (es : List Emission) :
    posted (coalesceEmitted n es) n = coalesce (posted es n) := by
  by_cases hn : n = 0
  · rw [hn, posted_zero, posted_zero]
    rfl
  · rw [coalesceEmitted, posted_append, posted_signals hn, posted_filter_not_signal,
      List.append_nil]

theorem sameEffect_coalesceEmitted (n : Nat) (es : List Emission) :
    SameEffect n es (coalesceEmitted n es) := by
  refine ⟨?_, ?_⟩
  · rw [coalesceEmitted, hangUps_append, hangUps_signals, hangUps_filter_not_signal, Nat.zero_add]
  · rw [posted_coalesceEmitted]
    exact .coalesce _

theorem Bus.coalesced_corresponds (bus : Bus β) :
    bus.Corresponds (fun n b x => x = (n, b)) bus.coalesced where
  read n b x port hx := by
    subst hx
    exact ⟨rfl, sameEffect_coalesceEmitted n _, rfl⟩
  write n b x port v hx := by
    subst hx
    exact ⟨sameEffect_coalesceEmitted n _, rfl⟩

namespace Session

open Mailbox

/-! ### Two sessions side by side -/

/-- The sessions differ at most in what is queued and in the logs, on devices that correspond. -/
structure Alongside (R : Nat → β → γ → Prop) (s : Session β) (t : Session γ) : Prop where
  cpu : t.cpu = s.cpu
  tally : t.tally = s.tally
  mailbox : Alike s.mailbox t.mailbox
  device : R s.mailbox.senders s.device t.device

/-- So do these, and nothing is due in either mailbox. -/
structure Settled (R : Nat → β → γ → Prop) (s : Session β) (t : Session γ) : Prop
    extends Alongside R s t where
  due : s.mailbox.due = []
  due' : t.mailbox.due = []

/-- The same progress, side by side. A run that stops leaves the same pending. -/
structure Together (R : Nat → β → γ → Prop) (r : Progress × Session β) (r' : Progress × Session γ) :
    Prop where
  progress : r'.1 = r.1
  alongside : Alongside R r.2 r'.2
  left : ∀ reason, r.1 = .stopped reason →
    r'.2.mailbox.pending = r.2.mailbox.pending ∧ r'.2.mailbox.powerOff = r.2.mailbox.powerOff

theorem absorbAll_arrived (es : List Emission) (s : Session β) :
    (absorbAll es s).mailbox =
      s.mailbox.arrived (posted es s.mailbox.senders) (s.mailbox.senders - hangUps es) := by
  induction es generalizing s with
  | nil => simp [absorbAll, arrived, posted]
  | cons e es ih =>
    rw [absorbAll, List.foldl_cons, ← absorbAll, ih]
    cases e with
    | event e => rfl
    | hangUp =>
      rw [hangUps_hangUp, Nat.add_comm, ← Nat.sub_sub]
      rfl
    | signal x =>
      by_cases hs : s.mailbox.senders = 0
      · have hsend : s.mailbox.send x = s.mailbox := if_pos hs
        simp only [absorb, hsend, hs, posted_zero]
        rfl
      · have hsend : s.mailbox.send x = { s.mailbox with queue := s.mailbox.queue ++ [x] } :=
          if_neg hs
        simp only [absorb, hsend, arrived, List.append_assoc, List.singleton_append]
        rw [posted, if_neg hs]
        rfl

variable {R : Nat → β → γ → Prop} {bus : Bus β} {bus' : Bus γ} {limit : Option Nat}
  {s u : Session β} {t v : Session γ} {p : Progress}

theorem Together.of_settled (h : Settled R s t) (p : Progress) : Together R (p, s) (p, t) :=
  ⟨rfl, h.toAlongside, fun _ _ =>
    ⟨h.mailbox.pending_eq h.due h.due', h.mailbox.powerOff_eq h.due h.due'⟩⟩

/-- Whoever goes on or meets a fault may leave batches of their own behind. -/
theorem Together.of_alongside (h : Alongside R s t) (hp : ∀ reason, p ≠ .stopped reason) :
    Together R (p, s) (p, t) :=
  ⟨rfl, h, fun reason hr => absurd hr (hp reason)⟩

theorem Together.of_eq {r' : Progress × Session γ} (h : Together R (p, u) r') :
    ∃ v, r' = (p, v) ∧ Together R (p, u) (p, v) := by
  obtain ⟨q, v⟩ := r'
  obtain rfl : q = p := h.progress
  exact ⟨v, rfl, h⟩

theorem Together.eq_of {r : Progress × Session β} (h : Together R r (p, v)) :
    ∃ u, r = (p, u) ∧ Together R (p, u) (p, v) := by
  obtain ⟨q, u⟩ := r
  obtain rfl : p = q := h.progress
  exact ⟨u, rfl, h⟩

namespace Settled

theorem record (h : Settled R s t) (e f : Event) : Settled R (s.record e) (t.record f) :=
  ⟨⟨h.cpu, h.tally, h.mailbox, h.device⟩, h.due, h.due'⟩

theorem withdraw (h : Settled R s t) : Settled R s.withdraw t.withdraw :=
  ⟨⟨h.cpu, h.tally, h.mailbox.take h.due h.due', h.device⟩, h.due, h.due'⟩

theorem stop (h : Settled R s t) (reason : StopReason) :
    Together R (s.stop reason) (t.stop reason) := by
  have hcount : t.tally = s.tally := h.tally
  rw [Session.stop, Session.stop, hcount]
  exact .of_settled (h.record _ _) _

/-- A session at rest either is blocked or notices that no signal can come. -/
theorem await (h : Settled R s t) : Together R s.await t.await := by
  have hlive : t.mailbox.connected = true ∧ t.mailbox.senders ≠ 0 ↔
      s.mailbox.connected = true ∧ s.mailbox.senders ≠ 0 := by
    rw [h.mailbox.connected, h.mailbox.senders]
  have hlost : Settled R { s with mailbox := { s.mailbox with connected := false } }
      { t with mailbox := { t.mailbox with connected := false } } :=
    ⟨⟨h.cpu, h.tally, h.mailbox.disconnect h.due h.due', h.device⟩, rfl, rfl⟩
  have henabled : t.cpu.core.interruptsEnabled = s.cpu.core.interruptsEnabled := by rw [h.cpu]
  rw [Session.await, Session.await, wait?_of_due h.due, wait?_of_due h.due', henabled]
  split
  · by_cases hs : s.mailbox.connected = true ∧ s.mailbox.senders ≠ 0
    · rw [if_pos hs, if_pos (hlive.mpr hs)]
      exact .of_settled h _
    · rw [if_neg hs, if_neg (mt hlive.mp hs)]
      exact hlost.stop .halted
  · exact h.stop .halted

/-- Both decide the same. -/
theorem turn (h : Settled R s t) (limit : Option Nat) : t.turn limit = s.turn limit := by
  rw [Session.turn, Session.turn, h.mailbox.powerOff_eq h.due h.due',
    h.mailbox.pending_eq h.due h.due', h.cpu, h.tally]

end Settled

namespace Alongside

theorem poll (h : Alongside R s t) : Settled R s.poll t.poll := by
  refine ⟨⟨h.cpu, h.tally, h.mailbox.poll, ?_⟩, due_poll _, due_poll _⟩
  change R s.mailbox.poll.1.senders s.device t.device
  rw [poll_senders]
  exact h.device

theorem count (h : Alongside R s t) {x y : Tally} (hx : y = x) :
    Alongside R { s with tally := x } { t with tally := y } :=
  ⟨h.cpu, hx, h.mailbox, h.device⟩

/-- Replies that correspond keep the sessions side by side. -/
theorem after {α : Type} (h : Alongside R s t) {r : Reply α β} {r' : Reply α γ}
    (hr : r.Corresponds R s.mailbox.senders r') : Alongside R (s.after r) (t.after r') := by
  have hm := absorbAll_arrived r.emitted { s with cpu := r.cpu, device := r.bus }
  have hm' := absorbAll_arrived r'.emitted { t with cpu := r'.cpu, device := r'.bus }
  dsimp only at hm hm'
  rw [h.mailbox.senders, hr.emitted.hangUps] at hm'
  refine ⟨?_, ?_, ?_, ?_⟩
  · rw [after_cpu, after_cpu, hr.cpu]
  · rw [after_tally, after_tally, h.tally]
  · rw [Session.after, Session.after, hm, hm']
    exact h.mailbox.arrive hr.emitted.posted _
  · rw [after_device, after_device, Session.after, hm]
    exact hr.bus

theorem step (h : Alongside R s t) (hb : bus.Corresponds R bus') :
    (t.step bus').1 = (s.step bus).1 ∧ Alongside R (s.step bus).2 (t.step bus').2 := by
  have hr := s.cpu.step_corresponds hb h.device
  rw [Session.step, Session.step, apply_eq, apply_eq, h.cpu]
  exact ⟨hr.result, h.after hr⟩

theorem interrupt (h : Alongside R s t) (hb : bus.Corresponds R bus') (code : Byte) :
    (t.interrupt bus' code).1 = (s.interrupt bus code).1 ∧
      Alongside R (s.interrupt bus code).2 (t.interrupt bus' code).2 := by
  have hr := s.cpu.interrupt_corresponds hb code h.device
  rw [Session.interrupt, Session.interrupt, apply_eq, apply_eq, h.cpu]
  exact ⟨hr.result, h.after hr⟩

theorem charge {α : Type} (count : α → Tally → Tally) {r : Except Fault α × Session β}
    {r' : Except Fault α × Session γ} (h : Alongside R r.2 r'.2) (hr : r'.1 = r.1) :
    Together R (Session.charge count r) (Session.charge count r') := by
  obtain ⟨x, s⟩ := r
  obtain ⟨y, t⟩ := r'
  obtain rfl : y = x := hr
  cases y with
  | error fault => exact .of_alongside h nofun
  | ok cost => exact .of_alongside (h.count (congrArg (count cost) h.tally)) nofun

end Alongside

theorem Settled.act (h : Settled R s t) (hb : bus.Corresponds R bus') (x : Turn) :
    Together R (s.act bus x) (t.act bus' x) := by
  cases x with
  | powerOff => exact (h.record _ _).stop .powerOff
  | rest => exact h.await
  | limit => exact h.stop .instructionLimit
  | service code =>
    obtain ⟨hres, ha⟩ := h.withdraw.interrupt hb code
    rw [act_service, act_service]
    exact ha.charge _ hres
  | execute =>
    obtain ⟨hres, ha⟩ := h.step hb
    rw [act_execute, act_execute]
    exact ha.charge _ hres

namespace Alongside

theorem round (h : Alongside R s t) (hb : bus.Corresponds R bus') (limit : Option Nat) :
    Together R (s.round bus limit) (t.round bus' limit) := by
  rw [round_eq_act, round_eq_act, h.poll.turn]
  exact h.poll.act hb _

theorem run (h : Alongside R s t) (hb : bus.Corresponds R bus') (limit : Option Nat) (k : Nat) :
    Together R (s.run bus limit k) (t.run bus' limit k) := by
  induction k generalizing s t with
  | zero => exact .of_alongside h nofun
  | succ k ih =>
    have hround := h.round hb limit
    rcases hs : s.round bus limit with ⟨q, s'⟩
    rw [hs] at hround
    obtain ⟨t', ht, htogether⟩ := hround.of_eq
    rw [run_succ, run_succ, hs, ht]
    cases q with
    | running => exact ih htogether.alongside
    | blocked | stopped | faulted => exact htogether

theorem ends (h : Alongside R s t) (hb : bus.Corresponds R bus') (hs : Ends bus limit s p u) :
    ∃ v, Ends bus' limit t p v ∧ Together R (p, u) (p, v) := by
  obtain ⟨hp, k, hk⟩ := ends_iff_run.mp hs
  have hrun := h.run hb limit k
  rw [hk] at hrun
  obtain ⟨v, hv, htogether⟩ := hrun.of_eq
  exact ⟨v, ends_iff_run.mpr ⟨hp, k, hv⟩, htogether⟩

theorem ends_of (h : Alongside R s t) (hb : bus.Corresponds R bus') (ht : Ends bus' limit t p v) :
    ∃ u, Ends bus limit s p u ∧ Together R (p, u) (p, v) := by
  obtain ⟨hp, k, hk⟩ := ends_iff_run.mp ht
  have hrun := h.run hb limit k
  rw [hk] at hrun
  obtain ⟨u, hu, htogether⟩ := hrun.eq_of
  exact ⟨u, ends_iff_run.mpr ⟨hp, k, hu⟩, htogether⟩

end Alongside

/-! ### Coalescing -/

/-- The session with what is queued coalesced, on a device with coalesced signals. The device of a
session here keeps a record of its calls. -/
def coalesced (s : Session (β × List PortCall)) : Session ((Nat × β) × List PortCall) :=
  ⟨s.cpu, ((s.mailbox.senders, s.device.1), s.device.2),
    { s.mailbox with queue := coalesce s.mailbox.queue }, s.tally, s.log⟩

/-- What the two runs have in common when they end. -/
structure SameEnd (p : Progress) (u : Session (β × List PortCall))
    (v : Session ((Nat × β) × List PortCall)) : Prop where
  cpu : v.cpu = u.cpu
  calls : v.device.2 = u.device.2
  device : v.device.1 = (u.mailbox.senders, u.device.1)
  tally : v.tally = u.tally
  senders : v.mailbox.senders = u.mailbox.senders
  connected : v.mailbox.connected = u.mailbox.connected
  left : ∀ reason, p = .stopped reason →
    v.mailbox.pending = u.mailbox.pending ∧ v.mailbox.powerOff = u.mailbox.powerOff

theorem alike_coalesce (m : Mailbox) : Alike m { m with queue := coalesce m.queue } := by
  have hbatch := Alike.arrive (m := { m with queue := [] }) ⟨rfl, rfl, rfl, rfl⟩
    (.coalesce m.queue) m.senders
  exact hbatch

theorem alongside_coalesced (s : Session (β × List PortCall)) :
    Alongside (Recorded fun n b x => x = (n, b)) s.start s.coalesced.start :=
  ⟨rfl, rfl, alike_coalesce _, rfl, rfl⟩

theorem Together.sameEnd {u : Session (β × List PortCall)}
    {v : Session ((Nat × β) × List PortCall)}
    (h : Together (Recorded fun n b x => x = (n, b)) (p, u) (p, v)) : SameEnd p u v :=
  ⟨h.alongside.cpu, h.alongside.device.2, h.alongside.device.1, h.alongside.tally,
    h.alongside.mailbox.senders, h.alongside.mailbox.connected, h.left⟩

/-- A run ends with all signals just as it does with coalesced batches, after the same calls on the
device. -/
theorem coalescing_unnoticed (bus : Bus β) (limit : Option Nat) (s : Session (β × List PortCall)) :
    (∀ p u, Ends bus.recorded limit s.start p u →
        ∃ v, Ends bus.coalesced.recorded limit s.coalesced.start p v ∧ SameEnd p u v) ∧
      ∀ p v, Ends bus.coalesced.recorded limit s.coalesced.start p v →
        ∃ u, Ends bus.recorded limit s.start p u ∧ SameEnd p u v := by
  have hb := bus.coalesced_corresponds.recorded
  have h := alongside_coalesced s
  refine ⟨fun p u hu => ?_, fun p v hv => ?_⟩
  · obtain ⟨v, hv, htogether⟩ := h.ends hb hu
    exact ⟨v, hv, htogether.sameEnd⟩
  · obtain ⟨u, hu, htogether⟩ := h.ends_of hb hv
    exact ⟨u, hu, htogether.sameEnd⟩

end Session

end Intel8080
