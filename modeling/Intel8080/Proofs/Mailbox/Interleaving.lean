import Intel8080.Proofs.Mailbox.Requests

/-! Polling and waiting while the senders go on. The receiver takes one signal at a time from the
front of the queue, and in between the senders may do anything. As they only add to the back, it
comes to the same as if they had acted first and the receiver had then polled or waited at one
stroke. -/

namespace Intel8080.Mailbox

open Relation

/-- The receiver has taken the signal from the front of the first mailbox's queue, which leaves the
second. -/
structure Reads (x : Signal) (m n : Mailbox) : Prop where
  queue : m.queue = x :: n.queue
  accepted : n = (accept x { m with queue := n.queue }).1

/-- A poll that takes signal after signal until it finds the queue empty, with what it consumes. It
notices that the senders are gone only then. -/
inductive Drains : Mailbox → List Signal → Mailbox → Prop
  | traffic {m n xs m'} (ht : Traffic m n) (h : Drains n xs m') : Drains m xs m'
  | read {m n x xs m'} (hc : m.connected = true) (hr : Reads x m n) (h : Drains n xs m') :
      Drains m (x :: xs) m'
  | empty {m} (hc : m.connected = true) (hq : m.queue = []) (hs : m.senders ≠ 0) : Drains m [] m
  | hungUp {m} (hc : m.connected = true) (hq : m.queue = []) (hs : m.senders = 0) :
      Drains m [] { m with connected := false }
  | disconnected {m} (hc : m.connected = false) : Drains m [] m

/-- A wait that is answered, with its answer and what it consumes: it takes a first signal once
there is one, and then polls. -/
inductive Awaits : Mailbox → Bool → List Signal → Mailbox → Prop
  | traffic {m n woken xs m'} (ht : Traffic m n) (h : Awaits n woken xs m') : Awaits m woken xs m'
  | read {m n x xs m'} (hc : m.connected = true) (hr : Reads x m n) (h : Drains n xs m') :
      Awaits m true (x :: xs) m'
  | hungUp {m} (hc : m.connected = true) (hq : m.queue = []) (hs : m.senders = 0) :
      Awaits m false [] { m with connected := false }
  | disconnected {m} (hc : m.connected = false) : Awaits m false [] m

variable {m m' n n' k : Mailbox} {x : Signal} {xs : List Signal} {woken : Bool}

theorem Traffic.connected_eq (h : Traffic m m') : m'.connected = m.connected := by
  cases h with
  | addSender | dropSender => rfl
  | send x =>
    unfold Mailbox.send
    split <;> rfl

theorem traffics_connected (h : ReflTransGen Traffic m m') : m'.connected = m.connected := by
  induction h with
  | refl => rfl
  | tail _ ht ih => exact ht.connected_eq.trans ih

theorem poll_of_connected (hc : m.connected = true) :
    m.poll.1 =
      { (acceptAll m.queue { m with queue := [] }).1 with
        connected := decide (m.senders ≠ 0) } := by
  simp only [poll, if_pos hc, acceptAll_senders]

/-! ### One signal -/

namespace Reads

theorem connected (h : Reads x m n) : n.connected = m.connected := by
  rw [h.accepted]
  cases x <;> rfl

theorem senders (h : Reads x m n) : n.senders = m.senders := by
  rw [h.accepted]
  cases x <;> rfl

/-- A poll reads the signal at the front and then goes on as a poll. -/
theorem poll (h : Reads x m n) (hc : m.connected = true) :
    m.due = x :: n.due ∧ m.poll.1 = n.poll.1 := by
  have hn : n.connected = true := h.connected.trans hc
  have haccepted : (accept x { m with queue := [] }).1 = { n with queue := [] } := by
    rw [h.accepted]
    cases x <;> rfl
  have hall : (acceptAll m.queue { m with queue := [] }).1 =
      (acceptAll n.queue { n with queue := [] }).1 := by
    rw [h.queue, ← haccepted]
    rfl
  refine ⟨?_, ?_⟩
  · rw [due_of_connected hc, due_of_connected hn, h.queue]
  · rw [poll_of_connected hc, poll_of_connected hn, hall, h.senders]

/-- What the senders do after the signal is taken they could have done before. -/
theorem traffic (h : Reads x m n) (ht : Traffic n n') : ∃ m', Traffic m m' ∧ Reads x m' n' := by
  have hq := h.queue
  have hs := h.senders
  have ha := h.accepted
  cases ht with
  | addSender hn =>
    refine ⟨m.addSender, .addSender (by rwa [← hs]), hq, ?_⟩
    rw [addSender, ha]
    cases x <;> rfl
  | dropSender =>
    refine ⟨m.dropSender, .dropSender m, hq, ?_⟩
    rw [dropSender, ha]
    cases x <;> rfl
  | send y =>
    refine ⟨m.send y, .send m y, ?_⟩
    by_cases hzero : m.senders = 0
    · rw [send, send, if_pos hzero, if_pos (hs.trans hzero)]
      exact h
    · rw [send, send, if_neg hzero, if_neg (by rwa [hs])]
      refine ⟨by simp [hq], ?_⟩
      rw [ha]
      cases x <;> rfl

theorem traffics (h : Reads x m n) (ht : ReflTransGen Traffic n n') :
    ∃ m', ReflTransGen Traffic m m' ∧ Reads x m' n' := by
  induction ht with
  | refl => exact ⟨m, .refl, h⟩
  | tail _ ht ih =>
    obtain ⟨m', hm, hr⟩ := ih
    obtain ⟨m'', ht', hr'⟩ := hr.traffic ht
    exact ⟨m'', hm.tail ht', hr'⟩

end Reads

theorem reads_of_queue {rest : List Signal} (hq : m.queue = x :: rest) :
    ∃ n, Reads x m n ∧ n.queue = rest := by
  have hrest : (accept x { m with queue := rest }).1.queue = rest := by cases x <;> rfl
  exact ⟨_, ⟨by rw [hrest, hq], by rw [hrest]⟩, hrest⟩

/-! ### Polls and waits -/

/-- Undisturbed, the loop consumes the queue and comes to the same as the poll at one stroke. -/
theorem drains_poll (m : Mailbox) : Drains m m.due m.poll.1 := by
  cases hc : m.connected with
  | false =>
    rw [poll_of_disconnected hc, due_of_disconnected hc]
    exact .disconnected hc
  | true =>
    generalize hq : m.queue = queue
    induction queue generalizing m with
    | nil =>
      rw [due_of_connected hc, hq]
      by_cases hs : m.senders = 0
      · rw [poll_of_hungUp hc hq hs]
        exact .hungUp hc hq hs
      · rw [poll_of_empty hc hq hs]
        exact .empty hc hq hs
    | cons x rest ih =>
      obtain ⟨n, hr, hn⟩ := reads_of_queue hq
      obtain ⟨hdue, hpoll⟩ := hr.poll hc
      rw [hdue, hpoll]
      exact .read hc hr (ih n (hr.connected.trans hc) hn)

/-- Polling signal by signal is a poll at one stroke, behind everything that the senders did. -/
theorem drains_iff :
    Drains m xs m' ↔ ∃ k, ReflTransGen Traffic m k ∧ xs = k.due ∧ m' = k.poll.1 := by
  constructor
  · intro h
    induction h with
    | traffic ht _ ih =>
      obtain ⟨k, hk, hxs, hm⟩ := ih
      exact ⟨k, hk.head ht, hxs, hm⟩
    | read hc hr _ ih =>
      obtain ⟨n', hn, rfl, rfl⟩ := ih
      obtain ⟨k, hk, hr'⟩ := hr.traffics hn
      obtain ⟨hdue, hpoll⟩ := hr'.poll ((traffics_connected hk).trans hc)
      exact ⟨k, hk, hdue.symm, hpoll.symm⟩
    | @empty m hc hq hs =>
      refine ⟨m, .refl, ?_, ?_⟩
      · rw [due_of_connected hc, hq]
      · rw [poll_of_empty hc hq hs]
    | @hungUp m hc hq hs =>
      refine ⟨m, .refl, ?_, (poll_of_hungUp hc hq hs).symm⟩
      rw [due_of_connected hc, hq]
    | @disconnected m hc =>
      refine ⟨m, .refl, (due_of_disconnected hc).symm, ?_⟩
      rw [poll_of_disconnected hc]
  · rintro ⟨k, hk, rfl, rfl⟩
    induction hk using ReflTransGen.head_induction_on with
    | refl => exact drains_poll k
    | head ht _ ih => exact .traffic ht ih

/-- The two ways in which a wait is answered. -/
theorem wait?_eq_some {es : List Event} (h : m.wait? = some (woken, m', es)) :
    m' = m.poll.1 ∧
      (woken = true ∧ m.connected = true ∧ m.queue ≠ [] ∨
        woken = false ∧ m.due = [] ∧ (m.connected = true → m.queue = [] ∧ m.senders = 0)) := by
  unfold wait? at h
  split at h
  next hc =>
    split at h
    next hq =>
      split at h <;> cases h
      next hs =>
        rw [poll_of_hungUp hc hq hs, due_of_connected hc]
        exact ⟨rfl, .inr ⟨rfl, hq, fun _ => ⟨hq, hs⟩⟩⟩
    next hq =>
      obtain ⟨rfl, hpoll⟩ := Prod.mk.inj (Option.some.inj h)
      rw [hpoll, hq]
      exact ⟨rfl, .inl ⟨rfl, hc, nofun⟩⟩
  next hc =>
    cases h
    rw [Bool.not_eq_true] at hc
    rw [poll_of_disconnected hc, due_of_disconnected hc]
    exact ⟨rfl, .inr ⟨rfl, rfl, by rw [hc]; nofun⟩⟩

/-- An undisturbed wait. -/
theorem awaits_wait? {es : List Event} (h : m.wait? = some (woken, m', es)) :
    Awaits m woken m.due m' := by
  obtain ⟨rfl, ⟨rfl, hc, hq⟩ | ⟨rfl, hdue, hempty⟩⟩ := wait?_eq_some h
  · obtain ⟨x, rest, hq⟩ := List.exists_cons_of_ne_nil hq
    obtain ⟨n, hr, -⟩ := reads_of_queue hq
    obtain ⟨hdue, hpoll⟩ := hr.poll hc
    rw [hdue, hpoll]
    exact .read hc hr (drains_poll n)
  · rw [hdue]
    cases hc : m.connected with
    | false =>
      rw [poll_of_disconnected hc]
      exact .disconnected hc
    | true =>
      obtain ⟨hq, hs⟩ := hempty hc
      rw [poll_of_hungUp hc hq hs]
      exact .hungUp hc hq hs

/-- Waiting signal by signal is a wait at one stroke, behind everything that the senders did. -/
theorem awaits_iff :
    Awaits m woken xs m' ↔
      ∃ k, ReflTransGen Traffic m k ∧ xs = k.due ∧ ∃ es, k.wait? = some (woken, m', es) := by
  constructor
  · intro h
    induction h with
    | traffic ht _ ih =>
      obtain ⟨k, hk, hxs, hw⟩ := ih
      exact ⟨k, hk.head ht, hxs, hw⟩
    | read hc hr h =>
      obtain ⟨n', hn, rfl, rfl⟩ := drains_iff.mp h
      obtain ⟨k, hk, hr'⟩ := hr.traffics hn
      have hconnected : k.connected = true := (traffics_connected hk).trans hc
      obtain ⟨hdue, hpoll⟩ := hr'.poll hconnected
      refine ⟨k, hk, hdue.symm, k.poll.2, ?_⟩
      rw [wait?, if_pos hconnected, hr'.queue, ← hpoll]
    | @hungUp m hc hq hs =>
      refine ⟨m, .refl, ?_, [], ?_⟩
      · rw [due_of_connected hc, hq]
      · rw [wait?, if_pos hc, hq]
        exact if_pos hs
    | @disconnected m hc =>
      refine ⟨m, .refl, (due_of_disconnected hc).symm, [], ?_⟩
      rw [wait?, if_neg (by rw [hc]; nofun)]
  · rintro ⟨k, hk, rfl, es, hw⟩
    induction hk using ReflTransGen.head_induction_on with
    | head ht _ ih => exact .traffic ht ih
    | refl => exact awaits_wait? hw

end Intel8080.Mailbox
