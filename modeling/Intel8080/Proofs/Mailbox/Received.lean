import Intel8080.Mailbox
import Mathlib.Logic.Relation

/-! What a mailbox has received. Senders add to the queue, come and go; polling consumes all that
is queued. However these are mixed, the power-off flag tells whether a power-off was consumed,
and a mailbox that is disconnected has no sender and nothing queued. -/

namespace Intel8080.Mailbox

/-- What the senders can do: send, clone themselves, go away. -/
inductive Traffic : Mailbox → Mailbox → Prop
  | send (m : Mailbox) (x : Signal) : Traffic m (m.send x)
  | addSender {m : Mailbox} (h : m.senders ≠ 0) : Traffic m m.addSender
  | dropSender (m : Mailbox) : Traffic m m.dropSender

/-- A mailbox that has consumed the signals, in this order. -/
inductive Received : List Signal → Mailbox → Prop
  | new : Received [] {}
  | traffic {xs m m'} (h : Received xs m) (ht : Traffic m m') : Received xs m'
  | poll {xs m} (h : Received xs m) (hc : m.connected = true) : Received (xs ++ m.queue) m.poll.1
  | take {xs m} (h : Received xs m) : Received xs m.take.2

/-! ### Polling -/

theorem acceptAll_queue (xs : List Signal) (m : Mailbox) : (acceptAll xs m).1.queue = m.queue := by
  induction xs generalizing m with
  | nil => rfl
  | cons x xs ih =>
    simp only [acceptAll, ih]
    cases x <;> rfl

theorem acceptAll_senders (xs : List Signal) (m : Mailbox) :
    (acceptAll xs m).1.senders = m.senders := by
  induction xs generalizing m with
  | nil => rfl
  | cons x xs ih =>
    simp only [acceptAll, ih]
    cases x <;> rfl

theorem acceptAll_powerOff (xs : List Signal) (m : Mailbox) :
    (acceptAll xs m).1.powerOff = true ↔ m.powerOff = true ∨ Signal.powerOff ∈ xs := by
  induction xs generalizing m with
  | nil => simp [acceptAll]
  | cons x xs ih =>
    simp only [acceptAll, ih]
    cases x <;> simp [accept]

theorem poll_of_disconnected {m : Mailbox} (h : m.connected = false) : m.poll = (m, []) := by
  simp [poll, h]

variable {m : Mailbox}

theorem poll_queue (h : m.connected = true) : m.poll.1.queue = [] := by
  simp only [poll, h, if_true]
  exact acceptAll_queue _ _

theorem poll_senders (m : Mailbox) : m.poll.1.senders = m.senders := by
  unfold poll
  split
  · exact acceptAll_senders _ _
  · rfl

theorem poll_connected (h : m.connected = true) :
    m.poll.1.connected = decide (m.senders ≠ 0) := by
  simp only [poll, h, if_true, acceptAll_senders]

theorem poll_powerOff (h : m.connected = true) :
    m.poll.1.powerOff = true ↔ m.powerOff = true ∨ Signal.powerOff ∈ m.queue := by
  simp only [poll, h, if_true]
  exact acceptAll_powerOff _ _

theorem poll_of_empty (hc : m.connected = true) (hq : m.queue = []) (hs : m.senders ≠ 0) :
    m.poll = (m, []) := by
  rcases m with ⟨queue, senders, pending, powerOff, connected⟩
  simp only at hc hq hs
  subst hc hq
  simp [poll, acceptAll, hs]

theorem poll_of_hungUp (hc : m.connected = true) (hq : m.queue = []) (hs : m.senders = 0) :
    m.poll.1 = { m with connected := false } := by
  rcases m with ⟨queue, senders, pending, powerOff, connected⟩
  simp only at hc hq hs
  subst hc hq hs
  rfl

/-- A second poll finds nothing that the first has left. -/
theorem poll_poll (m : Mailbox) : m.poll.1.poll = (m.poll.1, []) := by
  cases hc : m.connected with
  | false =>
    have hm := poll_of_disconnected hc
    rw [hm]
    exact hm
  | true =>
    cases hd : m.poll.1.connected with
    | false => exact poll_of_disconnected hd
    | true =>
      have hs : m.poll.1.senders ≠ 0 := by
        rw [poll_connected hc, decide_eq_true_eq] at hd
        rwa [poll_senders]
      exact poll_of_empty hd (poll_queue hc) hs

/-! ### Waiting -/

/-- The answer that nothing can arrive leaves the mailbox disconnected and else as it was. -/
theorem wait?_false {m' : Mailbox} {es : List Event} (h : m.wait? = some (false, m', es)) :
    m' = { m with connected := false } ∧ (m.connected = true → m.senders = 0 ∧ m.queue = []) := by
  unfold wait? at h
  split at h
  next hc =>
    split at h
    next hq =>
      split at h <;> cases h
      next hs => exact ⟨rfl, fun _ => ⟨hs, hq⟩⟩
    next => cases h
  next hc =>
    cases h
    rw [Bool.not_eq_true] at hc
    refine ⟨?_, fun h => by rw [hc] at h; cases h⟩
    rw [← hc]

theorem wait?_true {m' : Mailbox} {es : List Event} (h : m.wait? = some (true, m', es)) :
    m.connected = true ∧ m.queue ≠ [] := by
  unfold wait? at h
  split at h
  next hc =>
    split at h
    next => split at h <;> cases h
    next hq => exact ⟨hc, by rw [hq]; nofun⟩
  next => cases h

/-- After a poll there is nothing left to wait for and find. -/
theorem poll_wait? (m m' : Mailbox) (es : List Event) : m.poll.1.wait? ≠ some (true, m', es) := by
  intro h
  obtain ⟨hc, hq⟩ := wait?_true h
  cases hm : m.connected with
  | true => exact hq (poll_queue hm)
  | false =>
    rw [poll_of_disconnected hm, hm] at hc
    cases hc

/-- There is no answer only while some sender is left. -/
theorem wait?_none (h : m.wait? = none) : m.connected = true ∧ m.senders ≠ 0 ∧ m.queue = [] := by
  unfold wait? at h
  split at h
  next hc =>
    split at h
    next hq =>
      split at h
      next => cases h
      next hs => exact ⟨hc, hs, hq⟩
    next => cases h
  next => cases h

/-! ### Every mailbox -/

/-- With no sender left nothing happens to a mailbox. -/
theorem Traffic.eq_of_no_senders {m' : Mailbox} (h : Traffic m m') (hs : m.senders = 0) :
    m' = m := by
  cases h with
  | send x => exact if_pos hs
  | addSender hn => exact absurd hs hn
  | dropSender =>
    rcases m with ⟨queue, senders, pending, powerOff, connected⟩
    obtain rfl : senders = 0 := hs
    rfl

/-- What holds of a mailbox that has consumed the signals. -/
structure Consistent (xs : List Signal) (m : Mailbox) : Prop where
  disconnected : m.connected = false → m.senders = 0 ∧ m.queue = []
  powerOff : m.powerOff = true ↔ Signal.powerOff ∈ xs

namespace Consistent

variable {xs : List Signal}

theorem traffic {m' : Mailbox} (h : Consistent xs m) (ht : Traffic m m') : Consistent xs m' := by
  cases ht with
  | send x =>
    unfold send
    split
    · exact h
    next hs => exact ⟨fun hc => absurd (h.disconnected hc).1 hs, h.powerOff⟩
  | addSender hs => exact ⟨fun hc => absurd (h.disconnected hc).1 hs, h.powerOff⟩
  | dropSender =>
    refine ⟨fun hc => ?_, h.powerOff⟩
    obtain ⟨hs, hq⟩ := h.disconnected hc
    exact ⟨by simp only [Mailbox.dropSender, hs], hq⟩

theorem poll (h : Consistent xs m) (hc : m.connected = true) :
    Consistent (xs ++ m.queue) m.poll.1 := by
  refine ⟨fun hd => ?_, ?_⟩
  · rw [poll_connected hc, decide_eq_false_iff_not, Decidable.not_not] at hd
    exact ⟨(poll_senders m).trans hd, poll_queue hc⟩
  · rw [poll_powerOff hc, h.powerOff, List.mem_append]

theorem take (h : Consistent xs m) : Consistent xs m.take.2 := ⟨h.disconnected, h.powerOff⟩

end Consistent

theorem Received.consistent {xs : List Signal} (h : Received xs m) : Consistent xs m := by
  induction h with
  | new => exact ⟨nofun, by simp⟩
  | traffic _ ht ih => exact ih.traffic ht
  | poll _ hc ih => exact ih.poll hc
  | take _ ih => exact ih.take

namespace Received

variable {xs : List Signal}

theorem traffics {m' : Mailbox} (h : Received xs m)
    (ht : Relation.ReflTransGen Traffic m m') : Received xs m' := by
  induction ht with
  | refl => exact h
  | tail _ ht ih => exact ih.traffic ht

/-- A disconnected mailbox has nothing queued, so polling always consumes the queue. -/
theorem polled (h : Received xs m) : Received (xs ++ m.queue) m.poll.1 := by
  cases hc : m.connected with
  | true => exact h.poll hc
  | false =>
    rw [poll_of_disconnected hc, (h.consistent.disconnected hc).2, List.append_nil]
    exact h

end Received

end Intel8080.Mailbox
