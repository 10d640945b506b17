import Intel8080.Proofs.Mailbox.Interleaving
import Mathlib.Data.List.DropRight

/-! Histories of a channel: what its senders and its receiver did, one after the other. As long as
the receiver is there, what it has consumed and what is still queued are together what was sent, and
its flags tell what it has consumed. A receiver that polls or waits while the senders go on makes no
other histories. -/

namespace Intel8080.Channel

open Relation Mailbox

/-- What a party did with its end of the channel, and what came of it. -/
inductive Deed where
  | sent (x : Signal) (accepted : Bool)
  | senderAdded
  | senderDropped
  | receiverDropped
  /-- A poll, with the signals it consumed. -/
  | polled (xs : List Signal)
  /-- A wait that was answered, with the signals it consumed. -/
  | waited (xs : List Signal) (woken : Bool)
  | took (code : Option Byte)
  deriving DecidableEq

namespace Deed

def accepted : Deed → List Signal
  | sent x true => [x]
  | _ => []

def consumed : Deed → List Signal
  | polled xs | waited xs _ => xs
  | _ => []

def ofSender : Deed → Bool
  | sent _ _ | senderAdded | senderDropped => true
  | _ => false

def takes : Deed → Bool
  | took _ => true
  | _ => false

end Deed

/-- The signals that were sent while the receiver was there, in this order. -/
def accepted (ds : List Deed) : List Signal := ds.flatMap Deed.accepted

/-- The signals that the receiver has consumed, in this order. -/
def consumed (ds : List Deed) : List Signal := ds.flatMap Deed.consumed

/-- The signals that the receiver has consumed since it last took the pending interrupt. -/
def recent (ds : List Deed) : List Signal := consumed (ds.rtakeWhile fun d => !d.takes)

/-- The histories of a channel, oldest deed first, with the number of senders alive. Only a sender
that is alive can send, clone itself or be dropped. -/
inductive History : List Deed → Nat → Channel → Prop
  | new : History [] 1 (some {})
  | send {ds n c} (h : History ds n c) (hn : n ≠ 0) (x : Signal) :
      History (ds ++ [.sent x (Channel.send x c).1]) n (Channel.send x c).2
  | addSender {ds n c} (h : History ds n c) (hn : n ≠ 0) :
      History (ds ++ [.senderAdded]) (n + 1) (c.map addSender)
  | dropSender {ds n c} (h : History ds n c) (hn : n ≠ 0) :
      History (ds ++ [.senderDropped]) (n - 1) (c.map dropSender)
  | dropReceiver {ds n m} (h : History ds n (some m)) : History (ds ++ [.receiverDropped]) n none
  | poll {ds n m} (h : History ds n (some m)) :
      History (ds ++ [.polled m.due]) n (some m.poll.1)
  | wait {ds n m woken m' es} (h : History ds n (some m))
      (hw : m.wait? = some (woken, m', es)) : History (ds ++ [.waited m.due woken]) n (some m')
  | take {ds n m} (h : History ds n (some m)) :
      History (ds ++ [.took m.take.1]) n (some m.take.2)

variable {ds older newer : List Deed} {d : Deed} {n : Nat} {c : Channel} {m m' : Mailbox}
  {x : Signal} {xs : List Signal} {b woken : Bool}

@[simp] theorem accepted_concat : accepted (ds ++ [d]) = accepted ds ++ d.accepted := by
  simp [accepted]

@[simp] theorem consumed_concat : consumed (ds ++ [d]) = consumed ds ++ d.consumed := by
  simp [consumed]

theorem recent_concat (hd : d.takes = false) : recent (ds ++ [d]) = recent ds ++ d.consumed := by
  rw [recent, List.rtakeWhile_concat, if_pos (by rw [hd]; rfl), consumed_concat]
  rfl

theorem recent_took (code : Option Byte) : recent (ds ++ [.took code]) = [] := by
  rw [recent, List.rtakeWhile_concat, if_neg (by simp [Deed.takes])]
  rfl

/-- The deed that stands in a longer history is the last one or was there before it. -/
theorem concat_eq_append_cons {e : Deed} (h : ds ++ [d] = older ++ e :: newer) :
    d = e ∧ ds = older ∨ ∃ newer', ds = older ++ e :: newer' := by
  rcases List.eq_nil_or_concat newer with rfl | ⟨newer', d', rfl⟩
  · obtain ⟨rfl, hd⟩ := List.append_inj' h rfl
    exact .inl ⟨List.head_eq_of_cons_eq hd, rfl⟩
  · rw [List.concat_eq_append, ← List.cons_append, ← List.append_assoc] at h
    exact .inr ⟨newer', (List.append_inj' h rfl).1⟩

/-- The newest request behind some that were consumed is the newest of all. -/
theorem newest_append (xs ys : List Byte) :
    (xs.getLast?.toList ++ ys).getLast? = (xs ++ ys).getLast? := by
  rw [List.getLast?_append, List.getLast?_append]
  cases xs.getLast? <;> rfl

/-- What a history says of the mailbox of a receiver that is still there. -/
structure Kept (ds : List Deed) (n : Nat) (m : Mailbox) : Prop where
  senders : m.senders = n
  received : Received (consumed ds) m
  order : consumed ds ++ m.queue = accepted ds
  pending : m.pending = (requests (recent ds)).getLast?

namespace Kept

/-- What the senders do consumes nothing. -/
theorem traffic (h : Kept ds n m) (ht : Traffic m m') (hd : d.ofSender = true)
    (hq : m'.queue = m.queue ++ d.accepted) (hp : m'.pending = m.pending) :
    Kept (ds ++ [d]) m'.senders m' := by
  have hconsumed : d.consumed = [] := by cases d <;> first | rfl | cases hd
  have htakes : d.takes = false := by cases d <;> first | rfl | cases hd
  refine ⟨rfl, ?_, ?_, ?_⟩
  · rw [consumed_concat, hconsumed, List.append_nil]
    exact h.received.traffic ht
  · rw [consumed_concat, hconsumed, List.append_nil, hq, ← List.append_assoc, h.order,
      accepted_concat]
  · rw [recent_concat htakes, hconsumed, List.append_nil, hp]
    exact h.pending

/-- A poll, or a wait, consumes what is queued. -/
theorem poll (h : Kept ds n m) (hd : d.consumed = m.due) (ha : d.accepted = [])
    (ht : d.takes = false) : Kept (ds ++ [d]) n m.poll.1 := by
  refine ⟨?_, ?_, ?_, ?_⟩
  · rw [poll_senders, h.senders]
  · rw [consumed_concat, hd, h.received.due_eq]
    exact h.received.polled
  · rw [consumed_concat, hd, List.append_assoc, due_append_queue, h.order, accepted_concat, ha,
      List.append_nil]
  · rw [recent_concat ht, hd, requests_append, poll_pending, h.pending]
    exact newest_append _ _

theorem take (h : Kept ds n m) : Kept (ds ++ [.took m.take.1]) n m.take.2 := by
  have hconsumed : (Deed.took m.take.1).consumed = [] := rfl
  have haccepted : (Deed.took m.take.1).accepted = [] := rfl
  refine ⟨h.senders, ?_, ?_, ?_⟩
  · rw [consumed_concat, hconsumed, List.append_nil]
    exact h.received.take
  · rw [consumed_concat, accepted_concat, hconsumed, haccepted, List.append_nil, List.append_nil]
    exact h.order
  · rw [recent_took]
    rfl

end Kept

namespace History

theorem kept (h : History ds n c) : ∀ m, c = some m → Kept ds n m := by
  induction h with
  | new =>
    rintro _ ⟨⟩
    exact ⟨rfl, .new, rfl, rfl⟩
  | @send ds n c h hn x ih =>
    rintro m' hm'
    obtain ⟨m, rfl, rfl⟩ := Option.map_eq_some_iff.mp hm'
    have hk := ih m rfl
    have hs : m.senders ≠ 0 := by rwa [hk.senders]
    have hsend : m.send x = { m with queue := m.queue ++ [x] } := if_neg hs
    have hanswer : (Channel.send x (some m)).1 = true := by simp [Channel.send, hs]
    rw [hanswer]
    have hsenders : (m.send x).senders = n := by rw [hsend, hk.senders]
    rw [← hsenders]
    exact hk.traffic (.send m x) rfl (by rw [hsend]; rfl) (by rw [hsend])
  | addSender h hn ih =>
    rintro m' hm'
    obtain ⟨m, rfl, rfl⟩ := Option.map_eq_some_iff.mp hm'
    have hk := ih m rfl
    rw [← hk.senders] at hn ⊢
    exact hk.traffic (.addSender hn) rfl (List.append_nil _).symm rfl
  | dropSender h hn ih =>
    rintro m' hm'
    obtain ⟨m, rfl, rfl⟩ := Option.map_eq_some_iff.mp hm'
    have hk := ih m rfl
    rw [← hk.senders]
    exact hk.traffic (.dropSender m) rfl (List.append_nil _).symm rfl
  | dropReceiver => nofun
  | poll h ih =>
    rintro _ ⟨⟩
    exact (ih _ rfl).poll rfl rfl rfl
  | wait h hw ih =>
    rintro _ ⟨⟩
    rw [(wait?_eq_some hw).1]
    exact (ih _ rfl).poll rfl rfl rfl
  | take h ih =>
    rintro _ ⟨⟩
    exact (ih _ rfl).take

theorem isSome_iff (h : History ds n c) : c.isSome = true ↔ .receiverDropped ∉ ds := by
  induction h with
  | new => simp
  | send _ _ _ ih => simpa [Channel.send] using ih
  | addSender _ _ ih | dropSender _ _ ih => simpa using ih
  | dropReceiver => simp
  | poll _ ih | wait _ _ ih | take _ ih => simpa using ih

/-- A sender that is alive can send for as long as there is a receiver. -/
theorem send_answer (h : History ds n c) (hn : n ≠ 0) (x : Signal) :
    (Channel.send x c).1 = c.isSome := by
  cases c with
  | none => rfl
  | some m => simp [Channel.send, (h.kept m rfl).senders, hn]

/-- A signal was accepted exactly if the receiver had not been dropped before. -/
theorem sent_iff (h : History ds n c) {older newer : List Deed} {x : Signal} {b : Bool}
    (hds : ds = older ++ .sent x b :: newer) : b = true ↔ .receiverDropped ∉ older := by
  induction h generalizing newer with
  | new => simp at hds
  | @send ds n c h hn y ih =>
    obtain ⟨hd, rfl⟩ | ⟨newer, rfl⟩ := concat_eq_append_cons hds
    · obtain ⟨rfl, rfl⟩ := Deed.sent.inj hd
      rw [h.send_answer hn]
      exact h.isSome_iff
    · exact ih rfl
  | addSender _ _ ih | dropSender _ _ ih | dropReceiver _ ih | poll _ ih | wait _ _ ih
  | take _ ih =>
    obtain ⟨hd, -⟩ | ⟨newer, rfl⟩ := concat_eq_append_cons hds
    · cases hd
    · exact ih rfl

/-- Whatever the senders do is part of some history. A sender that is gone does nothing. -/
theorem traffics (h : History ds n (some m)) (ht : ReflTransGen Traffic m m') :
    ∃ es k, (∀ d ∈ es, d.ofSender = true) ∧ History (ds ++ es) k (some m') := by
  induction ht with
  | refl =>
    refine ⟨[], n, nofun, ?_⟩
    rwa [List.append_nil]
  | @tail m' m'' _ ht ih =>
    obtain ⟨es, k, hes, hk⟩ := ih
    have hsenders := (hk.kept m' rfl).senders
    by_cases hzero : k = 0
    · rw [ht.eq_of_no_senders (hsenders.trans hzero)]
      exact ⟨es, k, hes, hk⟩
    · have hmore : ∀ {d : Deed} {k' : Nat}, d.ofSender = true →
          History (ds ++ es ++ [d]) k' (some m'') →
          ∃ es k, (∀ d ∈ es, d.ofSender = true) ∧ History (ds ++ es) k (some m'') := by
        intro d k' hd hk'
        refine ⟨es ++ [d], k', fun d' hd' => ?_, by rwa [← List.append_assoc]⟩
        rcases List.mem_append.mp hd' with he | he
        · exact hes d' he
        · rwa [List.mem_singleton.mp he]
      cases ht with
      | send x => exact hmore rfl (hk.send hzero x)
      | addSender => exact hmore rfl (hk.addSender hzero)
      | dropSender => exact hmore rfl (hk.dropSender hzero)

end History

/-- What a history tells. Everything but the answers to the senders is about a receiver that is
still there. -/
structure Told (ds : List Deed) (n : Nat) (c : Channel) : Prop where
  sent : ∀ older x b newer, ds = older ++ .sent x b :: newer → (b = true ↔ .receiverDropped ∉ older)
  present : c.isSome = true ↔ .receiverDropped ∉ ds
  /-- Nothing is lost, doubled or out of order. -/
  order : ∀ m, c = some m → consumed ds ++ m.queue = accepted ds
  powerOff : ∀ m, c = some m → (m.powerOff = true ↔ Signal.powerOff ∈ consumed ds)
  pending : ∀ m, c = some m → m.pending = (requests (recent ds)).getLast?
  poll : ∀ m, c = some m → m.poll.1.queue = []
  wait : ∀ m woken m' es, c = some m → m.wait? = some (woken, m', es) →
    (woken = true ↔ m.queue ≠ []) ∧ m'.queue = []
  /-- No signal is hidden behind a disconnect, and none can come. -/
  disconnected : ∀ m, c = some m → m.connected = false → m.queue = [] ∧ n = 0
  /-- A poll that the senders interrupt makes a history as if they had acted before it. -/
  drained : ∀ m xs m', c = some m → Drains m xs m' → m'.queue = [] ∧
    ∃ es k, (∀ d ∈ es, d.ofSender = true) ∧ History (ds ++ es ++ [.polled xs]) k (some m')
  awaited : ∀ m woken xs m', c = some m → Awaits m woken xs m' → m'.queue = [] ∧
    ∃ es k, (∀ d ∈ es, d.ofSender = true) ∧ History (ds ++ es ++ [.waited xs woken]) k (some m')

namespace History

/-- A poll leaves nothing, as a disconnected mailbox has nothing to leave. -/
theorem poll_empty (h : History ds n (some m)) : m.poll.1.queue = [] := by
  cases hc : m.connected with
  | true => exact poll_queue hc
  | false =>
    rw [poll_of_disconnected hc]
    exact ((h.kept m rfl).received.consistent.disconnected hc).2

theorem wait_empty (h : History ds n (some m)) {es : List Event}
    (hw : m.wait? = some (woken, m', es)) : (woken = true ↔ m.queue ≠ []) ∧ m'.queue = [] := by
  obtain ⟨rfl, ⟨rfl, -, hq⟩ | ⟨rfl, hdue, -⟩⟩ := wait?_eq_some hw
  · exact ⟨iff_of_true rfl hq, h.poll_empty⟩
  · rw [(h.kept m rfl).received.due_eq] at hdue
    exact ⟨iff_of_false nofun (not_not_intro hdue), h.poll_empty⟩

end History

/-- What every history of a channel tells. -/
theorem history_told (h : History ds n c) : Told ds n c where
  sent _ _ _ _ hds := h.sent_iff hds
  present := h.isSome_iff
  order m hm := (h.kept m hm).order
  powerOff m hm := (h.kept m hm).received.consistent.powerOff
  pending m hm := (h.kept m hm).pending
  poll := by
    rintro m rfl
    exact h.poll_empty
  wait := by
    rintro m woken m' es rfl hw
    exact h.wait_empty hw
  disconnected m hm hc := by
    obtain ⟨hs, hq⟩ := (h.kept m hm).received.consistent.disconnected hc
    exact ⟨hq, (h.kept m hm).senders.symm.trans hs⟩
  drained := by
    rintro m xs m' rfl hd
    obtain ⟨k, hk, rfl, rfl⟩ := drains_iff.mp hd
    obtain ⟨es, n', hes, h'⟩ := h.traffics hk
    exact ⟨h'.poll_empty, es, n', hes, h'.poll⟩
  awaited := by
    rintro m woken xs m' rfl hw
    obtain ⟨k, hk, rfl, es', hwait⟩ := awaits_iff.mp hw
    obtain ⟨es, n', hes, h'⟩ := h.traffics hk
    exact ⟨(h'.wait_empty hwait).2, es, n', hes, h'.wait hwait⟩

/-- Two senders and a receiver that polls, takes what is pending and waits. Then it is dropped, and
the sender that is left gets no signal through. -/
def exchanged : List Deed :=
  [.sent (.interrupt 0xC7) true, .senderAdded, .sent (.interrupt 0xCF) true,
    .polled [.interrupt 0xC7, .interrupt 0xCF], .took (some 0xCF), .sent .powerOff true,
    .senderDropped, .sent (.interrupt 0xD7) true, .waited [.powerOff, .interrupt 0xD7] true,
    .sent (.interrupt 0xDF) true, .receiverDropped, .sent .powerOff false]

/-- Before the receiver is dropped the third request is pending and the fourth is queued. -/
theorem history_told_exchanged :
    (∃ m, History (exchanged.take 10) 1 (some m) ∧ Told (exchanged.take 10) 1 (some m) ∧
      m.pending = some 0xD7 ∧ m.powerOff = true ∧ m.queue = [.interrupt 0xDF]) ∧
      History exchanged 1 none ∧ Told exchanged 1 none := by
  have h₃ := ((History.new.send Nat.one_ne_zero (.interrupt 0xC7)).addSender Nat.one_ne_zero).send
    (Nat.succ_ne_zero 1) (.interrupt 0xCF)
  have h₇ := ((h₃.poll.take).send (Nat.succ_ne_zero 1) .powerOff).dropSender (Nat.succ_ne_zero 1)
  have h₁₀ := ((h₇.send Nat.one_ne_zero (.interrupt 0xD7)).wait rfl).send Nat.one_ne_zero
    (.interrupt 0xDF)
  have h₁₂ := h₁₀.dropReceiver.send Nat.one_ne_zero .powerOff
  exact ⟨⟨_, h₁₀, history_told h₁₀, rfl, rfl, rfl⟩, h₁₂, history_told h₁₂⟩

end Intel8080.Channel
