import Intel8080.Proofs.Session.Ends
import Intel8080.Proofs.Session.Underway

/-! A power-off comes before everything else. A run that finds one received or queued returns at
once: it polls the mailbox and touches neither the processor nor the device, and so does every later
run on that mailbox. A power-off that the device sends while an instruction executes ends the run
right behind that instruction. -/

namespace Intel8080

open Relation

namespace Mailbox

/-- What can happen to a mailbox, within runs and between them. -/
inductive Use : Mailbox → Mailbox → Prop
  | traffic {m m'} (h : Traffic m m') : Use m m'
  | poll (m : Mailbox) : Use m m.poll.1
  | take (m : Mailbox) : Use m m.take.2

variable {m m' : Mailbox} {xs : List Signal}

theorem Traffic.queue_subset (h : Traffic m m') : m.queue ⊆ m'.queue := by
  cases h with
  | addSender | dropSender => exact fun _ hx => hx
  | send x =>
    unfold Mailbox.send
    split
    · exact fun _ hx => hx
    · exact List.subset_append_left _ _

/-- The mailbox was told to power off: the signal was consumed already or is still queued. -/
structure ToldOff (xs : List Signal) (m : Mailbox) : Prop where
  received : Received xs m
  told : Signal.powerOff ∈ xs ++ m.queue

namespace ToldOff

theorem use (h : ToldOff xs m) (hu : Use m m') : ∃ ys, ToldOff ys m' := by
  cases hu with
  | traffic ht =>
    refine ⟨xs, h.received.traffic ht, ?_⟩
    rcases List.mem_append.mp h.told with hx | hq
    · exact List.mem_append_left _ hx
    · exact List.mem_append_right _ (ht.queue_subset hq)
  | poll => exact ⟨_, h.received.polled, List.mem_append_left _ h.told⟩
  | take => exact ⟨xs, h.received.take, h.told⟩

theorem uses (h : ToldOff xs m) (hu : ReflTransGen Use m m') : ∃ ys, ToldOff ys m' := by
  induction hu with
  | refl => exact ⟨xs, h⟩
  | tail _ hu ih =>
    obtain ⟨ys, hy⟩ := ih
    exact hy.use hu

theorem traffics (h : ToldOff xs m) (ht : ReflTransGen Traffic m m') : ∃ ys, ToldOff ys m' :=
  h.uses (ht.lift id fun _ _ => .traffic)

theorem polled (h : ToldOff xs m) : m.poll.1.powerOff = true :=
  h.received.polled.consistent.powerOff.mpr h.told

end ToldOff

end Mailbox

namespace Session

open Mailbox

variable {β : Type} {bus : Bus β} {limit : Option Nat} {s t u : Session β} {xs : List Signal}

/-- The session once a round has found the power off. -/
def switchedOff (s : Session β) : Session β :=
  ((s.poll.record (.poweredOff s.cpu.core.registers.pc)).stop .powerOff).2

theorem round_of_toldOff (h : ToldOff xs s.mailbox) (bus : Bus β) (limit : Option Nat) :
    s.round bus limit = (.stopped .powerOff, s.switchedOff) := by
  have hd : Decided limit s.poll .powerOff := .powerOff h.polled
  rw [round_eq_act, hd.turn_eq]
  rfl

/-- A run that found the power off. Nothing was counted, and no interrupt was taken: the newest
request is pending. -/
structure Untouched (s u : Session β) : Prop where
  cpu : u.cpu = s.cpu
  device : u.device = s.device
  tally : u.tally = {}
  mailbox : u.mailbox = s.mailbox.poll.1
  pending : u.mailbox.pending = (s.mailbox.pending.toList ++ requests s.mailbox.queue).getLast?

theorem run_of_toldOff (h : ToldOff xs s.mailbox) :
    ∃ u, Untouched s u ∧ ∀ (bus : Bus β) (limit : Option Nat) (n : Nat),
      s.start.run bus limit (n + 1) = (.stopped .powerOff, u) := by
  have hstart : ToldOff xs s.start.mailbox := h
  refine ⟨s.start.switchedOff, ⟨rfl, rfl, rfl, rfl, ?_⟩, fun bus limit n => ?_⟩
  · rw [← h.received.due_eq]
    exact poll_pending s.mailbox
  · rw [run_succ, round_of_toldOff hstart]

/-- Every mailbox along a run is one that received what was received before and in the run. -/
theorem Underway.received {before : List Signal} (hm : Received before s.mailbox)
    (h : Underway bus limit s xs t) : Received (before ++ xs) t.mailbox := by
  induction h with
  | start =>
    rw [List.append_nil]
    exact hm
  | traffic _ ht ih => exact ih.traffic ht
  | running _ hr ih =>
    rw [← List.append_assoc]
    cases rounded_of_round hr with
    | serviced _ _ _ _ _ hm => exact ih.polled.take.traffics hm
    | stepped _ _ _ _ _ hm => exact ih.polled.traffics hm
  | blocked _ hr ih =>
    rw [← List.append_assoc]
    cases rounded_of_round hr with
    | blocked _ _ _ _ _ hm =>
      rw [hm]
      exact ih.polled

/-- The mailbox behind an instruction during which the device sent a power-off. -/
theorem toldOff_of_sent {cost : Nat} (hm : Received xs t.mailbox)
    (hx : t.poll.turn limit = .execute) (hok : (t.cpu.step bus t.device).result = .ok cost)
    (hsent : Signal.powerOff ∈ posted (t.cpu.step bus t.device).emitted t.mailbox.senders) :
    ∃ t', t.round bus limit = (.running, t') ∧ t'.tally = t.tally.addInstruction cost ∧
      ∃ ys, ToldOff ys t'.mailbox := by
  have hround : t.round bus limit = _ := round_of_execute hx
  rw [hok] at hround
  refine ⟨_, hround, rfl, xs ++ t.mailbox.queue, ?_, ?_⟩
  · exact hm.polled.traffics (t.poll.after_traffic _)
  · apply List.mem_append_right
    change Signal.powerOff ∈ (t.poll.after _).mailbox.queue
    rw [after_queue]
    apply List.mem_append_right
    change Signal.powerOff ∈ posted _ t.mailbox.poll.1.senders
    rwa [poll_senders]

/-- A power-off wins at every boundary, and behind the instruction during which it was sent. -/
theorem powerOff_wins :
    (∀ (before : List Signal) (m : Mailbox), Received before m →
      Signal.powerOff ∈ before ++ m.queue →
      ∀ {β : Type} (s : Session β), ReflTransGen Use m s.mailbox →
        ∃ u, Untouched s u ∧ ∀ (bus : Bus β) (limit : Option Nat) (n : Nat),
          s.start.run bus limit (n + 1) = (.stopped .powerOff, u)) ∧
      ∀ {β : Type} (bus : Bus β) (limit : Option Nat) (s t : Session β)
        (before during : List Signal) (cost : Nat), Received before s.mailbox →
        Underway bus limit s during t → t.poll.turn limit = .execute →
        (t.cpu.step bus t.device).result = .ok cost →
        Signal.powerOff ∈ posted (t.cpu.step bus t.device).emitted t.mailbox.senders →
        ∃ t', t.round bus limit = (.running, t') ∧ t'.tally = t.tally.addInstruction cost ∧
          ∀ m, ReflTransGen Traffic t'.mailbox m →
            ∃ u, Session.round bus limit { t' with mailbox := m } = (.stopped .powerOff, u) ∧
              u.cpu = t'.cpu ∧ u.device = t'.device ∧ u.tally = t'.tally ∧
              u.mailbox = m.poll.1 ∧
              ∃ consumed, Returns bus limit s consumed (.stopped .powerOff) u := by
  refine ⟨?_, ?_⟩
  · intro before m hm hoff β s hu
    obtain ⟨ys, hs⟩ := (ToldOff.mk hm hoff).uses hu
    exact run_of_toldOff hs
  · intro β bus limit s t before during cost hm h hx hok hsent
    obtain ⟨t', hround, htally, ys, hoff⟩ := toldOff_of_sent (h.received hm) hx hok hsent
    refine ⟨t', hround, htally, fun m ht => ?_⟩
    obtain ⟨zs, hoff'⟩ := hoff.traffics ht
    have hend : Session.round bus limit { t' with mailbox := m } = _ :=
      round_of_toldOff hoff' bus limit
    exact ⟨_, hend, rfl, rfl, rfl, rfl, _, .stopped ((h.running hround).traffics ht) hend⟩

/-- A device that at a write asks for an interrupt and for the power to go off, and then leaves. -/
def farewell : Bus Unit where
  read _ _ := (0, (), [])
  write _ _ _ := ((), [.signal (.interrupt 0xC7), .signal .powerOff, .hangUp])

/-- A new processor in front of an OUT. -/
def lastWrite : Session Unit where
  cpu := ⟨Core.initial { memorySize := 2 }, ⟨#[0xD3, 0x01], by decide, by decide⟩, none,
    { memorySize := 2 }⟩
  device := ()

/-- A mailbox with a request and a power-off queued. -/
def toldTwice : Mailbox := ({ } : Mailbox).send (.interrupt 0xC7) |>.send .powerOff

/-- A run that is told before it starts does nothing and leaves the request pending; one that is
told by the OUT counts that. -/
theorem powerOff_wins_over_request :
    (∃ u, Untouched { lastWrite with mailbox := toldTwice } u ∧ u.mailbox.pending = some 0xC7 ∧
      Session.run farewell none 1 (Session.start { lastWrite with mailbox := toldTwice }) =
        (.stopped .powerOff, u)) ∧
      ∃ u consumed, Returns farewell none lastWrite consumed (.stopped .powerOff) u ∧
        u.tally = ⟨1, 0, 10⟩ := by
  have hm : Received [] toldTwice := (Received.new.traffic (.send _ _)).traffic (.send _ _)
  have hstart : Underway farewell none lastWrite [] lastWrite.start := .start
  have hsent : Signal.powerOff ∈
      posted (lastWrite.start.cpu.step farewell lastWrite.start.device).emitted 1 := by
    change Signal.powerOff ∈ [Signal.interrupt 0xC7, .powerOff]
    simp
  refine ⟨?_, ?_⟩
  · obtain ⟨u, hu, hrun⟩ := powerOff_wins.1 [] toldTwice hm (by simp [toldTwice, Mailbox.send])
      { lastWrite with mailbox := toldTwice } .refl
    exact ⟨u, hu, hu.pending, hrun farewell none 0⟩
  · obtain ⟨t', -, htally, hends⟩ := powerOff_wins.2 farewell none lastWrite lastWrite.start
      [] [] 10 .new hstart rfl rfl hsent
    obtain ⟨u, -, -, -, ht, -, consumed, hret⟩ := hends t'.mailbox .refl
    exact ⟨u, consumed, hret, ht.trans htally⟩

end Session

end Intel8080
