import Intel8080.Proofs.Session.Agreement
import Mathlib.Data.List.Induction

/-! Runs along a schedule. A schedule tells what comes next, be it a round or something that a
sender does, and takes no notice of how the run goes. Any run goes along some schedule, so two runs
among the same senders are two runs along one schedule. -/

namespace Intel8080

namespace Mailbox

/-- What a sender can do. -/
inductive Act where
  | send (x : Signal)
  | addSender
  | dropSender

/-- The mailbox afterwards. Without a sender there is nobody to do anything. -/
def perform (m : Mailbox) : Act → Mailbox
  | .send x => m.send x
  | .addSender => if m.senders = 0 then m else m.addSender
  | .dropSender => m.dropSender

theorem traffic_iff_perform {m n : Mailbox} : Traffic m n ↔ ∃ a, m.perform a = n := by
  constructor
  · rintro (x | hs | _)
    · exact ⟨.send x, rfl⟩
    · exact ⟨.addSender, if_neg hs⟩
    · exact ⟨.dropSender, rfl⟩
  · rintro ⟨a, rfl⟩
    cases a with
    | send x => exact .send m x
    | addSender =>
      rw [perform]
      split
      next hs =>
        have hgone : m.dropSender = m := by rw [dropSender, hs, Nat.zero_sub, ← hs]
        have hdrop := Traffic.dropSender m
        rwa [hgone] at hdrop
      next hs => exact .addSender hs
    | dropSender => exact .dropSender m

end Mailbox

namespace Session

open Mailbox

variable {β γ : Type} {R : β → γ → Prop} {kept : Prop} {bus : Bus β} {bus' : Bus γ}
  {limit : Option Nat} {s t u : Session β} {p : Progress} {xs : List Signal}
  {r : Progress × Session β} {r' : Progress × Session γ}

inductive Occasion where
  | round
  | act (a : Mailbox.Act)

/-- A round after which the run goes on, be it once a signal has come. -/
def GoesOn (p : Progress) : Prop := p = .running ∨ p = .blocked

theorem not_goesOn_stopped (reason : StopReason) : ¬ GoesOn (.stopped reason) := by
  rintro (h | h) <;> cases h

theorem not_goesOn_faulted (fault : Fault) : ¬ GoesOn (.faulted fault) := by
  rintro (h | h) <;> cases h

/-- What an occasion makes of a run. A run that has ended stands still. -/
def advance (bus : Bus β) (limit : Option Nat) (r : Progress × Session β) (x : Occasion) :
    Progress × Session β :=
  match r.1, x with
  | .stopped _, _ | .faulted _, _ => r
  | .running, .round | .blocked, .round => r.2.round bus limit
  | .running, .act a | .blocked, .act a =>
    (r.1, { r.2 with mailbox := r.2.mailbox.perform a })

/-- What a run that begins in the session has come to at the end of the schedule. -/
def follow (bus : Bus β) (limit : Option Nat) (s : Session β) (schedule : List Occasion) :
    Progress × Session β :=
  schedule.foldl (advance bus limit) (.running, s.start)

theorem follow_snoc (bus : Bus β) (limit : Option Nat) (s : Session β) (schedule : List Occasion)
    (x : Occasion) :
    s.follow bus limit (schedule ++ [x]) = advance bus limit (s.follow bus limit schedule) x := by
  rw [follow, follow, List.foldl_append, List.foldl_cons, List.foldl_nil]

theorem advance_round (hp : GoesOn r.1) : advance bus limit r .round = r.2.round bus limit := by
  obtain ⟨p, s⟩ := r
  rcases hp with rfl | rfl <;> rfl

theorem advance_act (hp : GoesOn r.1) (a : Mailbox.Act) :
    advance bus limit r (.act a) = (r.1, { r.2 with mailbox := r.2.mailbox.perform a }) := by
  obtain ⟨p, s⟩ := r
  rcases hp with rfl | rfl <;> rfl

theorem advance_ended (hp : ¬ GoesOn r.1) (x : Occasion) : advance bus limit r x = r := by
  obtain ⟨p, s⟩ := r
  cases p with
  | running => exact absurd (.inl rfl) hp
  | blocked => exact absurd (.inr rfl) hp
  | stopped reason | faulted fault => rfl

/-! ### Every run has a schedule -/

theorem Underway.exists_follow (h : Underway bus limit s xs t) :
    ∃ schedule p, GoesOn p ∧ s.follow bus limit schedule = (p, t) := by
  induction h with
  | start => exact ⟨[], _, .inl rfl, rfl⟩
  | traffic _ hm ih =>
    obtain ⟨schedule, p, hp, hf⟩ := ih
    obtain ⟨a, rfl⟩ := traffic_iff_perform.mp hm
    refine ⟨schedule ++ [.act a], p, hp, ?_⟩
    rw [follow_snoc, hf, advance_act hp]
  | running _ hr ih =>
    obtain ⟨schedule, p, hp, hf⟩ := ih
    refine ⟨schedule ++ [.round], _, .inl rfl, ?_⟩
    rw [follow_snoc, hf, advance_round hp, hr]
  | blocked _ hr ih =>
    obtain ⟨schedule, p, hp, hf⟩ := ih
    refine ⟨schedule ++ [.round], _, .inr rfl, ?_⟩
    rw [follow_snoc, hf, advance_round hp, hr]

theorem follow_underway_or_returns (bus : Bus β) (limit : Option Nat) (s : Session β)
    (schedule : List Occasion) :
    ∃ xs, GoesOn (s.follow bus limit schedule).1 ∧
          Underway bus limit s xs (s.follow bus limit schedule).2 ∨
        ¬ GoesOn (s.follow bus limit schedule).1 ∧
          Returns bus limit s xs (s.follow bus limit schedule).1
            (s.follow bus limit schedule).2 := by
  induction schedule using List.reverseRecOn with
  | nil => exact ⟨[], .inl ⟨.inl rfl, .start⟩⟩
  | append_singleton schedule x ih =>
    rw [follow_snoc]
    generalize s.follow bus limit schedule = r at ih
    obtain ⟨xs, ⟨hp, h⟩ | ⟨hp, h⟩⟩ := ih
    · cases x with
      | act a =>
        rw [advance_act hp]
        exact ⟨xs, .inl ⟨hp, h.traffic (traffic_iff_perform.mpr ⟨a, rfl⟩)⟩⟩
      | round =>
        rw [advance_round hp]
        rcases hr : r.2.round bus limit with ⟨_ | _ | reason | fault, v⟩
        · exact ⟨_, .inl ⟨.inl rfl, h.running hr⟩⟩
        · exact ⟨_, .inl ⟨.inr rfl, h.blocked hr⟩⟩
        · exact ⟨_, .inr ⟨not_goesOn_stopped reason, .stopped h hr⟩⟩
        · exact ⟨_, .inr ⟨not_goesOn_faulted fault, .faulted h hr⟩⟩
    · rw [advance_ended hp]
      exact ⟨xs, .inr ⟨hp, h⟩⟩

/-- A run returns just as some schedule has it. -/
theorem returns_iff_follow :
    (∃ xs, Returns bus limit s xs p u) ↔
      ¬ GoesOn p ∧ ∃ schedule, s.follow bus limit schedule = (p, u) := by
  constructor
  · rintro ⟨xs, h⟩
    have hp : ¬ GoesOn p := by
      cases h with
      | stopped => exact not_goesOn_stopped _
      | faulted => exact not_goesOn_faulted _
    cases h with
    | stopped h hr | faulted h hr =>
      obtain ⟨schedule, q, hq, hf⟩ := h.exists_follow
      refine ⟨hp, schedule ++ [.round], ?_⟩
      rw [follow_snoc, hf, advance_round hq, hr]
  · rintro ⟨hp, schedule, hf⟩
    obtain ⟨xs, ⟨hg, -⟩ | ⟨-, h⟩⟩ := follow_underway_or_returns bus limit s schedule
    · rw [hf] at hg
      exact absurd hg hp
    · rw [hf] at h
      exact ⟨xs, h⟩

/-- A run without other senders goes along rounds alone. -/
theorem Ends.exists_follow (h : Ends bus limit s p u) :
    ∃ k, (List.replicate k .round).foldl (advance bus limit) (.running, s) = (p, u) := by
  induction h with
  | last hr _ => exact ⟨1, hr⟩
  | more hr _ ih =>
    obtain ⟨k, hk⟩ := ih
    refine ⟨k + 1, ?_⟩
    rw [List.replicate_succ, List.foldl_cons, advance_round (.inl rfl), hr]
    exact hk

/-! ### Two runs along one schedule -/

theorem Paired.advance (h : Paired kept R r r') (hk : kept) (hb : bus.Agree kept R bus')
    (limit : Option Nat) (x : Occasion) :
    Paired kept R (Session.advance bus limit r x) (Session.advance bus' limit r' x) := by
  have hp : r'.1 = r.1 := h.progress.eq hk
  by_cases hg : GoesOn r.1
  · have hg' : GoesOn r'.1 := hp ▸ hg
    cases x with
    | round =>
      rw [advance_round hg, advance_round hg']
      exact h.abreast.round hb limit
    | act a =>
      have hm : r'.2.mailbox = r.2.mailbox := h.abreast.mailbox hk
      rw [advance_act hg, advance_act hg', hm]
      exact ⟨h.progress, h.abreast.withMailbox (.refl _) fun _ => rfl⟩
  · rw [advance_ended hg, advance_ended (hp ▸ hg)]
    exact h

/-- On devices that agree and keep their senders, runs stay side by side along a schedule. -/
theorem Abreast.follow {t : Session γ} (h : Abreast kept R s.start t.start) (hk : kept)
    (hb : bus.Agree kept R bus') (limit : Option Nat) (schedule : List Occasion) :
    Paired kept R (s.follow bus limit schedule) (t.follow bus' limit schedule) := by
  induction schedule using List.reverseRecOn with
  | nil => exact h.paired .running
  | append_singleton schedule x ih =>
    rw [follow_snoc, follow_snoc]
    exact ih.advance hk hb limit x

end Session

end Intel8080
