import Intel8080.Proofs.Cpu.Asleep
import Intel8080.Proofs.Session.Round

/-! Runs. A run starts with nothing counted and goes from round to round; at every boundary the
senders may have done anything, and a blocked round is tried again. Along the way we keep the
signals that were consumed, which is what each round found queued. -/

namespace Intel8080.Session

open Relation Mailbox

variable {β : Type}

/-- The boundaries of a run that began in `s`, with the signals it has consumed. -/
inductive Underway (bus : Bus β) (limit : Option Nat) (s : Session β) :
    List Signal → Session β → Prop
  | start : Underway bus limit s [] s.start
  | traffic {xs t m} (h : Underway bus limit s xs t) (hm : Traffic t.mailbox m) :
      Underway bus limit s xs { t with mailbox := m }
  | running {xs t t'} (h : Underway bus limit s xs t) (hr : t.round bus limit = (.running, t')) :
      Underway bus limit s (xs ++ t.mailbox.queue) t'
  | blocked {xs t t'} (h : Underway bus limit s xs t) (hr : t.round bus limit = (.blocked, t')) :
      Underway bus limit s (xs ++ t.mailbox.queue) t'

/-- How a run that began in `s` ends, with all the signals it has consumed. -/
inductive Returns (bus : Bus β) (limit : Option Nat) (s : Session β) :
    List Signal → Progress → Session β → Prop
  | stopped {xs t u reason} (h : Underway bus limit s xs t)
      (hr : t.round bus limit = (.stopped reason, u)) :
      Returns bus limit s (xs ++ t.mailbox.queue) (.stopped reason) u
  | faulted {xs t u fault} (h : Underway bus limit s xs t)
      (hr : t.round bus limit = (.faulted fault, u)) :
      Returns bus limit s (xs ++ t.mailbox.queue) (.faulted fault) u

variable {bus : Bus β} {limit : Option Nat} {s t u : Session β} {xs : List Signal}

theorem Underway.traffics {m : Mailbox} (h : Underway bus limit s xs t)
    (hm : ReflTransGen Traffic t.mailbox m) : Underway bus limit s xs { t with mailbox := m } := by
  induction hm with
  | refl => exact h
  | tail _ hm ih => exact ih.traffic hm

/-- Rounds run one after the other are a run, if a blocked session is only woken by signals. -/
theorem rounds_underway_or_returns (wake : Session β → Option (Session β))
    (hw : ∀ t t', wake t = some t' →
      ∃ m, ReflTransGen Traffic t.mailbox m ∧ t' = { t with mailbox := m })
    (n : Nat) (h : Underway bus limit s xs t) :
    ∃ ys,
      ((t.rounds bus limit wake n).1 = .running ∨ (t.rounds bus limit wake n).1 = .blocked) ∧
          Underway bus limit s ys (t.rounds bus limit wake n).2 ∨
        Returns bus limit s ys (t.rounds bus limit wake n).1 (t.rounds bus limit wake n).2 := by
  induction n generalizing xs t with
  | zero => exact ⟨xs, .inl ⟨.inl rfl, h⟩⟩
  | succ n ih =>
    rcases hr : t.round bus limit with ⟨p, t'⟩
    unfold rounds
    rw [hr]
    cases p with
    | running => exact ih (h.running hr)
    | blocked =>
      dsimp only
      cases hx : wake t' with
      | none => exact ⟨_, .inl ⟨.inr rfl, h.blocked hr⟩⟩
      | some t'' =>
        obtain ⟨m, hm, rfl⟩ := hw t' t'' hx
        exact ih ((h.blocked hr).traffics hm)
    | stopped reason => exact ⟨_, .inr (.stopped h hr)⟩
    | faulted fault => exact ⟨_, .inr (.faulted h hr)⟩

/-- What the rounds of `run` end in, when they end, is how a run returns. -/
theorem run_returns (n : Nat) (hr : (s.start.run bus limit n).1 ≠ .running)
    (hb : (s.start.run bus limit n).1 ≠ .blocked) :
    ∃ ys, Returns bus limit s ys (s.start.run bus limit n).1 (s.start.run bus limit n).2 := by
  have hstart : Underway bus limit s [] s.start := .start
  obtain ⟨ys, ⟨hrunning | hblocked, -⟩ | hret⟩ :=
    rounds_underway_or_returns (fun _ => none) (fun _ _ h => by cases h) n hstart
  · exact absurd hrunning hr
  · exact absurd hblocked hb
  · exact ⟨ys, hret⟩

/-! ### What a run keeps -/

theorem Rounded.moves {p : Progress} (h : Rounded bus limit s p t) :
    ReflTransGen Cpu.Move s.cpu t.cpu := by
  cases h with
  | poweredOff _ hc | limited _ _ _ _ hc | disabled _ _ _ hc | blocked _ _ _ _ hc
  | abandoned _ _ _ _ hc =>
    rw [hc]
  | @serviced _ code _ _ _ _ _ hc | @serviceFaulted _ code _ _ _ _ _ hc =>
    rw [hc]
    exact .single (.interrupt bus code s.cpu s.device)
  | stepped _ _ _ _ hc | stepFaulted _ _ _ _ hc =>
    rw [hc]
    exact .single (.step bus s.cpu s.device)

/-- A run does nothing to the processor but steps and interrupts. -/
theorem Underway.moves (h : Underway bus limit s xs t) : ReflTransGen Cpu.Move s.cpu t.cpu := by
  induction h with
  | start => exact .refl
  | traffic _ _ ih => exact ih
  | running _ hr ih | blocked _ hr ih => exact ih.trans (rounded_of_round hr).moves

theorem Returns.moves {p : Progress} (h : Returns bus limit s xs p u) :
    ReflTransGen Cpu.Move s.cpu u.cpu := by
  cases h with
  | stopped h hr | faulted h hr => exact h.moves.trans (rounded_of_round hr).moves

end Intel8080.Session
