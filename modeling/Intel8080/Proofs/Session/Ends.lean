import Intel8080.Proofs.Session.Turn

/-! How the rounds of a session end when nobody else sends: round follows round until one says
something other than to go on. This is what counting rounds by `run` comes to, for a count that is
large enough. -/

namespace Intel8080.Session

variable {β : Type}

inductive Ends (bus : Bus β) (limit : Option Nat) : Session β → Progress → Session β → Prop
  | last {s p u} (hr : s.round bus limit = (p, u)) (hp : p ≠ .running) : Ends bus limit s p u
  | more {s t p u} (hr : s.round bus limit = (.running, t)) (h : Ends bus limit t p u) :
      Ends bus limit s p u

variable {bus : Bus β} {limit : Option Nat} {s t u v : Session β} {p q : Progress}

theorem ends_iff_of_running (hr : s.round bus limit = (.running, t)) :
    Ends bus limit s p u ↔ Ends bus limit t p u := by
  refine ⟨fun h => ?_, .more hr⟩
  cases h with
  | last hr' hp =>
    rw [hr] at hr'
    exact absurd (Prod.mk.inj hr').1.symm hp
  | more hr' h =>
    rw [hr] at hr'
    obtain ⟨-, rfl⟩ := Prod.mk.inj hr'
    exact h

theorem ends_iff_of_ne_running (hr : s.round bus limit = (q, t)) (hq : q ≠ .running) :
    Ends bus limit s p u ↔ p = q ∧ u = t := by
  constructor
  · intro h
    cases h with
    | last hr' _ =>
      rw [hr] at hr'
      exact ⟨(Prod.mk.inj hr').1.symm, (Prod.mk.inj hr').2.symm⟩
    | more hr' _ =>
      rw [hr] at hr'
      exact absurd (Prod.mk.inj hr').1 hq
  · rintro ⟨rfl, rfl⟩
    exact .last hr hq

theorem Ends.ne_running (h : Ends bus limit s p u) : p ≠ .running := by
  induction h with
  | last _ hp => exact hp
  | more _ _ ih => exact ih

/-- There is at most one end. -/
theorem Ends.unique (h : Ends bus limit s p u) (h' : Ends bus limit s q v) : p = q ∧ u = v := by
  induction h with
  | last hr hp =>
    obtain ⟨rfl, rfl⟩ := (ends_iff_of_ne_running hr hp).mp h'
    exact ⟨rfl, rfl⟩
  | more hr _ ih => exact ih ((ends_iff_of_running hr).mp h')

/-! ### Counted rounds -/

theorem run_succ (bus : Bus β) (limit : Option Nat) (k : Nat) (s : Session β) :
    s.run bus limit (k + 1) =
      match s.round bus limit with
      | (.running, t) => t.run bus limit k
      | ended => ended := by
  rw [run, rounds]
  rcases s.round bus limit with ⟨_ | _ | _ | _, t⟩ <;> rfl

theorem run_succ_of_ne_running (hr : s.round bus limit = (q, t)) (hq : q ≠ .running) (k : Nat) :
    s.run bus limit (k + 1) = (q, t) := by
  rw [run_succ, hr]
  split
  next ht => exact absurd (Prod.mk.inj ht).1 hq
  next => rfl

/-- An end is what some number of rounds comes to. -/
theorem ends_iff_run : Ends bus limit s p u ↔ p ≠ .running ∧ ∃ k, s.run bus limit k = (p, u) := by
  constructor
  · intro h
    refine ⟨h.ne_running, ?_⟩
    induction h with
    | last hr hp => exact ⟨1, run_succ_of_ne_running hr hp 0⟩
    | more hr _ ih =>
      obtain ⟨k, hk⟩ := ih
      refine ⟨k + 1, ?_⟩
      rw [run_succ, hr]
      exact hk
  · rintro ⟨hp, k, hk⟩
    induction k generalizing s with
    | zero => exact absurd (Prod.mk.inj hk).1.symm hp
    | succ k ih =>
      rw [run_succ] at hk
      split at hk
      next t hr => exact .more hr (ih hk)
      next => exact .last hk hp

end Intel8080.Session
