import Intel8080.Proofs.Session.Ledger
import Mathlib.Algebra.Order.BigOperators.Group.List
import Mathlib.Algebra.Order.Group.Nat

/-! No request is lost or serviced twice in a run, and the counts of the run are exact. The books of
a run are those of its rounds, with the signals that the senders sent between them. -/

namespace Intel8080

theorem Ledger.length_costs (l : Ledger) :
    l.costs.length = l.executed.length + l.serviced.length := by
  rw [costs, List.length_append, List.length_map]

namespace Session

open Mailbox

variable {β : Type}

/-- The boundaries of a run that began in `s`, with the books kept so far. -/
inductive Booked (bus : Bus β) (limit : Option Nat) (s : Session β) : Ledger → Session β → Prop
  | start : Booked bus limit s {} s.start
  | traffic {l t m ys} (h : Booked bus limit s l t) (hm : Traffic t.mailbox m)
      (hq : m.queue = t.mailbox.queue ++ ys) :
      Booked bus limit s (l ++ { sent := ys }) { t with mailbox := m }
  | round {l t t' p} (h : Booked bus limit s l t) (hr : t.round bus limit = (p, t'))
      (hp : p = .running ∨ p = .blocked) : Booked bus limit s (l ++ t.entry bus limit) t'

variable {bus : Bus β} {limit : Option Nat} {s t u : Session β} {l : Ledger} {p : Progress}
  {xs : List Signal}

theorem traffic_appends {m m' : Mailbox} (h : Traffic m m') :
    m'.pending = m.pending ∧ ∃ ys, m'.queue = m.queue ++ ys := by
  cases h with
  | addSender | dropSender => exact ⟨rfl, [], (List.append_nil _).symm⟩
  | send x =>
    unfold Mailbox.send
    split
    · exact ⟨rfl, [], (List.append_nil _).symm⟩
    · exact ⟨rfl, [x], rfl⟩

/-- Every run can be booked, and only runs are. -/
theorem booked_iff_underway :
    (∃ l, Booked bus limit s l t) ↔ ∃ xs, Underway bus limit s xs t := by
  constructor
  · rintro ⟨l, h⟩
    induction h with
    | start => exact ⟨[], .start⟩
    | traffic _ hm _ ih =>
      obtain ⟨xs, h⟩ := ih
      exact ⟨xs, h.traffic hm⟩
    | @round _ t _ _ _ hr hp ih =>
      obtain ⟨xs, h⟩ := ih
      refine ⟨xs ++ t.mailbox.queue, ?_⟩
      rcases hp with rfl | rfl
      · exact h.running hr
      · exact h.blocked hr
  · rintro ⟨xs, h⟩
    induction h with
    | start => exact ⟨{}, .start⟩
    | traffic _ hm ih =>
      obtain ⟨l, h⟩ := ih
      obtain ⟨-, ys, hq⟩ := traffic_appends hm
      exact ⟨_, h.traffic hm hq⟩
    | running _ hr ih =>
      obtain ⟨l, h⟩ := ih
      exact ⟨_, h.round hr (.inl rfl)⟩
    | blocked _ hr ih =>
      obtain ⟨l, h⟩ := ih
      exact ⟨_, h.round hr (.inr rfl)⟩

theorem accounts_of_traffic {m : Mailbox} {ys : List Signal} (hm : Traffic t.mailbox m)
    (hq : m.queue = t.mailbox.queue ++ ys) : Accounts { sent := ys } t { t with mailbox := m } := by
  obtain ⟨hp, -⟩ := traffic_appends hm
  refine ⟨hq, ?_, ?_, rfl, nofun⟩
  · rw [hp]
    exact List.sublist_append_left _ _
  · simp [waiting, hp]

/-- Interrupts are serviced in the order in which they were sent. -/
theorem Accounts.serviced_order (h : Accounts l s t) :
    (l.serviced.map Prod.fst).Sublist
      (s.mailbox.pending.toList ++ requests (s.mailbox.queue ++ l.sent)) := by
  have htaken := (List.sublist_append_left _ _).trans h.order
  have hserviced := l.serviced_sublist.trans htaken
  rw [← h.queue, requests_append, ← List.append_assoc]
  exact hserviced.trans (List.sublist_append_left _ _)

/-- Whatever was executed took at least four states and at most eighteen. -/
theorem Accounts.states_bounds (h : Accounts l s t) :
    4 * (l.tally.instructions + l.tally.interrupts) ≤ l.tally.states ∧
      l.tally.states ≤ 18 * (l.tally.instructions + l.tally.interrupts) := by
  have hlower := List.card_nsmul_le_sum l.costs 4 fun n hn => (h.costs n hn).1
  have hupper := List.sum_le_card_nsmul l.costs 18 fun n hn => (h.costs n hn).2
  rw [Nat.nsmul_eq_mul, Ledger.length_costs, Nat.mul_comm] at hlower hupper
  exact ⟨hlower, hupper⟩

theorem Booked.accounts (h : Booked bus limit s l t) : Accounts l s.start t := by
  induction h with
  | start => exact ⟨by simp, by simp, by simp, rfl, nofun⟩
  | traffic _ hm hq ih => exact ih.trans (accounts_of_traffic hm hq)
  | round _ hr _ ih => exact ih.trans (round_entered hr).accounts

/-- As long as nothing faulted, all that was taken or fetched was carried out. -/
theorem Booked.complete (h : Booked bus limit s l t) : l.Complete := by
  induction h with
  | start => exact ⟨rfl, rfl⟩
  | traffic _ _ _ ih => exact ih.append ⟨rfl, rfl⟩
  | round _ hr hp ih =>
    exact ih.append ((round_entered hr).complete (by rcases hp with rfl | rfl <;> nofun))

/-- What the books say of a run that began in `s`, came as far as `t` and ended with a round that
left `u`. -/
structure Audited (bus : Bus β) (limit : Option Nat) (s t : Session β) (l : Ledger) (p : Progress)
    (u : Session β) : Prop where
  queue : l.consumed ++ u.mailbox.queue = s.mailbox.queue ++ l.sent
  order : (l.serviced.map Prod.fst).Sublist
    (s.mailbox.pending.toList ++ requests (s.mailbox.queue ++ l.sent))
  stopped : ∀ reason, p = .stopped reason →
    s.waiting + (requests l.consumed).length =
        u.tally.interrupts + l.replaced + u.waiting ∧
      u.tally.instructions = l.fetched
  faulted : ∀ fault, p = .faulted fault →
    ∃ aborted, FaultedBy bus limit t fault aborted ∧
      s.waiting + (requests l.consumed).length =
        l.serviced.length + aborted + l.replaced + u.waiting
  tally : u.tally = l.tally
  lower : 4 * (u.tally.instructions + u.tally.interrupts) ≤ u.tally.states
  upper : u.tally.states ≤ 18 * (u.tally.instructions + u.tally.interrupts)
  asleep : t.cpu.core.halted = true → u.tally.instructions = t.tally.instructions

theorem Booked.audited (h : Booked bus limit s l t) (hr : t.round bus limit = (p, u)) :
    Audited bus limit s t (l ++ t.entry bus limit) p u := by
  have he := round_entered hr
  have ha : Accounts (l ++ t.entry bus limit) s.start u := h.accounts.trans he.accounts
  have htally : u.tally = (l ++ t.entry bus limit).tally := by
    rw [ha.tally]
    exact Tally.zero_add _
  have hinterrupts : u.tally.interrupts = (l ++ t.entry bus limit).serviced.length := by
    rw [htally]
    rfl
  have hinstructions : u.tally.instructions = (l ++ t.entry bus limit).executed.length := by
    rw [htally]
    rfl
  have hbounds := ha.states_bounds
  rw [← htally] at hbounds
  have haborted : (l ++ t.entry bus limit).aborted = (t.entry bus limit).aborted := by
    rw [Ledger.aborted_append, h.complete.aborted, Nat.zero_add]
  have hbalance := ha.balance
  rw [Ledger.length_taken, haborted] at hbalance
  refine ⟨ha.queue, ?_, ?_, ?_, htally, hbounds.1, hbounds.2, ?_⟩
  · exact ha.serviced_order
  · rintro reason rfl
    have hcomplete := h.complete.append (he.complete nofun)
    refine ⟨?_, ?_⟩
    · rw [hinterrupts]
      have hnone := (he.complete nofun).aborted
      rw [hnone] at hbalance
      exact hbalance
    · rw [hinstructions, hcomplete.fetched]
  · rintro fault rfl
    exact ⟨_, he.faultedBy, hbalance⟩
  · intro hh
    rw [he.accounts.tally]
    change t.tally.instructions + (t.entry bus limit).executed.length = _
    rw [he.executed_of_halted hh]
    rfl

/-- Every run can be booked round by round, and its books balance. -/
theorem requests_conserved (bus : Bus β) (limit : Option Nat) (s : Session β) :
    (∀ xs p u, Returns bus limit s xs p u →
        ∃ l t, Booked bus limit s l t ∧ t.round bus limit = (p, u)) ∧
      ∀ l t p u, Booked bus limit s l t → t.round bus limit = (p, u) →
        Audited bus limit s t (l ++ t.entry bus limit) p u := by
  refine ⟨fun xs p u h => ?_, fun l t p u h hr => h.audited hr⟩
  cases h with
  | @stopped _ t _ _ h hr | @faulted _ t _ _ h hr =>
    obtain ⟨l, hl⟩ := booked_iff_underway.mpr ⟨_, h⟩
    exact ⟨l, t, hl, hr⟩

/-- A device that at a write asks for two interrupts. -/
def doubleBell : Bus Unit where
  read _ _ := (0, (), [])
  write _ _ _ := ((), [.signal (.interrupt 0xFF), .signal (.interrupt 0x00)])

/-- A new processor in front of an OUT. -/
def beforeWrite : Session Unit where
  cpu := ⟨Core.initial { memorySize := 2 }, ⟨#[0xD3, 0x00], by decide, by decide⟩, none,
    { memorySize := 2 }⟩
  device := ()

/-- Of the two requests one is replaced and the other is serviced. -/
theorem requests_conserved_replaced :
    ∃ l t u, Booked doubleBell (some 1) beforeWrite l t ∧
      t.round doubleBell (some 1) = (.stopped .instructionLimit, u) ∧
      requests (l ++ t.entry doubleBell (some 1)).consumed = [0xFF, 0x00] ∧
      (l ++ t.entry doubleBell (some 1)).replaced = 1 ∧ u.tally = ⟨1, 1, 14⟩ ∧
      Audited doubleBell (some 1) beforeWrite t (l ++ t.entry doubleBell (some 1))
        (.stopped .instructionLimit) u := by
  have hwrite : Booked doubleBell (some 1) beforeWrite _ _ := .round .start rfl (.inl rfl)
  have hservice : Booked doubleBell (some 1) beforeWrite _ _ := hwrite.round rfl (.inl rfl)
  exact ⟨_, _, _, hservice, rfl, rfl, rfl, rfl,
    (requests_conserved doubleBell (some 1) beforeWrite).2 _ _ _ _ hservice rfl⟩

end Session

end Intel8080
