import Intel8080.Proofs.Session.Turn
import Intel8080.Proofs.Session.Underway
import Mathlib.Algebra.GroupWithZero.Nat

/-! The books of a run. Every round books the signals it takes out of the queue, the requests that
gave way to newer ones, the opcodes it hands to the processor and the instructions it fetches, with
what they cost. The books balance: every request is serviced, replaced or still pending, in the
order in which they were sent, and the counts of the run are those of the books. -/

namespace Intel8080

/-! ### What a call costs -/

theorem Operation.cost_bounds (op : Operation) (f : Flags) : 4 ≤ op.cost f ∧ op.cost f ≤ 18 := by
  have hstates : 4 ≤ op.states ∧ op.states ≤ 18 := by
    cases op with
    | mov dst src | mvi dst | alu op src | inr dst | dcr dst =>
      simp only [states]
      split <;> decide
    | _ => simp [states]
  have htaken : 4 ≤ op.statesTaken ∧ op.statesTaken ≤ 18 := by
    cases op with
    | ccc | rcc => simp [statesTaken]
    | _ => exact hstates
  unfold cost
  split
  · split
    · exact htaken
    · exact hstates
  · exact hstates

namespace Cpu

variable {β : Type} {bus : Bus β} {cpu : Cpu} {b : β} {n : Nat} {code : Byte}

/-- How many instructions a step gets to fetch, one or none. -/
def fetches (bus : Bus β) (cpu : Cpu) (b : β) : Nat :=
  match ((cpu.core.fetch cpu.config).run bus cpu.memory b).result with
  | .ok _ => 1
  | .error _ => 0

/-- A step that executes fetches one instruction and reports what that costs. -/
theorem step_executed (hh : cpu.core.halted = false) (hok : (cpu.step bus b).result = .ok n) :
    cpu.fetches bus b = 1 ∧ 4 ≤ n ∧ n ≤ 18 := by
  cases hl : cpu.latch with
  | some l => simp [step, hl] at hok
  | none =>
    have hc := carriedOut bus (cpu.core.fetch cpu.config) (execution cpu.config) cpu b
    rw [step_eq_carryOut bus b hl hh] at hok
    generalize cpu.carryOut bus (cpu.core.fetch cpu.config) (execution cpu.config) b = r at hc hok
    cases hc with
    | refused | failed => cases hok
    | granted hp =>
      obtain rfl := Except.ok.inj hok
      exact ⟨by rw [fetches, hp], Operation.cost_bounds _ _⟩

theorem interrupt_executed (hok : (cpu.interrupt bus code b).result = .ok (some n)) :
    4 ≤ n ∧ n ≤ 18 := by
  cases hl : cpu.latch with
  | some l => simp [interrupt, hl] at hok
  | none =>
    cases ha : cpu.acceptsInterrupts with
    | false => simp [interrupt, hl, ha] at hok
    | true =>
      have hc := carriedOut bus (cpu.core.acknowledge cpu.config code)
        (fun p => return reenable cpu.config (← execution cpu.config p)) cpu b
      rw [interrupt_eq_carryOut bus code b ha, Reply.map] at hok
      generalize cpu.carryOut bus (cpu.core.acknowledge cpu.config code)
        (fun p => return reenable cpu.config (← execution cpu.config p)) b = r at hc hok
      cases hc with
      | refused | failed => cases hok
      | granted hp =>
        cases hok
        exact Operation.cost_bounds _ _

end Cpu

/-! ### The books -/

structure Ledger where
  /-- The signals taken out of the queue. -/
  consumed : List Signal := []
  /-- The signals that joined the queue. -/
  sent : List Signal := []
  /-- How many pending requests gave way to a newer one. -/
  replaced : Nat := 0
  /-- The opcodes handed to the processor, with the states that each took unless it faulted. -/
  taken : List (Byte × Option Nat) := []
  /-- How many instructions were fetched. -/
  fetched : Nat := 0
  /-- The states that each executed instruction took. -/
  executed : List Nat := []

namespace Ledger

instance : Append Ledger where
  append a b :=
    { consumed := a.consumed ++ b.consumed
      sent := a.sent ++ b.sent
      replaced := a.replaced + b.replaced
      taken := a.taken ++ b.taken
      fetched := a.fetched + b.fetched
      executed := a.executed ++ b.executed }

/-- The interrupts that were serviced without a fault, with the states that each took. -/
def serviced (l : Ledger) : List (Byte × Nat) :=
  l.taken.filterMap fun x => x.2.map fun cost => (x.1, cost)

/-- How many interrupts faulted while they were serviced. -/
def aborted (l : Ledger) : Nat := l.taken.countP fun x => x.2.isNone

/-- The states that everything executed took, one by one. -/
def costs (l : Ledger) : List Nat := l.executed ++ l.serviced.map Prod.snd

/-- The counts that the books amount to. -/
def tally (l : Ledger) : Tally := ⟨l.executed.length, l.serviced.length, l.costs.sum⟩

/-- All that was taken or fetched was carried out to the end. -/
structure Complete (l : Ledger) : Prop where
  aborted : l.aborted = 0
  fetched : l.fetched = l.executed.length

variable (a b : Ledger)

theorem serviced_append : (a ++ b).serviced = a.serviced ++ b.serviced := List.filterMap_append

theorem aborted_append : (a ++ b).aborted = a.aborted + b.aborted := List.countP_append

theorem tally_append : (a ++ b).tally = a.tally + b.tally := by
  have hinstructions : (a ++ b).executed.length = a.executed.length + b.executed.length :=
    List.length_append
  have hinterrupts : (a ++ b).serviced.length = a.serviced.length + b.serviced.length := by
    rw [serviced_append, List.length_append]
  have hstates : (a ++ b).costs.sum = a.costs.sum + b.costs.sum := by
    have hexecuted : (a ++ b).executed = a.executed ++ b.executed := rfl
    simp only [costs, serviced_append, hexecuted, List.map_append, List.sum_append]
    omega
  rw [tally, hinstructions, hinterrupts, hstates]
  rfl

variable {a b} in
theorem Complete.append (ha : a.Complete) (hb : b.Complete) : (a ++ b).Complete where
  aborted := by rw [aborted_append, ha.aborted, hb.aborted]
  fetched := by
    change a.fetched + b.fetched = (a.executed ++ b.executed).length
    rw [ha.fetched, hb.fetched, List.length_append]

theorem length_taken (l : Ledger) : l.taken.length = l.serviced.length + l.aborted := by
  unfold serviced aborted
  induction l.taken with
  | nil => rfl
  | cons x xs ih => rcases x with ⟨code, _ | cost⟩ <;> simp [ih] <;> omega

theorem serviced_sublist (l : Ledger) :
    (l.serviced.map Prod.fst).Sublist (l.taken.map Prod.fst) := by
  unfold serviced
  induction l.taken with
  | nil => exact .slnil
  | cons x xs ih =>
    rcases x with ⟨code, _ | cost⟩
    · exact ih.cons _
    · exact ih.cons_cons _

end Ledger

namespace Session

open Mailbox

variable {β : Type}

/-- What a poll books. -/
def polled (s : Session β) : Ledger where
  consumed := s.mailbox.due
  replaced := s.mailbox.poll.2.countP Event.replaces

/-- What a round books. -/
def entry (bus : Bus β) (limit : Option Nat) (s : Session β) : Ledger :=
  match s.poll.turn limit with
  | .service code =>
    { s.polled with
      sent := posted (s.cpu.interrupt bus code s.device).emitted s.mailbox.senders
      taken :=
        [(code, (s.cpu.interrupt bus code s.device).result.toOption.map (·.getD 0))] }
  | .execute =>
    { s.polled with
      sent := posted (s.cpu.step bus s.device).emitted s.mailbox.senders
      fetched := s.cpu.fetches bus s.device
      executed := (s.cpu.step bus s.device).result.toOption.toList }
  | .powerOff | .rest | .limit => s.polled

/-- What a round does to the session, with what it books. -/
inductive Entered (bus : Bus β) (limit : Option Nat) (s : Session β) :
    Progress → Session β → Ledger → Prop
  | idle {p t} (hp : ∀ fault, p ≠ .faulted fault) (hq : t.mailbox.queue = s.mailbox.poll.1.queue)
      (hm : t.mailbox.pending = s.mailbox.poll.1.pending) (ht : t.tally = s.tally) :
      Entered bus limit s p t s.polled
  | serviced {t code cost} (hm : s.mailbox.poll.1.pending = some code)
      (hres : (s.cpu.interrupt bus code s.device).result = .ok (some cost))
      (hmail : t.mailbox = (s.poll.withdraw.after (s.cpu.interrupt bus code s.device)).mailbox)
      (ht : t.tally = s.tally.addInterrupt cost) :
      Entered bus limit s .running t
        { s.polled with
          sent := posted (s.cpu.interrupt bus code s.device).emitted s.mailbox.senders
          taken := [(code, some cost)] }
  | serviceFaulted {t code fault} (hx : s.poll.turn limit = .service code)
      (hm : s.mailbox.poll.1.pending = some code)
      (hres : (s.cpu.interrupt bus code s.device).result = .error fault)
      (hmail : t.mailbox = (s.poll.withdraw.after (s.cpu.interrupt bus code s.device)).mailbox)
      (ht : t.tally = s.tally) :
      Entered bus limit s (.faulted fault) t
        { s.polled with
          sent := posted (s.cpu.interrupt bus code s.device).emitted s.mailbox.senders
          taken := [(code, none)] }
  | executed {t cost} (hh : s.cpu.core.halted = false)
      (hres : (s.cpu.step bus s.device).result = .ok cost)
      (hmail : t.mailbox = (s.poll.after (s.cpu.step bus s.device)).mailbox)
      (ht : t.tally = s.tally.addInstruction cost) :
      Entered bus limit s .running t
        { s.polled with
          sent := posted (s.cpu.step bus s.device).emitted s.mailbox.senders
          fetched := 1
          executed := [cost] }
  | executeFaulted {t fault} (hx : s.poll.turn limit = .execute)
      (hres : (s.cpu.step bus s.device).result = .error fault)
      (hmail : t.mailbox = (s.poll.after (s.cpu.step bus s.device)).mailbox)
      (ht : t.tally = s.tally) :
      Entered bus limit s (.faulted fault) t
        { s.polled with
          sent := posted (s.cpu.step bus s.device).emitted s.mailbox.senders
          fetched := s.cpu.fetches bus s.device }

/-- One if an interrupt is pending, and else zero. -/
def waiting (s : Session β) : Nat := if s.mailbox.pending.isSome then 1 else 0

theorem waiting_eq (s : Session β) : s.waiting = s.mailbox.pending.toList.length := by
  unfold waiting
  cases s.mailbox.pending <;> rfl

/-- The books account for all that lies between two sessions. -/
structure Accounts (l : Ledger) (s t : Session β) : Prop where
  queue : l.consumed ++ t.mailbox.queue = s.mailbox.queue ++ l.sent
  order : (l.taken.map Prod.fst ++ t.mailbox.pending.toList).Sublist
    (s.mailbox.pending.toList ++ requests l.consumed)
  balance : s.waiting + (requests l.consumed).length = l.taken.length + l.replaced + t.waiting
  tally : t.tally = s.tally + l.tally
  costs : ∀ n ∈ l.costs, 4 ≤ n ∧ n ≤ 18

variable {bus : Bus β} {limit : Option Nat} {s t u : Session β} {a b l : Ledger} {p : Progress}

theorem Accounts.trans (h : Accounts a s t) (h' : Accounts b t u) : Accounts (a ++ b) s u where
  queue := by
    change (a.consumed ++ b.consumed) ++ u.mailbox.queue = s.mailbox.queue ++ (a.sent ++ b.sent)
    rw [List.append_assoc, h'.queue, ← List.append_assoc, h.queue, List.append_assoc]
  order := by
    change ((a.taken ++ b.taken).map Prod.fst ++ u.mailbox.pending.toList).Sublist
      (s.mailbox.pending.toList ++ requests (a.consumed ++ b.consumed))
    have hfirst := h'.order.append_left (a.taken.map Prod.fst)
    rw [← List.append_assoc _ t.mailbox.pending.toList] at hfirst
    have hboth := hfirst.trans (h.order.append_right (requests b.consumed))
    simpa only [List.map_append, requests_append, List.append_assoc] using hboth
  balance := by
    have hbalance := h.balance
    have hbalance' := h'.balance
    have hr : requests (a ++ b).consumed = requests a.consumed ++ requests b.consumed :=
      requests_append _ _
    have ht : (a ++ b).taken = a.taken ++ b.taken := rfl
    have hw : (a ++ b).replaced = a.replaced + b.replaced := rfl
    rw [hr, ht, hw, List.length_append, List.length_append]
    omega
  tally := by rw [h'.tally, h.tally, Ledger.tally_append, Tally.add_assoc]
  costs := by
    intro n hn
    simp only [Ledger.costs, Ledger.serviced_append, List.map_append, List.mem_append] at hn
    have hexecuted : (a ++ b).executed = a.executed ++ b.executed := rfl
    rw [hexecuted, List.mem_append] at hn
    rcases hn with (hn | hn) | hn | hn
    · exact h.costs n (List.mem_append_left _ hn)
    · exact h'.costs n (List.mem_append_left _ hn)
    · exact h.costs n (List.mem_append_right _ hn)
    · exact h'.costs n (List.mem_append_right _ hn)

/-! ### One round -/

theorem await_idle (s : Session β) (hw : ∀ m es, s.mailbox.wait? ≠ some (true, m, es)) :
    (∀ fault, s.await.1 ≠ .faulted fault) ∧ s.await.2.mailbox.queue = s.mailbox.queue ∧
      s.await.2.mailbox.pending = s.mailbox.pending ∧ s.await.2.tally = s.tally := by
  unfold await
  split
  · split
    next => exact ⟨nofun, rfl, rfl, rfl⟩
    next m es hm => exact absurd hm (hw m es)
    next m es hm =>
      obtain ⟨rfl, -⟩ := wait?_false hm
      exact ⟨nofun, rfl, rfl, rfl⟩
  · exact ⟨nofun, rfl, rfl, rfl⟩

theorem round_entered (hr : s.round bus limit = (p, t)) :
    Entered bus limit s p t (s.entry bus limit) := by
  have hd := turn_decided limit s.poll
  unfold entry
  generalize hx : s.poll.turn limit = x at hd ⊢
  cases hd with
  | powerOff | limit =>
    rw [round_eq_act, hx] at hr
    obtain ⟨rfl, rfl⟩ := Prod.mk.inj hr
    exact .idle nofun rfl rfl rfl
  | rest =>
    rw [round_eq_act, hx] at hr
    obtain ⟨hp, hq, hm, ht⟩ := s.poll.await_idle (poll_wait? s.mailbox)
    change s.poll.await = (p, t) at hr
    rw [hr] at hp hq hm ht
    exact .idle hp hq hm ht
  | @service code ho ha hm =>
    rw [round_of_service hx] at hr
    dsimp only
    cases hres : (s.cpu.interrupt bus code s.device).result with
    | error fault =>
      rw [hres] at hr
      obtain ⟨rfl, rfl⟩ := Prod.mk.inj hr
      exact .serviceFaulted hx hm hres rfl (after_tally _ _)
    | ok answer =>
      cases answer with
      | none => exact absurd hres (Cpu.interrupt_ne_none bus _ ha)
      | some cost =>
        rw [hres] at hr
        obtain ⟨rfl, rfl⟩ := Prod.mk.inj hr
        exact .serviced hm hres rfl rfl
  | execute hu hh hl =>
    rw [round_of_execute hx] at hr
    dsimp only
    cases hres : (s.cpu.step bus s.device).result with
    | error fault =>
      rw [hres] at hr
      obtain ⟨rfl, rfl⟩ := Prod.mk.inj hr
      exact .executeFaulted hx hres rfl (after_tally _ _)
    | ok cost =>
      rw [hres] at hr
      obtain ⟨rfl, rfl⟩ := Prod.mk.inj hr
      have hfetches : s.cpu.fetches bus s.device = 1 := (Cpu.step_executed hh hres).1
      rw [hfetches]
      exact .executed hh hres rfl rfl

/-- The books of a round that polls and then calls on the processor. -/
theorem accounts_of_called {α : Type} {v : Session β} {r : Reply α β}
    (hconsumed : l.consumed = s.mailbox.due)
    (hreplaced : l.replaced = s.mailbox.poll.2.countP Event.replaces)
    (hsent : l.sent = posted r.emitted s.mailbox.senders)
    (hv : v.mailbox.queue = s.mailbox.poll.1.queue ∧ v.mailbox.senders = s.mailbox.senders)
    (hm : l.taken.map Prod.fst ++ v.mailbox.pending.toList = s.mailbox.poll.1.pending.toList)
    (hmail : t.mailbox = (v.after r).mailbox) (ht : t.tally = s.tally + l.tally)
    (hcosts : ∀ n ∈ l.costs, 4 ≤ n ∧ n ≤ 18) : Accounts l s t := by
  have hpending : t.mailbox.pending = v.mailbox.pending := by rw [hmail, after_pending]
  refine ⟨?_, ?_, ?_, ht, hcosts⟩
  · rw [hmail, after_queue, hconsumed, hsent, hv.1, hv.2, ← List.append_assoc, due_append_queue]
  · rw [hpending, hm, hconsumed]
    exact poll_pending_sublist _
  · have hlength : l.taken.length + v.mailbox.pending.toList.length =
        s.mailbox.poll.1.pending.toList.length := by
      rw [← hm, List.length_append, List.length_map]
    have hbalance := poll_balance s.mailbox
    rw [waiting_eq, waiting_eq, hpending, hconsumed, hreplaced]
    omega

theorem Entered.accounts (h : Entered bus limit s p t l) : Accounts l s t := by
  have hpoll : s.poll.mailbox.queue = s.mailbox.poll.1.queue ∧
      s.poll.mailbox.senders = s.mailbox.senders := ⟨rfl, poll_senders _⟩
  have hwithdraw : s.poll.withdraw.mailbox.queue = s.mailbox.poll.1.queue ∧
      s.poll.withdraw.mailbox.senders = s.mailbox.senders := hpoll
  have hcost (cost : Nat) (hc : 4 ≤ cost ∧ cost ≤ 18) : ∀ n ∈ [cost], 4 ≤ n ∧ n ≤ 18 := by
    intro n hn
    rwa [List.mem_singleton.mp hn]
  cases h with
  | idle _ hq hm ht =>
    refine ⟨?_, ?_, ?_, ht, nofun⟩
    · rw [hq, polled, List.append_nil]
      exact due_append_queue _
    · rw [hm]
      exact poll_pending_sublist _
    · have hbalance := poll_balance s.mailbox
      rw [waiting_eq, waiting_eq, hm, polled, List.length_nil, Nat.zero_add]
      exact hbalance
  | serviced hm hres hmail ht =>
    have htaken := (congrArg Option.toList hm).symm
    exact accounts_of_called rfl rfl rfl hwithdraw htaken hmail ht
      (hcost _ (Cpu.interrupt_executed hres))
  | serviceFaulted _ hm _ hmail ht =>
    have htaken := (congrArg Option.toList hm).symm
    exact accounts_of_called rfl rfl rfl hwithdraw htaken hmail ht nofun
  | executed hh hres hmail ht =>
    exact accounts_of_called rfl rfl rfl hpoll rfl hmail ht (hcost _ (Cpu.step_executed hh hres).2)
  | executeFaulted _ _ hmail ht => exact accounts_of_called rfl rfl rfl hpoll rfl hmail ht nofun

/-- A round that does not fault completes what it takes and what it fetches. -/
theorem Entered.complete (h : Entered bus limit s p t l) (hp : ∀ fault, p ≠ .faulted fault) :
    l.Complete := by
  cases h with
  | idle | serviced | executed => exact ⟨rfl, rfl⟩
  | serviceFaulted | executeFaulted => exact absurd rfl (hp _)

/-- Where the fault of a round came from, with the number of interrupts that it broke off. -/
inductive FaultedBy (bus : Bus β) (limit : Option Nat) (s : Session β) (fault : Fault) : Nat → Prop
  | step (hx : s.poll.turn limit = .execute)
      (hres : (s.cpu.step bus s.device).result = .error fault) : FaultedBy bus limit s fault 0
  | interrupt {code} (hx : s.poll.turn limit = .service code)
      (hres : (s.cpu.interrupt bus code s.device).result = .error fault) :
      FaultedBy bus limit s fault 1

theorem Entered.faultedBy {fault : Fault} (h : Entered bus limit s (.faulted fault) t l) :
    FaultedBy bus limit s fault l.aborted := by
  cases h with
  | idle hp => exact absurd rfl (hp fault)
  | serviceFaulted hx _ hres => exact .interrupt hx hres
  | executeFaulted hx hres => exact .step hx hres

/-- A halted processor executes nothing. -/
theorem Entered.executed_of_halted (h : Entered bus limit s p t l)
    (hh : s.cpu.core.halted = true) : l.executed = [] := by
  cases h with
  | idle | serviced | serviceFaulted | executeFaulted => rfl
  | executed ha =>
    rw [ha] at hh
    cases hh

end Session

end Intel8080
