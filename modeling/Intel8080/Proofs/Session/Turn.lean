import Intel8080.Proofs.Session.Round

/-! What a round decides and what it then does, as two functions. The decision reads the polled
mailbox, the processor and the count of instructions; the deed follows from the decision. So two
rounds do the same wherever they decide the same. -/

namespace Intel8080.Session

variable {β : Type}

/-- What comes next at a boundary. -/
inductive Turn where
  | powerOff
  /-- The opcode was requested and interrupts are accepted. -/
  | service (code : Byte)
  /-- The processor is halted. -/
  | rest
  | limit
  | execute
  deriving DecidableEq

/-- The decision of a round, once the mailbox is polled. -/
def turn (limit : Option Nat) (s : Session β) : Turn :=
  if s.mailbox.powerOff then .powerOff
  else
    match if s.cpu.acceptsInterrupts then s.mailbox.pending else none with
    | some code => .service code
    | none =>
      if s.cpu.core.halted then .rest
      else if limit.any fun n => decide (n ≤ s.tally.instructions) then .limit
      else .execute

/-- The session once the pending interrupt is handed out. -/
def withdraw (s : Session β) : Session β := { s with mailbox := s.mailbox.take.2 }

/-- The deed that follows from a decision. -/
def act (bus : Bus β) (s : Session β) : Turn → Progress × Session β
  | .powerOff => (s.record (.poweredOff s.cpu.core.registers.pc)).stop .powerOff
  | .service code =>
    match s.withdraw.interrupt bus code with
    | (.ok cost, s) => (.running, { s with tally := s.tally.addInterrupt (cost.getD 0) })
    | (.error fault, s) => (.faulted fault, s)
  | .rest => s.await
  | .limit => s.stop .instructionLimit
  | .execute =>
    match s.step bus with
    | (.ok cost, s) => (.running, { s with tally := s.tally.addInstruction cost })
    | (.error fault, s) => (.faulted fault, s)

/-- What a call on the processor comes to, once what it took is counted. -/
def charge {α : Type} (count : α → Tally → Tally) :
    Except Fault α × Session β → Progress × Session β
  | (.ok cost, s) => (.running, { s with tally := count cost s.tally })
  | (.error fault, s) => (.faulted fault, s)

theorem act_service (bus : Bus β) (s : Session β) (code : Byte) :
    s.act bus (.service code) =
      charge (fun cost tally => tally.addInterrupt (cost.getD 0))
        (s.withdraw.interrupt bus code) := by
  rw [act]
  rcases s.withdraw.interrupt bus code with ⟨_ | _, _⟩ <;> rfl

theorem act_execute (bus : Bus β) (s : Session β) :
    s.act bus .execute = charge (fun cost tally => tally.addInstruction cost) (s.step bus) := by
  rw [act]
  rcases s.step bus with ⟨_ | _, _⟩ <;> rfl

/-- The grounds for each decision. -/
inductive Decided (limit : Option Nat) (s : Session β) : Turn → Prop
  | powerOff (ho : s.mailbox.powerOff = true) : Decided limit s .powerOff
  | service {code} (ho : s.mailbox.powerOff = false) (ha : s.cpu.acceptsInterrupts = true)
      (hp : s.mailbox.pending = some code) : Decided limit s (.service code)
  | rest (hu : Undisturbed s.cpu s.mailbox) (hh : s.cpu.core.halted = true) : Decided limit s .rest
  | limit {n} (hu : Undisturbed s.cpu s.mailbox) (hh : s.cpu.core.halted = false)
      (hl : limit = some n) (hn : n ≤ s.tally.instructions) : Decided limit s .limit
  | execute (hu : Undisturbed s.cpu s.mailbox) (hh : s.cpu.core.halted = false)
      (hl : ∀ n, limit = some n → s.tally.instructions < n) : Decided limit s .execute

variable {bus : Bus β} {limit : Option Nat} {s : Session β} {x : Turn}

theorem turn_of_undisturbed (hu : Undisturbed s.cpu s.mailbox) :
    s.turn limit =
      if s.cpu.core.halted then .rest
      else if limit.any fun n => decide (n ≤ s.tally.instructions) then .limit
      else .execute := by
  have hnone : (if s.cpu.acceptsInterrupts then s.mailbox.pending else none) = none := by
    split
    next ha => exact hu.pending ha
    next => rfl
  rw [turn, hu.powerOff, hnone]
  rfl

theorem turn_decided (limit : Option Nat) (s : Session β) : Decided limit s (s.turn limit) := by
  cases ho : s.mailbox.powerOff with
  | true =>
    rw [turn, ho]
    exact .powerOff ho
  | false =>
    by_cases hs : ∃ code, s.cpu.acceptsInterrupts = true ∧ s.mailbox.pending = some code
    · obtain ⟨code, ha, hp⟩ := hs
      simp only [turn, ho, ha, hp]
      exact .service ho ha hp
    · have hu : Undisturbed s.cpu s.mailbox := by
        refine ⟨ho, fun ha => ?_⟩
        cases hp : s.mailbox.pending with
        | none => rfl
        | some code => exact absurd ⟨code, ha, hp⟩ hs
      rw [turn_of_undisturbed hu]
      cases hh : s.cpu.core.halted with
      | true => exact .rest hu hh
      | false =>
        rw [if_neg (by nofun)]
        split
        next hl =>
          obtain ⟨n, hn, hle⟩ := (Option.any_eq_true _ _).mp hl
          exact .limit hu hh hn (of_decide_eq_true hle)
        next hl =>
          refine .execute hu hh fun n hn => ?_
          rw [hn, Option.any_some, decide_eq_true_eq] at hl
          exact Nat.lt_of_not_le hl

/-- The grounds settle the decision. -/
theorem Decided.turn_eq (h : Decided limit s x) : s.turn limit = x := by
  cases h with
  | powerOff ho => rw [turn, if_pos ho]
  | service ho ha hp => simp [turn, ho, ha, hp]
  | rest hu hh => rw [turn_of_undisturbed hu, if_pos hh]
  | limit hu hh hl hn => simp [turn_of_undisturbed hu, hh, hl, hn]
  | execute hu hh hl =>
    rw [turn_of_undisturbed hu, hh]
    cases limit with
    | none => rfl
    | some n => simp [hl n rfl]

/-! ### The round -/

theorem proceed_eq_act (hu : Undisturbed s.cpu s.mailbox) :
    s.proceed bus limit = s.act bus (s.turn limit) := by
  rw [turn_of_undisturbed hu, proceed]
  split
  · rfl
  · split <;> rfl

theorem round_eq_act (bus : Bus β) (limit : Option Nat) (s : Session β) :
    s.round bus limit = s.poll.act bus (s.poll.turn limit) := by
  unfold round
  generalize s.poll = s
  have hd := turn_decided limit s
  generalize hx : s.turn limit = x at hd ⊢
  cases hd with
  | powerOff ho => simp only [ho, if_true, act]
  | @service code ho ha hp =>
    have htake : s.mailbox.take = (some code, s.withdraw.mailbox) := by
      rw [← hp]
      rfl
    simp only [ho, ha, htake, if_true, Bool.false_eq_true, if_false]
    change s.withdraw.service bus limit code = s.act bus (.service code)
    rw [act, service]
    rcases hi : s.withdraw.interrupt bus code with ⟨fault | _ | cost, u⟩
    · rfl
    · have hres := (s.withdraw.interrupt_frame bus code).1
      rw [hi] at hres
      exact absurd hres.symm (Cpu.interrupt_ne_none bus _ ha)
    · rfl
  | rest hu | limit hu | execute hu =>
    have htake : s.cpu.acceptsInterrupts = true → s.mailbox.take = (none, s.mailbox) := by
      intro ha
      have hp := hu.pending ha
      rw [Mailbox.take, hp, ← hp]
    simp only [hu.powerOff, Bool.false_eq_true, if_false]
    rw [← hx, ← proceed_eq_act hu]
    split
    next ha => rw [htake ha]
    next => rfl

/-! ### Calls within a round -/

/-- What a call on the processor leaves behind, once what the device emitted has arrived. -/
def after {α : Type} (s : Session β) (r : Reply α β) : Session β :=
  absorbAll r.emitted { s with cpu := r.cpu, device := r.bus }

theorem apply_eq {α : Type} (s : Session β) (call : Cpu → β → Reply α β) :
    s.apply call = ((call s.cpu s.device).result, s.after (call s.cpu s.device)) := rfl

theorem after_cpu {α : Type} (s : Session β) (r : Reply α β) : (s.after r).cpu = r.cpu :=
  (absorbAll_frame r.emitted { s with cpu := r.cpu, device := r.bus }).1

theorem after_device {α : Type} (s : Session β) (r : Reply α β) : (s.after r).device = r.bus :=
  absorbAll_device _ _

theorem after_tally {α : Type} (s : Session β) (r : Reply α β) : (s.after r).tally = s.tally :=
  (absorbAll_frame _ _).2.1

theorem after_traffic {α : Type} (s : Session β) (r : Reply α β) :
    Relation.ReflTransGen Mailbox.Traffic s.mailbox (s.after r).mailbox :=
  (absorbAll_frame r.emitted { s with cpu := r.cpu, device := r.bus }).2.2

theorem after_queue {α : Type} (s : Session β) (r : Reply α β) :
    (s.after r).mailbox.queue = s.mailbox.queue ++ posted r.emitted s.mailbox.senders :=
  (absorbAll_mailbox r.emitted { s with cpu := r.cpu, device := r.bus }).1

theorem after_pending {α : Type} (s : Session β) (r : Reply α β) :
    (s.after r).mailbox.pending = s.mailbox.pending :=
  (absorbAll_mailbox r.emitted { s with cpu := r.cpu, device := r.bus }).2.1

theorem round_of_execute (hx : s.poll.turn limit = .execute) :
    s.round bus limit =
      match (s.cpu.step bus s.device).result with
      | .ok cost =>
        (.running, { s.poll.after (s.cpu.step bus s.device) with
          tally := s.tally.addInstruction cost })
      | .error fault => (.faulted fault, s.poll.after (s.cpu.step bus s.device)) := by
  have htally := s.poll.after_tally (s.cpu.step bus s.device)
  have hcall : s.poll.step bus =
      ((s.cpu.step bus s.device).result, s.poll.after (s.cpu.step bus s.device)) := apply_eq _ _
  rw [round_eq_act, hx, act, hcall]
  cases (s.cpu.step bus s.device).result with
  | error fault => rfl
  | ok cost =>
    dsimp only
    rw [htally]
    rfl

theorem round_of_service {code : Byte} (hx : s.poll.turn limit = .service code) :
    s.round bus limit =
      match (s.cpu.interrupt bus code s.device).result with
      | .ok cost =>
        (.running, { s.poll.withdraw.after (s.cpu.interrupt bus code s.device) with
          tally := s.tally.addInterrupt (cost.getD 0) })
      | .error fault =>
        (.faulted fault, s.poll.withdraw.after (s.cpu.interrupt bus code s.device)) := by
  have htally := s.poll.withdraw.after_tally (s.cpu.interrupt bus code s.device)
  have hcall : s.poll.withdraw.interrupt bus code =
      ((s.cpu.interrupt bus code s.device).result,
        s.poll.withdraw.after (s.cpu.interrupt bus code s.device)) := apply_eq _ _
  rw [round_eq_act, hx, act, hcall]
  cases (s.cpu.interrupt bus code s.device).result with
  | error fault => rfl
  | ok cost =>
    dsimp only
    rw [htally]
    rfl

end Intel8080.Session
