import Intel8080.Proofs.Cycles.Emissions
import Intel8080.Proofs.Session.Coalescing

/-! A run beside the same run on the muted device. Both go alike, round by round, and differ in
their logs only, where on the muted device the events of the device itself are missing. So what a
run logs of its own is what it logs on the muted device. -/

namespace Intel8080

variable {α β : Type}

/-- Replies with the same outcome, of which the second logs less. -/
structure Reply.Muffled (r r' : Reply α β) : Prop where
  result : r'.result = r.result
  cpu : r'.cpu = r.cpu
  bus : r'.bus = r.bus
  emitted : Intel8080.Muffled r.emitted r'.emitted

namespace Cpu

theorem carryOut_muted (bus : Bus β) (prepare : Cycles Prepared)
    (execute : Prepared → Cycles Core) (cpu : Cpu) (b : β) :
    (cpu.carryOut bus prepare execute b).Muffled (cpu.carryOut bus.muted prepare execute b) := by
  obtain ⟨hres, hmem, hbus, he⟩ := prepare.run_muted bus cpu.memory b
  rcases ht : prepare.run bus cpu.memory b with ⟨f | p, m, b₁, es⟩ <;>
    rcases ht' : prepare.run bus.muted cpu.memory b with ⟨f' | p', m', b₁', es'⟩ <;>
    rw [ht, ht'] at hres hmem hbus he <;> cases hres <;> cases hmem <;> cases hbus
  · rw [carryOut_refused ht, carryOut_refused ht']
    exact ⟨rfl, rfl, rfl, he.append (.refl _)⟩
  · obtain ⟨hres₂, hmem₂, hbus₂, hf⟩ := (execute p).run_muted bus m b₁
    rcases hx : (execute p).run bus m b₁ with ⟨f | c, m₂, b₂, fs⟩ <;>
      rcases hx' : (execute p).run bus.muted m b₁ with ⟨f' | c', m₂', b₂', fs'⟩ <;>
      rw [hx, hx'] at hres₂ hmem₂ hbus₂ hf <;> cases hres₂ <;> cases hmem₂ <;> cases hbus₂
    · rw [carryOut_failed ht hx, carryOut_failed ht' hx']
      exact ⟨rfl, rfl, rfl, (he.append hf).append (.refl _)⟩
    · rw [carryOut_granted ht hx, carryOut_granted ht' hx']
      exact ⟨rfl, rfl, rfl, he.append hf⟩

theorem step_muted (bus : Bus β) (cpu : Cpu) (b : β) :
    (cpu.step bus b).Muffled (cpu.step bus.muted b) := by
  unfold step
  split
  · exact ⟨rfl, rfl, rfl, .refl _⟩
  · split
    · exact ⟨rfl, rfl, rfl, .refl _⟩
    · exact carryOut_muted bus _ _ cpu b

theorem interrupt_muted (bus : Bus β) (code : Byte) (cpu : Cpu) (b : β) :
    (cpu.interrupt bus code b).Muffled (cpu.interrupt bus.muted code b) := by
  unfold interrupt
  split
  · exact ⟨rfl, rfl, rfl, .refl _⟩
  · split
    · have hr := carryOut_muted bus (cpu.core.acknowledge cpu.config code)
        (fun p => return reenable cpu.config (← execution cpu.config p)) cpu b
      exact ⟨congrArg (Except.map some) hr.result, hr.cpu, hr.bus, hr.emitted⟩
    · exact ⟨rfl, rfl, rfl, .refl _⟩

end Cpu

namespace Session

/-- What is emitted reaches the log in order. -/
theorem absorbAll_log (es : List Emission) (s : Session β) :
    (absorbAll es s).log.toList = s.log.toList ++ logged es := by
  induction es generalizing s with
  | nil => exact (List.append_nil _).symm
  | cons e es ih =>
    rw [absorbAll, List.foldl_cons, ← absorbAll, ih]
    cases e with
    | signal x | hangUp => rfl
    | event e => simp [absorb, record]

theorem after_log (s : Session β) (r : Reply α β) :
    (s.after r).log.toList = s.log.toList ++ logged r.emitted := absorbAll_log _ _

/-- The sessions differ in their logs only, and the second log is contained in the first. -/
structure Quieter (s t : Session β) : Prop where
  cpu : t.cpu = s.cpu
  device : t.device = s.device
  mailbox : t.mailbox = s.mailbox
  tally : t.tally = s.tally
  log : t.log.toList.Sublist s.log.toList

/-- What two quieter rounds come to: the same, but for the log. -/
structure Hushed (r r' : Progress × Session β) : Prop where
  progress : r'.1 = r.1
  session : Quieter r.2 r'.2

variable {s t : Session β}

namespace Quieter

theorem refl (s : Session β) : Quieter s s := ⟨rfl, rfl, rfl, rfl, .refl _⟩

theorem recordAll (h : Quieter s t) (es : List Event) :
    Quieter (s.recordAll es) (t.recordAll es) := by
  refine ⟨h.cpu, h.device, h.mailbox, h.tally, ?_⟩
  simp only [Session.recordAll, Array.toList_appendList]
  exact h.log.append (.refl _)

theorem record (h : Quieter s t) (e : Event) : Quieter (s.record e) (t.record e) := by
  refine ⟨h.cpu, h.device, h.mailbox, h.tally, ?_⟩
  simp only [Session.record, Array.toList_push]
  exact h.log.append (.refl _)

theorem withMailbox (h : Quieter s t) (m : Mailbox) :
    Quieter { s with mailbox := m } { t with mailbox := m } :=
  ⟨h.cpu, h.device, rfl, h.tally, h.log⟩

theorem count (h : Quieter s t) (x : Tally) :
    Quieter { s with tally := x } { t with tally := x } :=
  ⟨h.cpu, h.device, h.mailbox, rfl, h.log⟩

theorem poll (h : Quieter s t) : Quieter s.poll t.poll := by
  have hpoll : t.poll =
      Session.recordAll s.mailbox.poll.2 { t with mailbox := s.mailbox.poll.1 } := by
    rw [← h.mailbox]
    rfl
  rw [hpoll]
  exact (h.withMailbox _).recordAll _

theorem withdraw (h : Quieter s t) : Quieter s.withdraw t.withdraw := by
  rw [Session.withdraw, Session.withdraw, h.mailbox]
  exact h.withMailbox _

theorem turn (h : Quieter s t) (limit : Option Nat) : t.turn limit = s.turn limit := by
  rw [Session.turn, Session.turn, h.mailbox, h.cpu, h.tally]

theorem after (h : Quieter s t) {r r' : Reply α β} (hr : r.Muffled r') :
    Quieter (s.after r) (t.after r') := by
  refine ⟨?_, ?_, ?_, ?_, ?_⟩
  · rw [after_cpu, after_cpu, hr.cpu]
  · rw [after_device, after_device, hr.bus]
  · rw [Session.after, Session.after, absorbAll_arrived, absorbAll_arrived, hr.emitted.posted,
      hr.emitted.hangUps]
    dsimp only
    rw [h.mailbox]
  · rw [after_tally, after_tally, h.tally]
  · rw [after_log, after_log]
    exact h.log.append hr.emitted.logged

theorem step (h : Quieter s t) (bus : Bus β) :
    (t.step bus.muted).1 = (s.step bus).1 ∧ Quieter (s.step bus).2 (t.step bus.muted).2 := by
  have hr := s.cpu.step_muted bus s.device
  rw [Session.step, Session.step, apply_eq, apply_eq, h.cpu, h.device]
  exact ⟨hr.result, h.after hr⟩

theorem interrupt (h : Quieter s t) (bus : Bus β) (code : Byte) :
    (t.interrupt bus.muted code).1 = (s.interrupt bus code).1 ∧
      Quieter (s.interrupt bus code).2 (t.interrupt bus.muted code).2 := by
  have hr := s.cpu.interrupt_muted bus code s.device
  rw [Session.interrupt, Session.interrupt, apply_eq, apply_eq, h.cpu, h.device]
  exact ⟨hr.result, h.after hr⟩

theorem stop (h : Quieter s t) (reason : StopReason) : Hushed (s.stop reason) (t.stop reason) := by
  rw [Session.stop, Session.stop, h.tally]
  exact ⟨rfl, h.record _⟩

theorem await (h : Quieter s t) : Hushed s.await t.await := by
  have henabled : t.cpu.core.interruptsEnabled = s.cpu.core.interruptsEnabled := by rw [h.cpu]
  rw [Session.await, Session.await, h.mailbox, henabled]
  split
  · split
    · exact ⟨rfl, h⟩
    · exact ⟨rfl, (h.withMailbox _).recordAll _⟩
    · exact ((h.withMailbox _).recordAll _).stop .halted
  · exact h.stop .halted

theorem charge (count : α → Tally → Tally) {r r' : Except Fault α × Session β}
    (h : Quieter r.2 r'.2) (hr : r'.1 = r.1) :
    Hushed (Session.charge count r) (Session.charge count r') := by
  obtain ⟨x, s⟩ := r
  obtain ⟨y, t⟩ := r'
  obtain rfl : y = x := hr
  cases y with
  | error fault => exact ⟨rfl, h⟩
  | ok cost =>
    have htally : t.tally = s.tally := h.tally
    rw [Session.charge, Session.charge, htally]
    exact ⟨rfl, h.count _⟩

theorem act (h : Quieter s t) (bus : Bus β) (x : Turn) :
    Hushed (s.act bus x) (t.act bus.muted x) := by
  cases x with
  | powerOff =>
    rw [Session.act, Session.act, h.cpu]
    exact (h.record _).stop .powerOff
  | rest => exact h.await
  | limit => exact h.stop .instructionLimit
  | service code =>
    obtain ⟨hres, ha⟩ := h.withdraw.interrupt bus code
    rw [act_service, act_service]
    exact ha.charge _ hres
  | execute =>
    obtain ⟨hres, ha⟩ := h.step bus
    rw [act_execute, act_execute]
    exact ha.charge _ hres

theorem round (h : Quieter s t) (bus : Bus β) (limit : Option Nat) :
    Hushed (s.round bus limit) (t.round bus.muted limit) := by
  rw [round_eq_act, round_eq_act, h.poll.turn]
  exact h.poll.act bus _

end Quieter

end Session

end Intel8080
