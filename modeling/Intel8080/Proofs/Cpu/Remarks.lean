import Intel8080.Proofs.Cpu.Ports
import Intel8080.Proofs.Cycles.Emissions

/-! What the calls on a processor log. A step announces the instruction that it fetches, an
interrupt the opcode that it takes, and either warns of an undefined opcode before it runs. The
execution adds at most that it halts or switches interrupts, and only a fault is an error. -/

namespace Intel8080

/-! ### What there is to tell -/

/-- Something that happens in a run and that its log tells of. -/
inductive Incident where
  /-- An instruction is fetched, with the processor in front of it. -/
  | fetched (cpu : Cpu)
  | interrupted (code : Byte) (pc : Word)
  | ranUndefined (code : Byte) (pc : Word)
  /-- A pending request gives way to a newer one. -/
  | replaced (old new : Byte)

/-- The event that announces the instruction at the program counter. -/
def Cpu.announcement (cpu : Cpu) : Event :=
  let r := cpu.core.registers
  let code := cpu.memory.peek r.pc
  .fetched r.pc code ((Operation.decode code).immediateAt cpu.memory.peek r.pc) r.a
    cpu.core.flags.status r.sp

/-- How the log tells of it. -/
def Incident.event : Incident → Event
  | fetched cpu => cpu.announcement
  | interrupted code pc => .tookInterrupt code pc
  | ranUndefined code pc => .ranUndefined code pc
  | replaced old new => .replacedInterrupt old new

namespace Incident

/-- The four kinds of incidents. -/
inductive Kind where
  | fetched | interrupted | ranUndefined | replaced
  deriving DecidableEq

def kind : Incident → Kind
  | fetched _ => .fetched
  | interrupted _ _ => .interrupted
  | ranUndefined _ _ => .ranUndefined
  | replaced _ _ => .replaced

def ofKind (k : Kind) (x : Incident) : Bool := decide (x.kind = k)

end Incident

namespace Event

/-- The kind of incident that the event tells of. -/
def kind? : Event → Option Incident.Kind
  | .fetched .. => some .fetched
  | .tookInterrupt .. => some .interrupted
  | .ranUndefined .. => some .ranUndefined
  | .replacedInterrupt .. => some .replaced
  | _ => none

def ofKind (k : Incident.Kind) (e : Event) : Bool := decide (e.kind? = some k)

def atLevel (l : LogLevel) (e : Event) : Bool := decide (e.level = l)

/-- The event tells of an incident or of how the run ended, and is not only a remark. -/
def tells : Event → Bool
  | .faulted .. | .stopped .. => true
  | e => e.kind?.isSome

theorem level_of_not_tells {e : Event} (h : e.tells = false) : e.level ≠ .error := by
  cases e with
  | faulted => cases h
  | _ => nofun

theorem tells_of_ofKind {k : Incident.Kind} {e : Event} (h : e.ofKind k = true) :
    e.tells = true := by
  have hk : e.kind? = some k := of_decide_eq_true h
  cases e with
  | fetched | tookInterrupt | ranUndefined | replacedInterrupt => rfl
  | _ => cases hk

/-- Only the announcements of instructions are logged at trace level. -/
theorem atLevel_trace : atLevel .trace = ofKind .fetched := by
  funext e
  cases e <;> rfl

end Event

theorem Incident.ofKind_event (k : Kind) : Event.ofKind k ∘ event = ofKind k := by
  funext x
  have hkind : x.event.kind? = some x.kind := by cases x <;> rfl
  refine decide_eq_decide.mpr ?_
  rw [hkind, Option.some_inj]

theorem Incident.tells_event (x : Incident) :
    x.event.tells = true ∧ x.event.level ≠ .error := by
  cases x <;> exact ⟨rfl, nofun⟩

theorem filter_tells (xs : List Incident) :
    (xs.map Incident.event).filter Event.tells = xs.map Incident.event := by
  rw [List.filter_eq_self]
  intro e he
  obtain ⟨x, -, rfl⟩ := List.mem_map.mp he
  exact x.tells_event.1

/-- How many of the incidents are of the kind. -/
def countKind (k : Incident.Kind) (xs : List Incident) : Nat :=
  xs.countP (Incident.ofKind k)

@[simp] theorem countKind_append (k : Incident.Kind) (xs ys : List Incident) :
    countKind k (xs ++ ys) = countKind k xs + countKind k ys := List.countP_append

/-- The warning that an undefined opcode runs. -/
def undefinedWarning (code : Byte) (pc : Word) : List Incident :=
  if Operation.documented code then [] else [.ranUndefined code pc]

/-- What happens when the processor steps over the instruction at the program counter. -/
def Cpu.fetchIncidents (cpu : Cpu) : List Incident :=
  undefinedWarning (cpu.memory.peek cpu.core.registers.pc) cpu.core.registers.pc ++ [.fetched cpu]

/-- What happens when the processor takes an interrupt. -/
def Cpu.interruptIncidents (code : Byte) (cpu : Cpu) : List Incident :=
  undefinedWarning code cpu.core.registers.pc ++ [.interrupted code cpu.core.registers.pc]

theorem countKind_undefinedWarning (code : Byte) (pc : Word) :
    countKind .fetched (undefinedWarning code pc) = 0 ∧
      countKind .interrupted (undefinedWarning code pc) = 0 := by
  unfold undefinedWarning
  split <;> exact ⟨rfl, rfl⟩

/-- A step fetches one instruction and takes no interrupt, and an interrupt is the reverse. -/
theorem Cpu.countKind_fetchIncidents (cpu : Cpu) :
    countKind .fetched cpu.fetchIncidents = 1 ∧ countKind .interrupted cpu.fetchIncidents = 0 := by
  obtain ⟨hf, hi⟩ := countKind_undefinedWarning (cpu.memory.peek cpu.core.registers.pc)
    cpu.core.registers.pc
  rw [Cpu.fetchIncidents, countKind_append, countKind_append, hf, hi]
  exact ⟨rfl, rfl⟩

theorem Cpu.countKind_interruptIncidents (code : Byte) (cpu : Cpu) :
    countKind .fetched (cpu.interruptIncidents code) = 0 ∧
      countKind .interrupted (cpu.interruptIncidents code) = 1 := by
  obtain ⟨hf, hi⟩ := countKind_undefinedWarning code cpu.core.registers.pc
  rw [Cpu.interruptIncidents, countKind_append, countKind_append, hf, hi]
  exact ⟨rfl, rfl⟩

/-! ### Preparations -/

namespace Core

variable {β : Type} {bus : Bus β} {config : Config} {code : Byte} {pc : Word} {m m' : Memory}
  {b b' : β} {p : Prepared} {es : List Emission}

theorem permit_flat {mem mem' : Word → Byte}
    (h : (permit config code pc).flat bus mem b = ⟨.ok (), mem', b', es⟩) :
    mem' = mem ∧ b' = b ∧ es = ((undefinedWarning code pc).map Incident.event).map .event := by
  unfold permit at h
  split at h
  next hd =>
    cases h
    rw [undefinedWarning, if_pos hd]
    exact ⟨rfl, rfl, rfl⟩
  next hd =>
    split at h
    · cases h
    · cases h
      rw [undefinedWarning, if_neg hd]
      exact ⟨rfl, rfl, rfl⟩

/-- A granted fetch warns of an undefined opcode and then announces the instruction. -/
theorem fetch_emitted {cpu : Cpu}
    (h : (cpu.core.fetch config).run bus cpu.memory b = ⟨.ok p, m, b', es⟩) :
    es = (cpu.fetchIncidents.map Incident.event).map .event := by
  obtain ⟨hflat, -⟩ := Cycles.flat_of_run_eq h
  simp only [fetch, Cycles.flat_bind, Cycles.flat_readByte, FlatTrail.andThen_ok] at hflat
  rcases hp : (permit config (cpu.memory.peek cpu.core.registers.pc) cpu.core.registers.pc).flat bus
    cpu.memory.peek b with ⟨x | ⟨⟩, mem, b₁, fs⟩ <;> rw [hp] at hflat
  · cases hflat
  · obtain ⟨rfl, rfl, rfl⟩ := permit_flat hp
    rw [FlatTrail.andThen_ok, readImmediate_flat] at hflat
    have hes : es = _ := (congrArg FlatTrail.emitted hflat).symm
    rw [hes, Cpu.fetchIncidents, List.map_append, List.map_append]
    rfl

/-- An interrupt that is taken warns of an undefined opcode and then announces it. -/
theorem acknowledge_emitted {cpu : Cpu}
    (h : (cpu.core.acknowledge config code).run bus m b = ⟨.ok p, m', b', es⟩) :
    es = ((cpu.interruptIncidents code).map Incident.event).map .event := by
  obtain ⟨hflat, -⟩ := Cycles.flat_of_run_eq h
  have himplied := acknowledge_implied (congrArg Trail.result h)
  simp only [acknowledge, himplied, ne_eq, not_true_eq_false, if_false, Cycles.flat_bind] at hflat
  rcases hp : (permit config code cpu.core.registers.pc).flat bus m.peek b with
    ⟨x | ⟨⟩, mem, b₁, fs⟩ <;> rw [hp] at hflat
  · cases hflat
  · obtain ⟨rfl, rfl, rfl⟩ := permit_flat hp
    have hes : es = _ := (congrArg FlatTrail.emitted hflat).symm
    rw [hes, Cpu.interruptIncidents, List.map_append, List.map_append]
    rfl

theorem permit_notes (config : Config) (code : Byte) (pc : Word) :
    (permit config code pc).Notes fun e => e.level ≠ .error := by
  unfold permit
  split
  · trivial
  · split
    · trivial
    · exact ⟨nofun, trivial⟩

/-- A preparation, granted or not, logs no error. -/
theorem fetch_notes (config : Config) (c : Core) :
    (c.fetch config).Notes fun e => e.level ≠ .error := by
  refine Cycles.Notes.bind (fun _ => trivial) fun code =>
    (permit_notes config code c.registers.pc).bind fun _ =>
    Cycles.Notes.bind ?_ fun _ => ⟨nofun, trivial⟩
  cases (Operation.decode code).immediate with
  | none => trivial
  | byte => exact fun _ => trivial
  | word => exact fun _ _ => trivial

theorem acknowledge_notes (config : Config) (code : Byte) (c : Core) :
    (c.acknowledge config code).Notes fun e => e.level ≠ .error := by
  simp only [acknowledge]
  split
  · trivial
  · exact (permit_notes config code c.registers.pc).bind fun _ => ⟨by rintro ⟨⟩, trivial⟩

/-! ### Execution -/

/-- Nothing that an execution notes tells of more than the execution itself. -/
theorem execute_notes (d : Bool) (op : Operation) (v : Word) (c : Core) :
    (c.execute d op v).Notes fun e => e.tells = false := by
  have hload (o : Operand) : (c.load o).Notes fun e => e.tells = false := by
    cases o with
    | reg r => trivial
    | memory => exact fun _ => trivial
  have hstore (o : Operand) (v : Byte) : (c.store o v).Notes fun e => e.tells = false := by
    cases o <;> trivial
  have hpush (w : Word) : (c.pushWord w).Notes fun e => e.tells = false := trivial
  simp only [execute]
  cases op with
  | hlt | ei | di => exact ⟨rfl, trivial⟩
  | mov dst src => exact (hload src).bind fun v => hstore dst v
  | alu op src => exact (hload src).bind fun _ => trivial
  | mvi dst => exact hstore dst _
  | inr dst | dcr dst => exact (hload dst).bind fun _ => (hstore dst _).bind fun _ => trivial
  | lda | ldax | input => exact fun _ => trivial
  | lhld | ret | pop | xthl => exact fun _ _ => trivial
  | ccc condition =>
    dsimp only
    split <;> trivial
  | rcc condition =>
    dsimp only
    split
    · exact fun _ _ => trivial
    · trivial
  | _ => trivial

end Core

/-! ### Calls -/

/-- What a call on a device without events of its own logs: it tells of the incidents, or it ends
in the one error there is, which names the fault and the address that are latched. -/
inductive Logs {α β : Type} (xs : List Incident) (r : Reply α β) : Prop
  | granted {a} (hr : r.result = .ok a) (hl : r.cpu.latch = none)
      (he : (logged r.emitted).filter Event.tells = xs.map Incident.event)
  | faulted {fault pc es} (hr : r.result = .error fault) (hl : r.cpu.latch = some ⟨fault, pc⟩)
      (he : logged r.emitted = es ++ [.faulted pc fault]) (hes : ∀ e ∈ es, e.level ≠ .error)

namespace Cpu

variable {β : Type} {cpu : Cpu} {code : Byte}

theorem carryOut_logs {prepare : Cycles Prepared} {execute : Prepared → Cycles Core}
    {xs : List Incident} (bus : Bus β) (b : β)
    (hp : prepare.Notes fun e => e.level ≠ .error)
    (hg : ∀ p m b' es, prepare.run bus.muted cpu.memory b = ⟨.ok p, m, b', es⟩ →
      es = (xs.map Incident.event).map .event)
    (he : ∀ p, (execute p).Notes fun e => e.tells = false) :
    Logs xs (cpu.carryOut bus.muted prepare execute b) := by
  have hc := carriedOut bus.muted prepare execute cpu b
  have hprepared := hp.logged bus cpu.memory b
  generalize cpu.carryOut bus.muted prepare execute b = r at hc ⊢
  cases hc with
  | refused hrun =>
    rw [hrun] at hprepared
    refine .faulted rfl rfl ?_ hprepared
    rw [logged_append]
    rfl
  | @failed p m b' es _ _ _ fs hrun hexec =>
    have hexecuted := (he p).logged bus m b'
    rw [hrun] at hprepared
    rw [hexec] at hexecuted
    have hnone : ∀ e ∈ logged es ++ logged fs, e.level ≠ .error :=
      List.forall_mem_append.mpr
        ⟨hprepared, fun e he => Event.level_of_not_tells (hexecuted e he)⟩
    refine .faulted rfl rfl ?_ hnone
    rw [logged_append, logged_append]
    rfl
  | @granted p m b' es _ _ _ fs hrun hexec =>
    have hexecuted := (he p).logged bus m b'
    rw [hexec] at hexecuted
    have hnone : (logged fs).filter Event.tells = [] :=
      List.filter_eq_nil_iff.mpr fun e hmem => by rw [hexecuted e hmem]; nofun
    refine .granted rfl rfl ?_
    rw [logged_append, List.filter_append, hnone, hg p m b' es hrun, logged_map_event,
      filter_tells, List.append_nil]

theorem step_logs (bus : Bus β) (b : β) (hl : cpu.latch = none) (hh : cpu.core.halted = false) :
    Logs cpu.fetchIncidents (cpu.step bus.muted b) := by
  rw [step_eq_carryOut bus.muted b hl hh]
  exact carryOut_logs bus b (Core.fetch_notes _ _) (fun _ _ _ _ => Core.fetch_emitted)
    fun p => Core.execute_notes _ _ _ _

theorem interrupt_logs (bus : Bus β) (b : β) (ha : cpu.acceptsInterrupts = true) :
    Logs (cpu.interruptIncidents code) (cpu.interrupt bus.muted code b) := by
  have hlogs : Logs (cpu.interruptIncidents code) (cpu.carryOut bus.muted
      (cpu.core.acknowledge cpu.config code)
      (fun p => return reenable cpu.config (← execution cpu.config p)) b) :=
    carryOut_logs bus b (Core.acknowledge_notes _ _ _) (fun _ _ _ _ => Core.acknowledge_emitted)
      fun p => (Core.execute_notes _ _ _ _).bind fun _ => trivial
  rw [interrupt_eq_carryOut bus.muted code b ha]
  cases hlogs with
  | granted hr hl he => exact .granted (congrArg (Except.map some) hr) hl he
  | faulted hr hl he hes => exact .faulted (congrArg (Except.map some) hr) hl he hes

end Cpu

end Intel8080
