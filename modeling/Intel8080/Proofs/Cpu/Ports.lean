import Intel8080.Proofs.Cpu.Boundary
import Intel8080.Proofs.Cpu.Recording

/-! What a processor does at its ports. A step that executes an IN or an OUT uses the port that the
byte behind the opcode names, once, and the bus latches show it. Nothing else uses a port or
changes the latches: no other instruction, no step that faults and no interrupt. -/

namespace Intel8080

namespace PortCall

def port : PortCall → Byte
  | read port _ | write port _ => port

/-- The byte that was moved. -/
def value : PortCall → Byte
  | read _ v | write _ v => v

end PortCall

variable {β : Type}

namespace Core

/-- The bus latches show the last of the calls, or zero if there was none. -/
structure Shows (calls : List PortCall) (c : Core) : Prop where
  addressBus : c.addressBus = (calls.getLast?.map fun x => Word.ofBytes x.port x.port).getD 0
  dataBus : c.dataBus = (calls.getLast?.map PortCall.value).getD 0

variable {calls : List PortCall} {c c' : Core} {op : Operation} {code : Byte} {config : Config}
  {bus : Bus β} {m : Memory} {b : β} {p : Prepared}

theorem Shows.of_sameBuses (h : Shows calls c) (hs : SameBuses c c') : Shows calls c' :=
  ⟨hs.addressBus.trans h.addressBus, hs.dataBus.trans h.dataBus⟩

/-- A port in both halves is the port times 257. -/
theorem Shows.addressBus_toNat (h : Shows calls c) :
    c.addressBus.toNat = (calls.getLast?.map fun x => x.port.toNat * 257).getD 0 ∧
      Word.high c.addressBus = Word.low c.addressBus := by
  rw [h.addressBus]
  cases calls.getLast? with
  | none => exact ⟨rfl, rfl⟩
  | some x =>
    simp only [Option.map_some, Option.getD_some, Word.toNat_ofBytes, Word.high_ofBytes,
      Word.low_ofBytes, and_true]
    omega

theorem shows_concat {x : PortCall} (ha : c.addressBus = Word.ofBytes x.port x.port)
    (hd : c.dataBus = x.value) : Shows (calls ++ [x]) c := by
  refine ⟨?_, ?_⟩
  · rw [List.getLast?_concat]
    exact ha
  · rw [List.getLast?_concat]
    exact hd

theorem initial_shows (config : Config) : Shows [] (initial config) := ⟨rfl, rfl⟩

/-- An IN is one call that is not refused, and its answer ends in the accumulator. -/
theorem execute_input_run (bus : Bus β) (c : Core) (d : Bool) (v : Word) (m : Memory)
    (x : β × List PortCall) :
    ∃ a b es, (c.execute d .input v).run bus.recorded m x =
      ⟨.ok { c.setA a with addressBus := Word.ofBytes (Word.low v) (Word.low v), dataBus := a }, m,
        (b, x.2 ++ [.read (Word.low v) a]), es⟩ :=
  ⟨_, _, _, rfl⟩

/-- An OUT is one call that is not refused, and it moves the accumulator. -/
theorem execute_output_run (bus : Bus β) (c : Core) (d : Bool) (v : Word) (m : Memory)
    (x : β × List PortCall) :
    ∃ b es, (c.execute d .output v).run bus.recorded m x =
      ⟨.ok { c with
          addressBus := Word.ofBytes (Word.low v) (Word.low v), dataBus := c.registers.a }, m,
        (b, x.2 ++ [.write (Word.low v) c.registers.a]), es⟩ :=
  ⟨_, _, rfl⟩

/-- The call that executing the operation makes, given the core before and after it. -/
def portCall? (op : Operation) (immediate : Word) (before after : Core) : Option PortCall :=
  match op with
  | .input => some (.read (Word.low immediate) after.registers.a)
  | .output => some (.write (Word.low immediate) before.registers.a)
  | _ => none

theorem execute_ports {d : Bool} {v : Word} {x x' : β × List PortCall} {m' : Memory}
    {es : List Emission} (h : Shows x.2 c)
    (he : (c.execute d op v).run bus.recorded m x = ⟨.ok c', m', x', es⟩) :
    x'.2 = x.2 ++ (portCall? op v c c').toList ∧ Shows x'.2 c' := by
  by_cases hin : op = .input
  · subst hin
    obtain ⟨a, b, fs, hrun⟩ := execute_input_run bus c d v m x
    rw [hrun] at he
    cases he
    exact ⟨rfl, shows_concat rfl rfl⟩
  by_cases hout : op = .output
  · subst hout
    obtain ⟨b, fs, hrun⟩ := execute_output_run bus c d v m x
    rw [hrun] at he
    cases he
    exact ⟨rfl, shows_concat rfl rfl⟩
  · have hsilent := c.execute_portless d v hin hout
    have hbus := hsilent.run bus.recorded m x
    rw [he] at hbus
    obtain rfl : x' = x := hbus
    have hnone : portCall? op v c c' = none := by
      cases op <;> first | rfl | contradiction
    rw [hnone]
    exact ⟨(List.append_nil _).symm,
      h.of_sameBuses (hsilent.ensures.of_run (congrArg Trail.result he))⟩

/-- An execution that is refused has used no port, as IN and OUT are not refused. -/
theorem execute_refused_ports {d : Bool} {v : Word} {x x' : β × List PortCall} {m' : Memory}
    {es : List Emission} {f : Fault}
    (he : (c.execute d op v).run bus.recorded m x = ⟨.error f, m', x', es⟩) : x' = x := by
  by_cases hin : op = .input
  · subst hin
    obtain ⟨a, b, fs, hrun⟩ := execute_input_run bus c d v m x
    rw [hrun] at he
    cases he
  by_cases hout : op = .output
  · subst hout
    obtain ⟨b, fs, hrun⟩ := execute_output_run bus c d v m x
    rw [hrun] at he
    cases he
  · have hbus := (c.execute_portless d v hin hout).run bus.recorded m x
    rwa [he] at hbus

/-- An opcode that an interrupt can supply needs no operand bytes. -/
theorem acknowledge_implied (h : ((c.acknowledge config code).run bus m b).result = .ok p) :
    (Operation.decode code).immediate = .none := by
  by_contra hi
  simp only [acknowledge, if_pos hi] at h
  cases h

end Core

namespace Cpu

/-- The call that executing an instruction makes, given the processor before and after it. -/
def portCall? (before after : Cpu) : Option PortCall :=
  let r := before.core.registers
  let port := before.memory.peek (r.pc + 1)
  match Operation.decode (before.memory.peek r.pc) with
  | .input => some (.read port after.core.registers.a)
  | .output => some (.write port r.a)
  | _ => none

/-- The instruction that a step executes, as the processor before and after it. A processor that is
halted executes none, and a step that faults does not count. -/
def executes (bus : Bus β) (cpu : Cpu) (b : β) : List (Cpu × Cpu) :=
  if cpu.core.halted then []
  else
    match (cpu.step bus b).result with
    | .ok _ => [(cpu, (cpu.step bus b).cpu)]
    | .error _ => []

/-- The calls that the instructions make. -/
def portCalls (xs : List (Cpu × Cpu)) : List PortCall := xs.filterMap fun x => portCall? x.1 x.2

@[simp] theorem portCalls_append (xs ys : List (Cpu × Cpu)) :
    portCalls (xs ++ ys) = portCalls xs ++ portCalls ys := List.filterMap_append

@[simp] theorem portCalls_singleton (before after : Cpu) :
    portCalls [(before, after)] = (before.portCall? after).toList := by
  rw [portCalls, List.filterMap_cons]
  cases before.portCall? after <;> rfl

/-- The byte behind the opcode is the port, and the accumulator is that from before the fetch. -/
theorem portCall?_eq (cpu after : Cpu) :
    let op := Operation.decode (cpu.memory.peek cpu.core.registers.pc)
    let v := op.immediateAt cpu.memory.peek cpu.core.registers.pc
    cpu.portCall? after = Core.portCall? op v (cpu.core.advance op v) after.core := by
  intro op v
  unfold portCall?
  change (match op with | .input => _ | .output => _ | _ => _) = _
  have hv : op.immediate = .byte → Word.low v = cpu.memory.peek (cpu.core.registers.pc + 1) := by
    intro hi
    simp only [v, Operation.immediateAt, hi, Word.low_toUInt16]
  generalize op = op at hv ⊢
  cases op with
  | input => rw [Core.portCall?, hv rfl]
  | output =>
    rw [Core.portCall?, hv rfl]
    rfl
  | _ => rfl

variable {cpu : Cpu}

@[simp] theorem reenable_addressBus (config : Config) (c : Core) :
    (reenable config c).addressBus = c.addressBus := by
  unfold reenable
  split <;> rfl

@[simp] theorem reenable_dataBus (config : Config) (c : Core) :
    (reenable config c).dataBus = c.dataBus := by
  unfold reenable
  split <;> rfl

/-- What an interrupt executes needs no operand bytes, so it is neither an IN nor an OUT. -/
theorem execution_silent (config : Config) {op : Operation} (hi : op.immediate = .none) (v : Word)
    (c : Core) :
    Cycles.Silent (Core.SameBuses c)
      (execution config ⟨op, v, c⟩ >>= fun c => pure (reenable config c)) := by
  have hin : op ≠ .input := by
    rintro rfl
    cases hi
  have hout : op ≠ .output := by
    rintro rfl
    cases hi
  simp only [Cycles.silent_bind, Cycles.silent_pure]
  refine (c.execute_portless config.delayedEi v hin hout).mono fun c hs => ?_
  exact ⟨by rw [reenable_addressBus, hs.addressBus], by rw [reenable_dataBus, hs.dataBus]⟩

/-- An interrupt uses no port and leaves the bus latches alone. -/
theorem interrupt_portless (bus : Bus β) (code : Byte) (cpu : Cpu) (b : β) :
    (cpu.interrupt bus code b).bus = b ∧
      Core.SameBuses cpu.core (cpu.interrupt bus code b).cpu.core := by
  cases hl : cpu.latch with
  | some l =>
    simp only [interrupt, hl]
    exact ⟨trivial, rfl, rfl⟩
  | none =>
    cases ha : cpu.acceptsInterrupts with
    | false =>
      simp only [interrupt, hl, ha]
      exact ⟨rfl, rfl, rfl⟩
    | true =>
      rw [interrupt_eq_carryOut bus code b ha, Reply.map]
      have hquiet := ((cpu.core.acknowledge_quiet cpu.config code).run bus cpu.memory b).2
      have hc := carriedOut bus (cpu.core.acknowledge cpu.config code)
        (fun p => return reenable cpu.config (← execution cpu.config p)) cpu b
      generalize cpu.carryOut bus (cpu.core.acknowledge cpu.config code)
        (fun p => return reenable cpu.config (← execution cpu.config p)) b = r at hc ⊢
      cases hc with
      | refused hp =>
        rw [hp] at hquiet
        exact ⟨hquiet, rfl, rfl⟩
      | @failed p m b₁ _ _ _ _ _ hp he =>
        have hi := Core.acknowledge_implied (congrArg Trail.result hp)
        obtain rfl := Core.acknowledge_prepared (congrArg Trail.result hp)
        have hsilent := execution_silent cpu.config hi 0
          { cpu.core with interruptsEnabled := false, halted := false }
        have hbus := hsilent.run bus m b₁
        rw [he] at hbus
        rw [hp] at hquiet
        exact ⟨hbus.trans hquiet, rfl, rfl⟩
      | @granted p m b₁ _ _ _ _ _ hp he =>
        have hi := Core.acknowledge_implied (congrArg Trail.result hp)
        obtain rfl := Core.acknowledge_prepared (congrArg Trail.result hp)
        have hsilent := execution_silent cpu.config hi 0
          { cpu.core with interruptsEnabled := false, halted := false }
        have hbus := hsilent.run bus m b₁
        rw [he] at hbus
        rw [hp] at hquiet
        have hbuses := hsilent.ensures.of_run (congrArg Trail.result he)
        exact ⟨hbus.trans hquiet, hbuses.addressBus, hbuses.dataBus⟩

/-- A step uses a port if it executes an IN or an OUT, and the bus latches show it. -/
theorem step_ports (bus : Bus β) {x : β × List PortCall} (h : cpu.core.Shows x.2) :
    (cpu.step bus.recorded x).bus.2 = x.2 ++ portCalls (cpu.executes bus.recorded x) ∧
      (cpu.step bus.recorded x).cpu.core.Shows (cpu.step bus.recorded x).bus.2 := by
  unfold executes
  cases hl : cpu.latch with
  | some l =>
    simp only [step, hl, ite_self]
    exact ⟨(List.append_nil _).symm, h⟩
  | none =>
    cases hh : cpu.core.halted with
    | true =>
      simp only [step, hl, hh]
      exact ⟨(List.append_nil _).symm, h⟩
    | false =>
      have hquiet := ((cpu.core.fetch_quiet cpu.config).run bus.recorded cpu.memory x).2
      have hc := carriedOut bus.recorded (cpu.core.fetch cpu.config) (execution cpu.config) cpu x
      rw [← step_eq_carryOut bus.recorded x hl hh] at hc
      generalize cpu.step bus.recorded x = r at hc ⊢
      cases hc with
      | refused hp =>
        rw [hp] at hquiet
        obtain rfl := hquiet
        exact ⟨(List.append_nil _).symm, h⟩
      | failed hp he =>
        obtain rfl := Core.execute_refused_ports he
        obtain rfl := Core.fetch_prepared (congrArg Trail.result hp)
        rw [hp] at hquiet
        obtain rfl := hquiet
        exact ⟨(List.append_nil _).symm, h.of_sameBuses ⟨rfl, rfl⟩⟩
      | @granted p m₁ x₁ es c m₂ x₂ fs hp he =>
        obtain rfl := Core.fetch_prepared (congrArg Trail.result hp)
        rw [hp] at hquiet
        obtain rfl : x₁ = x := hquiet
        obtain ⟨hcalls, hshows⟩ :=
          Core.execute_ports (c := cpu.core.advance _ _) (h.of_sameBuses ⟨rfl, rfl⟩) he
        rw [← portCall?_eq cpu ⟨c, m₂, none, cpu.config⟩] at hcalls
        exact ⟨hcalls.trans (congrArg (x₁.2 ++ ·) (portCalls_singleton _ _).symm), hshows⟩

end Cpu

end Intel8080
