import Intel8080.Proofs.Cpu.Demands
import Intel8080.Proofs.Cycles.Atomic
import Intel8080.Proofs.Cycles.Postcondition

/-! What stands before execution. A preparation writes nothing and uses no port. If it is granted,
it ends in the instruction that stands in memory or in the opcode that the interrupt supplies, and
for an opcode without operand bytes both come to the same. -/

namespace Intel8080

variable {β : Type} {bus : Bus β} {config : Config} {code : Byte} {pc : Word} {c : Core}
  {m : Memory} {b : β} {fault : Fault} {p : Prepared}

theorem Operation.documented_code (op : Operation) : documented op.code = true := by
  cases op with
  | mov dst src =>
    rcases dst with (_ | _ | _ | _ | _ | _ | _) | _ <;>
      rcases src with (_ | _ | _ | _ | _ | _ | _) | _ <;> rfl
  | mvi dst | inr dst | dcr dst => rcases dst with (_ | _ | _ | _ | _ | _ | _) | _ <;> rfl
  | alu op src => rcases src with (_ | _ | _ | _ | _ | _ | _) | _ <;> cases op <;> rfl
  | lxi x | ldax x | stax x | aluImmediate x | inx x | dcx x | dad x | rotate x | jcc x | ccc x
  | rcc x | push x | pop x => cases x <;> rfl
  | rst vector => revert vector; decide
  | _ => rfl

namespace Core

theorem permit_quiet (config : Config) (code : Byte) (pc : Word) :
    (permit config code pc).Quiet := by
  unfold permit
  split
  · trivial
  · split <;> trivial

theorem fetch_quiet (config : Config) (c : Core) : (c.fetch config).Quiet := by
  refine Cycles.Quiet.bind (fun _ => trivial) fun code =>
    (permit_quiet config code c.registers.pc).bind fun _ =>
    Cycles.Quiet.bind ?_ fun _ => trivial
  cases (Operation.decode code).immediate with
  | none => trivial
  | byte => exact fun _ => trivial
  | word => exact fun _ _ => trivial

theorem acknowledge_quiet (config : Config) (code : Byte) (c : Core) :
    (c.acknowledge config code).Quiet := by
  simp only [acknowledge]
  split
  · trivial
  · exact (permit_quiet config code c.registers.pc).bind fun _ => trivial

/-! ### Refused preparations -/

theorem permit_refused
    (h : ((permit config code pc).run bus m b).result = .error fault) :
    fault = .undefinedOpcode code pc := by
  unfold permit at h
  split at h
  · cases h
  · split at h <;> cases h
    rfl

/-- An interrupt opcode is turned down for its operand bytes or for being undefined. -/
theorem acknowledge_refused
    (h : ((c.acknowledge config code).run bus m b).result = .error fault) :
    fault = .multiByteInterrupt code ∨ fault = .undefinedOpcode code c.registers.pc := by
  simp only [acknowledge] at h
  split at h
  · left
    cases h
    rfl
  · right
    rw [Cycles.run_bind] at h
    rcases hp : (permit config code c.registers.pc).run bus m b with ⟨x | _, m', b', es⟩
    · rw [hp] at h
      cases h
      exact permit_refused (congrArg Trail.result hp)
    · rw [hp] at h
      cases h

/-! ### Granted preparations -/

theorem readImmediate_flat (op : Operation) (mem : Word → Byte) :
    (readImmediate op.immediate (pc + 1)).flat bus mem b =
      ⟨.ok (op.immediateAt mem pc), mem, b, []⟩ := by
  have htwo : pc + 1 + 1 = pc + 2 := UInt16.add_assoc _ _ _
  unfold Operation.immediateAt
  cases op.immediate with
  | none => rfl
  | byte => rfl
  | word =>
    rw [← htwo]
    rfl

/-- A granted fetch has read the instruction that stands at the program counter. -/
theorem fetch_prepared (h : ((c.fetch config).run bus m b).result = .ok p) :
    let op := Operation.decode (m.peek c.registers.pc)
    let v := op.immediateAt m.peek c.registers.pc
    p = ⟨op, v, c.advance op v⟩ := by
  have hflat := congrArg FlatTrail.result (Cycles.flat_of_run h)
  rw [Trail.flatten, h] at hflat
  simp only [fetch, Cycles.flat_bind, Cycles.flat_readByte, FlatTrail.andThen_ok] at hflat
  obtain ⟨hmem, -⟩ := (permit_quiet config (m.peek c.registers.pc) c.registers.pc).flat bus m.peek b
  rcases hp : (permit config (m.peek c.registers.pc) c.registers.pc).flat bus m.peek b with
    ⟨x | ⟨⟩, mem, b₁, es⟩ <;> rw [hp] at hflat hmem
  · cases hflat
  · obtain rfl : mem = m.peek := hmem
    rw [FlatTrail.andThen_ok, readImmediate_flat] at hflat
    cases hflat
    rfl

/-- An interrupt opcode that is taken switches interrupts off and wakes the processor. -/
theorem acknowledge_prepared (h : ((c.acknowledge config code).run bus m b).result = .ok p) :
    p = ⟨Operation.decode code, 0, { c with interruptsEnabled := false, halted := false }⟩ := by
  refine Cycles.Ensures.of_run (P := fun p =>
    p = ⟨Operation.decode code, 0, { c with interruptsEnabled := false, halted := false }⟩) ?_ h
  simp only [acknowledge]
  split
  · exact Cycles.ensures_refuse _
  · simp only [Cycles.ensures_bind, Cycles.ensures_note, Cycles.ensures_done, Cycles.ensures_pure]
    exact Cycles.ensures_of_forall fun _ => trivial

/-! ### Opcodes without operand bytes -/

/-- The opcode may be executed under the settings. -/
def Permitted (config : Config) (code : Byte) : Prop :=
  Operation.documented code = true ∨ config.undefinedOpcodes = .alias

theorem permit_run (bus : Bus β) (pc : Word) (m : Memory) (b : β) (h : Permitted config code) :
    ∃ es, (permit config code pc).run bus m b = ⟨.ok (), m, b, es⟩ := by
  unfold permit
  split
  next => exact ⟨_, rfl⟩
  next hd =>
    have hp : config.undefinedOpcodes = .alias := h.resolve_left hd
    rw [hp]
    exact ⟨_, rfl⟩

/-- The fetch of an instruction that is its opcode alone. -/
theorem fetch_run_of_implied (bus : Bus β) (b : β) (h : Permitted config code)
    (hi : (Operation.decode code).immediate = .none)
    (hread : m.read c.registers.pc = .ok code) :
    ∃ es, (c.fetch config).run bus m b =
      ⟨.ok ⟨Operation.decode code, 0, c.advance (Operation.decode code) 0⟩, m, b, es⟩ := by
  obtain ⟨es, hpermit⟩ := permit_run bus c.registers.pc m b h
  simp only [fetch, Cycles.run_bind, Cycles.readByte, Cycles.run, hread, Trail.andThen, hpermit, hi,
    readImmediate]
  exact ⟨_, rfl⟩

theorem acknowledge_run (bus : Bus β) (c : Core) (m : Memory) (b : β) (h : Permitted config code)
    (hi : (Operation.decode code).immediate = .none) :
    ∃ es, (c.acknowledge config code).run bus m b =
      ⟨.ok ⟨Operation.decode code, 0, { c with interruptsEnabled := false, halted := false }⟩,
        m, b, es⟩ := by
  obtain ⟨es, hpermit⟩ := permit_run bus c.registers.pc m b h
  simp only [acknowledge, hi, ne_eq, not_true_eq_false, if_false, Cycles.run_bind, hpermit,
    Trail.andThen]
  exact ⟨_, rfl⟩

/-- Fetching an instruction that is its opcode alone moves the program counter, and that is all. -/
theorem advance_of_implied {op : Operation} (hi : op.immediate = .none) (hs : c.shadow = false) :
    (c.jump (c.registers.pc - 1)).advance op 0 = c := by
  have hpc : c.registers.pc - 1 + 1 = c.registers.pc := UInt16.sub_add_cancel _ _
  have hlength : op.length = 1 := by rw [Operation.length, hi]; rfl
  simp only [advance, jump, hi, hlength, hpc, reduceCtorEq, if_false, ← hs]

end Core

end Intel8080
