import Intel8080.Proofs.Cpu.Aftermath
import Intel8080.Proofs.Cpu.Footprint

/-! Undefined opcodes. Where they run as aliases, each does what its documented counterpart would
do in its place, up to the opcode byte itself; where they fault, nothing but the latch changes. An
interrupt with an undefined opcode fares the same way, unless the opcode needs operand bytes. -/

namespace Intel8080

namespace Operation

/-- The undefined opcode bytes, each with the documented one that it stands for. -/
def counterparts : List (Byte × Byte) :=
  [(0x08, 0x00), (0x10, 0x00), (0x18, 0x00), (0x20, 0x00), (0x28, 0x00), (0x30, 0x00),
    (0x38, 0x00), (0xCB, 0xC3), (0xD9, 0xC9), (0xDD, 0xCD), (0xED, 0xCD), (0xFD, 0xCD)]

example : counterparts.map Prod.fst = undefinedCodes := rfl

variable {u d : Byte}

/-- What holds of each entry of the table. -/
theorem of_mem_counterparts {p : Byte × Byte → Bool} (hall : counterparts.all p = true)
    (h : (u, d) ∈ counterparts) : p (u, d) = true := List.all_eq_true.mp hall _ h

theorem decode_counterpart (h : (u, d) ∈ counterparts) : decode u = decode d := by
  have hall : counterparts.all (fun x => decide (decode x.1 = decode x.2)) = true := rfl
  exact of_decide_eq_true (of_mem_counterparts hall h)

theorem documented_counterpart (h : (u, d) ∈ counterparts) :
    documented u = false ∧ documented d = true := by
  have hall : counterparts.all (fun x => !documented x.1 && documented x.2) = true := rfl
  simpa using of_mem_counterparts hall h

/-- What the undefined opcodes stand for: NOP, JMP, RET and CALL, with RET for one of them. -/
theorem decode_undefined (h : (u, d) ∈ counterparts) :
    decode u = nop ∨ decode u = jmp ∨ decode u = ret ∧ u = 0xD9 ∨ decode u = call := by
  have hall : counterparts.all (fun x => decide (decode x.1 = nop ∨ decode x.1 = jmp ∨
      decode x.1 = ret ∧ x.1 = 0xD9 ∨ decode x.1 = call)) = true := rfl
  exact of_decide_eq_true (of_mem_counterparts hall h)

theorem not_mem_operandAddresses (op : Operation) (pc : Word) : pc ∉ op.operandAddresses pc := by
  have hone : pc ≠ pc + 1 := by grind
  have htwo : pc ≠ pc + 2 := by grind
  unfold operandAddresses
  cases op.immediate <;> simp [hone, htwo]

end Operation

variable {β : Type} {bus : Bus β} {m : Memory} {b : β} {u d : Byte}

namespace Core

variable {c : Core} {config : Config} {code : Byte}

/-- A fetch that may go on ends with the bytes behind the opcode. -/
theorem fetch_result (hread : m.read c.registers.pc = .ok code) (hp : Permitted config code) :
    ((c.fetch config).run bus m b).result =
      ((readImmediate (Operation.decode code).immediate (c.registers.pc + 1)).run bus m b).result.map
        fun v => ⟨Operation.decode code, v, c.advance (Operation.decode code) v⟩ := by
  obtain ⟨es, hpermit⟩ := permit_run bus c.registers.pc m b hp
  simp only [fetch, Cycles.run_bind, Cycles.readByte, Cycles.run, hread, Trail.andThen, hpermit]
  rcases (readImmediate (Operation.decode code).immediate (c.registers.pc + 1)).run bus m b with
    ⟨f | v, m', b', fs⟩ <;> rfl

/-- Where undefined opcodes fault, a fetch stops at the opcode. -/
theorem fetch_refused (hread : m.read c.registers.pc = .ok code)
    (hd : Operation.documented code = false) (hf : config.undefinedOpcodes = .fault) :
    (c.fetch config).run bus m b = ⟨.error (.undefinedOpcode code c.registers.pc), m, b, []⟩ := by
  simp [fetch, Cycles.run_bind, Cycles.readByte, Cycles.run, hread, Trail.andThen, permit, hd, hf]

/-- So does the acknowledgement of an interrupt, if no bytes follow its opcode. -/
theorem acknowledge_undefined (hi : (Operation.decode code).immediate = .none)
    (hd : Operation.documented code = false) (hf : config.undefinedOpcodes = .fault) :
    (c.acknowledge config code).run bus m b =
      ⟨.error (.undefinedOpcode code c.registers.pc), m, b, []⟩ := by
  simp [acknowledge, hi, Cycles.run_bind, Cycles.run, Trail.andThen, permit, hd, hf]

theorem acknowledge_multiByte (hi : (Operation.decode code).immediate ≠ .none) :
    (c.acknowledge config code).run bus m b = ⟨.error (.multiByteInterrupt code), m, b, []⟩ := by
  simp only [acknowledge, if_pos hi, Cycles.run]

/-- A NOP, a JMP and a CALL load nothing, and a RET loads what it pops. -/
theorem execute_unread {delayed : Bool} {v : Word} {addr : Word}
    (h : (u, d) ∈ Operation.counterparts)
    (hx : .load addr ∈ (c.execute delayed (Operation.decode u) v).accesses bus m b) :
    u = 0xD9 ∧ (addr = c.registers.sp ∨ addr = c.registers.sp + 1) := by
  rcases Operation.decode_undefined h with hop | hop | ⟨hop, hu⟩ | hop <;> rw [hop] at hx
  · cases hx
  · cases hx
  · have hdata := (execute_accesses hx).1
    simp only [Operation.dataAddresses, List.mem_cons, List.not_mem_nil, or_false] at hdata
    exact ⟨hu, hdata⟩
  · -- both accesses of a CALL are writes
    have hpush : Operation.call.pushedWord? c = some c.registers.pc := rfl
    obtain ⟨c', he⟩ := execute_of_pushedWord? (d := delayed) (v := v) hpush
    rw [he, Cycles.accesses] at hx
    split at hx
    · rw [Cycles.accesses] at hx
      split at hx <;> simp [Cycles.accesses] at hx
    · cases hx

end Core

namespace Cpu

variable {cpu : Cpu}

/-- The processor is about to execute the undefined opcode `u`, which stands for `d`. -/
structure AtUndefined (u d : Byte) (cpu : Cpu) : Prop where
  counterpart : (u, d) ∈ Operation.counterparts
  latch : cpu.latch = none
  halted : cpu.core.halted = false
  code : cpu.memory.read cpu.core.registers.pc = .ok u

/-- The processor with another opcode at its program counter. -/
def withCode (code : Byte) (cpu : Cpu) : Cpu :=
  { cpu with memory := (cpu.memory.write cpu.core.registers.pc code).2 }

/-- The byte at the program counter does not lie on top of the stack. -/
def OffStack (cpu : Cpu) : Prop :=
  cpu.core.registers.pc ≠ cpu.core.registers.sp ∧ cpu.core.registers.pc ≠ cpu.core.registers.sp + 1

/-- What a step stores, its execution does. -/
theorem store_mem_accesses (bus : Bus β) (b : β) (hl : cpu.latch = none)
    (hh : cpu.core.halted = false) (addr : Word) :
    .store addr ∈ cpu.accesses bus b ↔
      ∃ p, ((cpu.core.fetch cpu.config).run bus cpu.memory b).result = .ok p ∧
        .store addr ∈ (execution cpu.config p).accesses bus cpu.memory b := by
  obtain ⟨hm, hb⟩ := (Core.fetch_quiet cpu.config cpu.core).run bus cpu.memory b
  simp only [accesses, hl, hh, Bool.false_eq_true, if_false]
  rw [Cycles.mem_accesses_bind, hm, hb]
  refine or_iff_right fun hx => ?_
  obtain ⟨other, ho⟩ := (Core.fetch_quiet cpu.config cpu.core).readOnly.loads _ hx
  cases ho

theorem size_withCode (cpu : Cpu) (code : Byte) :
    (cpu.withCode code).memory.size = cpu.memory.size := Memory.size_write _ _ _

theorem read_withCode_of_ne (code : Byte) {addr : Word} (h : addr ≠ cpu.core.registers.pc) :
    (cpu.withCode code).memory.read addr = cpu.memory.read addr := Memory.read_write_of_ne _ _ h

namespace AtUndefined

variable (h : AtUndefined u d cpu)
include h

theorem read_withCode : (cpu.withCode d).memory.read cpu.core.registers.pc = .ok d := by
  rw [withCode, Memory.read_write, if_pos rfl, h.code]
  rfl

/-- Both opcodes are fetched alike, as neither is its own operand byte. -/
theorem fetch_withCode (ha : cpu.config.undefinedOpcodes = .alias) :
    ((cpu.core.fetch cpu.config).run bus (cpu.withCode d).memory b).result =
      ((cpu.core.fetch cpu.config).run bus cpu.memory b).result := by
  rw [Core.fetch_result h.code (.inr ha), Core.fetch_result h.read_withCode (.inr ha),
    ← Operation.decode_counterpart h.counterpart]
  refine congrArg _
    (Cycles.run_reprise (size_withCode cpu d) fun addr hx => read_withCode_of_ne d ?_).result
  rintro rfl
  exact Operation.not_mem_operandAddresses _ _ (Core.readImmediate_accesses _ _ _ hx)

/-- Both are executed alike, as neither is loaded for data. -/
theorem execution_withCode (hs : u = 0xD9 → cpu.OffStack) {p : Prepared}
    (hp : ((cpu.core.fetch cpu.config).run bus cpu.memory b).result = .ok p) :
    Cycles.Reprise ((execution cpu.config p).accesses bus cpu.memory b) (cpu.withCode d).memory
      ((execution cpu.config p).run bus cpu.memory b)
      ((execution cpu.config p).run bus (cpu.withCode d).memory b) := by
  have hprepared := Core.fetch_prepared hp
  rw [Memory.peek_of_read h.code] at hprepared
  subst hprepared
  refine Cycles.run_reprise (size_withCode cpu d) fun addr hx => read_withCode_of_ne d ?_
  rintro rfl
  obtain ⟨hu, hpop⟩ := Core.execute_unread h.counterpart hx
  exact hpop.elim (hs hu).1 (hs hu).2

end AtUndefined

/-- A step at the opcode `u` and one at `d` come to the same. The opcodes themselves are still
there, unless the instruction has overwritten its own. -/
structure StandsFor (u d : Byte) (pc : Word) (xs : List Access) (r r' : Reply Nat β) : Prop
    extends SameCall r r' where
  size : r'.cpu.memory.size = r.cpu.memory.size
  elsewhere : ∀ addr ≠ pc, r'.cpu.memory.read addr = r.cpu.memory.read addr
  overwritten : .store pc ∈ xs → r'.cpu.memory.read pc = r.cpu.memory.read pc
  still : .store pc ∉ xs → r.cpu.memory.read pc = .ok u ∧ r'.cpu.memory.read pc = .ok d

theorem AtUndefined.step_sameCall (h : AtUndefined u d cpu)
    (ha : cpu.config.undefinedOpcodes = .alias) (hs : u = 0xD9 → cpu.OffStack) :
    SameCall (cpu.step bus b) ((cpu.withCode d).step bus b) := by
  obtain ⟨hm, hb⟩ := (Core.fetch_quiet cpu.config cpu.core).run bus cpu.memory b
  obtain ⟨hm', hb'⟩ := (Core.fetch_quiet (cpu.withCode d).config (cpu.withCode d).core).run bus
    (cpu.withCode d).memory b
  have hl : (cpu.withCode d).latch = none := h.latch
  rw [step_eq_carryOut bus b h.latch h.halted, step_eq_carryOut bus b hl h.halted]
  refine carryOut_sameCall rfl rfl (h.fetch_withCode ha) (hb'.trans hb.symm) fun p hp => ?_
  have hx := h.execution_withCode hs hp
  rw [hm, hm', hb]
  exact ⟨hx.result, hx.bus⟩

/-- The image that a step leaves is that of the execution, if it comes to one. -/
theorem step_memory (bus : Bus β) (b : β) (hl : cpu.latch = none) (hh : cpu.core.halted = false) :
    (cpu.step bus b).cpu.memory =
      match ((cpu.core.fetch cpu.config).run bus cpu.memory b).result with
      | .ok p => ((execution cpu.config p).run bus cpu.memory b).memory
      | .error _ => cpu.memory := by
  obtain ⟨r, es, hp⟩ := (Core.fetch_quiet cpu.config cpu.core).run_eq bus cpu.memory b
  rw [step_eq_carryOut bus b hl hh, (carryOut_trail bus _ _ cpu b).1, Cycles.run_bind, hp]
  cases r <;> rfl

theorem AtUndefined.step_standsFor (h : AtUndefined u d cpu)
    (ha : cpu.config.undefinedOpcodes = .alias) (hs : u = 0xD9 → cpu.OffStack) :
    StandsFor u d cpu.core.registers.pc (cpu.accesses bus b) (cpu.step bus b)
      ((cpu.withCode d).step bus b) := by
  have hsame : SameCall (cpu.step bus b) ((cpu.withCode d).step bus b) := h.step_sameCall ha hs
  have hstored := store_mem_accesses bus b h.latch h.halted cpu.core.registers.pc
  have hl : (cpu.withCode d).latch = none := h.latch
  have hmemory := step_memory bus b h.latch h.halted
  have hmemory' := step_memory bus b hl h.halted
  have hfetch : (((cpu.withCode d).core.fetch (cpu.withCode d).config).run bus
      (cpu.withCode d).memory b).result = _ := h.fetch_withCode ha
  rw [hfetch] at hmemory'
  cases hp : ((cpu.core.fetch cpu.config).run bus cpu.memory b).result with
  | error f =>
    simp only [hp, reduceCtorEq, false_and, exists_false] at hmemory hmemory' hstored
    refine ⟨hsame, ?_, fun addr hne => ?_, fun hx => (hstored.mp hx).elim, fun _ => ?_⟩
    · rw [hmemory, hmemory', size_withCode]
    · rw [hmemory, hmemory', read_withCode_of_ne d hne]
    · rw [hmemory, hmemory']
      exact ⟨h.code, h.read_withCode⟩
  | ok p =>
    have hx := h.execution_withCode hs hp
    simp only [hp, Except.ok.injEq, exists_eq_left'] at hmemory hmemory' hstored
    refine ⟨hsame, ?_, fun addr hne => ?_, fun hover => ?_, fun hstill => ?_⟩
    · rw [hmemory, hmemory', Cycles.size_run, Cycles.size_run, size_withCode]
    · rw [hmemory, hmemory']
      exact hx.read (read_withCode_of_ne d hne)
    · rw [hmemory, hmemory']
      exact hx.stored _ (hstored.mp hover)
    · rw [hstored] at hstill
      rw [hmemory, hmemory']
      exact ⟨(Cycles.run_kept hstill).trans h.code, (hx.kept _ hstill).trans h.read_withCode⟩

/-- The call is refused, and nothing but the latch has changed. -/
structure Refused {α : Type} (f : Fault) (cpu : Cpu) (b : β) (r : Reply α β) : Prop where
  result : r.result = .error f
  cpu : r.cpu = { cpu with latch := some ⟨f, cpu.core.registers.pc⟩ }
  bus : r.bus = b

theorem AtUndefined.step_refused (h : AtUndefined u d cpu)
    (hf : cpu.config.undefinedOpcodes = .fault) :
    Refused (.undefinedOpcode u cpu.core.registers.pc) cpu b (cpu.step bus b) := by
  have hd := (Operation.documented_counterpart h.counterpart).1
  rw [step_eq_carryOut bus b h.latch h.halted, carryOut_refused (Core.fetch_refused h.code hd hf)]
  exact ⟨rfl, rfl, rfl⟩

/-! ### Interrupts -/

/-- An acknowledgement that is refused leaves the processor in front of the interrupt. -/
theorem interrupt_refused {f : Fault} (ha : cpu.acceptsInterrupts = true)
    (hp : (cpu.core.acknowledge cpu.config u).run bus cpu.memory b =
      ⟨.error f, cpu.memory, b, []⟩) :
    Refused f cpu b (cpu.interrupt bus u b) := by
  rw [interrupt_eq_carryOut bus u b ha, carryOut_refused hp]
  exact ⟨rfl, rfl, rfl⟩

/-- Calls with the same answer that leave the same processor and the same device. -/
structure SameEnd {α : Type} (r r' : Reply α β) : Prop where
  result : r'.result = r.result
  cpu : r'.cpu = r.cpu
  bus : r'.bus = r.bus

/-- An interrupt cannot tell an undefined opcode from its counterpart where both may run. -/
theorem interrupt_sameEnd (h : (u, d) ∈ Operation.counterparts) (ha : cpu.acceptsInterrupts = true)
    (hi : (Operation.decode u).immediate = .none) (hp : cpu.config.undefinedOpcodes = .alias) :
    SameEnd (cpu.interrupt bus u b) (cpu.interrupt bus d b) := by
  have hdecode := Operation.decode_counterpart h
  obtain ⟨es, hack⟩ := Core.acknowledge_run bus cpu.core cpu.memory b (.inr hp) hi
  obtain ⟨es', hack'⟩ := Core.acknowledge_run bus cpu.core cpu.memory b (.inr hp) (hdecode ▸ hi)
  rw [hdecode] at hack
  rw [interrupt_eq_carryOut bus u b ha, interrupt_eq_carryOut bus d b ha]
  rcases he : (execution cpu.config ⟨Operation.decode d, 0,
      { cpu.core with interruptsEnabled := false, halted := false }⟩ >>= fun c =>
        pure (reenable cpu.config c)).run bus cpu.memory b with ⟨f | c, m, b₁, fs⟩
  · rw [carryOut_failed hack he, carryOut_failed hack' he]
    exact ⟨rfl, rfl, rfl⟩
  · rw [carryOut_granted hack he, carryOut_granted hack' he]
    exact ⟨rfl, rfl, rfl⟩

/-- An undefined opcode does what its counterpart does, or faults and does nothing else. The same
goes for interrupts with the ones that need no operand bytes; the others are turned down. -/
theorem undefined_as_counterpart :
    (∀ {β : Type} (bus : Bus β) (u d : Byte) (cpu : Cpu) (b : β), AtUndefined u d cpu →
      (cpu.config.undefinedOpcodes = .alias → (u = 0xD9 → cpu.OffStack) →
          StandsFor u d cpu.core.registers.pc (cpu.accesses bus b) (cpu.step bus b)
            ((cpu.withCode d).step bus b)) ∧
        (cpu.config.undefinedOpcodes = .fault →
          Refused (.undefinedOpcode u cpu.core.registers.pc) cpu b (cpu.step bus b))) ∧
      ∀ {β : Type} (bus : Bus β) (u d : Byte) (cpu : Cpu) (b : β),
        (u, d) ∈ Operation.counterparts → cpu.acceptsInterrupts = true →
        ((Operation.decode u).immediate = .none → cpu.config.undefinedOpcodes = .alias →
            SameEnd (cpu.interrupt bus u b) (cpu.interrupt bus d b)) ∧
          ((Operation.decode u).immediate = .none → cpu.config.undefinedOpcodes = .fault →
            Refused (.undefinedOpcode u cpu.core.registers.pc) cpu b (cpu.interrupt bus u b)) ∧
          ((Operation.decode u).immediate ≠ .none →
            Refused (.multiByteInterrupt u) cpu b (cpu.interrupt bus u b)) := by
  refine ⟨fun bus u d cpu b h => ⟨h.step_standsFor, h.step_refused⟩,
    fun bus u d cpu b h ha => ⟨interrupt_sameEnd h ha, fun hi hf => ?_, fun hi => ?_⟩⟩
  · have hd := (Operation.documented_counterpart h).1
    exact interrupt_refused ha (Core.acknowledge_undefined hi hd hf)
  · exact interrupt_refused ha (Core.acknowledge_multiByte hi)

/-- A processor at an undefined CALL that pushes its return address over itself. -/
def selfCalling : Cpu where
  core := { registers := { sp := 2 } }
  memory := ⟨#[0xDD, 0x03, 0x00, 0x00], by decide, by decide⟩
  latch := none
  config := { memorySize := 4 }

/-- The same opcode in the last byte of memory, where undefined opcodes fault. -/
def strict : Cpu where
  core := { registers := { sp := 2, wz := 7, pc := 2 } }
  memory := ⟨#[0x00, 0x00, 0xDD], by decide, by decide⟩
  latch := none
  config := { memorySize := 3, undefinedOpcodes := .fault }

/-- The CALL as an alias and as a fault, and interrupts with a RET, a NOP and a JMP. -/
theorem undefined_as_counterpart_call :
    (selfCalling.step Bus.null ()).result = .ok 17 ∧
      .store selfCalling.core.registers.pc ∈ selfCalling.accesses Bus.null () ∧
      StandsFor 0xDD 0xCD 0 (selfCalling.accesses Bus.null ()) (selfCalling.step Bus.null ())
        ((selfCalling.withCode 0xCD).step Bus.null ()) ∧
      Refused (.undefinedOpcode 0xDD 2) strict () (strict.step Bus.null ()) ∧
      SameEnd (selfCalling.interrupt Bus.null 0xD9 ()) (selfCalling.interrupt Bus.null 0xC9 ()) ∧
      Refused (.undefinedOpcode 0x08 2) strict () (strict.interrupt Bus.null 0x08 ()) ∧
      Refused (.multiByteInterrupt 0xCB) strict () (strict.interrupt Bus.null 0xCB ()) := by
  have hcall : AtUndefined 0xDD 0xCD selfCalling := ⟨by decide, rfl, rfl, rfl⟩
  have hstrict : AtUndefined 0xDD 0xCD strict := ⟨by decide, rfl, rfl, rfl⟩
  refine ⟨rfl, by decide, ?_, ?_, ?_, ?_, ?_⟩
  · exact (undefined_as_counterpart.1 Bus.null 0xDD 0xCD selfCalling () hcall).1 rfl
      fun hu => absurd hu (by decide)
  · exact (undefined_as_counterpart.1 Bus.null 0xDD 0xCD strict () hstrict).2 rfl
  · exact (undefined_as_counterpart.2 Bus.null 0xD9 0xC9 selfCalling () (by decide) rfl).1 rfl rfl
  · exact (undefined_as_counterpart.2 Bus.null 0x08 0x00 strict () (by decide) rfl).2.1 rfl rfl
  · exact (undefined_as_counterpart.2 Bus.null 0xCB 0xC3 strict () (by decide) rfl).2.2 (by decide)

end Cpu

end Intel8080
