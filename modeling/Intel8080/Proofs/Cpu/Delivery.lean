import Intel8080.Proofs.Cpu.Boundary
import Intel8080.Proofs.Cpu.Demands
import Intel8080.Proofs.Cpu.Stack

/-! An operation without operand bytes can be fetched or supplied by an interrupt, and it executes
alike. An accepted interrupt does what a step would do if its opcode stood in memory right below
the program counter, except that it may switch interrupts back on. -/

namespace Intel8080

variable {β : Type} {bus : Bus β}

namespace Core

variable {c : Core} {m : Memory} {b : β}

/-- Executing an operation accesses the addresses of its data and no others. -/
theorem execute_within {s : Set Word} {d : Bool} {op : Operation} {v : Word}
    (h : ∀ addr ∈ op.dataAddresses v c.registers c.flags, addr ∈ s) :
    (c.execute d op v).Within s bus m b := by
  cases op with
  | mov dst src =>
    cases dst <;> cases src
    case reg.reg => trivial
    case memory.memory =>
      have hl := h _ List.mem_cons_self
      exact ⟨hl, fun _ _ => ⟨hl, fun _ _ => trivial⟩⟩
    all_goals exact ⟨h _ List.mem_cons_self, fun _ _ => trivial⟩
  | mvi dst | alu op dst =>
    cases dst with
    | reg r => trivial
    | memory => exact ⟨h _ List.mem_cons_self, fun _ _ => trivial⟩
  | inr dst | dcr dst =>
    cases dst with
    | reg r => trivial
    | memory =>
      have hl := h _ List.mem_cons_self
      exact ⟨hl, fun _ _ => ⟨hl, fun _ _ => trivial⟩⟩
  | lda | sta | ldax pointer | stax pointer => exact ⟨h _ List.mem_cons_self, fun _ _ => trivial⟩
  | lhld | shld | pop pair | ret | push pair | call | rst vector =>
    have hfirst := h _ List.mem_cons_self
    have hsecond := h _ (List.mem_cons_of_mem _ List.mem_cons_self)
    exact ⟨hfirst, fun _ _ => ⟨hsecond, fun _ _ => trivial⟩⟩
  | xthl =>
    have hfirst := h _ List.mem_cons_self
    have hsecond := h _ (List.mem_cons_of_mem _ List.mem_cons_self)
    exact ⟨hfirst, fun _ _ => ⟨hsecond, fun _ _ => ⟨hfirst, fun _ _ => ⟨hsecond, fun _ _ =>
      trivial⟩⟩⟩⟩
  | rcc condition | ccc condition =>
    simp only [Operation.dataAddresses] at h
    simp only [execute]
    split at h
    next hc =>
      rw [if_pos hc]
      have hfirst := h _ List.mem_cons_self
      have hsecond := h _ (List.mem_cons_of_mem _ List.mem_cons_self)
      exact ⟨hfirst, fun _ _ => ⟨hsecond, fun _ _ => trivial⟩⟩
    next hc =>
      rw [if_neg hc]
      trivial
  | _ => trivial

end Core

namespace Cpu

/-! ### An accepted interrupt and a step -/

/-- The processor in front of the opcode right below its program counter, awake and with
interrupts off. -/
def fetching (code : Byte) (cpu : Cpu) : Cpu :=
  { cpu with
    core :=
      { cpu.core.jump (cpu.core.registers.pc - 1) with interruptsEnabled := false, halted := false }
    memory := (cpu.memory.write (cpu.core.registers.pc - 1) code).2 }

/-- The interrupt and the step end alike, but for the byte at the address and for interrupts that
come back on by themselves. -/
structure Alike (policy : InterruptPolicy) (addr : Word) (i : Reply (Option Nat) β)
    (r : Reply Nat β) : Prop where
  result : i.result = r.result.map some
  core : i.cpu.core = { r.cpu.core with interruptsEnabled := i.cpu.core.interruptsEnabled }
  interruptsEnabled : i.cpu.core.interruptsEnabled =
    (r.cpu.core.interruptsEnabled || (r.result.isOk && decide (policy = .autoReenable)))
  memory : ∀ other ≠ addr, r.cpu.memory.read other = i.cpu.memory.read other
  size : r.cpu.memory.size = i.cpu.memory.size
  bus : i.bus = r.bus

/-- One prepared operation, executed on two images that agree where it goes. -/
theorem carryOut_alike {cpu cpu' : Cpu} {prepare prepare' : Cycles Prepared} {p : Prepared}
    {addr : Word} {b : β} {es es' : List Emission}
    (hp : prepare.run bus cpu.memory b = ⟨.ok p, cpu.memory, b, es⟩)
    (hp' : prepare'.run bus cpu'.memory b = ⟨.ok p, cpu'.memory, b, es'⟩)
    (hw : (execution cpu.config p).Within {other | other ≠ addr} bus cpu.memory b)
    (hm : Memory.AgreeOn {other | other ≠ addr} cpu.memory cpu'.memory)
    (hsize : cpu'.memory.size = cpu.memory.size) :
    Alike cpu.config.interruptPolicy addr
      ((cpu.carryOut bus prepare
        (fun p => return reenable cpu.config (← execution cpu.config p)) b).map some)
      (cpu'.carryOut bus prepare' (execution cpu.config) b) := by
  have hx := Cycles.run_bind bus (execution cpu.config p)
    (fun c => pure (reenable cpu.config c)) cpu.memory b
  have hkeep := Cycles.size_run bus (execution cpu.config p) cpu.memory b
  rcases ht : (execution cpu.config p).run bus cpu.memory b with ⟨f | c, m, b₁, fs⟩ <;>
    obtain ⟨m', ht', hagree, hsize', -⟩ := Cycles.echo_of_run hw hm ht <;>
    rw [ht] at hx hkeep <;>
    have hsame : m'.size = m.size := hsize'.trans (hsize.trans hkeep.symm)
  · rw [carryOut_failed hp hx, carryOut_failed hp' ht']
    exact ⟨rfl, rfl, (Bool.or_false _).symm, hagree, hsame, rfl⟩
  · rw [carryOut_granted hp hx, carryOut_granted hp' ht']
    refine ⟨rfl, ?_, ?_, hagree, hsame, rfl⟩
    · simp only [Reply.map, reenable]
      split <;> rfl
    · simp [Reply.map, Except.isOk, Except.toBool, Bool.or_comm]

theorem interrupt_alike (bus : Bus β) (code : Byte) (cpu : Cpu) (b : β)
    (ha : cpu.acceptsInterrupts = true) (hi : (Operation.decode code).immediate = .none)
    (hp : Core.Permitted cpu.config code)
    (hin : (cpu.core.registers.pc - 1).toNat < cpu.memory.size)
    (hdata : cpu.core.registers.pc - 1 ∉
      (Operation.decode code).dataAddresses 0 cpu.core.registers cpu.core.flags) :
    Alike cpu.config.interruptPolicy (cpu.core.registers.pc - 1) (cpu.interrupt bus code b)
      ((cpu.fetching code).step bus b) := by
  obtain ⟨-, hs, hl⟩ := acceptsInterrupts_eq_true.mp ha
  have hread : (cpu.fetching code).memory.read (cpu.fetching code).core.registers.pc = .ok code :=
    Memory.read_write_self _ _ hin
  have hl' : (cpu.fetching code).latch = none := hl
  obtain ⟨es, hack⟩ := Core.acknowledge_run bus cpu.core cpu.memory b hp hi
  obtain ⟨es', hfetch⟩ := Core.fetch_run_of_implied bus b hp hi hread
  have hcore : (cpu.fetching code).core.advance (Operation.decode code) 0 =
      { cpu.core with interruptsEnabled := false, halted := false } :=
    Core.advance_of_implied
      (c := { cpu.core with interruptsEnabled := false, halted := false }) hi hs
  rw [hcore] at hfetch
  rw [interrupt_eq_carryOut bus code b ha, step_eq_carryOut bus b hl' rfl]
  refine carryOut_alike hack hfetch (Core.execute_within fun addr haddr => ?_) (fun other ho => ?_)
    (Memory.size_write _ _ _)
  · rintro rfl
    exact hdata haddr
  · exact Memory.read_write_of_ne _ _ ho

/-! ### Restarts -/

/-- The interrupt has pushed the program counter and continues at the vector. -/
structure Restarted (n : Fin 8) (cpu : Cpu) (b : β) (r : Reply (Option Nat) β) : Prop where
  result : r.result = .ok (some 11)
  core : r.cpu.core = reenable cpu.config
    { cpu.core with
      registers :=
        { cpu.core.registers with
          sp := cpu.core.registers.sp - 2
          pc := UInt16.ofNat (8 * n.val) }
      interruptsEnabled := false
      halted := false }
  memory : r.cpu.memory = cpu.memory.pushed cpu.core.registers.sp cpu.core.registers.pc
  high : r.cpu.memory.read (cpu.core.registers.sp - 1) = .ok (Word.high cpu.core.registers.pc)
  low : r.cpu.memory.read (cpu.core.registers.sp - 2) = .ok (Word.low cpu.core.registers.pc)
  kept : ∀ a, ¬ Word.Below 2 cpu.core.registers.sp a →
    r.cpu.memory.read a = cpu.memory.read a
  latch : r.cpu.latch = none
  config : r.cpu.config = cpu.config
  bus : r.bus = b

theorem interrupt_rst (bus : Bus β) (n : Fin 8) (cpu : Cpu) (b : β)
    (ha : cpu.acceptsInterrupts = true)
    (hroom : ∀ a, Word.Below 2 cpu.core.registers.sp a → a.toNat < cpu.memory.size) :
    Restarted n cpu b (cpu.interrupt bus (Operation.rst n).code b) := by
  have hdecode : Operation.decode (Operation.rst n).code = .rst n := Operation.decode_code _ nofun
  have hpermitted : Core.Permitted cpu.config (Operation.rst n).code :=
    .inl (Operation.documented_code _)
  obtain ⟨es, hack⟩ := Core.acknowledge_run bus cpu.core cpu.memory b hpermitted (by
    rw [hdecode]
    rfl)
  rw [hdecode] at hack
  have hcall := Core.call_run bus (UInt16.ofNat (8 * (Byte.last n).val)) b
    (c := { cpu.core with interruptsEnabled := false, halted := false }) hroom
  rw [← Core.restart_eq_call, Byte.last_field] at hcall
  have hx := Cycles.run_bind bus (execution cpu.config
      ⟨.rst n, 0, { cpu.core with interruptsEnabled := false, halted := false }⟩)
    (fun c => pure (reenable cpu.config c)) cpu.memory b
  have hexecute : (execution cpu.config
      ⟨.rst n, 0, { cpu.core with interruptsEnabled := false, halted := false }⟩).run bus
        cpu.memory b = _ := hcall
  rw [hexecute] at hx
  rw [interrupt_eq_carryOut bus _ b ha, carryOut_granted hack hx]
  exact
    { result := rfl
      core := rfl
      memory := rfl
      high := Memory.read_pushed_high _ (hroom _ (Word.below_two.mpr (.inl rfl)))
      low := Memory.read_pushed_low _ (hroom _ (Word.below_two.mpr (.inr rfl)))
      kept := fun _ ha => Memory.read_pushed _ ha
      latch := rfl
      config := rfl
      bus := rfl }

/-- An interrupt that is accepted does what a step does at its opcode, and a restart does so from
any boundary, of a halted processor too. -/
theorem interrupt_as_step :
    (∀ {β : Type} (bus : Bus β) (code : Byte) (cpu : Cpu) (b : β),
      cpu.acceptsInterrupts = true → (Operation.decode code).immediate = .none →
      Core.Permitted cpu.config code →
      (cpu.core.registers.pc - 1).toNat < cpu.memory.size →
      cpu.core.registers.pc - 1 ∉
        (Operation.decode code).dataAddresses 0 cpu.core.registers cpu.core.flags →
      Alike cpu.config.interruptPolicy (cpu.core.registers.pc - 1) (cpu.interrupt bus code b)
        ((cpu.fetching code).step bus b)) ∧
      ∀ {β : Type} (bus : Bus β) (n code : Byte) (cpu : Cpu) (b : β),
        Signal.rst n = .interrupt code → cpu.acceptsInterrupts = true →
        (∀ a, Word.Below 2 cpu.core.registers.sp a → a.toNat < cpu.memory.size) →
        Restarted n.last cpu b (cpu.interrupt bus code b) := by
  refine ⟨interrupt_alike, fun bus n code cpu b hcode ha hroom => ?_⟩
  obtain rfl := Signal.interrupt.inj ((Signal.rst_eq n).symm.trans hcode)
  exact interrupt_rst bus n.last cpu b ha hroom

/-- A halted processor with room for a word below its stack pointer. -/
def parked : Cpu where
  core := { registers := { b := 1, c := 2, sp := 6, pc := 1 }, halted := true }
  memory := ⟨#[0x76, 0, 0, 0, 0, 0], by decide, by decide⟩
  latch := none
  config := { memorySize := 6, interruptPolicy := .autoReenable }

/-- A PUSH, and a restart at the second vector. -/
theorem interrupt_as_step_parked :
    (parked.interrupt Bus.null 0xC5 ()).result = .ok (some 11) ∧
      ((parked.fetching 0xC5).step Bus.null ()).result = .ok 11 ∧
      Alike .autoReenable 0 (parked.interrupt Bus.null 0xC5 ())
        ((parked.fetching 0xC5).step Bus.null ()) ∧
      Restarted 1 parked () (parked.interrupt Bus.null 0xCF ()) := by
  refine ⟨rfl, rfl, ?_, ?_⟩
  · exact interrupt_as_step.1 Bus.null 0xC5 parked () rfl rfl (.inl rfl) (by decide) (by decide)
  · refine interrupt_as_step.2 Bus.null 1 0xCF parked () rfl rfl fun a ha => ?_
    rcases Word.below_two.mp ha with rfl | rfl <;> decide

end Cpu

end Intel8080
