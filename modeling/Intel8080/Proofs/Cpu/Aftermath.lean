import Intel8080.Proofs.Cpu.Boundary
import Intel8080.Proofs.Cpu.Demands
import Intel8080.Proofs.Cpu.Recording
import Intel8080.Proofs.Cycles.Atomic

/-! What is left of an instruction that faults. The fetch writes nothing, and an execution hands
its core on only when all accesses were granted, so a fault finds registers and flags as the fetch
left them. In memory at most one byte has changed, and that only where the first half of a word
was stored before the second half went beyond the image. -/

namespace Intel8080

variable {β : Type} {bus : Bus β} {m m' : Memory} {b b' : β} {f : Fault}

/-! ### Executions that are refused -/

/-- The word that executing an operation pushes, if it pushes one. -/
def Operation.pushedWord? (op : Operation) (c : Core) : Option Word :=
  match op with
  | .push pair => some (c.stackWord pair)
  | .call | .rst _ => some c.registers.pc
  | .ccc condition => if condition.holds c.flags then some c.registers.pc else none
  | _ => none

/-- The byte has been stored at the address, and nothing else has changed. -/
structure Memory.Stored (addr : Word) (v : Byte) (m m' : Memory) : Prop where
  write : m' = (m.write addr v).2
  read : m'.read addr = .ok v
  kept : ∀ other, other ≠ addr → m'.read other = m.read other

theorem Memory.stored_write {addr : Word} (v : Byte) (h : addr.toNat < m.size) :
    Stored addr v m (m.write addr v).2 :=
  ⟨rfl, m.read_write_self v h, fun _ hne => m.read_write_of_ne v hne⟩

/-- The memory that a refused execution leaves: in two situations with the first half of a word
stored, and else as it was. -/
structure HalfStored (op : Operation) (v : Word) (c : Core) (m m' : Memory) : Prop where
  /-- The last address takes the low byte. -/
  shld : op = .shld → v.toNat + 1 = m.size →
    m.size < 65536 ∧ Memory.Stored v c.registers.l m m'
  /-- Address zero takes the high byte, as the low one would go to the other end. -/
  pushed : ∀ w, op.pushedWord? c = some w → c.registers.sp = 1 →
    m.size < 65536 ∧ Memory.Stored 0 (Word.high w) m m'
  untouched : ¬ (op = .shld ∧ v.toNat + 1 = m.size) →
    ¬ (op.pushedWord? c ≠ none ∧ c.registers.sp = 1) → m' = m

theorem HalfStored.of_sameRegisters {op : Operation} {v : Word} {c c' : Core}
    (h : HalfStored op v c m m') (hr : c'.registers = c.registers) (hf : c'.flags = c.flags) :
    HalfStored op v c' m m' := by
  have hpushed : op.pushedWord? c' = op.pushedWord? c := by
    cases op with
    | push pair => cases pair <;> simp only [Operation.pushedWord?, Core.stackWord, hr, hf]
    | call | rst vector => simp only [Operation.pushedWord?, hr]
    | ccc condition => simp only [Operation.pushedWord?, hr, hf]
    | _ => rfl
  obtain ⟨hshld, hstored, huntouched⟩ := h
  refine ⟨?_, ?_, ?_⟩ <;> rw [hr]
  · exact hshld
  · rw [hpushed]
    exact hstored
  · rw [hpushed]
    exact huntouched

namespace Core

variable {c : Core} {d : Bool} {op : Operation} {v w : Word}

/-- All operations but those that store two bytes do so at their end or not at all. -/
theorem execute_atomic (hshld : op ≠ .shld) (hxthl : op ≠ .xthl) (hpush : op.pushedWord? c = none) :
    (c.execute d op v).Atomic := by
  cases op with
  | shld => exact absurd rfl hshld
  | xthl => exact absurd rfl hxthl
  | push pair | call | rst vector => cases hpush
  | mov dst src =>
    cases dst <;> cases src
    case reg.reg => trivial
    case reg.memory => exact fun _ => trivial
    case memory.reg => exact ⟨_, rfl⟩
    case memory.memory => exact fun _ => ⟨_, rfl⟩
  | mvi dst =>
    cases dst with
    | reg r => trivial
    | memory => exact ⟨_, rfl⟩
  | alu op src =>
    cases src with
    | reg r => trivial
    | memory => exact fun _ => trivial
  | inr dst | dcr dst =>
    cases dst with
    | reg r => trivial
    | memory => exact fun _ => ⟨_, rfl⟩
  | lda | ldax pointer => exact fun _ => trivial
  | sta | stax pointer => exact ⟨_, rfl⟩
  | lhld | pop pair | ret => exact fun _ _ => trivial
  | rcc condition =>
    simp only [execute]
    split
    · exact fun _ _ => trivial
    · trivial
  | ccc condition =>
    simp only [Operation.pushedWord?] at hpush
    split at hpush
    next => cases hpush
    next hc =>
      simp only [execute, if_neg hc]
      trivial
  | input => exact fun _ => ⟨_, rfl⟩
  | output => exact ⟨_, rfl⟩
  | _ => trivial

/-- An operation that pushes does so first of all. -/
theorem execute_of_pushedWord? (h : op.pushedWord? c = some w) :
    ∃ c', c.execute d op v = .write (c.registers.sp - 1) (Word.high w)
      (.write (c.registers.sp - 2) (Word.low w) (.done c')) := by
  cases op with
  | push pair | call | rst vector =>
    obtain rfl := Option.some.inj h
    exact ⟨_, rfl⟩
  | ccc condition =>
    simp only [Operation.pushedWord?] at h
    split at h
    next hc =>
      obtain rfl := Option.some.inj h
      simp only [execute, if_pos hc]
      exact ⟨_, rfl⟩
    next => cases h
  | _ => cases h

/-- The exchange reads both bytes before it writes them, so a refusal comes first. -/
theorem exchangeTop_refused (h : (c.exchangeTop.run bus m b).result = .error f) :
    (c.exchangeTop.run bus m b).memory = m ∧ (c.exchangeTop.run bus m b).bus = b := by
  have hread : (Cycles.readWord c.registers.sp).Quiet := fun _ _ => trivial
  obtain ⟨hm, hb⟩ := hread.run bus m b
  rw [exchangeTop, Cycles.run_bind] at h ⊢
  rcases hw : (Cycles.readWord c.registers.sp).run bus m b with ⟨e | w, m₁, b₁, es⟩ <;>
    rw [hw] at h hm hb
  · exact ⟨hm, hb⟩
  · -- the writes go where the reads went, so what refuses them would have refused those
    have hrefused : (Cycles.run bus _ m₁ b₁).result = .error f := h
    have hwrites := Cycles.run_eq_error_iff.mp hrefused
    have hreads : (Cycles.readWord c.registers.sp).refusal? bus m.size m.peek b = some f := by
      subst hm
      exact hwrites
    rw [← Cycles.run_eq_error_iff, hw] at hreads
    cases hreads

/-- The last address is the only one at which half of HL fits. -/
theorem shld_refused (h : ((c.execute d .shld v).run bus m b).result = .error f) :
    ((c.execute d .shld v).run bus m b).bus = b ∧
      HalfStored .shld v c m ((c.execute d .shld v).run bus m b).memory := by
  have hnext : (v + 1).toNat = (v.toNat + 1) % 65536 := UInt16.toNat_add v 1
  have hv := v.toNat_lt
  have hwrites : c.execute d .shld v =
      .write v (Word.low c.registers.hl) (.write (v + 1) (Word.high c.registers.hl) (.done c)) := rfl
  obtain ⟨hbus, ⟨hout, hm⟩ | ⟨hin, hout, hm⟩⟩ := Cycles.write_write_refused hwrites h
  · refine ⟨hbus, ?_, nofun, fun _ _ => hm⟩
    intro _ hlast
    omega
  · have hpos := m.size_pos
    have hlast : v.toNat + 1 = m.size ∧ m.size < 65536 := by
      rw [hnext] at hout
      change 0 < m.size at hpos
      omega
    rw [Registers.hl, Word.low_ofBytes] at hm
    have hstored : Memory.Stored v c.registers.l m
        ((c.execute d .shld v).run bus m b).memory := hm ▸ Memory.stored_write _ hin
    exact ⟨hbus, fun _ _ => ⟨hlast.2, hstored⟩, nofun, fun hn => absurd ⟨rfl, hlast.1⟩ hn⟩

/-- Zero is the only address at which half of a pushed word fits. -/
theorem push_refused (hw : op.pushedWord? c = some w)
    (h : ((c.execute d op v).run bus m b).result = .error f) :
    ((c.execute d op v).run bus m b).bus = b ∧
      HalfStored op v c m ((c.execute d op v).run bus m b).memory := by
  obtain ⟨c', hc⟩ := execute_of_pushedWord? (d := d) (v := v) hw
  have hpos : 0 < m.size := m.size_pos
  have hshld : op ≠ .shld := by
    rintro rfl
    cases hw
  have hsp := c.registers.sp.toNat_lt
  have hfirst : (c.registers.sp - 1).toNat = (65536 - 1 + c.registers.sp.toNat) % 65536 :=
    UInt16.toNat_sub c.registers.sp 1
  have hsecond : (c.registers.sp - 2).toNat = (65536 - 2 + c.registers.sp.toNat) % 65536 :=
    UInt16.toNat_sub c.registers.sp 2
  obtain ⟨hbus, ⟨hout, hm⟩ | ⟨hin, hout, hm⟩⟩ := Cycles.write_write_refused hc h
  · refine ⟨hbus, fun hop => absurd hop hshld, fun _ _ hs => ?_, fun _ _ => hm⟩
    rw [hs] at hout
    exact absurd hpos (Nat.not_lt.mpr hout)
  · -- the two addresses are adjacent, so the image can end between them only where they wrap
    have hlast : c.registers.sp.toNat = 1 ∧ m.size < 65536 := by omega
    have hs : c.registers.sp = 1 := UInt16.toNat_inj.mp hlast.1
    refine ⟨hbus, fun hop => absurd hop hshld, fun w' hw' _ => ⟨hlast.2, ?_⟩, fun _ hn => ?_⟩
    · obtain rfl := Option.some.inj (hw.symm.trans hw')
      rw [hs] at hin hm
      exact hm ▸ Memory.stored_write _ hin
    · exact absurd ⟨hw ▸ Option.some_ne_none w, hs⟩ hn

/-- A refused execution uses no port, and stores at most half a word. -/
theorem execute_refused {es : List Emission}
    (he : (c.execute d op v).run bus m b = ⟨.error f, m', b', es⟩) :
    b' = b ∧ HalfStored op v c m m' := by
  have h := congrArg Trail.result he
  suffices hkept : ((c.execute d op v).run bus m b).bus = b ∧
      HalfStored op v c m ((c.execute d op v).run bus m b).memory by rwa [he] at hkept
  by_cases hshld : op = .shld
  · subst hshld
    exact shld_refused h
  cases hpush : op.pushedWord? c with
  | some w => exact push_refused hpush h
  | none =>
    have hkept : ((c.execute d op v).run bus m b).memory = m ∧
        ((c.execute d op v).run bus m b).bus = b := by
      by_cases hxthl : op = .xthl
      · subst hxthl
        exact exchangeTop_refused h
      · exact (execute_atomic hshld hxthl hpush).refused h
    refine ⟨hkept.2, fun hop => absurd hop hshld, fun w hw => ?_, fun _ _ => hkept.1⟩
    rw [hpush] at hw
    cases hw

/-- An execution is refused for an address beyond memory. -/
theorem execute_outOfRange (h : ((c.execute d op v).run bus m b).result = .error f) :
    ∃ addr, f = .addressOutOfRange addr m.size := by
  rw [Cycles.run_eq_error_iff, execute_refusal?] at h
  obtain ⟨addr, -, haddr⟩ := List.exists_of_findSome?_eq_some h
  exact ⟨addr, (outOfRange?_eq_some.mp haddr).2⟩

end Core

/-! ### Calls that fault -/

namespace Cpu

variable {cpu : Cpu} {code : Byte}

/-- What a step demands before anything is executed, in order. -/
def fetchDemands (cpu : Cpu) : List Demand :=
  let r := cpu.core.registers
  let code := cpu.memory.peek r.pc
  .access r.pc :: .opcode code r.pc :: ((Operation.decode code).operandAddresses r.pc).map .access

/-- A fetch is refused by the first demand that is not met. -/
theorem fetch_eq_error_iff (bus : Bus β) (b : β) :
    ((cpu.core.fetch cpu.config).run bus cpu.memory b).result = .error f ↔
      cpu.fetchDemands.findSome? (Demand.refusal? cpu.config cpu.memory.size) = some f := by
  rw [Cycles.run_eq_error_iff, ← Cycles.refusal?_map bus _ _ id, Core.fetch_refusal?]
  simp only [fetchDemands, findSome?_cons_eq_or, findSome?_access]
  change Option.or _ (Option.or _ (Option.or _ none)) = _ ↔ _
  rw [Option.or_none]
  rfl

/-- What a step leaves behind that raised a fault. -/
structure StepFaulted (cpu : Cpu) (b : β) (f : Fault) (r : Reply Nat β) : Prop where
  latch : r.cpu.latch = some ⟨f, cpu.core.registers.pc⟩
  config : r.cpu.config = cpu.config
  bus : r.bus = b
  core : r.cpu.core =
    { cpu.core with
      registers :=
        { cpu.core.registers with pc := r.cpu.core.registers.pc, wz := r.cpu.core.registers.wz }
      shadow := r.cpu.core.shadow }
  /-- The fault came from the fetch, or else from the execution behind it. -/
  phase :
    let demanded := cpu.fetchDemands.findSome? (Demand.refusal? cpu.config cpu.memory.size)
    let op := Operation.decode (cpu.memory.peek cpu.core.registers.pc)
    let v := op.immediateAt cpu.memory.peek cpu.core.registers.pc
    demanded = some f ∧ r.cpu.core = cpu.core ∧ r.cpu.memory = cpu.memory ∨
      demanded = none ∧ r.cpu.core.registers.pc = cpu.core.registers.pc + op.length ∧
        HalfStored op v (cpu.core.advance op v) cpu.memory r.cpu.memory

theorem step_faulted (bus : Bus β) (hl : cpu.latch = none)
    (h : (cpu.step bus b).result = .error f) :
    StepFaulted cpu b f (cpu.step bus b) := by
  have hh : cpu.core.halted = false := by
    cases hh : cpu.core.halted with
    | false => rfl
    | true => simp [step, hl, hh] at h
  rw [step_eq_carryOut bus b hl hh] at h ⊢
  have hc := carriedOut bus (cpu.core.fetch cpu.config) (execution cpu.config) cpu b
  generalize cpu.carryOut bus (cpu.core.fetch cpu.config) (execution cpu.config) b = r at hc h ⊢
  obtain ⟨hm, hb⟩ := (Core.fetch_quiet cpu.config cpu.core).run bus cpu.memory b
  cases hc with
  | refused hp =>
    obtain rfl := Except.error.inj h
    rw [hp] at hm hb
    have hdemand := (fetch_eq_error_iff bus b).mp (congrArg Trail.result hp)
    exact ⟨rfl, rfl, hb, rfl, .inl ⟨hdemand, rfl, hm⟩⟩
  | @failed p m₁ b₁ es x m₂ b₂ fs hp he =>
    obtain rfl := Except.error.inj h
    have hdemand : cpu.fetchDemands.findSome? (Demand.refusal? cpu.config cpu.memory.size) =
        none := by
      cases hd : cpu.fetchDemands.findSome? (Demand.refusal? cpu.config cpu.memory.size) with
      | none => rfl
      | some g =>
        rw [← fetch_eq_error_iff bus b, hp] at hd
        cases hd
    have hprepared := Core.fetch_prepared (congrArg Trail.result hp)
    rw [hp] at hm hb
    obtain rfl : cpu.memory = m₁ := hm.symm
    obtain rfl : b = b₁ := hb.symm
    subst hprepared
    obtain ⟨hbus, hstored⟩ := Core.execute_refused he
    exact ⟨rfl, rfl, hbus, rfl, .inr ⟨hdemand, rfl, hstored⟩⟩
  | granted hp he => cases h

/-- What an accepted interrupt leaves behind that raised a fault. -/
structure InterruptFaulted (code : Byte) (cpu : Cpu) (b : β) (f : Fault)
    (r : Reply (Option Nat) β) : Prop where
  latch : r.cpu.latch = some ⟨f, cpu.core.registers.pc⟩
  config : r.cpu.config = cpu.config
  bus : r.bus = b
  core : r.cpu.core =
    { cpu.core with
      interruptsEnabled := r.cpu.core.interruptsEnabled
      halted := r.cpu.core.halted }
  /-- The opcode was turned down, or else the fault came from its execution. -/
  phase :
    (f = .multiByteInterrupt code ∨ f = .undefinedOpcode code cpu.core.registers.pc) ∧
        r.cpu.core = cpu.core ∧ r.cpu.memory = cpu.memory ∨
      (∃ addr, f = .addressOutOfRange addr cpu.memory.size) ∧
        r.cpu.core.interruptsEnabled = false ∧ r.cpu.core.halted = false ∧
        HalfStored (Operation.decode code) 0 cpu.core cpu.memory r.cpu.memory

theorem interrupt_faulted (bus : Bus β) (ha : cpu.acceptsInterrupts = true)
    (h : (cpu.interrupt bus code b).result = .error f) :
    InterruptFaulted code cpu b f (cpu.interrupt bus code b) := by
  have hmap {r : Except Fault Nat} (hr : r.map some = .error f) : r = .error f := by
    cases r <;> simp_all [Except.map]
  rw [interrupt_eq_carryOut bus code b ha] at h ⊢
  replace h := hmap h
  have hc := carriedOut bus (cpu.core.acknowledge cpu.config code)
    (fun p => return reenable cpu.config (← execution cpu.config p)) cpu b
  generalize cpu.carryOut bus (cpu.core.acknowledge cpu.config code)
    (fun p => return reenable cpu.config (← execution cpu.config p)) b = r at hc h ⊢
  obtain ⟨hm, hb⟩ := (Core.acknowledge_quiet cpu.config code cpu.core).run bus cpu.memory b
  cases hc with
  | refused hp =>
    obtain rfl := Except.error.inj h
    have hf := Core.acknowledge_refused (congrArg Trail.result hp)
    rw [hp] at hm hb
    exact ⟨rfl, rfl, hb, rfl, .inl ⟨hf, rfl, hm⟩⟩
  | @failed p m₁ b₁ es x m₂ b₂ fs hp he =>
    obtain rfl := Except.error.inj h
    have hprepared := Core.acknowledge_prepared (congrArg Trail.result hp)
    rw [hp] at hm hb
    obtain rfl : cpu.memory = m₁ := hm.symm
    obtain rfl : b = b₁ := hb.symm
    subst hprepared
    obtain ⟨hbus, hstored⟩ := Core.execute_refused (Cycles.run_of_map_refused he)
    have hf := Core.execute_outOfRange (congrArg Trail.result (Cycles.run_of_map_refused he))
    exact ⟨rfl, rfl, hbus, rfl, .inr ⟨hf, rfl, rfl, hstored.of_sameRegisters rfl rfl⟩⟩
  | granted hp he => cases h

/-- A fault leaves everything as it was but the program counter behind a fetched instruction and
half of a word that did not fit in memory. -/
theorem fault_aftermath :
    (∀ {β : Type} (bus : Bus β) (cpu : Cpu) (b : β) (f : Fault), cpu.latch = none →
      (cpu.step bus b).result = .error f →
      StepFaulted cpu b f (cpu.step bus b) ∧ (cpu.step bus.recorded (b, [])).bus.2 = []) ∧
      ∀ {β : Type} (bus : Bus β) (code : Byte) (cpu : Cpu) (b : β) (f : Fault),
        cpu.acceptsInterrupts = true → (cpu.interrupt bus code b).result = .error f →
        InterruptFaulted code cpu b f (cpu.interrupt bus code b) ∧
          (cpu.interrupt bus.recorded code (b, [])).bus.2 = [] := by
  refine ⟨fun bus cpu b f hl h => ⟨step_faulted bus hl h, ?_⟩,
    fun bus code cpu b f ha h => ⟨interrupt_faulted bus ha h, ?_⟩⟩
  · rw [← step_recorded bus cpu (b, [])] at h
    exact congrArg Prod.snd (step_faulted bus.recorded hl h).bus
  · rw [← interrupt_recorded bus cpu (b, []) code] at h
    exact congrArg Prod.snd (interrupt_faulted bus.recorded ha h).bus

/-- A processor at an SHLD to its last address, with room for half a word below its stack. -/
def cramped : Cpu where
  core := { registers := { b := 9, h := 1, l := 2, sp := 1 } }
  memory := ⟨#[0x22, 0x05, 0x00, 0, 0, 0], by decide, by decide⟩
  latch := none
  config := { memorySize := 6, interruptPolicy := .autoReenable }

/-- The SHLD stores L, and an interrupt that pushes BC stores B. -/
theorem fault_aftermath_cramped :
    (cramped.step Bus.null ()).cpu.memory.read 5 = .ok 2 ∧
      StepFaulted cramped () (.addressOutOfRange 6 6) (cramped.step Bus.null ()) ∧
      (cramped.interrupt Bus.null 0xC5 ()).cpu.memory.read 0 = .ok 9 ∧
      InterruptFaulted 0xC5 cramped () (.addressOutOfRange 0xFFFF 6)
        (cramped.interrupt Bus.null 0xC5 ()) :=
  ⟨rfl, (fault_aftermath.1 Bus.null cramped () _ rfl rfl).1, rfl,
    (fault_aftermath.2 Bus.null 0xC5 cramped () _ rfl rfl).1⟩

end Cpu

end Intel8080
