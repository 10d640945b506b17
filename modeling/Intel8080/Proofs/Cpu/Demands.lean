import Intel8080.Proofs.Cpu.CarryOut
import Intel8080.Proofs.Cycles.Refusal

/-! What a step demands before it is done: that its opcode may be executed and that the addresses
it accesses lie within memory, in the order in which it asks. A step is refused by the first
demand that is not met, and by nothing else; so is an interrupt that is accepted. -/

namespace Intel8080

inductive Demand where
  | access (addr : Word)
  /-- The opcode at that address may be executed. -/
  | opcode (code : Byte) (pc : Word)
  /-- An interrupt can supply the opcode, as no bytes follow it. -/
  | supply (code : Byte)

/-- The fault that a demand raises which is not met. -/
def Demand.refusal? (config : Config) (size : Nat) : Demand → Option Fault
  | access addr => outOfRange? size addr
  | opcode code pc =>
    if Operation.documented code then none
    else
      match config.undefinedOpcodes with
      | .fault => some (.undefinedOpcode code pc)
      | .alias => none
  | supply code =>
    if (Operation.decode code).immediate = .none then none else some (.multiByteInterrupt code)

namespace Operation

/-- The addresses of the bytes behind an opcode. -/
def operandAddresses (op : Operation) (pc : Word) : List Word :=
  match op.immediate with
  | .none => []
  | .byte => [pc + 1]
  | .word => [pc + 1, pc + 2]

/-- The immediate byte or word behind an opcode, zero where there is none. -/
def immediateAt (op : Operation) (m : Word → Byte) (pc : Word) : Word :=
  match op.immediate with
  | .none => 0
  | .byte => (m (pc + 1)).toUInt16
  | .word => Word.ofBytes (m (pc + 2)) (m (pc + 1))

/-- The addresses of the data that executing an operation accesses. -/
def dataAddresses (op : Operation) (immediate : Word) (r : Registers) (f : Flags) : List Word :=
  let operand (o : Operand) : List Word := if o = .memory then [r.hl] else []
  let popped : List Word := [r.sp, r.sp + 1]
  let pushed : List Word := [r.sp - 1, r.sp - 2]
  match op with
  | mov dst src => if dst = .memory ∨ src = .memory then [r.hl] else []
  | mvi o | alu _ o | inr o | dcr o => operand o
  | ldax pointer | stax pointer => [r.pair pointer.pair]
  | lda | sta => [immediate]
  | lhld | shld => [immediate, immediate + 1]
  | pop _ | ret | xthl => popped
  | rcc condition => if condition.holds f then popped else []
  | push _ | call | rst _ => pushed
  | ccc condition => if condition.holds f then pushed else []
  | _ => []

end Operation

namespace Cpu

/-- What a step demands, in order. -/
def demands (cpu : Cpu) : List Demand :=
  let r := cpu.core.registers
  let code := cpu.memory.peek r.pc
  let op := Operation.decode code
  let v := op.immediateAt cpu.memory.peek r.pc
  .access r.pc :: .opcode code r.pc ::
    (op.operandAddresses r.pc ++ op.dataAddresses v r cpu.core.flags).map .access

/-- What an accepted interrupt demands, in order. -/
def interruptDemands (code : Byte) (cpu : Cpu) : List Demand :=
  let r := cpu.core.registers
  .supply code :: .opcode code r.pc ::
    ((Operation.decode code).dataAddresses 0 r cpu.core.flags).map .access

end Cpu

/-! ### The first demand that is not met -/

variable {α β γ : Type}

theorem findSome?_cons_eq_or (f : α → Option β) (x : α) (xs : List α) :
    (x :: xs).findSome? f = (f x).or (xs.findSome? f) := by
  rw [List.findSome?_cons]
  cases f x <;> rfl

/-- A demand that is made twice is refused the first time. -/
theorem or_or_self (x y : Option α) : x.or (x.or y) = x.or y := by
  cases x <;> rfl

namespace Core

variable (c : Core) (bus : Bus β) (size : Nat) (m : Word → Byte) (b : β)

/-- Executing an operation is refused by the first address beyond memory among those it accesses. -/
theorem execute_refusal? (d : Bool) (op : Operation) (v : Word) :
    (c.execute d op v).refusal? bus size m b =
      (op.dataAddresses v c.registers c.flags).findSome? (outOfRange? size) := by
  have hone (x : Word) : [x].findSome? (outOfRange? size) = (outOfRange? size x).or none :=
    findSome?_cons_eq_or _ _ _
  have htwo (x y : Word) : [x, y].findSome? (outOfRange? size) =
      (outOfRange? size x).or ((outOfRange? size y).or none) := by
    rw [findSome?_cons_eq_or, hone]
  cases op with
  | mov dst src =>
    cases dst <;> cases src
    case reg.reg => rfl
    case memory.memory => exact (or_or_self _ _).trans (hone _).symm
    all_goals exact (hone _).symm
  | mvi dst | alu op dst =>
    cases dst with
    | reg r => rfl
    | memory => exact (hone _).symm
  | inr dst | dcr dst =>
    cases dst with
    | reg r => rfl
    | memory => exact (or_or_self _ _).trans (hone _).symm
  | lda | sta | ldax pointer | stax pointer => exact (hone _).symm
  | lhld | shld | pop pair | ret | push pair | call | rst vector => exact (htwo _ _).symm
  | xthl =>
    -- both bytes are read before they are written
    refine Eq.trans ?_ (htwo _ _).symm
    change (outOfRange? size c.registers.sp).or ((outOfRange? size (c.registers.sp + 1)).or
      ((outOfRange? size c.registers.sp).or ((outOfRange? size (c.registers.sp + 1)).or none))) = _
    cases outOfRange? size c.registers.sp with
    | some f => rfl
    | none => simp only [Option.none_or, or_or_self]
  | rcc condition | ccc condition =>
    simp only [execute, Operation.dataAddresses]
    cases condition.holds c.flags with
    | true => exact (htwo _ _).symm
    | false => rfl
  | jcc condition =>
    simp only [execute]
    cases condition.holds c.flags <;> rfl
  | _ => rfl

theorem permit_refusal? (config : Config) (code : Byte) (pc : Word) (next : Cycles γ) :
    (permit config code pc >>= fun _ => next).refusal? bus size m b =
      (Demand.refusal? config size (.opcode code pc)).or (next.refusal? bus size m b) := by
  simp only [permit, Demand.refusal?]
  split
  · rfl
  · cases config.undefinedOpcodes <;> rfl

theorem readImmediate_refusal? (op : Operation) (pc : Word) (next : Word → Cycles γ) :
    (readImmediate op.immediate (pc + 1) >>= next).refusal? bus size m b =
      ((op.operandAddresses pc).findSome? (outOfRange? size)).or
        ((next (op.immediateAt m pc)).refusal? bus size m b) := by
  have htwo : pc + 1 + 1 = pc + 2 := UInt16.add_assoc _ _ _
  unfold Operation.operandAddresses Operation.immediateAt
  cases op.immediate with
  | none => rfl
  | byte =>
    rw [findSome?_cons_eq_or, List.findSome?_nil, Option.or_none]
    rfl
  | word =>
    rw [findSome?_cons_eq_or, findSome?_cons_eq_or, List.findSome?_nil, Option.or_none,
      Option.or_assoc, ← htwo]
    rfl

/-- A fetch is refused by the first demand on the opcode and on the bytes behind it. If there is
none, it goes on with the instruction that stands in memory. -/
theorem fetch_refusal? (config : Config) (next : Prepared → Cycles γ) :
    (c.fetch config >>= next).refusal? bus size m b =
      let pc := c.registers.pc
      let op := Operation.decode (m pc)
      let v := op.immediateAt m pc
      (outOfRange? size pc).or
        ((Demand.refusal? config size (.opcode (m pc) pc)).or
          (((op.operandAddresses pc).findSome? (outOfRange? size)).or
            ((next ⟨op, v, c.advance op v⟩).refusal? bus size m b))) := by
  simp only [fetch, Cycles.bind_assoc, Cycles.pure_bind]
  change (outOfRange? size c.registers.pc).or
    ((permit config (m c.registers.pc) c.registers.pc >>= _).refusal? bus size m b) = _
  rw [permit_refusal?, readImmediate_refusal?]
  rfl

/-- An interrupt opcode is refused by the first demand on it. -/
theorem acknowledge_refusal? (config : Config) (code : Byte) (next : Prepared → Cycles γ) :
    (c.acknowledge config code >>= next).refusal? bus size m b =
      (Demand.refusal? config size (.supply code)).or
        ((Demand.refusal? config size (.opcode code c.registers.pc)).or
          ((next ⟨Operation.decode code, 0,
            { c with interruptsEnabled := false, halted := false }⟩).refusal? bus size m b)) := by
  simp only [acknowledge, ne_eq, ite_not, Demand.refusal?]
  split
  · simp only [Cycles.bind_assoc, Cycles.pure_bind]
    rw [permit_refusal?]
    rfl
  · rfl

end Core

namespace Cpu

variable {bus : Bus β} {cpu : Cpu} {code : Byte} {b : β} {fault : Fault}

theorem findSome?_access (config : Config) (size : Nat) (xs : List Word) :
    (xs.map Demand.access).findSome? (Demand.refusal? config size) =
      xs.findSome? (outOfRange? size) := List.findSome?_map

theorem carryOut_eq_error_iff {prepare : Cycles Prepared} {execute : Prepared → Cycles Core} :
    (cpu.carryOut bus prepare execute b).result = .error fault ↔
      (prepare >>= execute).refusal? bus cpu.memory.size cpu.memory.peek b = some fault := by
  have herror (x : Fault) : (Except.error x : Except Fault Nat) = .error fault ↔
      (Except.error x : Except Fault Core) = .error fault := by
    simp only [Except.error.injEq]
  rw [← Cycles.run_eq_error_iff, Cycles.run_bind]
  have hc := carriedOut bus prepare execute cpu b
  generalize cpu.carryOut bus prepare execute b = r at hc ⊢
  cases hc with
  | refused hp =>
    rw [hp]
    exact herror _
  | failed hp he =>
    rw [hp, Trail.andThen, he]
    exact herror _
  | granted hp he =>
    rw [hp, Trail.andThen, he]
    exact ⟨nofun, nofun⟩

/-- A step faults with the first demand that is not met. -/
theorem step_eq_error_iff (hl : cpu.latch = none) (hh : cpu.core.halted = false) :
    (cpu.step bus b).result = .error fault ↔
      cpu.demands.findSome? (Demand.refusal? cpu.config cpu.memory.size) = some fault := by
  rw [step_eq_carryOut bus b hl hh, carryOut_eq_error_iff, Core.fetch_refusal?]
  simp only [execution, Core.execute_refusal?, demands, findSome?_cons_eq_or, findSome?_access,
    List.findSome?_append]
  rfl

/-- So does an interrupt that is accepted. -/
theorem interrupt_eq_error_iff (ha : cpu.acceptsInterrupts = true) :
    (cpu.interrupt bus code b).result = .error fault ↔
      (cpu.interruptDemands code).findSome? (Demand.refusal? cpu.config cpu.memory.size) =
        some fault := by
  have hmap (r : Except Fault Nat) : r.map some = .error fault ↔ r = .error fault := by
    cases r <;> simp [Except.map]
  rw [interrupt_eq_carryOut bus code b ha]
  simp only [Reply.map, hmap]
  rw [carryOut_eq_error_iff, Core.acknowledge_refusal?]
  simp only [execution, Cycles.refusal?_map, Core.execute_refusal?, interruptDemands,
    findSome?_cons_eq_or, findSome?_access]

end Cpu

end Intel8080
