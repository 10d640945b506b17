import Intel8080.Proofs.Cycles.Flat
import Intel8080.Proofs.Manual.Transfer

/-! The processor does what the manual says: executing an operation on a memory with a byte at
every address is the transfer of the instruction it belongs to, and the table of state counts is
the manual's. -/

namespace Intel8080.Manual

variable {β : Type}

theorem xor_ones (v : Byte) : v ^^^ 0xFF = ~~~v := by
  revert v
  decide +kernel

/-! ### Registers -/

namespace Machine

/-- The manual's registers and halves of words are those of the processor. -/
theorem pair_eq (s : Machine β) (p : Pair) : s.pair p = s.registers.pair p := by
  cases p <;> simp only [pair, halves_eq] <;> rfl

theorem setPair_eq (s : Machine β) (p : Pair) (w : Word) :
    s.setPair p w = { s with registers := s.registers.setPair p w } := by
  cases p <;> simp only [setPair, upperHalf_eq, lowerHalf_eq] <;> rfl

theorem target_eq (s : Machine β) (p : Pointer) : s.target p = s.registers.pair p.pair := by
  cases p with
  | bc => exact s.pair_eq .bc
  | de => exact s.pair_eq .de

theorem operand_eq (s : Machine β) (o : Operand) :
    s.operand o =
      match o with
      | .reg r => s.registers.get r
      | .memory => s.memory s.registers.hl := by
  rcases o with (_ | _ | _ | _ | _ | _ | _) | _
  case memory => exact congrArg s.memory (s.pair_eq .hl)
  all_goals rfl

theorem setOperand_eq (s : Machine β) (o : Operand) (v : Byte) :
    s.setOperand o v =
      match o with
      | .reg r => { s with registers := s.registers.set r v }
      | .memory => { s with memory := Function.update s.memory s.registers.hl v } := by
  rcases o with (_ | _ | _ | _ | _ | _ | _) | _
  case memory => simp only [setOperand, pair_eq]; rfl
  all_goals rfl

theorem word_eq (s : Machine β) (addr : Word) :
    s.word addr = Word.ofBytes (s.memory (addr + 1)) (s.memory addr) := halves_eq _ _

theorem setWord_eq (s : Machine β) (addr w : Word) :
    s.setWord addr w =
      { s with
        memory := Function.update (Function.update s.memory addr (Word.low w)) (addr + 1)
          (Word.high w) } := by
  rw [setWord, lowerHalf_eq, upperHalf_eq]

theorem push_eq (s : Machine β) (w : Word) :
    s.push w =
      { s with
        memory := Function.update (Function.update s.memory (s.registers.sp - 1) (Word.high w))
          (s.registers.sp - 2) (Word.low w)
        registers.sp := s.registers.sp - 2 } := by
  rw [push, lowerHalf_eq, upperHalf_eq]

theorem stackPair_eq (s : Machine β) (p : StackPair) : s.stackPair p = s.toCore.stackWord p := by
  cases p with
  | psw =>
    rw [stackPair, halves_eq, byteOfBits_statusBits]
    rfl
  | bc => exact s.pair_eq .bc
  | de => exact s.pair_eq .de
  | hl => exact s.pair_eq .hl

theorem setStackPair_eq (s : Machine β) (p : StackPair) (w : Word) :
    s.setStackPair p w = { s with toCore := s.toCore.setStackWord p w } := by
  cases p with
  | psw =>
    rw [setStackPair, upperHalf_eq, lowerHalf_eq]
    rfl
  | bc => exact s.setPair_eq .bc w
  | de => exact s.setPair_eq .de w
  | hl => exact s.setPair_eq .hl w

theorem latchPort_eq (s : Machine β) (port v : Byte) :
    s.latchPort port v = { s with addressBus := Word.ofBytes port port, dataBus := v } := by
  rw [latchPort, halves_eq]

end Machine

namespace Instruction

/-- What the processor notes of the instruction at `pc`. -/
def notes (pc : Word) : Instruction → List Emission
  | hlt => [.event (.haltedAt pc)]
  | ei => [.event .enabledInterrupts]
  | di => [.event .disabledInterrupts]
  | _ => []

open Machine in
/-- Execution starts behind the instruction with the shadow gone, as `fetched` leaves it. -/
theorem execute_flat (bus : Bus β) (d : Bool) (i : Instruction) (s : Machine β)
    (hs : s.shadow = false) (he : s.emitted = []) :
    (s.toCore.execute d i.operation i.immediate).flat bus s.memory s.device =
      ⟨.ok (i.transfer bus d s).toCore, (i.transfer bus d s).memory, (i.transfer bus d s).device,
        i.notes (s.registers.pc - 1) ++ (i.transfer bus d s).emitted⟩ := by
  rcases s with ⟨c, m, b, es⟩
  obtain rfl : es = [] := he
  cases i with
  | mov dst src _ =>
    simp only [transfer, operand_eq, setOperand_eq]
    cases dst <;> cases src <;> rfl
  | mvi dst v =>
    simp only [transfer, setOperand_eq, Core.execute, operation, immediate, Word.low_toUInt16]
    cases dst <;> rfl
  | lxi pair w =>
    simp only [transfer, setPair_eq]
    rfl
  | lda addr => rfl
  | sta addr => rfl
  | lhld addr =>
    simp only [transfer, setPair_eq, word_eq]
    rfl
  | shld addr =>
    simp only [transfer, setWord_eq, pair_eq]
    rfl
  | ldax pointer =>
    simp only [transfer, target_eq]
    rfl
  | stax pointer =>
    simp only [transfer, target_eq]
    rfl
  | xchg =>
    simp only [transfer, setPair_eq, pair_eq, Registers.setPair, Registers.pair, Registers.hl,
      Registers.de, Word.high_ofBytes, Word.low_ofBytes]
    rfl
  | alu op src =>
    simp only [transfer, combine_eq, operand_eq]
    cases src <;> rfl
  | aluImmediate op v =>
    simp only [transfer, combine_eq, Core.execute, operation, immediate, Word.low_toUInt16]
    rfl
  | inr dst =>
    simp only [transfer, increment_eq, operand_eq, setOperand_eq]
    cases dst <;> rfl
  | dcr dst =>
    simp only [transfer, decrement_eq, operand_eq, setOperand_eq]
    cases dst <;> rfl
  | inx pair =>
    simp only [transfer, setPair_eq, pair_eq]
    rfl
  | dcx pair =>
    simp only [transfer, setPair_eq, pair_eq]
    rfl
  | dad pair =>
    simp only [transfer, addWords_eq, setPair_eq, pair_eq]
    rfl
  | rotate rotation =>
    simp only [transfer, turn_eq]
    rfl
  | daa =>
    simp only [transfer, adjust_eq]
    rfl
  | cma =>
    simp only [transfer, xor_ones]
    rfl
  | stc => rfl
  | cmc => rfl
  | jmp target => rfl
  | jcc condition target =>
    simp only [transfer, tested_eq, operation, Core.execute]
    cases condition.holds c.flags <;> rfl
  | call target =>
    simp only [transfer, Machine.call, push_eq]
    rfl
  | ccc condition target =>
    simp only [transfer, tested_eq, operation, Core.execute, Machine.call, push_eq]
    cases condition.holds c.flags <;> rfl
  | ret =>
    simp only [transfer, Machine.ret, top, word_eq]
    rfl
  | rcc condition =>
    simp only [transfer, tested_eq, operation, Core.execute, Machine.ret, top, word_eq]
    cases condition.holds c.flags <;> rfl
  | rst vector =>
    simp only [transfer, Machine.call, push_eq, operation, Core.execute, Core.restart_eq_call,
      Byte.last_field]
    rfl
  | pchl =>
    simp only [transfer, pair_eq]
    rfl
  | push pair =>
    simp only [transfer, stackPair_eq, push_eq]
    rfl
  | pop pair =>
    simp only [transfer, setStackPair_eq, top, word_eq]
    rfl
  | xthl =>
    simp only [transfer, setWord_eq, setPair_eq, pair_eq, top, word_eq]
    rfl
  | sphl =>
    simp only [transfer, pair_eq]
    rfl
  | input port =>
    simp only [Core.execute, operation, immediate, Word.low_toUInt16, transfer, latchPort_eq,
      Core.input, Cycles.flat, FlatTrail.emitBefore, List.append_nil]
    rfl
  | output port =>
    simp only [Core.execute, operation, immediate, Word.low_toUInt16, transfer, latchPort_eq,
      Core.output, Cycles.flat, FlatTrail.emitBefore, List.append_nil]
    rfl
  | ei => rfl
  | di =>
    -- DI also takes back the shadow, which is gone by now
    rcases c with ⟨r, f, ie, h, sh, ab, db⟩
    obtain rfl : sh = false := hs
    rfl
  | hlt => rfl
  | nop => rfl

theorem cost_operation (i : Instruction) (f : Flags) : i.operation.cost f = i.cost f := by
  cases i with
  | jcc condition target => exact ite_self 10
  | ccc condition target =>
    rw [cost, tested_eq]
    rfl
  | rcc condition =>
    rw [cost, tested_eq]
    rfl
  | _ => rfl

/-- The three shapes of an instruction. -/
theorem operandBytes_cases (i : Instruction) :
    (i.operation.immediate = .none ∧ i.operandBytes = [] ∧ i.immediate = 0) ∨
      (∃ v, i.operation.immediate = .byte ∧ i.operandBytes = [v] ∧ i.immediate = v.toUInt16) ∨
      ∃ w, i.operation.immediate = .word ∧ i.operandBytes = [lowerHalf w, upperHalf w] ∧
        i.immediate = w := by
  cases i with
  | mvi _ v | aluImmediate _ v | input v | output v => exact .inr (.inl ⟨v, rfl, rfl, rfl⟩)
  | lxi _ w | lda w | sta w | lhld w | shld w | jmp w | jcc _ w | call w | ccc _ w =>
    exact .inr (.inr ⟨w, rfl, rfl, rfl⟩)
  | _ => exact .inl ⟨rfl, rfl, rfl⟩

/-- Moving behind the instruction is the same by its bytes and by the table. -/
theorem fetched_toCore (i : Instruction) (s : Machine β) :
    (i.fetched s).toCore = s.toCore.advance i.operation i.immediate := by
  rcases operandBytes_cases i with ⟨hk, hb, _⟩ | ⟨v, hk, hb, _⟩ | ⟨w, hk, hb, _⟩ <;>
    simp [fetched, Core.advance, Operation.length, Immediate.length, bytes, hk, hb]

theorem readImmediate_flat (bus : Bus β) (i : Instruction) (m : Word → Byte) (b : β) (addr : Word)
    (hat : ∀ k (h : k < i.operandBytes.length),
      m (addr + UInt16.ofNat k) = i.operandBytes[k]) :
    (Core.readImmediate i.operation.immediate addr).flat bus m b = ⟨.ok i.immediate, m, b, []⟩ := by
  rcases operandBytes_cases i with ⟨hk, hb, hi⟩ | ⟨v, hk, hb, hi⟩ | ⟨w, hk, hb, hi⟩
  · rw [hk, hi]
    rfl
  · have h₀ : m addr = v := by simpa [hb] using hat 0 (by simp [hb])
    rw [hk, hi, ← h₀]
    rfl
  · have h₀ : m addr = Word.low w := by simpa [hb, lowerHalf_eq] using hat 0 (by simp [hb])
    have h₁ : m (addr + 1) = Word.high w := by simpa [hb, upperHalf_eq] using hat 1 (by simp [hb])
    rw [hk, hi, ← Word.ofBytes_high_low w, ← h₀, ← h₁]
    rfl

/-- The event of reading the instruction. -/
def reading (i : Instruction) (c : Core) : Emission :=
  .event (.fetched c.registers.pc i.opcode i.immediate c.registers.a c.flags.status
    c.registers.sp)

/-- The bytes at the program counter read back as the instruction. -/
theorem fetch_flat (bus : Bus β) (config : Config) (i : Instruction) (s : Machine β)
    (hat : ∀ k (h : k < i.bytes.length),
      s.memory (s.registers.pc + UInt16.ofNat k) = i.bytes[k]) :
    (s.toCore.fetch config).flat bus s.memory s.device =
      ⟨.ok ⟨i.operation, i.immediate, (i.fetched s).toCore⟩, s.memory, s.device,
        [i.reading s.toCore]⟩ := by
  have hc : s.memory s.registers.pc = i.opcode := by
    have := hat 0 (by simp [bytes])
    simpa [bytes] using this
  have hi := readImmediate_flat bus i s.memory s.device (s.registers.pc + 1) fun k h => by
    have hk : s.registers.pc + 1 + UInt16.ofNat k = s.registers.pc + UInt16.ofNat (k + 1) := by
      rw [Nat.add_comm, UInt16.ofNat_add, ← UInt16.add_assoc]
      rfl
    rw [hk, hat (k + 1) (Nat.succ_lt_succ h)]
    rfl
  have hp : Core.permit config i.opcode s.registers.pc = pure () := by
    rw [Core.permit, if_pos (opcode_eq_code i).2]
  simp only [Core.fetch, Cycles.flat_bind, Cycles.flat_readByte, Cycles.flat_pure,
    FlatTrail.andThen_ok, hc, hp, decode_opcode, hi, fetched_toCore]
  rfl

end Instruction

end Intel8080.Manual
