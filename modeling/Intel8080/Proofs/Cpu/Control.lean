import Intel8080.Proofs.Cpu.CarryOut
import Intel8080.Proofs.Cycles.Postcondition

/-! The control state: the interrupt enable, the shadow of an EI and the halt. Three operations
write it and all others leave it alone, so what a step or an interrupt does to it depends on the
operation alone, whatever memory and ports answer. The bus latches are like that too: the two
operations that use a port write them and all others leave them alone. -/

namespace Intel8080

namespace Core

/-- The cores differ in registers and flags at most. -/
def SameRest (c c' : Core) : Prop := c' = { c with registers := c'.registers, flags := c'.flags }

/-- The bus latches are the same. -/
structure SameBuses (c c' : Core) : Prop where
  addressBus : c'.addressBus = c.addressBus
  dataBus : c'.dataBus = c.dataBus

/-- The control state is the same. -/
structure SameControl (c c' : Core) : Prop where
  interruptsEnabled : c'.interruptsEnabled = c.interruptsEnabled
  shadow : c'.shadow = c.shadow
  halted : c'.halted = c.halted

/-- The control state is what executing the operation makes of it. -/
structure Controlled (delayedEi : Bool) (op : Operation) (c c' : Core) : Prop where
  interruptsEnabled : c'.interruptsEnabled =
    if op = .ei then true else if op = .di then false else c.interruptsEnabled
  shadow : c'.shadow = if op = .ei then delayedEi else if op = .di then false else c.shadow
  halted : c'.halted = if op = .hlt then true else c.halted

namespace SameControl

theorem refl (c : Core) : SameControl c c := ⟨rfl, rfl, rfl⟩

theorem controlled {c c' : Core} (h : SameControl c c') {op : Operation} (hei : op ≠ .ei)
    (hdi : op ≠ .di) (hhlt : op ≠ .hlt) (d : Bool) : Controlled d op c c' where
  interruptsEnabled := by rw [if_neg hei, if_neg hdi, h.interruptsEnabled]
  shadow := by rw [if_neg hei, if_neg hdi, h.shadow]
  halted := by rw [if_neg hhlt, h.halted]

end SameControl

namespace SameRest

variable {c c' : Core}

theorem control (h : SameRest c c') : SameControl c c' := by
  rw [SameRest] at h
  constructor <;> rw [h]

theorem buses (h : SameRest c c') : SameBuses c c' := by
  rw [SameRest] at h
  constructor <;> rw [h]

end SameRest

variable (c : Core)

theorem load_silent (o : Operand) : (c.load o).Silent fun _ => True := by
  cases o with
  | reg r => trivial
  | memory => exact fun _ => trivial

theorem store_silent (o : Operand) (v : Byte) : (c.store o v).Silent (SameRest c) := by
  cases o with
  | reg r => exact rfl
  | memory =>
    simp only [store, Cycles.silent_bind, Cycles.silent_writeByte, Cycles.silent_pure]
    exact rfl

theorem modify_silent (f : Byte → Flags → Byte × Flags) (o : Operand) :
    (c.modify f o).Silent (SameRest c) := by
  simp only [modify, Cycles.silent_bind, Cycles.silent_pure]
  refine (c.load_silent o).mono fun v _ => (c.store_silent o _).mono fun c' h => ?_
  rw [SameRest] at h ⊢
  rw [h]

theorem pushWord_silent (w : Word) : (c.pushWord w).Silent (SameRest c) := by
  simp only [pushWord, Cycles.silent_bind, Cycles.silent_writeByte, Cycles.silent_pure]
  exact rfl

theorem popWord_silent : c.popWord.Silent fun x => SameRest c x.2 := by
  simp only [popWord, Cycles.silent_bind, Cycles.silent_readWord, Cycles.silent_pure]
  exact fun _ _ => rfl

theorem call_silent (target : Word) : (c.call target).Silent (SameRest c) := by
  simp only [call, Cycles.silent_bind, Cycles.silent_pure]
  refine (c.pushWord_silent _).mono fun c' h => ?_
  rw [SameRest] at h ⊢
  rw [h]
  rfl

theorem ret_silent : c.ret.Silent (SameRest c) := by
  simp only [ret, Cycles.silent_bind, Cycles.silent_pure]
  refine c.popWord_silent.mono fun x h => ?_
  rw [SameRest] at h ⊢
  rw [h]
  rfl

theorem push_silent (p : StackPair) : (c.push p).Silent (SameRest c) := c.pushWord_silent _

theorem pop_silent (p : StackPair) : (c.pop p).Silent (SameRest c) := by
  simp only [pop, Cycles.silent_bind, Cycles.silent_pure]
  refine c.popWord_silent.mono fun x h => ?_
  rw [SameRest] at h ⊢
  rw [h]
  cases p <;> rfl

theorem exchangeTop_silent : c.exchangeTop.Silent (SameRest c) := by
  simp only [exchangeTop, Cycles.silent_bind, Cycles.silent_readWord, Cycles.silent_writeWord,
    Cycles.silent_pure]
  exact fun _ _ => rfl

/-- Operations that neither write the control state nor use a port change registers, flags and
memory only. -/
theorem execute_silent (d : Bool) {op : Operation} (v : Word) (hei : op ≠ .ei) (hdi : op ≠ .di)
    (hhlt : op ≠ .hlt) (hin : op ≠ .input) (hout : op ≠ .output) :
    (c.execute d op v).Silent (SameRest c) := by
  simp only [execute]
  cases op with
  | ei => exact absurd rfl hei
  | di => exact absurd rfl hdi
  | hlt => exact absurd rfl hhlt
  | input => exact absurd rfl hin
  | output => exact absurd rfl hout
  | mov dst src =>
    rw [Cycles.silent_bind]
    exact (c.load_silent src).mono fun v _ => c.store_silent dst v
  | alu op src =>
    simp only [Cycles.silent_bind, Cycles.silent_pure]
    exact (c.load_silent src).mono fun v _ => rfl
  | mvi dst => exact c.store_silent dst _
  | inr dst | dcr dst => exact c.modify_silent _ dst
  | lda | ldax pointer =>
    simp only [Cycles.silent_bind, Cycles.silent_readByte, Cycles.silent_pure]
    exact fun _ => rfl
  | lhld =>
    simp only [Cycles.silent_bind, Cycles.silent_readWord, Cycles.silent_pure]
    exact fun _ _ => rfl
  | sta | stax pointer | shld =>
    simp only [Cycles.silent_bind, Cycles.silent_writeByte, Cycles.silent_writeWord,
      Cycles.silent_pure]
    exact rfl
  | jcc condition =>
    dsimp only
    split <;> exact rfl
  | call => exact c.call_silent v
  | ccc condition =>
    dsimp only
    split
    · exact c.call_silent v
    · exact rfl
  | ret => exact c.ret_silent
  | rcc condition =>
    dsimp only
    split
    · exact c.ret_silent
    · exact rfl
  | rst vector => exact c.call_silent _
  | push pair => exact c.push_silent pair
  | pop pair => exact c.pop_silent pair
  | xthl => exact c.exchangeTop_silent
  | _ => exact rfl

/-- What EI, DI and HLT write, and that no other operation does. -/
theorem execute_controlled (d : Bool) (op : Operation) (v : Word) :
    (c.execute d op v).Ensures (Controlled d op c) := by
  by_cases hei : op = .ei
  · subst hei
    exact ⟨rfl, rfl, rfl⟩
  by_cases hdi : op = .di
  · subst hdi
    exact ⟨rfl, rfl, rfl⟩
  by_cases hhlt : op = .hlt
  · subst hhlt
    exact ⟨rfl, rfl, rfl⟩
  by_cases hin : op = .input
  · subst hin
    exact fun _ => ⟨rfl, rfl, rfl⟩
  by_cases hout : op = .output
  · subst hout
    exact ⟨rfl, rfl, rfl⟩
  · exact (c.execute_silent d v hei hdi hhlt hin hout).ensures.mono fun _ h =>
      h.control.controlled hei hdi hhlt d

/-- Only IN and OUT use a port, and only they write the bus latches. -/
theorem execute_portless (d : Bool) {op : Operation} (v : Word) (hin : op ≠ .input)
    (hout : op ≠ .output) : (c.execute d op v).Silent (SameBuses c) := by
  by_cases hei : op = .ei
  · subst hei
    exact ⟨rfl, rfl⟩
  by_cases hdi : op = .di
  · subst hdi
    exact ⟨rfl, rfl⟩
  by_cases hhlt : op = .hlt
  · subst hhlt
    exact ⟨rfl, rfl⟩
  · exact (c.execute_silent d v hei hdi hhlt hin hout).mono fun _ h => h.buses

end Core

end Intel8080
