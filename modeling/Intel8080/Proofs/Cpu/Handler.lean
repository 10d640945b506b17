import Intel8080.Proofs.Cpu.Delivery
import Intel8080.Proofs.Cpu.Steps

/-! An interrupt handler that saves all registers on the stack and restores them before it returns
goes unnoticed by the program that it interrupts, whatever it does in between. -/

namespace Intel8080.Cpu

variable {β : Type} {bus : Bus β} {cpu : Cpu} {b : β}

/-- A step at an instruction that is its opcode alone, given what its execution does. -/
theorem step_of_implied (cpu : Cpu) (op : Operation) {core : Core} {m : Memory} {b' : β}
    {fs : List Emission}
    (he : (execution cpu.config ⟨op, 0, cpu.core.advance op 0⟩).run bus cpu.memory b =
      ⟨.ok core, m, b', fs⟩)
    (hl : cpu.latch = none) (hh : cpu.core.halted = false)
    (hread : cpu.memory.read cpu.core.registers.pc = .ok op.code)
    (hop : op ≠ .mov .memory .memory) (hi : op.immediate = .none) :
    ∃ n es, cpu.step bus b = ⟨.ok n, ⟨core, m, none, cpu.config⟩, b', es⟩ := by
  have hdecode := Operation.decode_code op hop
  have hpermitted : Core.Permitted cpu.config op.code := .inl op.documented_code
  obtain ⟨es, hfetch⟩ := Core.fetch_run_of_implied bus b hpermitted (by rw [hdecode, hi]) hread
  rw [hdecode] at hfetch
  rw [step_eq_carryOut bus b hl hh, carryOut_granted hfetch he]
  exact ⟨_, _, rfl⟩

/-! ### Pushes -/

/-- The processor after a push of the pair. -/
def afterPush (cpu : Cpu) (p : StackPair) : Cpu :=
  { cpu with
    core :=
      { cpu.core with
        registers :=
          { cpu.core.registers with
            sp := cpu.core.registers.sp - 2
            pc := cpu.core.registers.pc + 1 } }
    memory := cpu.memory.pushed cpu.core.registers.sp (cpu.core.stackWord p) }

theorem stackWord_afterPush (p q : StackPair) :
    (cpu.afterPush p).core.stackWord q = cpu.core.stackWord q := by
  cases q <;> rfl

/-- Pushes of these pairs come next, which stay within memory and off their own code. -/
structure AtPushes (ps : List StackPair) (cpu : Cpu) : Prop where
  latch : cpu.latch = none
  halted : cpu.core.halted = false
  shadow : cpu.core.shadow = false
  code : cpu.memory.Holds cpu.core.registers.pc (ps.map fun p => (Operation.push p).code)
  length : 2 * ps.length < 65536
  room : ∀ a, Word.Below (2 * ps.length) cpu.core.registers.sp a → a.toNat < cpu.memory.size
  apart : ∀ k < ps.length,
    ¬ Word.Below (2 * ps.length) cpu.core.registers.sp (cpu.core.registers.pc + UInt16.ofNat k)

namespace AtPushes

variable {p : StackPair} {ps : List StackPair}

/-- The two bytes of the first push are among those of all of them. -/
theorem below_first {sp a : Word} (ha : Word.Below 2 sp a) :
    Word.Below (2 * (p :: ps).length) sp a := by
  refine ha.mono ?_
  rw [List.length_cons]
  omega

/-- So are the bytes of the others. -/
theorem below_rest (h : AtPushes (p :: ps) cpu) {a : Word}
    (ha : Word.Below (2 * ps.length) (cpu.core.registers.sp - 2) a) :
    Word.Below (2 * (p :: ps).length) cpu.core.registers.sp a :=
  ha.of_sub (k := 2) h.length

theorem step (h : AtPushes (p :: ps) cpu) (bus : Bus β) (b : β) :
    ∃ n es, cpu.step bus b = ⟨.ok n, cpu.afterPush p, b, es⟩ := by
  obtain ⟨hread, -⟩ := Memory.holds_cons.mp h.code
  have hafter : cpu.afterPush p =
      ⟨{ cpu.core.advance (.push p) 0 with
          registers :=
            { (cpu.core.advance (.push p) 0).registers with
              sp := (cpu.core.advance (.push p) 0).registers.sp - 2 } },
        cpu.memory.pushed cpu.core.registers.sp ((cpu.core.advance (.push p) 0).stackWord p), none,
        cpu.config⟩ := by
    have hword : (cpu.core.advance (.push p) 0).stackWord p = cpu.core.stackWord p := by
      cases p <;> rfl
    rw [hword, afterPush, h.latch]
    congr 1
    exact Core.ext rfl rfl rfl rfl h.shadow rfl rfl
  -- fetching a push moves the program counter only, as the shadow is gone already
  rw [hafter]
  exact step_of_implied cpu (.push p)
    (Core.pushWord_run (c := cpu.core.advance (.push p) 0) fun a ha => h.room a (below_first ha))
    h.latch h.halted hread nofun rfl

theorem afterPush (h : AtPushes (p :: ps) cpu) : AtPushes ps (cpu.afterPush p) := by
  obtain ⟨-, hcodes⟩ := Memory.holds_cons.mp h.code
  refine ⟨h.latch, h.halted, h.shadow, ?_, ?_, fun a ha => ?_, fun k hk ha => ?_⟩
  · refine hcodes.congr fun k hk => Memory.read_pushed _ fun ha => ?_
    rw [← Word.add_ofNat_succ] at ha
    exact h.apart (k + 1) (by simpa using hk) (below_first ha)
  · exact Nat.lt_of_le_of_lt (Nat.mul_le_mul_left 2 (Nat.le_succ _)) h.length
  · rw [Cpu.afterPush, Memory.size_pushed]
    exact h.room a (h.below_rest ha)
  · refine h.apart (k + 1) (Nat.succ_lt_succ hk) ?_
    rw [Word.add_ofNat_succ]
    exact h.below_rest ha

theorem steps (h : AtPushes ps cpu) (bus : Bus β) (b : β) :
    Cpu.steps bus ps.length cpu b = .ok (ps.foldl Cpu.afterPush cpu, b) := by
  induction ps generalizing cpu with
  | nil => rfl
  | cons p ps ih =>
    obtain ⟨n, es, hstep⟩ := h.step bus b
    rw [List.length_cons, steps_succ _ hstep]
    exact ih h.afterPush

/-- The pushed words lie on the stack, last one on top. -/
theorem holds (h : AtPushes ps cpu) {vs : List Byte}
    (hstack : cpu.memory.Holds cpu.core.registers.sp vs)
    (hlen : vs.length + 2 * ps.length ≤ 65536) :
    (ps.foldl Cpu.afterPush cpu).memory.Holds (ps.foldl Cpu.afterPush cpu).core.registers.sp
      (ps.reverse.flatMap (fun p => (cpu.core.stackWord p).bytes) ++ vs) := by
  induction ps generalizing cpu vs with
  | nil => exact hstack
  | cons p ps ih =>
    have hlen' : vs.length + 2 * (ps.length + 1) ≤ 65536 := hlen
    have hpushed : (cpu.afterPush p).memory.Holds (cpu.afterPush p).core.registers.sp
        ((cpu.core.stackWord p).bytes ++ vs) :=
      Memory.holds_pushed hstack _ (by omega) fun a ha => h.room a (below_first ha)
    have := ih h.afterPush hpushed (by rw [List.length_append, Word.length_bytes]; omega)
    simp only [stackWord_afterPush] at this
    simpa using this

end AtPushes

/-! ### Pops -/

/-- The core after a pop of the word into the pair. -/
def popped (p : StackPair) (w : Word) (c : Core) : Core :=
  Core.setStackWord p w
    { c with
      registers := { c.registers with sp := c.registers.sp + 2, pc := c.registers.pc + 1 }
      shadow := false }

theorem step_pop (bus : Bus β) (b : β) (p : StackPair) (w : Word) (hl : cpu.latch = none)
    (hh : cpu.core.halted = false)
    (hread : cpu.memory.read cpu.core.registers.pc = .ok (Operation.pop p).code)
    (hstack : cpu.memory.Holds cpu.core.registers.sp w.bytes) :
    ∃ n es, cpu.step bus b =
      ⟨.ok n, ⟨popped p w cpu.core, cpu.memory, none, cpu.config⟩, b, es⟩ :=
  step_of_implied cpu (.pop p) (Core.pop_run bus b p (c := cpu.core.advance (.pop p) 0) hstack)
    hl hh hread nofun rfl

/-- The pops of some pairs, one after the other, with their words on the stack. -/
theorem pops_steps (bus : Bus β) (b : β) (ps : List StackPair) (f : StackPair → Word)
    (hl : cpu.latch = none) (hh : cpu.core.halted = false)
    (hcode : cpu.memory.Holds cpu.core.registers.pc (ps.map fun p => (Operation.pop p).code))
    (hstack : cpu.memory.Holds cpu.core.registers.sp (ps.flatMap fun p => (f p).bytes)) :
    steps bus ps.length cpu b =
      .ok (⟨ps.foldl (fun c p => popped p (f p) c) cpu.core, cpu.memory, none, cpu.config⟩, b) := by
  induction ps generalizing cpu with
  | nil =>
    rw [← hl]
    rfl
  | cons p ps ih =>
    obtain ⟨hread, hrest⟩ := Memory.holds_cons.mp hcode
    obtain ⟨hword, hwords⟩ := Memory.holds_append.mp hstack
    obtain ⟨n, es, hstep⟩ := step_pop bus b p (f p) hl hh hread hword
    have hregisters : (popped p (f p) cpu.core).registers.pc = cpu.core.registers.pc + 1 ∧
        (popped p (f p) cpu.core).registers.sp = cpu.core.registers.sp + 2 ∧
        (popped p (f p) cpu.core).halted = false := by
      cases p <;> exact ⟨rfl, rfl, hh⟩
    obtain ⟨hpc, hsp, hhalted⟩ := hregisters
    rw [List.length_cons, steps_succ _ hstep]
    exact ih rfl hhalted (hpc ▸ hrest) (hsp ▸ hwords)

/-- An EI and a RET right behind it leave interrupts on, without a shadow. -/
theorem ei_ret_steps (bus : Bus β) (cpu : Cpu) (b : β) (target : Word) (hl : cpu.latch = none)
    (hh : cpu.core.halted = false)
    (hcode : cpu.memory.Holds cpu.core.registers.pc [0xFB, 0xC9])
    (hstack : cpu.memory.Holds cpu.core.registers.sp target.bytes) :
    steps bus 2 cpu b =
      .ok (⟨{ cpu.core with
          registers :=
            { cpu.core.registers with
              sp := cpu.core.registers.sp + 2
              pc := target }
          interruptsEnabled := true
          shadow := false }, cpu.memory, none, cpu.config⟩, b) := by
  simp only [Memory.holds_cons, Memory.holds_nil, and_true] at hcode
  obtain ⟨hei, hret⟩ := hcode
  let c := (cpu.core.advance .ei 0).enableInterrupts cpu.config.delayedEi
  let enabled : Cpu := ⟨c, cpu.memory, none, cpu.config⟩
  have hfirst : ∃ n es, cpu.step bus b = ⟨.ok n, enabled, b, es⟩ :=
    step_of_implied cpu .ei rfl hl hh hei (by decide) rfl
  obtain ⟨n, es, hfirst⟩ := hfirst
  obtain ⟨n', es', hsecond⟩ := step_of_implied enabled .ret
    (Core.ret_run bus b (c := c.advance .ret 0) hstack) rfl hh hret (by decide) rfl
  rw [steps_succ 1 hfirst, steps_succ 0 hsecond]
  rfl

/-! ### Handlers -/

/-- PUSH PSW, PUSH B, PUSH D and PUSH H. -/
def prologue : List Byte := [0xF5, 0xC5, 0xD5, 0xE5]

/-- POP H, POP D, POP B, POP PSW, EI and RET. -/
def epilogue : List Byte := [0xE1, 0xD1, 0xC1, 0xF1, 0xFB, 0xC9]

/-- The program can go on as if nothing had been in between. -/
structure Resumed (before after : Cpu) : Prop where
  registers : after.core.registers =
    { before.core.registers with wz := after.core.registers.wz }
  flags : after.core.flags = before.core.flags
  interruptsEnabled : after.core.interruptsEnabled = true
  halted : after.core.halted = false
  accepts : after.acceptsInterrupts = true

/-- All pairs, in the order in which a handler saves them. -/
def savedPairs : List StackPair := [.psw, .bc, .de, .hl]

theorem prologue_eq : prologue = savedPairs.map fun p => (Operation.push p).code := rfl

theorem epilogue_eq :
    epilogue = (savedPairs.reverse.map fun p => (Operation.pop p).code) ++ [0xFB, 0xC9] := rfl

/-- An epilogue restores what lies on the stack and returns. -/
theorem epilogue_steps {before : Cpu} (hl : cpu.latch = none) (hh : cpu.core.halted = false)
    (hcode : cpu.memory.Holds cpu.core.registers.pc epilogue)
    (hsp : cpu.core.registers.sp = before.core.registers.sp - 10)
    (hstack : cpu.memory.Holds cpu.core.registers.sp
      ((savedPairs.reverse.flatMap fun p => (before.core.stackWord p).bytes) ++
        before.core.registers.pc.bytes)) :
    ∃ after, steps bus 6 cpu b = .ok (after, b) ∧ Resumed before after := by
  rw [epilogue_eq] at hcode
  obtain ⟨hpops, htail⟩ := Memory.holds_append.mp hcode
  obtain ⟨hwords, hreturn⟩ := Memory.holds_append.mp hstack
  have hrestored := pops_steps bus b savedPairs.reverse before.core.stackWord hl hh hpops hwords
  generalize hc : savedPairs.reverse.foldl
    (fun c p => popped p (before.core.stackWord p) c) cpu.core = c at hrestored
  have hpc : c.registers.pc = cpu.core.registers.pc + 4 := by
    subst hc
    change cpu.core.registers.pc + 1 + 1 + 1 + 1 = _
    grind
  have hsp₁ : c.registers.sp = cpu.core.registers.sp + 8 := by
    subst hc
    change cpu.core.registers.sp + 2 + 2 + 2 + 2 = _
    grind
  have hh₁ : c.halted = false := by
    subst hc
    exact hh
  have hcode₁ : cpu.memory.Holds c.registers.pc [0xFB, 0xC9] := hpc ▸ htail
  have hstack₁ : cpu.memory.Holds c.registers.sp before.core.registers.pc.bytes := hsp₁ ▸ hreturn
  have hreturned := ei_ret_steps bus ⟨c, cpu.memory, none, cpu.config⟩ b before.core.registers.pc
    rfl hh₁ hcode₁ hstack₁
  refine ⟨_, (steps_add 2 hrestored).trans hreturned, ?_, ?_, rfl, hh₁, rfl⟩
  · have hsp₂ : c.registers.sp + 2 = before.core.registers.sp := by
      rw [hsp₁, hsp]
      grind
    refine Registers.ext ?_ ?_ ?_ ?_ ?_ ?_ ?_ hsp₂ rfl rfl <;>
      · subst hc
        simp [savedPairs, popped, Core.setStackWord, Core.stackWord, Core.setPair, Core.setResult,
          Registers.setPair, Registers.hl, Registers.de, Registers.bc]
  · subst hc
    simp [savedPairs, popped, Core.setStackWord, Core.stackWord, Core.setPair, Core.setResult]

theorem Restarted.stackWord {n : Fin 8} {r : Reply (Option Nat) β} (h : Restarted n cpu b r)
    (p : StackPair) : r.cpu.core.stackWord p = cpu.core.stackWord p := by
  rw [h.core]
  unfold reenable
  split <;> cases p <;> rfl

theorem Restarted.holds {n : Fin 8} {r : Reply (Option Nat) β} (h : Restarted n cpu b r) :
    r.cpu.memory.Holds r.cpu.core.registers.sp cpu.core.registers.pc.bytes := by
  have hnext : cpu.core.registers.sp - 2 + 1 = cpu.core.registers.sp - 1 := by grind
  rw [h.core, reenable_registers]
  exact Memory.holds_cons.mpr ⟨h.low, Memory.holds_cons.mpr ⟨hnext ▸ h.high, Memory.holds_nil⟩⟩

/-- An interrupt at a handler leaves its pushes next, with room for them. -/
theorem Restarted.atPushes {n : Fin 8} {r : Reply (Option Nat) β} (h : Restarted n cpu b r)
    (hs : cpu.core.shadow = false)
    (hroom : ∀ a, Word.Below 10 cpu.core.registers.sp a → a.toNat < cpu.memory.size)
    (hentry : cpu.memory.Holds (UInt16.ofNat (8 * n.val)) prologue)
    (hapart : ∀ k < prologue.length,
      ¬ Word.Below 10 cpu.core.registers.sp (UInt16.ofNat (8 * n.val) + UInt16.ofNat k)) :
    AtPushes savedPairs r.cpu := by
  have hsp : r.cpu.core.registers.sp = cpu.core.registers.sp - 2 := by
    rw [h.core, reenable_registers]
  have hpc : r.cpu.core.registers.pc = UInt16.ofNat (8 * n.val) := by
    rw [h.core, reenable_registers]
  have hbelow {a : Word} (ha : Word.Below 8 r.cpu.core.registers.sp a) :
      Word.Below 10 cpu.core.registers.sp a := by
    rw [hsp] at ha
    exact ha.of_sub (k := 2) (by decide)
  refine ⟨h.latch, ?_, ?_, ?_, by decide, fun a ha => ?_, fun k hk ha => ?_⟩
  · rw [h.core, reenable_halted]
  · rw [h.core, reenable_shadow]
    exact hs
  · rw [h.memory, hpc, ← prologue_eq]
    exact hentry.congr fun k hk => Memory.read_pushed _ fun ha =>
      hapart k hk (ha.mono (by decide))
  · rw [h.memory, Memory.size_pushed]
    exact hroom a (hbelow ha)
  · rw [hpc] at ha
    exact hapart k hk (hbelow ha)

/-- An interrupt whose handler saves and restores all pairs leaves no trace in the registers and
flags, whatever its body does without touching what it saved. -/
theorem handler_transparent (bus : Bus β) (n code : Byte) (cpu : Cpu) (b : β)
    (hcode : Signal.rst n = .interrupt code) (ha : cpu.acceptsInterrupts = true)
    (hroom : ∀ a, Word.Below 10 cpu.core.registers.sp a → a.toNat < cpu.memory.size)
    (hentry : cpu.memory.Holds (UInt16.ofNat (8 * n.last.val)) prologue)
    (hapart : ∀ k < prologue.length,
      ¬ Word.Below 10 cpu.core.registers.sp (UInt16.ofNat (8 * n.last.val) + UInt16.ofNat k)) :
    (cpu.interrupt bus code b).result = .ok (some 11) ∧ (cpu.interrupt bus code b).bus = b ∧
      ∃ saved, steps bus 4 (cpu.interrupt bus code b).cpu b = .ok (saved, b) ∧
        ∀ k u b', steps bus k saved b = .ok (u, b') →
          u.core.halted = false →
          u.core.registers.sp = saved.core.registers.sp →
          (∀ a, Word.Below 10 cpu.core.registers.sp a →
            u.memory.read a = saved.memory.read a) →
          u.memory.Holds u.core.registers.pc epilogue →
          ∃ after, steps bus 6 u b' = .ok (after, b') ∧ Resumed cpu after := by
  obtain rfl := Signal.interrupt.inj ((Signal.rst_eq n).symm.trans hcode)
  obtain ⟨-, hs, -⟩ := acceptsInterrupts_eq_true.mp ha
  have hreturn : ∀ a, Word.Below 2 cpu.core.registers.sp a → a.toNat < cpu.memory.size :=
    fun a ha => hroom a (ha.mono (by decide))
  have h := interrupt_rst bus n.last cpu b ha hreturn
  have hat := h.atPushes hs hroom hentry hapart
  generalize cpu.interrupt bus (Operation.rst n.last).code b = r at h hat ⊢
  refine ⟨h.result, h.bus, _, hat.steps bus b, fun k u b' hsteps hh hsp hkept hcode => ?_⟩
  have hstack := hat.holds h.holds (by rw [Word.length_bytes]; decide)
  have hlast : (savedPairs.foldl Cpu.afterPush r.cpu).core.registers.sp =
      cpu.core.registers.sp - UInt16.ofNat 10 := by
    change r.cpu.core.registers.sp - 2 - 2 - 2 - 2 = cpu.core.registers.sp - 10
    rw [h.core, reenable_registers]
    grind
  rw [hlast] at hsp hstack
  -- the body may have changed anything else, but what the pushes stored is still there to be popped
  have hl : (savedPairs.foldl Cpu.afterPush r.cpu).latch = none := h.latch
  refine epilogue_steps (steps_unlatched hl hsteps) hh hcode hsp ?_
  rw [hsp]
  refine Memory.Holds.congr ?_ fun k hk => hkept _ (Word.below_sub_add hk (by decide))
  simpa only [h.stackWord] using hstack

/-- A processor with a handler at its second vector, the body of which clears the accumulator. -/
def served : Cpu where
  core :=
    { registers := { a := 1, b := 2, c := 3, d := 4, e := 5, h := 6, l := 7, sp := 30, pc := 3 }
      flags := { carry := true } }
  memory :=
    ⟨#[0, 0, 0, 0, 0, 0, 0, 0, 0xF5, 0xC5, 0xD5, 0xE5, 0x3E, 0x00, 0xE1, 0xD1, 0xC1, 0xF1, 0xFB,
      0xC9, 0, 0, 0, 0, 0, 0, 0, 0, 0, 0], by decide, by decide⟩
  latch := none
  config := { memorySize := 30, delayedEi := true }

/-- The body clears the accumulator, and after the handler it is back. -/
theorem handler_transparent_served :
    (served.interrupt Bus.null 0xCF ()).result = .ok (some 11) ∧
      ∃ saved cleared after,
        steps Bus.null 4 (served.interrupt Bus.null 0xCF ()).cpu () = .ok (saved, ()) ∧
          steps Bus.null 1 saved () = .ok (cleared, ()) ∧ cleared.core.registers.a = 0 ∧
          steps Bus.null 6 cleared () = .ok (after, ()) ∧ Resumed served after := by
  have hroom : ∀ a, Word.Below 10 served.core.registers.sp a → a.toNat < served.memory.size := by
    rintro a ⟨hpos, hle⟩
    have := a.toNat_lt
    have hsp : served.core.registers.sp.toNat = 30 := rfl
    rw [UInt16.toNat_sub, hsp] at hpos hle
    change a.toNat < 30
    omega
  have hentry : served.memory.Holds 8 prologue := by
    simp only [prologue, Memory.holds_cons, Memory.holds_nil, and_true]
    exact ⟨rfl, rfl, rfl, rfl⟩
  have hapart : ∀ k < prologue.length,
      ¬ Word.Below 10 served.core.registers.sp (8 + UInt16.ofNat k) := by decide
  obtain ⟨hresult, -, saved, hsaved, hresumed⟩ :=
    handler_transparent Bus.null 1 0xCF served () rfl rfl hroom hentry hapart
  have hstored : steps Bus.null 4 (served.interrupt Bus.null 0xCF ()).cpu () = .ok (_, ()) := rfl
  rw [hstored] at hsaved
  obtain ⟨rfl, -⟩ := Prod.mk.inj (Except.ok.inj hsaved)
  obtain ⟨after, hafter, hback⟩ := hresumed 1 _ () rfl rfl rfl (fun _ _ => rfl) (by
    simp only [epilogue, Memory.holds_cons, Memory.holds_nil, and_true]
    exact ⟨rfl, rfl, rfl, rfl, rfl, rfl⟩)
  exact ⟨hresult, _, _, after, rfl, rfl, rfl, hafter, hback⟩

end Intel8080.Cpu
