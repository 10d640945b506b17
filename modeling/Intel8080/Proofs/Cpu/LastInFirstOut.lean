import Intel8080.Cpu
import Intel8080.Proofs.Cpu.Stack
import Mathlib.Data.FinEnum

/-! The stack is last-in first-out at any depth, with calls and restarts among the pushes and
returns among the pops. The words may wrap around, and they may fill the whole address space. -/

namespace Intel8080

/-- Unpacking a status byte and packing it again puts its unused bits right. -/
theorem Flags.status_ofStatus (v : Byte) : (ofStatus v).status = (v &&& 0xD7) ||| 0x02 := by
  revert v
  decide +kernel

namespace Word

variable {n k : Nat} {sp addr : Word}

/-- The address is one of `sp - 1` to `sp - n`, which for `n = 65536` are all addresses. -/
def Under (n : Nat) (sp addr : Word) : Prop := (sp - 1 - addr).toNat < n

theorem under_two : Under 2 sp addr ↔ Below 2 sp addr := by
  rw [below_two]
  have hone : sp - 1 - addr = 0 ↔ addr = sp - 1 := by grind
  have htwo : sp - 1 - addr = 1 ↔ addr = sp - 2 := by grind
  rw [← hone, ← htwo, ← UInt16.toNat_inj, ← UInt16.toNat_inj]
  change _ < 2 ↔ _ = 0 ∨ _ = 1
  omega

theorem Under.mono (h : Under n sp addr) (hk : n ≤ k) : Under k sp addr := Nat.lt_of_lt_of_le h hk

/-- What is right below a stack pointer that was lowered is also below it. -/
theorem Under.of_sub (h : Under n (sp - UInt16.ofNat k) addr) : Under (k + n) sp addr := by
  have := sp.toNat_lt
  have := addr.toNat_lt
  simp only [Under, UInt16.toNat_sub, UInt16.toNat_ofNat', UInt16.reduceToNat] at *
  omega

end Word

/-- A call that pushes a word. The stack pointer itself cannot be pushed. -/
inductive Pushing where
  | pair (p : Pair) (h : p ≠ .sp)
  | statusWord
  | call (target : Word)
  | restart (n : Byte)

/-- A call that pops a word. -/
inductive Popping where
  | pair (p : Pair) (h : p ≠ .sp)
  | statusWord
  | ret

namespace Pushing

def perform : Pushing → Cpu → Except Fault Unit × Cpu
  | pair p _ => Cpu.pushPair p
  | statusWord => Cpu.push .psw
  | call target => Cpu.call target
  | restart n => Cpu.restart n

/-- The byte that goes right below the stack pointer: the first register of a pair, the
accumulator, or half of the program counter. -/
def high (c : Core) : Pushing → Byte
  | pair .bc _ => c.registers.b
  | pair .de _ => c.registers.d
  | pair .hl _ => c.registers.h
  | pair .sp h => absurd rfl h
  | statusWord => c.registers.a
  | call _ | restart _ => Word.high c.registers.pc

/-- The byte below that one. -/
def low (c : Core) : Pushing → Byte
  | pair .bc _ => c.registers.c
  | pair .de _ => c.registers.e
  | pair .hl _ => c.registers.l
  | pair .sp h => absurd rfl h
  | statusWord => c.flags.status
  | call _ | restart _ => Word.low c.registers.pc

/-- What is pushed. -/
def word (c : Core) (p : Pushing) : Word := Word.ofBytes (p.high c) (p.low c)

/-- The push leaves the program behind, to be taken up again where it was. -/
def Leaves : Pushing → Prop
  | pair _ _ | statusWord => False
  | call _ | restart _ => True

/-- Where the program goes on. -/
def next (c : Core) : Pushing → Word
  | pair _ _ | statusWord => c.registers.pc
  | call target => target
  | restart n => UInt16.ofNat (8 * n.last.val)

/-- The processor after the push. -/
def after (cpu : Cpu) (p : Pushing) : Cpu :=
  { cpu with
    core :=
      { cpu.core with
        registers :=
          { cpu.core.registers with
            sp := cpu.core.registers.sp - 2
            pc := p.next cpu.core } }
    memory := cpu.memory.pushed cpu.core.registers.sp (p.word cpu.core) }

end Pushing

namespace Popping

def perform : Popping → Cpu → Except Fault Unit × Cpu
  | pair p _ => Cpu.popPair p
  | statusWord => Cpu.pop .psw
  | ret => Cpu.ret

/-- The core after a pop of the two bytes. -/
def receive (high low : Byte) (c : Core) (q : Popping) : Core :=
  let sp := c.registers.sp + 2
  match q with
  | pair .bc _ => { c with registers := { c.registers with b := high, c := low, sp } }
  | pair .de _ => { c with registers := { c.registers with d := high, e := low, sp } }
  | pair .hl _ => { c with registers := { c.registers with h := high, l := low, sp } }
  | pair .sp h => absurd rfl h
  | statusWord =>
    let bit i := low.toNat.testBit i
    { c with
      registers := { c.registers with a := high, sp }
      flags :=
        { sign := bit 7, zero := bit 6, auxiliary := bit 4, parity := bit 2, carry := bit 0 } }
  | ret => { c with registers := { c.registers with pc := Word.ofBytes high low, sp } }

@[simp] theorem sp_receive (high low : Byte) (c : Core) (q : Popping) :
    (q.receive high low c).registers.sp = c.registers.sp + 2 := by
  cases q with
  | pair p h => cases p with
    | sp => exact absurd rfl h
    | _ => rfl
  | _ => rfl

end Popping

namespace Cpu

variable {cpu cpu' mid : Cpu} {w : Word}

theorem manipulate_of_run {act : Core → Cycles Core} {c : Core} {m : Memory}
    (h : (act cpu.core).run Bus.null cpu.memory () = ⟨.ok c, m, (), []⟩) :
    cpu.manipulate act = (.ok (), { cpu with core := c, memory := m }) := by
  simp only [manipulate, Cycles.perform, h]

/-- The stack can grow by that many bytes without leaving memory. -/
def Room (n : Nat) (cpu : Cpu) : Prop :=
  ∀ addr, Word.Under n cpu.core.registers.sp addr → addr.toNat < cpu.memory.size

theorem push_perform (p : Pushing) (h : cpu.Room 2) :
    p.perform cpu = (.ok (), p.after cpu) := by
  have hroom : ∀ a, Word.Below 2 cpu.core.registers.sp a → a.toNat < cpu.memory.size :=
    fun a ha => h a (Word.under_two.mpr ha)
  cases p with
  | pair p hp => cases p with
    | sp => exact absurd rfl hp
    | _ => exact manipulate_of_run (Core.pushWord_run hroom)
  | statusWord => exact manipulate_of_run (Core.pushWord_run hroom)
  | call target =>
    rw [Pushing.after, Pushing.word, Pushing.high, Pushing.low, Word.ofBytes_high_low]
    exact manipulate_of_run (Core.call_run _ target _ hroom)
  | restart n =>
    rw [Pushing.after, Pushing.word, Pushing.high, Pushing.low, Word.ofBytes_high_low]
    refine manipulate_of_run ?_
    rw [Core.restart_eq_call]
    exact Core.call_run _ _ _ hroom

theorem pop_perform (q : Popping) (h : cpu.memory.Holds cpu.core.registers.sp w.bytes) :
    q.perform cpu =
      (.ok (), { cpu with core := q.receive (Word.high w) (Word.low w) cpu.core }) := by
  cases q with
  | pair p hp => cases p with
    | bc => exact manipulate_of_run (Core.pop_run _ _ .bc h)
    | de => exact manipulate_of_run (Core.pop_run _ _ .de h)
    | hl => exact manipulate_of_run (Core.pop_run _ _ .hl h)
    | sp => exact absurd rfl hp
  | statusWord => exact manipulate_of_run (Core.pop_run _ _ .psw h)
  | ret =>
    simp only [Popping.receive, Word.ofBytes_high_low]
    exact manipulate_of_run (Core.ret_run _ _ h)

/-- Calls one after the other, up to the first one that is refused. -/
def inTurn {ι : Type} (perform : ι → Cpu → Except Fault Unit × Cpu) :
    List ι → Cpu → Except Fault Unit × Cpu
  | [], cpu => (.ok (), cpu)
  | x :: xs, cpu =>
    match perform x cpu with
    | (.ok (), cpu) => inTurn perform xs cpu
    | (.error fault, cpu) => (.error fault, cpu)

theorem inTurn_append {ι : Type} {perform : ι → Cpu → Except Fault Unit × Cpu} {xs : List ι}
    (h : inTurn perform xs cpu = (.ok (), mid)) (ys : List ι) :
    inTurn perform (xs ++ ys) cpu = inTurn perform ys mid := by
  induction xs generalizing cpu with
  | nil =>
    cases h
    rfl
  | cons x xs ih =>
    simp only [inTurn, List.cons_append] at h ⊢
    split at h
    · exact ih h
    · cases h

/-! ### Many pushes -/

/-- The pushes succeed and leave the words above what was on the stack before, the last of them
on top. -/
structure Stacked (ps : List Pushing) (ws : List Word) (cpu cpu' : Cpu) : Prop where
  run : inTurn Pushing.perform ps cpu = (.ok (), cpu')
  length : ws.length = ps.length
  sp : cpu'.core.registers.sp = cpu.core.registers.sp - UInt16.ofNat (2 * ps.length)
  size : cpu'.memory.size = cpu.memory.size
  kept : ∀ addr, ¬ Word.Under (2 * ps.length) cpu.core.registers.sp addr →
    cpu'.memory.read addr = cpu.memory.read addr
  holds : ∀ vs, cpu.memory.Holds cpu.core.registers.sp vs →
    vs.length + 2 * ps.length ≤ 65536 →
    cpu'.memory.Holds cpu'.core.registers.sp (ws.flatMap Word.bytes ++ vs)

theorem length_flatMap_bytes (ws : List Word) :
    (ws.flatMap Word.bytes).length = 2 * ws.length := by
  induction ws with
  | nil => rfl
  | cons w ws ih =>
    rw [List.flatMap_cons, List.length_append, Word.length_bytes, List.length_cons, ih]
    omega

namespace Stacked

variable {ps ps' : List Pushing} {ws ws' : List Word}

theorem nil (cpu : Cpu) : Stacked [] [] cpu cpu :=
  ⟨rfl, rfl, (UInt16.sub_zero _).symm, rfl, fun _ _ => rfl, fun _ h _ => h⟩

theorem single (p : Pushing) (h : cpu.Room 2) :
    Stacked [p] [p.word cpu.core] cpu (p.after cpu) where
  run := by simp only [inTurn, push_perform p h]
  length := rfl
  sp := rfl
  size := Memory.size_pushed _ _ _
  kept _ ha := Memory.read_pushed _ fun hb => ha (Word.under_two.mpr hb)
  holds vs hvs hlen := by
    rw [List.flatMap_singleton]
    exact Memory.holds_pushed hvs _ hlen fun a ha => h a (Word.under_two.mpr ha)

theorem append (h : Stacked ps ws cpu mid) (h' : Stacked ps' ws' mid cpu') :
    Stacked (ps ++ ps') (ws' ++ ws) cpu cpu' where
  run := by rw [inTurn_append h.run, h'.run]
  length := by rw [List.length_append, List.length_append, h.length, h'.length, Nat.add_comm]
  sp := by
    rw [h'.sp, h.sp, List.length_append, Nat.mul_add, UInt16.ofNat_add]
    grind
  size := h'.size.trans h.size
  kept addr ha := by
    rw [List.length_append, Nat.mul_add] at ha
    rw [h'.kept addr fun hb => ha (h.sp ▸ hb).of_sub, h.kept addr fun hb => ha (hb.mono (by omega))]
  holds vs hvs hlen := by
    rw [List.length_append] at hlen
    have hmid := h.holds vs hvs (by omega)
    have hlen' : (ws.flatMap Word.bytes ++ vs).length + 2 * ps'.length ≤ 65536 := by
      rw [List.length_append, length_flatMap_bytes, h.length]
      omega
    rw [List.flatMap_append, List.append_assoc]
    exact h'.holds _ hmid hlen'

/-- There is room for the rest of the pushes behind some of them. -/
theorem room {n : Nat} (h : Stacked ps ws cpu cpu') (hroom : cpu.Room (2 * ps.length + n)) :
    cpu'.Room n := by
  intro addr ha
  rw [h.sp] at ha
  rw [h.size]
  exact hroom addr ha.of_sub

end Stacked

theorem Room.mono {n k : Nat} (h : cpu.Room k) (hn : n ≤ k) : cpu.Room n :=
  fun addr ha => h addr (ha.mono hn)

theorem exists_stacked {ps : List Pushing} (h : cpu.Room (2 * ps.length)) :
    ∃ ws cpu', Stacked ps ws cpu cpu' := by
  induction ps generalizing cpu with
  | nil => exact ⟨[], cpu, .nil cpu⟩
  | cons p ps ih =>
    rw [List.length_cons, Nat.mul_succ, Nat.add_comm] at h
    have hfirst := Stacked.single p (h.mono (Nat.le_add_right _ _))
    obtain ⟨ws, cpu', hrest⟩ := ih (hfirst.room h)
    exact ⟨_, cpu', hfirst.append hrest⟩

/-! ### Many pops -/

/-- The pops succeed and find the words on top of the stack, with the rest of it below them. -/
structure Unstacked (qs : List Popping) (vs : List Byte) (cpu cpu' : Cpu) : Prop where
  run : inTurn Popping.perform qs cpu = (.ok (), cpu')
  sp : cpu'.core.registers.sp = cpu.core.registers.sp + UInt16.ofNat (2 * qs.length)
  memory : cpu'.memory = cpu.memory
  holds : cpu'.memory.Holds cpu'.core.registers.sp vs

theorem exists_unstacked {qs : List Popping} {ws : List Word} {vs : List Byte}
    (hlen : qs.length = ws.length)
    (h : cpu.memory.Holds cpu.core.registers.sp (ws.flatMap Word.bytes ++ vs)) :
    ∃ cpu', Unstacked qs vs cpu cpu' := by
  induction qs generalizing cpu ws with
  | nil =>
    obtain rfl := List.length_eq_zero_iff.mp hlen.symm
    exact ⟨cpu, rfl, (UInt16.add_zero _).symm, rfl, h⟩
  | cons q qs ih =>
    cases ws with
    | nil => cases hlen
    | cons w ws =>
      rw [List.flatMap_cons, List.append_assoc, Memory.holds_append] at h
      obtain ⟨hword, hwords⟩ := h
      let next : Cpu := { cpu with core := q.receive (Word.high w) (Word.low w) cpu.core }
      have hsp : next.core.registers.sp = cpu.core.registers.sp + 2 := Popping.sp_receive _ _ _ _
      have hnext : next.memory.Holds next.core.registers.sp (ws.flatMap Word.bytes ++ vs) :=
        hsp ▸ hwords
      obtain ⟨cpu', hrest⟩ := ih (Nat.succ.inj hlen) hnext
      refine ⟨cpu', ?_, ?_, hrest.memory, hrest.holds⟩
      · rw [inTurn, pop_perform q hword]
        exact hrest.run
      · rw [hrest.sp, hsp, List.length_cons, Nat.mul_succ, UInt16.ofNat_add]
        grind

/-! ### Last in, first out -/

/-- A pop in the processor `top` takes back what a push in the processor `before` stored. -/
structure Retrieves (p : Pushing) (q : Popping) (before top : Cpu) : Prop where
  received : q.perform top =
    (.ok (), { top with core := q.receive (p.high before.core) (p.low before.core) top.core })
  resumed : p.Leaves → q = .ret →
    (q.perform top).2.core.registers.pc = before.core.registers.pc
  restored : p = .statusWord → q = .statusWord →
    (q.perform top).2.core.registers.a = before.core.registers.a ∧
      (q.perform top).2.core.flags = before.core.flags

theorem Retrieves.of_holds {p : Pushing} {q : Popping} {before top : Cpu}
    (h : top.memory.Holds top.core.registers.sp (p.word before.core).bytes) :
    Retrieves p q before top := by
  have hpop := pop_perform q h
  rw [Pushing.word, Word.high_ofBytes, Word.low_ofBytes] at hpop
  refine ⟨hpop, fun hp hq => ?_, fun hp hq => ?_⟩
  · subst hq
    rw [hpop]
    cases p with
    | pair | statusWord => cases hp
    | call | restart => exact Word.ofBytes_high_low _
  · subst hp hq
    rw [hpop]
    exact ⟨rfl, Flags.ofStatus_status _⟩

/-- What is pushed after the word of a push is popped before it. -/
theorem exists_retrieves {ps₁ ps₂ : List Pushing} {p : Pushing} {qs₁ : List Popping}
    (hlen : 2 * (ps₁ ++ p :: ps₂).length ≤ 65536) (hroom : cpu.Room (2 * (ps₁ ++ p :: ps₂).length))
    (hrun : inTurn Pushing.perform (ps₁ ++ p :: ps₂) cpu = (.ok (), cpu'))
    (hqs : qs₁.length = ps₂.length) (q : Popping) :
    ∃ before top, inTurn Pushing.perform ps₁ cpu = (.ok (), before) ∧
      inTurn Popping.perform qs₁ cpu' = (.ok (), top) ∧ Retrieves p q before top := by
  simp only [List.length_append, List.length_cons] at hlen hroom
  have hroom₁ : cpu.Room (2 * ps₁.length) := hroom.mono (by omega)
  obtain ⟨ws₁, before, h₁⟩ := exists_stacked hroom₁
  have hp := Stacked.single p (h₁.room (hroom.mono (by omega)))
  have hroom₂ : (p.after before).Room (2 * ps₂.length) :=
    hp.room (h₁.room (hroom.mono (by simp only [List.length_singleton]; omega)))
  obtain ⟨ws₂, last, h₂⟩ := exists_stacked hroom₂
  have hall := (h₁.append hp).append h₂
  rw [List.append_assoc, List.singleton_append] at hall
  -- both runs push the same, so they end in the same processor
  obtain rfl : cpu' = last := by
    have hruns := hrun.symm.trans hall.run
    exact (Prod.mk.inj hruns).2
  have hstack := hall.holds [] Memory.holds_nil (by simpa using hlen)
  rw [List.append_nil, List.flatMap_append] at hstack
  obtain ⟨top, htop⟩ := exists_unstacked (hqs.trans h₂.length.symm) hstack
  refine ⟨before, top, h₁.run, htop.run, Retrieves.of_holds ?_⟩
  exact (Memory.holds_append.mp htop.holds).1

/-- A word that is pushed where one was popped takes its place. -/
theorem read_pushed_replaced {m : Memory} {sp w : Word} (h : m.Holds sp w.bytes) (w' addr : Word) :
    (m.pushed (sp + 2) w').read addr =
      if addr = sp then .ok (Word.low w')
      else if addr = sp + 1 then .ok (Word.high w') else m.read addr := by
  rw [Word.bytes, Memory.holds_cons, Memory.holds_cons] at h
  obtain ⟨hlow, hhigh, -⟩ := h
  have hone : sp + 2 - 1 = sp + 1 := by grind
  have htwo : sp + 2 - 2 = sp := by grind
  have hne : sp ≠ sp + 1 := by grind
  rw [Memory.pushed, hone, htwo, Memory.read_write, Memory.read_write, Memory.read_write,
    if_neg hne, hlow, hhigh]
  rfl

/-- There is room for a word where one was popped. -/
theorem room_of_holds {c : Core} (h : cpu.memory.Holds cpu.core.registers.sp w.bytes)
    (hc : c.registers.sp = cpu.core.registers.sp + 2) : Room 2 { cpu with core := c } := by
  intro addr ha
  rw [Word.bytes, Memory.holds_cons, Memory.holds_cons] at h
  obtain ⟨hlow, hhigh, -⟩ := h
  have hread : ∃ v, cpu.memory.read addr = .ok v := by
    rcases Word.below_two.mp (Word.under_two.mp ha) with rfl | rfl
    · have hone : c.registers.sp - 1 = cpu.core.registers.sp + 1 := by grind
      exact ⟨_, hone ▸ hhigh⟩
    · have htwo : c.registers.sp - 2 = cpu.core.registers.sp := by grind
      exact ⟨_, htwo ▸ hlow⟩
  obtain ⟨v, hv⟩ := hread
  exact Nat.lt_of_not_le fun hle => by cases hv ▸ cpu.memory.read_eq_error hle

/-- A status word that is popped and pushed again has its unused bits put right. -/
theorem pop_push_statusWord (h : cpu.memory.Holds cpu.core.registers.sp w.bytes) :
    ∃ popped pushed, cpu.pop .psw = (.ok (), popped) ∧ popped.push .psw = (.ok (), pushed) ∧
      pushed.core.registers.sp = cpu.core.registers.sp ∧
      ∀ addr, pushed.memory.read addr =
        if addr = cpu.core.registers.sp then .ok ((Word.low w &&& 0xD7) ||| 0x02)
        else cpu.memory.read addr := by
  let popped : Cpu :=
    { cpu with core := Popping.statusWord.receive (Word.high w) (Word.low w) cpu.core }
  have hword : Pushing.statusWord.word popped.core =
      Word.ofBytes (Word.high w) ((Word.low w &&& 0xD7) ||| 0x02) := by
    rw [← Flags.status_ofStatus]
    rfl
  refine ⟨popped, _, pop_perform .statusWord h, push_perform .statusWord (room_of_holds h rfl),
    UInt16.add_sub_cancel _ _, fun addr => ?_⟩
  refine (read_pushed_replaced h _ addr).trans ?_
  rw [hword, Word.low_ofBytes, Word.high_ofBytes]
  split
  · rfl
  · split
    · next hone =>
      rw [Word.bytes, Memory.holds_cons, Memory.holds_cons] at h
      rw [hone, h.2.1]
    · rfl

/-- The stack is last-in first-out, and it restores what was pushed. -/
theorem last_in_first_out (cpu : Cpu) :
    (∀ ps : List Pushing, 2 * ps.length ≤ 65536 → cpu.Room (2 * ps.length) →
      ∃ pushed, inTurn Pushing.perform ps cpu = (.ok (), pushed) ∧
        pushed.core.registers.sp = cpu.core.registers.sp - UInt16.ofNat (2 * ps.length) ∧
        (∀ addr, ¬ Word.Under (2 * ps.length) cpu.core.registers.sp addr →
          pushed.memory.read addr = cpu.memory.read addr) ∧
        ∀ qs : List Popping, qs.length = ps.length →
          ∃ popped, inTurn Popping.perform qs pushed = (.ok (), popped) ∧
            popped.memory = pushed.memory ∧
            popped.core.registers.sp = cpu.core.registers.sp ∧
            ∀ ps₁ p ps₂ qs₁ q qs₂, ps = ps₁ ++ p :: ps₂ → qs = qs₁ ++ q :: qs₂ →
              qs₁.length = ps₂.length →
              ∃ before top, inTurn Pushing.perform ps₁ cpu = (.ok (), before) ∧
                inTurn Popping.perform qs₁ pushed = (.ok (), top) ∧ Retrieves p q before top) ∧
      ∀ w, cpu.memory.Holds cpu.core.registers.sp (Word.bytes w) →
        ∃ popped pushed, cpu.pop .psw = (.ok (), popped) ∧ popped.push .psw = (.ok (), pushed) ∧
          pushed.core.registers.sp = cpu.core.registers.sp ∧
          ∀ addr, pushed.memory.read addr =
            if addr = cpu.core.registers.sp then .ok ((Word.low w &&& 0xD7) ||| 0x02)
            else cpu.memory.read addr := by
  refine ⟨fun ps hlen hroom => ?_, fun w => pop_push_statusWord⟩
  obtain ⟨ws, pushed, hpushed⟩ := exists_stacked hroom
  refine ⟨pushed, hpushed.run, hpushed.sp, hpushed.kept, fun qs hqs => ?_⟩
  have hstack := hpushed.holds [] Memory.holds_nil (by simpa using hlen)
  obtain ⟨popped, hpopped⟩ := exists_unstacked (hqs.trans hpushed.length.symm) hstack
  refine ⟨popped, hpopped.run, hpopped.memory, ?_, ?_⟩
  · rw [hpopped.sp, hpushed.sp, hqs, UInt16.sub_add_cancel]
  · rintro ps₁ p ps₂ qs₁ q qs₂ rfl - hqs₁
    exact exists_retrieves hlen hroom hpushed.run hqs₁ q

/-- A full image of one byte throughout, with the stack about to wrap around. -/
def wrapping : Cpu :=
  { (default : Cpu) with
    core := { registers := { a := 0x5A, b := 0x12, c := 0x34, sp := 1, pc := 0x0200 } }
    memory := ⟨Array.replicate maxMemorySize 0xFF, by simp [maxMemorySize], by simp⟩ }

/-- BC, a status word and a return address are pushed across the end of memory, and come back as
PC, status word and DE, which holds what BC held. -/
theorem last_in_first_out_wrapping :
    (∃ pushed popped top,
      inTurn Pushing.perform [.pair .bc (by decide), .statusWord, .call 0x1000] wrapping =
        (.ok (), pushed) ∧
      inTurn Popping.perform [.ret, .statusWord, .pair .de (by decide)] pushed =
        (.ok (), popped) ∧
      pushed.core.registers.sp = 0xFFFB ∧ popped.core.registers.sp = 1 ∧
      inTurn Popping.perform [.ret, .statusWord] pushed = (.ok (), top) ∧
      Retrieves (.pair .bc (by decide)) (.pair .de (by decide)) wrapping top ∧
      (top.popPair .de).2.core.registers.d = 0x12 ∧ (top.popPair .de).2.core.registers.e = 0x34) ∧
    ∃ popped pushed, wrapping.pop .psw = (.ok (), popped) ∧ popped.push .psw = (.ok (), pushed) ∧
      pushed.memory.read 1 = .ok 0xD7 ∧ pushed.memory.read 2 = .ok 0xFF := by
  have hsize : wrapping.memory.size = 65536 := Array.size_replicate
  have hinside : ∀ addr : Word, addr.toNat < wrapping.memory.size :=
    fun addr => hsize ▸ addr.toNat_lt
  have hread : ∀ addr, wrapping.memory.read addr = .ok 0xFF := fun addr =>
    (Memory.read_eq_ok _ (hinside addr)).trans (congrArg _ (Array.getElem_replicate _))
  obtain ⟨hstack, hstatus⟩ := last_in_first_out wrapping
  refine ⟨?_, ?_⟩
  · obtain ⟨pushed, hrun, hsp, -, hpops⟩ :=
      hstack [.pair .bc (by decide), .statusWord, .call 0x1000] (by decide)
        fun addr _ => hinside addr
    obtain ⟨popped, hrun', -, hsp', hmatched⟩ :=
      hpops [.ret, .statusWord, .pair .de (by decide)] rfl
    obtain ⟨before, top, hbefore, htop, hretrieves⟩ :=
      hmatched [] _ _ [.ret, .statusWord] _ [] rfl rfl rfl
    cases hbefore
    have hde : top.popPair .de = _ := hretrieves.received
    refine ⟨pushed, popped, top, hrun, hrun', hsp, hsp', htop, hretrieves, ?_, ?_⟩ <;>
      · rw [hde]
        rfl
  · have hword : wrapping.memory.Holds wrapping.core.registers.sp (Word.bytes 0xFFFF) :=
      Memory.holds_cons.mpr ⟨hread _, Memory.holds_cons.mpr ⟨hread _, Memory.holds_nil⟩⟩
    obtain ⟨popped, pushed, hpop, hpush, -, hmemory⟩ := hstatus 0xFFFF hword
    refine ⟨popped, pushed, hpop, hpush, ?_, ?_⟩
    · rw [hmemory, if_pos (by decide)]
      rfl
    · rw [hmemory, if_neg (by decide), hread]

end Cpu

end Intel8080
