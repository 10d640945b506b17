import Intel8080.Proofs.Cpu.Recording
import Intel8080.Proofs.Cycles.Locality

/-! A larger memory image changes nothing for a program that fits the smaller one. As long as no
call runs out of the smaller image, the processor with the larger one gives the same answers, uses
the ports alike, and leaves every byte beyond the smaller image as it was. The larger image may
fill the address space, where addresses wrap around instead of running out. -/

namespace Intel8080

variable {α β : Type}

/-- The first image has `n` bytes. The second begins with the same bytes and goes on as `large`. -/
structure Memory.Grown (n : Nat) (large m m' : Memory) : Prop where
  size : m.size = n
  size_le : n ≤ large.size
  size' : m'.size = large.size
  bytes : AgreeOn {addr | addr.toNat < n} m m'
  beyond : ∀ addr : Word, n ≤ addr.toNat → m'.read addr = large.read addr

/-- A run that stays within the smaller image is the same run on the larger one. -/
theorem Cycles.run_grown {c : Cycles α} {bus : Bus β} {n : Nat} {large m m' : Memory} {b : β}
    {t : Trail α β} (h : Memory.Grown n large m m') (ht : c.run bus m b = t)
    (hin : InRange t.result) :
    ∃ m₁, c.run bus m' b = ⟨t.result, m₁, t.bus, t.emitted⟩ ∧ Memory.Grown n large t.memory m₁ := by
  have hw : c.Within {addr | addr.toNat < n} bus m b := by
    subst ht
    exact within_of_inRange h.size hin
  obtain ⟨m₁, hrun, hagree, hsize, hkept⟩ := echo_of_run hw h.bytes ht
  have hsame : t.memory.size = n := by
    rw [← ht, size_run, h.size]
  refine ⟨m₁, hrun, hsame, h.size_le, hsize.trans h.size', hagree, fun addr ha => ?_⟩
  rw [hkept addr (Nat.not_lt.mpr ha)]
  exact h.beyond addr ha

theorem inRange_of_map {γ : Type} {f : α → γ} {r : Except Fault α} (h : InRange (r.map f)) :
    InRange r := by
  cases r with
  | ok a => exact inRange_ok a
  | error x => exact h.error

namespace Cpu

/-- The processors differ in their images only, of which the second is the larger one. -/
structure Enlarged (n : Nat) (large : Memory) (cpu cpu' : Cpu) : Prop where
  core : cpu'.core = cpu.core
  latch : cpu'.latch = cpu.latch
  /-- The size is a setting too, which matters for a new processor only. -/
  config : ∃ size, cpu'.config = { cpu.config with memorySize := size }
  memory : Memory.Grown n large cpu.memory cpu'.memory

/-- The second reply is the first one again, on the processor with the larger image. -/
structure Repeated (n : Nat) (large : Memory) (r r' : Reply α β) : Prop where
  result : r'.result = r.result
  bus : r'.bus = r.bus
  emitted : r'.emitted = r.emitted
  enlarged : Enlarged n large r.cpu r'.cpu

theorem Repeated.map {γ : Type} {n : Nat} {large : Memory} {r r' : Reply α β} (f : α → γ)
    (h : Repeated n large r r') : Repeated n large (r.map f) (r'.map f) :=
  ⟨congrArg (Except.map f) h.result, h.bus, h.emitted, h.enlarged⟩

variable {bus : Bus β} {n : Nat} {large : Memory} {cpu cpu' : Cpu} {b : β}

theorem Enlarged.carryOut {prepare : Cycles Prepared} {execute : Prepared → Cycles Core}
    (h : Enlarged n large cpu cpu')
    (hin : InRange (cpu.carryOut bus prepare execute b).result) :
    Repeated n large (cpu.carryOut bus prepare execute b)
      (cpu'.carryOut bus prepare execute b) := by
  rcases hp : prepare.run bus cpu.memory b with ⟨f | p, m, b₁, es⟩
  · rw [carryOut_refused hp] at hin ⊢
    obtain ⟨m', hp', hg⟩ := Cycles.run_grown h.memory hp hin.error
    rw [carryOut_refused hp', h.core]
    exact ⟨rfl, rfl, rfl, rfl, rfl, h.config, hg⟩
  · obtain ⟨m', hp', hg⟩ := Cycles.run_grown h.memory hp (inRange_ok p)
    rcases he : (execute p).run bus m b₁ with ⟨f | c, m₂, b₂, fs⟩
    · rw [carryOut_failed hp he] at hin ⊢
      obtain ⟨m₂', he', hg₂⟩ := Cycles.run_grown hg he hin.error
      rw [carryOut_failed hp' he', h.core]
      exact ⟨rfl, rfl, rfl, rfl, rfl, h.config, hg₂⟩
    · obtain ⟨m₂', he', hg₂⟩ := Cycles.run_grown hg he (inRange_ok c)
      rw [carryOut_granted hp he, carryOut_granted hp' he']
      exact ⟨rfl, rfl, rfl, rfl, rfl, h.config, hg₂⟩

theorem Enlarged.step (h : Enlarged n large cpu cpu') (hin : InRange (cpu.step bus b).result) :
    Repeated n large (cpu.step bus b) (cpu'.step bus b) := by
  cases hl : cpu.latch with
  | some l =>
    have hl' : cpu'.latch = some l := h.latch.trans hl
    simp only [Cpu.step, hl, hl']
    exact ⟨rfl, rfl, rfl, h⟩
  | none =>
    have hl' : cpu'.latch = none := h.latch.trans hl
    cases hh : cpu.core.halted with
    | true =>
      have hh' : cpu'.core.halted = true := by rw [h.core, hh]
      simp only [Cpu.step, hl, hl', hh, hh']
      exact ⟨rfl, rfl, rfl, h⟩
    | false =>
      have hh' : cpu'.core.halted = false := by rw [h.core, hh]
      obtain ⟨size, hconfig⟩ := h.config
      rw [step_eq_carryOut bus b hl hh] at hin ⊢
      rw [step_eq_carryOut bus b hl' hh', h.core, hconfig]
      exact h.carryOut hin

theorem Enlarged.interrupt (h : Enlarged n large cpu cpu') {code : Byte}
    (hin : InRange (cpu.interrupt bus code b).result) :
    Repeated n large (cpu.interrupt bus code b) (cpu'.interrupt bus code b) := by
  have ha : cpu'.acceptsInterrupts = cpu.acceptsInterrupts := by
    rw [acceptsInterrupts, acceptsInterrupts, h.core, h.latch]
  cases hl : cpu.latch with
  | some l =>
    have hl' : cpu'.latch = some l := h.latch.trans hl
    simp only [Cpu.interrupt, hl, hl']
    exact ⟨rfl, rfl, rfl, h⟩
  | none =>
    have hl' : cpu'.latch = none := h.latch.trans hl
    cases hc : cpu.acceptsInterrupts with
    | false =>
      simp only [Cpu.interrupt, hl, hl', ha, hc]
      exact ⟨rfl, rfl, rfl, h⟩
    | true =>
      obtain ⟨size, hconfig⟩ := h.config
      rw [interrupt_eq_carryOut bus code b hc] at hin ⊢
      rw [interrupt_eq_carryOut bus code b (ha.trans hc), h.core, hconfig]
      exact (h.carryOut (inRange_of_map hin)).map some

/-! ### Sequences of calls -/

/-- A call on a processor at an instruction boundary. -/
inductive Command where
  | step
  | interrupt (code : Byte)

def obey (bus : Bus β) (cpu : Cpu) (b : β) : Command → Reply (Option Nat) β
  | .step => (cpu.step bus b).map some
  | .interrupt code => cpu.interrupt bus code b

/-- What a sequence of calls leaves behind, with the answer to each of them. -/
structure Transcript (β : Type) where
  answers : List (Except Fault (Option Nat))
  cpu : Cpu
  bus : β
  emitted : List Emission

def obeyAll (bus : Bus β) : List Command → Cpu → β → Transcript β
  | [], cpu, b => ⟨[], cpu, b, []⟩
  | x :: xs, cpu, b =>
    let r := cpu.obey bus b x
    let t := obeyAll bus xs r.cpu r.bus
    ⟨r.result :: t.answers, t.cpu, t.bus, r.emitted ++ t.emitted⟩

/-- The second transcript is the first one again, on the processor with the larger image. -/
structure Retraced (n : Nat) (large : Memory) (t t' : Transcript β) : Prop where
  answers : t'.answers = t.answers
  bus : t'.bus = t.bus
  emitted : t'.emitted = t.emitted
  enlarged : Enlarged n large t.cpu t'.cpu

theorem Enlarged.obey (h : Enlarged n large cpu cpu') {x : Command}
    (hin : InRange (cpu.obey bus b x).result) :
    Repeated n large (cpu.obey bus b x) (cpu'.obey bus b x) := by
  cases x with
  | step => exact (h.step (inRange_of_map hin)).map some
  | interrupt code => exact h.interrupt hin

theorem Enlarged.obeyAll (h : Enlarged n large cpu cpu') {xs : List Command}
    (hin : ∀ r ∈ (Cpu.obeyAll bus xs cpu b).answers, InRange r) :
    Retraced n large (Cpu.obeyAll bus xs cpu b) (Cpu.obeyAll bus xs cpu' b) := by
  induction xs generalizing cpu cpu' b with
  | nil => exact ⟨rfl, rfl, rfl, h⟩
  | cons x xs ih =>
    obtain ⟨hfirst, hrest⟩ := List.forall_mem_cons.mp hin
    obtain ⟨hresult, hbus, hemitted, henlarged⟩ := h.obey hfirst
    have ht := ih henlarged hrest
    simp only [Cpu.obeyAll]
    rw [hresult, hbus, hemitted]
    exact ⟨congrArg (_ :: ·) ht.answers, ht.bus, congrArg (_ ++ ·) ht.emitted, ht.enlarged⟩

theorem obeyAll_recorded (bus : Bus β) (xs : List Command) (cpu : Cpu) (x : β × List PortCall) :
    (obeyAll bus.recorded xs cpu x).answers = (obeyAll bus xs cpu x.1).answers := by
  induction xs generalizing cpu x with
  | nil => rfl
  | cons c xs ih =>
    have hobey : (cpu.obey bus.recorded x c).forget = cpu.obey bus x.1 c := by
      cases c with
      | step => exact congrArg (Reply.map some) (step_recorded bus cpu x)
      | interrupt code => exact interrupt_recorded bus cpu x code
    simp only [obeyAll, ih, ← hobey]
    rfl

/-- A program that fits the smaller image runs alike on the larger one: each call has the same
answer and uses the ports alike, and afterwards the processors differ in the bytes beyond the
smaller image only, which are those from before. -/
theorem obeyAll_enlarged (bus : Bus β) (xs : List Command) (cpu cpu' : Cpu) (b : β)
    (h : Enlarged cpu.memory.size cpu'.memory cpu cpu')
    (hin : ∀ r ∈ (obeyAll bus xs cpu b).answers, InRange r) :
    Retraced cpu.memory.size cpu'.memory (obeyAll bus xs cpu b) (obeyAll bus xs cpu' b) ∧
      (obeyAll bus.recorded xs cpu' (b, [])).bus = (obeyAll bus.recorded xs cpu (b, [])).bus := by
  refine ⟨h.obeyAll hin, ?_⟩
  have hin' : ∀ r ∈ (obeyAll bus.recorded xs cpu (b, [])).answers, InRange r := by
    rw [obeyAll_recorded]
    exact hin
  exact (h.obeyAll hin').bus

/-- A processor whose program writes the last byte of its image. -/
def confined : Cpu where
  core := { registers := { a := 7, sp := 3 } }
  memory := ⟨#[0x32, 0x03, 0x00, 0xC7], by decide, by decide⟩
  latch := none
  config := { memorySize := 4 }

/-- The same processor with all the memory that it can address. -/
def unconfined : Cpu where
  core := confined.core
  memory := ⟨confined.memory.bytes ++ Array.replicate 65532 0, by simp [confined], by
    simp [confined, maxMemorySize]⟩
  latch := none
  config := { memorySize := 65536 }

/-- The STA, an RST that pushes onto its operand, and the STA again. -/
theorem obeyAll_enlarged_confined :
    (obeyAll Bus.null [.step, .interrupt 0xC7, .step] confined ()).answers =
        [.ok (some 13), .ok (some 11), .ok (some 13)] ∧
      Enlarged 4 unconfined.memory confined unconfined ∧
      Retraced 4 unconfined.memory (obeyAll Bus.null [.step, .interrupt 0xC7, .step] confined ())
        (obeyAll Bus.null [.step, .interrupt 0xC7, .step] unconfined ()) := by
  have hanswers : (obeyAll Bus.null [.step, .interrupt 0xC7, .step] confined ()).answers =
      [.ok (some 13), .ok (some 11), .ok (some 13)] := rfl
  have hsize : unconfined.memory.size = 65536 := by simp [unconfined, confined, Memory.size]
  have hgrown : Memory.Grown 4 unconfined.memory confined.memory unconfined.memory := by
    refine ⟨rfl, by rw [hsize]; decide, rfl, fun addr ha => ?_, fun _ _ => rfl⟩
    have ha' : addr.toNat < 4 := ha
    have hlt : addr.toNat < unconfined.memory.bytes.size := by
      rw [show unconfined.memory.bytes.size = 65536 from hsize]
      exact addr.toNat_lt
    rw [Memory.read_eq_ok _ hlt, Memory.read_eq_ok _ ha']
    exact congrArg Except.ok (Array.getElem_append_left ha')
  have h : Enlarged 4 unconfined.memory confined unconfined := ⟨rfl, rfl, ⟨65536, rfl⟩, hgrown⟩
  refine ⟨hanswers, h, (obeyAll_enlarged Bus.null _ confined unconfined () h fun r hr => ?_).1⟩
  rw [hanswers] at hr
  simp only [List.mem_cons, List.not_mem_nil, or_false] at hr
  rcases hr with rfl | rfl | rfl <;> exact inRange_ok _

end Cpu

end Intel8080
