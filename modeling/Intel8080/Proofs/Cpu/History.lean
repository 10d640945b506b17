import Intel8080.Proofs.Cpu.Boundary

/-! Histories: the steps and the offered interrupts since a processor was new or reset, none of
which faulted, newest first. The interrupt enable is decided by the newest EI, DI or accepted
interrupt alone, and the shadow of an EI lasts exactly until another instruction has run. -/

namespace Intel8080

/-- What a call on the processor turned out to do. -/
inductive Happening where
  /-- A step executed the operation. -/
  | executed (op : Operation)
  /-- A step of a halted processor. -/
  | idle
  /-- An interrupt was accepted and its operation executed. -/
  | accepted (op : Operation)
  | declined (op : Operation)
  deriving DecidableEq

namespace Happening

/-- The operation that was executed, if any. -/
def operation? : Happening → Option Operation
  | executed op | accepted op => some op
  | idle | declined _ => none

/-- What it makes of the interrupt enable, if anything. -/
def decides (policy : InterruptPolicy) : Happening → Option Bool
  | executed op => if op = .ei then some true else if op = .di then some false else none
  | accepted op => some (decide (policy = .autoReenable ∨ op = .ei))
  | idle | declined _ => none

/-- Under the manual policy only an EI switches interrupts on. -/
theorem operation?_of_decides {x : Happening} (h : x.decides .manual = some true) :
    x.operation? = some .ei := by
  cases x with
  | executed op =>
    simp only [decides] at h
    split at h
    next hop => rw [operation?, hop]
    next => split at h <;> cases h
  | accepted op => simpa [decides, operation?] using h
  | idle | declined op => cases h

end Happening

/-- The operations executed, newest first. -/
def executions (es : List Happening) : List Operation := es.filterMap Happening.operation?

namespace Cpu

inductive History (config : Config) : List Happening → Cpu → Prop
  | new {cpu} (h : ofConfig config = .ok cpu) : History config [] cpu
  | reset {cpu : Cpu} (h : cpu.config = config) : History config [] cpu.reset
  | load {es cpu cpu' offset program} (h : History config es cpu)
      (hok : cpu.load offset program = .ok cpu') : History config es cpu'
  | execute {es cpu} (h : History config es cpu) {β : Type} (bus : Bus β) (b : β) {n}
      (hh : cpu.core.halted = false) (hok : (cpu.step bus b).result = .ok n) :
      History config
        (.executed (Operation.decode (cpu.memory.peek cpu.core.registers.pc)) :: es)
        (cpu.step bus b).cpu
  | idle {es cpu} (h : History config es cpu) {β : Type} (bus : Bus β) (b : β) {n}
      (hh : cpu.core.halted = true) (hok : (cpu.step bus b).result = .ok n) :
      History config (.idle :: es) (cpu.step bus b).cpu
  | accept {es cpu} (h : History config es cpu) {β : Type} (bus : Bus β) (code : Byte) (b : β) {n}
      (hok : (cpu.interrupt bus code b).result = .ok (some n)) :
      History config (.accepted (Operation.decode code) :: es) (cpu.interrupt bus code b).cpu
  | decline {es cpu} (h : History config es cpu) {β : Type} (bus : Bus β) (code : Byte) (b : β)
      (hok : (cpu.interrupt bus code b).result = .ok none) :
      History config (.declined (Operation.decode code) :: es) (cpu.interrupt bus code b).cpu

/-- The control state is the one that the history calls for. -/
structure Follows (config : Config) (es : List Happening) (cpu : Cpu) : Prop where
  settings : cpu.config = config
  unlatched : cpu.latch = none
  interruptsEnabled : cpu.core.interruptsEnabled =
    (es.findSome? (Happening.decides config.interruptPolicy)).getD config.interruptsEnabled
  shadow : cpu.core.shadow =
    (config.delayedEi && decide ((executions es).head? = some .ei))
  /-- A shadow never falls on a processor that is halted or has interrupts off. -/
  shadowed : cpu.core.shadow = true →
    cpu.core.interruptsEnabled = true ∧ cpu.core.halted = false

variable {config : Config} {es : List Happening} {cpu : Cpu}

namespace Follows

theorem initial (hc : cpu.config = config) (hl : cpu.latch = none)
    (h : cpu.core = Core.initial config) : Follows config [] cpu where
  settings := hc
  unlatched := hl
  interruptsEnabled := by rw [h]; rfl
  shadow := by rw [h]; simp [Core.initial, executions]
  shadowed := by rw [h]; nofun

theorem executed (h : Follows config es cpu) {op : Operation} {core : Core} {memory : Memory}
    (hh : cpu.core.halted = false)
    (hc : Core.Controlled cpu.config.delayedEi op { cpu.core with shadow := false } core) :
    Follows config (.executed op :: es) ⟨core, memory, none, cpu.config⟩ where
  settings := h.settings
  unlatched := rfl
  interruptsEnabled := by
    rw [hc.interruptsEnabled, List.findSome?_cons, Happening.decides]
    split
    · rfl
    · split
      · rfl
      · exact h.interruptsEnabled
  shadow := by
    rw [hc.shadow, h.settings]
    by_cases hop : op = .ei <;> simp [executions, Happening.operation?, hop]
  shadowed := by
    intro hs
    have hop : op = .ei := by
      by_contra hop
      simp [hc.shadow, hop] at hs
    subst hop
    exact ⟨hc.interruptsEnabled, hc.halted.trans hh⟩

theorem accepted (h : Follows config es cpu) {op : Operation} {core : Core} {memory : Memory}
    (ha : cpu.acceptsInterrupts = true)
    (hc : Core.Controlled cpu.config.delayedEi op
      { cpu.core with interruptsEnabled := false, halted := false } core) :
    Follows config (.accepted op :: es) ⟨reenable cpu.config core, memory, none, cpu.config⟩ where
  settings := h.settings
  unlatched := rfl
  interruptsEnabled := by
    rw [reenable_interruptsEnabled, hc.interruptsEnabled, h.settings, List.findSome?_cons,
      Happening.decides, Option.getD_some, Bool.decide_or]
    by_cases hop : op = .ei <;> simp [hop]
  shadow := by
    have hs := (acceptsInterrupts_eq_true.mp ha).2.1
    rw [reenable_shadow, hc.shadow, h.settings]
    by_cases hop : op = .ei <;> simp [executions, Happening.operation?, hop, hs]
  shadowed := by
    intro hs
    have hop : op = .ei := by
      by_contra hop
      have hn := (acceptsInterrupts_eq_true.mp ha).2.1
      simp [hc.shadow, hop, hn] at hs
    subst hop
    rw [reenable_interruptsEnabled, reenable_halted, hc.interruptsEnabled, hc.halted]
    simp

/-- What happens without an execution changes nothing. -/
theorem idled (h : Follows config es cpu) : Follows config (.idle :: es) cpu :=
  ⟨h.settings, h.unlatched, h.interruptsEnabled, h.shadow, h.shadowed⟩

theorem declined (h : Follows config es cpu) (op : Operation) :
    Follows config (.declined op :: es) cpu :=
  ⟨h.settings, h.unlatched, h.interruptsEnabled, h.shadow, h.shadowed⟩

end Follows

theorem History.follows (h : History config es cpu) : Follows config es cpu := by
  induction h with
  | @new cpu h =>
    obtain ⟨hr, hc⟩ := ofConfig_reset h
    rw [← hr]
    exact .initial hc rfl (congrArg Core.initial hc)
  | reset h => exact .initial h rfl (congrArg Core.initial h)
  | load _ hok ih =>
    obtain ⟨memory, rfl⟩ := load_eq hok
    exact ⟨ih.settings, ih.unlatched, ih.interruptsEnabled, ih.shadow, ih.shadowed⟩
  | @execute es cpu _ _ bus b n hh hok ih =>
    have hs := step_stepped bus cpu b
    rw [hok] at hs
    generalize (cpu.step bus b).cpu = cpu' at hs ⊢
    cases hs with
    | idle _ hh' => rw [hh] at hh'; cases hh'
    | executed _ _ hc => exact ih.executed hh hc
  | @idle es cpu _ _ bus b n hh hok ih =>
    have hs := step_stepped bus cpu b
    rw [hok] at hs
    generalize (cpu.step bus b).cpu = cpu' at hs ⊢
    cases hs with
    | idle => exact ih.idled
    | executed _ hh' _ => rw [hh] at hh'; cases hh'
  | @accept es cpu _ _ bus code b n hok ih =>
    have hi := interrupt_offered bus code cpu b
    rw [hok] at hi
    generalize (cpu.interrupt bus code b).cpu = cpu' at hi ⊢
    cases hi with
    | taken ha hc => exact ih.accepted ha hc
  | @decline es cpu _ _ bus code b hok ih =>
    have hi := interrupt_offered bus code cpu b
    rw [hok] at hi
    generalize (cpu.interrupt bus code b).cpu = cpu' at hi ⊢
    cases hi with
    | declined => exact ih.declined _

/-- Every accepted interrupt of a history found a processor that followed the history so far and
was accepting. -/
theorem History.accepting (h : History config es cpu) {newer older : List Happening}
    {op : Operation} (hes : es = newer ++ .accepted op :: older) :
    ∃ cpu', Follows config older cpu' ∧ cpu'.acceptsInterrupts = true := by
  induction h generalizing newer with
  | new | reset => simp at hes
  | load _ _ ih => exact ih hes
  | execute _ _ _ _ _ ih | idle _ _ _ _ _ ih | decline _ _ _ _ _ ih =>
    rcases newer with _ | ⟨x, newer⟩
    · cases hes
    · exact ih (List.cons.inj hes).2
  | @accept es cpu h _ bus code b n hok ih =>
    rcases newer with _ | ⟨x, newer⟩
    · obtain ⟨-, rfl⟩ := List.cons.inj hes
      have hi := interrupt_offered bus code cpu b
      rw [hok] at hi
      generalize (cpu.interrupt bus code b).cpu = cpu' at hi
      cases hi with
      | taken ha _ => exact ⟨cpu, h.follows, ha⟩
    · exact ih (List.cons.inj hes).2

/-- Where an EI is the newest decision but not the newest execution, it was executed and then one
more instruction. -/
theorem ei_then_another {es : List Happening}
    (hd : es.findSome? (Happening.decides .manual) = some true)
    (hx : (executions es).head? ≠ some .ei) :
    ∃ op, [op, .ei] <:+: executions es := by
  obtain ⟨newer, x, older, rfl, hdx, -⟩ := List.findSome?_eq_some_iff.mp hd
  have hes : executions (newer ++ x :: older) = executions newer ++ .ei :: executions older := by
    simp [executions, Happening.operation?_of_decides hdx]
  rw [hes] at hx ⊢
  rcases List.eq_nil_or_concat (executions newer) with hn | ⟨front, op, hn⟩
  · rw [hn] at hx
    exact absurd rfl hx
  · exact ⟨op, front, executions older, by simp [hn]⟩

/-- The interrupt protocol over a whole history. -/
structure Governed (config : Config) (es : List Happening) (cpu : Cpu) : Prop
    extends Follows config es cpu where
  /-- Right after an EI that is delayed no interrupt is accepted, and an offer changes nothing. -/
  held : config.delayedEi = true → (executions es).head? = some .ei →
    ∀ {β : Type} (bus : Bus β) (code : Byte) (b : β),
      cpu.interrupt bus code b = ⟨.ok none, cpu, b, []⟩
  /-- Between two accepted interrupts an EI was executed, which may be the first of them, and one
  more instruction after it. -/
  separated : config.delayedEi = true → config.interruptPolicy = .manual →
    ∀ (newer between older : List Happening) (second first : Operation),
      es = newer ++ .accepted second :: (between ++ .accepted first :: older) →
      ∃ op, [op, .ei] <:+: executions (between ++ [.accepted first])

theorem history_governed (h : History config es cpu) : Governed config es cpu := by
  have hf := h.follows
  refine ⟨hf, ?_, ?_⟩
  · intro hd hx β bus code b
    have hs : cpu.core.shadow = true := by
      rw [hf.shadow, hd, hx]
      rfl
    have ha : cpu.acceptsInterrupts = false := by
      rw [acceptsInterrupts, hs]
      simp
    simp only [interrupt, hf.unlatched, ha]
    rfl
  · intro hd hp newer between older second first hes
    obtain ⟨cpu', hf', ha⟩ := h.accepting hes
    obtain ⟨he, hs, -⟩ := acceptsInterrupts_eq_true.mp ha
    have happ : between ++ .accepted first :: older = (between ++ [.accepted first]) ++ older := by
      simp
    have hdecided := hf'.interruptsEnabled
    have hshadowed := hf'.shadow
    rw [he, hp, happ, List.findSome?_append] at hdecided
    rw [hs, hd, happ, executions, List.filterMap_append, List.head?_append] at hshadowed
    apply ei_then_another
    · -- the first interrupt itself decides, so the decision lies no further back
      cases hx : (between ++ [Happening.accepted first]).findSome? (Happening.decides .manual) with
      | none =>
        have := List.findSome?_eq_none_iff.mp hx (Happening.accepted first) (by simp)
        cases this
      | some v =>
        rw [hx] at hdecided
        exact congrArg some hdecided.symm
    · intro hx
      rw [executions] at hx
      rw [hx] at hshadowed
      cases hshadowed

/-- A processor with EI delayed, in front of an EI and a NOP. -/
def beforeEi : Cpu where
  core := Core.initial { memorySize := 2, delayedEi := true }
  memory := ⟨#[0xFB, 0x00], by decide, by decide⟩
  latch := none
  config := { memorySize := 2, delayedEi := true }

/-- An interrupt is accepted, the EI and the NOP run, and then the next one is accepted. -/
theorem history_governed_between_interrupts :
    ∃ cpu, History beforeEi.config [.accepted .nop, .executed .nop, .executed .ei, .accepted .nop]
        cpu ∧
      Governed beforeEi.config [.accepted .nop, .executed .nop, .executed .ei, .accepted .nop]
        cpu := by
  have h₀ : History beforeEi.config [] beforeEi := .reset (rfl : beforeEi.config = beforeEi.config)
  have h₁ := h₀.accept Bus.null 0x00 () rfl
  have h₂ := h₁.execute Bus.null () rfl rfl
  have h₃ := h₂.execute Bus.null () rfl rfl
  have h₄ := h₃.accept Bus.null 0x00 () rfl
  exact ⟨_, h₄, history_governed h₄⟩

end Cpu

end Intel8080
