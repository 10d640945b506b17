import Intel8080.Proofs.Cpu.CarryOut

/-! The settings that are about interrupts make no difference to instructions. Processors that
differ in them, and then in the shadow that an EI casts, step alike and stay so: it takes an
interrupt to tell them apart. -/

namespace Intel8080

variable {β : Type}

/-- The cores are the same but for the shadow. -/
def Core.Akin (c c' : Core) : Prop := c' = { c with shadow := c'.shadow }

/-- The processors are the same but for the shadow and the settings for interrupts. -/
structure Cpu.Akin (cpu cpu' : Cpu) : Prop where
  core : cpu.core.Akin cpu'.core
  memory : cpu'.memory = cpu.memory
  latch : cpu'.latch = cpu.latch
  undefinedOpcodes : cpu'.config.undefinedOpcodes = cpu.config.undefinedOpcodes

/-- The trails are the same but for the shadow in the resulting core. -/
inductive Trail.Akin : Trail Core β → Trail Core β → Prop
  | same (t : Trail Core β) : Akin t t
  | shadow (c : Core) (x : Bool) (m : Memory) (b : β) (es : List Emission) :
      Akin ⟨.ok c, m, b, es⟩ ⟨.ok { c with shadow := x }, m, b, es⟩

/-- The replies are the same but for what the processors differ in. -/
structure Reply.Akin {α : Type} (r r' : Reply α β) : Prop where
  result : r'.result = r.result
  cpu : r.cpu.Akin r'.cpu
  bus : r'.bus = r.bus
  emitted : r'.emitted = r.emitted

namespace Core

theorem Akin.refl (c : Core) : c.Akin c := rfl

variable {c c' : Core} {config config' : Config}

theorem Akin.registers (h : c.Akin c') : c'.registers = c.registers := by
  rw [h]

theorem Akin.halted (h : c.Akin c') : c'.halted = c.halted := by
  rw [h]

/-- What is fetched has no shadow over it. -/
theorem fetch_akin (h : c.Akin c') (hu : config'.undefinedOpcodes = config.undefinedOpcodes) :
    c'.fetch config' = c.fetch config := by
  have hpermit : permit config' = permit config := by
    funext code pc
    rw [permit, permit, hu]
  rw [Akin] at h
  generalize c'.shadow = x at h
  subst h
  rw [fetch, fetch, hpermit]
  rfl

/-- Only an EI looks at the setting for its shadow. -/
theorem execute_akin (c : Core) (d d' : Bool) (op : Operation) (v : Word) (bus : Bus β)
    (m : Memory) (b : β) :
    ((c.execute d op v).run bus m b).Akin ((c.execute d' op v).run bus m b) := by
  cases op with
  | ei => exact .shadow (c.enableInterrupts d) d' m b [.event .enabledInterrupts]
  | _ => exact .same _

end Core

namespace Cpu

variable {cpu cpu' : Cpu} {bus : Bus β} {b : β}

theorem carryOut_akin {prepare : Cycles Prepared} {execute execute' : Prepared → Cycles Core}
    (h : cpu.Akin cpu')
    (he : ∀ p m b, ((execute p).run bus m b).Akin ((execute' p).run bus m b)) :
    (cpu.carryOut bus prepare execute b).Akin (cpu'.carryOut bus prepare execute' b) := by
  have hpc := congrArg Registers.pc h.core.registers
  rcases hp : prepare.run bus cpu.memory b with ⟨f | p, m, b₁, es⟩
  · have hp' := hp
    rw [← h.memory] at hp'
    rw [carryOut_refused hp, carryOut_refused hp', hpc]
    exact ⟨rfl, ⟨h.core, rfl, rfl, h.undefinedOpcodes⟩, rfl, rfl⟩
  · have hp' := hp
    rw [← h.memory] at hp'
    have hx := he p m b₁
    generalize ht : (execute p).run bus m b₁ = t at hx
    generalize ht' : (execute' p).run bus m b₁ = t' at hx
    cases hx with
    | same =>
      rcases t with ⟨f | c, m₂, b₂, fs⟩
      · rw [carryOut_failed hp ht, carryOut_failed hp' ht', hpc]
        exact ⟨rfl, ⟨.refl _, rfl, rfl, h.undefinedOpcodes⟩, rfl, rfl⟩
      · rw [carryOut_granted hp ht, carryOut_granted hp' ht']
        exact ⟨rfl, ⟨.refl _, rfl, rfl, h.undefinedOpcodes⟩, rfl, rfl⟩
    | shadow c x m₂ b₂ fs =>
      rw [carryOut_granted hp ht, carryOut_granted hp' ht']
      exact ⟨rfl, ⟨rfl, rfl, rfl, h.undefinedOpcodes⟩, rfl, rfl⟩

/-- Processors that are akin step alike. -/
theorem step_akin (h : cpu.Akin cpu') (bus : Bus β) (b : β) :
    (cpu.step bus b).Akin (cpu'.step bus b) := by
  unfold step
  rw [h.latch]
  split
  · exact ⟨rfl, h, rfl, rfl⟩
  · rw [h.core.halted]
    split
    · exact ⟨rfl, h, rfl, rfl⟩
    · rw [Core.fetch_akin h.core h.undefinedOpcodes]
      exact carryOut_akin h fun p m b => p.core.execute_akin _ _ p.operation p.immediate bus m b

theorem Akin.step {r : Except Fault Nat} {c : Cpu} {b' : β} {es : List Emission}
    (h : cpu.Akin cpu') (hs : cpu.step bus b = ⟨r, c, b', es⟩) :
    ∃ c', cpu'.step bus b = ⟨r, c', b', es⟩ ∧ c.Akin c' := by
  have hr := step_akin h bus b
  rcases hs' : cpu'.step bus b with ⟨r', c', b'', es'⟩
  rw [hs, hs'] at hr
  obtain ⟨rfl, hc, rfl, rfl⟩ := hr
  exact ⟨c', rfl, hc⟩

end Cpu

end Intel8080
