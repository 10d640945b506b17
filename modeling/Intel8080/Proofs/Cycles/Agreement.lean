import Intel8080.Proofs.Cpu.CarryOut

/-! Devices that agree. They answer alike and send no signals, whatever else they do with what is
written to them. A processor sees nothing of a device but its answers, so it does the same on
either. -/

namespace Intel8080

variable {α β γ : Type}

/-- No signal is among the emissions and, where the devices keep their senders, none is given up. -/
structure Discreet (kept : Prop) (es : List Emission) : Prop where
  signals : ∀ x, Emission.signal x ∉ es
  hangUps : kept → Emission.hangUp ∉ es

namespace Discreet

variable {kept : Prop} {es fs : List Emission}

theorem nil : Discreet kept [] := ⟨nofun, nofun⟩

theorem event (e : Event) : Discreet kept [.event e] := by
  constructor <;> simp

theorem append (he : Discreet kept es) (hf : Discreet kept fs) : Discreet kept (es ++ fs) := by
  refine ⟨fun x hx => ?_, fun hk hx => ?_⟩
  · exact (List.mem_append.mp hx).elim (he.signals x) (hf.signals x)
  · exact (List.mem_append.mp hx).elim (he.hangUps hk) (hf.hangUps hk)

theorem mono {kept' : Prop} (h : Discreet kept es) (hk : kept' → kept) : Discreet kept' es :=
  ⟨h.signals, fun hk' => h.hangUps (hk hk')⟩

end Discreet

/-- The devices answer alike in states that are related, and end in such states. -/
structure Bus.Agree (kept : Prop) (R : β → γ → Prop) (bus : Bus β) (bus' : Bus γ) : Prop where
  read : ∀ b b' port, R b b' →
    (bus'.read b' port).1 = (bus.read b port).1 ∧
      Discreet kept (bus.read b port).2.2 ∧ Discreet kept (bus'.read b' port).2.2 ∧
      R (bus.read b port).2.1 (bus'.read b' port).2.1
  write : ∀ b b' port v, R b b' →
    Discreet kept (bus.write b port v).2 ∧ Discreet kept (bus'.write b' port v).2 ∧
      R (bus.write b port v).1 (bus'.write b' port v).1

theorem Bus.Agree.symm {kept : Prop} {R : β → γ → Prop} {bus : Bus β} {bus' : Bus γ}
    (h : bus.Agree kept R bus') : bus'.Agree kept (fun c b => R b c) bus where
  read b b' port hr := by
    obtain ⟨hv, he, he', hr⟩ := h.read b' b port hr
    exact ⟨hv.symm, he', he, hr⟩
  write b b' port v hr := by
    obtain ⟨he, he', hr⟩ := h.write b' b port v hr
    exact ⟨he', he, hr⟩

theorem Bus.Agree.mono {kept kept' : Prop} {R : β → γ → Prop} {bus : Bus β} {bus' : Bus γ}
    (h : bus.Agree kept R bus') (hk : kept' → kept) : bus.Agree kept' R bus' where
  read b b' port hr := by
    obtain ⟨hv, he, he', hr⟩ := h.read b b' port hr
    exact ⟨hv, he.mono hk, he'.mono hk, hr⟩
  write b b' port v hr := by
    obtain ⟨he, he', hr⟩ := h.write b b' port v hr
    exact ⟨he.mono hk, he'.mono hk, hr⟩

/-- Trails with the same outcome on devices that agree. -/
structure Trail.Agree (kept : Prop) (R : β → γ → Prop) (t : Trail α β) (t' : Trail α γ) :
    Prop where
  result : t'.result = t.result
  memory : t'.memory = t.memory
  discreet : Discreet kept t.emitted
  discreet' : Discreet kept t'.emitted
  bus : R t.bus t'.bus

/-- Replies with the same outcome on devices that agree. -/
structure Reply.Agree (kept : Prop) (R : β → γ → Prop) (r : Reply α β) (r' : Reply α γ) :
    Prop where
  result : r'.result = r.result
  cpu : r'.cpu = r.cpu
  discreet : Discreet kept r.emitted
  discreet' : Discreet kept r'.emitted
  bus : R r.bus r'.bus

variable {kept : Prop} {R : β → γ → Prop} {bus : Bus β} {bus' : Bus γ} {b : β} {b' : γ}

theorem Trail.Agree.emitBefore {t : Trail α β} {t' : Trail α γ} {es es' : List Emission}
    (he : Discreet kept es) (he' : Discreet kept es') (h : t.Agree kept R t') :
    (t.emitBefore es).Agree kept R (t'.emitBefore es') :=
  ⟨h.result, h.memory, he.append h.discreet, he'.append h.discreet', h.bus⟩

theorem Cycles.run_agree (h : bus.Agree kept R bus') (c : Cycles α) (m : Memory) (hb : R b b') :
    (c.run bus m b).Agree kept R (c.run bus' m b') := by
  induction c generalizing m b b' with
  | done a => exact ⟨rfl, rfl, .nil, .nil, hb⟩
  | refuse x => exact ⟨rfl, rfl, .nil, .nil, hb⟩
  | note e next ih => exact .emitBefore (.event e) (.event e) (ih m hb)
  | read addr next ih =>
    rw [run, run]
    split
    · exact ih _ m hb
    · exact ⟨rfl, rfl, .nil, .nil, hb⟩
  | write addr v next ih =>
    rw [run, run]
    split
    · exact ih _ hb
    · exact ⟨rfl, rfl, .nil, .nil, hb⟩
  | input port next ih =>
    obtain ⟨hv, he, he', hr⟩ := h.read b b' port hb
    rw [run, run]
    dsimp only
    rw [hv]
    exact .emitBefore he he' (ih _ m hr)
  | output port v next ih =>
    obtain ⟨he, he', hr⟩ := h.write b b' port v hb
    exact .emitBefore he he' (ih m hr)

namespace Cpu

variable (cpu : Cpu)

theorem carryOut_agree (h : bus.Agree kept R bus') (prepare : Cycles Prepared)
    (execute : Prepared → Cycles Core) (hb : R b b') :
    (cpu.carryOut bus prepare execute b).Agree kept R (cpu.carryOut bus' prepare execute b') := by
  obtain ⟨hres, hmem, he, he', hr⟩ := prepare.run_agree h cpu.memory hb
  rcases ht : prepare.run bus cpu.memory b with ⟨f | p, m, b₁, es⟩ <;>
    rcases ht' : prepare.run bus' cpu.memory b' with ⟨f' | p', m', b₁', es'⟩ <;>
    rw [ht, ht'] at hres hmem hr <;> rw [ht] at he <;> rw [ht'] at he' <;> cases hres <;> cases hmem
  · rw [carryOut_refused ht, carryOut_refused ht']
    exact ⟨rfl, rfl, he.append (.event _), he'.append (.event _), hr⟩
  · obtain ⟨hres₂, hmem₂, hf, hf', hr₂⟩ := (execute p).run_agree h m hr
    rcases hx : (execute p).run bus m b₁ with ⟨f | c, m₂, b₂, fs⟩ <;>
      rcases hx' : (execute p).run bus' m b₁' with ⟨f' | c', m₂', b₂', fs'⟩ <;>
      rw [hx, hx'] at hres₂ hmem₂ hr₂ <;> rw [hx] at hf <;> rw [hx'] at hf' <;>
      cases hres₂ <;> cases hmem₂
    · rw [carryOut_failed ht hx, carryOut_failed ht' hx']
      exact ⟨rfl, rfl, (he.append hf).append (.event _), (he'.append hf').append (.event _), hr₂⟩
    · rw [carryOut_granted ht hx, carryOut_granted ht' hx']
      exact ⟨rfl, rfl, he.append hf, he'.append hf', hr₂⟩

theorem step_agree (h : bus.Agree kept R bus') (hb : R b b') :
    (cpu.step bus b).Agree kept R (cpu.step bus' b') := by
  unfold step
  split
  · exact ⟨rfl, rfl, .nil, .nil, hb⟩
  · split
    · exact ⟨rfl, rfl, .nil, .nil, hb⟩
    · exact cpu.carryOut_agree h _ _ hb

theorem interrupt_agree (h : bus.Agree kept R bus') (code : Byte) (hb : R b b') :
    (cpu.interrupt bus code b).Agree kept R (cpu.interrupt bus' code b') := by
  unfold interrupt
  split
  · exact ⟨rfl, rfl, .nil, .nil, hb⟩
  · split
    · have hr := cpu.carryOut_agree h (cpu.core.acknowledge cpu.config code)
        (fun p => return reenable cpu.config (← execution cpu.config p)) hb
      exact ⟨congrArg (Except.map some) hr.result, hr.cpu, hr.discreet, hr.discreet', hr.bus⟩
    · exact ⟨rfl, rfl, .nil, .nil, hb⟩

end Cpu

/-! ### From one state on -/

/-- A use of a port, of which a write carries the byte to put out. -/
inductive PortRequest where
  | read (port : Byte)
  | write (port value : Byte)
  deriving DecidableEq

namespace Bus

/-- The device after some uses of its ports. -/
def after (bus : Bus β) : β → List PortRequest → β
  | b, [] => b
  | b, .read port :: xs => bus.after (bus.read b port).2.1 xs
  | b, .write port v :: xs => bus.after (bus.write b port v).1 xs

/-- What the device emits at its next use. -/
def emits (bus : Bus β) (b : β) : PortRequest → List Emission
  | .read port => (bus.read b port).2.2
  | .write port v => (bus.write b port v).2

/-- The device never sends a signal. -/
def SendsNone (bus : Bus β) (b : β) : Prop :=
  ∀ xs x y, Emission.signal y ∉ bus.emits (bus.after b xs) x

/-- After the same uses of their ports the devices answer a read alike. -/
def AnswersLike (bus : Bus β) (b : β) (bus' : Bus γ) (b' : γ) : Prop :=
  ∀ xs port, (bus'.read (bus'.after b' xs) port).1 = (bus.read (bus.after b xs) port).1

/-- The device never gives up a sender. -/
def KeepsSender (bus : Bus β) (b : β) : Prop :=
  ∀ xs x, Emission.hangUp ∉ bus.emits (bus.after b xs) x

theorem KeepsSender.read (h : bus.KeepsSender b) (port : Byte) :
    bus.KeepsSender (bus.read b port).2.1 := fun xs => h (.read port :: xs)

theorem KeepsSender.write (h : bus.KeepsSender b) (port v : Byte) :
    bus.KeepsSender (bus.write b port v).1 := fun xs => h (.write port v :: xs)

theorem SendsNone.discreet (h : bus.SendsNone b) (hk : kept → bus.KeepsSender b)
    (x : PortRequest) : Discreet kept (bus.emits b x) := ⟨h [] x, fun hkept => hk hkept [] x⟩

theorem SendsNone.read (h : bus.SendsNone b) (port : Byte) :
    bus.SendsNone (bus.read b port).2.1 := fun xs => h (.read port :: xs)

theorem SendsNone.write (h : bus.SendsNone b) (port v : Byte) :
    bus.SendsNone (bus.write b port v).1 := fun xs => h (.write port v :: xs)

/-- From here on the devices answer alike and send no signals, and where it is said that senders
are kept, neither gives one up. -/
structure Indistinct (kept : Prop) (bus : Bus β) (bus' : Bus γ) (b : β) (b' : γ) : Prop where
  answers : bus.AnswersLike b bus' b'
  sendsNone : bus.SendsNone b
  sendsNone' : bus'.SendsNone b'
  keeps : kept → bus.KeepsSender b
  keeps' : kept → bus'.KeepsSender b'

theorem indistinct_agree (kept : Prop) (bus : Bus β) (bus' : Bus γ) :
    bus.Agree kept (Indistinct kept bus bus') bus' where
  read _ _ port h :=
    ⟨h.answers [] port, h.sendsNone.discreet h.keeps (.read port),
      h.sendsNone'.discreet h.keeps' (.read port),
      { answers := fun xs => h.answers (.read port :: xs)
        sendsNone := h.sendsNone.read port
        sendsNone' := h.sendsNone'.read port
        keeps := fun hk => (h.keeps hk).read port
        keeps' := fun hk => (h.keeps' hk).read port }⟩
  write _ _ port v h :=
    ⟨h.sendsNone.discreet h.keeps (.write port v), h.sendsNone'.discreet h.keeps' (.write port v),
      { answers := fun xs => h.answers (.write port v :: xs)
        sendsNone := h.sendsNone.write port v
        sendsNone' := h.sendsNone'.write port v
        keeps := fun hk => (h.keeps hk).write port v
        keeps' := fun hk => (h.keeps' hk).write port v }⟩

end Bus

end Intel8080
