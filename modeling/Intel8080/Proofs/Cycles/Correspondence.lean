import Intel8080.Proofs.Cpu.Recording
import Intel8080.Proofs.Mailbox.Coalescing

/-! Devices that correspond. They answer alike and what they emit comes to the same, though the
signals may differ. So a processor does the same on either. How many senders are left is carried
along, as it decides which of the emitted signals are sent at all. -/

namespace Intel8080

variable {α β γ : Type}

/-- The senders that the device gives up. -/
def hangUps (es : List Emission) : Nat := es.count .hangUp

/-- Emissions that give up as many senders and post batches that come to the same. -/
structure SameEffect (senders : Nat) (es fs : List Emission) : Prop where
  hangUps : hangUps fs = hangUps es
  posted : Akin (posted es senders) (posted fs senders)

@[simp] theorem hangUps_nil : hangUps [] = 0 := rfl

@[simp] theorem hangUps_hangUp (es : List Emission) : hangUps (.hangUp :: es) = hangUps es + 1 :=
  List.count_cons_self

@[simp] theorem hangUps_append (es fs : List Emission) :
    hangUps (es ++ fs) = hangUps es + hangUps fs := List.count_append

theorem posted_append (es fs : List Emission) (n : Nat) :
    posted (es ++ fs) n = posted es n ++ posted fs (n - hangUps es) := by
  induction es generalizing n with
  | nil => rfl
  | cons e es ih =>
    rw [List.cons_append]
    cases e with
    | event e => exact ih n
    | hangUp =>
      rw [posted, posted, ih, hangUps_hangUp, Nat.sub_sub, Nat.add_comm]
    | signal x =>
      change posted (.signal x :: (es ++ fs)) n = _ ++ posted fs (n - hangUps es)
      rw [posted, posted, ih, ih]
      split
      next hn => rw [hn, Nat.zero_sub]
      next => rfl

namespace SameEffect

variable {n : Nat} {es es' fs fs' : List Emission}

theorem refl (es : List Emission) : SameEffect n es es := ⟨rfl, .refl _⟩

theorem append (h : SameEffect n es es') (h' : SameEffect (n - Intel8080.hangUps es) fs fs') :
    SameEffect n (es ++ fs) (es' ++ fs') := by
  refine ⟨?_, ?_⟩
  · rw [hangUps_append, hangUps_append, h.hangUps, h'.hangUps]
  · rw [posted_append, posted_append, h.hangUps]
    exact h.posted.append h'.posted

end SameEffect

/-- The devices answer alike in states that correspond with the given number of senders, and end in
such states. -/
structure Bus.Corresponds (R : Nat → β → γ → Prop) (bus : Bus β) (bus' : Bus γ) : Prop where
  read : ∀ n b b' port, R n b b' →
    (bus'.read b' port).1 = (bus.read b port).1 ∧
      SameEffect n (bus.read b port).2.2 (bus'.read b' port).2.2 ∧
      R (n - hangUps (bus.read b port).2.2) (bus.read b port).2.1 (bus'.read b' port).2.1
  write : ∀ n b b' port v, R n b b' →
    SameEffect n (bus.write b port v).2 (bus'.write b' port v).2 ∧
      R (n - hangUps (bus.write b port v).2) (bus.write b port v).1 (bus'.write b' port v).1

/-- States that correspond, with the same record of calls. -/
def Recorded (R : Nat → β → γ → Prop) (n : Nat) (x : β × List PortCall) (y : γ × List PortCall) :
    Prop :=
  R n x.1 y.1 ∧ y.2 = x.2

variable {R : Nat → β → γ → Prop} {bus : Bus β} {bus' : Bus γ} {n : Nat} {b : β} {b' : γ}

/-- A record does not disturb the correspondence, and both record the same. -/
theorem Bus.Corresponds.recorded (h : bus.Corresponds R bus') :
    bus.recorded.Corresponds (Recorded R) bus'.recorded where
  read n x y port hxy := by
    obtain ⟨hv, he, hr⟩ := h.read n x.1 y.1 port hxy.1
    refine ⟨hv, he, hr, ?_⟩
    simp only [Bus.recorded, hv, hxy.2]
  write n x y port v hxy := by
    obtain ⟨he, hr⟩ := h.write n x.1 y.1 port v hxy.1
    refine ⟨he, hr, ?_⟩
    simp only [Bus.recorded, hxy.2]

/-- Trails with the same outcome on devices that correspond. -/
structure Trail.Corresponds (R : Nat → β → γ → Prop) (n : Nat) (t : Trail α β) (t' : Trail α γ) :
    Prop where
  result : t'.result = t.result
  memory : t'.memory = t.memory
  emitted : SameEffect n t.emitted t'.emitted
  bus : R (n - hangUps t.emitted) t.bus t'.bus

/-- Replies with the same outcome on devices that correspond. -/
structure Reply.Corresponds (R : Nat → β → γ → Prop) (n : Nat) (r : Reply α β) (r' : Reply α γ) :
    Prop where
  result : r'.result = r.result
  cpu : r'.cpu = r.cpu
  emitted : SameEffect n r.emitted r'.emitted
  bus : R (n - hangUps r.emitted) r.bus r'.bus

theorem Trail.Corresponds.emitBefore {t : Trail α β} {t' : Trail α γ} {es es' : List Emission}
    (he : SameEffect n es es') (h : t.Corresponds R (n - hangUps es) t') :
    (t.emitBefore es).Corresponds R n (t'.emitBefore es') := by
  refine ⟨h.result, h.memory, he.append h.emitted, ?_⟩
  change R (n - hangUps (es ++ t.emitted)) t.bus t'.bus
  rw [hangUps_append, ← Nat.sub_sub]
  exact h.bus

theorem Cycles.run_corresponds (h : bus.Corresponds R bus') (c : Cycles α) (m : Memory)
    (hb : R n b b') : (c.run bus m b).Corresponds R n (c.run bus' m b') := by
  induction c generalizing m n b b' with
  | done a => exact ⟨rfl, rfl, .refl [], hb⟩
  | refuse x => exact ⟨rfl, rfl, .refl [], hb⟩
  | note e next ih => exact .emitBefore (.refl [.event e]) (ih m hb)
  | read addr next ih =>
    rw [run, run]
    split
    · exact ih _ m hb
    · exact ⟨rfl, rfl, .refl [], hb⟩
  | write addr v next ih =>
    rw [run, run]
    split
    · exact ih _ hb
    · exact ⟨rfl, rfl, .refl [], hb⟩
  | input port next ih =>
    obtain ⟨hv, he, hr⟩ := h.read n b b' port hb
    rw [run, run]
    dsimp only
    rw [hv]
    exact .emitBefore he (ih _ m hr)
  | output port v next ih =>
    obtain ⟨he, hr⟩ := h.write n b b' port v hb
    exact .emitBefore he (ih m hr)

namespace Cpu

variable (cpu : Cpu)

theorem carryOut_corresponds (h : bus.Corresponds R bus') (prepare : Cycles Prepared)
    (execute : Prepared → Cycles Core) (hb : R n b b') :
    (cpu.carryOut bus prepare execute b).Corresponds R n
      (cpu.carryOut bus' prepare execute b') := by
  obtain ⟨hres, hmem, he, hr⟩ := prepare.run_corresponds h cpu.memory hb
  rcases ht : prepare.run bus cpu.memory b with ⟨f | p, m, b₁, es⟩ <;>
    rcases ht' : prepare.run bus' cpu.memory b' with ⟨f' | p', m', b₁', es'⟩ <;>
    rw [ht, ht'] at hres hmem he hr <;> cases hres <;> cases hmem
  · rw [carryOut_refused ht, carryOut_refused ht']
    refine ⟨rfl, rfl, he.append (.refl _), ?_⟩
    rwa [hangUps_append]
  · obtain ⟨hres₂, hmem₂, he₂, hr₂⟩ := (execute p).run_corresponds h m hr
    rcases hx : (execute p).run bus m b₁ with ⟨f | c, m₂, b₂, fs⟩ <;>
      rcases hx' : (execute p).run bus' m b₁' with ⟨f' | c', m₂', b₂', fs'⟩ <;>
      rw [hx, hx'] at hres₂ hmem₂ he₂ hr₂ <;> cases hres₂ <;> cases hmem₂
    · rw [carryOut_failed ht hx, carryOut_failed ht' hx']
      refine ⟨rfl, rfl, (he.append he₂).append (.refl _), ?_⟩
      rw [hangUps_append, hangUps_append, ← Nat.sub_sub, ← Nat.sub_sub]
      exact hr₂
    · rw [carryOut_granted ht hx, carryOut_granted ht' hx']
      refine ⟨rfl, rfl, he.append he₂, ?_⟩
      rw [hangUps_append, ← Nat.sub_sub]
      exact hr₂

theorem step_corresponds (h : bus.Corresponds R bus') (hb : R n b b') :
    (cpu.step bus b).Corresponds R n (cpu.step bus' b') := by
  unfold step
  split
  · exact ⟨rfl, rfl, .refl [], hb⟩
  · split
    · exact ⟨rfl, rfl, .refl [], hb⟩
    · exact cpu.carryOut_corresponds h _ _ hb

theorem interrupt_corresponds (h : bus.Corresponds R bus') (code : Byte) (hb : R n b b') :
    (cpu.interrupt bus code b).Corresponds R n (cpu.interrupt bus' code b') := by
  unfold interrupt
  split
  · exact ⟨rfl, rfl, .refl [], hb⟩
  · split
    · obtain ⟨hres, hcpu, he, hr⟩ := cpu.carryOut_corresponds h
        (cpu.core.acknowledge cpu.config code)
        (fun p => return reenable cpu.config (← execution cpu.config p)) hb
      exact ⟨congrArg (Except.map some) hres, hcpu, he, hr⟩
    · exact ⟨rfl, rfl, .refl [], hb⟩

end Cpu

end Intel8080
