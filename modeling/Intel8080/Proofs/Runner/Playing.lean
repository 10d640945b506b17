import Intel8080.Proofs.Cpu.Options
import Intel8080.Proofs.Session.Console
import Intel8080.Proofs.Session.Stepping
import Intel8080.Runner

/-! Playing a program: one instruction after the other until the limit, a fault or an HLT ends it.
This is what a run does that no signal can reach, and the settings that are about interrupts make
no difference to it. -/

namespace Intel8080

/-- The program counter is at an HLT. -/
def Cpu.AtHlt (cpu : Cpu) : Prop :=
  Operation.decode (cpu.memory.peek cpu.core.registers.pc) = .hlt

instance (cpu : Cpu) : Decidable cpu.AtHlt := inferInstanceAs (Decidable (_ = _))

theorem Cpu.Akin.atHlt {cpu cpu' : Cpu} (h : cpu.Akin cpu') : cpu'.AtHlt ↔ cpu.AtHlt := by
  rw [AtHlt, AtHlt, h.memory, h.core.registers]

/-- The limit leaves room for one more instruction. -/
def Tally.Below (tally : Tally) (limit : Option Nat) : Prop :=
  ∀ n, limit = some n → tally.instructions < n

namespace Runner

open Session

/-- One instruction after the other until the limit, a fault or an HLT ends it, where every port
reads zero. The result comes with the bytes that were put out. -/
inductive Plays (limit : Option Nat) :
    Tally → Cpu → List PortCall → Except RunFailure Outcome → List Byte → Prop
  | limited {tally cpu calls n} (hl : limit = some n) (hn : n ≤ tally.instructions) :
      Plays limit tally cpu calls (.ok ⟨.instructionLimit, tally⟩) (outputs calls)
  | faulted {tally cpu calls fault cpu' calls' es} (hl : tally.Below limit)
      (hs : cpu.step Bus.null.recorded ((), calls) = ⟨.error fault, cpu', ((), calls'), es⟩) :
      Plays limit tally cpu calls (.error (.execution cpu'.core.registers.pc fault))
        (outputs calls')
  | hlt {tally cpu calls cost cpu' calls' es} (hl : tally.Below limit) (hop : cpu.AtHlt)
      (hs : cpu.step Bus.null.recorded ((), calls) = ⟨.ok cost, cpu', ((), calls'), es⟩) :
      Plays limit tally cpu calls (.ok ⟨.halted, tally.addInstruction cost⟩) (outputs calls')
  | stepped {tally cpu calls cost cpu' calls' es result out} (hl : tally.Below limit)
      (hop : ¬ cpu.AtHlt)
      (hs : cpu.step Bus.null.recorded ((), calls) = ⟨.ok cost, cpu', ((), calls'), es⟩)
      (h : Plays limit (tally.addInstruction cost) cpu' calls' result out) :
      Plays limit tally cpu calls result out

/-- What a run amounts to that has ended. -/
def amount? {β : Type} (p : Progress) (u : Session β) : Option (Except RunFailure Outcome) :=
  match p with
  | .running | .blocked => none
  | .stopped reason => some (.ok ⟨reason, u.tally⟩)
  | .faulted fault => some (.error (.execution u.cpu.core.registers.pc fault))

variable {limit : Option Nat} {tally : Tally} {cpu cpu' : Cpu} {calls : List PortCall}
  {result : Except RunFailure Outcome} {out : List Byte} {p : Progress}

/-! ### Playing -/

/-- What the outcomes have in common. -/
theorem Plays.outcome (h : Plays limit tally cpu calls result out) (outcome : Outcome)
    (hr : result = .ok outcome) :
    outcome.reason ≠ .powerOff ∧ outcome.tally.interrupts = tally.interrupts := by
  induction h with
  | limited =>
    obtain rfl := Except.ok.inj hr
    exact ⟨nofun, rfl⟩
  | faulted => cases hr
  | hlt =>
    obtain rfl := Except.ok.inj hr
    exact ⟨nofun, rfl⟩
  | stepped _ _ _ _ ih => exact ih hr

/-- A program that plays was not refused before. -/
theorem Plays.not_refused (h : Plays limit tally cpu calls result out) :
    (∃ outcome, result = .ok outcome) ∨ ∃ pc fault, result = .error (.execution pc fault) := by
  induction h with
  | limited | hlt => exact .inl ⟨_, rfl⟩
  | faulted => exact .inr ⟨_, _, rfl⟩
  | stepped _ _ _ _ ih => exact ih

/-- Processors that are akin play alike. -/
theorem Plays.akin (h : Plays limit tally cpu calls result out) (ha : cpu.Akin cpu') :
    Plays limit tally cpu' calls result out := by
  induction h generalizing cpu' with
  | limited hl hn => exact .limited hl hn
  | faulted hl hs =>
    obtain ⟨c, hs', hc⟩ := ha.step hs
    rw [← hc.core.registers]
    exact .faulted hl hs'
  | hlt hl hop hs =>
    obtain ⟨c, hs', -⟩ := ha.step hs
    exact .hlt hl (ha.atHlt.mpr hop) hs'
  | stepped hl hop hs _ ih =>
    obtain ⟨c, hs', hc⟩ := ha.step hs
    exact .stepped hl (mt ha.atHlt.mp hop) hs' (ih hc)

/-- What an instruction leaves that did not fault. -/
theorem step_halted_iff {β : Type} {bus : Bus β} {b b' : β} {cost : Nat} {es : List Emission}
    (hl : cpu.latch = none) (hh : cpu.core.halted = false)
    (hs : cpu.step bus b = ⟨.ok cost, cpu', b', es⟩) :
    cpu'.latch = none ∧ (cpu'.core.halted = true ↔ cpu.AtHlt) := by
  have h := Cpu.step_stepped bus cpu b
  rw [hs] at h
  cases h with
  | idle _ hh' => exact absurd (hh.symm.trans hh') nofun
  | executed _ _ hc =>
    refine ⟨rfl, ?_⟩
    rw [hc.halted, Cpu.AtHlt]
    simp [hh]

/-! ### Rounds that no signal reaches -/

section

variable {β : Type} {bus : Bus β} {t : Session β} {c : Cpu} {b : β} {es : List Emission}
  (hm : t.mailbox.Deserted)
include hm

theorem round_of_halted (bus : Bus β) (limit : Option Nat) (hh : t.cpu.core.halted = true) :
    ∃ u, t.round bus limit = (.stopped .halted, u) ∧ u.tally = t.tally ∧
      u.device = t.device := by
  have hsolo := round_solo bus limit hm
  rcases hr : t.round bus limit with ⟨q, u⟩
  rw [hr] at hsolo
  cases hsolo with
  | halted _ _ hd ht => exact ⟨u, rfl, ht, hd⟩
  | limited hh' | stepped hh' | faulted hh' => simp [hh] at hh'

theorem round_of_limited (bus : Bus β) (hh : t.cpu.core.halted = false) {n : Nat}
    (hl : limit = some n) (hn : n ≤ t.tally.instructions) :
    ∃ u, t.round bus limit = (.stopped .instructionLimit, u) ∧ u.tally = t.tally ∧
      u.device = t.device := by
  have hsolo := round_solo bus limit hm
  rcases hr : t.round bus limit with ⟨q, u⟩
  rw [hr] at hsolo
  cases hsolo with
  | halted hh' => simp [hh] at hh'
  | limited _ _ _ _ hd ht => exact ⟨u, rfl, ht, hd⟩
  | stepped _ hl' | faulted _ hl' => exact absurd (hl' n hl) (Nat.not_lt_of_le hn)

theorem round_of_faulted (hh : t.cpu.core.halted = false) (hl : t.tally.Below limit)
    {fault : Fault} (hs : t.cpu.step bus t.device = ⟨.error fault, c, b, es⟩) :
    ∃ u, t.round bus limit = (.faulted fault, u) ∧ u.cpu = c ∧ u.device = b := by
  have hsolo := round_solo bus limit hm
  rcases hr : t.round bus limit with ⟨q, u⟩
  rw [hr] at hsolo
  cases hsolo with
  | halted hh' => simp [hh] at hh'
  | limited _ hl' hn => exact absurd (hl _ hl') (Nat.not_lt_of_le hn)
  | stepped _ _ hs' =>
    rw [hs] at hs'
    cases hs'
  | faulted _ _ hs' =>
    rw [hs] at hs'
    cases hs'
    exact ⟨u, rfl, rfl, rfl⟩

theorem round_of_stepped (hh : t.cpu.core.halted = false) (hl : t.tally.Below limit)
    {cost : Nat} (hs : t.cpu.step bus t.device = ⟨.ok cost, c, b, es⟩) :
    ∃ u, t.round bus limit = (.running, u) ∧ u.cpu = c ∧ u.device = b ∧
      u.tally = t.tally.addInstruction cost ∧ u.mailbox.Deserted := by
  have hsolo := round_solo bus limit hm
  rcases hr : t.round bus limit with ⟨q, u⟩
  rw [hr] at hsolo
  cases hsolo with
  | halted hh' => simp [hh] at hh'
  | limited _ hl' hn => exact absurd (hl _ hl') (Nat.not_lt_of_le hn)
  | stepped _ _ hs' ht hm' =>
    rw [hs] at hs'
    cases hs'
    exact ⟨u, rfl, rfl, rfl, ht, hm'⟩
  | faulted _ _ hs' =>
    rw [hs] at hs'
    cases hs'

end

/-! ### Runs that no signal reaches -/

/-- A session in front of an instruction, which no signal can reach. -/
structure Unreached {β : Type} (t : Session β) : Prop where
  deserted : t.mailbox.Deserted
  unlatched : t.cpu.latch = none
  awake : t.cpu.core.halted = false

theorem Plays.ends {t : Session (Unit × List PortCall)} (ht : Unreached t)
    (h : Plays limit t.tally t.cpu t.device.2 result out) :
    ∃ p u, Ends Bus.null.recorded limit t p u ∧ amount? p u = some result ∧
      outputs u.device.2 = out := by
  generalize htally : t.tally = tally at h
  generalize hcpu : t.cpu = cpu at h
  generalize hcalls : t.device.2 = calls at h
  have hdevice : t.device = ((), calls) := by rw [← hcalls]
  induction h generalizing t with
  | limited hl hn =>
    obtain ⟨u, hr, hu, hd⟩ :=
      round_of_limited ht.deserted Bus.null.recorded ht.awake hl (htally ▸ hn)
    refine ⟨_, u, .last hr nofun, ?_, ?_⟩
    · rw [amount?, hu, htally]
    · rw [hd, hdevice]
  | @faulted _ _ _ fault c calls' es hl hs =>
    subst htally hcpu
    rw [← hdevice] at hs
    obtain ⟨u, hr, hc, hd⟩ := round_of_faulted ht.deserted ht.awake hl hs
    refine ⟨_, u, .last hr nofun, ?_, ?_⟩
    · rw [amount?, hc]
    · rw [hd]
  | hlt hl hop hs =>
    subst htally hcpu
    rw [← hdevice] at hs
    -- One round carries out the HLT, and another one finds the processor halted.
    obtain ⟨t', hr, hc, hd, htally', hm⟩ := round_of_stepped ht.deserted ht.awake hl hs
    have hhalted := (step_halted_iff ht.unlatched ht.awake hs).2.mpr hop
    rw [← hc] at hhalted
    obtain ⟨u, hr', hu, hd'⟩ := round_of_halted hm Bus.null.recorded limit hhalted
    refine ⟨_, u, .more hr (.last hr' nofun), ?_, ?_⟩
    · rw [amount?, hu, htally']
    · rw [hd', hd]
  | stepped hl hop hs _ ih =>
    subst htally hcpu
    rw [← hdevice] at hs
    obtain ⟨t', hr, hc, hd, htally', hm⟩ := round_of_stepped ht.deserted ht.awake hl hs
    obtain ⟨hunlatched, hhalted⟩ := step_halted_iff ht.unlatched ht.awake hs
    have hawake := Bool.not_eq_true _ ▸ mt hhalted.mp hop
    rw [← hc] at hunlatched hawake
    obtain ⟨p, u, hu, hamount, hout⟩ :=
      ih ⟨hm, hunlatched, hawake⟩ htally' hc (by rw [hd]) hd
    exact ⟨p, u, .more hr hu, hamount, hout⟩

theorem plays_of_ends {t u : Session (Unit × List PortCall)} (ht : Unreached t)
    (he : Ends Bus.null.recorded limit t p u) :
    ∃ result, amount? p u = some result ∧
      Plays limit t.tally t.cpu t.device.2 result (outputs u.device.2) := by
  induction he with
  | @last t p u hr hp =>
    have hsolo := round_solo Bus.null.recorded limit ht.deserted
    rw [hr] at hsolo
    cases hsolo with
    | halted hh => exact absurd (ht.awake.symm.trans hh) nofun
    | limited _ hl hn _ hd hcount =>
      refine ⟨_, rfl, ?_⟩
      rw [hd, hcount]
      exact .limited hl hn
    | stepped => exact absurd rfl hp
    | faulted _ hl hs => exact ⟨_, rfl, .faulted hl hs⟩
  | @more t t' p u hr he ih =>
    have hsolo := round_solo Bus.null.recorded limit ht.deserted
    rw [hr] at hsolo
    cases hsolo with
    | stepped _ hl hs hcount hm =>
      obtain ⟨hunlatched, hhalted⟩ := step_halted_iff ht.unlatched ht.awake hs
      by_cases hop : t.cpu.AtHlt
      · obtain ⟨v, hr', hv, hd⟩ :=
          round_of_halted hm Bus.null.recorded limit (hhalted.mpr hop)
        obtain ⟨rfl, rfl⟩ := (ends_iff_of_ne_running hr' nofun).mp he
        refine ⟨_, rfl, ?_⟩
        rw [hd, hv, hcount]
        exact .hlt hl hop hs
      · have hawake := Bool.not_eq_true _ ▸ mt hhalted.mp hop
        obtain ⟨result, hamount, hplays⟩ := ih ⟨hm, hunlatched, hawake⟩
        rw [hcount] at hplays
        exact ⟨result, hamount, .stepped hl hop hs hplays⟩

end Runner

end Intel8080
