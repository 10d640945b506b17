import Intel8080.Proofs.Cpu.Aftermath
import Intel8080.Proofs.Runner.Preparation
import Intel8080.Proofs.Session.StopReasons

/-! The address with which a failed run is reported. It is where the program counter stands after
the fault, whereas the latch tells where the instruction starts that raised it. Both are the same
as long as the instruction is not executed yet; then the program counter is behind it. -/

namespace Intel8080

/-- What the processor was about when a fault was raised. -/
inductive Phase where
  | fetch | execution | interrupt
  deriving DecidableEq

namespace Operation

theorem add_length_ne (op : Operation) (pc : Word) : pc + op.length ≠ pc := by
  intro h
  have hzero : op.length = 0 := by simpa using h
  rw [length] at hzero
  cases hi : op.immediate <;> rw [hi] at hzero <;> cases hzero

end Operation

namespace Cpu

variable {cpu : Cpu} {m : Mailbox} {f : Fault} {phase : Phase}

/-- What a step demands once the instruction is fetched. -/
def dataDemands (cpu : Cpu) : List Demand :=
  let r := cpu.core.registers
  let op := Operation.decode (cpu.memory.peek r.pc)
  (op.dataAddresses (op.immediateAt cpu.memory.peek r.pc) r cpu.core.flags).map .access

theorem demands_eq_append (cpu : Cpu) : cpu.demands = cpu.fetchDemands ++ cpu.dataDemands := by
  simp only [demands, fetchDemands, dataDemands, List.map_append, List.cons_append]

/-- The fault that the first demand raises which is not met, if there is one. -/
def refusal? (cpu : Cpu) (ds : List Demand) : Option Fault :=
  ds.findSome? (Demand.refusal? cpu.config cpu.memory.size)

/-- The phase in which a fault is raised at a boundary, where the mailbox is `m`. -/
inductive RaisedIn (cpu : Cpu) (m : Mailbox) (f : Fault) : Phase → Prop
  | fetch (hd : cpu.refusal? cpu.fetchDemands = some f) : RaisedIn cpu m f .fetch
  | execution (hf : cpu.refusal? cpu.fetchDemands = none)
      (hd : cpu.refusal? cpu.dataDemands = some f) : RaisedIn cpu m f .execution
  | interrupt {code : Byte} (ha : cpu.acceptsInterrupts = true)
      (hp : m.poll.1.pending = some code)
      (hd : cpu.refusal? (cpu.interruptDemands code) = some f) : RaisedIn cpu m f .interrupt

/-- How far the program counter has come in a phase. -/
def pcIn (cpu : Cpu) : Phase → Word
  | .fetch | .interrupt => cpu.core.registers.pc
  | .execution =>
    let pc := cpu.core.registers.pc
    pc + (Operation.decode (cpu.memory.peek pc)).length

/-- Only an execution has moved the program counter. -/
theorem pcIn_eq_iff (cpu : Cpu) : cpu.pcIn phase = cpu.core.registers.pc ↔ phase ≠ .execution := by
  cases phase with
  | fetch | interrupt => exact ⟨fun _ => nofun, fun _ => rfl⟩
  | execution => exact ⟨fun h => absurd h (Operation.add_length_ne _ _), fun h => absurd rfl h⟩

end Cpu

namespace Session

variable {β : Type} {bus : Bus β} {limit : Option Nat} {s t u : Session β} {f : Fault}
  {xs : List Signal}

/-- What a fault tells about the boundary `t` before it. -/
structure Blamed (t u : Session β) (f : Fault) (phase : Phase) : Prop where
  raised : t.cpu.RaisedIn t.mailbox f phase
  latch : u.cpu.latch = some ⟨f, t.cpu.core.registers.pc⟩
  pc : u.cpu.core.registers.pc = t.cpu.pcIn phase

theorem Rounded.blamed (h : Rounded bus limit t (.faulted f) u) (hl : t.cpu.latch = none) :
    ∃ phase, Blamed t u f phase := by
  cases h with
  | serviceFaulted _ ha hp hr hc =>
    have hi := Cpu.interrupt_faulted bus ha hr
    have hd := (Cpu.interrupt_eq_error_iff ha).mp hr
    refine ⟨.interrupt, .interrupt ha hp hd, ?_, ?_⟩
    · rw [hc, hi.latch]
    · rw [hc, hi.core]
      rfl
  | stepFaulted _ hh _ hr hc =>
    have hs := Cpu.step_faulted bus hl hr
    have hd := (Cpu.step_eq_error_iff hl hh).mp hr
    rw [Cpu.demands_eq_append, List.findSome?_append] at hd
    have hlatch : u.cpu.latch = some ⟨f, t.cpu.core.registers.pc⟩ := by rw [hc, hs.latch]
    rcases hs.phase with ⟨hfetch, hcore, -⟩ | ⟨hfetch, hpc, -⟩
    · refine ⟨.fetch, .fetch hfetch, hlatch, ?_⟩
      rw [hc, hcore]
      rfl
    · rw [hfetch, Option.none_or] at hd
      refine ⟨.execution, .execution hfetch hd, hlatch, ?_⟩
      rw [hc, hpc]
      rfl

theorem Returns.blamed (h : Returns bus limit s xs (.faulted f) u) (hs : s.cpu.SoundAsleep)
    (hl : s.cpu.latch = none) (hm : Mailbox.Received [] s.mailbox) :
    ∃ ys t phase, Underway bus limit s ys t ∧ Blamed t u f phase := by
  cases h with
  | @faulted ys t _ _ ht hr =>
    obtain ⟨phase, hb⟩ := (rounded_of_round hr).blamed (ht.ready hs hl hm).unlatched
    exact ⟨ys, t, phase, ht, hb⟩

end Session

namespace Runner

open Session

variable {program : Array Byte} {o : RunOptions} {u : Session Sink} {f : Fault}

/-- The run of the program can end in the fault, whatever the timer does meanwhile. -/
def Fails (program : Array Byte) (o : RunOptions) (f : Fault) (u : Session Sink) : Prop :=
  ∃ s xs, prepare program o = .ok s ∧ Returns Console.bus o.limit s xs (.faulted f) u

theorem tick_traffic (timer : Option Timer) (t t' : Session Sink)
    (h : timer.map (tick · t) = some t') :
    ∃ m, Relation.ReflTransGen Mailbox.Traffic t.mailbox m ∧ t' = { t with mailbox := m } := by
  cases timer with
  | none => cases h
  | some x =>
    obtain rfl := Option.some.inj h
    exact ⟨_, .single (.send _ _), rfl⟩

/-- A report of a fault comes from a run that ends in it. -/
theorem fails_of_run? {n : Nat} {report : Report} {pc : Word}
    (h : run? program o n = some report) (hr : report.result = .error (.execution pc f)) :
    ∃ u, Fails program o f u ∧ u.cpu.core.registers.pc = pc := by
  unfold run? at h
  cases hs : prepare program o with
  | error failure =>
    have hp := prepare_preparation program o
    rw [hs] at h hp
    obtain rfl := Option.some.inj h
    cases hp <;> cases hr
  | ok s =>
    have hready := ready_of_prepare hs
    rw [hs] at h
    have hstart : Underway Console.bus o.limit s [] s.start := .start
    obtain ⟨ys, hrun⟩ := rounds_underway_or_returns (fun s => o.timer.map (tick · s))
      (tick_traffic o.timer) n hstart
    rw [hready.start, ← rounds] at hrun
    dsimp only at h
    generalize rounds o n s = r at h hrun
    obtain ⟨p, u⟩ := r
    cases p with
    | running | blocked => cases h
    | stopped reason =>
      obtain rfl := Option.some.inj h
      cases hr
    | faulted fault =>
      obtain rfl := Option.some.inj h
      obtain ⟨rfl, rfl⟩ := RunFailure.execution.inj (Except.error.inj hr)
      obtain ⟨hgoes | hgoes, -⟩ | hret := hrun
      · cases hgoes
      · cases hgoes
      · exact ⟨u, ⟨s, ys, hs, hret⟩, rfl⟩

/-- A run that fails reports how far the program counter has come. Unless the instruction was being
executed, this is the address that the fault is latched with. -/
theorem reported_address (program : Array Byte) (o : RunOptions) :
    (∀ f u, Fails program o f u →
      ∃ s xs t phase, prepare program o = .ok s ∧ Underway Console.bus o.limit s xs t ∧
        Blamed t u f phase ∧
        conclude? (.faulted f) u = some (.error (.execution (t.cpu.pcIn phase) f), u) ∧
        (RunFailure.execution (t.cpu.pcIn phase) f).message =
          "CPU stopped at PC=0x" ++ Word.hex (t.cpu.pcIn phase) ++ ": " ++ f.message ∧
        (u.cpu.latch = some ⟨f, t.cpu.pcIn phase⟩ ↔ phase ≠ .execution)) ∧
      ∀ n report pc f, run? program o n = some report →
        report.result = .error (.execution pc f) →
        ∃ u, Fails program o f u ∧ u.cpu.core.registers.pc = pc := by
  refine ⟨fun f u h => ?_, fun n report pc f => fails_of_run?⟩
  obtain ⟨s, xs, hs, hret⟩ := h
  have hready := ready_of_prepare hs
  obtain ⟨ys, t, phase, ht, hb⟩ :=
    hret.blamed hready.reachable.soundAsleep hready.fresh.latch hready.received
  refine ⟨s, ys, t, phase, hs, ht, hb, ?_, rfl, ?_⟩
  · rw [conclude?, hb.pc]
  · rw [hb.latch, ← t.cpu.pcIn_eq_iff, Option.some.injEq, Latch.mk.injEq]
    exact ⟨fun h => h.2.symm, fun h => ⟨rfl, h.symm⟩⟩

/-- A loader of the byte at 4000 hex, in too little memory for it. -/
def farLoad : Session Sink where
  cpu :=
    { core := Core.initial {}
      memory := ⟨#[0x3A, 0x00, 0x40, 0x00], by decide, by decide⟩
      latch := none
      config := { memorySize := 4 } }
  device := {}
  mailbox := { senders := 0 }
  log := #[.loaded 3 0]

theorem prepare_farLoad : prepare #[0x3A, 0x00, 0x40] { memorySize := 4 } = .ok farLoad := rfl

theorem farLoad_returns :
    Returns Console.bus none farLoad [] (.faulted (.addressOutOfRange 0x4000 4))
      (farLoad.start.round Console.bus none).2 := .faulted .start rfl

/-- The instruction starts at zero and is three bytes long. -/
theorem reported_address_far_load :
    ∃ t u, Fails #[0x3A, 0x00, 0x40] { memorySize := 4 } (.addressOutOfRange 0x4000 4) u ∧
      Blamed t u (.addressOutOfRange 0x4000 4) .execution ∧
      u.cpu.latch = some ⟨.addressOutOfRange 0x4000 4, 0⟩ ∧
      conclude? (.faulted (.addressOutOfRange 0x4000 4)) u =
        some (.error (.execution 3 (.addressOutOfRange 0x4000 4)), u) := by
  obtain ⟨-, -, t, phase, -, -, hb, hpc, -, hiff⟩ :=
    (reported_address _ { memorySize := 4 }).1 _ _ ⟨_, _, prepare_farLoad, farLoad_returns⟩
  have hthree : t.cpu.pcIn phase = 3 := by
    rw [← hb.pc]
    rfl
  have hphase : phase = .execution := by
    by_contra hn
    have hlatch := hiff.mpr hn
    rw [hthree] at hlatch
    cases hlatch
  subst hphase
  exact ⟨t, _, ⟨_, _, prepare_farLoad, farLoad_returns⟩, hb, rfl, rfl⟩

/-- So the reported address is not always the one that the fault is latched with. -/
theorem reported_address_not_latched :
    ¬ ∀ program o f u, Fails program o f u →
      u.cpu.latch = some ⟨f, u.cpu.core.registers.pc⟩ := by
  intro h
  have hlatch := h _ { memorySize := 4 } _ _ ⟨_, _, prepare_farLoad, farLoad_returns⟩
  cases hlatch

end Runner

end Intel8080
