import Intel8080.Proofs.Cpu.Ports
import Intel8080.Proofs.Session.Turn
import Intel8080.Proofs.Session.Underway

/-! The port traffic of a processor, from when it is new or reset. Over any sequence of steps,
interrupts and runs the calls on the bus are those of the INs and OUTs that were executed, in this
order, and the bus latches show the last of them. -/

namespace Intel8080

open Mailbox

namespace Session

variable {β : Type}

/-- What the next round executes, as the processor before and after it. -/
def executes (bus : Bus β) (limit : Option Nat) (s : Session β) : List (Cpu × Cpu) :=
  match s.poll.turn limit with
  | .execute => s.cpu.executes bus s.device
  | _ => []

/-- The boundaries of a run that began in `s`, with what it has executed. -/
inductive Executed (bus : Bus β) (limit : Option Nat) (s : Session β) :
    List (Cpu × Cpu) → Session β → Prop
  | start : Executed bus limit s [] s.start
  | traffic {xs t m} (h : Executed bus limit s xs t) (hm : Traffic t.mailbox m) :
      Executed bus limit s xs { t with mailbox := m }
  | round {xs t t' p} (h : Executed bus limit s xs t) (hr : t.round bus limit = (p, t'))
      (hp : p = .running ∨ p = .blocked) : Executed bus limit s (xs ++ t.executes bus limit) t'

variable {bus : Bus β} {limit : Option Nat} {s t u : Session β} {xs : List (Cpu × Cpu)}
  {ys : List Signal}

theorem Underway.executed (h : Underway bus limit s ys t) : ∃ xs, Executed bus limit s xs t := by
  induction h with
  | start => exact ⟨_, .start⟩
  | traffic _ hm ih =>
    obtain ⟨xs, hx⟩ := ih
    exact ⟨_, hx.traffic hm⟩
  | running _ hr ih =>
    obtain ⟨xs, hx⟩ := ih
    exact ⟨_, hx.round hr (.inl rfl)⟩
  | blocked _ hr ih =>
    obtain ⟨xs, hx⟩ := ih
    exact ⟨_, hx.round hr (.inr rfl)⟩

/-! ### One round -/

theorem await_frame (s : Session β) :
    s.await.2.cpu = s.cpu ∧ s.await.2.device = s.device ∧ s.await.2.tally = s.tally := by
  unfold await
  split
  · split <;> exact ⟨rfl, rfl, rfl⟩
  · exact ⟨rfl, rfl, rfl⟩

theorem executes_of_turn {x : Turn} (hx : s.poll.turn limit = x) (hne : x ≠ .execute) :
    s.executes bus limit = [] := by
  rw [executes, hx]
  cases x <;> first | rfl | exact absurd rfl hne

theorem executes_of_execute (hx : s.poll.turn limit = .execute) :
    s.executes bus limit = s.cpu.executes bus s.device := by
  rw [executes, hx]

/-- A round without an instruction leaves the device alone, and so do its interrupts. -/
theorem round_of_ne_execute (bus : Bus β) (hne : s.poll.turn limit ≠ .execute) :
    (s.round bus limit).2.device = s.device ∧
      Core.SameBuses s.cpu.core (s.round bus limit).2.cpu.core ∧
      (s.round bus limit).2.tally.instructions = s.tally.instructions := by
  rw [round_eq_act]
  generalize s.poll.turn limit = x at hne
  cases x with
  | powerOff | limit => exact ⟨rfl, ⟨rfl, rfl⟩, rfl⟩
  | rest =>
    obtain ⟨hc, hd, ht⟩ := s.poll.await_frame
    rw [act, hc, hd, ht]
    exact ⟨rfl, ⟨rfl, rfl⟩, rfl⟩
  | service code =>
    obtain ⟨hbus, hbuses⟩ := Cpu.interrupt_portless bus code s.cpu s.device
    have hcall : s.poll.withdraw.interrupt bus code =
        ((s.cpu.interrupt bus code s.device).result,
          s.poll.withdraw.after (s.cpu.interrupt bus code s.device)) := apply_eq _ _
    have hcpu := s.poll.withdraw.after_cpu (s.cpu.interrupt bus code s.device)
    have hdevice := s.poll.withdraw.after_device (s.cpu.interrupt bus code s.device)
    have hcount : (s.poll.withdraw.after (s.cpu.interrupt bus code s.device)).tally.instructions =
        s.tally.instructions := congrArg Tally.instructions (after_tally _ _)
    rw [act, hcall]
    rw [← hcpu] at hbuses
    split
    next hr =>
      obtain ⟨-, rfl⟩ := Prod.mk.inj hr
      exact ⟨hdevice.trans hbus, hbuses, hcount⟩
    next hr =>
      obtain ⟨-, rfl⟩ := Prod.mk.inj hr
      exact ⟨hdevice.trans hbus, hbuses, hcount⟩
  | execute => exact absurd rfl hne

/-- A round that executes does to processor and device what the step does. -/
theorem round_of_step (bus : Bus β) (hx : s.poll.turn limit = .execute) :
    (s.round bus limit).2.cpu = (s.cpu.step bus s.device).cpu ∧
      (s.round bus limit).2.device = (s.cpu.step bus s.device).bus ∧
      (s.round bus limit).2.tally.instructions =
        s.tally.instructions + (s.cpu.executes bus s.device).length := by
  have hcpu := s.poll.after_cpu (s.cpu.step bus s.device)
  have hdevice := s.poll.after_device (s.cpu.step bus s.device)
  have htally := congrArg Tally.instructions (s.poll.after_tally (s.cpu.step bus s.device))
  have hawake : s.cpu.core.halted = false := by
    have hd := turn_decided limit s.poll
    rw [hx] at hd
    cases hd with
    | execute _ hh => exact hh
  rw [round_of_execute hx, Cpu.executes, hawake, if_neg nofun]
  cases (s.cpu.step bus s.device).result with
  | ok cost => exact ⟨hcpu, hdevice, rfl⟩
  | error fault => exact ⟨hcpu, hdevice, htally⟩

theorem round_instructions (bus : Bus β) (limit : Option Nat) (s : Session β) :
    (s.round bus limit).2.tally.instructions =
      s.tally.instructions + (s.executes bus limit).length := by
  by_cases hx : s.poll.turn limit = .execute
  · rw [executes_of_execute hx]
    exact (round_of_step bus hx).2.2
  · rw [executes_of_turn rfl hx]
    exact (round_of_ne_execute bus hx).2.2

/-- A round uses a port if it executes an IN or an OUT, and the bus latches show it. -/
theorem round_ports (bus : Bus β) (limit : Option Nat) {s : Session (β × List PortCall)}
    (h : s.cpu.core.Shows s.device.2) :
    (s.round bus.recorded limit).2.device.2 =
        s.device.2 ++ Cpu.portCalls (s.executes bus.recorded limit) ∧
      (s.round bus.recorded limit).2.cpu.core.Shows (s.round bus.recorded limit).2.device.2 := by
  by_cases hx : s.poll.turn limit = .execute
  · obtain ⟨hcpu, hdevice, -⟩ := round_of_step bus.recorded hx
    rw [hcpu, hdevice, executes_of_execute hx]
    exact Cpu.step_ports bus h
  · obtain ⟨hdevice, hbuses, -⟩ := round_of_ne_execute bus.recorded hx
    rw [hdevice, executes_of_turn rfl hx]
    exact ⟨(List.append_nil _).symm, h.of_sameBuses hbuses⟩

/-! ### Runs -/

theorem Executed.length_eq (h : Executed bus limit s xs t) :
    xs.length = t.tally.instructions := by
  induction h with
  | start => rfl
  | traffic _ _ ih => exact ih
  | @round xs t t' p _ hr _ ih =>
    have hcount := round_instructions bus limit t
    rw [hr] at hcount
    rw [List.length_append, ih, hcount]

theorem Executed.ports {bus : Bus β} {s t : Session (β × List PortCall)}
    (h : Executed bus.recorded limit s xs t) (hs : s.cpu.core.Shows s.device.2) :
    t.device.2 = s.device.2 ++ Cpu.portCalls xs ∧ t.cpu.core.Shows t.device.2 := by
  induction h with
  | start => exact ⟨(List.append_nil _).symm, hs⟩
  | traffic _ _ ih => exact ih
  | @round xs t t' p _ hr _ ih =>
    obtain ⟨hcalls, hshows⟩ := ih
    have hround := round_ports bus limit hshows
    rw [hr] at hround
    refine ⟨hround.1.trans ?_, hround.2⟩
    rw [hcalls, Cpu.portCalls_append, List.append_assoc]

end Session

namespace Cpu

/-- What a processor has executed since it was new or reset, and the calls that it has made on the
bus. Each step, interrupt and run may find another bus, which goes on with the record. -/
inductive Ported : List (Cpu × Cpu) → List PortCall → Cpu → Prop
  | new {config cpu} (h : ofConfig config = .ok cpu) : Ported [] [] cpu
  | reset (cpu : Cpu) : Ported [] [] cpu.reset
  | load {xs calls cpu cpu' offset program} (h : Ported xs calls cpu)
      (hok : cpu.load offset program = .ok cpu') : Ported xs calls cpu'
  | step {xs calls cpu} (h : Ported xs calls cpu) {β : Type} (bus : Bus β) (b : β) :
      Ported (xs ++ cpu.executes bus.recorded (b, calls)) (cpu.step bus.recorded (b, calls)).bus.2
        (cpu.step bus.recorded (b, calls)).cpu
  | interrupt {xs calls cpu} (h : Ported xs calls cpu) {β : Type} (bus : Bus β) (code : Byte)
      (b : β) :
      Ported xs (cpu.interrupt bus.recorded code (b, calls)).bus.2
        (cpu.interrupt bus.recorded code (b, calls)).cpu
  /-- A run up to some round, be it the last one or not. -/
  | run {xs ys} {β : Type} {bus : Bus β} {limit : Option Nat} {s t : Session (β × List PortCall)}
      (h : Ported xs s.device.2 s.cpu) (hr : s.Executed bus.recorded limit ys t) :
      Ported (xs ++ (ys ++ t.executes bus.recorded limit))
        (t.round bus.recorded limit).2.device.2 (t.round bus.recorded limit).2.cpu

variable {xs : List (Cpu × Cpu)} {calls : List PortCall} {cpu : Cpu}

theorem Ported.shows (h : Ported xs calls cpu) :
    calls = portCalls xs ∧ cpu.core.Shows calls := by
  induction h with
  | new h =>
    rw [← (ofConfig_reset h).1]
    exact ⟨rfl, Core.initial_shows _⟩
  | reset => exact ⟨rfl, Core.initial_shows _⟩
  | load _ hok ih =>
    obtain ⟨memory, rfl⟩ := load_eq hok
    exact ⟨ih.1, ih.2.of_sameBuses ⟨rfl, rfl⟩⟩
  | @step xs calls cpu _ β bus b ih =>
    obtain ⟨hcalls, hshows⟩ := step_ports (x := (b, calls)) bus ih.2
    refine ⟨hcalls.trans ?_, hshows⟩
    rw [portCalls_append, ← ih.1]
  | @interrupt xs calls cpu _ β bus code b ih =>
    obtain ⟨hbus, hbuses⟩ := interrupt_portless bus.recorded code cpu (b, calls)
    rw [hbus]
    exact ⟨ih.1, ih.2.of_sameBuses hbuses⟩
  | @run xs ys β bus limit s t _ hr ih =>
    obtain ⟨hcalls, hshows⟩ := hr.ports ih.2
    obtain ⟨hround, hshows'⟩ := Session.round_ports bus limit hshows
    refine ⟨hround.trans ?_, hshows'⟩
    rw [hcalls, portCalls_append, portCalls_append, ← ih.1, List.append_assoc]

/-- However a run returns, it is part of such a history, with the instructions that it counted. -/
theorem Ported.returns {β : Type} {bus : Bus β} {limit : Option Nat}
    {s u : Session (β × List PortCall)} {ys : List Signal} {p : Progress}
    (h : Ported xs s.device.2 s.cpu) (hr : s.Returns bus.recorded limit ys p u) :
    ∃ zs, Ported (xs ++ zs) u.device.2 u.cpu ∧ zs.length = u.tally.instructions := by
  cases hr with
  | @stopped _ t _ _ hu hr | @faulted _ t _ _ hu hr =>
    obtain ⟨zs, hz⟩ := hu.executed
    have hrun := h.run hz
    have hcount := Session.round_instructions bus.recorded limit t
    rw [hr] at hrun hcount
    refine ⟨_, hrun, ?_⟩
    rw [List.length_append, hz.length_eq, hcount]

/-- The port traffic of a history. -/
structure Wired (xs : List (Cpu × Cpu)) (calls : List PortCall) (cpu : Cpu) : Prop where
  /-- An IN reads its port into the accumulator, an OUT writes the accumulator to its port, and
  there are no other calls. -/
  traffic : calls = portCalls xs
  addressBus : cpu.core.addressBus.toNat =
    (calls.getLast?.map fun x => x.port.toNat * 257).getD 0
  dataBus : cpu.core.dataBus = (calls.getLast?.map PortCall.value).getD 0
  halves : Word.high cpu.core.addressBus = Word.low cpu.core.addressBus
  faults : ∀ {β : Type} (bus : Bus β) (b : β) (fault : Fault),
    (cpu.step bus.recorded (b, calls)).result = .error fault →
    (cpu.step bus.recorded (b, calls)).bus.2 = calls
  interrupts : ∀ {β : Type} (bus : Bus β) (code : Byte) (b : β),
    (cpu.interrupt bus.recorded code (b, calls)).bus.2 = calls
  /-- Runs that return make no other histories. -/
  runs : ∀ {β : Type} (bus : Bus β) (limit : Option Nat) (s u : Session (β × List PortCall))
    (ys : List Signal) (p : Progress), s.cpu = cpu → s.device.2 = calls →
    s.Returns bus.recorded limit ys p u →
    ∃ zs, Ported (xs ++ zs) u.device.2 u.cpu ∧ zs.length = u.tally.instructions

/-- Every history of a processor has the port traffic of its INs and OUTs. -/
theorem ported_wired (h : Ported xs calls cpu) : Wired xs calls cpu := by
  obtain ⟨hcalls, hshows⟩ := h.shows
  obtain ⟨haddress, hhalves⟩ := hshows.addressBus_toNat
  refine ⟨hcalls, haddress, hshows.dataBus, hhalves, fun bus b fault hf => ?_,
    fun bus code b => ?_, ?_⟩
  · have hstep := (step_ports (x := (b, calls)) bus hshows).1
    rw [executes, hf, ite_self] at hstep
    exact hstep.trans (List.append_nil _)
  · rw [(interrupt_portless bus.recorded code cpu (b, calls)).1]
  · rintro β bus limit s u ys p rfl rfl hr
    exact h.returns hr

/-- A device that answers every read alike. -/
def sevens : Bus Unit where
  read _ _ := (7, (), [])
  write _ _ _ := ((), [])

/-- A processor in front of an IN and an OUT. -/
def beforePorts : Cpu where
  core := Core.initial { memorySize := 4 }
  memory := ⟨#[0xDB, 0x10, 0xD3, 0x20], by decide, by decide⟩
  latch := none
  config := { memorySize := 4 }

/-- It has executed the IN. -/
def betweenPorts : Cpu :=
  { beforePorts with
    core := { beforePorts.core with
      registers := { a := 7, pc := 2 }, addressBus := 0x1010, dataBus := 7 } }

/-- A run that is to execute the OUT. -/
def goingOut : Session (Unit × List PortCall) where
  cpu := betweenPorts
  device := ((), [.read 0x10 7])

/-- A step reads the port, and a run writes what was read to the other one. -/
theorem ported_wired_in_out :
    ∃ xs cpu, Ported xs [.read 0x10 7, .write 0x20 7] cpu ∧
      Wired xs [.read 0x10 7, .write 0x20 7] cpu ∧ cpu.core.addressBus = 0x2020 ∧
      cpu.core.dataBus = 7 := by
  have hread := (Ported.reset beforePorts).step sevens ()
  have hcalls : (beforePorts.reset.step sevens.recorded ((), [])).bus.2 = [.read 0x10 7] := rfl
  have hcpu : (beforePorts.reset.step sevens.recorded ((), [])).cpu = betweenPorts := rfl
  rw [hcalls, hcpu] at hread
  have hrun : goingOut.Executed sevens.recorded none [] goingOut.start := .start
  have hwritten := Ported.run (s := goingOut) hread hrun
  have hcalls' : (goingOut.start.round sevens.recorded none).2.device.2 =
      [.read 0x10 7, .write 0x20 7] := rfl
  rw [hcalls'] at hwritten
  exact ⟨_, _, hwritten, ported_wired hwritten, rfl, rfl⟩

end Cpu

end Intel8080
