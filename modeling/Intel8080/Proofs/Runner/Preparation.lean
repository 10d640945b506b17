import Intel8080.Proofs.Session.Reachable
import Intel8080.Runner

/-! How a program gets started: the processor cannot be built, or the program does not fit in its
memory, or everything is reset and zeroed but for the program and the program counter. -/

namespace Intel8080

/-- Zeroes, the program at its offset, and zeroes up to the given size. -/
def programImage (offset : Nat) (program : List Byte) (size : Nat) : List Byte :=
  List.replicate offset 0 ++ program ++ List.replicate (size - (offset + program.length)) 0

theorem Memory.load_zeroed {n : Nat} {m : Memory} (hm : Memory.ofSize n = .ok m) (offset : Word)
    (program : Array Byte) (h : offset.toNat + program.size ≤ n) :
    ∃ m', m.load offset program = .ok m' ∧
      m'.bytes.toList = programImage offset.toNat program.toList n := by
  unfold ofSize at hm
  split at hm <;> cases hm
  have hfits : offset.toNat + program.size ≤ (Array.replicate n (0 : Byte)).size := by
    rwa [Array.size_replicate]
  refine ⟨_, dif_pos hfits, ?_⟩
  simp only [programImage, Array.toList_append, Array.toList_extract, Array.toList_replicate,
    List.extract_eq_take_drop, List.drop_replicate, List.take_replicate, Array.size_replicate,
    Array.length_toList]
  congr 3 <;> omega

namespace Runner

/-- A reset processor, but for the program in its memory and the program counter. -/
structure Fresh (program : Array Byte) (o : RunOptions) (cpu : Cpu) : Prop where
  core : cpu.core = { registers := { pc := o.offset } }
  memory : cpu.memory.bytes.toList = programImage o.offset.toNat program.toList o.memorySize
  latch : cpu.latch = none
  config : cpu.config = o.config

/-- The session in which the program is about to start. -/
structure Ready (program : Array Byte) (o : RunOptions) (s : Session Sink) : Prop where
  fresh : Fresh program o s.cpu
  reachable : s.cpu.Reachable
  device : s.device = {}
  mailbox : s.mailbox = { senders := if o.timer.isSome then 1 else 0 }
  tally : s.tally = {}

/-- What can come of the preparation. -/
inductive Preparation (program : Array Byte) (o : RunOptions) :
    Except RunFailure (Session Sink) → Prop
  | creation (hn : o.memorySize = 0 ∨ 65536 < o.memorySize) :
      Preparation program o (.error (.creation (.invalidMemorySize o.memorySize)))
  | loading (hn : 0 < o.memorySize ∧ o.memorySize ≤ 65536)
      (hp : o.memorySize < o.offset.toNat + program.size) :
      Preparation program o
        (.error (.loading (.programTooLarge program.size o.offset o.memorySize)))
  | ready {s : Session Sink} (hn : 0 < o.memorySize ∧ o.memorySize ≤ 65536)
      (hp : o.offset.toNat + program.size ≤ o.memorySize) (hs : Ready program o s) :
      Preparation program o (.ok s)

variable {program : Array Byte} {o : RunOptions} {cpu cpu' : Cpu} {fault : Fault}

theorem prepare_of_uncreated (hc : Cpu.ofConfig o.config = .error fault) :
    prepare program o = .error (.creation fault) := by
  rw [prepare, hc]
  rfl

theorem created_of_ofConfig (hc : Cpu.ofConfig o.config = .ok cpu) :
    (Cpu.ofConfig o.config).mapError RunFailure.creation = .ok cpu := by
  rw [hc]
  rfl

theorem prepare_of_unloaded (hc : Cpu.ofConfig o.config = .ok cpu)
    (hl : cpu.load o.offset program = .error fault) :
    prepare program o = .error (.loading fault) := by
  rw [prepare, created_of_ofConfig hc]
  simp only [bind, Except.bind, Session.load, hl]

theorem prepare_of_loaded (hc : Cpu.ofConfig o.config = .ok cpu)
    (hl : cpu.load o.offset program = .ok cpu') :
    ∃ log, prepare program o =
      .ok ⟨cpu', {}, { senders := if o.timer.isSome then 1 else 0 }, {}, log⟩ := by
  rw [prepare, created_of_ofConfig hc]
  simp only [bind, Except.bind, Session.load, hl]
  cases o.timer <;> exact ⟨_, rfl⟩

theorem prepare_preparation (program : Array Byte) (o : RunOptions) :
    Preparation program o (prepare program o) := by
  by_cases hn : 0 < o.memorySize ∧ o.memorySize ≤ 65536
  · obtain ⟨m, hm⟩ : ∃ m, Memory.ofSize o.config.memorySize = .ok m := ⟨_, dif_pos hn⟩
    have hsize : m.size = o.memorySize := by
      unfold Memory.ofSize at hm
      split at hm <;> cases hm
      exact Array.size_replicate
    have hcpu : Cpu.ofConfig o.config = .ok ⟨Core.initial o.config, m, none, o.config⟩ := by
      rw [Cpu.ofConfig, hm]
      rfl
    by_cases hp : o.offset.toNat + program.size ≤ o.memorySize
    · obtain ⟨m', hload, himage⟩ := Memory.load_zeroed hm o.offset program hp
      have hloaded : Cpu.load o.offset program ⟨Core.initial o.config, m, none, o.config⟩ =
          .ok ⟨(Core.initial o.config).jump o.offset, m', none, o.config⟩ := by
        rw [Cpu.load, hload]
        rfl
      have hreachable := (Cpu.Reachable.new hcpu).call (.load hloaded)
      obtain ⟨log, hs⟩ := prepare_of_loaded hcpu hloaded
      rw [hs]
      exact .ready hn hp ⟨⟨rfl, himage, rfl, rfl⟩, hreachable, rfl, rfl, rfl⟩
    · have hrefused : m.load o.offset program =
          .error (.programTooLarge program.size o.offset m.size) := by
        rw [← hsize] at hp
        exact dif_neg hp
      have hload : Cpu.load o.offset program ⟨Core.initial o.config, m, none, o.config⟩ =
          .error (.programTooLarge program.size o.offset o.memorySize) := by
        rw [Cpu.load, hrefused, hsize]
        rfl
      rw [prepare_of_unloaded hcpu hload]
      exact .loading hn (Nat.lt_of_not_le hp)
  · have hm : Memory.ofSize o.config.memorySize = .error (.invalidMemorySize o.memorySize) :=
      dif_neg hn
    have hcpu : Cpu.ofConfig o.config = .error (.invalidMemorySize o.memorySize) := by
      rw [Cpu.ofConfig, hm]
      rfl
    rw [prepare_of_uncreated hcpu]
    exact .creation (by omega)

theorem ready_of_prepare {s : Session Sink} (hs : prepare program o = .ok s) :
    Ready program o s := by
  have h := prepare_preparation program o
  rw [hs] at h
  cases h with
  | ready _ _ h => exact h

theorem Ready.received {s : Session Sink} (h : Ready program o s) :
    Mailbox.Received [] s.mailbox := by
  rw [h.mailbox]
  cases o.timer with
  | some t => exact .new
  | none => exact .traffic .new (.dropSender {})

theorem Ready.start {s : Session Sink} (h : Ready program o s) : s.start = s := by
  rw [Session.start, ← h.tally]

end Runner

end Intel8080
