import Intel8080.Proofs.Runner.Playing
import Intel8080.Proofs.Runner.Preparation

/-! A program that is run without a timer, from beginning to end. It is refused for the size of
memory or for its own, or else it is played from where it was loaded. -/

namespace Intel8080.Runner

open Session

/-- The command can report the result, with the bytes it has put out. -/
def Yields (program : Array Byte) (o : RunOptions) (result : Except RunFailure Outcome)
    (out : List Byte) : Prop :=
  ∃ n report, run? program o n = some report ∧ report.result = result ∧
    report.output.toList = out

variable {limit : Option Nat} {result : Except RunFailure Outcome} {out : List Byte}
  {program : Array Byte} {o : RunOptions} {p : Progress} {cpu cpu' : Cpu}

theorem amount?_of_sameRun {β γ : Type} {u : Session β} {v : Session γ} (h : SameRun u v) :
    amount? p v = amount? p u := by
  cases p <;> simp only [amount?, h.cpu, h.tally]

/-- A run against standard output goes like one whose device only keeps a record. -/
theorem ends_console_iff {s : Session Sink} (hd : s.device = {}) :
    (∃ p u, Ends Console.bus limit s.start p u ∧ amount? p u = some result ∧
        u.device.written.toList = out) ↔
      ∃ p w, Ends Bus.null.recorded limit (s.onto ((), [])).start p w ∧
        amount? p w = some result ∧ outputs w.device.2 = out := by
  have hs : (s.onto ()).onto {} = s := by
    rw [← hd]
    rfl
  constructor
  · rintro ⟨p, u, he, hamount, rfl⟩
    rw [← hs] at he
    obtain ⟨w, hw, hsame, hheld⟩ := he.on_record
    exact ⟨p, w, hw, (amount?_of_sameRun hsame).trans hamount, hheld.written.symm⟩
  · rintro ⟨p, w, he, hamount, rfl⟩
    obtain ⟨u, hu, hsame, hheld⟩ := Ends.on_console (s := s.onto ()) none he
    rw [hs] at hu
    exact ⟨p, u, hu, (amount?_of_sameRun hsame).trans hamount, hheld.written⟩

/-- A report tells what the rounds amount to. -/
theorem report_iff {s : Session Sink} (hs : prepare program o = .ok s) (n : Nat) :
    (∃ report, run? program o n = some report ∧ report.result = result ∧
        report.output.toList = out) ↔
      amount? (rounds o n s).1 (rounds o n s).2 = some result ∧
        (rounds o n s).2.device.written.toList = out := by
  simp only [run?, hs]
  rcases rounds o n s with ⟨p, u⟩
  cases p <;> simp [conclude?, amount?, record]

/-- Without a timer there is nothing to wake a session. -/
theorem rounds_untimed (ho : o.timer = none) (n : Nat) (s : Session Sink) :
    rounds o n s = s.run Console.bus o.limit n := by
  rw [rounds, ho]
  rfl

/-- The command reports what its run ends in. -/
theorem yields_iff {s : Session Sink} (ho : o.timer = none) (hs : prepare program o = .ok s) :
    Yields program o result out ↔
      ∃ p u, Ends Console.bus o.limit s.start p u ∧ amount? p u = some result ∧
        u.device.written.toList = out := by
  rw [Yields, (ready_of_prepare hs).start]
  simp only [report_iff hs, rounds_untimed ho, ends_iff_run]
  constructor
  · rintro ⟨n, hamount, hout⟩
    refine ⟨_, _, ⟨fun (hp : (s.run Console.bus o.limit n).1 = .running) => ?_, n, rfl⟩, hamount,
      hout⟩
    rw [hp] at hamount
    cases hamount
  · rintro ⟨p, u, ⟨-, n, hrun⟩, hamount, hout⟩
    refine ⟨n, ?_⟩
    rw [hrun]
    exact ⟨hamount, hout⟩

/-- A program that was loaded is played from its first instruction on. -/
theorem yields_iff_plays {s : Session Sink} (ho : o.timer = none)
    (hs : prepare program o = .ok s) :
    Yields program o result out ↔ Plays o.limit {} s.cpu [] result out := by
  have hready := ready_of_prepare hs
  have hw : Unreached (s.onto ((), ([] : List PortCall))).start := by
    refine ⟨?_, hready.fresh.latch, ?_⟩
    · change s.mailbox.Deserted
      rw [hready.mailbox, ho]
      exact ⟨rfl, rfl, rfl, rfl⟩
    · change s.cpu.core.halted = false
      rw [hready.fresh.core]
  rw [yields_iff ho hs, ends_console_iff hready.device]
  constructor
  · rintro ⟨p, u, he, hamount, rfl⟩
    obtain ⟨result', hamount', hplays⟩ := plays_of_ends hw he
    obtain rfl := Option.some.inj (hamount.symm.trans hamount')
    exact hplays
  · exact fun h => h.ends hw

theorem yields_of_refused {failure : RunFailure} (hs : prepare program o = .error failure) :
    Yields program o result out ↔ result = .error failure ∧ out = [] := by
  simp only [Yields, run?, hs]
  constructor
  · rintro ⟨-, report, hr, rfl, rfl⟩
    obtain rfl := Option.some.inj hr
    exact ⟨rfl, rfl⟩
  · rintro ⟨rfl, rfl⟩
    exact ⟨0, _, rfl, rfl, rfl⟩

/-- Options that differ in what is about interrupts start the program alike. -/
theorem Fresh.akin {o' : RunOptions} (h : Fresh program o cpu) (h' : Fresh program o' cpu')
    (hoffset : o'.offset = o.offset) (hsize : o'.memorySize = o.memorySize) : cpu.Akin cpu' where
  core := by
    rw [h.core, h'.core, hoffset]
    rfl
  memory := by
    have hbytes : cpu'.memory.bytes = cpu.memory.bytes := by
      rw [← Array.toList_inj, h.memory, h'.memory, hoffset, hsize]
    cases hm : cpu.memory
    cases hm' : cpu'.memory
    rw [hm, hm'] at hbytes
    cases hbytes
    rfl
  latch := h'.latch.trans h.latch.symm
  undefinedOpcodes := by
    rw [h.config, h'.config]
    rfl

/-- Everything the command can make of a program and its options. -/
structure Reports (program : Array Byte) (o : RunOptions) : Prop where
  /-- No processor is created with too little or too much memory. -/
  creation : ∀ fault out, Yields program o (.error (.creation fault)) out ↔
    (o.memorySize = 0 ∨ 65536 < o.memorySize) ∧ fault = .invalidMemorySize o.memorySize ∧ out = []
  /-- No program is loaded beyond the end of memory. -/
  loading : ∀ fault out, Yields program o (.error (.loading fault)) out ↔
    (0 < o.memorySize ∧ o.memorySize ≤ 65536) ∧ o.memorySize < o.offset.toNat + program.size ∧
      fault = .programTooLarge program.size o.offset o.memorySize ∧ out = []
  /-- Any other program is played on a fresh processor. -/
  played : 0 < o.memorySize → o.memorySize ≤ 65536 →
    o.offset.toNat + program.size ≤ o.memorySize →
    ∃ cpu, Fresh program o cpu ∧
      ∀ result out, Yields program o result out ↔ Plays o.limit {} cpu [] result out
  outcome : ∀ outcome out, Yields program o (.ok outcome) out →
    outcome.reason ≠ .powerOff ∧ outcome.tally.interrupts = 0
  unique : ∀ result result' out out', Yields program o result out →
    Yields program o result' out' → result' = result ∧ out' = out
  settings : ∀ autoReenable delayedEi result out,
    Yields program { o with autoReenable, delayedEi } result out ↔ Yields program o result out

theorem Yields.not_refused {s : Session Sink} (ho : o.timer = none)
    (hs : prepare program o = .ok s) (h : Yields program o result out) :
    (∃ outcome, result = .ok outcome) ∨ ∃ pc fault, result = .error (.execution pc fault) :=
  ((yields_iff_plays ho hs).mp h).not_refused

theorem yields_creation_iff (ho : o.timer = none) (fault : Fault) (out : List Byte) :
    Yields program o (.error (.creation fault)) out ↔
      (o.memorySize = 0 ∨ 65536 < o.memorySize) ∧ fault = .invalidMemorySize o.memorySize ∧
        out = [] := by
  have hp := prepare_preparation program o
  generalize hs : prepare program o = r at hp
  cases hp with
  | creation hn =>
    rw [yields_of_refused hs]
    simp only [Except.error.injEq, RunFailure.creation.injEq, hn, true_and]
  | loading hn =>
    rw [yields_of_refused hs]
    refine ⟨fun h => ?_, fun h => by omega⟩
    cases h.1
  | ready hn _ _ =>
    refine ⟨fun h => ?_, fun h => by omega⟩
    obtain ⟨_, hr⟩ | ⟨_, _, hr⟩ := h.not_refused ho hs <;> cases hr

theorem yields_loading_iff (ho : o.timer = none) (fault : Fault) (out : List Byte) :
    Yields program o (.error (.loading fault)) out ↔
      (0 < o.memorySize ∧ o.memorySize ≤ 65536) ∧
        o.memorySize < o.offset.toNat + program.size ∧
        fault = .programTooLarge program.size o.offset o.memorySize ∧ out = [] := by
  have hp := prepare_preparation program o
  generalize hs : prepare program o = r at hp
  cases hp with
  | creation hn =>
    rw [yields_of_refused hs]
    refine ⟨fun h => ?_, fun h => by omega⟩
    cases h.1
  | loading hn hp =>
    rw [yields_of_refused hs]
    simp only [Except.error.injEq, RunFailure.loading.injEq, hn, hp, true_and]
  | ready _ hp _ =>
    refine ⟨fun h => ?_, fun h => by omega⟩
    obtain ⟨_, hr⟩ | ⟨_, _, hr⟩ := h.not_refused ho hs <;> cases hr

theorem yields_unique {result' : Except RunFailure Outcome} {out' : List Byte}
    (ho : o.timer = none) (h : Yields program o result out)
    (h' : Yields program o result' out') : result' = result ∧ out' = out := by
  cases hs : prepare program o with
  | error failure =>
    rw [yields_of_refused hs] at h h'
    exact ⟨h'.1.trans h.1.symm, h'.2.trans h.2.symm⟩
  | ok s =>
    rw [yields_iff ho hs] at h h'
    obtain ⟨p, u, he, hamount, rfl⟩ := h
    obtain ⟨q, v, he', hamount', rfl⟩ := h'
    obtain ⟨rfl, rfl⟩ := he.unique he'
    exact ⟨Option.some.inj (hamount'.symm.trans hamount), rfl⟩

theorem yields_settings (ho : o.timer = none) (autoReenable delayedEi : Bool) :
    Yields program { o with autoReenable, delayedEi } result out ↔
      Yields program o result out := by
  have hp := prepare_preparation program o
  have hp' := prepare_preparation program { o with autoReenable, delayedEi }
  generalize hs : prepare program o = r at hp
  generalize hs' : prepare program { o with autoReenable, delayedEi } = r' at hp'
  cases hp with
  | creation hn =>
    cases hp' with
    | creation => rw [yields_of_refused hs, yields_of_refused hs']
    | loading hn' | ready hn' => dsimp only at hn'; omega
  | loading hn hp =>
    cases hp' with
    | creation hn' => dsimp only at hn'; omega
    | loading => rw [yields_of_refused hs, yields_of_refused hs']
    | ready _ hp' => dsimp only at hp'; omega
  | ready hn hp h =>
    cases hp' with
    | creation hn' => dsimp only at hn'; omega
    | loading _ hp' => dsimp only at hp'; omega
    | ready _ _ h' =>
      rw [yields_iff_plays ho hs, yields_iff_plays (o := { o with autoReenable, delayedEi }) ho hs']
      exact ⟨fun hx => hx.akin (h'.fresh.akin h.fresh rfl rfl),
        fun hx => hx.akin (h.fresh.akin h'.fresh rfl rfl)⟩

/-- Without a timer a program does nothing but run from beginning to end. -/
theorem untimed_reports (program : Array Byte) (o : RunOptions) (ho : o.timer = none) :
    Reports program o where
  creation := yields_creation_iff ho
  loading := yields_loading_iff ho
  played hpos hle hfits := by
    have hp := prepare_preparation program o
    generalize hs : prepare program o = r at hp
    cases hp with
    | creation => omega
    | loading => omega
    | @ready s _ _ h => exact ⟨s.cpu, h.fresh, fun _ _ => yields_iff_plays ho hs⟩
  outcome outcome out h := by
    cases hs : prepare program o with
    | error failure =>
      rw [yields_of_refused hs] at h
      cases h.1
    | ok s => exact ((yields_iff_plays ho hs).mp h).outcome outcome rfl
  unique _ _ _ _ := yields_unique ho
  settings autoReenable delayedEi _ _ := yields_settings ho autoReenable delayedEi

/-- A program that enables interrupts, puts out the accumulator and halts. -/
def lastWords : Array Byte := #[0xFB, 0xD3, 0x01, 0x76]

/-- It is over with the HLT, although interrupts are enabled. -/
theorem untimed_reports_last_words :
    Yields lastWords { memorySize := 8, delayedEi := true } (.ok ⟨.halted, ⟨3, 0, 21⟩⟩) [0] ∧
      Reports lastWords { memorySize := 8, delayedEi := true } ∧
      Yields lastWords { memorySize := 8 } (.ok ⟨.halted, ⟨3, 0, 21⟩⟩) [0] := by
  have hyields : Yields lastWords { memorySize := 8, delayedEi := true }
      (.ok ⟨.halted, ⟨3, 0, 21⟩⟩) [0] := ⟨4, _, rfl, rfl, rfl⟩
  have hreports := untimed_reports lastWords { memorySize := 8, delayedEi := true } rfl
  exact ⟨hyields, hreports, (hreports.settings false false _ _).mpr hyields⟩

end Intel8080.Runner
