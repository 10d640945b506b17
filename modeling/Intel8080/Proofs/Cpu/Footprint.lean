import Intel8080.Proofs.Cpu.Delivery
import Intel8080.Proofs.Cpu.Enlarged
import Intel8080.Proofs.Cycles.Footprint

/-! The footprint of a step: the bytes of its instruction and of its data, of which it stores the
data alone, and that only if its operation stores at all. Two processors that differ in other bytes
only do not notice, however many steps they take and whatever the program does to itself. -/

namespace Intel8080

variable {α β : Type}

/-- Whether executing the operation writes the data that it accesses. -/
def Operation.stores : Operation → Bool
  | mov dst _ | mvi dst | inr dst | dcr dst => decide (dst = .memory)
  | sta | shld | stax _ | xthl | push _ | call | ccc _ | rst _ => true
  | _ => false

namespace Core

variable {c : Core} {config : Config} {bus : Bus β} {m : Memory} {b : β}

theorem execute_readOnly {op : Operation} (h : op.stores = false) (d : Bool) (v : Word) :
    (c.execute d op v).ReadOnly := by
  cases op with
  | mov dst src =>
    cases dst with
    | reg r =>
      cases src with
      | reg r' => trivial
      | memory => exact fun _ => trivial
    | memory => cases h
  | mvi dst | inr dst | dcr dst =>
    cases dst with
    | reg r => trivial
    | memory => cases h
  | alu op src =>
    cases src with
    | reg r => trivial
    | memory => exact fun _ => trivial
  | lda | ldax pointer => exact fun _ => trivial
  | lhld | pop pair | ret => exact fun _ _ => trivial
  | rcc condition =>
    simp only [execute]
    split
    · exact fun _ _ => trivial
    · trivial
  | input => exact fun _ => trivial
  | sta | shld | stax pointer | xthl | push pair | call | ccc condition | rst vector => cases h
  | _ => trivial

theorem permit_accesses (config : Config) (code : Byte) (pc : Word) :
    (permit config code pc).accesses bus m b = [] := by
  unfold permit
  split
  · rfl
  · split <;> rfl

theorem readImmediate_accesses (op : Operation) (pc : Word) :
    ∀ x ∈ (readImmediate op.immediate (pc + 1)).accesses bus m b,
      x.addr ∈ op.operandAddresses pc := by
  have htwo : pc + 1 + 1 = pc + 2 := UInt16.add_assoc _ _ _
  refine Cycles.Within.accesses (s := {addr | addr ∈ op.operandAddresses pc}) ?_
  unfold Operation.operandAddresses
  cases op.immediate with
  | none => trivial
  | byte => exact ⟨List.mem_cons_self, fun _ _ => trivial⟩
  | word =>
    refine ⟨List.mem_cons_self, fun _ _ => ⟨?_, fun _ _ => trivial⟩⟩
    rw [htwo]
    exact List.mem_cons_of_mem _ List.mem_cons_self

/-- A fetch accesses the bytes of the instruction. -/
theorem fetch_accesses {x : Access} (hx : x ∈ (c.fetch config).accesses bus m b) :
    x.addr ∈ c.registers.pc ::
      (Operation.decode (m.peek c.registers.pc)).operandAddresses c.registers.pc := by
  rw [fetch, Cycles.mem_accesses_bind] at hx
  rcases hx with hx | ⟨code, hcode, hx⟩
  · have hpc : (Cycles.readByte c.registers.pc).Within {c.registers.pc} bus m b :=
      ⟨rfl, fun _ _ => trivial⟩
    exact List.mem_cons.mpr (.inl (hpc.accesses x hx))
  · have hquiet : (Cycles.readByte c.registers.pc).Quiet := fun _ => trivial
    have hflat := congrArg FlatTrail.result (Cycles.flat_of_run hcode)
    have hpeek : m.peek c.registers.pc = code := Except.ok.inj (hflat.trans hcode)
    subst hpeek
    rw [Cycles.mem_accesses_bind, permit_accesses, Cycles.mem_accesses_bind] at hx
    rcases hx with hx | ⟨-, -, hx | ⟨v, -, hx⟩⟩
    · cases hx
    · exact List.mem_cons_of_mem _ (readImmediate_accesses _ _ _ hx)
    · cases hx

/-- An execution accesses its data, and it stores nothing unless its operation does. -/
theorem execute_accesses {d : Bool} {op : Operation} {v : Word} {x : Access}
    (hx : x ∈ (c.execute d op v).accesses bus m b) :
    x.addr ∈ op.dataAddresses v c.registers c.flags ∧
      ∀ addr, x = .store addr → op.stores = true := by
  refine ⟨Cycles.Within.accesses (s := {addr | addr ∈ op.dataAddresses v c.registers c.flags})
    (execute_within fun _ h => h) x hx, ?_⟩
  rintro addr rfl
  by_contra hs
  obtain ⟨other, ho⟩ := (execute_readOnly ((Bool.not_eq_true _).mp hs) d v).loads _ hx
  cases ho

end Core

namespace Cpu

/-- The accesses of a step. -/
def accesses (bus : Bus β) (cpu : Cpu) (b : β) : List Access :=
  match cpu.latch with
  | some _ => []
  | none =>
    if cpu.core.halted then []
    else (cpu.core.fetch cpu.config >>= execution cpu.config).accesses bus cpu.memory b

/-- The operation at the program counter. -/
def instruction (cpu : Cpu) : Operation :=
  Operation.decode (cpu.memory.peek cpu.core.registers.pc)

/-- The addresses of its data. -/
def dataFootprint (cpu : Cpu) : List Word :=
  let r := cpu.core.registers
  cpu.instruction.dataAddresses (cpu.instruction.immediateAt cpu.memory.peek r.pc) r cpu.core.flags

/-- The addresses of the opcode, of the bytes behind it and of the data. -/
def footprint (cpu : Cpu) : List Word :=
  let pc := cpu.core.registers.pc
  pc :: (cpu.instruction.operandAddresses pc ++ cpu.dataFootprint)

/-- The addresses that are written, which are those of the data or none. -/
def stored (cpu : Cpu) : List Word := if cpu.instruction.stores then cpu.dataFootprint else []

variable {bus : Bus β} {cpu cpu' : Cpu} {b : β}

/-- Replies with the same answer, of processors that end alike but for their memory images. -/
structure SameCall (r r' : Reply α β) : Prop where
  result : r'.result = r.result
  bus : r'.bus = r.bus
  core : r'.cpu.core = r.cpu.core
  latch : r'.cpu.latch = r.cpu.latch
  config : r'.cpu.config = r.cpu.config

/-- Instructions that prepare the same operation and execute it alike. -/
theorem carryOut_sameCall {prepare prepare' : Cycles Prepared} {execute : Prepared → Cycles Core}
    (hcore : cpu'.core = cpu.core) (hconfig : cpu'.config = cpu.config)
    (hresult : (prepare'.run bus cpu'.memory b).result = (prepare.run bus cpu.memory b).result)
    (hbus : (prepare'.run bus cpu'.memory b).bus = (prepare.run bus cpu.memory b).bus)
    (h : ∀ p, (prepare.run bus cpu.memory b).result = .ok p →
      let t := (execute p).run bus (prepare.run bus cpu.memory b).memory
        (prepare.run bus cpu.memory b).bus
      let t' := (execute p).run bus (prepare'.run bus cpu'.memory b).memory
        (prepare.run bus cpu.memory b).bus
      t'.result = t.result ∧ t'.bus = t.bus) :
    SameCall (cpu.carryOut bus prepare execute b) (cpu'.carryOut bus prepare' execute b) := by
  rcases hp : prepare.run bus cpu.memory b with ⟨f | p, m, b₁, es⟩ <;>
    rcases hp' : prepare'.run bus cpu'.memory b with ⟨f' | p', m', b₁', es'⟩ <;>
    rw [hp, hp'] at hresult hbus h <;> cases hresult <;> cases hbus
  · rw [carryOut_refused hp, carryOut_refused hp', hcore, hconfig]
    exact ⟨rfl, rfl, rfl, rfl, rfl⟩
  · obtain ⟨hresult, hbus⟩ := h p rfl
    rcases he : (execute p).run bus m b₁ with ⟨f | c, m₂, b₂, fs⟩ <;>
      rcases he' : (execute p).run bus m' b₁ with ⟨f' | c', m₂', b₂', fs'⟩ <;>
      rw [he, he'] at hresult hbus <;> cases hresult <;> cases hbus
    · rw [carryOut_failed hp he, carryOut_failed hp' he', hcore, hconfig]
      exact ⟨rfl, rfl, rfl, rfl, rfl⟩
    · rw [carryOut_granted hp he, carryOut_granted hp' he', hconfig]
      exact ⟨rfl, rfl, rfl, rfl, rfl⟩

/-- An instruction leaves the memory of its cycles, and the log tells of a refusal after them. -/
theorem carryOut_trail (bus : Bus β) (prepare : Cycles Prepared) (execute : Prepared → Cycles Core)
    (cpu : Cpu) (b : β) :
    let t := (prepare >>= execute).run bus cpu.memory b
    (cpu.carryOut bus prepare execute b).cpu.memory = t.memory ∧
      (cpu.carryOut bus prepare execute b).emitted = t.emitted ++
        match t.result with
        | .ok _ => []
        | .error f => [.event (.faulted cpu.core.registers.pc f)] := by
  rw [Cycles.run_bind]
  rcases hp : prepare.run bus cpu.memory b with ⟨f | p, m, b₁, es⟩
  · rw [carryOut_refused hp]
    exact ⟨rfl, rfl⟩
  · rcases he : (execute p).run bus m b₁ with ⟨f | c, m₂, b₂, fs⟩
    · rw [carryOut_failed hp he, Trail.andThen, he]
      exact ⟨rfl, rfl⟩
    · rw [carryOut_granted hp he, Trail.andThen, he]
      exact ⟨rfl, (List.append_nil _).symm⟩

/-- A second reply that is the first one again, on a processor with another image. The bytes that
are stored come out the same, and all others stay as they were on either side. -/
structure Reprised (xs : List Access) (m m' : Memory) (r r' : Reply α β) : Prop
    extends SameCall r r' where
  emitted : r'.emitted = r.emitted
  size : r'.cpu.memory.size = r.cpu.memory.size
  stored : ∀ addr, .store addr ∈ xs → r'.cpu.memory.read addr = r.cpu.memory.read addr
  kept : ∀ addr, .store addr ∉ xs → r.cpu.memory.read addr = m.read addr
  kept' : ∀ addr, .store addr ∉ xs → r'.cpu.memory.read addr = m'.read addr

/-- A call that does nothing but answer. -/
theorem Reprised.nil (r : Except Fault α) (b : β) (es : List Emission)
    (hcore : cpu'.core = cpu.core) (hlatch : cpu'.latch = cpu.latch)
    (hconfig : cpu'.config = cpu.config) (hsize : cpu'.memory.size = cpu.memory.size) :
    Reprised [] cpu.memory cpu'.memory ⟨r, cpu, b, es⟩ ⟨r, cpu', b, es⟩ :=
  ⟨⟨rfl, rfl, hcore, hlatch, hconfig⟩, rfl, hsize, fun _ hx => absurd hx List.not_mem_nil,
    fun _ _ => rfl, fun _ _ => rfl⟩

theorem carryOut_reprised {prepare : Cycles Prepared} {execute : Prepared → Cycles Core}
    (hcore : cpu'.core = cpu.core) (hconfig : cpu'.config = cpu.config)
    (hsize : cpu'.memory.size = cpu.memory.size)
    (h : ∀ addr, .load addr ∈ (prepare >>= execute).accesses bus cpu.memory b →
      cpu'.memory.read addr = cpu.memory.read addr) :
    Reprised ((prepare >>= execute).accesses bus cpu.memory b) cpu.memory cpu'.memory
      (cpu.carryOut bus prepare execute b) (cpu'.carryOut bus prepare execute b) := by
  have hwhole := Cycles.run_reprise hsize h
  have hfirst := Cycles.run_reprise hsize fun addr ha =>
    h addr (Cycles.mem_accesses_bind.mpr (.inl ha))
  obtain ⟨hmemory, hemitted⟩ := carryOut_trail bus prepare execute cpu b
  obtain ⟨hmemory', hemitted'⟩ := carryOut_trail bus prepare execute cpu' b
  refine ⟨carryOut_sameCall hcore hconfig hfirst.result hfirst.bus fun p hp => ?_,
    ?_, ?_, ?_, ?_, ?_⟩
  · have hbetween : (prepare.run bus cpu'.memory b).memory.size =
        (prepare.run bus cpu.memory b).memory.size := by
      rw [Cycles.size_run, Cycles.size_run, hsize]
    have hsecond := Cycles.run_reprise (c := execute p) hbetween fun addr ha =>
      hfirst.read (h addr (Cycles.mem_accesses_bind.mpr (.inr ⟨p, hp, ha⟩)))
    exact ⟨hsecond.result, hsecond.bus⟩
  · rw [hemitted, hemitted', hwhole.emitted, hwhole.result, hcore]
  · rw [hmemory, hmemory', Cycles.size_run, Cycles.size_run, hsize]
  · rw [hmemory, hmemory']
    exact hwhole.stored
  · rw [hmemory]
    exact fun addr ha => Cycles.run_kept ha
  · rw [hmemory']
    exact hwhole.kept

/-- A step of a processor whose image differs outside of what the step loads. -/
theorem step_reprised (hcore : cpu'.core = cpu.core) (hlatch : cpu'.latch = cpu.latch)
    (hconfig : cpu'.config = cpu.config) (hsize : cpu'.memory.size = cpu.memory.size)
    (h : ∀ addr, .load addr ∈ cpu.accesses bus b →
      cpu'.memory.read addr = cpu.memory.read addr) :
    Reprised (cpu.accesses bus b) cpu.memory cpu'.memory (cpu.step bus b) (cpu'.step bus b) := by
  unfold accesses at h ⊢
  cases hl : cpu.latch with
  | some l =>
    have hl' : cpu'.latch = some l := hlatch.trans hl
    simp only [step, hl, hl']
    exact .nil _ _ _ hcore hlatch hconfig hsize
  | none =>
    have hl' : cpu'.latch = none := hlatch.trans hl
    cases hh : cpu.core.halted with
    | true =>
      have hh' : cpu'.core.halted = true := by rw [hcore, hh]
      simp only [step, hl, hl', hh, hh']
      exact .nil _ _ _ hcore hlatch hconfig hsize
    | false =>
      have hh' : cpu'.core.halted = false := by rw [hcore, hh]
      simp only [hl, hh, Bool.false_eq_true, if_false] at h ⊢
      rw [step_eq_carryOut bus b hl hh, step_eq_carryOut bus b hl' hh', hcore, hconfig]
      exact carryOut_reprised hcore hconfig hsize h

/-- A step loads bytes of its footprint, and of these it stores the data. -/
theorem mem_accesses {x : Access} (hx : x ∈ cpu.accesses bus b) :
    x.addr ∈ cpu.footprint ∧ ∀ addr, x = .store addr → addr ∈ cpu.stored := by
  unfold accesses at hx
  split at hx
  · cases hx
  · split at hx
    · cases hx
    · rcases Cycles.mem_accesses_bind.mp hx with hx | ⟨p, hp, hx⟩
      · obtain ⟨addr, rfl⟩ := (Core.fetch_quiet cpu.config cpu.core).readOnly.loads _ hx
        exact ⟨List.mem_append_left _ (Core.fetch_accesses hx), fun _ hs => by cases hs⟩
      · have hprepared := Core.fetch_prepared hp
        subst hprepared
        obtain ⟨hdata, hstores⟩ := Core.execute_accesses hx
        refine ⟨List.mem_cons_of_mem _ (List.mem_append_right _ hdata), ?_⟩
        rintro addr rfl
        have hs : cpu.instruction.stores = true := hstores addr rfl
        rw [stored, if_pos hs]
        exact hdata

/-! ### Steps one after the other -/

/-- The processors differ in bytes outside the set at most. -/
structure SameOn (s : Set Word) (cpu cpu' : Cpu) : Prop where
  core : cpu'.core = cpu.core
  latch : cpu'.latch = cpu.latch
  config : cpu'.config = cpu.config
  size : cpu'.memory.size = cpu.memory.size
  bytes : Memory.AgreeOn s cpu.memory cpu'.memory

/-- The answers and the end of some steps, faulting ones included. -/
def stepAll (bus : Bus β) (k : Nat) (cpu : Cpu) (b : β) : Transcript β :=
  obeyAll bus (List.replicate k .step) cpu b

/-- The footprints of some steps together. -/
def reach (bus : Bus β) : Nat → Cpu → β → Set Word
  | 0, _, _ => ∅
  | k + 1, cpu, b =>
    {addr | addr ∈ cpu.footprint} ∪ reach bus k (cpu.step bus b).cpu (cpu.step bus b).bus

theorem stepAll_succ (bus : Bus β) (k : Nat) (cpu : Cpu) (b : β) :
    cpu.stepAll bus (k + 1) b =
      let r := cpu.step bus b
      let t := r.cpu.stepAll bus k r.bus
      ⟨r.result.map some :: t.answers, t.cpu, t.bus, r.emitted ++ t.emitted⟩ := rfl

/-- A record of the calls on the bus does not change where the steps go. -/
theorem reach_recorded (bus : Bus β) (k : Nat) (cpu : Cpu) (x : β × List PortCall) :
    cpu.reach bus.recorded k x = cpu.reach bus k x.1 := by
  induction k generalizing cpu x with
  | zero => rfl
  | succ k ih =>
    have hstep := step_recorded bus cpu x
    rw [reach, reach, ih, ← hstep]
    rfl

/-- Two processors have gone the same way. They differ in bytes outside the set at most, and there
each of them still has the image from before. -/
structure Unaware (s : Set Word) (cpu cpu' : Cpu) (t t' : Transcript β) : Prop where
  answers : t'.answers = t.answers
  bus : t'.bus = t.bus
  emitted : t'.emitted = t.emitted
  same : SameOn s t.cpu t'.cpu
  kept : ∀ addr ∉ s, t.cpu.memory.read addr = cpu.memory.read addr
  kept' : ∀ addr ∉ s, t'.cpu.memory.read addr = cpu'.memory.read addr

variable {s : Set Word} {k : Nat}

/-- A step within the set keeps the agreement on it and the bytes outside of it. -/
theorem SameOn.step (h : SameOn s cpu cpu') (hs : ∀ addr ∈ cpu.footprint, addr ∈ s) (bus : Bus β)
    (b : β) :
    SameCall (cpu.step bus b) (cpu'.step bus b) ∧
      (cpu'.step bus b).emitted = (cpu.step bus b).emitted ∧
      SameOn s (cpu.step bus b).cpu (cpu'.step bus b).cpu ∧
      ∀ addr ∉ s,
        (cpu.step bus b).cpu.memory.read addr = cpu.memory.read addr ∧
          (cpu'.step bus b).cpu.memory.read addr = cpu'.memory.read addr := by
  have hr : Reprised (cpu.accesses bus b) cpu.memory cpu'.memory (cpu.step bus b)
      (cpu'.step bus b) :=
    step_reprised h.core h.latch h.config h.size fun addr ha =>
      h.bytes addr (hs addr (mem_accesses ha).1)
  refine ⟨hr.toSameCall, hr.emitted, ⟨hr.core, hr.latch, hr.config, hr.size, fun addr ha => ?_⟩,
    fun addr ha => ?_⟩
  · by_cases hx : .store addr ∈ cpu.accesses bus b
    · exact hr.stored addr hx
    · rw [hr.kept addr hx, hr.kept' addr hx, h.bytes addr ha]
  · have hx : .store addr ∉ cpu.accesses bus b := fun hx => ha (hs addr (mem_accesses hx).1)
    exact ⟨hr.kept addr hx, hr.kept' addr hx⟩

theorem SameOn.stepAll (h : SameOn s cpu cpu') (hs : ∀ addr ∈ cpu.reach bus k b, addr ∈ s) :
    Unaware s cpu cpu' (cpu.stepAll bus k b) (cpu'.stepAll bus k b) := by
  induction k generalizing cpu cpu' b with
  | zero => exact ⟨rfl, rfl, rfl, h, fun _ _ => rfl, fun _ _ => rfl⟩
  | succ k ih =>
    obtain ⟨hcall, hemitted, hsame, hkept⟩ := h.step (fun addr ha => hs addr (.inl ha)) bus b
    have hrest := ih hsame fun addr ha => hs addr (.inr ha)
    rw [stepAll_succ, stepAll_succ]
    dsimp only
    rw [hcall.result, hcall.bus, hemitted]
    exact ⟨congrArg (_ :: ·) hrest.answers, hrest.bus, congrArg (_ ++ ·) hrest.emitted, hrest.same,
      fun addr ha => (hrest.kept addr ha).trans (hkept addr ha).1,
      fun addr ha => (hrest.kept' addr ha).trans (hkept addr ha).2⟩

/-- Any number of steps depends on the bytes of their footprints alone and touches no others: a
processor that differs elsewhere answers alike, uses the ports alike, and ends alike but for bytes
elsewhere, which stay what they were on either side. Of its footprint a step writes the data alone,
and that only if the instruction is one that stores. -/
theorem steps_confined :
    (∀ {β : Type} (bus : Bus β) (k : Nat) (cpu cpu' : Cpu) (b : β),
      SameOn (cpu.reach bus k b) cpu cpu' →
      Unaware (cpu.reach bus k b) cpu cpu' (cpu.stepAll bus k b) (cpu'.stepAll bus k b) ∧
        (cpu'.stepAll bus.recorded k (b, [])).bus = (cpu.stepAll bus.recorded k (b, [])).bus) ∧
      ∀ {β : Type} (bus : Bus β) (cpu : Cpu) (b : β),
        (∀ addr, .store addr ∈ cpu.accesses bus b → addr ∈ cpu.stored) ∧
          ∀ addr, .store addr ∉ cpu.accesses bus b →
            (cpu.step bus b).cpu.memory.read addr = cpu.memory.read addr := by
  refine ⟨fun bus k cpu cpu' b h => ⟨h.stepAll fun _ ha => ha, ?_⟩, fun bus cpu b =>
    ⟨fun addr ha => (mem_accesses ha).2 addr rfl, fun addr ha => ?_⟩⟩
  · rw [← reach_recorded bus k cpu (b, [])] at h
    exact (h.stepAll fun _ ha => ha).bus
  · exact (step_reprised rfl rfl rfl rfl fun _ _ => rfl).kept addr ha

/-- A processor that stores a PUSH in front of itself. -/
def rewriting : Cpu where
  core := { registers := { b := 1, c := 2, sp := 10 } }
  memory := ⟨#[0x3E, 0xC5, 0x32, 0x05, 0x00, 0x00, 0, 0, 0, 0, 0, 0], by decide, by decide⟩
  latch := none
  config := { memorySize := 12 }

/-- The same processor with other bytes behind the PUSH and on its stack. -/
def rewriting' : Cpu :=
  { rewriting with
    memory := ⟨#[0x3E, 0xC5, 0x32, 0x05, 0x00, 0x00, 7, 7, 0, 0, 7, 7], by decide, by decide⟩ }

/-- The MVI, the STA and the PUSH. -/
theorem steps_confined_rewriting :
    SameOn (rewriting.reach Bus.null 3 ()) rewriting rewriting' ∧
      (rewriting.stepAll Bus.null 3 ()).answers = [.ok (some 7), .ok (some 13), .ok (some 11)] ∧
      Unaware (rewriting.reach Bus.null 3 ()) rewriting rewriting' (rewriting.stepAll Bus.null 3 ())
        (rewriting'.stepAll Bus.null 3 ()) := by
  have h : SameOn (rewriting.reach Bus.null 3 ()) rewriting rewriting' := by
    refine ⟨rfl, rfl, rfl, rfl, fun addr ha => ?_⟩
    have hreach : addr ∈ [0, 1] ∨ addr ∈ [2, 3, 4, 5] ∨ addr ∈ [5, 9, 8] ∨ False := ha
    simp only [List.mem_cons, List.not_mem_nil, or_false] at hreach
    rcases hreach with (rfl | rfl) | (rfl | rfl | rfl | rfl) | rfl | rfl | rfl <;> rfl
  exact ⟨h, rfl, (steps_confined.1 Bus.null 3 rewriting rewriting' () h).1⟩

end Cpu

end Intel8080
