import Intel8080.Core.Execute
import Intel8080.Core.Fetch

/-! The processor: a core with its memory, its settings and the fault it is latched on, if any.
A step or an accepted interrupt first prepares an operation and then executes it; a refusal in
either half latches the fault, and from then on only a reset helps. -/

namespace Intel8080

/-- A fault and the address of the instruction, or of the boundary, that raised it. -/
structure Latch where
  fault : Fault
  pc : Word
  deriving DecidableEq

structure Cpu where
  core : Core
  memory : Memory
  latch : Option Latch
  config : Config

/-- What a call on a processor leaves behind. -/
structure Reply (α β : Type) where
  result : Except Fault α
  cpu : Cpu
  bus : β
  emitted : List Emission

namespace Reply

def map {α β γ : Type} (f : α → γ) (r : Reply α β) : Reply γ β :=
  { r with result := r.result.map f }

end Reply

namespace Cpu

variable {β : Type}

/-- A reset processor with zeroed memory. -/
def ofConfig (config : Config) : Except Fault Cpu := do
  let memory ← Memory.ofSize config.memorySize
  return ⟨Core.initial config, memory, none, config⟩

/-- A reset processor with the settings and the memory for which none are given. -/
instance : Inhabited Cpu := ⟨⟨Core.initial {}, default, none, {}⟩⟩

/-- Everything but memory and settings starts over. -/
def reset (cpu : Cpu) : Cpu :=
  { cpu with core := Core.initial cpu.config, latch := none }

/-- Copies a program into memory and points the program counter at it. -/
def load (offset : Word) (program : Array Byte) (cpu : Cpu) : Except Fault Cpu := do
  let memory ← cpu.memory.load offset program
  return { cpu with memory, core := cpu.core.jump offset }

/-- True when an interrupt would be taken at this boundary. -/
def acceptsInterrupts (cpu : Cpu) : Bool :=
  cpu.core.interruptsEnabled && !cpu.core.shadow && cpu.latch.isNone

/-- Prepares an operation and executes it. The result is the number of states it took; a
refusal is latched with the program counter from before, on whichever core it met. -/
def carryOut (bus : Bus β) (prepare : Cycles Prepared) (execute : Prepared → Cycles Core)
    (cpu : Cpu) (b : β) : Reply Nat β :=
  match cpu with
  | ⟨core, memory, _, config⟩ =>
    let pc := core.registers.pc
    let refused (core : Core) (fault : Fault) (memory : Memory) (b : β) (es : List Emission) :
        Reply Nat β :=
      ⟨.error fault, ⟨core, memory, some ⟨fault, pc⟩, config⟩, b,
        es ++ [.event (.faulted pc fault)]⟩
    match prepare.run bus memory b with
    | ⟨.error fault, memory, b, es⟩ => refused core fault memory b es
    | ⟨.ok prepared, memory, b, es⟩ =>
      match (execute prepared).run bus memory b with
      | ⟨.error fault, memory, b, fs⟩ => refused prepared.core fault memory b (es ++ fs)
      | ⟨.ok core, memory, b, fs⟩ =>
        ⟨.ok (prepared.operation.cost prepared.core.flags), ⟨core, memory, none, config⟩, b,
          es ++ fs⟩

/-- The execution of a prepared operation under the processor's settings. -/
def execution (config : Config) (p : Prepared) : Cycles Core :=
  p.core.execute config.delayedEi p.operation p.immediate

/-- Executes the instruction at the program counter. A halted processor takes no states. -/
def step (bus : Bus β) (cpu : Cpu) (b : β) : Reply Nat β :=
  match cpu.latch with
  | some l => ⟨.error l.fault, cpu, b, []⟩
  | none =>
    if cpu.core.halted then ⟨.ok 0, cpu, b, []⟩
    else cpu.carryOut bus (cpu.core.fetch cpu.config) (execution cpu.config) b

/-- Interrupts come back on by themselves after one was taken, where the settings say so. -/
def reenable (config : Config) (c : Core) : Core :=
  match config.interruptPolicy with
  | .manual => c
  | .autoReenable => { c with interruptsEnabled := true }

/-- Offers an interrupt opcode, which runs in place of a fetch with the program counter left as
it was. Nothing happens unless interrupts are accepted. -/
def interrupt (bus : Bus β) (code : Byte) (cpu : Cpu) (b : β) : Reply (Option Nat) β :=
  match cpu.latch with
  | some l => ⟨.error l.fault, cpu, b, []⟩
  | none =>
    if cpu.acceptsInterrupts then
      (cpu.carryOut bus (cpu.core.acknowledge cpu.config code)
        (fun p => return reenable cpu.config (← execution cpu.config p)) b).map some
    else ⟨.ok none, cpu, b, []⟩

/-- Cycles on the core from outside the program. A refusal is reported but not latched. -/
def manipulate (act : Core → Cycles Core) (cpu : Cpu) : Except Fault Unit × Cpu :=
  match (act cpu.core).perform cpu.memory with
  | (.ok core, memory) => (.ok (), { cpu with core, memory })
  | (.error fault, memory) => (.error fault, { cpu with memory })

def call (target : Word) (cpu : Cpu) : Except Fault Unit × Cpu := cpu.manipulate (·.call target)

def restart (n : Byte) (cpu : Cpu) : Except Fault Unit × Cpu := cpu.manipulate (·.restart n)

def ret (cpu : Cpu) : Except Fault Unit × Cpu := cpu.manipulate (·.ret)

def push (p : StackPair) (cpu : Cpu) : Except Fault Unit × Cpu := cpu.manipulate (·.push p)

def pop (p : StackPair) (cpu : Cpu) : Except Fault Unit × Cpu := cpu.manipulate (·.pop p)

/-- A push of a register pair, which cannot be the stack pointer. -/
def pushPair (p : Pair) (cpu : Cpu) : Except Fault Unit × Cpu :=
  match p.stackPair? with
  | some q => cpu.push q
  | none => (.error (.invalidStackOperand p), cpu)

/-- A pop of a register pair, which cannot be the stack pointer. -/
def popPair (p : Pair) (cpu : Cpu) : Except Fault Unit × Cpu :=
  match p.stackPair? with
  | some q => cpu.pop q
  | none => (.error (.invalidStackOperand p), cpu)

end Cpu

end Intel8080
