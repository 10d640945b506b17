import Intel8080.Main
import Intel8080.Proofs.Cpu.History
import Intel8080.Proofs.Manual.Step
import Intel8080.Proofs.Session.Latched
import Intel8080.Proofs.Session.StopReasons
import Intel8080.Script
import Intel8080.Proofs.Session.Ends
import Intel8080.Proofs.Session.Resumption
import Intel8080.Proofs.Session.PowerOff
import Intel8080.Proofs.Session.Ledger
import Intel8080.Proofs.Session.Conservation
import Intel8080.Proofs.Cpu.Demands
import Intel8080.Proofs.Session.Faults
import Intel8080.Proofs.Cycles.Locality
import Intel8080.Proofs.Cpu.Recording
import Intel8080.Proofs.Cpu.Enlarged
import Intel8080.Proofs.Cpu.Delivery
import Intel8080.Proofs.Cpu.Handler
import Intel8080.Proofs.Cpu.Aftermath
import Intel8080.Proofs.Mailbox.History
import Intel8080.Proofs.Session.Coalescing
import Intel8080.Proofs.Session.Stepping
import Intel8080.Proofs.Cpu.Ports
import Intel8080.Proofs.Session.Ports
import Intel8080.Proofs.Session.Console
import Intel8080.Proofs.Runner.FaultAddress
import Intel8080.Proofs.Runner.Untimed
import Intel8080.Proofs.CommandLine.RoundTrip
import Intel8080.Proofs.Cpu.Undefined
import Intel8080.Proofs.Cpu.LastInFirstOut
import Intel8080.Proofs.Alu.Decimal
import Intel8080.Proofs.Alu.Shift
import Intel8080.Proofs.Numeral.Grammar
import Intel8080.Proofs.Memory.Contents
import Intel8080.Proofs.Session.Termination
import Intel8080.Proofs.Session.Chronicle
