import Intel8080.Operation.Basic

/-! Signals from outside: a request to run an interrupt opcode, or to stop. -/

namespace Intel8080

inductive Signal where
  | interrupt (code : Byte)
  | powerOff
  deriving DecidableEq

/-- The request to restart at vector `n`, of which the last three bits count. -/
def Signal.rst (n : Byte) : Signal := .interrupt ((0xC7 : Byte) ||| (n &&& 0x07) <<< 3)

theorem Signal.rst_eq (n : Byte) : Signal.rst n = .interrupt (Operation.rst n.last).code := by
  have hmask : n &&& 0x07 = n.last := by
    apply UInt8.toNat_inj.mp
    rw [n.toNat_mask, UInt8.toNat_ofNat']
    omega
  rw [rst, hmask]
  generalize n.last = v
  revert v
  decide

end Intel8080
