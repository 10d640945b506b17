import Intel8080.Proofs.Cpu.Boundary

/-! Steps one after the other, as long as none of them faults, and the states that they take
together. -/

namespace Intel8080.Cpu

variable {β : Type} {bus : Bus β} {cpu : Cpu} {b : β}

/-- Steps one after the other, none of which faults. -/
def steps (bus : Bus β) : Nat → Cpu → β → Except Fault (Cpu × β)
  | 0, cpu, b => .ok (cpu, b)
  | k + 1, cpu, b =>
    match cpu.step bus b with
    | ⟨.ok _, cpu, b, _⟩ => steps bus k cpu b
    | ⟨.error f, _, _, _⟩ => .error f

/-- The states that these steps take. -/
def spent (bus : Bus β) : Nat → Cpu → β → Nat
  | 0, _, _ => 0
  | k + 1, cpu, b =>
    match cpu.step bus b with
    | ⟨.ok n, cpu, b, _⟩ => n + spent bus k cpu b
    | ⟨.error _, _, _, _⟩ => 0

theorem steps_succ {cpu' : Cpu} {b' : β} {n : Nat} {es : List Emission} (k : Nat)
    (h : cpu.step bus b = ⟨.ok n, cpu', b', es⟩) :
    steps bus (k + 1) cpu b = steps bus k cpu' b' := by
  rw [steps, h]

theorem steps_add {j : Nat} {cpu' : Cpu} {b' : β} (k : Nat)
    (h : steps bus j cpu b = .ok (cpu', b')) :
    steps bus (j + k) cpu b = steps bus k cpu' b' := by
  induction j generalizing cpu b with
  | zero =>
    obtain ⟨rfl, rfl⟩ := Prod.mk.inj (Except.ok.inj h)
    rw [Nat.zero_add]
  | succ j ih =>
    rw [Nat.succ_add, steps]
    rw [steps] at h
    split at h
    next => exact ih h
    next => cases h

/-- Steps that do not fault leave no fault latched. -/
theorem steps_unlatched {k : Nat} {cpu' : Cpu} {b' : β} (hl : cpu.latch = none)
    (h : steps bus k cpu b = .ok (cpu', b')) : cpu'.latch = none := by
  induction k generalizing cpu b with
  | zero =>
    obtain ⟨rfl, -⟩ := Prod.mk.inj (Except.ok.inj h)
    exact hl
  | succ k ih =>
    rw [steps] at h
    have hs := step_stepped bus cpu b
    split at h
    next hstep =>
      rw [hstep] at hs
      exact ih hs.unlatched h
    next => cases h

/-- One step more. -/
theorem steps_concat {k n : Nat} {c c' : Cpu} {b' b'' : β} {es : List Emission}
    (h : steps bus k cpu b = .ok (c, b')) (hs : c.step bus b' = ⟨.ok n, c', b'', es⟩) :
    steps bus (k + 1) cpu b = .ok (c', b'') ∧
      spent bus (k + 1) cpu b = spent bus k cpu b + n := by
  refine ⟨?_, ?_⟩
  · rw [steps_add 1 h, steps_succ 0 hs, steps]
  · induction k generalizing cpu b with
    | zero =>
      obtain ⟨rfl, rfl⟩ := Prod.mk.inj (Except.ok.inj h)
      simp only [spent, hs, Nat.add_zero, Nat.zero_add]
    | succ k ih =>
      rw [steps] at h
      split at h
      next hstep =>
        rw [spent, spent, hstep]
        dsimp only
        rw [ih h, Nat.add_assoc]
      next => cases h

/-- If no step faults, none of the earlier ones does. -/
theorem steps_of_le {j k : Nat} {c : Cpu} {b' : β} (h : steps bus k cpu b = .ok (c, b'))
    (hj : j ≤ k) : ∃ d e, steps bus j cpu b = .ok (d, e) := by
  induction j generalizing k cpu b with
  | zero => exact ⟨cpu, b, rfl⟩
  | succ j ih =>
    obtain ⟨k, rfl⟩ := Nat.exists_eq_add_of_le' hj
    rw [← Nat.add_assoc, steps] at h
    rw [steps]
    split at h
    next => exact ih h (Nat.le_add_left j k)
    next => cases h

end Intel8080.Cpu
