import Intel8080.Proofs.Cpu.Ports
import Intel8080.Proofs.Cycles.Emissions
import Intel8080.Proofs.Mailbox.Coalescing
import Intel8080.Proofs.Mailbox.Draining
import Intel8080.Proofs.Session.Conservation
import Intel8080.Proofs.Session.Ends

/-! A run with a limit comes to an end. A lap of its loop that does not end it executes an
instruction, services an interrupt or waits until something arrives. The limit bounds the first,
and the signals that the run receives pay for the others: each for one interrupt at most and for
one wait at most. An interrupt cannot send, as an opcode that uses a port needs a byte behind it. -/

namespace Intel8080

open Relation

/-! ### Interrupts send nothing -/

namespace Cpu

variable {β : Type} {bus : Bus β} {cpu : Cpu} {b : β}

/-- A call sends nothing when neither its preparation nor its execution does. -/
theorem carryOut_posted {prepare : Cycles Prepared} {execute : Prepared → Cycles Core}
    (hp : ∀ n, posted (prepare.run bus cpu.memory b).emitted n = [])
    (he : ∀ p m b' n, (prepare.run bus cpu.memory b).result = .ok p →
      posted ((execute p).run bus m b').emitted n = []) (n : Nat) :
    posted (cpu.carryOut bus prepare execute b).emitted n = [] := by
  have hc := carriedOut bus prepare execute cpu b
  generalize cpu.carryOut bus prepare execute b = r at hc ⊢
  cases hc with
  | refused hrun =>
    rw [hrun] at hp
    rw [posted_append, hp]
    rfl
  | @failed p m b' _ _ _ _ _ hrun hexec =>
    have hfs := fun n => he p m b' n (congrArg Trail.result hrun)
    rw [hexec] at hfs
    rw [hrun] at hp
    simp only [posted_append, hp, hfs]
    rfl
  | @granted p m b' _ _ _ _ _ hrun hexec =>
    have hfs := fun n => he p m b' n (congrArg Trail.result hrun)
    rw [hexec] at hfs
    rw [hrun] at hp
    rw [posted_append, hp, hfs]
    rfl

theorem interrupt_posted (bus : Bus β) (code : Byte) (cpu : Cpu) (b : β) (n : Nat) :
    posted (cpu.interrupt bus code b).emitted n = [] := by
  cases ha : cpu.acceptsInterrupts with
  | false => cases hl : cpu.latch <;> simp only [interrupt, hl, ha] <;> rfl
  | true =>
    rw [interrupt_eq_carryOut bus code b ha]
    refine carryOut_posted (fun n => ?_) (fun p m b' n hp => ?_) n
    · exact (Core.acknowledge_quiet cpu.config code cpu.core).silent.posted n
    · have himplied := Core.acknowledge_implied hp
      obtain rfl := Core.acknowledge_prepared hp
      exact (execution_silent cpu.config himplied 0 _).posted n

end Cpu

namespace Session

open Mailbox

variable {β : Type}

/-! ### Laps -/

/-- A lap of the loop that does not end the run, with the signals it consumes. -/
inductive Lap (bus : Bus β) (limit : Option Nat) (s : Session β) : List Signal → Session β → Prop
  | running {t} (hr : s.round bus limit = (.running, t)) : Lap bus limit s s.mailbox.due t
  /-- Senders go on while the processor waits, until something has arrived. -/
  | woken {t m m' es} (hr : s.round bus limit = (.blocked, t))
      (hm : ReflTransGen Traffic t.mailbox m) (hw : m.wait? = some (true, m', es)) :
      Lap bus limit s (s.mailbox.due ++ m.due) (recordAll es { t with mailbox := m' })

/-- The boundaries of a run that began in `s`, with the laps and the signals so far. -/
inductive Laps (bus : Bus β) (limit : Option Nat) (s : Session β) :
    Nat → List Signal → Session β → Prop
  | start : Laps bus limit s 0 [] s.start
  | traffic {n xs t m} (h : Laps bus limit s n xs t) (hm : Traffic t.mailbox m) :
      Laps bus limit s n xs { t with mailbox := m }
  | lap {n xs ys t u} (h : Laps bus limit s n xs t) (hl : Lap bus limit t ys u) :
      Laps bus limit s (n + 1) (xs ++ ys) u

variable {bus : Bus β} {k n : Nat} {s t u : Session β} {xs ys : List Signal}

theorem traffics_pending {m m' : Mailbox} (h : ReflTransGen Traffic m m') :
    m'.pending = m.pending := by
  induction h with
  | refl => rfl
  | tail _ ht ih => exact (traffic_appends ht).1.trans ih

/-- A poll leaves a request pending only if one was pending before or has just arrived. -/
theorem waiting_poll_le (s : Session β) :
    s.mailbox.poll.1.pending.toList.length ≤ s.waiting + s.mailbox.due.length := by
  have hbalance := poll_balance s.mailbox
  have hrequests : (requests s.mailbox.due).length ≤ s.mailbox.due.length :=
    List.length_filterMap_le _ _
  rw [waiting_eq]
  omega

/-- What a lap costs: an instruction that the limit allows, or a signal. -/
structure Paid (k : Nat) (s : Session β) (ys : List Signal) (t : Session β) : Prop where
  instructions : s.tally.instructions ≤ k → t.tally.instructions ≤ k
  laps : s.tally.instructions + 1 + t.waiting ≤
    t.tally.instructions + s.waiting + 2 * ys.length

/-- A signal pays for two laps: the wait that it ends and the interrupt that it asks for. -/
theorem Lap.paid (h : Lap bus (some k) s ys t) : Paid k s ys t := by
  have hpoll := s.waiting_poll_le
  cases h with
  | running hr =>
    cases rounded_of_round hr with
    | @serviced _ code _ _ _ hp _ _ hm ht =>
      have hgone : t.waiting = 0 := by
        rw [waiting_eq, traffics_pending hm]
        rfl
      have hcount : t.tally.instructions = s.tally.instructions := by rw [ht]; rfl
      rw [hp, Option.toList_some, List.length_singleton] at hpoll
      exact ⟨fun hk => hcount ▸ hk, by omega⟩
    | stepped _ _ hl _ _ hm ht =>
      have hkept : t.waiting = s.mailbox.poll.1.pending.toList.length := by
        rw [waiting_eq, traffics_pending hm]
      have hcount : t.tally.instructions = s.tally.instructions + 1 := by rw [ht]; rfl
      have hbelow := hl k rfl
      exact ⟨fun _ => by omega, by omega⟩
  | @woken t m m' es hr hm hw =>
    cases rounded_of_round hr with
    | blocked _ _ _ _ _ hmail ht =>
      obtain ⟨rfl, ⟨-, hc, hq⟩ | ⟨hwoken, -⟩⟩ := wait?_eq_some hw
      · -- the wait ends with a signal at least, and that pays for it
        have harrived : 1 ≤ m.due.length := by
          rw [due_of_connected hc]
          exact List.length_pos_of_ne_nil hq
        have hsent := waiting_poll_le { t with mailbox := m }
        have hkept : waiting { t with mailbox := m } = s.mailbox.poll.1.pending.toList.length := by
          rw [waiting_eq, traffics_pending hm, hmail]
        have hleft : waiting (recordAll es { t with mailbox := m.poll.1 }) =
            m.poll.1.pending.toList.length := waiting_eq _
        refine ⟨fun hk => ht ▸ hk, ?_⟩
        rw [hleft, List.length_append]
        simp only [recordAll, ht]
        dsimp only at hsent
        omega
      · cases hwoken

/-- All laps of a run together. -/
theorem Laps.paid (h : Laps bus (some k) s n xs t) :
    t.tally.instructions ≤ k ∧
      n + t.waiting ≤ t.tally.instructions + s.waiting + 2 * xs.length := by
  induction h with
  | start =>
    refine ⟨Nat.zero_le k, ?_⟩
    change 0 + s.waiting ≤ 0 + s.waiting + 0
    omega
  | @traffic _ _ t m _ hm ih =>
    have hkept : waiting { t with mailbox := m } = t.waiting := by
      rw [waiting_eq, waiting_eq, (traffic_appends hm).1]
    rw [hkept]
    exact ih
  | lap _ hl ih =>
    have hpaid := hl.paid
    have hlaps := hpaid.laps
    refine ⟨hpaid.instructions ih.1, ?_⟩
    rw [List.length_append]
    omega

/-! ### Left to itself, a run ends -/

/-- An interrupt leaves nothing behind that the next round could service. -/
theorem serviced_leaves {limit : Option Nat} {code : Byte} (hx : s.poll.turn limit = .service code)
    (hr : s.round bus limit = (.running, t)) :
    t.mailbox.due = [] ∧ t.mailbox.pending = none := by
  have hmail : t.mailbox =
      (s.poll.withdraw.after (s.cpu.interrupt bus code s.device)).mailbox := by
    rw [round_of_service hx] at hr
    split at hr <;> cases hr
    rfl
  obtain ⟨hq, hp, -, hc⟩ := absorbAll_mailbox (s.cpu.interrupt bus code s.device).emitted
    { s.poll.withdraw with
      cpu := (s.cpu.interrupt bus code s.device).cpu
      device := (s.cpu.interrupt bus code s.device).bus }
  rw [Cpu.interrupt_posted, List.append_nil] at hq
  rw [hmail]
  refine ⟨?_, hp⟩
  unfold due
  rw [after, hq, hc]
  exact due_poll s.mailbox

/-- So the next round does not service an interrupt. -/
theorem round_of_none (hd : s.mailbox.due = []) (hp : s.mailbox.pending = none)
    (hr : s.round bus (some k) = (.running, t)) :
    s.tally.instructions < k ∧ t.tally.instructions = s.tally.instructions + 1 := by
  cases rounded_of_round hr with
  | serviced _ _ hcode =>
    rw [poll_pending_of_due hd, hp] at hcode
    cases hcode
  | stepped _ _ hl _ _ _ ht => exact ⟨hl k rfl, by rw [ht]; rfl⟩

/-- Every second round at least executes an instruction, until the limit is reached. -/
theorem ends_of_limit (bus : Bus β) (k : Nat) (s : Session β) :
    ∃ p u, Ends bus (some k) s p u := by
  induction hk : k - s.tally.instructions using Nat.strong_induction_on generalizing s with
  | _ j ih =>
    rcases hr : s.round bus (some k) with ⟨p, t⟩
    by_cases hp : p = .running
    · subst hp
      obtain ⟨q, u, hends⟩ : ∃ q u, Ends bus (some k) t q u := by
        cases rounded_of_round hr with
        | stepped _ _ hl _ _ _ ht =>
          have hbelow := hl k rfl
          have hcount : t.tally.instructions = s.tally.instructions + 1 := by rw [ht]; rfl
          exact ih _ (by omega) t rfl
        | serviced ho ha hp _ _ _ ht =>
          have hcount : t.tally.instructions = s.tally.instructions := by rw [ht]; rfl
          have hx : s.poll.turn (some k) = .service _ := Decided.turn_eq (.service ho ha hp)
          obtain ⟨hdue, hnone⟩ := serviced_leaves hx hr
          rcases hr' : t.round bus (some k) with ⟨q, v⟩
          by_cases hq : q = .running
          · subst hq
            obtain ⟨hbelow, hnext⟩ := round_of_none hdue hnone hr'
            obtain ⟨q, u, hends⟩ := ih _ (by omega) v rfl
            exact ⟨q, u, .more hr' hends⟩
          · exact ⟨q, v, .last hr' hq⟩
      exact ⟨q, u, .more hr hends⟩
    · exact ⟨p, t, .last hr hp⟩

/-- The rounds up to the end are laps, and then one more. -/
theorem Ends.laps {limit : Option Nat} {p : Progress} (h : Ends bus limit t p u)
    (hl : Laps bus limit s n xs t) :
    ∃ m ys v, Laps bus limit s (n + m) (xs ++ ys) v ∧ v.round bus limit = (p, u) ∧
      t.run bus limit (m + 1) = (p, u) := by
  induction h generalizing n xs with
  | @last t p u hr hp =>
    refine ⟨0, [], t, ?_, hr, run_succ_of_ne_running hr hp 0⟩
    rw [List.append_nil]
    exact hl
  | @more t t' p u hr _ ih =>
    obtain ⟨m, ys, v, hlaps, hround, hrun⟩ := ih (hl.lap (.running hr))
    refine ⟨m + 1, t.mailbox.due ++ ys, v, ?_, hround, ?_⟩
    · rwa [← Nat.add_assoc, Nat.add_right_comm, ← List.append_assoc]
    · rw [run_succ, hr]
      exact hrun

/-! ### Every run -/

/-- What the limit `k` says of every run that begins in `s`. -/
structure Terminates (bus : Bus β) (k : Nat) (s : Session β) : Prop where
  /-- The laps behind every boundary and the one ahead, by the signals received until then. -/
  laps : ∀ n xs t, Laps bus (some k) s n xs t → n + 1 ≤ k + 2 * xs.length + 2
  /-- Once nobody else sends there is a last lap, with which the run returns or blocks. -/
  ends : ∀ n xs t, Laps bus (some k) s n xs t → ∃ m ys v p u,
    Laps bus (some k) s (n + m) (xs ++ ys) v ∧ v.round bus (some k) = (p, u) ∧ p ≠ .running ∧
      t.run bus (some k) (m + 1) = (p, u)
  /-- It only blocks for want of a signal that may still come. -/
  blocked : ∀ n xs t u, Laps bus (some k) s n xs t → t.round bus (some k) = (.blocked, u) →
    u.mailbox.connected = true ∧ u.mailbox.queue = [] ∧ u.mailbox.senders ≠ 0
  /-- Every poll ends, at a boundary and in a wait, however much is sent while it goes on. -/
  polls : ∀ m j ys zs m', Polling m j ys zs m' →
    j ≤ m.queue.length + zs.length ∧ Drains m' m'.due m'.poll.1

theorem limited_run_terminates (bus : Bus β) (k : Nat) (s : Session β) : Terminates bus k s where
  laps n xs t h := by
    obtain ⟨hk, hlaps⟩ := h.paid
    have hone : s.waiting ≤ 1 := by
      unfold waiting
      split <;> omega
    omega
  ends n xs t h := by
    obtain ⟨p, u, hends⟩ := ends_of_limit bus k t
    obtain ⟨m, ys, v, hlaps, hround, hrun⟩ := hends.laps h
    exact ⟨m, ys, v, p, u, hlaps, hround, hends.ne_running, hrun⟩
  blocked n xs t u _ hr := by
    cases rounded_of_round hr with
    | blocked _ _ _ hw _ hm =>
      obtain ⟨hc, hs, hq⟩ := wait?_none hw
      rw [hm]
      exact ⟨hc, hq, hs⟩
  polls _ _ _ _ _ h := h.ends

end Session

end Intel8080
