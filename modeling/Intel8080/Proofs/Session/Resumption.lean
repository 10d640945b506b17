import Intel8080.Proofs.Session.Ends

/-! A run that stops at its instruction limit can be resumed: a second run goes on exactly where a
single run with both limits together would be. The stop leaves the session at a boundary where the
same decisions are made again, since polling twice is polling once. What the runs count adds up. -/

namespace Intel8080.Session

variable {β : Type}

/-- The first session is where the second is, with `d` counted before. The logs may differ. -/
structure Ahead (d : Tally) (s t : Session β) : Prop where
  cpu : s.cpu = t.cpu
  device : s.device = t.device
  mailbox : s.mailbox = t.mailbox
  tally : s.tally = d + t.tally

/-- The same progress, in sessions of which the first is ahead. -/
structure InStep (d : Tally) (r r' : Progress × Session β) : Prop where
  progress : r.1 = r'.1
  ahead : Ahead d r.2 r'.2

variable {bus : Bus β} {limit : Option Nat} {s t u v : Session β} {d : Tally} {p : Progress}

theorem InStep.of_eq {r : Progress × Session β} (h : InStep d r (p, u)) :
    ∃ v, r = (p, v) ∧ Ahead d v u :=
  ⟨r.2, Prod.ext h.progress rfl, h.ahead⟩

theorem InStep.eq_of {r : Progress × Session β} (h : InStep d (p, v) r) :
    ∃ u, r = (p, u) ∧ Ahead d v u :=
  ⟨r.2, Prod.ext h.progress.symm rfl, h.ahead⟩

/-! ### A head start makes no difference -/

namespace Ahead

theorem record (h : Ahead d s t) (e f : Event) : Ahead d (s.record e) (t.record f) :=
  ⟨h.cpu, h.device, h.mailbox, h.tally⟩

theorem recordAll (h : Ahead d s t) (es fs : List Event) :
    Ahead d (s.recordAll es) (t.recordAll fs) :=
  ⟨h.cpu, h.device, h.mailbox, h.tally⟩

theorem withMailbox (h : Ahead d s t) (m : Mailbox) :
    Ahead d { s with mailbox := m } { t with mailbox := m } :=
  ⟨h.cpu, h.device, rfl, h.tally⟩

theorem count (h : Ahead d s t) (x : Tally) :
    Ahead d { s with tally := s.tally + x } { t with tally := t.tally + x } :=
  ⟨h.cpu, h.device, h.mailbox, by rw [h.tally, Tally.add_assoc]⟩

theorem withdraw (h : Ahead d s t) : Ahead d s.withdraw t.withdraw := by
  rw [Session.withdraw, Session.withdraw, h.mailbox]
  exact h.withMailbox _

theorem poll (h : Ahead d s t) : Ahead d s.poll t.poll := by
  rw [Session.poll, Session.poll, h.mailbox]
  exact (h.withMailbox _).recordAll _ _

theorem absorb (h : Ahead d s t) (e : Emission) : Ahead d (s.absorb e) (t.absorb e) := by
  cases e with
  | signal x | hangUp =>
    simp only [Session.absorb, h.mailbox]
    exact h.withMailbox _
  | event e => exact h.record e e

theorem absorbAll (h : Ahead d s t) (es : List Emission) :
    Ahead d (absorbAll es s) (absorbAll es t) := by
  induction es generalizing s t with
  | nil => exact h
  | cons e es ih => exact ih (h.absorb e)

/-- A call on the processor has the same answer and the same effects. -/
theorem apply {α : Type} (h : Ahead d s t) (call : Cpu → β → Reply α β) :
    (s.apply call).1 = (t.apply call).1 ∧ Ahead d (s.apply call).2 (t.apply call).2 := by
  rcases s with ⟨cpu, device, mailbox, tally, log⟩
  rcases t with ⟨cpu', device', mailbox', tally', log'⟩
  obtain ⟨hc, hd, hm, ht⟩ := h
  dsimp only at hc hd hm ht
  subst hc hd hm ht
  have ha : Ahead d ⟨(call cpu device).cpu, (call cpu device).bus, mailbox, d + tally', log⟩
      ⟨(call cpu device).cpu, (call cpu device).bus, mailbox, tally', log'⟩ := ⟨rfl, rfl, rfl, rfl⟩
  exact ⟨rfl, ha.absorbAll _⟩

theorem stop (h : Ahead d s t) (reason : StopReason) : InStep d (s.stop reason) (t.stop reason) :=
  ⟨rfl, h.record _ _⟩

theorem await (h : Ahead d s t) : InStep d s.await t.await := by
  simp only [Session.await, ← h.cpu, ← h.mailbox]
  split
  · split
    · exact ⟨rfl, h⟩
    · exact ⟨rfl, rfl, h.device, rfl, h.tally⟩
    · exact ⟨rfl, rfl, h.device, rfl, h.tally⟩
  · exact h.stop .halted

/-- The decision is the same under a limit that is higher by what was counted before. -/
theorem turn (h : Ahead d s t) (limit : Option Nat) :
    s.turn (limit.map (d.instructions + ·)) = t.turn limit := by
  have hcount : s.tally.instructions = d.instructions + t.tally.instructions :=
    congrArg Tally.instructions h.tally
  have hany : (limit.map (d.instructions + ·)).any (fun n => decide (n ≤ s.tally.instructions)) =
      limit.any fun n => decide (n ≤ t.tally.instructions) := by
    cases limit with
    | none => rfl
    | some n => simp [hcount]
  rw [Session.turn, Session.turn, hany, h.cpu, h.mailbox]

theorem act (h : Ahead d s t) (x : Turn) : InStep d (s.act bus x) (t.act bus x) := by
  cases x with
  | powerOff => exact (h.record _ _).stop .powerOff
  | rest => exact h.await
  | limit => exact h.stop .instructionLimit
  | service code =>
    obtain ⟨hres, ha⟩ := h.withdraw.apply (Cpu.interrupt bus code)
    simp only [Session.act, Session.interrupt]
    rcases hs : s.withdraw.apply (Cpu.interrupt bus code) with ⟨r, s'⟩
    rcases ht : t.withdraw.apply (Cpu.interrupt bus code) with ⟨r', t'⟩
    rw [hs, ht] at hres ha
    dsimp only at hres
    subst hres
    cases r with
    | error fault => exact ⟨rfl, ha⟩
    | ok cost => exact ⟨rfl, ha.count ⟨0, 1, cost.getD 0⟩⟩
  | execute =>
    obtain ⟨hres, ha⟩ := h.apply (Cpu.step bus)
    simp only [Session.act, Session.step]
    rcases hs : s.apply (Cpu.step bus) with ⟨r, s'⟩
    rcases ht : t.apply (Cpu.step bus) with ⟨r', t'⟩
    rw [hs, ht] at hres ha
    dsimp only at hres
    subst hres
    cases r with
    | error fault => exact ⟨rfl, ha⟩
    | ok cost => exact ⟨rfl, ha.count ⟨1, 0, cost⟩⟩

theorem round (h : Ahead d s t) (bus : Bus β) (limit : Option Nat) :
    InStep d (s.round bus (limit.map (d.instructions + ·))) (t.round bus limit) := by
  rw [round_eq_act, round_eq_act, h.poll.turn]
  exact h.poll.act _

theorem run (h : Ahead d s t) (bus : Bus β) (limit : Option Nat) (k : Nat) :
    InStep d (s.run bus (limit.map (d.instructions + ·)) k) (t.run bus limit k) := by
  induction k generalizing s t with
  | zero => exact ⟨rfl, h⟩
  | succ k ih =>
    have hround := h.round bus limit
    rcases ht : t.round bus limit with ⟨q, t'⟩
    rw [ht] at hround
    obtain ⟨s', hs, ha⟩ := hround.of_eq
    rw [run_succ, run_succ, hs, ht]
    cases q with
    | running => exact ih ha
    | blocked | stopped | faulted => exact ⟨rfl, ha⟩

theorem ends (h : Ahead d s t) (ht : Ends bus limit t p u) :
    ∃ v, Ends bus (limit.map (d.instructions + ·)) s p v ∧ Ahead d v u := by
  obtain ⟨hp, k, hk⟩ := ends_iff_run.mp ht
  have hrun := h.run bus limit k
  rw [hk] at hrun
  obtain ⟨v, hv, ha⟩ := hrun.of_eq
  exact ⟨v, ends_iff_run.mpr ⟨hp, k, hv⟩, ha⟩

theorem ends_of (h : Ahead d s t) (hs : Ends bus (limit.map (d.instructions + ·)) s p v) :
    ∃ u, Ends bus limit t p u ∧ Ahead d v u := by
  obtain ⟨hp, k, hk⟩ := ends_iff_run.mp hs
  have hrun := h.run bus limit k
  rw [hk] at hrun
  obtain ⟨u, hu, ha⟩ := hrun.eq_of
  exact ⟨u, ends_iff_run.mpr ⟨hp, k, hu⟩, ha⟩

end Ahead

/-! ### A higher limit -/

theorem poll_poll (s : Session β) : s.poll.poll = s.poll := by
  have hm := Mailbox.poll_poll s.mailbox
  rcases s with ⟨cpu, device, mailbox, tally, log⟩
  simp only [poll, recordAll, hm, Array.appendList_nil]

/-- A round polls first, so it does the same when that was done already. -/
theorem round_poll (bus : Bus β) (limit : Option Nat) (s : Session β) :
    s.poll.round bus limit = s.round bus limit := by
  rw [round_eq_act, round_eq_act, poll_poll]

theorem ends_poll_iff : Ends bus limit s.poll p u ↔ Ends bus limit s p u := by
  rcases hr : s.round bus limit with ⟨q, t⟩
  have hr' : s.poll.round bus limit = (q, t) := (round_poll bus limit s).trans hr
  by_cases hq : q = .running
  · subst hq
    rw [ends_iff_of_running hr, ends_iff_of_running hr']
  · rw [ends_iff_of_ne_running hr hq, ends_iff_of_ne_running hr' hq]

theorem turn_add_limit {m : Nat} (n : Nat) (h : s.turn (some m) ≠ .limit) :
    s.turn (some (m + n)) = s.turn (some m) := by
  apply Decided.turn_eq
  have hd := turn_decided (some m) s
  generalize s.turn (some m) = x at h hd
  cases hd with
  | powerOff ho => exact .powerOff ho
  | service ho ha hp => exact .service ho ha hp
  | rest hu hh => exact .rest hu hh
  | limit => exact absurd rfl h
  | execute hu hh hl =>
    refine .execute hu hh fun k hk => ?_
    obtain rfl := Option.some.inj hk
    exact Nat.lt_add_right n (hl m rfl)

theorem await_ne_limit (s : Session β) : s.await.1 ≠ .stopped .instructionLimit := by
  unfold await
  split
  · split <;> nofun
  · nofun

/-- Only the decision for the limit says that the limit was reached. -/
theorem act_eq_limit {x : Turn} (h : (s.act bus x).1 = .stopped .instructionLimit) :
    x = .limit := by
  cases x with
  | limit => rfl
  | powerOff => cases h
  | rest => exact absurd h s.await_ne_limit
  | service code =>
    simp only [act] at h
    split at h <;> cases h
  | execute =>
    simp only [act] at h
    split at h <;> cases h

theorem round_add_limit {m : Nat} (n : Nat)
    (h : (s.round bus (some m)).1 ≠ .stopped .instructionLimit) :
    s.round bus (some (m + n)) = s.round bus (some m) := by
  rw [round_eq_act] at h ⊢
  rw [round_eq_act, turn_add_limit]
  intro hx
  rw [hx] at h
  exact h rfl

/-- A run that does not stop at its limit does not notice a higher one. -/
theorem Ends.add_limit {m : Nat} (n : Nat) (h : Ends bus (some m) s p u)
    (hp : p ≠ .stopped .instructionLimit) : Ends bus (some (m + n)) s p u := by
  induction h with
  | last hr hrun =>
    refine .last ?_ hrun
    rw [round_add_limit n, hr]
    rw [hr]
    exact hp
  | more hr _ ih =>
    refine .more ?_ (ih hp)
    rw [round_add_limit n, hr]
    rw [hr]
    nofun

/-- The count of a run that goes on stays within the limit. -/
theorem round_within {m : Nat} (hr : s.round bus (some m) = (.running, t))
    (hm : s.tally.instructions ≤ m) : t.tally.instructions ≤ m := by
  cases rounded_of_round hr with
  | serviced _ _ _ _ _ _ ht =>
    rw [ht]
    exact hm
  | stepped _ _ hl _ _ _ ht =>
    rw [ht]
    exact hl m rfl

/-- A run that stops at its limit is polled, and ahead of its next start by what it counted. -/
theorem round_eq_limit {m : Nat} (hr : s.round bus (some m) = (.stopped .instructionLimit, t))
    (hm : s.tally.instructions ≤ m) :
    t.tally.instructions = m ∧ Ahead t.tally s.poll t.start := by
  rw [round_eq_act] at hr
  have hx : s.poll.turn (some m) = .limit := act_eq_limit (congrArg Prod.fst hr)
  have hd := turn_decided (some m) s.poll
  rw [hx] at hr hd
  obtain rfl := (Prod.mk.inj hr).2
  cases hd with
  | limit hu hh hl hn =>
    obtain rfl := Option.some.inj hl
    exact ⟨Nat.le_antisymm hm hn, rfl, rfl, rfl, rfl⟩

/-! ### Resuming -/

/-- A run that stopped at its limit `m` in `t` goes on from there under another limit as a single
run under both does. -/
theorem Ends.resume {m n : Nat} (h : Ends bus (some m) s (.stopped .instructionLimit) t)
    (hm : s.tally.instructions ≤ m) :
    (∀ p u, Ends bus (some n) t.start p u →
        ∃ v, Ends bus (some (m + n)) s p v ∧ Ahead t.tally v u) ∧
      ∀ p v, Ends bus (some (m + n)) s p v →
        ∃ u, Ends bus (some n) t.start p u ∧ Ahead t.tally v u := by
  generalize hq : Progress.stopped .instructionLimit = q at h
  induction h with
  | @last s q t hr hrun =>
    subst hq
    obtain ⟨hcount, ha⟩ := round_eq_limit hr hm
    have hlimit : some (m + n) = (some n).map (t.tally.instructions + ·) := by rw [hcount]; rfl
    rw [hlimit]
    refine ⟨fun p u hu => ?_, fun p v hv => ?_⟩
    · obtain ⟨v, hv, hvu⟩ := ha.ends hu
      exact ⟨v, ends_poll_iff.mp hv, hvu⟩
    · exact ha.ends_of (ends_poll_iff.mpr hv)
  | @more s s' q t hr _ ih =>
    have hr' : s.round bus (some (m + n)) = (.running, s') := by
      rw [round_add_limit n, hr]
      rw [hr]
      nofun
    simp only [ends_iff_of_running hr']
    exact ih (round_within hr hm) hq

/-- Two runs of which the first stops at its limit are one run under the sum of the limits: it comes
to the same end and counts what both count. Any other end of the first run is that of the longer
run as well. -/
theorem runs_compose (bus : Bus β) (s : Session β) (m n : Nat) :
    (∀ t, Ends bus (some m) s.start (.stopped .instructionLimit) t →
        (∀ p u, Ends bus (some n) t.start p u →
          ∃ v, Ends bus (some (m + n)) s.start p v ∧ Ahead t.tally v u) ∧
        ∀ p v, Ends bus (some (m + n)) s.start p v →
          ∃ u, Ends bus (some n) t.start p u ∧ Ahead t.tally v u) ∧
      ∀ p u, p ≠ .stopped .instructionLimit → Ends bus (some m) s.start p u →
        Ends bus (some (m + n)) s.start p u :=
  ⟨fun _ h => h.resume (Nat.zero_le m), fun _ _ hp h => h.add_limit n hp⟩

/-- A device that asks for an interrupt at every write. -/
def bell : Bus Unit where
  read _ _ := (0, (), [])
  write _ _ _ := ((), [.signal (.interrupt 0x00)])

/-- A new processor in front of an OUT and a NOP. -/
def beforeOut : Session Unit where
  cpu := ⟨Core.initial { memorySize := 3 }, ⟨#[0xD3, 0x00, 0x00], by decide, by decide⟩, none,
    { memorySize := 3 }⟩
  device := ()

/-- Where a run ends that is limited to the OUT: behind the interrupt that the OUT brought about. -/
def behindInterrupt : Session Unit := (beforeOut.start.run bell (some 1) 3).2

/-- The second run executes the NOP, as a run of two instructions does after the interrupt. -/
theorem runs_compose_after_interrupt :
    Ends bell (some 1) beforeOut.start (.stopped .instructionLimit) behindInterrupt ∧
      behindInterrupt.tally = ⟨1, 1, 14⟩ ∧
      ∃ u v, Ends bell (some 1) behindInterrupt.start (.stopped .instructionLimit) u ∧
        u.tally = ⟨1, 0, 4⟩ ∧ Ends bell (some 2) beforeOut.start (.stopped .instructionLimit) v ∧
        Ahead behindInterrupt.tally v u := by
  have ht : Ends bell (some 1) beforeOut.start (.stopped .instructionLimit) behindInterrupt :=
    ends_iff_run.mpr ⟨nofun, 3, rfl⟩
  have hu : Ends bell (some 1) behindInterrupt.start (.stopped .instructionLimit)
      (behindInterrupt.start.run bell (some 1) 2).2 := ends_iff_run.mpr ⟨nofun, 2, rfl⟩
  obtain ⟨v, hv, ha⟩ := ((runs_compose bell beforeOut 1 1).1 _ ht).1 _ _ hu
  exact ⟨ht, rfl, _, v, hu, rfl, hv, ha⟩

end Intel8080.Session
