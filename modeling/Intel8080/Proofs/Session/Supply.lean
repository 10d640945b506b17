import Intel8080.Proofs.Mailbox.Interleaving
import Intel8080.Proofs.Session.Schedule

/-! Runs on devices that agree, among other senders. Clones of a sender come and go at any time. So
a run can always be left with enough senders, whatever its device gives up of them, and it can lose
them all where another run has lost its own. Whatever the traffic on one device, then, some traffic
makes of the run on the other device the same. -/

namespace Intel8080

open Relation

variable {β γ : Type}

namespace Mailbox

variable {m m' n : Mailbox}

theorem traffics_of_no_senders (h : ReflTransGen Traffic m m') (hs : m.senders = 0) : m' = m := by
  induction h with
  | refl => rfl
  | tail _ ht ih =>
    subst ih
    exact ht.eq_of_no_senders hs

theorem traffics_addSenders (h : m.senders ≠ 0) (k : Nat) :
    ReflTransGen Traffic m { m with senders := m.senders + k } := by
  induction k with
  | zero => exact .refl
  | succ k ih => exact ih.tail (.addSender (by dsimp only; omega))

theorem traffics_dropSenders (m : Mailbox) (k : Nat) :
    ReflTransGen Traffic m { m with senders := m.senders - k } := by
  induction k with
  | zero => exact .refl
  | succ k ih => exact ih.tail (.dropSender _)

/-- While the first mailbox has senders, so has the second, and both are connected alike. -/
def Supplied (m m' : Mailbox) : Prop :=
  m.senders ≠ 0 → m'.senders ≠ 0 ∧ m'.connected = m.connected

theorem Supplied.refl (m : Mailbox) : Supplied m m := fun h => ⟨h, rfl⟩

/-- The senders of the second can send what those of the first send. -/
theorem Supplied.traffic (h : Supplied m m') (hl : Level m m') (ht : Traffic m n) :
    ∃ n', ReflTransGen Traffic m' n' ∧ Level n n' ∧ Supplied n n' := by
  by_cases hs : m.senders = 0
  · obtain rfl := ht.eq_of_no_senders hs
    exact ⟨m', .refl, hl, h⟩
  · obtain ⟨hs', hc⟩ := h hs
    cases ht with
    | send x =>
      have hsend : m.send x = { m with queue := m.queue ++ [x] } := if_neg hs
      have hsend' : m'.send x = { m' with queue := m'.queue ++ [x] } := if_neg hs'
      refine ⟨_, .single (.send m' x), ?_, ?_⟩
      · rw [hsend, hsend']
        exact ⟨congrArg (· ++ [x]) hl.queue, hl.pending, hl.powerOff, .inl hc⟩
      · rw [hsend, hsend']
        exact fun _ => ⟨hs', hc⟩
    | addSender => exact ⟨m', .refl, ⟨hl.queue, hl.pending, hl.powerOff, hl.connected⟩,
        fun _ => ⟨hs', hc⟩⟩
    | dropSender => exact ⟨m', .refl, ⟨hl.queue, hl.pending, hl.powerOff, hl.connected⟩,
        fun _ => ⟨hs', hc⟩⟩

end Mailbox

namespace Session

open Mailbox

variable {R : β → γ → Prop} {bus : Bus β} {bus' : Bus γ} {limit : Option Nat}
  {s s₀ u : Session β} {t t₀ : Session γ} {p : Progress} {xs : List Signal}

/-! ### How many senders a round leaves -/

/-- How much the device emits at most in a turn. -/
def emissions (bus : Bus β) (cpu : Cpu) (b : β) : Turn → Nat
  | .service code => (cpu.interrupt bus code b).emitted.length
  | .execute => (cpu.step bus b).emitted.length
  | .powerOff | .rest | .limit => 0

theorem absorbAll_senders (es : List Emission) (s : Session β) :
    s.mailbox.senders ≤ (absorbAll es s).mailbox.senders + es.length := by
  induction es generalizing s with
  | nil => exact Nat.le_refl _
  | cons e es ih =>
    have hone : s.mailbox.senders ≤ (s.absorb e).mailbox.senders + 1 := by
      cases e with
      | signal x =>
        rw [absorb, Mailbox.send]
        split <;> exact Nat.le_succ _
      | hangUp => exact Nat.le_succ_of_pred_le (Nat.le_refl _)
      | event e => exact Nat.le_succ _
    have hrest := ih (s.absorb e)
    rw [absorbAll, List.foldl_cons, ← absorbAll, List.length_cons]
    omega

theorem after_senders {α : Type} (s : Session β) (r : Reply α β) :
    s.mailbox.senders ≤ (s.after r).mailbox.senders + r.emitted.length :=
  absorbAll_senders r.emitted { s with cpu := r.cpu, device := r.bus }

theorem act_senders (bus : Bus β) (hs : s.mailbox.due = []) (x : Turn) :
    s.mailbox.senders ≤
      (s.act bus x).2.mailbox.senders + emissions bus s.cpu s.device x := by
  cases x with
  | powerOff | limit => exact Nat.le_refl _
  | rest =>
    rw [act, await, wait?_of_due hs]
    split
    · by_cases hw : s.mailbox.connected = true ∧ s.mailbox.senders ≠ 0
      · rw [if_pos hw]
        exact Nat.le_refl _
      · rw [if_neg hw]
        exact Nat.le_refl _
    · exact Nat.le_refl _
  | service code =>
    have hafter := s.withdraw.after_senders (s.cpu.interrupt bus code s.device)
    rw [act, Session.interrupt, apply_eq]
    cases hx : (s.withdraw.cpu.interrupt bus code s.withdraw.device).result <;> exact hafter
  | execute =>
    have hafter := s.after_senders (s.cpu.step bus s.device)
    rw [act, Session.step, apply_eq]
    cases hx : (s.cpu.step bus s.device).result <;> exact hafter

theorem round_senders (bus : Bus β) (limit : Option Nat) (s : Session β) :
    s.mailbox.senders ≤
      (s.round bus limit).2.mailbox.senders +
        emissions bus s.cpu s.device (s.poll.turn limit) := by
  have hact := act_senders (s := s.poll) bus (due_poll _) (s.poll.turn limit)
  have hpoll : s.poll.mailbox.senders = s.mailbox.senders := poll_senders _
  rw [hpoll] at hact
  rw [round_eq_act]
  exact hact

/-- From the polled mailbox on, a round that goes on leaves the senders to themselves. -/
theorem Rounded.traffic (h : Rounded bus limit s p u) (hp : GoesOn p) :
    ∃ m, ReflTransGen Traffic m u.mailbox ∧ m.senders = s.mailbox.senders ∧
      m.connected = s.mailbox.poll.1.connected := by
  cases h with
  | serviced _ _ _ _ _ hm => exact ⟨_, hm, poll_senders _, rfl⟩
  | stepped _ _ _ _ _ hm => exact ⟨_, hm, poll_senders _, rfl⟩
  | blocked _ _ _ _ _ hm => exact ⟨_, hm ▸ .refl, poll_senders _, rfl⟩
  | poweredOff | limited | disabled | abandoned | serviceFaulted | stepFaulted =>
    exact hp.elim nofun nofun

theorem Rounded.senders (h : Rounded bus limit s p u) (hp : GoesOn p)
    (hs : s.mailbox.senders = 0) : u.mailbox.senders = 0 := by
  obtain ⟨m, hm, hsenders, -⟩ := h.traffic hp
  rw [← hsenders] at hs
  rw [traffics_of_no_senders hm hs, hs]

/-- With senders left, the connection is kept. -/
theorem Rounded.connected (h : Rounded bus limit s p u) (hp : GoesOn p)
    (hs : s.mailbox.senders ≠ 0) : u.mailbox.connected = s.mailbox.connected := by
  obtain ⟨m, hm, -, hconnected⟩ := h.traffic hp
  rw [traffics_connected hm, hconnected]
  cases hc : s.mailbox.connected with
  | false => rw [poll_of_disconnected hc, hc]
  | true => rw [poll_connected hc, decide_eq_true hs]

/-! ### Rounds that go on and rounds that end -/

theorem Abreast.resupply (h : Abreast False R s t) (n : Nat) :
    Abreast False R s { t with mailbox := { t.mailbox with senders := n } } :=
  ⟨h.cpu, h.tally, h.level.withSenders s.mailbox.senders n, nofun, h.device⟩

/-- Nobody is told to wait without a sender and a connection. -/
theorem Rounded.waits (h : Rounded bus limit s .blocked u) :
    s.cpu.core.interruptsEnabled = true ∧ s.mailbox.connected = true ∧ s.mailbox.senders ≠ 0 := by
  cases h with
  | blocked _ _ he hw =>
    obtain ⟨hc, hs, -⟩ := wait?_none hw
    rw [poll_senders] at hs
    refine ⟨he, ?_, hs⟩
    by_contra hd
    rw [Bool.not_eq_true] at hd
    rw [poll_of_disconnected hd, hd] at hc
    cases hc

/-- A processor halts for good only when it cannot wait. -/
theorem Rounded.halts (h : Rounded bus limit s (.stopped .halted) u) :
    ¬ (s.cpu.core.interruptsEnabled = true ∧ s.mailbox.connected = true ∧
      s.mailbox.senders ≠ 0) := by
  rintro ⟨he, hc, hs⟩
  cases h with
  | disabled _ _ hd => simp [hd] at he
  | abandoned _ _ _ hw =>
    have hlost := (wait?_false hw).2 ((poll_connected hc).trans (decide_eq_true hs))
    rw [poll_senders] at hlost
    exact hs hlost.1

/-- Beside a run that goes on, a run that is supplied goes on alike. -/
theorem Abreast.keepsUp (h : Abreast False R s t) (hb : bus.Agree False R bus')
    (hs : Supplied s.mailbox t.mailbox) (hr : s.round bus limit = (p, u)) (hp : GoesOn p) :
    ∃ v, t.round bus' limit = (p, v) ∧ Abreast False R u v := by
  have hround := h.round hb limit
  rcases hr' : t.round bus' limit with ⟨q, v⟩
  rw [hr, hr'] at hround
  have hq : q = p := by
    rcases hp with rfl | rfl
    · exact hround.progress.of_running
    · cases hround.progress with
      | same => rfl
      | gaveUp =>
        obtain ⟨he, hc, hn⟩ := (rounded_of_round hr).waits
        obtain ⟨hn', hc'⟩ := hs hn
        rw [← h.cpu] at he
        exact absurd ⟨he, hc'.trans hc, hn'⟩ (rounded_of_round hr').halts
  exact ⟨v, by rw [hq], hround.abreast⟩

/-- With senders to spare it is supplied again after the round. -/
theorem Abreast.goesOn (h : Abreast False R s t) (hb : bus.Agree False R bus')
    (hs : Supplied s.mailbox t.mailbox) (hr : s.round bus limit = (p, u)) (hp : GoesOn p) :
    ∃ n v, ReflTransGen Traffic t.mailbox { t.mailbox with senders := n } ∧
      Session.round bus' limit { t with mailbox := { t.mailbox with senders := n } } = (p, v) ∧
      Abreast False R u v ∧ Supplied u.mailbox v.mailbox := by
  by_cases hn : s.mailbox.senders = 0
  · obtain ⟨v, hr', h'⟩ := h.keepsUp hb hs hr hp
    exact ⟨_, v, .refl, hr', h', fun hu => absurd ((rounded_of_round hr).senders hp hn) hu⟩
  · obtain ⟨hn', hc⟩ := hs hn
    -- As many senders join as the round's instruction may drop.
    let k := emissions bus' t.cpu t.device (s.poll.turn limit)
    have hspare := h.resupply (t.mailbox.senders + k)
    have hlot : t.mailbox.senders + k ≠ 0 := by omega
    obtain ⟨v, hr', h'⟩ := hspare.keepsUp hb (fun _ => ⟨hlot, hc⟩) hr hp
    have hleft := Session.round_senders bus' limit
      { t with mailbox := { t.mailbox with senders := t.mailbox.senders + k } }
    rw [hspare.poll.turn, hr'] at hleft
    have hv : v.mailbox.senders ≠ 0 := by
      change t.mailbox.senders + k ≤ v.mailbox.senders + k at hleft
      omega
    have hconnected := (rounded_of_round hr').connected hp hlot
    refine ⟨_, v, traffics_addSenders hn' k, hr', h', fun _ => ⟨hv, ?_⟩⟩
    rw [hconnected, (rounded_of_round hr).connected hp hn]
    exact hc

/-- Once its senders are gone a run ends beside one that ends. -/
theorem Abreast.ending (h : Abreast False R s t) (hb : bus.Agree False R bus')
    (hr : s.round bus limit = (p, u)) (hp : ¬ GoesOn p) :
    ∃ v, Session.round bus' limit { t with mailbox := { t.mailbox with senders := 0 } } = (p, v) ∧
      Abreast False R u v := by
  have hround := (h.resupply 0).round hb limit
  rcases hr' : Session.round bus' limit { t with mailbox := { t.mailbox with senders := 0 } }
    with ⟨q, v⟩
  rw [hr, hr'] at hround
  have hq : q ≠ .blocked := by
    rintro rfl
    exact (rounded_of_round hr').waits.2.2 rfl
  have hqp : q = p := hround.progress.eq_of_returned (fun hp' => hp (.inr hp')) hq
  exact ⟨v, by rw [hqp], hround.abreast⟩

/-! ### Runs -/

theorem Underway.abreast (hu : Underway bus limit s₀ xs s) (hb : bus.Agree False R bus')
    (h₀ : Abreast False R s₀.start t₀.start)
    (hs₀ : Supplied s₀.start.mailbox t₀.start.mailbox) :
    ∃ t, Underway bus' limit t₀ xs t ∧ Abreast False R s t ∧ Supplied s.mailbox t.mailbox := by
  induction hu with
  | start => exact ⟨_, .start, h₀, hs₀⟩
  | traffic _ hm ih =>
    obtain ⟨t, ht, h, hs⟩ := ih
    obtain ⟨m', hm', hlevel, hs'⟩ := hs.traffic h.level hm
    exact ⟨_, ht.traffics hm', h.withMailbox hlevel nofun, hs'⟩
  | running _ hr ih =>
    obtain ⟨t, ht, h, hs⟩ := ih
    obtain ⟨n, v, hn, hr', h', hs'⟩ := h.goesOn hb hs hr (.inl rfl)
    rw [← h.level.queue]
    exact ⟨v, (ht.traffics hn).running hr', h', hs'⟩
  | blocked _ hr ih =>
    obtain ⟨t, ht, h, hs⟩ := ih
    obtain ⟨n, v, hn, hr', h', hs'⟩ := h.goesOn hb hs hr (.inr rfl)
    rw [← h.level.queue]
    exact ⟨v, (ht.traffics hn).blocked hr', h', hs'⟩

/-- All senders may go away at a boundary. -/
theorem Underway.forsaken (h : Underway bus limit s₀ xs s) :
    Underway bus limit s₀ xs { s with mailbox := { s.mailbox with senders := 0 } } := by
  have hgone := h.traffics (traffics_dropSenders s.mailbox s.mailbox.senders)
  rwa [Nat.sub_self] at hgone

/-- However a run returns on one device, it can return on the other. -/
theorem Returns.abreast (hu : Returns bus limit s₀ xs p u) (hb : bus.Agree False R bus')
    (h₀ : Abreast False R s₀.start t₀.start)
    (hs₀ : Supplied s₀.start.mailbox t₀.start.mailbox) :
    ∃ v, Returns bus' limit t₀ xs p v ∧ Abreast False R u v := by
  cases hu with
  | stopped hu hr =>
    obtain ⟨t, ht, h, -⟩ := hu.abreast hb h₀ hs₀
    obtain ⟨v, hr', h'⟩ := h.ending hb hr (not_goesOn_stopped _)
    have hret := Returns.stopped ht.forsaken hr'
    rw [← h.level.queue]
    exact ⟨v, hret, h'⟩
  | faulted hu hr =>
    obtain ⟨t, ht, h, -⟩ := hu.abreast hb h₀ hs₀
    obtain ⟨v, hr', h'⟩ := h.ending hb hr (not_goesOn_faulted _)
    have hret := Returns.faulted ht.forsaken hr'
    rw [← h.level.queue]
    exact ⟨v, hret, h'⟩

end Session

end Intel8080
