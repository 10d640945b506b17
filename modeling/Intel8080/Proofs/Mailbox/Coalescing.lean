import Intel8080.Proofs.Mailbox.Requests

/-! Batches of signals that come to the same. A mailbox keeps only the newest request and whether
the power is to go off, so two mailboxes that agree on what a poll would leave go on agreeing when
such batches arrive, whatever else the batches held. -/

namespace Intel8080

/-- The newest request of a batch, and one power-off behind it if the batch holds any. -/
def coalesce (xs : List Signal) : List Signal :=
  ((requests xs).getLast?.map Signal.interrupt).toList ++
    if Signal.powerOff ∈ xs then [.powerOff] else []

/-- Batches with the same newest request and the same wish to power off. -/
structure Akin (xs ys : List Signal) : Prop where
  newest : (requests ys).getLast? = (requests xs).getLast?
  powerOff : Signal.powerOff ∈ ys ↔ Signal.powerOff ∈ xs

theorem requests_coalesce (xs : List Signal) :
    requests (coalesce xs) = (requests xs).getLast?.toList := by
  unfold coalesce
  cases (requests xs).getLast? <;> split <;> rfl

theorem powerOff_mem_coalesce {xs : List Signal} :
    Signal.powerOff ∈ coalesce xs ↔ Signal.powerOff ∈ xs := by
  unfold coalesce
  cases (requests xs).getLast? <;> simp

example : coalesce [.interrupt 0xC7, .powerOff, .interrupt 0xCF, .powerOff] =
    [.interrupt 0xCF, .powerOff] := by decide

namespace Akin

variable {xs ys xs' ys' : List Signal}

theorem refl (xs : List Signal) : Akin xs xs := ⟨rfl, .rfl⟩

theorem coalesce (xs : List Signal) : Akin xs (coalesce xs) := by
  refine ⟨?_, powerOff_mem_coalesce⟩
  rw [requests_coalesce]
  cases (requests xs).getLast? <;> rfl

theorem append (h : Akin xs ys) (h' : Akin xs' ys') : Akin (xs ++ xs') (ys ++ ys') := by
  refine ⟨?_, ?_⟩
  · simp only [requests_append, List.getLast?_append, h.newest, h'.newest]
  · simp only [List.mem_append, h.powerOff, h'.powerOff]

end Akin

namespace Mailbox

variable {m m' : Mailbox}

/-! ### Mailboxes with nothing due -/

theorem due_poll (m : Mailbox) : m.poll.1.due = [] := by
  cases hc : m.connected with
  | false =>
    rw [poll_of_disconnected hc]
    exact due_of_disconnected hc
  | true =>
    unfold due
    rw [poll_queue hc]
    exact ite_self []

theorem poll_powerOff_iff (m : Mailbox) :
    m.poll.1.powerOff = true ↔ m.powerOff = true ∨ Signal.powerOff ∈ m.due := by
  cases hc : m.connected with
  | true => rw [poll_powerOff hc, due_of_connected hc]
  | false => simp [poll_of_disconnected hc, due_of_disconnected hc]

theorem poll_pending_of_due (hd : m.due = []) : m.poll.1.pending = m.pending := by
  rw [poll_pending, hd]
  cases m.pending <;> rfl

theorem poll_powerOff_of_due (hd : m.due = []) : m.poll.1.powerOff = m.powerOff := by
  rw [Bool.eq_iff_iff, poll_powerOff_iff, hd]
  simp

/-- A wait that finds nothing waits for as long as there are senders. -/
theorem wait?_of_due (hd : m.due = []) :
    m.wait? =
      if m.connected = true ∧ m.senders ≠ 0 then none
      else some (false, { m with connected := false }, []) := by
  unfold wait?
  cases hc : m.connected with
  | true =>
    rw [due_of_connected hc] at hd
    simp only [hd, if_true, true_and, ite_not]
  | false =>
    have hm : { m with connected := false } = m := by rw [← hc]
    simp [hm]

/-! ### Mailboxes that agree -/

/-- The mailboxes have the same senders, and a poll leaves the same in both. -/
structure Alike (m m' : Mailbox) : Prop where
  senders : m'.senders = m.senders
  connected : m'.connected = m.connected
  pending : m'.poll.1.pending = m.poll.1.pending
  powerOff : m'.poll.1.powerOff = m.poll.1.powerOff

namespace Alike

theorem poll (h : Alike m m') : Alike m.poll.1 m'.poll.1 := by
  refine ⟨?_, ?_, ?_, ?_⟩
  · rw [poll_senders, poll_senders, h.senders]
  · cases hc : m.connected with
    | true => rw [poll_connected hc, poll_connected (h.connected.trans hc), h.senders]
    | false =>
      rw [poll_of_disconnected hc, poll_of_disconnected (h.connected.trans hc), h.connected]
  · rw [poll_poll, poll_poll, h.pending]
  · rw [poll_poll, poll_poll, h.powerOff]

/-- Once nothing is due they hold the same. -/
theorem pending_eq (h : Alike m m') (hd : m.due = []) (hd' : m'.due = []) :
    m'.pending = m.pending := by
  rw [← poll_pending_of_due hd, ← poll_pending_of_due hd', h.pending]

theorem powerOff_eq (h : Alike m m') (hd : m.due = []) (hd' : m'.due = []) :
    m'.powerOff = m.powerOff := by
  rw [← poll_powerOff_of_due hd, ← poll_powerOff_of_due hd', h.powerOff]

theorem of_due (hd : m.due = []) (hd' : m'.due = []) (hs : m'.senders = m.senders)
    (hc : m'.connected = m.connected) (hp : m'.pending = m.pending)
    (ho : m'.powerOff = m.powerOff) : Alike m m' := by
  refine ⟨hs, hc, ?_, ?_⟩
  · rw [poll_pending_of_due hd, poll_pending_of_due hd', hp]
  · rw [poll_powerOff_of_due hd, poll_powerOff_of_due hd', ho]

theorem take (h : Alike m m') (hd : m.due = []) (hd' : m'.due = []) :
    Alike m.take.2 m'.take.2 :=
  of_due hd hd' h.senders h.connected rfl (h.powerOff_eq hd hd')

theorem disconnect (h : Alike m m') (hd : m.due = []) (hd' : m'.due = []) :
    Alike { m with connected := false } { m' with connected := false } :=
  of_due rfl rfl h.senders rfl (h.pending_eq hd hd') (h.powerOff_eq hd hd')

end Alike

/-- The mailbox once a batch has arrived, with the senders that are left then. -/
def arrived (xs : List Signal) (senders : Nat) (m : Mailbox) : Mailbox :=
  { m with queue := m.queue ++ xs, senders }

/-- What a poll leaves of a batch that arrived: its newest request counts before all others. -/
theorem poll_arrived (xs : List Signal) (n : Nat) (hc : m.connected = true) :
    (m.arrived xs n).poll.1.pending = (requests xs).getLast?.or m.poll.1.pending ∧
      ((m.arrived xs n).poll.1.powerOff = true ↔
        m.poll.1.powerOff = true ∨ Signal.powerOff ∈ xs) := by
  have hdue : (m.arrived xs n).due = m.due ++ xs := by
    rw [due_of_connected hc]
    exact due_of_connected hc
  refine ⟨?_, ?_⟩
  · rw [poll_pending, poll_pending, hdue, requests_append, ← List.append_assoc,
      List.getLast?_append]
    rfl
  · rw [poll_powerOff_iff, poll_powerOff_iff, hdue, List.mem_append, ← or_assoc]
    rfl

theorem Alike.arrive {xs ys : List Signal} (h : Alike m m') (hx : Akin xs ys) (n : Nat) :
    Alike (m.arrived xs n) (m'.arrived ys n) := by
  cases hc : m.connected with
  | true =>
    obtain ⟨hp, ho⟩ := poll_arrived xs n hc
    obtain ⟨hp', ho'⟩ := poll_arrived ys n (h.connected.trans hc)
    refine ⟨rfl, h.connected, ?_, ?_⟩
    · rw [hp, hp', hx.newest, h.pending]
    · rw [Bool.eq_iff_iff, ho, ho', hx.powerOff, h.powerOff]
  | false =>
    -- nobody reads what arrives after the disconnect
    have hc' : m'.connected = false := h.connected.trans hc
    have hd : m.due = [] := due_of_disconnected hc
    have hd' : m'.due = [] := due_of_disconnected hc'
    exact of_due (due_of_disconnected hc) (due_of_disconnected hc') rfl h.connected
      (h.pending_eq hd hd') (h.powerOff_eq hd hd')

end Mailbox

end Intel8080
