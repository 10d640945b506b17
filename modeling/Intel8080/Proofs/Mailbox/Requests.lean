import Intel8080.Cycles
import Intel8080.Proofs.Mailbox.Received

/-! The interrupt requests that pass through a mailbox. A poll keeps the newest of them and replaces
each of the others, so none is lost without a trace. What a device emits joins the queue as long as
a sender is left. -/

namespace Intel8080

def Signal.code? : Signal → Option Byte
  | .interrupt code => some code
  | .powerOff => none

/-- The opcodes that the signals ask for, in the same order. -/
def requests (xs : List Signal) : List Byte := xs.filterMap Signal.code?

/-- A pending request gave way to a newer one. -/
def Event.replaces : Event → Bool
  | .replacedInterrupt _ _ => true
  | _ => false

/-- The signals among the emissions that some sender was left to send. -/
def posted : List Emission → Nat → List Signal
  | [], _ => []
  | .signal x :: es, senders => if senders = 0 then posted es 0 else x :: posted es senders
  | .hangUp :: es, senders => posted es (senders - 1)
  | .event _ :: es, senders => posted es senders

@[simp] theorem requests_nil : requests [] = [] := rfl

@[simp] theorem requests_powerOff (xs : List Signal) :
    requests (.powerOff :: xs) = requests xs := rfl

@[simp] theorem requests_interrupt (code : Byte) (xs : List Signal) :
    requests (.interrupt code :: xs) = code :: requests xs := rfl

@[simp] theorem requests_append (xs ys : List Signal) :
    requests (xs ++ ys) = requests xs ++ requests ys := List.filterMap_append

namespace Mailbox

/-- The signals that a poll consumes. -/
def due (m : Mailbox) : List Signal := if m.connected then m.queue else []

variable {m : Mailbox}

theorem due_of_connected (hc : m.connected = true) : m.due = m.queue := if_pos hc

theorem due_of_disconnected (hc : m.connected = false) : m.due = [] := if_neg (by rw [hc]; nofun)

/-- Nothing is queued behind a disconnect. -/
theorem Received.due_eq {xs : List Signal} (h : Received xs m) : m.due = m.queue := by
  cases hc : m.connected with
  | true => exact due_of_connected hc
  | false => rw [due_of_disconnected hc, (h.consistent.disconnected hc).2]

theorem due_append_queue (m : Mailbox) : m.due ++ m.poll.1.queue = m.queue := by
  unfold due
  cases hc : m.connected with
  | true => simp [poll_queue hc]
  | false => simp [poll_of_disconnected hc]

/-- The newest request is the one that is pending. -/
theorem acceptAll_pending (xs : List Signal) (m : Mailbox) :
    (acceptAll xs m).1.pending = (m.pending.toList ++ requests xs).getLast? := by
  induction xs generalizing m with
  | nil => cases h : m.pending <;> simp [acceptAll, h]
  | cons x xs ih =>
    have hx := ih (m.accept x).1
    rw [acceptAll]
    cases x with
    | powerOff => exact hx
    | interrupt code =>
      simp only [accept, Option.toList_some, List.singleton_append] at hx
      rw [requests_interrupt, List.getLast?_append, List.getLast?_cons, Option.some_or]
      simpa [accept, List.getLast?_cons] using hx

/-- Every request is replaced or pending in the end. -/
theorem acceptAll_balance (xs : List Signal) (m : Mailbox) :
    m.pending.toList.length + (requests xs).length =
      (acceptAll xs m).2.countP Event.replaces + (acceptAll xs m).1.pending.toList.length := by
  induction xs generalizing m with
  | nil => simp [acceptAll]
  | cons x xs ih =>
    have hx := ih (m.accept x).1
    rw [acceptAll]
    dsimp only
    rw [List.countP_append]
    cases x with
    | powerOff => simpa [accept, Event.replaces] using hx
    | interrupt code =>
      cases hp : m.pending <;> simp [accept, Event.replaces, hp] at hx ⊢ <;> omega

theorem poll_pending (m : Mailbox) :
    m.poll.1.pending = (m.pending.toList ++ requests m.due).getLast? := by
  unfold due
  cases hc : m.connected with
  | true =>
    simp only [poll, hc, if_true]
    exact acceptAll_pending _ _
  | false =>
    rw [poll_of_disconnected hc]
    cases m.pending <;> simp

theorem poll_balance (m : Mailbox) :
    m.pending.toList.length + (requests m.due).length =
      m.poll.2.countP Event.replaces + m.poll.1.pending.toList.length := by
  unfold due
  cases hc : m.connected with
  | true =>
    simp only [poll, hc, if_true]
    exact acceptAll_balance _ { m with queue := [], connected := true }
  | false =>
    rw [poll_of_disconnected hc]
    simp

/-- What is pending after a poll was asked for last, so it stands behind everything before. -/
theorem poll_pending_sublist (m : Mailbox) :
    m.poll.1.pending.toList.Sublist (m.pending.toList ++ requests m.due) := by
  rw [poll_pending]
  cases hl : (m.pending.toList ++ requests m.due).getLast? with
  | none => exact List.nil_sublist _
  | some code => exact List.singleton_sublist.mpr (List.mem_of_getLast? hl)

end Mailbox

end Intel8080
