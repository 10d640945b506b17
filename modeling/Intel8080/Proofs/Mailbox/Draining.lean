import Intel8080.Proofs.Mailbox.Interleaving

/-! How long a poll takes. Each pass of its loop takes one signal, and a last one finds the queue
empty. So a poll goes on for as long as there are signals queued before it began or sent since, and
once nobody sends any more it ends. -/

namespace Intel8080.Mailbox

/-- A poll under way: the passes it has made, what it has consumed and what was sent since. -/
inductive Polling (m : Mailbox) : Nat → List Signal → List Signal → Mailbox → Prop
  | start : Polling m 0 [] [] m
  | traffic {k xs ys zs n n'} (h : Polling m k xs ys n) (ht : Traffic n n')
      (hq : n'.queue = n.queue ++ zs) : Polling m k xs (ys ++ zs) n'
  | pass {k xs ys x n n'} (h : Polling m k xs ys n) (hc : n.connected = true)
      (hr : Reads x n n') : Polling m (k + 1) (xs ++ [x]) ys n'

namespace Polling

variable {m n : Mailbox} {k : Nat} {xs ys : List Signal}

theorem queue (h : Polling m k xs ys n) :
    k = xs.length ∧ xs ++ n.queue = m.queue ++ ys := by
  induction h with
  | start => exact ⟨rfl, (List.append_nil _).symm⟩
  | traffic _ _ hq ih => exact ⟨ih.1, by rw [hq, ← List.append_assoc, ih.2, List.append_assoc]⟩
  | pass _ _ hr ih =>
    refine ⟨by rw [ih.1, List.length_append, List.length_singleton], ?_⟩
    rw [← ih.2, hr.queue, List.append_assoc, List.singleton_append]

/-- There are no more passes than signals, and if nobody sends the poll ends from where it is. -/
theorem ends (h : Polling m k xs ys n) :
    k ≤ m.queue.length + ys.length ∧ Drains n n.due n.poll.1 := by
  refine ⟨?_, drains_poll n⟩
  have hlength := congrArg List.length h.queue.2
  rw [List.length_append, List.length_append] at hlength
  have := h.queue.1
  omega

end Polling

end Intel8080.Mailbox
