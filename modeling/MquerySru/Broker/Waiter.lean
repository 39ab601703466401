import MquerySru.Broker.Adapter

/-!
# The waiter after its deadline

The waiter's loop has no `return` after the deadline case. Once `ctx3` is done its `Done()`
channel stays closed, so at every later `select` that case is ready again: the waiter
sends another timeout result and loops. `waiter_resends` shows that from any state where a
waiter's deadline has passed and it is at its `select`, each round of the deadline case and
a receive delivers one more timeout result, and the waiter never returns, so neither the
handle nor the subscription is closed. `handle_delivers_unboundedly` runs this from a fresh
call: any number of results on one handle.
-/

namespace MquerySru.Broker

variable {a : Adapter} {uuid : Nat → String}

@[simp] theorem timedOut_timedOut (ans : ConcResult) : ans.timedOut.timedOut = ans.timedOut :=
  rfl

/-- One round after the deadline: the `ctx3.Done()` case is ready again, and the consumer's
receive completes its send. -/
theorem run_deadline_receive {s : Broker} {j : Nat} {c : Call} {ans : ConcResult}
    (hc : s.calls[j]? = some c) (hw : c.waiter = some ⟨.select, ans⟩) (hd : c.deadline = true) :
    s.run a uuid [.waiterDeadline j, .receive j] = some (s.setCall j { c with
      waiter := some ⟨.select, ans.timedOut⟩
      received := c.received ++ [ans.timedOut] }) := by
  simp [run, step, hc, hw, hd, Waiter.onDeadline, setCall_get hc, ConcResult.timedOut]

/-- After the deadline, with the waiter at its `select`, every round of the deadline case
and a receive delivers another timeout result on the handle; the waiter stays at its
`select` with its subscription as it was, so it never returns. -/
theorem waiter_resends {s : Broker} {j : Nat} {c : Call} {ans : ConcResult}
    (hc : s.calls[j]? = some c) (hw : c.waiter = some ⟨.select, ans⟩) (hd : c.deadline = true)
    (n : Nat) :
    ∃ s' c', s.run a uuid (List.replicate n [.waiterDeadline j, .receive j]).flatten = some s' ∧
      s'.calls[j]? = some c' ∧ c'.received = c.received ++ List.replicate n (ans.timedOut) ∧
      (∃ ans', c'.waiter = some ⟨.select, ans'⟩) ∧ c'.deadline = true ∧ c'.sub = c.sub := by
  induction n generalizing s c ans with
  | zero => exact ⟨s, c, rfl, hc, by simp, ⟨ans, hw⟩, hd, rfl⟩
  | succ n ih =>
    obtain ⟨s', c', hrun, hc', hrec, hw', hd', hsub⟩ := ih (c := { c with
      waiter := some ⟨.select, ans.timedOut⟩
      received := c.received ++ [ans.timedOut] }) (setCall_get hc _) rfl hd
    refine ⟨s', c', ?_, hc', ?_, hw', hd', hsub⟩
    · rw [List.replicate_succ, List.flatten_cons, run_append, run_deadline_receive hc hw hd]
      exact hrun
    · simp [hrec, List.replicate_succ]

/-- A call that goes through `PublishQuery` and whose deadline passes before any reply. -/
def startThenExpire (q : Query) : List Act :=
  [.publish q true, .subscribe 0, .lpush 0 true, .spawn 0, .notify 0 true, .expire 0]

theorem run_startThenExpire (a : Adapter) (uuid : Nat → String) (q : Query) :
    ∃ s c, Broker.init.run a uuid (startThenExpire q) = some s ∧ s.calls[0]? = some c ∧
      c.waiter = some Waiter.init ∧ c.deadline = true ∧ c.sub = true ∧ c.received = [] := by
  simp [startThenExpire, run, step, Broker.init, setCall, Call.start, redisPublish, Call.onPublish]
  split <;> simp

/-- The handle of a call whose deadline passed first delivers as many timeout results as
the consumer receives, and the waiter never closes the handle or its subscription. -/
theorem handle_delivers_unboundedly (a : Adapter) (uuid : Nat → String) (q : Query) (n : Nat) :
    ∃ s c, Broker.init.run a uuid
        (startThenExpire q ++ (List.replicate n [.waiterDeadline 0, .receive 0]).flatten) = some s ∧
      s.calls[0]? = some c ∧ c.received = List.replicate n ConcResult.zero.timedOut ∧
      (∃ ans, c.waiter = some ⟨.select, ans⟩) ∧ c.sub = true := by
  obtain ⟨s, c, hrun, hc, hw, hd, hsub, hrec⟩ := run_startThenExpire a uuid q
  obtain ⟨s', c', hrun', hc', hrec', hw', -, hsub'⟩ := waiter_resends hc hw hd n
  refine ⟨s', c', ?_, hc', by simp [hrec', hrec, Waiter.init], hw', hsub'.trans hsub⟩
  rw [run_append, hrun]
  exact hrun'

end MquerySru.Broker
