import MquerySru.Broker.Adapter

/-!
# `PublishQuery` run alone

`publishQuery` runs `PublishQuery`'s own actions of `Broker.step` in its order, for each
outcome of the three calls whose errors it checks, and returns what the Go function returns:
the handle (or `nil`) and whether its error is non-nil. `SUBSCRIBE` has no outcome here:
`PublishQuery` never looks at its error.

One equation per outcome (`publishQuery_encode_fails`, `publishQuery_lpush_fails`,
`publishQuery_pushed`) says what the call leaves behind; `publishQuery_error_residue`
collects the two failures that return an error after changing the broker.

`Handler.Transmission` relates these returns to the handlers' model of `PublishQuery`
(`PublishReturn`) by `Broker.publishQuery_abstracts`.
-/

namespace MquerySru.Broker

/-- The outcomes of the calls in `PublishQuery` whose errors it checks: the gob `Encode`, the
`LPUSH`, and the notification's `PUBLISH`. -/
structure PublishOutcome where
  encode : Bool
  lpush : Bool
  notify : Bool
  deriving DecidableEq, Repr

/-- `PublishQuery` run alone: the handle it returns (the call's index, `nil` as `none`),
whether its error is non-nil, and the broker after it. -/
def publishQuery (a : Adapter) (uuid : Nat → String) (o : PublishOutcome) (q : Query)
    (s : Broker) : Option ((Option Nat × Bool) × Broker) :=
  let j := s.calls.length
  if o.encode then
    (s.run a uuid [.publish q true, .subscribe j]).bind fun s =>
      if o.lpush then
        (s.run a uuid [.lpush j true, .spawn j, .notify j o.notify]).map fun s =>
          ((some j, !o.notify), s)
      else (s.step a uuid (.lpush j false)).map fun s => ((none, true), s)
  else some ((none, true), s)

/-- The call `PublishQuery` adds, before its `SUBSCRIBE`. -/
def newCall (a : Adapter) (uuid : Nat → String) (q : Query) (s : Broker) : Call :=
  Call.start { q with channel := a.channelName (uuid s.calls.length) }

theorem publishQuery_encode_fails (a : Adapter) (uuid : Nat → String) (l n : Bool) (q : Query)
    (s : Broker) : publishQuery a uuid ⟨false, l, n⟩ q s = some ((none, true), s) := rfl

/-- A failed `LPUSH`: the error is returned, and the call's subscription stays open. -/
theorem publishQuery_lpush_fails (a : Adapter) (uuid : Nat → String) (n : Bool) (q : Query)
    (s : Broker) :
    publishQuery a uuid ⟨true, false, n⟩ q s = some ((none, true),
      { s with calls := s.calls ++ [{ newCall a uuid q s with pc := .failed, sub := true }] }) := by
  simp [publishQuery, Broker.run, Broker.step, newCall, Broker.setCall, Call.start]

/-- A pushed job: the waiter is started on the open subscription, the handle returned, and
the notification published, its failure returned as the error. -/
theorem publishQuery_pushed (a : Adapter) (uuid : Nat → String) (n : Bool) (q : Query)
    (s : Broker) :
    publishQuery a uuid ⟨true, true, n⟩ q s = some ((some s.calls.length, !n),
      let s' := { s with
        calls := s.calls ++ [{ newCall a uuid q s with
          pc := .returned n, sub := true, waiter := some Waiter.init }]
        queue := (newCall a uuid q s).query :: s.queue }
      if n then s'.redisPublish ⟨a.channelQuery, MsgNewQuery⟩ else s') := by
  simp [publishQuery, Broker.run, Broker.step, newCall, Broker.setCall, Call.start]


/-- `PublishQuery`'s error does not mean that nothing happened. After a failed `LPUSH` it
returns an error with the subscription on the new reply channel still open; after a failed
notification it returns an error although the job is queued and its waiter started on the
open subscription. -/
theorem publishQuery_error_residue (a : Adapter) (uuid : Nat → String) (q : Query) (s : Broker) :
    (∀ n, ∃ s', publishQuery a uuid ⟨true, false, n⟩ q s = some ((none, true), s') ∧
      s'.queue = s.queue ∧ ∃ c, s'.calls[s.calls.length]? = some c ∧
        c.query.channel = a.channelName (uuid s.calls.length) ∧ c.sub = true) ∧
    ∃ s', publishQuery a uuid ⟨true, true, false⟩ q s = some ((some s.calls.length, true), s') ∧
      s'.queue = (newCall a uuid q s).query :: s.queue ∧ ∃ c, s'.calls[s.calls.length]? = some c ∧
        c.sub = true ∧ c.waiter = some Waiter.init := by
  refine ⟨fun n => ⟨_, publishQuery_lpush_fails a uuid n q s, rfl, ?_⟩,
    ⟨_, publishQuery_pushed a uuid false q s, rfl, ?_⟩⟩
  · exact ⟨{ newCall a uuid q s with pc := .failed, sub := true }, by simp, rfl, rfl⟩
  · exact ⟨{ newCall a uuid q s with pc := .returned false, sub := true, waiter := some Waiter.init },
      by simp, rfl, rfl⟩

end MquerySru.Broker
