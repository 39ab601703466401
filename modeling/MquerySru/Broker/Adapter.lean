import Mathlib.Data.List.Basic

/-!
# The Redis adapter `rdb.Adapter`

The adapter connects the HTTP handlers to the workers through one Redis server: a job queue
under `DefaultQueueKey`, one result key per job, and pub/sub channels. The model is the
system around one server, a state machine (`Broker.step`) whose actions are the atomic
Redis commands and goroutine steps of the adapter's functions:

* `PublishQuery`, on the caller's goroutine: name the reply channel and gob-encode the query
  (`publish`), `SUBSCRIBE` (`subscribe`), `LPUSH` (`lpush`), start the waiter (`spawn`),
  `PUBLISH` the notification (`notify`);
* the waiter goroutine: one action per case of its `select` (`waiterMessage`,
  `waiterDeadline`, `waiterCancel`), and the consumer's receive on the handle (`receive`),
  which completes the waiter's blocking send or reads the closed channel;
* `DequeueQuery` (`dequeue`, an `RPOP`) and `PublishResult` (`setResult`, its `SET`, and
  `publishResult`, its `PUBLISH`), run by workers on queries they dequeued;
* the environment: expiry of a waiter's `ctx3` (`expire`), cancellation of the adapter's
  context (`cancel`) and expiry of a result key (`expireKey`).

Payloads are kept decoded: a job is its `Query`, a stored result the `ConcResult` that was
encoded. `dequeued` and `answers` record what workers obtained and answered; nothing in
the adapter reads them.

`newAdapter` is `NewAdapter` on the channel settings (`newAdapter_channels`: the query
channel never gets its default). `dequeueQuery` is `DequeueQuery` as the worker calls it: it
takes the `dequeue` action or returns `ErrorEmptyQueue` with nothing changed
(`dequeueQuery_step`), whatever the failure of its `RPOP`.
-/

namespace MquerySru

/-! ## Values -/

/-- `MsgNewQuery`, the payload of the notification that a job is queued. -/
def MsgNewQuery : String := "newQuery"

/-- `DefaultResultChannelPrefix`. -/
def DefaultResultChannelPrefix : String := "mqueryResults"

/-- An error value: a `*TransmittedError`, or any other, by its `%T` and its `Error()`. -/
inductive GoError where
  | transmitted (message type : String)
  | plain (type message : String)
  deriving DecidableEq, Repr

/-- `err.Error()`; for a `*TransmittedError`, `TransmittedError(<type>: <message>)`. -/
def GoError.error : GoError → String
  | .transmitted m t => "TransmittedError(" ++ t ++ ": " ++ m ++ ")"
  | .plain _ m => m

/-- `fmt.Sprintf("%T", err)`. -/
def GoError.typeName : GoError → String
  | .transmitted _ _ => "*rdb.TransmittedError"
  | .plain t _ => t

/-- Whether an error is a `*TransmittedError`. -/
def GoError.isTransmitted : GoError → Bool
  | .transmitted _ _ => true
  | .plain _ _ => false

/-- The waiter's `fmt.Errorf("waiting for worker response timeout")`. -/
def timeoutError : GoError := .plain "*errors.errorString" "waiting for worker response timeout"

/-- The error of a `GET` on a missing key, go-redis's `redis.Nil`. -/
def redisNil : GoError := .plain "proto.RedisError" "redis: nil"

/-- `rdb.Query`; `Args` is opaque to the adapter. -/
structure Query where
  channel : String
  func : String
  args : String
  deriving DecidableEq, Repr

/-- `result.ConcResult`, with the fields the adapter reads or writes: the waiter logs
`ConcSize` and `Query`, and sets `Error`; `Lines` stands for the rest. -/
structure ConcResult where
  concSize : Nat
  query : String
  lines : List String
  error : Option GoError
  deriving DecidableEq, Repr

/-- The zero `ConcResult`, the waiter's `var ans result.ConcResult`. -/
def ConcResult.zero : ConcResult := ⟨0, "", [], none⟩

/-- `dec.Decode(&ans)` of the gob encoding of `v`: gob sends only the fields of `v` that are
not zero, and decoding sets only those. -/
def ConcResult.decodeInto (ans v : ConcResult) : ConcResult where
  concSize := if v.concSize = 0 then ans.concSize else v.concSize
  query := if v.query = "" then ans.query else v.query
  lines := if v.lines = [] then ans.lines else v.lines
  error := match v.error with
    | some e => some e
    | none => ans.error

/-- What `PublishResult` encodes: the value with its `Error`, if any, rewritten to a
`TransmittedError` of the original's message and type. -/
def ConcResult.transmit (v : ConcResult) : ConcResult :=
  match v.error with
  | some e => { v with error := some (.transmitted e.error e.typeName) }
  | none => v

/-- The adapter's configuration, as `NewAdapter` sets it. -/
structure Adapter where
  channelQuery : String
  channelResultPrefix : String
  deriving DecidableEq, Repr

/-- The reply channel `PublishQuery` names: `fmt.Sprintf("%s:%s", prefix, uuid)`. -/
def Adapter.channelName (a : Adapter) (uuid : String) : String :=
  a.channelResultPrefix ++ ":" ++ uuid

/-- The fields of `Conf` that `NewAdapter` reads for the channels. -/
structure Conf where
  channelQuery : String
  channelResultPrefix : String
  deriving DecidableEq, Repr

/-- `NewAdapter`: an empty result prefix becomes `DefaultResultChannelPrefix`. The default of
the query channel is written `chQuery := DefaultQueryChannel` inside its `if`, which declares
a new variable in that block, so the adapter keeps the configured query channel, empty or
not. -/
def newAdapter (conf : Conf) : Adapter where
  channelQuery := conf.channelQuery
  channelResultPrefix :=
    if conf.channelResultPrefix = "" then DefaultResultChannelPrefix else conf.channelResultPrefix

/-- The result prefix always gets its default; the query channel never does. -/
theorem newAdapter_channels (conf : Conf) :
    (newAdapter conf).channelResultPrefix ≠ "" ∧ (newAdapter conf).channelQuery = conf.channelQuery := by
  refine ⟨?_, rfl⟩
  by_cases h : conf.channelResultPrefix = ""
  · simp [newAdapter, h, DefaultResultChannelPrefix]
  · simp [newAdapter, h]

/-- A pub/sub message as the subscriber receives it. -/
structure Message where
  channel : String
  payload : String
  deriving DecidableEq, Repr

/-! ## The waiter goroutine -/

/-- Where the waiter is: at its `select`, blocked in `ansChan <- ans` (`ret`: the send of
the message case, followed by `return`), or returned, after its deferred `sub.Close()` and
`close(ansChan)`. -/
inductive WaiterPc where
  | select
  | send (ret : Bool)
  | closed
  deriving DecidableEq, Repr

/-- The waiter: where it is, and its variable `ans`, which outlives loop iterations. -/
structure Waiter where
  pc : WaiterPc
  ans : ConcResult
  deriving DecidableEq, Repr

/-- The waiter as `go func()` starts it. -/
def Waiter.init : Waiter := ⟨.select, ConcResult.zero⟩

/-- The message case: the `GET` of the key the message names (`got`), decoded into `ans`,
or its error stored in `ans.Error`; then the send and `return`. -/
def Waiter.onMessage (got : Except GoError ConcResult) (w : Waiter) : Waiter where
  pc := .send true
  ans := match got with
    | .ok v => w.ans.decodeInto v
    | .error e => { w.ans with error := some e }

/-- `ans` with the waiter's timeout error. -/
def ConcResult.timedOut (ans : ConcResult) : ConcResult := { ans with error := some timeoutError }

/-- The `ctx3.Done()` case: set the timeout error and send; the loop goes on. -/
def Waiter.onDeadline (w : Waiter) : Waiter := ⟨.send false, w.ans.timedOut⟩

/-! ## The system -/

/-- How far a `PublishQuery` call has got: `failed` is the return after a failed `LPUSH`,
`returned ok` the return after the notification, `ok` telling whether its error was nil. -/
inductive CallPc where
  | encoded
  | subscribed
  | failed
  | pushed
  | spawned
  | returned (ok : Bool)
  deriving DecidableEq, Repr

/-- A `PublishQuery` call and what it started: its query (reply channel set), how far it
got, its subscription `sub` (open or not) with the messages waiting in `sub.Channel()`,
its waiter, whether the waiter's `ctx3` is done, and what receives on its handle
returned. -/
structure Call where
  query : Query
  pc : CallPc
  sub : Bool
  inbox : List Message
  waiter : Option Waiter
  deadline : Bool
  received : List ConcResult
  deriving DecidableEq, Repr

/-- A call that has named its channel and encoded its query. -/
def Call.start (q : Query) : Call := ⟨q, .encoded, false, [], none, false, []⟩

/-- A call past its `LPUSH`. -/
def Call.pushed (c : Call) : Bool :=
  match c.pc with
  | .pushed | .spawned | .returned _ => true
  | _ => false

/-- The Redis server, the calls, whether the adapter's context is cancelled, and what
workers dequeued and answered. -/
structure Broker where
  calls : List Call
  queue : List Query
  kv : List (String × ConcResult)
  cancelled : Bool
  dequeued : List Query
  answers : List (Query × ConcResult)
  deriving DecidableEq, Repr

/-- Before any call. -/
def Broker.init : Broker := ⟨[], [], [], false, [], []⟩

/-- The actions; `j` names a call, `i` a dequeued query. -/
inductive Act where
  | publish (q : Query) (ok : Bool)
  | subscribe (j : Nat)
  | lpush (j : Nat) (ok : Bool)
  | spawn (j : Nat)
  | notify (j : Nat) (ok : Bool)
  | expire (j : Nat)
  | cancel
  | waiterMessage (j : Nat) (fail : Option (String × String))
  | waiterDeadline (j : Nat)
  | waiterCancel (j : Nat)
  | receive (j : Nat)
  | dequeue
  | setResult (i : Nat) (r : ConcResult)
  | publishResult (i : Nat)
  | expireKey (k : String)
  deriving DecidableEq, Repr

/-- A subscriber's view of `PUBLISH`: an open subscription on the channel gets the message. -/
def Call.onPublish (m : Message) (c : Call) : Call :=
  if c.sub ∧ c.query.channel = m.channel then { c with inbox := c.inbox ++ [m] } else c

namespace Broker

/-- Replace call `j`. -/
def setCall (s : Broker) (j : Nat) (c : Call) : Broker := { s with calls := s.calls.set j c }

/-- `PUBLISH`. -/
def redisPublish (s : Broker) (m : Message) : Broker :=
  { s with calls := s.calls.map (Call.onPublish m) }

/-- `SET` (the expiry is the `expireKey` action). -/
def kvSet (s : Broker) (k : String) (v : ConcResult) : Broker :=
  { s with kv := (k, v) :: s.kv.filter (·.1 != k) }

/-- `GET`: the stored value, `redis.Nil` on a missing key, or a failure of the command. -/
def get (s : Broker) (fail : Option (String × String)) (k : String) : Except GoError ConcResult :=
  match fail with
  | some (t, m) => .error (.plain t m)
  | none => match s.kv.lookup k with
    | some v => .ok v
    | none => .error redisNil

/-- One action. `uuid n` is the `uuid.New()` of the `n`-th call; `none` when the action
cannot run. -/
def step (a : Adapter) (uuid : Nat → String) (s : Broker) : Act → Option Broker
  | .publish q ok =>
    if ok then
      some { s with
        calls := s.calls ++ [Call.start { q with channel := a.channelName (uuid s.calls.length) }] }
    else some s
  | .subscribe j => (s.calls[j]?).bind fun c =>
    if c.pc = .encoded then some (s.setCall j { c with pc := .subscribed, sub := true })
    else none
  | .lpush j ok => (s.calls[j]?).bind fun c =>
    if c.pc = .subscribed then
      if ok then some { s.setCall j { c with pc := .pushed } with queue := c.query :: s.queue }
      else some (s.setCall j { c with pc := .failed })
    else none
  | .spawn j => (s.calls[j]?).bind fun c =>
    if c.pc = .pushed then some (s.setCall j { c with pc := .spawned, waiter := some Waiter.init })
    else none
  | .notify j ok => (s.calls[j]?).bind fun c =>
    if c.pc = .spawned then
      let s' := s.setCall j { c with pc := .returned ok }
      some (if ok then s'.redisPublish ⟨a.channelQuery, MsgNewQuery⟩ else s')
    else none
  | .expire j => (s.calls[j]?).bind fun c =>
    if c.waiter.isSome then some (s.setCall j { c with deadline := true }) else none
  | .cancel => some { s with cancelled := true }
  | .waiterMessage j fail => (s.calls[j]?).bind fun c =>
    match c.waiter, c.inbox with
    | some w, m :: rest =>
      if w.pc = .select then
        some (s.setCall j { c with inbox := rest, waiter := some (w.onMessage (s.get fail m.payload)) })
      else none
    | _, _ => none
  | .waiterDeadline j => (s.calls[j]?).bind fun c =>
    match c.waiter with
    | some w =>
      if w.pc = .select ∧ c.deadline then some (s.setCall j { c with waiter := some w.onDeadline })
      else none
    | none => none
  | .waiterCancel j => (s.calls[j]?).bind fun c =>
    match c.waiter with
    | some w =>
      if w.pc = .select ∧ s.cancelled then
        some (s.setCall j { c with sub := false, waiter := some { w with pc := .closed } })
      else none
    | none => none
  | .receive j => (s.calls[j]?).bind fun c =>
    match c.waiter with
    | some ⟨.send ret, ans⟩ =>
      some (s.setCall j { c with
        sub := c.sub && !ret
        waiter := some ⟨if ret then .closed else .select, ans⟩
        received := c.received ++ [ans] })
    | some ⟨.closed, _⟩ => some (s.setCall j { c with received := c.received ++ [ConcResult.zero] })
    | _ => none
  | .dequeue => (s.queue.getLast?).map fun q =>
    { s with queue := s.queue.dropLast, dequeued := s.dequeued ++ [q] }
  | .setResult i r => (s.dequeued[i]?).map fun q =>
    { s.kvSet q.channel r.transmit with answers := s.answers ++ [(q, r)] }
  | .publishResult i => (s.dequeued[i]?).map fun q => s.redisPublish ⟨q.channel, q.channel⟩
  | .expireKey k => some { s with kv := s.kv.filter (·.1 != k) }

/-- A run of actions; `none` when one cannot run. -/
def run (a : Adapter) (uuid : Nat → String) : List Act → Broker → Option Broker
  | [], s => some s
  | act :: acts, s => (s.step a uuid act).bind (run a uuid acts)

/-- `ErrorEmptyQueue`. -/
def ErrorEmptyQueue : GoError := .plain "*errors.errorString" "no queries in the queue"

/-- `DequeueQuery`: an `RPOP` of the queue, `fail` a failure of the command. The value is
checked before the error, and a failed command's value is empty, so a failure is returned as
`ErrorEmptyQueue`, like an empty queue: the `failed to dequeue query` branch is never taken.
Queue entries are kept decoded, so `DecodeQuery` does not fail. -/
def dequeueQuery (s : Broker) (fail : Option GoError) : Except GoError Query × Broker :=
  match fail, s.queue.getLast? with
  | none, some q => (.ok q, { s with queue := s.queue.dropLast, dequeued := s.dequeued ++ [q] })
  | _, _ => (.error ErrorEmptyQueue, s)

/-- `DequeueQuery` takes the `dequeue` action, handing out the oldest job, or returns
`ErrorEmptyQueue` with the broker unchanged. -/
theorem dequeueQuery_step (a : Adapter) (uuid : Nat → String) (s : Broker) (fail : Option GoError) :
    (∃ q s', s.queue.getLast? = some q ∧ s.dequeueQuery fail = (.ok q, s') ∧ s.step a uuid .dequeue = some s') ∨
      s.dequeueQuery fail = (.error ErrorEmptyQueue, s) := by
  unfold dequeueQuery
  split
  · next q hq => exact .inl ⟨q, _, hq, rfl, by simp [step, hq]⟩
  · exact .inr rfl

theorem run_append (a : Adapter) (uuid : Nat → String) (l l' : List Act) (s : Broker) :
    s.run a uuid (l ++ l') = (s.run a uuid l).bind (run a uuid l') := by
  induction l generalizing s with
  | nil => rfl
  | cons act l ih =>
    simp only [List.cons_append, run]
    cases s.step a uuid act with
    | none => rfl
    | some s' => exact ih s'

theorem setCall_get {s : Broker} {j : Nat} {c : Call} (hc : s.calls[j]? = some c) (c' : Call) :
    (s.setCall j c').calls[j]? = some c' := by
  have hj : j < s.calls.length := by
    by_contra h; rw [List.getElem?_eq_none (by omega)] at hc; cases hc
  simp [setCall, List.getElem?_set, hj]

@[simp] theorem setCall_setCall (s : Broker) (j : Nat) (c c' : Call) :
    (s.setCall j c).setCall j c' = s.setCall j c' := by
  simp [setCall]

end Broker

end MquerySru
