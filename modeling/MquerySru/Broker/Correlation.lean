import MquerySru.Broker.Adapter

/-!
# Reply correlation across concurrent jobs

An invariant of the broker (`Inv`) over every run of `Broker.step`, for generated reply
channels that are pairwise distinct:

* every job in the queue or dequeued is the query of a call past its `LPUSH`, and no job
  appears twice, so none is dequeued twice (`RPOP` removes what it returns);
* every stored result is a worker's answer, encoded, under its query's channel;
* a subscription only holds messages whose payload is its own channel or `MsgNewQuery`;
* a waiter's `ans` is the zero value (possibly with the timeout error) at its `select`, and
  a correlated value when blocked in the message case's send.

The message case is where correlation is made: the waiter `GET`s the key its message
names, its own channel, under which only answers to its own query are stored
(`Inv.answer_query`), or `MsgNewQuery`, which no generated channel equals. A zero `ans` then
decodes to exactly the stored value, and an `ans` carrying the timeout error keeps that
error unless the stored value has one.

`reply_correlation` is the run theorem. A receive on a handle whose waiter has returned
reads the zero `ConcResult` of the closed channel, which `cancelled_handle_reads_zero`
shows happens after a cancellation without any reply.

`run_history`: `LPUSH` and `RPOP` work the two ends of the list, so the queue is first in,
first out. `queue_exactly_once`: whatever names are generated, the jobs dequeued and queued
are, with multiplicity, the jobs of the calls whose `LPUSH` succeeded (`step_jobs`, `run_jobs`).
-/

namespace MquerySru.Broker

/-! ## Values -/

@[simp] theorem decodeInto_zero (v : ConcResult) : ConcResult.zero.decodeInto v = v := by
  cases v with
  | mk n q l e =>
    simp only [ConcResult.decodeInto, ConcResult.zero, ConcResult.mk.injEq]
    refine ⟨by split <;> simp_all, by split <;> simp_all, by split <;> simp_all, by cases e <;> rfl⟩

/-- Decoding a value with an error over the zero value with the timeout error gives the
value. -/
theorem decodeInto_timedOut {v : ConcResult} {e : GoError} (he : v.error = some e) :
    ConcResult.zero.timedOut.decodeInto v = v := by
  have h := decodeInto_zero v
  simp only [ConcResult.decodeInto, ConcResult.zero, ConcResult.timedOut, he] at h ⊢
  exact h

theorem channelName_ne_msgNewQuery (a : Adapter) (u : String) : a.channelName u ≠ MsgNewQuery := by
  intro h
  have hc := congrArg (fun s => ':' ∈ s.data) h
  simp [Adapter.channelName, MsgNewQuery] at hc

/-! ## The invariant -/

/-- `d`, received on the handle of the call for `q`, is a worker's answer to `q` as
`PublishResult` encoded it, unless its error is one the waiter set itself (an error that is
not a `TransmittedError`). -/
def Correlated (answers : List (Query × ConcResult)) (q : Query) (d : ConcResult) : Prop :=
  d.error.all GoError.isTransmitted → ∃ r, (q, r) ∈ answers ∧ d = r.transmit

/-- What the waiter of the call for `q` holds: at its `select`, the zero value, possibly
with the timeout error; blocked in the deadline's send, the zero value with the timeout
error; blocked in the message's send, a correlated value. -/
def WaiterOk (answers : List (Query × ConcResult)) (q : Query) : Waiter → Prop
  | ⟨.select, ans⟩ => ans = ConcResult.zero ∨ ans = ConcResult.zero.timedOut
  | ⟨.send false, ans⟩ => ans = ConcResult.zero.timedOut
  | ⟨.send true, ans⟩ => Correlated answers q ans
  | ⟨.closed, _⟩ => True

section Invariant

variable (a : Adapter) (uuid : Nat → String)

/-- Call `j` carries the `j`-th generated channel; its subscription holds messages of its
channel whose payload is the channel (a worker's notification) or `MsgNewQuery`; its waiter
is as `WaiterOk` says; and every receive on its handle returned the zero value of the
closed channel or a correlated value. -/
structure CallOk (answers : List (Query × ConcResult)) (j : Nat) (c : Call) : Prop where
  channel : c.query.channel = a.channelName (uuid j)
  inbox : ∀ m ∈ c.inbox, m.payload = c.query.channel ∨ m.payload = MsgNewQuery
  waiter : ∀ w, c.waiter = some w → WaiterOk answers c.query w
  received : ∀ d ∈ c.received, d = ConcResult.zero ∨ Correlated answers c.query d

/-- The invariant of the broker: every call is as `CallOk` says; every job queued or
dequeued is the query of a call past its `LPUSH`, and none twice; every answer is to a
dequeued query; every stored result is an answer, encoded, under its query's channel. -/
structure Inv (s : Broker) : Prop where
  calls : ∀ j c, s.calls[j]? = some c → CallOk a uuid s.answers j c
  jobs : ∀ q ∈ s.dequeued ++ s.queue, ∃ (j : Nat) (c : Call), s.calls[j]? = some c ∧ c.pushed ∧ c.query = q
  nodup : (s.dequeued ++ s.queue).Nodup
  answers : ∀ p ∈ s.answers, p.1 ∈ s.dequeued
  store : ∀ k v, (k, v) ∈ s.kv → ∃ p ∈ s.answers, p.1.channel = k ∧ v = p.2.transmit

end Invariant


/-! ## Preservation -/

section Preservation

variable {a : Adapter} {uuid : Nat → String}

theorem Correlated.mono {ans ans' : List (Query × ConcResult)} {q : Query} {d : ConcResult}
    (h : Correlated ans q d) (hs : ans ⊆ ans') : Correlated ans' q d := fun ht =>
  let ⟨r, hr, hd⟩ := h ht
  ⟨r, hs hr, hd⟩

theorem WaiterOk.mono {ans ans' : List (Query × ConcResult)} {q : Query} {w : Waiter}
    (h : WaiterOk ans q w) (hs : ans ⊆ ans') : WaiterOk ans' q w := by
  obtain ⟨pc, v⟩ := w
  cases pc with
  | select => exact h
  | send ret => cases ret with
    | false => exact h
    | true => exact Correlated.mono h hs
  | closed => trivial

theorem CallOk.mono {ans ans' : List (Query × ConcResult)} {j : Nat} {c : Call}
    (h : CallOk a uuid ans j c) (hs : ans ⊆ ans') : CallOk a uuid ans' j c where
  channel := h.channel
  inbox := h.inbox
  waiter w hw := (h.waiter w hw).mono hs
  received d hd := (h.received d hd).imp_right fun hc => hc.mono hs

@[simp] theorem Call.onPublish_query (m : Message) (c : Call) : (c.onPublish m).query = c.query := by
  unfold Call.onPublish; split <;> rfl

@[simp] theorem Call.onPublish_pushed (m : Message) (c : Call) : (c.onPublish m).pushed = c.pushed := by
  unfold Call.onPublish; split <;> rfl

theorem CallOk.onPublish {ans : List (Query × ConcResult)} {j : Nat} {c : Call} {m : Message}
    (h : CallOk a uuid ans j c) (hm : m.payload = m.channel ∨ m.payload = MsgNewQuery) :
    CallOk a uuid ans j (c.onPublish m) := by
  unfold Call.onPublish
  split
  · next hsub =>
    refine ⟨h.channel, fun m' hm' => ?_, h.waiter, h.received⟩
    rcases List.mem_append.mp hm' with hm' | hm'
    · exact h.inbox m' hm'
    · rw [List.mem_singleton.mp hm', hsub.2]; exact hm
  · exact h

theorem getElem?_setCall {s : Broker} {j i : Nat} {c' d : Call}
    (hd : (s.setCall j c').calls[i]? = some d) : (i = j ∧ d = c') ∨ (i ≠ j ∧ s.calls[i]? = some d) := by
  simp only [Broker.setCall, List.getElem?_set] at hd
  split at hd
  · next hij => split at hd <;> simp_all
  · exact .inr ⟨fun h => by simp_all, hd⟩

theorem Inv.setCall {s : Broker} {j : Nat} {c e : Call} (h : Inv a uuid s)
    (hc : s.calls[j]? = some c) (hq : e.query = c.query) (hp : c.pushed → e.pushed)
    (hok : CallOk a uuid s.answers j e) : Inv a uuid (s.setCall j e) where
  calls i d hd := by
    rcases getElem?_setCall hd with ⟨rfl, rfl⟩ | ⟨-, hd⟩
    · exact hok
    · exact h.calls i d hd
  jobs q hq' := by
    obtain ⟨i, d, hd, hpd, rfl⟩ := h.jobs q hq'
    by_cases hij : i = j
    · subst hij
      obtain rfl : d = c := Option.some.inj (hd.symm.trans hc)
      exact ⟨i, e, Broker.setCall_get hc e, hp hpd, hq⟩
    · exact ⟨i, d, by simpa [Broker.setCall, List.getElem?_set, Ne.symm hij] using hd, hpd, rfl⟩
  nodup := h.nodup
  answers := h.answers
  store := h.store

theorem Inv.redisPublish {s : Broker} {m : Message} (h : Inv a uuid s)
    (hm : m.payload = m.channel ∨ m.payload = MsgNewQuery) : Inv a uuid (s.redisPublish m) where
  calls i d hd := by
    simp only [Broker.redisPublish, List.getElem?_map, Option.map_eq_some'] at hd
    obtain ⟨d, hd, rfl⟩ := hd
    exact (h.calls i d hd).onPublish hm
  jobs q hq := by
    obtain ⟨i, d, hd, hpd, rfl⟩ := h.jobs q hq
    exact ⟨i, d.onPublish m, by simp [Broker.redisPublish, hd], by simpa using hpd, by simp⟩
  nodup := h.nodup
  answers := h.answers
  store := h.store

end Preservation


/-! ## Correlation -/

section Correlation

variable {a : Adapter} {uuid : Nat → String} {s : Broker}

/-- The query a stored answer is to is the query of a call. -/
theorem Inv.answer_call (h : Inv a uuid s) {p : Query × ConcResult} (hp : p ∈ s.answers) :
    ∃ (i : Nat) (d : Call), s.calls[i]? = some d ∧ d.query = p.1 ∧
      p.1.channel = a.channelName (uuid i) := by
  obtain ⟨i, d, hd, -, hq⟩ := h.jobs p.1 (List.mem_append_left _ (h.answers p hp))
  exact ⟨i, d, hd, hq, hq ▸ (h.calls i d hd).channel⟩

/-- An answer under the channel of call `j` is an answer to call `j`'s query: the
generated channels are pairwise distinct. -/
theorem Inv.answer_query (hfresh : ∀ i j, a.channelName (uuid i) = a.channelName (uuid j) → i = j)
    (h : Inv a uuid s) {j : Nat} {c : Call} (hc : s.calls[j]? = some c)
    {p : Query × ConcResult} (hp : p ∈ s.answers) (hch : p.1.channel = c.query.channel) :
    p.1 = c.query := by
  obtain ⟨i, d, hd, hq, hi⟩ := h.answer_call hp
  obtain rfl := hfresh i j (hi.symm.trans (hch.trans (h.calls j c hc).channel))
  rw [← hq, Option.some.inj (hd.symm.trans hc)]

/-- What the message case reads: a stored answer to the call's query, or an error of the
`GET`, which is not a `TransmittedError`. -/
theorem Inv.get_message (hfresh : ∀ i j, a.channelName (uuid i) = a.channelName (uuid j) → i = j)
    (h : Inv a uuid s) {j : Nat} {c : Call} (hc : s.calls[j]? = some c) {m : Message}
    (hm : m ∈ c.inbox) (fail : Option (String × String)) :
    (∃ r, (c.query, r) ∈ s.answers ∧ s.get fail m.payload = .ok r.transmit) ∨
      ∃ t msg, s.get fail m.payload = .error (.plain t msg) := by
  unfold Broker.get
  rcases fail with _ | ⟨t, msg⟩
  · rcases hl : s.kv.lookup m.payload with _ | v
    · exact .inr ⟨_, _, rfl⟩
    · obtain ⟨l₁, l₂, hkv, -⟩ := List.lookup_eq_some_iff.mp hl
      obtain ⟨p, hp, hk, rfl⟩ := h.store m.payload v (by rw [hkv]; simp)
      refine .inl ⟨p.2, ?_, rfl⟩
      rcases (h.calls j c hc).inbox m hm with hpay | hpay
      · rw [← h.answer_query hfresh hc hp (hk.trans hpay)]; exact hp
      · obtain ⟨i, -, -, -, hi⟩ := h.answer_call hp
        exact absurd (hi.symm.trans (hk.trans hpay)) (channelName_ne_msgNewQuery a _)
  · exact .inr ⟨_, _, rfl⟩

/-- The message case leaves the waiter blocked in a send of a correlated value. -/
theorem Inv.waiterOk_onMessage
    (hfresh : ∀ i j, a.channelName (uuid i) = a.channelName (uuid j) → i = j)
    (h : Inv a uuid s) {j : Nat} {c : Call} (hc : s.calls[j]? = some c) {w : Waiter}
    (hw : c.waiter = some w) (hsel : w.pc = .select) {m : Message} (hm : m ∈ c.inbox)
    (fail : Option (String × String)) :
    WaiterOk s.answers c.query (w.onMessage (s.get fail m.payload)) := by
  have hclean : w.ans = ConcResult.zero ∨ w.ans = ConcResult.zero.timedOut := by
    have := (h.calls j c hc).waiter w hw
    obtain ⟨pc, v⟩ := w
    simp only at hsel; subst hsel; exact this
  show Correlated _ _ _
  rcases h.get_message hfresh hc hm fail with ⟨r, hr, hget⟩ | ⟨t, msg, hget⟩
  · intro ht
    refine ⟨r, hr, ?_⟩
    rw [hget] at ht ⊢
    rcases hclean with hz | hz <;> simp only [Waiter.onMessage, hz] at ht ⊢
    · exact decodeInto_zero _
    · rcases he : r.transmit.error with _ | e
      · simp [ConcResult.decodeInto, ConcResult.timedOut, ConcResult.zero, he, timeoutError,
          GoError.isTransmitted] at ht
      · exact decodeInto_timedOut he
  · simp [hget, Waiter.onMessage, Correlated, GoError.isTransmitted]

end Correlation


/-! ## Every step keeps the invariant -/

section Steps

variable {a : Adapter} {uuid : Nat → String} {s : Broker}

/-- The fields of a call `CallOk` reads, carried to a call with the same ones. -/
theorem CallOk.congr {ans : List (Query × ConcResult)} {j : Nat} {c c' : Call}
    (h : CallOk a uuid ans j c) (hq : c'.query = c.query) (hi : c'.inbox = c.inbox)
    (hw : c'.waiter = c.waiter) (hr : c'.received = c.received) : CallOk a uuid ans j c' := by
  obtain ⟨h1, h2, h3, h4⟩ := h
  exact ⟨hq ▸ h1, hi ▸ hq ▸ h2, hw ▸ hq ▸ h3, hr ▸ hq ▸ h4⟩

theorem Inv.publish (h : Inv a uuid s) (q : Query) :
    Inv a uuid { s with
      calls := s.calls ++ [Call.start { q with channel := a.channelName (uuid s.calls.length) }] } where
  calls i d hd := by
    rcases Nat.lt_or_ge i s.calls.length with hi | hi
    · rw [List.getElem?_append_left hi] at hd
      exact h.calls i d hd
    · rw [List.getElem?_append_right hi] at hd
      obtain ⟨rfl, rfl⟩ : i = s.calls.length ∧ Call.start _ = d := by
        rcases hk : i - s.calls.length with _ | k
        · simp only [hk, List.getElem?_cons_zero, Option.some.injEq] at hd; exact ⟨by omega, hd⟩
        · simp [hk] at hd
      exact ⟨rfl, by simp [Call.start], by simp [Call.start], by simp [Call.start]⟩
  jobs q' hq' := by
    obtain ⟨i, d, hd, hp, hq⟩ := h.jobs q' hq'
    have hi : i < s.calls.length := (List.getElem?_eq_some_iff.mp hd).1
    exact ⟨i, d, by rw [List.getElem?_append_left hi]; exact hd, hp, hq⟩
  nodup := h.nodup
  answers := h.answers
  store := h.store

theorem Inv.lpush (hfresh : ∀ i j, a.channelName (uuid i) = a.channelName (uuid j) → i = j)
    (h : Inv a uuid s) {j : Nat} {c : Call} (hc : s.calls[j]? = some c)
    (hpc : c.pc = .subscribed) :
    Inv a uuid { s.setCall j { c with pc := .pushed } with queue := c.query :: s.queue } := by
  have hs := h.setCall hc (e := { c with pc := .pushed }) rfl (by simp [Call.pushed])
    ((h.calls j c hc).congr rfl rfl rfl rfl)
  have hnew : c.query ∉ s.dequeued ++ s.queue := by
    intro hin
    obtain ⟨i, d, hd, hpd, hq⟩ := h.jobs _ hin
    have hij := hfresh i j ((h.calls i d hd).channel.symm.trans (hq ▸ (h.calls j c hc).channel))
    subst hij
    rw [Option.some.inj (hd.symm.trans hc)] at hpd
    simp [Call.pushed, hpc] at hpd
  refine ⟨hs.calls, fun q hq => ?_, ?_, hs.answers, hs.store⟩
  · rcases List.mem_append.mp hq with hq | hq
    · exact hs.jobs q (List.mem_append_left _ hq)
    · rcases List.mem_cons.mp hq with rfl | hq
      · exact ⟨j, _, Broker.setCall_get hc _, rfl, rfl⟩
      · exact hs.jobs q (List.mem_append_right _ hq)
  · show (s.dequeued ++ c.query :: s.queue).Nodup
    exact List.perm_middle.nodup_iff.mpr (List.nodup_cons.mpr ⟨hnew, h.nodup⟩)


theorem Inv.dequeue (h : Inv a uuid s) {q : Query} (hq : s.queue.getLast? = some q) :
    Inv a uuid { s with queue := s.queue.dropLast, dequeued := s.dequeued ++ [q] } := by
  obtain ⟨ys, hys⟩ := List.getLast?_eq_some_iff.mp hq
  have hperm : List.Perm ((s.dequeued ++ [q]) ++ s.queue.dropLast) (s.dequeued ++ s.queue) := by
    rw [hys, List.dropLast_concat, List.append_assoc]
    exact List.Perm.append_left _ List.perm_append_comm
  exact ⟨h.calls, fun q' hq' => h.jobs q' (hperm.mem_iff.mp hq'), hperm.nodup_iff.mpr h.nodup,
    fun p hp => List.mem_append_left _ (h.answers p hp), h.store⟩

theorem Inv.setResult (h : Inv a uuid s) {i : Nat} {q : Query} (hq : s.dequeued[i]? = some q)
    (r : ConcResult) :
    Inv a uuid { s.kvSet q.channel r.transmit with answers := s.answers ++ [(q, r)] } := by
  have hsub : s.answers ⊆ s.answers ++ [(q, r)] := List.subset_append_left _ _
  refine ⟨fun j c hc => (h.calls j c hc).mono hsub, h.jobs, h.nodup, fun p hp => ?_, fun k v hkv => ?_⟩
  · rcases List.mem_append.mp hp with hp | hp
    · exact h.answers p hp
    · rw [List.mem_singleton.mp hp]; exact List.getElem?_mem hq
  · rcases List.mem_cons.mp hkv with hkv | hkv
    · simp only [Prod.mk.injEq] at hkv
      exact ⟨(q, r), by simp, hkv.1.symm, hkv.2⟩
    · obtain ⟨p, hp, hk, hv⟩ := h.store k v (List.mem_filter.mp hkv).1
      exact ⟨p, hsub hp, hk, hv⟩

theorem Inv.expireKey (h : Inv a uuid s) (k : String) :
    Inv a uuid { s with kv := s.kv.filter (·.1 != k) } :=
  ⟨h.calls, h.jobs, h.nodup, h.answers, fun k' v hkv => h.store k' v (List.mem_filter.mp hkv).1⟩


/-- Every action keeps the invariant. -/
theorem Inv.step (hfresh : ∀ i j, a.channelName (uuid i) = a.channelName (uuid j) → i = j)
    (h : Inv a uuid s) {act : Act} {s' : Broker} (hs : s.step a uuid act = some s') :
    Inv a uuid s' := by
  cases act with
  | publish q ok =>
    simp only [Broker.step] at hs
    split at hs <;> cases hs
    · exact h.publish q
    · exact h
  | subscribe j =>
    obtain ⟨c, hc, hs⟩ := Option.bind_eq_some.mp hs
    split at hs <;> cases hs
    exact h.setCall hc rfl (by simp [Call.pushed, *]) ((h.calls j c hc).congr rfl rfl rfl rfl)
  | lpush j ok =>
    obtain ⟨c, hc, hs⟩ := Option.bind_eq_some.mp hs
    split at hs
    · split at hs <;> cases hs
      · exact h.lpush hfresh hc ‹_›
      · exact h.setCall hc rfl (by simp [Call.pushed, *]) ((h.calls j c hc).congr rfl rfl rfl rfl)
    · cases hs
  | spawn j =>
    obtain ⟨c, hc, hs⟩ := Option.bind_eq_some.mp hs
    split at hs <;> cases hs
    have hok := h.calls j c hc
    refine h.setCall hc rfl (by simp [Call.pushed, *]) ⟨hok.channel, hok.inbox, ?_, hok.received⟩
    rintro w ⟨⟩
    exact .inl rfl
  | notify j ok =>
    obtain ⟨c, hc, hs⟩ := Option.bind_eq_some.mp hs
    split at hs <;> cases hs
    have h' := h.setCall hc (e := { c with pc := .returned ok }) rfl (by simp [Call.pushed])
      ((h.calls j c hc).congr rfl rfl rfl rfl)
    split
    · exact h'.redisPublish (.inr rfl)
    · exact h'
  | expire j =>
    obtain ⟨c, hc, hs⟩ := Option.bind_eq_some.mp hs
    split at hs <;> cases hs
    exact h.setCall hc rfl id ((h.calls j c hc).congr rfl rfl rfl rfl)
  | cancel =>
    cases hs
    exact ⟨h.calls, h.jobs, h.nodup, h.answers, h.store⟩
  | waiterMessage j fail =>
    obtain ⟨c, hc, hs⟩ := Option.bind_eq_some.mp hs
    split at hs
    · next w m rest hw hin =>
      split at hs <;> cases hs
      have hok := h.calls j c hc
      refine h.setCall hc rfl id ⟨hok.channel, fun m' hm' => hok.inbox m' (hin ▸ .tail _ hm'), ?_,
        hok.received⟩
      rintro w' ⟨⟩
      exact h.waiterOk_onMessage hfresh hc hw ‹_› (hin ▸ .head _) fail
    · cases hs
  | waiterDeadline j =>
    obtain ⟨c, hc, hs⟩ := Option.bind_eq_some.mp hs
    split at hs
    · next w hw =>
      split at hs <;> cases hs
      next hsel =>
      have hok := h.calls j c hc
      refine h.setCall hc rfl id ⟨hok.channel, hok.inbox, ?_, hok.received⟩
      rintro w' ⟨⟩
      obtain ⟨pc, v⟩ := w
      simp only at hsel
      obtain ⟨rfl, -⟩ := hsel
      rcases hok.waiter _ hw with rfl | rfl <;> rfl
    · cases hs
  | waiterCancel j =>
    obtain ⟨c, hc, hs⟩ := Option.bind_eq_some.mp hs
    split at hs
    · split at hs <;> cases hs
      have hok := h.calls j c hc
      refine h.setCall hc rfl id ⟨hok.channel, hok.inbox, ?_, hok.received⟩
      rintro w' ⟨⟩
      trivial
    · cases hs
  | receive j =>
    obtain ⟨c, hc, hs⟩ := Option.bind_eq_some.mp hs
    have hok := h.calls j c hc
    split at hs <;> cases hs
    · next ret ans hw =>
      have hsent := hok.waiter _ hw
      refine h.setCall hc rfl id ⟨hok.channel, hok.inbox, ?_, ?_⟩
      · rintro w' ⟨⟩
        cases ret with
        | false => exact .inr hsent
        | true => trivial
      · intro d hd
        rcases List.mem_append.mp hd with hd | hd
        · exact hok.received d hd
        · rw [List.mem_singleton.mp hd]
          cases ret with
          | false =>
            obtain rfl : ans = ConcResult.zero.timedOut := hsent
            refine .inr fun ht => ?_
            simp [ConcResult.timedOut, timeoutError, GoError.isTransmitted] at ht
          | true => exact .inr hsent
    · refine h.setCall hc rfl id ⟨hok.channel, hok.inbox, hok.waiter, fun d hd => ?_⟩
      rcases List.mem_append.mp hd with hd | hd
      · exact hok.received d hd
      · exact .inl (List.mem_singleton.mp hd)
  | dequeue =>
    obtain ⟨q, hq, rfl⟩ := Option.map_eq_some'.mp hs
    exact h.dequeue hq
  | setResult i r =>
    obtain ⟨q, hq, rfl⟩ := Option.map_eq_some'.mp hs
    exact h.setResult hq r
  | publishResult i =>
    obtain ⟨q, -, rfl⟩ := Option.map_eq_some'.mp hs
    exact h.redisPublish (.inl rfl)
  | expireKey k =>
    cases hs
    exact h.expireKey k

end Steps


/-! ## Runs -/

section Runs

variable {a : Adapter} {uuid : Nat → String}

theorem Inv.init : Inv a uuid Broker.init :=
  ⟨by simp [Broker.init], by simp [Broker.init], by simp [Broker.init], by simp [Broker.init],
    by simp [Broker.init]⟩

theorem Inv.run (hfresh : ∀ i j, a.channelName (uuid i) = a.channelName (uuid j) → i = j)
    {s s' : Broker} (h : Inv a uuid s) {acts : List Act} (hr : s.run a uuid acts = some s') :
    Inv a uuid s' := by
  induction acts generalizing s with
  | nil => cases hr; exact h
  | cons act acts ih =>
    obtain ⟨s₁, h₁, h₂⟩ := Option.bind_eq_some.mp hr
    exact ih (h.step hfresh h₁) h₂

/-- Reply correlation. When the generated reply channels are pairwise distinct, in every
run of publishers, waiters, consumers and workers (who answer only queries they dequeued),
no job is dequeued twice, and every receive on the handle of a call returns either the zero
`ConcResult` that a closed handle yields, or a value with an error the waiter set itself
(the timeout, or a failed `GET`), or a worker's answer to that call's own query, with its
error rewritten to a `TransmittedError`. -/
theorem reply_correlation
    (hfresh : ∀ i j, a.channelName (uuid i) = a.channelName (uuid j) → i = j)
    {acts : List Act} {s : Broker} (hrun : Broker.init.run a uuid acts = some s) :
    s.dequeued.Nodup ∧ ∀ (j : Nat) (c : Call), s.calls[j]? = some c → ∀ d ∈ c.received,
      d = ConcResult.zero ∨
        (d.error.all GoError.isTransmitted → ∃ r, (c.query, r) ∈ s.answers ∧ d = r.transmit) := by
  have h := Inv.init.run hfresh hrun
  exact ⟨h.nodup.sublist (List.sublist_append_left _ _), fun j c hc => (h.calls j c hc).received⟩


/-- A cancelled call: the waiter takes the `a.ctx.Done()` case and closes the handle before
any reply, and the consumer's receive returns the zero `ConcResult`, with no error, though
no worker answered. -/
theorem cancelled_handle_reads_zero :
    (Broker.init.run ⟨"mqueryQueries", DefaultResultChannelPrefix⟩ (fun n => ⟨List.replicate n 'x'⟩)
        [.publish ⟨"", "concExample", "[]"⟩ true, .subscribe 0, .lpush 0 true, .spawn 0,
          .notify 0 true, .cancel, .waiterCancel 0, .receive 0]).map
      (fun s => ((s.calls[0]?).map (·.received), s.answers)) =
      some (some [ConcResult.zero], []) := by
  decide

/-- Reply channels named by `x`, `xx`, `xxx`, ...: pairwise distinct. -/
theorem channelName_replicate_injective (a : Adapter) (i j : Nat)
    (h : a.channelName ⟨List.replicate i 'x'⟩ = a.channelName ⟨List.replicate j 'x'⟩) : i = j := by
  have hd := congrArg (fun s => s.data.length) h
  simpa [Adapter.channelName] using hd

/-- A job published, dequeued and answered with a result, the worker's notification read by
the waiter, and the result received. -/
def answeredRun : List Act :=
  [.publish ⟨"", "concExample", "{}"⟩ true, .subscribe 0, .lpush 0 true, .spawn 0, .notify 0 true,
   .dequeue, .setResult 0 ⟨1, "a", ["a b"], none⟩, .publishResult 0, .waiterMessage 0 none,
   .receive 0]

theorem reply_correlation_answered :
    ∃ s, Broker.init.run ⟨"mqueryQueries", DefaultResultChannelPrefix⟩
        (fun n => ⟨List.replicate n 'x'⟩) answeredRun = some s ∧
      (s.dequeued.Nodup ∧ ∀ (j : Nat) (c : Call), s.calls[j]? = some c → ∀ d ∈ c.received,
        d = ConcResult.zero ∨
          (d.error.all GoError.isTransmitted → ∃ r, (c.query, r) ∈ s.answers ∧ d = r.transmit)) :=
  ⟨_, rfl, @reply_correlation ⟨"mqueryQueries", DefaultResultChannelPrefix⟩ _
    (channelName_replicate_injective _) answeredRun _ rfl⟩

end Runs

/-! ## The queue is first in, first out -/

section Queue

variable {a : Adapter} {uuid : Nat → String}

/-- The jobs in the order the queue hands them out: those dequeued, then the queue from its
`RPOP` end. -/
def history (s : Broker) : List Query := s.dequeued ++ s.queue.reverse

/-- The jobs of the calls past their `LPUSH`, in the order of the calls. -/
def pushedJobs (s : Broker) : List Query := (s.calls.filter Call.pushed).map Call.query

theorem pushedJobs_setCall {s : Broker} {j : Nat} {c e : Call} (hc : s.calls[j]? = some c)
    (hp : e.pushed = c.pushed) (hq : e.query = c.query) : (s.setCall j e).pushedJobs = s.pushedJobs := by
  obtain ⟨hj, hcj⟩ := List.getElem?_eq_some_iff.mp hc
  obtain ⟨l₁, l₂, hl, -, hset⟩ := @List.exists_of_set _ j e _ hj
  rw [hcj] at hl
  simp only [pushedJobs, setCall, hset]
  rw [hl]
  simp only [List.filter_append, List.filter_cons, hp]
  split <;> simp [hq]

/-- A successful `LPUSH` adds its call's job to the pushed jobs. -/
theorem pushedJobs_lpush {s : Broker} {j : Nat} {c : Call} (hc : s.calls[j]? = some c)
    (hpc : c.pc = .subscribed) :
    (s.setCall j { c with pc := .pushed }).pushedJobs.Perm (c.query :: s.pushedJobs) := by
  obtain ⟨hj, hcj⟩ := List.getElem?_eq_some_iff.mp hc
  obtain ⟨l₁, l₂, hl, -, hset⟩ := @List.exists_of_set _ j { c with pc := .pushed } _ hj
  rw [hcj] at hl
  simp only [pushedJobs, setCall, hset]
  rw [hl]
  simp only [List.filter_append, List.filter_cons, Call.pushed, hpc]
  simp

@[simp] theorem pushedJobs_redisPublish (s : Broker) (m : Message) : (s.redisPublish m).pushedJobs = s.pushedJobs := by
  simp [pushedJobs, redisPublish, List.filter_map, Function.comp_def]

/-- One action keeps the history and the pushed jobs, or, for a successful `LPUSH`, adds
the same job to both. -/
theorem step_jobs {s s' : Broker} {act : Act} (hs : s.step a uuid act = some s') :
    (s'.history = s.history ∧ s'.pushedJobs = s.pushedJobs) ∨
      ∃ q, s'.history = s.history ++ [q] ∧ s'.pushedJobs.Perm (q :: s.pushedJobs) := by
  cases act with
  | lpush j ok =>
    obtain ⟨c, hc, hs⟩ := Option.bind_eq_some.mp hs
    split at hs
    · split at hs <;> cases hs
      · exact .inr ⟨c.query, by simp [history, setCall], pushedJobs_lpush hc ‹_›⟩
      · exact .inl ⟨rfl, pushedJobs_setCall hc (by simp [Call.pushed, *]) rfl⟩
    · cases hs
  | dequeue =>
    obtain ⟨q, hq, rfl⟩ := Option.map_eq_some'.mp hs
    obtain ⟨ys, hys⟩ := List.getLast?_eq_some_iff.mp hq
    exact .inl ⟨by simp [history, hys], rfl⟩
  | publish q ok =>
    simp only [step] at hs
    split at hs <;> cases hs
    · exact .inl ⟨rfl, by simp [pushedJobs, Call.start, Call.pushed]⟩
    · exact .inl ⟨rfl, rfl⟩
  | notify j ok =>
    obtain ⟨c, hc, hs⟩ := Option.bind_eq_some.mp hs
    split at hs <;> cases hs
    have := pushedJobs_setCall hc (e := { c with pc := .returned ok }) (by simp [Call.pushed, *]) rfl
    split <;> exact .inl ⟨rfl, by simpa⟩
  | cancel => cases hs; exact .inl ⟨rfl, rfl⟩
  | setResult i r => obtain ⟨q, -, rfl⟩ := Option.map_eq_some'.mp hs; exact .inl ⟨rfl, rfl⟩
  | publishResult i => obtain ⟨q, -, rfl⟩ := Option.map_eq_some'.mp hs; exact .inl ⟨rfl, by simp⟩
  | expireKey k => cases hs; exact .inl ⟨rfl, rfl⟩
  | _ =>
    obtain ⟨c, hc, hs⟩ := Option.bind_eq_some.mp hs
    repeat' split at hs
    all_goals first | (cases hs; exact .inl ⟨rfl, pushedJobs_setCall hc (by simp [Call.pushed, *]) rfl⟩) | cases hs

/-- Over every run the history and the pushed jobs stay permutations of each other. -/
theorem run_jobs {acts : List Act} {s s' : Broker} (hrun : s.run a uuid acts = some s')
    (h : s.history.Perm s.pushedJobs) : s'.history.Perm s'.pushedJobs := by
  induction acts generalizing s with
  | nil => cases hrun; exact h
  | cons act acts ih =>
    obtain ⟨s₁, h1, h2⟩ := Option.bind_eq_some.mp hrun
    refine ih h2 ?_
    rcases step_jobs h1 with ⟨hh, hp⟩ | ⟨q, hh, hp⟩
    · rw [hh, hp]; exact h
    · rw [hh]
      exact (List.perm_append_singleton q _).trans ((h.cons q).trans hp.symm)

/-- The job queue loses and duplicates no job, whatever names `uuid` generates: on every run
from the initial broker, the jobs dequeued and those still queued are, with multiplicity,
exactly the jobs of the `PublishQuery` calls whose `LPUSH` succeeded. -/
theorem queue_exactly_once {acts : List Act} {s : Broker} (hs : Broker.init.run a uuid acts = some s) :
    (s.dequeued ++ s.queue.reverse).Perm ((s.calls.filter Call.pushed).map Call.query) :=
  run_jobs hs List.Perm.nil

theorem queue_exactly_once_answered :
    ∃ s, Broker.init.run ⟨"mqueryQueries", DefaultResultChannelPrefix⟩ (fun n => ⟨List.replicate n 'x'⟩) answeredRun = some s ∧
      (s.dequeued ++ s.queue.reverse).Perm ((s.calls.filter Call.pushed).map Call.query) :=
  ⟨_, rfl, @queue_exactly_once ⟨"mqueryQueries", DefaultResultChannelPrefix⟩ (fun n => ⟨List.replicate n 'x'⟩)
    answeredRun _ rfl⟩

end Queue

end MquerySru.Broker
