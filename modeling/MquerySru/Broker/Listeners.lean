import MquerySru.Broker.Correlation

/-!
# Who listens on a reply channel: `SomeoneListens`

`SomeoneListens` asks Redis (`PUBSUB NUMSUB`) how many subscriptions are open on a query's
reply channel; the source's comment reads a `false` as "nobody is interested in the query
anymore". In the model the open subscriptions are the calls whose `sub` is set
(`someoneListens`). A call's subscription is opened by its `SUBSCRIBE` and closed only by its
waiter's deferred `sub.Close()`, and this module follows it over whole runs of `Broker.step`:

1. `CallStep`, `step_calls`, `step_call`: what one action can do to the calls, and to one call.
2. `SubOk`, `Subs.run`: in every reachable state a call has a waiter exactly from its `spawn`
   on, and its subscription is open from its `SUBSCRIBE` until its waiter returns.
3. `run_returned`: a call whose waiter has returned keeps its query, its closed subscription
   and its waiter over every continuation, and its handle yields only zero values.
   `handle_answers_once`: so a handle delivers at most one worker answer, after which its
   waiter has returned and its subscription is closed for good.
4. `someoneListens_iff_returned`: for a dequeued query `SomeoneListens` answers `false`
   exactly when the waiter of the query's call has returned. `someoneListens_skip`: once it
   answers `false`, it answers `false` in every continuation, the worker's own answer
   included, and every later receive on the query's handle returns the zero `ConcResult`.
5. `failed_lpush_subscription_leaks`: the subscription of a `PublishQuery` whose `LPUSH`
   failed is never closed, and `SomeoneListens` answers `true` on its channel from then on.
6. `publishResult_reaches_caller`: the `SUBSCRIBE` comes before the `LPUSH`, so a worker's
   `PUBLISH` for a dequeued job reaches the job's call, and only it, unless its waiter has
   returned.
-/

namespace MquerySru.Broker

/-- `SomeoneListens`: `PUBSUB NUMSUB` counts the open subscriptions on the query's channel;
`fail` is a failure of the command. -/
def someoneListens (s : Broker) (fail : Option GoError) (query : Query) : Except GoError Bool :=
  match fail with
  | some e => .error (.plain "*fmt.wrapError" ("failed to check channel listeners: " ++ e.error))
  | none => .ok (decide ((s.calls.filter fun c => c.sub && c.query.channel == query.channel).length > 0))

/-! ## 1. What a step does to the calls -/

/-- What one action can do to one call, with its guard. -/
inductive CallStep : Call → Call → Prop
  | subscribe {c : Call} : c.pc = .encoded → CallStep c { c with pc := .subscribed, sub := true }
  | lpush {c : Call} (ok : Bool) : c.pc = .subscribed →
      CallStep c { c with pc := if ok then .pushed else .failed }
  | spawn {c : Call} : c.pc = .pushed → CallStep c { c with pc := .spawned, waiter := some Waiter.init }
  | notify {c : Call} (ok : Bool) : c.pc = .spawned → CallStep c { c with pc := .returned ok }
  | expire {c : Call} : c.waiter.isSome → CallStep c { c with deadline := true }
  | message {c : Call} {w : Waiter} {m : Message} {rest : List Message} (got : Except GoError ConcResult) :
      c.waiter = some w → c.inbox = m :: rest → w.pc = .select →
      CallStep c { c with inbox := rest, waiter := some (w.onMessage got) }
  | deadline {c : Call} {w : Waiter} : c.waiter = some w → w.pc = .select → c.deadline = true →
      CallStep c { c with waiter := some w.onDeadline }
  | cancel {c : Call} {w : Waiter} : c.waiter = some w → w.pc = .select →
      CallStep c { c with sub := false, waiter := some { w with pc := .closed } }
  | receive {c : Call} {ret : Bool} {ans : ConcResult} : c.waiter = some ⟨.send ret, ans⟩ →
      CallStep c { c with
        sub := c.sub && !ret
        waiter := some ⟨if ret then .closed else .select, ans⟩
        received := c.received ++ [ans] }
  | receiveClosed {c : Call} {ans : ConcResult} : c.waiter = some ⟨.closed, ans⟩ →
      CallStep c { c with received := c.received ++ [ConcResult.zero] }

variable {a : Adapter} {uuid : Nat → String} {s : Broker}

/-- What one action does to the calls: it starts new ones, delivers a `PUBLISH` to all, or
moves one call by a `CallStep`, possibly followed by a `PUBLISH`. -/
theorem step_calls {act : Act} {s' : Broker} (hs : s.step a uuid act = some s') :
    (∃ l : List Call, s'.calls = s.calls ++ l ∧ ∀ c ∈ l, c.pc = .encoded ∧ c.sub = false ∧ c.waiter = none) ∨
    (∃ m, s'.calls = (s.redisPublish m).calls) ∨
    ∃ j c e, s.calls[j]? = some c ∧ CallStep c e ∧
      (s'.calls = (s.setCall j e).calls ∨ ∃ m, s'.calls = ((s.setCall j e).redisPublish m).calls) := by
  cases act with
  | publish q ok =>
    simp only [Broker.step] at hs
    split at hs <;> cases hs
    · exact .inl ⟨_, rfl, by simp [Call.start]⟩
    · exact .inl ⟨[], by simp, by simp⟩
  | subscribe j =>
    obtain ⟨c, hc, hs⟩ := Option.bind_eq_some.mp hs
    split at hs <;> cases hs
    exact .inr (.inr ⟨j, c, _, hc, .subscribe ‹_›, .inl rfl⟩)
  | lpush j ok =>
    obtain ⟨c, hc, hs⟩ := Option.bind_eq_some.mp hs
    split at hs
    · split at hs <;> cases hs
      · exact .inr (.inr ⟨j, c, _, hc, .lpush true ‹_›, .inl rfl⟩)
      · exact .inr (.inr ⟨j, c, _, hc, .lpush false ‹_›, .inl rfl⟩)
    · cases hs
  | spawn j =>
    obtain ⟨c, hc, hs⟩ := Option.bind_eq_some.mp hs
    split at hs <;> cases hs
    exact .inr (.inr ⟨j, c, _, hc, .spawn ‹_›, .inl rfl⟩)
  | notify j ok =>
    obtain ⟨c, hc, hs⟩ := Option.bind_eq_some.mp hs
    split at hs <;> cases hs
    refine .inr (.inr ⟨j, c, _, hc, .notify ok ‹_›, ?_⟩)
    split
    · exact .inr ⟨_, rfl⟩
    · exact .inl rfl
  | expire j =>
    obtain ⟨c, hc, hs⟩ := Option.bind_eq_some.mp hs
    split at hs <;> cases hs
    exact .inr (.inr ⟨j, c, _, hc, .expire ‹_›, .inl rfl⟩)
  | cancel =>
    cases hs
    exact .inl ⟨[], by simp, by simp⟩
  | waiterMessage j fail =>
    obtain ⟨c, hc, hs⟩ := Option.bind_eq_some.mp hs
    split at hs
    · next w m rest hw hin =>
      split at hs <;> cases hs
      exact .inr (.inr ⟨j, c, _, hc, .message _ hw hin ‹_›, .inl rfl⟩)
    · cases hs
  | waiterDeadline j =>
    obtain ⟨c, hc, hs⟩ := Option.bind_eq_some.mp hs
    split at hs
    · next w hw =>
      split at hs <;> cases hs
      next hsel => exact .inr (.inr ⟨j, c, _, hc, .deadline hw hsel.1 hsel.2, .inl rfl⟩)
    · cases hs
  | waiterCancel j =>
    obtain ⟨c, hc, hs⟩ := Option.bind_eq_some.mp hs
    split at hs
    · next w hw =>
      split at hs <;> cases hs
      next hsel => exact .inr (.inr ⟨j, c, _, hc, .cancel hw hsel.1, .inl rfl⟩)
    · cases hs
  | receive j =>
    obtain ⟨c, hc, hs⟩ := Option.bind_eq_some.mp hs
    split at hs <;> cases hs
    · next ret ans hw => exact .inr (.inr ⟨j, c, _, hc, .receive hw, .inl rfl⟩)
    · next ans hw => exact .inr (.inr ⟨j, c, _, hc, .receiveClosed hw, .inl rfl⟩)
  | dequeue =>
    obtain ⟨q, hq, rfl⟩ := Option.map_eq_some'.mp hs
    exact .inl ⟨[], by simp, by simp⟩
  | setResult i r =>
    obtain ⟨q, hq, rfl⟩ := Option.map_eq_some'.mp hs
    exact .inl ⟨[], by simp [Broker.kvSet], by simp⟩
  | publishResult i =>
    obtain ⟨q, -, rfl⟩ := Option.map_eq_some'.mp hs
    exact .inr (.inl ⟨_, rfl⟩)
  | expireKey k =>
    cases hs
    exact .inl ⟨[], by simp, by simp⟩

/-- What one action does to call `j`: it moves it by at most one `CallStep`, and may then
deliver a `PUBLISH` to it. -/
theorem step_call {j : Nat} {c : Call} (hc : s.calls[j]? = some c) {act : Act} {s' : Broker}
    (hs : s.step a uuid act = some s') :
    ∃ e, (e = c ∨ CallStep c e) ∧ (s'.calls[j]? = some e ∨ ∃ m, s'.calls[j]? = some (e.onPublish m)) := by
  have hpub : ∀ (t : Broker) (e : Call), t.calls[j]? = some e →
      (s'.calls = t.calls ∨ ∃ m, s'.calls = (t.redisPublish m).calls) →
      s'.calls[j]? = some e ∨ ∃ m, s'.calls[j]? = some (e.onPublish m) := by
    rintro t e ht (h | ⟨m, h⟩)
    · exact .inl (h ▸ ht)
    · exact .inr ⟨m, by simp [h, Broker.redisPublish, ht]⟩
  rcases step_calls hs with ⟨l, hl, -⟩ | ⟨m, hm⟩ | ⟨i, d, e, hd, hde, he⟩
  · exact ⟨c, .inl rfl, .inl (by rw [hl, List.getElem?_append_left (List.getElem?_eq_some_iff.mp hc).1, hc])⟩
  · exact ⟨c, .inl rfl, hpub s c hc (.inr ⟨m, hm⟩)⟩
  · by_cases hij : i = j
    · subst hij
      obtain rfl : d = c := Option.some.inj (hd.symm.trans hc)
      exact ⟨e, .inr hde, hpub _ e (Broker.setCall_get hd e) he⟩
    · exact ⟨c, .inl rfl, hpub _ c (by simpa [Broker.setCall, List.getElem?_set, hij] using hc) he⟩

/-! ## 2. Subscriptions follow waiters -/

/-- A call's subscription follows its waiter: there is no waiter before `spawn`, and the
subscription is open from `SUBSCRIBE` until the waiter returns. -/
structure SubOk (c : Call) : Prop where
  waiter : c.waiter = none ↔ c.pc = .encoded ∨ c.pc = .subscribed ∨ c.pc = .failed ∨ c.pc = .pushed
  sub : c.sub = true ↔ c.pc ≠ .encoded ∧ ∀ w, c.waiter = some w → w.pc ≠ .closed

theorem SubOk.onPublish {c : Call} (h : SubOk c) (m : Message) : SubOk (c.onPublish m) := by
  unfold Call.onPublish
  split
  · exact ⟨h.waiter, h.sub⟩
  · exact h

/-- Every per-call transition keeps `SubOk`. -/
theorem SubOk.callStep {c e : Call} (h : SubOk c) (hs : CallStep c e) : SubOk e := by
  obtain ⟨hw, hsub⟩ := h
  have started : ∀ w, c.waiter = some w →
      ¬ (c.pc = .encoded ∨ c.pc = .subscribed ∨ c.pc = .failed ∨ c.pc = .pushed) := fun w hwc h => by
    simp [hw.mpr h] at hwc
  cases hs with
  | subscribe hpc =>
    have : c.waiter = none := hw.mpr (.inl hpc)
    exact ⟨by simp [this], by simp [this]⟩
  | lpush ok hpc =>
    have : c.waiter = none := hw.mpr (.inr (.inl hpc))
    have : c.sub = true := hsub.mpr ⟨by simp [hpc], by simp [this]⟩
    cases ok <;> exact ⟨by simp [*], by simp [*]⟩
  | spawn hpc =>
    have : c.sub = true := hsub.mpr ⟨by simp [hpc], by simp [hw.mpr (.inr (.inr (.inr hpc)))]⟩
    exact ⟨by simp, by simp [this, Waiter.init]⟩
  | notify ok hpc =>
    exact ⟨iff_of_false (fun h => by simpa [hpc] using hw.mp h) (by simp), by simp [hsub, hpc]⟩
  | expire hsome => exact ⟨hw, hsub⟩
  | message got hwc hin hsel =>
    have : c.sub = true := hsub.mpr ⟨fun h => started _ hwc (.inl h), by simp [hwc, hsel]⟩
    exact ⟨iff_of_false (by simp) (started _ hwc), by simp [this, Waiter.onMessage, hsub.mp this]⟩
  | deadline hwc hsel _ =>
    have : c.sub = true := hsub.mpr ⟨fun h => started _ hwc (.inl h), by simp [hwc, hsel]⟩
    exact ⟨iff_of_false (by simp) (started _ hwc), by simp [this, Waiter.onDeadline, hsub.mp this]⟩
  | cancel hwc hsel => exact ⟨iff_of_false (by simp) (started _ hwc), by simp⟩
  | @receive ret ans hwc =>
    have hpc : c.pc ≠ .encoded := fun h => started _ hwc (.inl h)
    have : c.sub = true := hsub.mpr ⟨hpc, by simp [hwc]⟩
    cases ret <;> exact ⟨iff_of_false (by simp) (started _ hwc), by simp [this, hpc]⟩
  | receiveClosed hwc => exact ⟨hw, hsub⟩

/-- Every call is as `SubOk` says. -/
def Subs (s : Broker) : Prop := ∀ (j : Nat) (c : Call), s.calls[j]? = some c → SubOk c

theorem Subs.setCall (h : Subs s) {j : Nat} {e : Call} (he : SubOk e) : Subs (s.setCall j e) := fun i d hd => by
  rcases getElem?_setCall hd with ⟨-, rfl⟩ | ⟨-, hd⟩
  · exact he
  · exact h i d hd

theorem Subs.redisPublish (h : Subs s) (m : Message) : Subs (s.redisPublish m) := fun i d hd => by
  simp only [Broker.redisPublish, List.getElem?_map, Option.map_eq_some'] at hd
  obtain ⟨d, hd, rfl⟩ := hd
  exact (h i d hd).onPublish m

theorem Subs.step (h : Subs s) {act : Act} {s' : Broker} (hs : s.step a uuid act = some s') : Subs s' := by
  have hcalls : ∀ t : Broker, s'.calls = t.calls → Subs t → Subs s' := fun t ht hsub i d hd =>
    hsub i d (ht ▸ hd)
  rcases step_calls hs with ⟨l, hl, hnew⟩ | ⟨m, hm⟩ | ⟨j, c, e, hc, hce, he | ⟨m, he⟩⟩
  · intro i d hd
    rw [hl] at hd
    rcases Nat.lt_or_ge i s.calls.length with hi | hi
    · rw [List.getElem?_append_left hi] at hd
      exact h i d hd
    · obtain ⟨hpc, hsub, hw⟩ := hnew d (List.getElem?_mem (by rwa [List.getElem?_append_right hi] at hd))
      exact ⟨by simp [hpc, hw], by simp [hpc, hsub]⟩
  · exact hcalls _ hm (h.redisPublish m)
  · exact hcalls _ he (h.setCall ((h j c hc).callStep hce))
  · exact hcalls _ he ((h.setCall ((h j c hc).callStep hce)).redisPublish m)

theorem Subs.init : Subs Broker.init := fun _ _ h => by simp [Broker.init] at h

theorem Subs.run (h : Subs s) {acts : List Act} {s' : Broker} (hr : s.run a uuid acts = some s') : Subs s' := by
  induction acts generalizing s with
  | nil => cases hr; exact h
  | cons act acts ih =>
    obtain ⟨s₁, h₁, h₂⟩ := Option.bind_eq_some.mp hr
    exact ih (h.step h₁) h₂

/-! ## 3. A returned waiter -/

theorem Call.onPublish_of_closed {c : Call} (h : c.sub = false) (m : Message) : c.onPublish m = c := by
  simp [Call.onPublish, h]

theorem SubOk.sub_of_closed {c : Call} (h : SubOk c) {ans : ConcResult} (hw : c.waiter = some ⟨.closed, ans⟩) :
    c.sub = false := by
  cases hs : c.sub
  · rfl
  · exact absurd rfl ((h.sub.mp hs).2 _ hw)

/-- A started call whose subscription is closed has a returned waiter. -/
theorem SubOk.closed_of_not_sub {c : Call} (h : SubOk c) (hsub : c.sub = false) (hpc : c.pc ≠ .encoded) :
    ∃ ans, c.waiter = some ⟨.closed, ans⟩ := by
  by_contra hne
  have hopen : ∀ w, c.waiter = some w → w.pc ≠ .closed := fun ⟨pc, ans⟩ hw hpc' =>
    hne ⟨ans, by rw [hw, show pc = .closed from hpc']⟩
  simp [h.sub.mpr ⟨hpc, hopen⟩] at hsub

/-- A call whose waiter has returned moves only by `notify`, `expire` and receives of the zero
value. -/
theorem CallStep.of_closed {c e : Call} (hs : CallStep c e) (h : SubOk c) {ans : ConcResult}
    (hw : c.waiter = some ⟨.closed, ans⟩) :
    e.query = c.query ∧ e.sub = c.sub ∧ e.waiter = c.waiter ∧
      (e.received = c.received ∨ e.received = c.received ++ [ConcResult.zero]) := by
  have started : ¬ (c.pc = .encoded ∨ c.pc = .subscribed ∨ c.pc = .failed ∨ c.pc = .pushed) := fun hpc => by
    simp [h.waiter.mpr hpc] at hw
  cases hs with
  | subscribe hpc => exact absurd (.inl hpc) started
  | lpush _ hpc => exact absurd (.inr (.inl hpc)) started
  | spawn hpc => exact absurd (.inr (.inr (.inr hpc))) started
  | notify => exact ⟨rfl, rfl, rfl, .inl rfl⟩
  | expire => exact ⟨rfl, rfl, rfl, .inl rfl⟩
  | message _ hwc _ hsel => obtain rfl := Option.some.inj (hwc.symm.trans hw); nomatch hsel
  | deadline hwc hsel _ => obtain rfl := Option.some.inj (hwc.symm.trans hw); nomatch hsel
  | cancel hwc hsel => obtain rfl := Option.some.inj (hwc.symm.trans hw); nomatch hsel
  | receive hwc => simp [hwc] at hw
  | receiveClosed => exact ⟨rfl, rfl, rfl, .inr rfl⟩

/-- What a call whose waiter has returned keeps over a run: its query, its closed
subscription and waiter, and what it received, followed by zero values only. -/
structure Returned (c c' : Call) : Prop where
  query : c'.query = c.query
  sub : c'.sub = c.sub
  waiter : c'.waiter = c.waiter
  received : ∃ n, c'.received = c.received ++ List.replicate n ConcResult.zero

theorem Returned.trans {c c' c'' : Call} (h : Returned c c') (h' : Returned c' c'') : Returned c c'' := by
  obtain ⟨n, hn⟩ := h.received
  obtain ⟨n', hn'⟩ := h'.received
  exact ⟨h'.query.trans h.query, h'.sub.trans h.sub, h'.waiter.trans h.waiter,
    ⟨n + n', by rw [hn', hn, List.append_assoc, List.replicate_add]⟩⟩

theorem step_returned (hsubs : Subs s) {j : Nat} {c : Call} (hc : s.calls[j]? = some c) {ans : ConcResult}
    (hw : c.waiter = some ⟨.closed, ans⟩) {act : Act} {s' : Broker} (hs : s.step a uuid act = some s') :
    ∃ c', s'.calls[j]? = some c' ∧ Returned c c' := by
  have hsub := (hsubs j c hc).sub_of_closed hw
  obtain ⟨e, hce, he⟩ := step_call hc hs
  have hret : Returned c e := by
    rcases hce with rfl | hce
    · exact ⟨rfl, rfl, rfl, 0, by simp⟩
    · obtain ⟨hq, hs', hw', hr⟩ := hce.of_closed (hsubs j c hc) hw
      exact ⟨hq, hs', hw', hr.elim (fun h => ⟨0, by simp [h]⟩) fun h => ⟨1, by simp [h]⟩⟩
  refine ⟨e, he.elim id fun ⟨m, h⟩ => ?_, hret⟩
  rwa [Call.onPublish_of_closed (hret.sub.trans hsub)] at h

theorem run_returned (hsubs : Subs s) {j : Nat} {c : Call} (hc : s.calls[j]? = some c) {ans : ConcResult}
    (hw : c.waiter = some ⟨.closed, ans⟩) {acts : List Act} {s' : Broker} (hr : s.run a uuid acts = some s') :
    ∃ c', s'.calls[j]? = some c' ∧ Returned c c' := by
  induction acts generalizing s c with
  | nil => cases hr; exact ⟨c, hc, rfl, rfl, rfl, 0, by simp⟩
  | cons act acts ih =>
    obtain ⟨s₁, h₁, h₂⟩ := Option.bind_eq_some.mp hr
    obtain ⟨c₁, hc₁, hret₁⟩ := step_returned hsubs hc hw h₁
    obtain ⟨c', hc', hret⟩ := ih (hsubs.step h₁) hc₁ (hret₁.waiter.trans hw) h₂
    exact ⟨c', hc', hret₁.trans hret⟩

/-- A handle delivers at most one worker answer. Once a receive has taken the value the
waiter built from a reply message, the waiter has returned and closed the subscription, and
in every continuation it stays so and each later receive on the handle returns the zero
`ConcResult`. -/
theorem handle_answers_once {acts acts' : List Act} {s' : Broker} (hs : Broker.init.run a uuid acts = some s)
    {j : Nat} {c : Call} {ans : ConcResult} (hc : s.calls[j]? = some c)
    (hw : c.waiter = some ⟨.send true, ans⟩) (hs' : s.run a uuid (.receive j :: acts') = some s') :
    ∃ c', s'.calls[j]? = some c' ∧ c'.waiter = some ⟨.closed, ans⟩ ∧ c'.sub = false ∧
      ∃ n, c'.received = c.received ++ ans :: List.replicate n ConcResult.zero := by
  obtain ⟨s₁, h₁, h₂⟩ := Option.bind_eq_some.mp hs'
  have hstep : s.step a uuid (.receive j) = some (s.setCall j { c with
      sub := c.sub && !true, waiter := some ⟨.closed, ans⟩, received := c.received ++ [ans] }) := by
    simp [Broker.step, hc, hw]
  obtain rfl := Option.some.inj (h₁.symm.trans hstep)
  obtain ⟨c', hc', hret⟩ := run_returned ((Subs.init.run hs).step hstep) (Broker.setCall_get hc _) rfl h₂
  obtain ⟨n, hn⟩ := hret.received
  exact ⟨c', hc', hret.waiter, hret.sub.trans (Bool.and_false _), n, by simp [hn]⟩

/-- The answered job of `answeredRun` before its receive: the receive takes the answer, and a
second receive the zero value. -/
theorem handle_answers_once_answered :
    ∃ s s' c ans, Broker.init.run ⟨"mqueryQueries", DefaultResultChannelPrefix⟩ (fun n => ⟨List.replicate n 'x'⟩)
        [.publish ⟨"", "concExample", "{}"⟩ true, .subscribe 0, .lpush 0 true, .spawn 0, .notify 0 true,
          .dequeue, .setResult 0 ⟨1, "a", ["a b"], none⟩, .publishResult 0, .waiterMessage 0 none] = some s ∧
      s.calls[0]? = some c ∧ c.waiter = some ⟨.send true, ans⟩ ∧
      s.run ⟨"mqueryQueries", DefaultResultChannelPrefix⟩ (fun n => ⟨List.replicate n 'x'⟩)
        [.receive 0, .receive 0] = some s' ∧
      ∃ c', s'.calls[0]? = some c' ∧ c'.waiter = some ⟨.closed, ans⟩ ∧ c'.sub = false ∧
        ∃ n, c'.received = c.received ++ ans :: List.replicate n ConcResult.zero :=
  ⟨_, _, _, _, rfl, rfl, rfl, rfl,
    @handle_answers_once ⟨"mqueryQueries", DefaultResultChannelPrefix⟩ (fun n => ⟨List.replicate n 'x'⟩) _
      [.publish ⟨"", "concExample", "{}"⟩ true, .subscribe 0, .lpush 0 true, .spawn 0, .notify 0 true,
        .dequeue, .setResult 0 ⟨1, "a", ["a b"], none⟩, .publishResult 0, .waiterMessage 0 none]
      [.receive 0] _ rfl 0 _ _ rfl rfl rfl⟩

/-! ## 4. Skipping a query nobody listens to -/

/-- `SomeoneListens` answers `false` exactly when no call on the channel has its subscription
open. -/
theorem someoneListens_false {q : Query} :
    s.someoneListens none q = .ok false ↔ ∀ c ∈ s.calls, c.query.channel = q.channel → c.sub = false := by
  simp only [someoneListens, Except.ok.injEq, decide_eq_false_iff_not, gt_iff_lt, not_lt,
    Nat.le_zero, List.length_eq_zero, List.filter_eq_nil_iff]
  exact forall₂_congr fun c _ => by cases c.sub <;> simp

/-- `SomeoneListens` answers `true` while some call on the channel has its subscription open. -/
theorem someoneListens_of_mem {c : Call} (hc : c ∈ s.calls) (hsub : c.sub = true) :
    s.someoneListens none c.query = .ok true := by
  simp only [someoneListens, Except.ok.injEq, decide_eq_true_eq, gt_iff_lt, List.length_pos, ne_eq,
    List.filter_eq_nil_iff, not_forall]
  exact ⟨c, hc, by simp [hsub]⟩

/-- With distinct reply channels, calls of two reachable states on one channel are the same
call. -/
theorem Inv.index_eq (hfresh : ∀ i j, a.channelName (uuid i) = a.channelName (uuid j) → i = j)
    {s' : Broker} (h : Inv a uuid s) (h' : Inv a uuid s') {i j : Nat} {c d : Call} (hc : s.calls[i]? = some c)
    (hd : s'.calls[j]? = some d) (hch : c.query.channel = d.query.channel) : i = j :=
  hfresh i j ((h.calls i c hc).channel.symm.trans (hch.trans (h'.calls j d hd).channel))

/-- A dequeued job is the query of a call past its `SUBSCRIBE`. -/
theorem Inv.dequeued_call (h : Inv a uuid s) {q : Query} (hq : q ∈ s.dequeued) :
    ∃ (j : Nat) (c : Call), s.calls[j]? = some c ∧ c.query = q ∧ c.pc ≠ .encoded := by
  obtain ⟨j, c, hc, hpushed, rfl⟩ := h.jobs q (List.mem_append_left _ hq)
  exact ⟨j, c, hc, rfl, fun h => by simp [Call.pushed, h] at hpushed⟩

/-- What `SomeoneListens` tells a worker. With pairwise distinct reply channels, in every
reachable state `SomeoneListens` answers `false` for a dequeued job exactly when the waiter of
the call that published the job has returned: a worker never skips a job whose caller still
waits for it. -/
theorem someoneListens_iff_returned
    (hfresh : ∀ i j, a.channelName (uuid i) = a.channelName (uuid j) → i = j)
    {acts : List Act} (hs : Broker.init.run a uuid acts = some s) {q : Query} (hq : q ∈ s.dequeued) :
    ∃ (j : Nat) (c : Call), s.calls[j]? = some c ∧ c.query = q ∧
      (s.someoneListens none q = .ok false ↔ ∃ ans : ConcResult, c.waiter = some ⟨.closed, ans⟩) := by
  have hinv := Inv.init.run hfresh hs
  have hsubs := Subs.init.run hs
  obtain ⟨j, c, hc, rfl, hpc⟩ := hinv.dequeued_call hq
  refine ⟨j, c, hc, rfl, fun hno => (hsubs j c hc).closed_of_not_sub
    (someoneListens_false.mp hno c (List.getElem?_mem hc) rfl) hpc, fun ⟨ans, hw⟩ => ?_⟩
  refine someoneListens_false.mpr fun d hd hch => ?_
  obtain ⟨i, hi⟩ := List.getElem?_of_mem hd
  obtain rfl := hinv.index_eq hfresh hinv hi hc hch
  obtain rfl : d = c := Option.some.inj (hi.symm.trans hc)
  exact (hsubs i d hi).sub_of_closed hw

/-- A job dequeued while its caller waits: `SomeoneListens` answers `true`, and the waiter has not
returned. -/
theorem someoneListens_iff_returned_waiting :
    ∃ s, Broker.init.run ⟨"mqueryQueries", DefaultResultChannelPrefix⟩ (fun n => ⟨List.replicate n 'x'⟩)
        (answeredRun.take 6) = some s ∧ ⟨"mqueryResults:", "concExample", "{}"⟩ ∈ s.dequeued ∧
      ∃ (j : Nat) (c : Call), s.calls[j]? = some c ∧ c.query = ⟨"mqueryResults:", "concExample", "{}"⟩ ∧
        (s.someoneListens none ⟨"mqueryResults:", "concExample", "{}"⟩ = .ok false ↔
          ∃ ans : ConcResult, c.waiter = some ⟨.closed, ans⟩) :=
  ⟨_, rfl, by decide, @someoneListens_iff_returned ⟨"mqueryQueries", DefaultResultChannelPrefix⟩
    (fun n => ⟨List.replicate n 'x'⟩) _ (channelName_replicate_injective _) (answeredRun.take 6) rfl _ (by decide)⟩

/-- Skipping a query nobody listens to loses nothing. Take a reachable state, with pairwise
distinct reply channels, in which `SomeoneListens` answers `false` for a dequeued query. Then in
every continuation of the run, the worker's answer to the query included, nobody listens on its
channel again, and every later receive on the query's handle returns the zero `ConcResult`. -/
theorem someoneListens_skip (hfresh : ∀ i j, a.channelName (uuid i) = a.channelName (uuid j) → i = j)
    {acts acts' : List Act} {s' : Broker} (hs : Broker.init.run a uuid acts = some s)
    (hs' : s.run a uuid acts' = some s') {q : Query} (hq : q ∈ s.dequeued)
    (hno : s.someoneListens none q = .ok false) :
    s'.someoneListens none q = .ok false ∧
      ∃ (j : Nat) (c c' : Call), s.calls[j]? = some c ∧ c.query = q ∧ s'.calls[j]? = some c' ∧
        ∃ n, c'.received = c.received ++ List.replicate n ConcResult.zero := by
  have hinv := Inv.init.run hfresh hs
  have hinv' : Inv a uuid s' := Inv.init.run hfresh (by rw [run_append, hs]; exact hs')
  have hsubs := Subs.init.run hs
  obtain ⟨j, c, hc, rfl, hpc⟩ := hinv.dequeued_call hq
  have hsub := someoneListens_false.mp hno c (List.getElem?_mem hc) rfl
  obtain ⟨ans, hw⟩ := (hsubs j c hc).closed_of_not_sub hsub hpc
  obtain ⟨c', hc', hret⟩ := run_returned hsubs hc hw hs'
  refine ⟨someoneListens_false.mpr fun d hd hch => ?_, j, c, c', hc, rfl, hc', hret.received⟩
  obtain ⟨i, hi⟩ := List.getElem?_of_mem hd
  obtain rfl := hinv'.index_eq hfresh hinv hi hc hch
  obtain rfl : d = c' := Option.some.inj (hi.symm.trans hc')
  exact hret.sub.trans hsub

/-- A job dequeued after its caller's context was cancelled, then answered and its reply
published: nobody listens, and the consumer reads the closed handle. -/
theorem someoneListens_skip_cancelled :
    ∃ s s', Broker.init.run ⟨"mqueryQueries", DefaultResultChannelPrefix⟩ (fun n => ⟨List.replicate n 'x'⟩)
        [.publish ⟨"", "concExample", "{}"⟩ true, .subscribe 0, .lpush 0 true, .spawn 0, .notify 0 true,
          .dequeue, .cancel, .waiterCancel 0] = some s ∧
      s.run ⟨"mqueryQueries", DefaultResultChannelPrefix⟩ (fun n => ⟨List.replicate n 'x'⟩)
        [.setResult 0 ⟨1, "a", ["a b"], none⟩, .publishResult 0, .receive 0] = some s' ∧
      ⟨"mqueryResults:", "concExample", "{}"⟩ ∈ s.dequeued ∧
      s.someoneListens none ⟨"mqueryResults:", "concExample", "{}"⟩ = .ok false ∧
      (s'.someoneListens none ⟨"mqueryResults:", "concExample", "{}"⟩ = .ok false ∧
        ∃ (j : Nat) (c c' : Call), s.calls[j]? = some c ∧ c.query = ⟨"mqueryResults:", "concExample", "{}"⟩ ∧
          s'.calls[j]? = some c' ∧ ∃ n, c'.received = c.received ++ List.replicate n ConcResult.zero) :=
  ⟨_, _, rfl, rfl, by decide, rfl,
    @someoneListens_skip ⟨"mqueryQueries", DefaultResultChannelPrefix⟩ (fun n => ⟨List.replicate n 'x'⟩) _
      (channelName_replicate_injective _)
      [.publish ⟨"", "concExample", "{}"⟩ true, .subscribe 0, .lpush 0 true, .spawn 0, .notify 0 true,
        .dequeue, .cancel, .waiterCancel 0]
      [.setResult 0 ⟨1, "a", ["a b"], none⟩, .publishResult 0, .receive 0] _ rfl rfl _ (by decide) rfl⟩

/-! ## 5. A failed `LPUSH` -/

@[simp] theorem Call.onPublish_pc (m : Message) (c : Call) : (c.onPublish m).pc = c.pc := by
  unfold Call.onPublish; split <;> rfl

/-- A call whose `LPUSH` failed has no waiter, so no per-call transition applies to it. -/
theorem CallStep.not_failed {c e : Call} (hs : CallStep c e) (hf : c.pc = .failed) (hw : c.waiter = none) :
    False := by
  cases hs <;> simp_all

theorem step_failed (hsubs : Subs s) {j : Nat} {c : Call} (hc : s.calls[j]? = some c) (hf : c.pc = .failed)
    {act : Act} {s' : Broker} (hs : s.step a uuid act = some s') :
    ∃ c', s'.calls[j]? = some c' ∧ c'.pc = .failed ∧ c'.query = c.query := by
  obtain ⟨e, rfl | hce, he⟩ := step_call hc hs
  · rcases he with he | ⟨m, he⟩
    · exact ⟨e, he, hf, rfl⟩
    · exact ⟨_, he, by simp [hf], by simp⟩
  · exact (hce.not_failed hf ((hsubs j c hc).waiter.mpr (by simp [hf]))).elim

theorem run_failed (hsubs : Subs s) {j : Nat} {c : Call} (hc : s.calls[j]? = some c) (hf : c.pc = .failed)
    {acts : List Act} {s' : Broker} (hr : s.run a uuid acts = some s') :
    ∃ c', s'.calls[j]? = some c' ∧ c'.pc = .failed ∧ c'.query = c.query := by
  induction acts generalizing s c with
  | nil => cases hr; exact ⟨c, hc, hf, rfl⟩
  | cons act acts ih =>
    obtain ⟨s₁, h₁, h₂⟩ := Option.bind_eq_some.mp hr
    obtain ⟨c₁, hc₁, hf₁, hq₁⟩ := step_failed hsubs hc hf h₁
    obtain ⟨c', hc', hf', hq'⟩ := ih (hsubs.step h₁) hc₁ hf₁ h₂
    exact ⟨c', hc', hf', hq'.trans hq₁⟩

/-- The subscription of a `PublishQuery` whose `LPUSH` failed is never closed. In every
continuation of the run, the cancellation of the adapter's context included, the call stays
failed with its subscription open, and `SomeoneListens` on its channel answers `true`. -/
theorem failed_lpush_subscription_leaks {acts acts' : List Act} {s' : Broker}
    (hs : Broker.init.run a uuid acts = some s) {j : Nat} {c : Call} (hc : s.calls[j]? = some c)
    (hf : c.pc = .failed) (hs' : s.run a uuid acts' = some s') :
    ∃ c', s'.calls[j]? = some c' ∧ c'.pc = .failed ∧ c'.sub = true ∧
      s'.someoneListens none c.query = .ok true := by
  have hsubs := Subs.init.run hs
  obtain ⟨c', hc', hf', hq⟩ := run_failed hsubs hc hf hs'
  have hok := hsubs.run hs' j c' hc'
  have hsub : c'.sub = true := hok.sub.mpr ⟨by simp [hf'], by simp [hok.waiter.mpr (by simp [hf'])]⟩
  exact ⟨c', hc', hf', hsub, hq ▸ someoneListens_of_mem (List.getElem?_mem hc') hsub⟩

/-- A failed `LPUSH`, then a cancellation and a second call: the first subscription is still
open. -/
theorem failed_lpush_subscription_leaks_cancelled :
    ∃ s s' c, Broker.init.run ⟨"mqueryQueries", DefaultResultChannelPrefix⟩ (fun n => ⟨List.replicate n 'x'⟩)
        [.publish ⟨"", "concExample", "{}"⟩ true, .subscribe 0, .lpush 0 false] = some s ∧
      s.run ⟨"mqueryQueries", DefaultResultChannelPrefix⟩ (fun n => ⟨List.replicate n 'x'⟩)
        [.cancel, .publish ⟨"", "concExample", "{}"⟩ true, .subscribe 1] = some s' ∧
      s.calls[0]? = some c ∧ c.pc = .failed ∧
      ∃ c', s'.calls[0]? = some c' ∧ c'.pc = .failed ∧ c'.sub = true ∧
        s'.someoneListens none c.query = .ok true :=
  ⟨_, _, _, rfl, rfl, rfl, rfl,
    @failed_lpush_subscription_leaks ⟨"mqueryQueries", DefaultResultChannelPrefix⟩
      (fun n => ⟨List.replicate n 'x'⟩) _
      [.publish ⟨"", "concExample", "{}"⟩ true, .subscribe 0, .lpush 0 false]
      [.cancel, .publish ⟨"", "concExample", "{}"⟩ true, .subscribe 1] _ rfl 0 _ rfl rfl rfl⟩

/-! ## 6. A worker's reply reaches its caller -/

/-- A worker's reply reaches its caller. `PublishQuery` subscribes before its `LPUSH`, so a
dequeued job's call listens on the job's channel until its waiter returns. When the reply
channels are pairwise distinct, in every reachable state the `PUBLISH` of `PublishResult` for
a dequeued job appends the reply to the inbox of that job's call, unless the call's waiter
has already returned, and leaves every other call as it was. -/
theorem publishResult_reaches_caller
    (hfresh : ∀ i j, a.channelName (uuid i) = a.channelName (uuid j) → i = j)
    {acts : List Act} {s : Broker} (hs : Broker.init.run a uuid acts = some s) {i : Nat} {q : Query}
    (hq : s.dequeued[i]? = some q) :
    ∃ (j : Nat) (c : Call) (s' : Broker), s.calls[j]? = some c ∧ c.query = q ∧ s.step a uuid (.publishResult i) = some s' ∧
      (∀ k d, k ≠ j → s.calls[k]? = some d → s'.calls[k]? = some d) ∧
      (s'.calls[j]? = some { c with inbox := c.inbox ++ [⟨q.channel, q.channel⟩] } ∨
        ∃ ans : ConcResult, c.waiter = some ⟨.closed, ans⟩ ∧ s'.calls[j]? = some c) := by
  have hinv := Inv.init.run hfresh hs
  obtain ⟨j, c, hc, rfl, hpc⟩ := hinv.dequeued_call (List.getElem?_mem hq)
  have hstep : s.step a uuid (.publishResult i) = some (s.redisPublish ⟨c.query.channel, c.query.channel⟩) := by
    simp [step, hq]
  refine ⟨j, c, _, hc, rfl, hstep, fun k d hk hd => ?_, ?_⟩
  · have hne : d.query.channel ≠ c.query.channel := fun h => hk (hinv.index_eq hfresh hinv hd hc h)
    simp [redisPublish, hd, Call.onPublish, hne]
  · cases hsub : c.sub
    · obtain ⟨ans, hw⟩ := (Subs.init.run hs j c hc).closed_of_not_sub hsub hpc
      exact .inr ⟨ans, hw, by simp [redisPublish, hc, Call.onPublish, hsub]⟩
    · exact .inl (by simp [redisPublish, hc, Call.onPublish, hsub])

theorem publishResult_reaches_caller_answered :
    ∃ s, Broker.init.run ⟨"mqueryQueries", DefaultResultChannelPrefix⟩ (fun n => ⟨List.replicate n 'x'⟩)
        (answeredRun.take 6) = some s ∧ ∃ q : Query, s.dequeued[0]? = some q ∧
      ∃ (j : Nat) (c : Call) (s' : Broker), s.calls[j]? = some c ∧ c.query = q ∧
        s.step ⟨"mqueryQueries", DefaultResultChannelPrefix⟩ (fun n => ⟨List.replicate n 'x'⟩) (.publishResult 0) = some s' ∧
        (∀ k d, k ≠ j → s.calls[k]? = some d → s'.calls[k]? = some d) ∧
        (s'.calls[j]? = some { c with inbox := c.inbox ++ [⟨q.channel, q.channel⟩] } ∨
          ∃ ans : ConcResult, c.waiter = some ⟨.closed, ans⟩ ∧ s'.calls[j]? = some c) :=
  ⟨_, rfl, _, rfl, @publishResult_reaches_caller ⟨"mqueryQueries", DefaultResultChannelPrefix⟩ _
    (channelName_replicate_injective _) (answeredRun.take 6) _ rfl 0 _ rfl⟩

end MquerySru.Broker
