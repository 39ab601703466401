import MquerySru.Handler.Request

/-!
# Publishing the jobs of a search and receiving their results

Every revision of `searchRetrieve` runs the same two loops between its checks and its fold.
The first prepares one job per corpus, marshals it and publishes it through
`PublishQuery`, keeping the handles; the first failure ends it. The second receives from the
handles in order; the first failure ends it. The revisions differ in how a corpus's job is
prepared and in the diagnostics of the failures, which `publishAll` and `gatherAll` take as
parameters.

The adapter's calls are oracles: the outcome of the run's `i`-th `PublishQuery`, and what
`DeserializeConcExampleResult` makes of what the `i`-th handle delivers. A `Trace` records
what a run did with the adapter.

`fanOut` runs one loop after the other.

* `fanOut_trace`: no run receives from more handles than it obtained, and a run that ends
  with every result has received from every handle.
* `fanOut_ok`: when no call fails, one job per corpus, in order, and every result in order.
* `fanOut_error`: every error a run ends with is one of the failures it takes as parameters.
-/

namespace MquerySru

open Results

/-- What `PublishQuery` returns: a live handle and no error; no handle and an error (the
encoding or the `LPUSH` failed); or a live handle and an error (the notification failed). -/
inductive PublishReturn where
  | ok
  | failed (err : String)
  | notifyFailed (err : String)
  deriving DecidableEq, Repr

/-- What a run did with the adapter: the jobs it handed to `PublishQuery`, how many of those
calls returned a live handle, and how many handles it received from. -/
structure Trace (Job : Type) where
  jobs : List Job
  handles : Nat
  received : Nat
  deriving DecidableEq, Repr

/-- No call to the adapter. -/
def Trace.empty {Job : Type} : Trace Job := ⟨[], 0, 0⟩

section Publish

variable {C Job E : Type} (prepare : C → Except E Job) (marshal : Job → Except String Unit)
  (publishQuery : Nat → PublishReturn) (systemError : String → E)

/-- The publish loop, from the run's `i`-th `PublishQuery`: prepare the corpus's job, marshal
it, publish it. -/
def publishAll : Nat → List C → Trace Job → Option E × Trace Job
  | _, [], tr => (none, tr)
  | i, c :: rest, tr =>
    match prepare c with
    | .error e => (some e, tr)
    | .ok args =>
      match marshal args with
      | .error err => (some (systemError err), tr)
      | .ok () =>
        match publishQuery i with
        | .ok => publishAll (i + 1) rest { tr with jobs := tr.jobs ++ [args], handles := tr.handles + 1 }
        | .failed err => (some (systemError err), { tr with jobs := tr.jobs ++ [args] })
        | .notifyFailed err =>
          (some (systemError err), { tr with jobs := tr.jobs ++ [args], handles := tr.handles + 1 })

/-- The publish loop receives from no handle, and counts every live handle it obtains: one
per corpus when no call fails. -/
theorem publishAll_trace (i : Nat) (cs : List C) (tr : Trace Job) :
    (publishAll prepare marshal publishQuery systemError i cs tr).2.received = tr.received ∧
      tr.handles ≤ (publishAll prepare marshal publishQuery systemError i cs tr).2.handles ∧
      ((publishAll prepare marshal publishQuery systemError i cs tr).1 = none →
        (publishAll prepare marshal publishQuery systemError i cs tr).2.handles =
          tr.handles + cs.length) := by
  induction cs generalizing i tr with
  | nil => simp [publishAll]
  | cons c cs ih =>
    simp only [publishAll]
    split
    · simp
    · split
      · simp
      · split
        · obtain ⟨hr, hh, hok⟩ := ih (i + 1) _
          refine ⟨hr, by simp at hh; omega, fun h => by rw [hok h]; simp; omega⟩
        · simp
        · simp

/-- When no call fails, the loop publishes the corpora's jobs in order. -/
theorem publishAll_ok (prep : C → Job) {cs : List C} (hprep : ∀ c ∈ cs, prepare c = .ok (prep c))
    (hmarshal : ∀ args, marshal args = .ok ()) (hpub : ∀ i, publishQuery i = .ok)
    (i : Nat) (tr : Trace Job) :
    publishAll prepare marshal publishQuery systemError i cs tr =
      (none, { tr with jobs := tr.jobs ++ cs.map prep, handles := tr.handles + cs.length }) := by
  induction cs generalizing i tr with
  | nil => simp [publishAll]
  | cons c cs ih =>
    simp only [List.mem_cons, forall_eq_or_imp] at hprep
    simp only [publishAll, hprep.1, hmarshal, hpub, ih hprep.2]
    simp [Nat.add_assoc, Nat.add_comm 1]

/-- Every error the publish loop ends with is a preparation's error or a system error. -/
theorem publishAll_error (P : E → Prop) (hprep : ∀ c e, prepare c = .error e → P e)
    (hsys : ∀ err, P (systemError err)) (i : Nat) (cs : List C) (tr : Trace Job) (e : E)
    (h : (publishAll prepare marshal publishQuery systemError i cs tr).1 = some e) : P e := by
  induction cs generalizing i tr with
  | nil => cases h
  | cons c cs ih =>
    simp only [publishAll] at h
    split at h
    case h_1 e' he => exact Option.some.inj h ▸ hprep c e' he
    case h_2 =>
      split at h
      · exact Option.some.inj h ▸ hsys _
      · split at h
        · exact ih _ _ h
        all_goals exact Option.some.inj h ▸ hsys _

end Publish

section Gather

variable {Job E : Type} (receive : Nat → Except String ConcExample) (receiveError resultError : String → E)

/-- The gather loop over the handles `i`, `i + 1`, ... (`n` of them): a failed decoding and a
worker's error end it, each with its diagnostic. -/
def gatherAll : Nat → Nat → Trace Job → Except E (List ConcExample) × Trace Job
  | _, 0, tr => (.ok [], tr)
  | i, n + 1, tr =>
    let tr := { tr with received := tr.received + 1 }
    match receive i with
    | .error err => (.error (receiveError err), tr)
    | .ok result =>
      match result.error with
      | some err => (.error (resultError err), tr)
      | none =>
        let rest := gatherAll (i + 1) n tr
        (rest.1.map (result :: ·), rest.2)

/-- The gather loop receives from `k ≤ n` handles, all `n` of them when it succeeds. -/
theorem gatherAll_trace (i n : Nat) (tr : Trace Job) :
    ∃ k ≤ n, (gatherAll receive receiveError resultError i n tr).2 =
        { tr with received := tr.received + k } ∧
      ∀ results, (gatherAll receive receiveError resultError i n tr).1 = .ok results → k = n := by
  induction n generalizing i tr with
  | zero => exact ⟨0, le_rfl, rfl, fun _ _ => rfl⟩
  | succ n ih =>
    simp only [gatherAll]
    split
    · exact ⟨1, by omega, rfl, fun _ h => nomatch h⟩
    · split
      · exact ⟨1, by omega, rfl, fun _ h => nomatch h⟩
      · obtain ⟨k, hk, htr, hok⟩ := ih (i + 1) { tr with received := tr.received + 1 }
        refine ⟨k + 1, by omega, by rw [htr]; simp only [Nat.add_assoc, Nat.add_comm 1], fun results h => ?_⟩
        cases hres : (gatherAll receive receiveError resultError (i + 1) n
            { tr with received := tr.received + 1 }).1 with
        | error e => rw [hres] at h; cases h
        | ok rest => simp [hok rest hres]

/-- Every error the gather loop ends with is a decoding's error or a worker's. -/
theorem gatherAll_error (P : E → Prop) (hrecv : ∀ err, P (receiveError err))
    (hres : ∀ err, P (resultError err)) (i n : Nat) (tr : Trace Job) (e : E)
    (h : (gatherAll receive receiveError resultError i n tr).1 = .error e) : P e := by
  induction n generalizing i tr with
  | zero => cases h
  | succ n ih =>
    simp only [gatherAll] at h
    split at h
    · cases h; exact hrecv _
    · split at h
      · cases h; exact hres _
      · cases hg : (gatherAll receive receiveError resultError (i + 1) n
            { tr with received := tr.received + 1 }).1 with
        | error e' => rw [hg] at h; cases h; exact ih _ _ hg
        | ok rest => rw [hg] at h; cases h

/-- When every handle delivers a result without error, the loop returns them in order. -/
theorem gatherAll_ok (result : Nat → ConcExample) (hrecv : ∀ i, receive i = .ok (result i))
    (herr : ∀ i, (result i).error = none) (i n : Nat) (tr : Trace Job) :
    gatherAll receive receiveError resultError i n tr =
      (.ok ((List.range' i n).map result), { tr with received := tr.received + n }) := by
  induction n generalizing i tr with
  | zero => simp [gatherAll]
  | succ n ih =>
    simp only [gatherAll, hrecv, herr, ih, List.range'_succ, List.map_cons]
    simp [Except.map, Nat.add_assoc, Nat.add_comm 1]

/-- When the handles before the `k`-th deliver results without error and the `k`-th a worker's
error, the loop ends with that error after receiving from `k + 1` handles. -/
theorem gatherAll_stops (result : Nat → ConcExample) (hrecv : ∀ i, receive i = .ok (result i))
    {err : String} (k : Nat) (i n : Nat) (hk : k < n) (hbefore : ∀ j < k, (result (i + j)).error = none)
    (herr : (result (i + k)).error = some err) (tr : Trace Job) :
    gatherAll receive receiveError resultError i n tr =
      (.error (resultError err), { tr with received := tr.received + (k + 1) }) := by
  obtain ⟨n, rfl⟩ : ∃ m, n = m + 1 := ⟨n - 1, by omega⟩
  induction k generalizing i n tr with
  | zero =>
    rw [Nat.add_zero] at herr
    simp only [gatherAll, hrecv, herr]
  | succ k ih =>
    obtain ⟨n, rfl⟩ : ∃ m, n = m + 1 := ⟨n - 1, by omega⟩
    have hrest := ih (i + 1)
      (fun j hj => by simpa only [Nat.add_right_comm, Nat.add_assoc] using hbefore (j + 1) (by omega))
      (by simpa only [Nat.add_right_comm, Nat.add_assoc] using herr) { tr with received := tr.received + 1 } n
      (by omega)
    have hfirst : (result i).error = none := hbefore 0 (by omega)
    rw [gatherAll]
    simp only [hrecv, hfirst, hrest]
    simp [Except.map, Nat.add_assoc, Nat.add_comm 1]

end Gather

section FanOut

variable {C Job E : Type} (prepare : C → Except E Job) (marshal : Job → Except String Unit)
  (publishQuery : Nat → PublishReturn) (systemError : String → E)
  (receive : Nat → Except String ConcExample) (resultError : String → E)

/-- The publish loop over the corpora, then, if it got through, the gather loop over their
handles. A failed decoding is a failed system call. -/
def fanOut (cs : List C) : Except E (List ConcExample) × Trace Job :=
  match publishAll prepare marshal publishQuery systemError 0 cs .empty with
  | (some e, tr) => (.error e, tr)
  | (none, tr) => gatherAll receive systemError resultError 0 cs.length tr

/-- No run receives from more handles than it obtained; a run that ends with every result
has received from every handle. -/
theorem fanOut_trace (cs : List C) :
    let out := fanOut prepare marshal publishQuery systemError receive resultError cs
    out.2.received ≤ out.2.handles ∧ ∀ results, out.1 = .ok results → out.2.received = out.2.handles := by
  obtain ⟨hr, -, hok⟩ := publishAll_trace prepare marshal publishQuery systemError 0 cs .empty
  unfold fanOut
  split
  case h_1 e tr hpub =>
    rw [hpub] at hr
    simp only [Trace.empty] at hr
    exact ⟨by simp [hr], fun _ h => nomatch h⟩
  case h_2 tr hpub =>
    rw [hpub] at hr hok
    simp only [Trace.empty, forall_const, Nat.zero_add] at hr hok
    obtain ⟨k, hk, htr, hall⟩ := gatherAll_trace receive systemError resultError 0 cs.length tr
    simp only [htr, hr, hok]
    exact ⟨by omega, fun results h => by rw [hall results h]; omega⟩

/-- When no call fails, one job per corpus is published, in order, and every handle's result
is received, in order. -/
theorem fanOut_ok (prep : C → Job) (result : Nat → ConcExample) {cs : List C}
    (hprep : ∀ c ∈ cs, prepare c = .ok (prep c)) (hmarshal : ∀ args, marshal args = .ok ())
    (hpub : ∀ i, publishQuery i = .ok) (hrecv : ∀ i, receive i = .ok (result i))
    (herr : ∀ i, (result i).error = none) :
    fanOut prepare marshal publishQuery systemError receive resultError cs =
      (.ok ((List.range cs.length).map result), ⟨cs.map prep, cs.length, cs.length⟩) := by
  simp only [fanOut, publishAll_ok prepare marshal publishQuery systemError prep hprep hmarshal hpub,
    gatherAll_ok receive systemError resultError result hrecv herr, List.range_eq_range']
  simp [Trace.empty]

/-- When no call before the `k`-th receive fails and the `k`-th handle delivers a worker's
error, the run ends with that error, having published every job and received from `k + 1`
handles. -/
theorem fanOut_stops (prep : C → Job) (result : Nat → ConcExample) {cs : List C}
    (hprep : ∀ c ∈ cs, prepare c = .ok (prep c)) (hmarshal : ∀ args, marshal args = .ok ())
    (hpub : ∀ i, publishQuery i = .ok) (hrecv : ∀ i, receive i = .ok (result i)) {err : String}
    (k : Nat) (hk : k < cs.length) (hbefore : ∀ j < k, (result j).error = none)
    (herr : (result k).error = some err) :
    fanOut prepare marshal publishQuery systemError receive resultError cs =
      (.error (resultError err), ⟨cs.map prep, cs.length, k + 1⟩) := by
  simp only [fanOut, publishAll_ok prepare marshal publishQuery systemError prep hprep hmarshal hpub,
    gatherAll_stops receive systemError resultError result hrecv k 0 cs.length hk
      (by simpa only [Nat.zero_add] using hbefore) (by simpa only [Nat.zero_add] using herr)]
  simp [Trace.empty]

/-- Every error a run ends with is a preparation's error, a system error or a worker's. -/
theorem fanOut_error (P : E → Prop) (hprep : ∀ c e, prepare c = .error e → P e)
    (hsys : ∀ err, P (systemError err)) (hres : ∀ err, P (resultError err)) (cs : List C) (e : E)
    (h : (fanOut prepare marshal publishQuery systemError receive resultError cs).1 = .error e) : P e := by
  unfold fanOut at h
  split at h
  case h_1 e' tr hpub =>
    cases h
    exact publishAll_error prepare marshal publishQuery systemError P hprep hsys 0 cs .empty e
      (by rw [hpub])
  case h_2 tr _ => exact gatherAll_error receive systemError resultError P hsys hres 0 cs.length tr e h

end FanOut

end MquerySru
