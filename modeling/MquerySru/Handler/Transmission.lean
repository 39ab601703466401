import MquerySru.Handler.SruV12
import MquerySru.Broker.Publish

/-!
# Worker errors across the transport

A worker reports a failed search by passing a result with an `Error` to `PublishResult`. The
adapter does not send that error: it sends a `*TransmittedError` of the original's message
and type (`ConcResult.transmit`), whose `Error()` is `TransmittedError(<type>: <message>)`.
The gob transport and `DeserializeConcExampleResult` hand that value back, so `result.Err()`
in `searchRetrieve` is the transmitted error.

The handler compares `err.Error()` with the text of `mango.ErrRowsRangeOutOfConc`. The
transmitted text is longer than the message it wraps (`transmitted_error_ne`), so the
comparison fails for the sentinel a worker passes, and the diagnostic is
`GeneralSystemError` whatever the message.

* `searchRetrieve_worker_error`: for every worker error that ends the gather loop, the status,
  envelope and trace of `searchRetrieve`; the sentinel is answered 500.
* `searchRetrieve_sentinel_unrecognised`: a run where the second worker passes the sentinel.

The handlers see `PublishQuery` through the oracle `PublishReturn`. `publishQuery_abstracts`
relates the two levels: every return of `Broker.publishQuery`, run alone, is one case of
`PublishReturn`, and its job is queued exactly when that case is not `failed`.
-/

namespace MquerySru.SruV12

open Results V12

/-- The text of a transmitted error is longer than the message it wraps. -/
theorem transmitted_error_ne (m t : String) : (GoError.transmitted m t).error ≠ m := by
  intro h
  have hlen := congrArg String.length h
  have hpre : "TransmittedError(".length = 17 := rfl
  simp only [GoError.error, String.length_append, hpre] at hlen
  omega

section Worker

variable (resources : Registry) {AST : Type} (env : Env AST)

/-- A worker error across the transport: when every key validates, the query is non-empty,
the selected corpora are registered and the query translates for each of them without
errors, every job is published, the handles before the `k`-th deliver results without error,
and the `k`-th delivers what `PublishResult` encoded for a worker's result with the error `e`,
then `searchRetrieve` answers `ConformantUnprocessableEntity` exactly when the transmitted
text is the sentinel's and 500 otherwise, appends a `GeneralSystemError` diagnostic with that text, and has received
from `k + 1` handles. When `e`'s message is the sentinel's, the answer is 500. -/
theorem searchRetrieve_worker_error (p : Params) (r : FCSResponse) (corpora : List String)
    (ast : String → AST) (result : Nat → ConcExample) (k : Nat) (v : ConcResult) (e : GoError)
    (hkeys : ∀ key ∈ p.keys, env.validate key = none) (hquery : (p.query "query").length ≠ 0)
    (hsel : selectCorpora env p = corpora) (hk : k < corpora.length)
    (hreg : ∀ v ∈ corpora, (resources.find? v).isSome)
    (hparse : ∀ c ∈ corpora, env.parseQuery (p.query "query") (resource resources c).posAttrs
      (resource resources c).structureMapping = .ok (ast c))
    (hast : ∀ c ∈ corpora, env.errors (ast c) = []) (hmarshal : ∀ args, env.marshal args = .ok ())
    (hpub : ∀ i, env.publishQuery i = .ok) (hrecv : ∀ i, env.receive i = .ok (result i))
    (hbefore : ∀ i < k, (result i).error = none) (hv : v.error = some e)
    (htransport : (result k).error = v.transmit.error.map GoError.error) :
    searchRetrieve resources env p r =
        (if (GoError.transmitted e.error e.typeName).error = env.errRowsRangeOutOfConc
          then .conformantUnprocessableEntity else .internalServerError,
          r.AddError ⟨.dcGeneralSystemError, (GoError.transmitted e.error e.typeName).error,
            "General system error"⟩,
          ⟨corpora.map fun c => ⟨env.getRegistryPath c, "", env.generate (ast c),
            env.getCommonPosAttrNames corpora, 10⟩, corpora.length, k + 1⟩) ∧
      (e.error = env.errRowsRangeOutOfConc → (searchRetrieve resources env p r).1 = .internalServerError) := by
  have herr : (result k).error = some (GoError.transmitted e.error e.typeName).error := by
    simp only [htransport, ConcResult.transmit, hv, Option.map_some']
  rw [searchRetrieve_eq_fanOut resources env p r hkeys hquery hsel (List.ne_nil_of_length_pos (by omega)) hreg,
    fanOut_stops _ _ _ _ _ _ _ result (fun c hc => prepareJob_ok resources env (hparse c hc) (hast c hc))
      hmarshal hpub hrecv k hk hbefore herr]
  exact ⟨rfl, fun hsent => if_neg (hsent ▸ transmitted_error_ne e.error e.typeName)⟩

end Worker

/-- The handles of a run whose `k`-th worker fails with `e`: those before it deliver a line
with the hit `w`, the `k`-th what `PublishResult` encoded for `e`. -/
def workerResults (k : Nat) (e : GoError) (i : Nat) : ConcExample :=
  if i < k then ⟨[⟨[⟨"w", true⟩]⟩], none⟩
  else ⟨[], (ConcResult.transmit ⟨0, "", [], some e⟩).error.map GoError.error⟩

/-- `succeedingOracles`, with the handles delivering `workerResults k e`. -/
def workerOracles (k : Nat) (e : GoError) : Env String :=
  { succeedingOracles with receive := fun i => .ok (workerResults k e i) }

/-- `mango.ErrRowsRangeOutOfConc` as a worker passes it to `PublishResult`: an `errors.New`
value with the sentinel text of `succeedingOracles`. -/
def rowsRangeOutOfConc : GoError := .plain "*errors.errorString" succeedingOracles.errRowsRangeOutOfConc

theorem searchRetrieve_worker_error_first :
    searchRetrieve twoCorpora (workerOracles 0 rowsRangeOutOfConc) ⟨[("query", "w")], by decide⟩ ⟨⟨[]⟩, []⟩ =
        (if (GoError.transmitted rowsRangeOutOfConc.error rowsRangeOutOfConc.typeName).error =
            (workerOracles 0 rowsRangeOutOfConc).errRowsRangeOutOfConc
          then .conformantUnprocessableEntity else .internalServerError,
          (⟨⟨[]⟩, []⟩ : FCSResponse).AddError ⟨.dcGeneralSystemError,
            (GoError.transmitted rowsRangeOutOfConc.error rowsRangeOutOfConc.typeName).error, "General system error"⟩,
          ⟨["A", "B"].map fun c => ⟨id c, "", id "w", ["word"], 10⟩, 2, 0 + 1⟩) ∧
      (rowsRangeOutOfConc.error = (workerOracles 0 rowsRangeOutOfConc).errRowsRangeOutOfConc →
        (searchRetrieve twoCorpora (workerOracles 0 rowsRangeOutOfConc) ⟨[("query", "w")], by decide⟩
          ⟨⟨[]⟩, []⟩).1 = .internalServerError) :=
  searchRetrieve_worker_error twoCorpora (workerOracles 0 rowsRangeOutOfConc) ⟨[("query", "w")], by decide⟩
    ⟨⟨[]⟩, []⟩ ["A", "B"] (fun _ => "w") (workerResults 0 rowsRangeOutOfConc) 0 ⟨0, "", [], some rowsRangeOutOfConc⟩
    rowsRangeOutOfConc (fun _ _ => rfl) (by decide) rfl (by decide) (by decide) (fun _ _ => rfl) (fun _ _ => rfl)
    (fun _ => rfl) (fun _ => rfl) (fun _ => rfl) (by decide) rfl rfl

/-- The second worker fails with `ErrRowsRangeOutOfConc`: the answer is 500, with a
`GeneralSystemError` of the transmitted text. -/
theorem searchRetrieve_sentinel_unrecognised :
    searchRetrieve twoCorpora (workerOracles 1 rowsRangeOutOfConc) ⟨[("query", "w")], by decide⟩ ⟨⟨[]⟩, []⟩ =
      (.internalServerError,
        ⟨⟨[⟨.dcGeneralSystemError, "TransmittedError(*errors.errorString: rows out of range)",
          "General system error"⟩]⟩, []⟩,
        ⟨[⟨"A", "", "w", ["word"], 10⟩, ⟨"B", "", "w", ["word"], 10⟩], 2, 2⟩) := by
  decide

end MquerySru.SruV12

/-! ## `PublishQuery` as the handlers see it -/

namespace MquerySru

/-- `r` stands for a return of `PublishQuery`, its handle (`none` for `nil`) and whether its
error is non-nil: `ok` for a handle without error, `failed` for no handle, `notifyFailed` for a
handle with an error. -/
def PublishReturn.Abstracts : PublishReturn → Option Nat × Bool → Bool
  | .ok, (some _, false) => true
  | .failed _, (none, true) => true
  | .notifyFailed _, (some _, true) => true
  | _, _ => false

/-- The handlers' oracle `PublishReturn` abstracts `PublishQuery` run alone: for every outcome
of its encoding, `LPUSH` and notification, and whatever the text of its error, what
`PublishQuery` returns is one case of `PublishReturn` (never a `nil` handle with a `nil`
error), and its job is queued exactly when that case is not `failed`. -/
theorem Broker.publishQuery_abstracts (a : Adapter) (uuid : Nat → String) (o : Broker.PublishOutcome)
    (q : Query) (s : Broker) (err : String) :
    ∃ (ret : Option Nat × Bool) (s' : Broker) (r : PublishReturn),
      Broker.publishQuery a uuid o q s = some (ret, s') ∧ r.Abstracts ret = true ∧
        (r = .failed err ↔ s'.queue = s.queue) := by
  obtain ⟨_ | _, l, n⟩ := o
  · exact ⟨_, _, .failed err, Broker.publishQuery_encode_fails a uuid l n q s, rfl, by simp⟩
  · cases l
    · exact ⟨_, _, .failed err, Broker.publishQuery_lpush_fails a uuid n q s, rfl, by simp⟩
    · refine ⟨_, _, if n then .ok else .notifyFailed err, Broker.publishQuery_pushed a uuid n q s,
        by cases n <;> rfl, ?_⟩
      cases n <;> simp [Broker.redisPublish]

end MquerySru
