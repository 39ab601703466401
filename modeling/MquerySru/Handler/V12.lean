import MquerySru.Handler.Rows
import MquerySru.Handler.Jobs

/-!
# The FCS 1.2 handler (`handler/v12/handler.go`)

`Handle` checks the incoming diagnostic, `recordPacking` and `operation`, and hands the
envelope to `explain` or `searchRetrieve`; `searchRetrieve` checks the query keys and the
query, selects the corpora, publishes one job per corpus through the adapter, receives the
results in order and folds them into rows. The adapter's calls are oracles (`Env`), and a
`Trace` records the jobs a run publishes and the handles it obtains and receives from.

* `Handle_ok_iff_no_diagnostic`: the status is 200 exactly when the envelope carries no
  diagnostic, on every path but one; `Handle_recordPacking_unreported` is that one, where
  the diagnostic goes to a copy and a 400 goes out with none.
* `searchRetrieve_fanout` and `searchRetrieve_unknown_context`: one job per requested
  corpus, in order, and rows in corpus order; an unknown context publishes nothing.
* `searchRetrieve_received`: a run that answers 200 has received from every handle it
  obtained; `searchRetrieve_abandons_handle` is a failing run that has not.
* `Handle_depends_on_enumeration_order`: the envelope follows Go's map iteration order;
  `searchRetrieve_context_order_independent`: not where the request lists its contexts and
  passes the key check.
-/

namespace MquerySru.V12

open Results

/-! ## The handler and its envelope -/

/-- `cnf.GeneralInfo`, as `explain` copies it. -/
structure GeneralInfo where
  serverName : String
  serverPort : String
  database : String
  databaseTitle : String
  databaseDescription : String
  deriving DecidableEq, Repr

/-- `corpus.CorporaSetup`, with what the handler reads: the registry and `Layers.Text`. -/
structure CorporaSetup where
  resources : Registry
  layersText : String

/-- `FCSSubHandlerV12`: its configuration and its lists of accepted values. -/
structure FCSSubHandlerV12 where
  generalConf : GeneralInfo
  corporaConf : CorporaSetup
  supportedRecordPackings : List String
  supportedOperations : List String
  queryGeneral : List String
  queryExplain : List String
  querySearchRetrieve : List String

/-- `NewFCSSubHandlerV12`. -/
def NewFCSSubHandlerV12 (generalConf : GeneralInfo) (corporaConf : CorporaSetup) :
    FCSSubHandlerV12 where
  generalConf := generalConf
  corporaConf := corporaConf
  supportedOperations := ["explain", "scan", "searchRetrieve"]
  supportedRecordPackings := ["xml", "string"]
  queryGeneral := ["version", "recordPacking", "operation"]
  queryExplain := ["x-fcs-endpoint-description"]
  querySearchRetrieve := ["query", "x-fcs-context", "x-fcs-dataviews"]

/-- `general.FCSGeneralResponse`, with the field the handler reads and writes. -/
structure FCSGeneralResponse where
  error : Option FCSError
  deriving DecidableEq, Repr

/-- `FCSExplain`. -/
structure FCSExplain where
  serverName : String
  serverPort : String
  database : String
  databaseTitle : String
  databaseDescription : String
  deriving DecidableEq, Repr

/-- `FCSResourceInfo`. -/
structure FCSResourceInfo where
  pid : String
  title : String
  description : String
  uri : String
  languages : List String
  deriving DecidableEq, Repr

/-- `FCSResponse`, the envelope the template renders; `results` is `SearchRetrieve.Results`. -/
structure FCSResponse where
  general : FCSGeneralResponse
  recordPacking : String
  operation : String
  explain : FCSExplain
  resources : List FCSResourceInfo
  results : List FCSSearchRow
  deriving DecidableEq, Repr

/-- The envelope with a diagnostic set in `General.Error`. -/
def FCSResponse.withError (r : FCSResponse) (e : FCSError) : FCSResponse :=
  { r with general := { r.general with error := some e } }

/-! ## What `searchRetrieve` calls outside this file -/

/-- `rdb.ConcExampleArgs` of this revision. -/
structure ConcExampleArgs where
  corpusPath : String
  queryLemma : String
  query : String
  attrs : List String
  maxItems : Nat
  deriving DecidableEq, Repr

/-- The calls `searchRetrieve` makes outside this file, as oracles: the query transformer
(`NewBasicTransformer`, `CreateCQL`), `GetRegistryPath`, `json.Marshal` (the error's text),
the outcome of the run's `i`-th `PublishQuery`, and `DeserializeConcExampleResult` of what
the `i`-th handle delivers. -/
structure Env (T : Type) where
  newBasicTransformer : String → Except FCSError T
  createCQL : T → String → Except FCSError String
  getRegistryPath : String → String
  marshal : ConcExampleArgs → Except String Unit
  publishQuery : Nat → PublishReturn
  receive : Nat → Except String ConcExample

/-! ## The operations -/

/-- The loop that checks every query key against `queryGeneral` and an operation's list:
the first key of the iteration order in neither, if any. -/
def unsupportedKey (queryGeneral allowed : List String) (p : Params) : Option String :=
  p.keys.find? fun key => !queryGeneral.contains key && !allowed.contains key

/-- The diagnostic of an unsupported key. -/
def unsupportedParameter (key : String) : FCSError :=
  ⟨.codeUnsupportedParameter, key, "Unsupported parameter"⟩

/-- The entry `explain` lists for a corpus. -/
def resourceInfo (corpusName : String) : FCSResourceInfo :=
  ⟨corpusName, corpusName, "TODO", "TODO", ["cs", "TODO"]⟩

/-- The diagnostic of a failed system call. -/
def generalSystemError (err : String) : FCSError := ⟨.codeGeneralSystemError, err, "General system error"⟩

section Operations

variable (a : FCSSubHandlerV12)

/-- `explain`. -/
def explain (p : Params) (r : FCSResponse) : Status × FCSResponse :=
  match unsupportedKey a.queryGeneral a.queryExplain p with
  | some key => (.badRequest, r.withError (unsupportedParameter key))
  | none =>
    let r := { r with explain := ⟨a.generalConf.serverName, a.generalConf.serverPort,
      a.generalConf.database, a.generalConf.databaseTitle, a.generalConf.databaseDescription⟩ }
    if p.query "x-fcs-endpoint-description" = "true" then
      (.ok, { r with resources := r.resources ++ a.corporaConf.resources.ids.map resourceInfo })
    else (.ok, r)

/-- One pass of the loop over the listed contexts: the context with its search attribute,
or the diagnostic of an unknown context. -/
def contextCorpus (v : String) : Except FCSError (String × String) :=
  match a.corporaConf.resources.find? v with
  | some resource => .ok (v, resource.defaultSearchAttr)
  | none => .error ⟨.codeUnsupportedParameterValue, "x-fcs-context", "Unknown context " ++ v⟩

/-- The corpora to search with their search attributes: the listed contexts when
`x-fcs-context` is present, each of which must be registered, else every registered
corpus. -/
def selectCorpora (p : Params) : Except FCSError (List (String × String)) :=
  if p.has "x-fcs-context" then (stringsSplit (p.query "x-fcs-context") ',').mapM (contextCorpus a)
  else .ok (a.corporaConf.resources.resources.map fun (corpusName, resource) =>
    (corpusName, resource.defaultSearchAttr))

variable {T : Type} (env : Env T)

/-- The arguments of the job for a corpus. -/
def jobArgs (corpusName query : String) : ConcExampleArgs :=
  ⟨env.getRegistryPath corpusName, "", query, [a.corporaConf.layersText, a.corporaConf.layersText], 10⟩

/-- The job for a corpus, with the query translated in its search attribute. -/
def prepareJob (t : T) (c : String × String) : Except FCSError ConcExampleArgs :=
  (env.createCQL t c.2).map (jobArgs a env c.1)

/-- `searchRetrieve`: its status, the envelope, and what it did with the adapter. The fold
cannot panic here, since there is one result per corpus (`searchRetrieve_fanout`). -/
def searchRetrieve (p : Params) (r : FCSResponse) : Status × FCSResponse × Trace ConcExampleArgs :=
  match unsupportedKey a.queryGeneral a.querySearchRetrieve p with
  | some key => (.badRequest, r.withError (unsupportedParameter key), .empty)
  | none =>
    let fcsQuery := p.query "query"
    if fcsQuery.length = 0 then
      (.badRequest, r.withError ⟨.codeMandatoryParameterNotSupplied, "fcs_query",
        "Mandatory parameter not supplied"⟩, .empty)
    else
      match env.newBasicTransformer fcsQuery with
      | .error e => (.internalServerError, r.withError e, .empty)
      | .ok transformer =>
        match selectCorpora a p with
        | .error e => (.badRequest, r.withError e, .empty)
        | .ok corpora =>
          match fanOut (prepareJob a env transformer) env.marshal env.publishQuery generalSystemError
              env.receive generalSystemError corpora with
          | (.error e, tr) => (.internalServerError, r.withError e, tr)
          | (.ok results, tr) =>
            (.ok, { r with results := (transformResults searchRow (corpora.map (·.1)) results).getD [] }, tr)

/-- The `switch` on the operation: `explain`, `searchRetrieve`, or nothing to do (`scan`). -/
def dispatch (p : Params) (r : FCSResponse) : Status × FCSResponse × Trace ConcExampleArgs :=
  if r.operation = "explain" then
    let (status, r) := explain a p r
    (status, r, .empty)
  else if r.operation = "searchRetrieve" then searchRetrieve a env p r
  else (.ok, r, .empty)

/-- The diagnostic of an unsupported `recordPacking`. -/
def unsupportedRecordPacking : FCSError :=
  ⟨.codeUnsupportedRecordPacking, "recordPacking", "Unsupported record packing"⟩

/-- The envelope `Handle` starts from. -/
def initialResponse (fcsGeneralResponse : FCSGeneralResponse) : FCSResponse :=
  ⟨fcsGeneralResponse, "xml", "explain", ⟨"", "", "", "", ""⟩, [], []⟩

/-- What `Handle` hands to `produceResponse`, with the `Content-Type` it set and what the
operation did with the adapter. `produceResponse` renders the envelope and only then passes the
status to `WriteHeader` (`render`), so the status is the one `Handle` passes on, not always the
one the client receives. -/
structure Reply where
  status : Status
  envelope : FCSResponse
  contentType : Option String
  trace : Trace ConcExampleArgs

/-- `Handle`. With an unsupported `recordPacking` it writes the diagnostic into its
parameter `fcsGeneralResponse`, a copy that the envelope, built before, does not share. -/
def Handle (p : Params) (fcsGeneralResponse : FCSGeneralResponse) : Reply :=
  let r := initialResponse fcsGeneralResponse
  if r.general.error.isSome then ⟨.badRequest, r, none, .empty⟩
  else
    let recordPacking := p.defaultQuery "recordPacking" r.recordPacking
    if !a.supportedRecordPackings.contains recordPacking then
      let _fcsGeneralResponse : FCSGeneralResponse := ⟨some unsupportedRecordPacking⟩
      ⟨.badRequest, r, none, .empty⟩
    else
      let contentType := if recordPacking = "xml" then some "application/xml"
        else if recordPacking = "string" then some "text/plain; charset=utf-8" else none
      let r := { r with recordPacking }
      let operation := p.defaultQuery "operation" r.operation
      if !a.supportedOperations.contains operation then
        ⟨.badRequest, r.withError ⟨.codeUnsupportedOperation, "", "Unsupported operation"⟩,
          contentType, .empty⟩
      else
        let (status, r, tr) := dispatch a env p { r with operation }
        ⟨status, r, contentType, tr⟩

end Operations

/-! ## Fixed inputs

The runs on fixed inputs below use a registry of corpora that all search `word`, and an
adapter on which every call succeeds. -/

/-- A handler over the corpora `ids`, in that iteration order. -/
def handlerOver (ids : List String) (h : ids.Nodup) : FCSSubHandlerV12 :=
  NewFCSSubHandlerV12 ⟨"", "", "", "", ""⟩
    ⟨⟨ids.map (·, ⟨"word", [], [], ""⟩), by simpa [List.map_map, Function.comp_def] using h⟩, "word"⟩

/-- An adapter on which every call succeeds: `CreateCQL` returns the search attribute, and
every handle delivers one line whose one token, `w`, is the hit. -/
def succeedingEnv : Env Unit :=
  ⟨fun _ => .ok (), fun _ attr => .ok attr, id, fun _ => .ok (), fun _ => .ok,
    fun _ => .ok ⟨[⟨[⟨"w", true⟩]⟩], none⟩⟩

/-! ## Status and diagnostic -/

/-- What an operation does with the envelope `r`, whose diagnostic `error` reads: it answers
200 and leaves the diagnostic as it found it, or it answers another status and sets one. -/
def Reports {R : Type} (error : R → Option FCSError) (r : R) (status : Status) (r' : R) : Prop :=
  status = .ok ∧ error r' = error r ∨ status ≠ .ok ∧ (error r').isSome

theorem Reports.ok_iff {R : Type} {error : R → Option FCSError} {r r' : R} {status : Status}
    (h : Reports error r status r') (hr : error r = none) : status = .ok ↔ error r' = none := by
  rcases h with ⟨hs, hg⟩ | ⟨hs, he⟩
  · simp [hs, hg, hr]
  · simp [hs, Option.isSome_iff_ne_none.mp he]

section Reporting

variable (a : FCSSubHandlerV12) {T : Type} (env : Env T)

theorem explain_reports (p : Params) (r : FCSResponse) :
    Reports (·.general.error) r (explain a p r).1 (explain a p r).2 := by
  unfold explain
  split
  · exact Or.inr ⟨nofun, rfl⟩
  · split <;> exact Or.inl ⟨rfl, rfl⟩

theorem searchRetrieve_reports (p : Params) (r : FCSResponse) :
    Reports (·.general.error) r (searchRetrieve a env p r).1 (searchRetrieve a env p r).2.1 := by
  unfold searchRetrieve
  dsimp only
  repeat' split
  all_goals dsimp only; first | exact Or.inl ⟨rfl, rfl⟩ | exact Or.inr ⟨nofun, rfl⟩

theorem dispatch_reports (p : Params) (r : FCSResponse) :
    Reports (·.general.error) r (dispatch a env p r).1 (dispatch a env p r).2.1 := by
  unfold dispatch
  split
  · exact explain_reports a p r
  · split
    · exact searchRetrieve_reports a env p r
    · exact Or.inl ⟨rfl, rfl⟩

/-- Status and diagnostic agree on every path of `Handle` but one: unless the request comes
without a diagnostic and names an unsupported `recordPacking`, `Handle` answers 200 exactly
when the envelope it renders carries no diagnostic. -/
theorem Handle_ok_iff_no_diagnostic (p : Params) (g : FCSGeneralResponse)
    (hrp : g.error.isSome ∨ a.supportedRecordPackings.contains (p.defaultQuery "recordPacking" "xml")) :
    (Handle a env p g).status = .ok ↔ (Handle a env p g).envelope.general.error = none := by
  unfold Handle initialResponse
  dsimp only
  split
  case isTrue hg => simp [Option.isSome_iff_ne_none.mp hg]
  case isFalse hg =>
    have hnone : g.error = none := by simpa using hg
    simp only [hg, Bool.false_eq_true, false_or] at hrp
    rw [if_neg (by rw [hrp]; decide)]
    split
    case isTrue => simp [FCSResponse.withError]
    case isFalse => exact (dispatch_reports a env p _).ok_iff hnone

end Reporting

theorem Handle_ok_iff_no_diagnostic_search :
    (Handle (handlerOver ["A", "B"] (by decide)) succeedingEnv
        ⟨[("operation", "searchRetrieve"), ("query", "w")], by decide⟩ ⟨none⟩).status = .ok ↔
      (Handle (handlerOver ["A", "B"] (by decide)) succeedingEnv
        ⟨[("operation", "searchRetrieve"), ("query", "w")], by decide⟩ ⟨none⟩).envelope.general.error = none :=
  Handle_ok_iff_no_diagnostic _ _ _ _ (by decide)

/-- The path `Handle_ok_iff_no_diagnostic` leaves out: with an unsupported `recordPacking`,
`Handle` answers 400 with the envelope it started from, which carries no diagnostic. -/
theorem Handle_recordPacking_unreported (gc : GeneralInfo) (cc : CorporaSetup) {T : Type}
    (env : Env T) :
    Handle (NewFCSSubHandlerV12 gc cc) env ⟨[("recordPacking", "json")], by decide⟩ ⟨none⟩ =
      ⟨.badRequest, initialResponse ⟨none⟩, none, .empty⟩ :=
  rfl

/-! ## Handles obtained and handles received -/

section Handles

variable (a : FCSSubHandlerV12) {T : Type} (env : Env T)

/-- `searchRetrieve` never receives from more handles than it obtained, and when it answers
200 it has received from every one. -/
theorem searchRetrieve_received (p : Params) (r : FCSResponse) :
    (searchRetrieve a env p r).2.2.received ≤ (searchRetrieve a env p r).2.2.handles ∧
      ((searchRetrieve a env p r).1 = .ok →
        (searchRetrieve a env p r).2.2.received = (searchRetrieve a env p r).2.2.handles) := by
  unfold searchRetrieve
  dsimp only
  split; · simp [Trace.empty]
  split; · simp [Trace.empty]
  split; · simp [Trace.empty]
  split; · simp [Trace.empty]
  rename_i transformer _ _ corpora _
  obtain ⟨hle, hall⟩ := fanOut_trace (prepareJob a env transformer) env.marshal env.publishQuery
    generalSystemError env.receive generalSystemError corpora
  split
  · rename_i e tr h
    rw [h] at hle
    exact ⟨hle, nofun⟩
  · rename_i results tr h
    rw [h] at hle hall
    exact ⟨hle, fun _ => hall results rfl⟩

end Handles

/-- A run over two corpora whose second `PublishQuery` fails publishes both jobs, obtains a
handle for the first, and returns without receiving from it. -/
theorem searchRetrieve_abandons_handle :
    (searchRetrieve (handlerOver ["A", "B"] (by decide))
        { succeedingEnv with publishQuery := fun i => if i = 0 then .ok else .failed "LPUSH failed" }
        ⟨[("query", "w")], by decide⟩ (initialResponse ⟨none⟩)).2.2 =
      ⟨[⟨"A", "", "word", ["word", "word"], 10⟩, ⟨"B", "", "word", ["word", "word"], 10⟩], 1, 0⟩ :=
  rfl

/-! ## Fan-out and join -/

section FanOut

variable (a : FCSSubHandlerV12) {T : Type} (env : Env T)

/-- The corpora a request asks for: the listed contexts when `x-fcs-context` is present,
else every registered corpus. -/
def requestedCorpora (p : Params) : List String :=
  if p.has "x-fcs-context" then stringsSplit (p.query "x-fcs-context") ','
  else a.corporaConf.resources.ids

/-- A selected corpus is registered, and searched in its default search attribute. -/
def SearchesDefault (c : String × String) : Prop :=
  ∃ res, a.corporaConf.resources.find? c.1 = some res ∧ c.2 = res.defaultSearchAttr

theorem mapM_contextCorpus_ok (vs : List String)
    (h : ∀ v ∈ vs, (a.corporaConf.resources.find? v).isSome) :
    ∃ corpora, vs.mapM (contextCorpus a) = .ok corpora ∧ corpora.map (·.1) = vs ∧
      ∀ c ∈ corpora, SearchesDefault a c := by
  induction vs with
  | nil => exact ⟨[], rfl, rfl, by simp⟩
  | cons v vs ih =>
    obtain ⟨res, hres⟩ := Option.isSome_iff_exists.mp (h v (List.mem_cons_self _ _))
    obtain ⟨corpora, hm, hfst, hdef⟩ := ih fun w hw => h w (List.mem_cons_of_mem _ hw)
    refine ⟨(v, res.defaultSearchAttr) :: corpora, ?_, by simp [hfst], ?_⟩
    · simp only [List.mapM_cons, contextCorpus, hres, hm]
      rfl
    · simp only [List.mem_cons, forall_eq_or_imp]
      exact ⟨⟨res, hres, rfl⟩, hdef⟩

theorem mapM_contextCorpus_error (vs : List String)
    (h : ∃ v ∈ vs, a.corporaConf.resources.find? v = none) :
    ∃ e, vs.mapM (contextCorpus a) = .error e ∧ e.code = .codeUnsupportedParameterValue ∧
      e.ident = "x-fcs-context" := by
  induction vs with
  | nil => simp at h
  | cons v vs ih =>
    cases hv : a.corporaConf.resources.find? v with
    | none =>
      refine ⟨⟨.codeUnsupportedParameterValue, "x-fcs-context", "Unknown context " ++ v⟩, ?_, rfl, rfl⟩
      simp only [List.mapM_cons, contextCorpus, hv]
      rfl
    | some res =>
      obtain ⟨e, he, hc, hi⟩ := ih (by simpa [hv] using h)
      refine ⟨e, ?_, hc, hi⟩
      simp only [List.mapM_cons, contextCorpus, hv, he]
      rfl

theorem selectCorpora_ok (p : Params)
    (h : ∀ v ∈ requestedCorpora a p, (a.corporaConf.resources.find? v).isSome) :
    ∃ corpora, selectCorpora a p = .ok corpora ∧ corpora.map (·.1) = requestedCorpora a p ∧
      ∀ c ∈ corpora, SearchesDefault a c := by
  unfold selectCorpora requestedCorpora at *
  split
  case isTrue hctx => simpa only [hctx, if_true] using mapM_contextCorpus_ok a _ (by simpa [hctx] using h)
  case isFalse hctx =>
    refine ⟨_, rfl, by simp [Registry.ids, hctx], ?_⟩
    intro c hc
    obtain ⟨⟨id, res⟩, hmem, rfl⟩ := List.mem_map.mp hc
    exact ⟨res, Registry.find?_of_mem _ hmem, rfl⟩

/-- Fan-out and join of `searchRetrieve`: when every requested corpus is registered and no
call fails, one job is published per requested corpus, in order, with the corpus's registry
path and a query translated in its default search attribute; every handle is received from;
and the rows are the lines of the `i`-th result, with the `i`-th corpus as `PID`, after those
of the results before it, numbered from 1. -/
theorem searchRetrieve_fanout (p : Params) (r : FCSResponse) (t : T) (cql : String → String)
    (result : Nat → ConcExample)
    (hkeys : unsupportedKey a.queryGeneral a.querySearchRetrieve p = none) (hquery : (p.query "query").length ≠ 0)
    (htrans : env.newBasicTransformer (p.query "query") = .ok t)
    (hreg : ∀ v ∈ requestedCorpora a p, (a.corporaConf.resources.find? v).isSome)
    (hcql : ∀ attr, env.createCQL t attr = .ok (cql attr)) (hmarshal : ∀ args, env.marshal args = .ok ())
    (hpub : ∀ i, env.publishQuery i = .ok) (hrecv : ∀ i, env.receive i = .ok (result i))
    (herr : ∀ i, (result i).error = none) :
    ∃ corpora : List (String × String), corpora.map (·.1) = requestedCorpora a p ∧
      (∀ c ∈ corpora, SearchesDefault a c) ∧
      searchRetrieve a env p r =
        (.ok, { r with results := (resultLines (requestedCorpora a p)
            ((List.range corpora.length).map result)).enum.map (numberedRow searchRow) },
          ⟨corpora.map fun c => jobArgs a env c.1 (cql c.2), corpora.length, corpora.length⟩) := by
  obtain ⟨corpora, hsel, hfst, hdef⟩ := selectCorpora_ok a p hreg
  refine ⟨corpora, hfst, hdef, ?_⟩
  have hprep : ∀ c, prepareJob a env t c = .ok (jobArgs a env c.1 (cql c.2)) := fun c => by
    simp [prepareJob, hcql, Except.map]
  simp only [searchRetrieve, hkeys, hquery, htrans, hsel, if_false,
    fanOut_ok _ _ _ _ _ _ _ result (fun c _ => hprep c) hmarshal hpub hrecv herr]
  rw [transformResults_eq _ _ _ (by simp), hfst]
  rfl

theorem searchRetrieve_fanout_two :
    ∃ corpora : List (String × String),
      corpora.map (·.1) = requestedCorpora (handlerOver ["A", "B"] (by decide)) ⟨[("query", "w")], by decide⟩ ∧
      (∀ c ∈ corpora, SearchesDefault (handlerOver ["A", "B"] (by decide)) c) ∧
      searchRetrieve (handlerOver ["A", "B"] (by decide)) succeedingEnv ⟨[("query", "w")], by decide⟩
          (initialResponse ⟨none⟩) =
        (.ok, { initialResponse ⟨none⟩ with
            results := (resultLines (requestedCorpora (handlerOver ["A", "B"] (by decide))
              ⟨[("query", "w")], by decide⟩) ((List.range corpora.length).map fun _ =>
                ⟨[⟨[⟨"w", true⟩]⟩], none⟩)).enum.map (numberedRow searchRow) },
          ⟨corpora.map fun c => jobArgs (handlerOver ["A", "B"] (by decide)) succeedingEnv c.1 c.2,
            corpora.length, corpora.length⟩) :=
  searchRetrieve_fanout (handlerOver ["A", "B"] (by decide)) succeedingEnv ⟨[("query", "w")], by decide⟩
    (initialResponse ⟨none⟩) () id (fun _ => ⟨[⟨[⟨"w", true⟩]⟩], none⟩) (by decide) (by decide) rfl
    (by decide) (fun _ => rfl) (fun _ => rfl) (fun _ => rfl) (fun _ => rfl) (fun _ => rfl)

/-- A listed context that is not registered: `searchRetrieve` answers 400 with an
`UnsupportedParameterValue` diagnostic on `x-fcs-context`, and publishes no job. -/
theorem searchRetrieve_unknown_context (p : Params) (r : FCSResponse) (t : T)
    (hkeys : unsupportedKey a.queryGeneral a.querySearchRetrieve p = none) (hquery : (p.query "query").length ≠ 0)
    (htrans : env.newBasicTransformer (p.query "query") = .ok t) (hctx : p.has "x-fcs-context")
    (hunknown : ∃ v ∈ stringsSplit (p.query "x-fcs-context") ',', a.corporaConf.resources.find? v = none) :
    ∃ e, searchRetrieve a env p r = (.badRequest, r.withError e, .empty) ∧
      e.code = .codeUnsupportedParameterValue ∧ e.ident = "x-fcs-context" := by
  obtain ⟨e, he, hc, hi⟩ := mapM_contextCorpus_error a _ hunknown
  refine ⟨e, ?_, hc, hi⟩
  simp only [searchRetrieve, hkeys, hquery, htrans, selectCorpora, hctx, he, if_true, if_false]

theorem searchRetrieve_unknown_context_two :
    ∃ e, searchRetrieve (handlerOver ["A", "B"] (by decide)) succeedingEnv
        ⟨[("query", "w"), ("x-fcs-context", "A,C")], by decide⟩ (initialResponse ⟨none⟩) =
        (.badRequest, (initialResponse ⟨none⟩).withError e, .empty) ∧
      e.code = .codeUnsupportedParameterValue ∧ e.ident = "x-fcs-context" :=
  searchRetrieve_unknown_context (handlerOver ["A", "B"] (by decide)) succeedingEnv
    ⟨[("query", "w"), ("x-fcs-context", "A,C")], by decide⟩ (initialResponse ⟨none⟩) () (by decide)
    (by decide) rfl (by decide) ⟨"C", by decide, rfl⟩

end FanOut

/-! ## Enumeration order -/

section Order

variable {T : Type} (env : Env T)

theorem unsupportedKey_perm {queryGeneral allowed : List String} {p q : Params}
    (h : p.entries.Perm q.entries) (hp : unsupportedKey queryGeneral allowed p = none) :
    unsupportedKey queryGeneral allowed q = none := by
  simp only [unsupportedKey, List.find?_eq_none] at hp ⊢
  exact fun key hkey => hp key ((h.map _).symm.subset hkey)

/-- Where the request lists its contexts and passes the key check, `searchRetrieve` does
not depend on the order in which Go enumerates the registry or the query parameters: two
such runs answer alike, with the same envelope and the same jobs. -/
theorem searchRetrieve_context_order_independent (gc : GeneralInfo) (reg reg' : Registry)
    (layersText : String) (hreg : reg.resources.Perm reg'.resources) (p q : Params)
    (hpq : p.entries.Perm q.entries)
    (hkeys : unsupportedKey (NewFCSSubHandlerV12 gc ⟨reg, layersText⟩).queryGeneral
      (NewFCSSubHandlerV12 gc ⟨reg, layersText⟩).querySearchRetrieve p = none)
    (hctx : p.has "x-fcs-context") (r : FCSResponse) :
    searchRetrieve (NewFCSSubHandlerV12 gc ⟨reg, layersText⟩) env p r =
      searchRetrieve (NewFCSSubHandlerV12 gc ⟨reg', layersText⟩) env q r := by
  have hkeys' : unsupportedKey (NewFCSSubHandlerV12 gc ⟨reg', layersText⟩).queryGeneral
      (NewFCSSubHandlerV12 gc ⟨reg', layersText⟩).querySearchRetrieve q = none :=
    unsupportedKey_perm hpq hkeys
  have hcorpus : contextCorpus (NewFCSSubHandlerV12 gc ⟨reg, layersText⟩) =
      contextCorpus (NewFCSSubHandlerV12 gc ⟨reg', layersText⟩) := by
    funext v
    simp only [contextCorpus, NewFCSSubHandlerV12, Registry.find?_perm hreg v]
  have hsel : selectCorpora (NewFCSSubHandlerV12 gc ⟨reg, layersText⟩) p =
      selectCorpora (NewFCSSubHandlerV12 gc ⟨reg', layersText⟩) q := by
    simp only [selectCorpora, hcorpus, hctx, ← Params.has_perm hpq, Params.query_perm hpq, if_true]
  simp only [searchRetrieve, hkeys, hkeys', Params.query_perm hpq "query", hsel]
  rfl

theorem searchRetrieve_context_order_independent_two :
    searchRetrieve (handlerOver ["A", "B"] (by decide)) succeedingEnv
        ⟨[("query", "w"), ("x-fcs-context", "B,A")], by decide⟩ (initialResponse ⟨none⟩) =
      searchRetrieve (handlerOver ["B", "A"] (by decide)) succeedingEnv
        ⟨[("x-fcs-context", "B,A"), ("query", "w")], by decide⟩ (initialResponse ⟨none⟩) :=
  searchRetrieve_context_order_independent succeedingEnv ⟨"", "", "", "", ""⟩ _ _ "word" (by decide) _ _
    (by decide) (by decide) (by decide) _

end Order

/-- Two runs that differ only in the iteration order of the registry, or of the query
parameters, render different envelopes: the resource list of `explain` follows the
registry's order, and the unsupported key reported is the first one visited. -/
theorem Handle_depends_on_enumeration_order :
    (Handle (handlerOver ["A", "B"] (by decide)) succeedingEnv
        ⟨[("operation", "explain"), ("x-fcs-endpoint-description", "true")], by decide⟩ ⟨none⟩).envelope ≠
      (Handle (handlerOver ["B", "A"] (by decide)) succeedingEnv
        ⟨[("operation", "explain"), ("x-fcs-endpoint-description", "true")], by decide⟩ ⟨none⟩).envelope ∧
    (Handle (handlerOver ["A", "B"] (by decide)) succeedingEnv
        ⟨[("x", ""), ("y", "")], by decide⟩ ⟨none⟩).envelope ≠
      (Handle (handlerOver ["A", "B"] (by decide)) succeedingEnv
        ⟨[("y", ""), ("x", "")], by decide⟩ ⟨none⟩).envelope := by
  decide

end MquerySru.V12
