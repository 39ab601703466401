import MquerySru.Handler.V12

/-!
# The first FCS handler (`Actions`)

The revision before `FCSSubHandlerV12`. `FCSHandler` builds the envelope itself and checks
`recordPacking`, `version` and `operation`, writing each diagnostic into the envelope it
renders; `explain` describes the endpoint from the request's URL; `searchRetrieve`
translates the query once, checks the listed contexts against the registered corpora, and
publishes one job per corpus with the corpus's syntax parent attribute. Receiving the
results and folding them into rows is as in the FCS 1.2 handler (`fanOut`,
`transformResults searchRow`).

`FCSHandler_ok_iff_no_error`: here the status `FCSHandler` passes to `WriteHeader` is 200
exactly when the envelope carries no diagnostic, on every path, the `recordPacking` one
included. `FCSHandler_diagnostic_sent_ok`: but every path passes it after `ExecuteTemplate`
has rendered the envelope, and gin's writer keeps 200 once the body has been written
(`render`), so a diagnostic reaches the client with status 200.
-/

namespace MquerySru.Handler

open Results V12

/-- `Actions`: the registry and the lists of accepted values. -/
structure Actions where
  conf : Registry
  supportedRecordPackings : List String
  supportedOperations : List String
  supportedVersions : List String
  queryGeneral : List String
  queryExplain : List String
  querySearchRetrieve : List String

/-- `NewActions`. -/
def NewActions (conf : Registry) : Actions where
  conf := conf
  supportedOperations := ["explain", "scan", "searchRetrieve"]
  supportedVersions := ["1.2", "2.0"]
  supportedRecordPackings := ["xml", "string"]
  queryGeneral := ["operation", "version", "recordPacking"]
  queryExplain := ["x-fcs-endpoint-description"]
  querySearchRetrieve := ["query", "x-fcs-context", "x-fcs-dataviews"]

/-- `FCSResponse` of this revision, with its `Error`. -/
structure FCSResponse where
  version : String
  recordPacking : String
  operation : String
  maximumRecords : Nat
  maximumTerms : Nat
  explain : FCSExplain
  resources : List FCSResourceInfo
  results : List FCSSearchRow
  error : Option FCSError
  deriving DecidableEq, Repr

/-- The envelope with a diagnostic set in `Error`. -/
def FCSResponse.withError (r : FCSResponse) (e : FCSError) : FCSResponse := { r with error := some e }

/-- `ctx.Request.URL`, with what `explain` reads. -/
structure URL where
  host : String
  port : String
  path : String

/-- `rdb.ConcExampleArgs` of this revision. -/
structure ConcExampleArgs where
  corpusPath : String
  queryLemma : String
  query : String
  attrs : List String
  maxItems : Nat
  parentIdxAttr : String
  deriving DecidableEq, Repr

/-- The calls `searchRetrieve` makes outside this file, as oracles: `transformFCSQuery`,
`GetRegistryPath`, `json.Marshal`, and the adapter as in the FCS 1.2 handler. -/
structure Env where
  transformFCSQuery : String → Except String String
  getRegistryPath : String → String
  marshal : ConcExampleArgs → Except String Unit
  publishQuery : Nat → PublishReturn
  receive : Nat → Except String ConcExample

section Operations

variable (a : Actions)

/-- `explain`. -/
def explain (url : URL) (p : Params) (r : FCSResponse) : Status × FCSResponse :=
  match unsupportedKey a.queryGeneral a.queryExplain p with
  | some key => (.badRequest, r.withError (unsupportedParameter key))
  | none =>
    let r := { r with explain := ⟨url.host, url.port, url.path, "TODO", "TODO"⟩ }
    if p.query "x-fcs-endpoint-description" = "true" then
      (.ok, { r with resources := r.resources ++ a.conf.ids.map resourceInfo })
    else (.ok, r)

/-- The corpora to search: every registered corpus, or the listed contexts when
`x-fcs-context` is present, each of which must be among them. -/
def selectCorpora (p : Params) : Except FCSError (List String) :=
  let corpora := a.conf.ids
  if p.has "x-fcs-context" then
    let fcsContext := stringsSplit (p.query "x-fcs-context") ','
    match fcsContext.find? fun v => !corpora.contains v with
    | some v => .error ⟨.codeUnsupportedParameterValue, "x-fcs-context", "Unknown context " ++ v⟩
    | none => .ok fcsContext
  else .ok corpora

variable (env : Env)

/-- The arguments of the job for a corpus. -/
def jobArgs (query corpusName : String) : ConcExampleArgs :=
  ⟨env.getRegistryPath corpusName, "", query, ["word", "lemma"], 10,
    ((a.conf.find? corpusName).getD ⟨"", [], [], ""⟩).syntaxParentAttr⟩

/-- `searchRetrieve`: its status, the envelope, and what it did with the adapter. -/
def searchRetrieve (p : Params) (r : FCSResponse) : Status × FCSResponse × Trace ConcExampleArgs :=
  match unsupportedKey a.queryGeneral a.querySearchRetrieve p with
  | some key => (.badRequest, r.withError (unsupportedParameter key), .empty)
  | none =>
    let fcsQuery := p.query "query"
    if fcsQuery.length = 0 then
      (.badRequest, r.withError ⟨.codeMandatoryParameterNotSupplied, "fcs_query",
        "Mandatory parameter not supplied"⟩, .empty)
    else
      match env.transformFCSQuery fcsQuery with
      | .error err => (.internalServerError, r.withError (generalSystemError err), .empty)
      | .ok query =>
        match selectCorpora a p with
        | .error e => (.badRequest, r.withError e, .empty)
        | .ok corpora =>
          match fanOut (fun corpusName => .ok (jobArgs a env query corpusName)) env.marshal env.publishQuery
              generalSystemError env.receive generalSystemError corpora with
          | (.error e, tr) => (.internalServerError, r.withError e, tr)
          | (.ok results, tr) => (.ok, { r with results := (transformResults searchRow corpora results).getD [] }, tr)

/-- What `FCSHandler` computes: the status it passes to `ctx.Writer.WriteHeader`, the
envelope it renders with `ExecuteTemplate`, the `Content-Type` it set, and what the operation
did with the adapter. The `WriteHeader` call comes after the template has written the body, so
gin keeps 200 and this status does not reach the client then (`Reply.respond`). -/
structure Reply where
  status : Status
  envelope : FCSResponse
  contentType : Option String
  trace : Trace ConcExampleArgs

/-- The envelope `FCSHandler` starts from. -/
def initialResponse : FCSResponse :=
  ⟨"1.2", "xml", "explain", 250, 100, ⟨"", "", "", "", ""⟩, [], [], none⟩

/-- The `switch` on the operation: `explain`, `searchRetrieve`, or nothing to do (`scan`). -/
def dispatch (url : URL) (p : Params) (r : FCSResponse) : Status × FCSResponse × Trace ConcExampleArgs :=
  if r.operation = "explain" then
    let (status, r) := explain a url p r
    (status, r, .empty)
  else if r.operation = "searchRetrieve" then searchRetrieve a env p r
  else (.ok, r, .empty)

/-- `FCSHandler`. -/
def FCSHandler (url : URL) (p : Params) : Reply :=
  let r := initialResponse
  let recordPacking := p.defaultQuery "recordPacking" r.recordPacking
  if !a.supportedRecordPackings.contains recordPacking then
    ⟨.badRequest, r.withError ⟨.codeUnsupportedRecordPacking, "recordPacking", "Unsupported record packing"⟩,
      none, .empty⟩
  else
    let contentType := if recordPacking = "xml" then some "application/xml"
      else if recordPacking = "string" then some "text/plain; charset=utf-8" else none
    let r := { r with recordPacking }
    let version := p.defaultQuery "version" r.version
    if !a.supportedVersions.contains version then
      ⟨.badRequest, r.withError ⟨.codeUnsupportedVersion, "1.2", "Unsupported version " ++ version⟩,
        contentType, .empty⟩
    else
      let r := { r with version }
      let operation := p.defaultQuery "operation" r.operation
      if !a.supportedOperations.contains operation then
        ⟨.badRequest, r.withError ⟨.codeUnsupportedOperation, "", "Unsupported operation"⟩,
          contentType, .empty⟩
      else
        let (status, r, tr) := dispatch a env url p { r with operation }
        ⟨status, r, contentType, tr⟩

end Operations

/-- What the client receives from `FCSHandler`: each of its four paths renders the envelope with
`ExecuteTemplate` and then passes the reply's status to `ctx.Writer.WriteHeader`. -/
def Reply.respond (reply : Reply) (tmpl : FCSResponse → Rendering) : ResponseWriter :=
  render (tmpl reply.envelope) reply.status

/-! ## Status and diagnostic -/

section Reporting

variable (a : Actions) (env : Env)

theorem explain_reports (url : URL) (p : Params) (r : FCSResponse) :
    Reports (·.error) r (explain a url p r).1 (explain a url p r).2 := by
  unfold explain
  split
  · exact Or.inr ⟨nofun, rfl⟩
  · split <;> exact Or.inl ⟨rfl, rfl⟩

theorem searchRetrieve_reports (p : Params) (r : FCSResponse) :
    Reports (·.error) r (searchRetrieve a env p r).1 (searchRetrieve a env p r).2.1 := by
  unfold searchRetrieve
  dsimp only
  repeat' split
  all_goals dsimp only; first | exact Or.inl ⟨rfl, rfl⟩ | exact Or.inr ⟨nofun, rfl⟩

/-- Each operation `dispatch` runs reports its outcome, and an unknown operation adds nothing. -/
theorem dispatch_reports (url : URL) (p : Params) (r : FCSResponse) :
    Reports (·.error) r (dispatch a env url p r).1 (dispatch a env url p r).2.1 := by
  unfold dispatch
  split
  · exact explain_reports a url p r
  · split
    · exact searchRetrieve_reports a env p r
    · exact Or.inl ⟨rfl, rfl⟩

/-- Status and diagnostic agree on every path of `FCSHandler`: the status it passes to
`WriteHeader` is 200 exactly when the envelope it renders carries no diagnostic. -/
theorem FCSHandler_ok_iff_no_error (url : URL) (p : Params) :
    (FCSHandler a env url p).status = .ok ↔ (FCSHandler a env url p).envelope.error = none := by
  unfold FCSHandler
  dsimp only
  split; · simp [FCSResponse.withError]
  split; · simp [FCSResponse.withError]
  split; · simp [FCSResponse.withError]
  exact (dispatch_reports a env url p _).ok_iff rfl

/-- Every diagnostic of `FCSHandler` reaches the client with status 200. On every path the
status it passes to `WriteHeader` is 200 exactly when the envelope carries no diagnostic, but
every path passes it after `ExecuteTemplate`: once the template has written part of the body,
the client receives 200, with a diagnostic or without. -/
theorem FCSHandler_diagnostic_sent_ok (url : URL) (p : Params) (tmpl : FCSResponse → Rendering)
    (hw : (tmpl (FCSHandler a env url p).envelope).wrote = true) :
    ((FCSHandler a env url p).status = .ok ↔ (FCSHandler a env url p).envelope.error = none) ∧
      ((FCSHandler a env url p).respond tmpl).status = .ok :=
  ⟨FCSHandler_ok_iff_no_error a env url p, render_status_of_wrote hw _⟩

end Reporting

/-- A request for a version the handler does not support. -/
def versionRequest : Params := ⟨[("version", "3.0")], by decide⟩

/-- Oracles for a request that never reaches the adapter. -/
def idleEnv : Env := ⟨fun _ => .ok "", fun _ => "", fun _ => .ok (), fun _ => .ok, fun _ => .error ""⟩

/-- An unsupported version: `FCSHandler` sets the diagnostic and passes 400, and the client
receives 200 with the diagnostic in the body. -/
theorem FCSHandler_diagnostic_sent_ok_version :
    (FCSHandler (NewActions ⟨[], List.nodup_nil⟩) idleEnv ⟨"", "", ""⟩ versionRequest).status = .badRequest ∧
      (Rendering.mk true false).wrote = true ∧
      (((FCSHandler (NewActions ⟨[], List.nodup_nil⟩) idleEnv ⟨"", "", ""⟩ versionRequest).status = .ok ↔
          (FCSHandler (NewActions ⟨[], List.nodup_nil⟩) idleEnv ⟨"", "", ""⟩ versionRequest).envelope.error =
            none) ∧
        ((FCSHandler (NewActions ⟨[], List.nodup_nil⟩) idleEnv ⟨"", "", ""⟩ versionRequest).respond
          fun _ => ⟨true, false⟩).status = .ok) :=
  ⟨rfl, rfl, FCSHandler_diagnostic_sent_ok (NewActions ⟨[], List.nodup_nil⟩) idleEnv ⟨"", "", ""⟩ versionRequest
    (fun _ => ⟨true, false⟩) rfl⟩

end MquerySru.Handler
