import MquerySru.Handler.V12

/-!
# `searchRetrieve` of the SRU revision (`FCSSubHandlerV12.searchRetrieve`, SRU diagnostics)

This revision validates every query key through `SearchRetrArg`, collects diagnostics with
`AddError`, translates the query per corpus with that corpus's attributes, asks the workers
for the attributes the corpora share, and builds rows of tokens. Its statuses distinguish
a query the endpoint cannot process (`ConformantUnprocessableEntity`) from a system error.

The calls outside the file are oracles (`Env`), as for the FCS revision, with the same
adapter and the same `Trace`.

* `searchRetrieve_diagnostics`: on every path, the answer is 200 with no diagnostic added,
  or `ConformantStatusBadRequest`, `ConformantUnprocessableEntity` or 500 with exactly one
  diagnostic appended and the rest of the envelope as it was.

The conformant statuses are constants of the `general` package, which is not among the
sources; they stay symbolic (`Status`), since the spec lets a conformant 400 go out as HTTP 200.
* `searchRetrieve_translates_per_corpus`: when nothing fails, one job per selected corpus, in
  order, its query translated with that corpus's attributes, and the rows of every result.
* `searchRetrieve_ignores_context`: this revision searches every corpus of `GetCorpora`
  whatever `x-fcs-context` lists: it asks whether the parameter's value, not the parameter,
  is present.
-/

namespace MquerySru.SruV12

open Results V12

/-- `SearchRetrArgFCSContext.String()`. -/
def SearchRetrArgFCSContext : String := "x-fcs-context"

/-- `SearchRetrArgQuery.String()`. -/
def SearchRetrArgQuery : String := "query"

/-- `general.FCSGeneralResponse` of this revision, with the diagnostics `AddError` collects. -/
structure FCSGeneralResponse where
  errors : List FCSError
  deriving DecidableEq, Repr

/-- `AddError`. -/
def FCSGeneralResponse.AddError (g : FCSGeneralResponse) (e : FCSError) : FCSGeneralResponse :=
  ⟨g.errors ++ [e]⟩

/-- `Token` of this revision's rows. -/
structure Token where
  text : String
  hit : Bool
  deriving DecidableEq, Repr

/-- `FCSSearchRow` of this revision. -/
structure FCSSearchRow where
  position : Nat
  pid : String
  web : String
  ref : String
  tokens : List Token
  deriving DecidableEq, Repr

/-- The row this revision builds for a line: its tokens, each with its hit flag. -/
def searchRow (position : Nat) (pid : String) (l : Line) : FCSSearchRow :=
  ⟨position, pid, "TODO", "TODO", l.text.map fun t => ⟨t.word, t.strong⟩⟩

/-- `FCSResponse`, with the parts `searchRetrieve` writes. -/
structure FCSResponse where
  general : FCSGeneralResponse
  results : List FCSSearchRow
  deriving DecidableEq, Repr

/-- The envelope with one more diagnostic. -/
def FCSResponse.AddError (r : FCSResponse) (e : FCSError) : FCSResponse :=
  { r with general := r.general.AddError e }

/-- The calls `searchRetrieve` makes outside this file, as oracles: `SearchRetrArg(key).Validate()`
(the error's text), `Resources.GetCorpora()`, `GetCommonPosAttrNames`, `basic.ParseQuery`
with the AST's `Generate` and `Errors`, `GetRegistryPath`, `json.Marshal`, the adapter (as in
the FCS revision), and the text of `mango.ErrRowsRangeOutOfConc`. -/
structure Env (AST : Type) where
  validate : String → Option String
  getCorpora : List String
  getCommonPosAttrNames : List String → List String
  parseQuery : String → List String → List (String × String) → Except String AST
  generate : AST → String
  errors : AST → List String
  getRegistryPath : String → String
  marshal : ConcExampleArgs → Except String Unit
  publishQuery : Nat → PublishReturn
  receive : Nat → Except String ConcExample
  errRowsRangeOutOfConc : String

section SearchRetrieve

variable (resources : Registry) {AST : Type} (env : Env AST)

/-- `Resources[corpusName]`: the zero `Resource` for an unknown id. -/
def resource (corpusName : String) : Resource :=
  (resources.find? corpusName).getD ⟨"", [], [], ""⟩

/-- `translateQuery`. -/
def translateQuery (corpusName query : String) : Except FCSError AST :=
  match env.parseQuery query (resource resources corpusName).posAttrs
      (resource resources corpusName).structureMapping with
  | .error _ => .error ⟨.dcQuerySyntaxError, query, "Invalid query syntax"⟩
  | .ok ast => .ok ast

/-- The diagnostic of a failed system call. -/
def generalSystemError (err : String) : FCSError := ⟨.dcGeneralSystemError, err, "General system error"⟩

/-- The corpora to search: `GetCorpora()`, replaced by the split `x-fcs-context` when the
request has a parameter named by that parameter's value. -/
def selectCorpora (p : Params) : List String :=
  if p.has (p.query SearchRetrArgFCSContext) then stringsSplit (p.query SearchRetrArgFCSContext) ','
  else env.getCorpora

/-- The check of the corpora: the first one that is not registered, or an empty list. -/
def checkCorpora (corpora : List String) : Option FCSError :=
  if corpora.length > 0 then
    (corpora.find? fun v => (resources.find? v).isNone).map fun v =>
      ⟨.dcUnsupportedParameterValue, SearchRetrArgFCSContext, "Unknown context " ++ v⟩
  else some ⟨.dcUnsupportedParameterValue, SearchRetrArgFCSContext, "Empty context"⟩

/-- The job for a corpus, from the query translated with the corpus's attributes; a query
that does not parse, or whose AST reports an error, cannot be processed. -/
def prepareJob (fcsQuery : String) (retrieveAttrs : List String) (corpusName : String) :
    Except (Status × FCSError) ConcExampleArgs :=
  match translateQuery resources env corpusName fcsQuery with
  | .error e => .error (.conformantUnprocessableEntity, e)
  | .ok ast =>
    let query := env.generate ast
    match env.errors ast with
    | err :: _ => .error (.conformantUnprocessableEntity, ⟨.dcQueryCannotProcess, SearchRetrArgQuery, err⟩)
    | [] => .ok ⟨env.getRegistryPath corpusName, "", query, retrieveAttrs, 10⟩

/-- A failed system call, answered 500. -/
def systemFailure (err : String) : Status × FCSError := (.internalServerError, generalSystemError err)

/-- A worker's error: a system error, answered `ConformantUnprocessableEntity` when its text is
that of `ErrRowsRangeOutOfConc` and 500 otherwise. -/
def workerFailure (err : String) : Status × FCSError :=
  (if err = env.errRowsRangeOutOfConc then .conformantUnprocessableEntity else .internalServerError,
    generalSystemError err)

/-- `searchRetrieve`: its status, the envelope, and what it did with the adapter. -/
def searchRetrieve (p : Params) (r : FCSResponse) : Status × FCSResponse × Trace ConcExampleArgs :=
  match p.keys.findSome? fun key => (env.validate key).map (key, ·) with
  | some (key, err) => (.conformantStatusBadRequest, r.AddError ⟨.dcUnsupportedParameter, key, err⟩, .empty)
  | none =>
    let fcsQuery := p.query "query"
    if fcsQuery.length = 0 then
      (.conformantStatusBadRequest, r.AddError ⟨.dcMandatoryParameterNotSupplied, "fcs_query",
        "Mandatory parameter not supplied"⟩, .empty)
    else
      let corpora := selectCorpora env p
      match checkCorpora resources corpora with
      | some e => (.conformantStatusBadRequest, r.AddError e, .empty)
      | none =>
        let retrieveAttrs := env.getCommonPosAttrNames corpora
        match fanOut (prepareJob resources env fcsQuery retrieveAttrs) env.marshal env.publishQuery
            systemFailure env.receive (workerFailure env) corpora with
        | (.error (status, e), tr) => (status, r.AddError e, tr)
        | (.ok results, tr) => (.ok, { r with results := (transformResults searchRow corpora results).getD [] }, tr)

end SearchRetrieve

/-! ## Status and diagnostics -/

section Diagnostics

variable (resources : Registry) {AST : Type} (env : Env AST)

/-- What `searchRetrieve` does with the envelope `r`: it answers 200 and adds no diagnostic,
or it answers `ConformantStatusBadRequest`, `ConformantUnprocessableEntity` or 500 and appends
exactly one, changing nothing else. -/
def AppendsDiagnostic (r : FCSResponse) (status : Status) (r' : FCSResponse) : Prop :=
  status = .ok ∧ r'.general = r.general ∨
    status ∈ [.conformantStatusBadRequest, .conformantUnprocessableEntity, .internalServerError] ∧
      ∃ e, r' = r.AddError e

/-- A corpus whose job cannot be prepared makes the query unprocessable. -/
theorem prepareJob_error {fcsQuery : String} {retrieveAttrs : List String} {corpusName : String}
    {e : Status × FCSError} (h : prepareJob resources env fcsQuery retrieveAttrs corpusName = .error e) :
    e.1 = .conformantUnprocessableEntity := by
  unfold prepareJob at h
  split at h
  · cases h; rfl
  · split at h
    · cases h; rfl
    · cases h

theorem searchRetrieve_diagnostics (p : Params) (r : FCSResponse) :
    AppendsDiagnostic r (searchRetrieve resources env p r).1 (searchRetrieve resources env p r).2.1 := by
  unfold searchRetrieve AppendsDiagnostic
  dsimp only
  split; · exact .inr ⟨by simp, _, rfl⟩
  split; · exact .inr ⟨by simp, _, rfl⟩
  split; · exact .inr ⟨by simp, _, rfl⟩
  split
  case h_1 status e tr hrun =>
    refine .inr ⟨?_, e, rfl⟩
    exact fanOut_error _ env.marshal env.publishQuery systemFailure env.receive (workerFailure env)
      (fun se => se.1 ∈ [.conformantStatusBadRequest, .conformantUnprocessableEntity, .internalServerError])
      (fun _ _ h => by simp [prepareJob_error resources env h]) (fun _ => by simp [systemFailure])
      (fun err => by unfold workerFailure; split <;> simp) _ _ (congrArg Prod.fst hrun)
  case h_2 => exact .inl ⟨rfl, rfl⟩

end Diagnostics

/-! ## Fan-out and join -/

section FanOut

variable (resources : Registry) {AST : Type} (env : Env AST)

theorem checkCorpora_eq_none {corpora : List String} (hne : corpora ≠ [])
    (hreg : ∀ v ∈ corpora, (resources.find? v).isSome) : checkCorpora resources corpora = none := by
  unfold checkCorpora
  rw [if_pos (List.length_pos.mpr hne)]
  simp only [Option.map_eq_none', List.find?_eq_none, Option.isNone_iff_eq_none]
  exact fun v hv => Option.isSome_iff_ne_none.mp (hreg v hv)

/-- Past its checks, `searchRetrieve` is the run of `fanOut` over the selected corpora. -/
theorem searchRetrieve_eq_fanOut (p : Params) (r : FCSResponse) {corpora : List String}
    (hkeys : ∀ key ∈ p.keys, env.validate key = none) (hquery : (p.query "query").length ≠ 0)
    (hsel : selectCorpora env p = corpora) (hne : corpora ≠ [])
    (hreg : ∀ v ∈ corpora, (resources.find? v).isSome) :
    searchRetrieve resources env p r =
      match fanOut (prepareJob resources env (p.query "query") (env.getCommonPosAttrNames corpora))
          env.marshal env.publishQuery systemFailure env.receive (workerFailure env) corpora with
      | (.error (status, e), tr) => (status, r.AddError e, tr)
      | (.ok results, tr) => (.ok, { r with results := (transformResults searchRow corpora results).getD [] }, tr) := by
  have hkeys' : p.keys.findSome? (fun key => (env.validate key).map (key, ·)) = none :=
    List.findSome?_eq_none_iff.mpr fun key hk => by simp [hkeys key hk]
  simp only [searchRetrieve, hkeys', hquery, hsel, checkCorpora_eq_none resources hne hreg, if_false]

/-- A query that parses for a corpus, with no AST error, gives the corpus's job. -/
theorem prepareJob_ok {fcsQuery : String} {retrieveAttrs : List String} {c : String} {ast : AST}
    (hparse : env.parseQuery fcsQuery (resource resources c).posAttrs (resource resources c).structureMapping = .ok ast)
    (hast : env.errors ast = []) :
    prepareJob resources env fcsQuery retrieveAttrs c =
      .ok ⟨env.getRegistryPath c, "", env.generate ast, retrieveAttrs, 10⟩ := by
  simp only [prepareJob, translateQuery, hparse, hast]

/-- Fan-out and join of this revision's `searchRetrieve`: when every key validates, the
query is non-empty, the selected corpora are registered and the query translates for each of
them, with its attributes, without errors, and no call to the adapter fails, one job is
published per selected corpus, in order, with the corpus's registry path, the query
translated for it and the attributes the corpora share; every handle is received from; and
the rows are the tokens of the lines of the `i`-th result, with the `i`-th corpus as `PID`,
numbered from 1. -/
theorem searchRetrieve_translates_per_corpus (p : Params) (r : FCSResponse) (corpora : List String)
    (ast : String → AST) (result : Nat → ConcExample)
    (hkeys : ∀ key ∈ p.keys, env.validate key = none) (hquery : (p.query "query").length ≠ 0)
    (hsel : selectCorpora env p = corpora) (hne : corpora ≠ [])
    (hreg : ∀ v ∈ corpora, (resources.find? v).isSome)
    (hparse : ∀ c ∈ corpora, env.parseQuery (p.query "query") (resource resources c).posAttrs
      (resource resources c).structureMapping = .ok (ast c))
    (hast : ∀ c ∈ corpora, env.errors (ast c) = []) (hmarshal : ∀ args, env.marshal args = .ok ())
    (hpub : ∀ i, env.publishQuery i = .ok) (hrecv : ∀ i, env.receive i = .ok (result i))
    (herr : ∀ i, (result i).error = none) :
    searchRetrieve resources env p r =
      (.ok, { r with
          results := (resultLines corpora ((List.range corpora.length).map result)).enum.map
            (numberedRow searchRow) },
        ⟨corpora.map fun c => ⟨env.getRegistryPath c, "", env.generate (ast c),
          env.getCommonPosAttrNames corpora, 10⟩, corpora.length, corpora.length⟩) := by
  rw [searchRetrieve_eq_fanOut resources env p r hkeys hquery hsel hne hreg,
    fanOut_ok _ _ _ _ _ _ _ result (fun c hc => prepareJob_ok resources env (hparse c hc) (hast c hc))
      hmarshal hpub hrecv herr]
  dsimp only
  rw [transformResults_eq _ _ _ (by simp)]
  rfl

/-- The fixture of the witnesses: corpora `A` and `B` with the attribute `word`. -/
def twoCorpora : Registry := ⟨[("A", ⟨"word", ["word"], [], ""⟩), ("B", ⟨"word", ["word"], [], ""⟩)], by decide⟩

/-- Oracles under which every call succeeds: the query is its own translation, and every
worker answers one line with the hit `w`. -/
def succeedingOracles : Env String :=
  ⟨fun _ => none, ["A", "B"], fun _ => ["word"], fun q _ _ => .ok q, id, fun _ => [], id,
    fun _ => .ok (), fun _ => .ok, fun _ => .ok ⟨[⟨[⟨"w", true⟩]⟩], none⟩, "rows out of range"⟩

theorem searchRetrieve_translates_per_corpus_two :
    searchRetrieve twoCorpora succeedingOracles ⟨[("query", "w")], by decide⟩ ⟨⟨[]⟩, []⟩ =
      (.ok, { (⟨⟨[]⟩, []⟩ : FCSResponse) with
          results := (resultLines ["A", "B"] ((List.range 2).map fun _ => ⟨[⟨[⟨"w", true⟩]⟩], none⟩)).enum.map
            (numberedRow searchRow) },
        ⟨["A", "B"].map fun c => ⟨id c, "", id "w", ["word"], 10⟩, 2, 2⟩) :=
  searchRetrieve_translates_per_corpus twoCorpora succeedingOracles ⟨[("query", "w")], by decide⟩ ⟨⟨[]⟩, []⟩
    ["A", "B"] (fun _ => "w") (fun _ => ⟨[⟨[⟨"w", true⟩]⟩], none⟩) (fun _ _ => rfl) (by decide) rfl
    (by decide) (by decide) (fun _ _ => rfl) (fun _ _ => rfl) (fun _ => rfl) (fun _ => rfl)
    (fun _ => rfl) (fun _ => rfl)

end FanOut

/-- A request for the corpus `A` of a registry of `A` and `B`: the run publishes a job for
each of `A` and `B`, the corpora `GetCorpora` returns, since the request has no parameter
named `A`. -/
theorem searchRetrieve_ignores_context :
    ((searchRetrieve ⟨[("A", ⟨"word", [], [], ""⟩), ("B", ⟨"word", [], [], ""⟩)], by decide⟩
        (⟨fun _ => none, ["A", "B"], fun _ => ["word"], fun q _ _ => .ok q, id, fun _ => [], id,
          fun _ => .ok (), fun _ => .ok, fun _ => .ok ⟨[], none⟩, "rows out of range"⟩ : Env String)
        ⟨[("query", "w"), ("x-fcs-context", "A")], by decide⟩ ⟨⟨[]⟩, []⟩).2.2.jobs.map
      (·.corpusPath)) = ["A", "B"] :=
  rfl

end MquerySru.SruV12
