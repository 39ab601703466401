import Mathlib.Data.List.Basic

/-!
# Requests, registries and worker results, as the handlers read them

The handlers of both revisions read the same inputs: the request's query parameters, the
corpus registry, and the concordances workers return. Two of those are Go maps, whose
iteration order changes from run to run: `Params` and `Registry` keep their entries in the
order one run visits them, so that two runs that differ only in that order are two values
whose entries are permutations of each other.

Strings are Lean strings: the handlers only compare, split, concatenate and trim them.
-/

namespace MquerySru

/-! ## Go maps as lists -/

/-- With unique keys, looking a key up finds its entry. -/
theorem lookup_eq_some_of_mem {β : Type} {l : List (String × β)} (hn : (l.map (·.1)).Nodup)
    {k : String} {v : β} (h : (k, v) ∈ l) : l.lookup k = some v := by
  induction l with
  | nil => simp at h
  | cons e rest ih =>
    obtain ⟨k', v'⟩ := e
    simp only [List.map_cons, List.nodup_cons, List.mem_map] at hn
    simp only [List.mem_cons, Prod.mk.injEq] at h
    rcases h with ⟨rfl, rfl⟩ | h
    · simp
    · have hk : (k == k') = false := beq_false_of_ne fun hk => hn.1 ⟨(k, v), h, hk⟩
      show (match k == k' with | true => some v' | false => rest.lookup k) = some v
      simpa only [hk] using ih hn.2 h

theorem mem_of_lookup_eq_some {β : Type} {l : List (String × β)} {k : String} {v : β}
    (h : l.lookup k = some v) : (k, v) ∈ l := by
  obtain ⟨l₁, l₂, rfl, -⟩ := List.lookup_eq_some_iff.mp h
  simp

/-- Two enumerations of one map look every key up alike. -/
theorem lookup_perm {β : Type} {l l' : List (String × β)} (hp : l.Perm l') (hn : (l.map (·.1)).Nodup)
    (k : String) : l.lookup k = l'.lookup k := by
  have hn' : (l'.map (·.1)).Nodup := (hp.map _).nodup_iff.mp hn
  apply Option.ext
  intro v
  exact ⟨fun h => lookup_eq_some_of_mem hn' (hp.subset (mem_of_lookup_eq_some h)),
    fun h => lookup_eq_some_of_mem hn (hp.symm.subset (mem_of_lookup_eq_some h))⟩

/-! ## Query parameters -/

/-- `ctx.Request.URL.Query()`: each key with its first value, in the order in which this
run's map iteration visits the keys. -/
structure Params where
  entries : List (String × String)
  nodup : (entries.map (·.1)).Nodup

namespace Params

/-- The keys, in iteration order. -/
def keys (p : Params) : List String := p.entries.map (·.1)

/-- `ctx.Query(key)`: the key's first value, `""` when it is absent. -/
def query (p : Params) (k : String) : String := (p.entries.lookup k).getD ""

/-- `ctx.DefaultQuery(key, d)`. -/
def defaultQuery (p : Params) (k d : String) : String := (p.entries.lookup k).getD d

/-- `URL.Query().Has(key)`. -/
def has (p : Params) (k : String) : Bool := (p.entries.lookup k).isSome

theorem query_perm {p q : Params} (h : p.entries.Perm q.entries) (k : String) : p.query k = q.query k := by
  simp only [query, lookup_perm h p.nodup k]

theorem has_perm {p q : Params} (h : p.entries.Perm q.entries) (k : String) : p.has k = q.has k := by
  simp only [has, lookup_perm h p.nodup k]

end Params

/-- `strings.Split(s, sep)` for a one-character separator: the pieces between the
separators, one more than there are separators (`[""]` for the empty string). -/
def stringsSplit (s : String) (sep : Char) : List String := (s.data.splitOn sep).map String.mk

/-! ## The corpus registry -/

/-- A corpus's configuration, with the fields the handlers read. -/
structure Resource where
  defaultSearchAttr : String
  posAttrs : List String
  structureMapping : List (String × String)
  syntaxParentAttr : String
  deriving DecidableEq, Repr

/-- `Resources`, the registry: corpus ids with their configuration, in the order in which
this run's map iteration visits them. -/
structure Registry where
  resources : List (String × Resource)
  nodup : (resources.map (·.1)).Nodup

/-- The corpus ids, in iteration order. -/
def Registry.ids (r : Registry) : List String := r.resources.map (·.1)

/-- `Resources[id]`, with its `ok`. -/
def Registry.find? (r : Registry) (id : String) : Option Resource := r.resources.lookup id

/-- A registered corpus is found with its own configuration: the ids are unique. -/
theorem Registry.find?_of_mem (r : Registry) {id : String} {res : Resource}
    (h : (id, res) ∈ r.resources) : r.find? id = some res :=
  lookup_eq_some_of_mem r.nodup h

/-- Two enumerations of one registry find every id alike. -/
theorem Registry.find?_perm {r r' : Registry} (h : r.resources.Perm r'.resources) (id : String) :
    r.find? id = r'.find? id :=
  lookup_perm h r.nodup id

/-! ## Diagnostics and statuses -/

/-- The diagnostic codes the handlers use: `general.Code...` of the FCS revision and
`general.DC...` of the SRU revision. -/
inductive ErrorCode where
  | codeUnsupportedParameter
  | codeMandatoryParameterNotSupplied
  | codeUnsupportedParameterValue
  | codeGeneralSystemError
  | codeUnsupportedRecordPacking
  | codeUnsupportedOperation
  | codeUnsupportedVersion
  | dcUnsupportedParameter
  | dcMandatoryParameterNotSupplied
  | dcUnsupportedParameterValue
  | dcQuerySyntaxError
  | dcQueryCannotProcess
  | dcGeneralSystemError
  deriving DecidableEq, Repr

/-- `general.FCSError`. -/
structure FCSError where
  code : ErrorCode
  ident : String
  message : String
  deriving DecidableEq, Repr

/-- The statuses the handlers pass on: `http.StatusOK`, `http.StatusBadRequest` and
`http.StatusInternalServerError`, and `general.ConformantStatusBadRequest` and
`general.ConformantUnprocessableEntity`. The two conformant statuses are not among the
sources: they are kept as symbolic constants, as the spec names them (a conformant 400 may be
sent as HTTP 200 with the diagnostic in the body), and no result assumes their codes. -/
inductive Status where
  | ok
  | badRequest
  | internalServerError
  | conformantStatusBadRequest
  | conformantUnprocessableEntity
  deriving DecidableEq, Repr

/-! ## The response -/

/-- The part of gin's `ResponseWriter` that fixes the status the client receives: the status
it holds, `http.StatusOK` until `WriteHeader` sets another, and whether the header has gone
out, which the first `Write` of the body does. gin is not among the sources. -/
structure ResponseWriter where
  status : Status
  written : Bool
  deriving DecidableEq, Repr

/-- The writer of a request before the handler runs. -/
def ResponseWriter.init : ResponseWriter := ⟨.ok, false⟩

/-- `Write`: the header goes out with the status the writer holds. -/
def ResponseWriter.write (w : ResponseWriter) : ResponseWriter := { w with written := true }

/-- `WriteHeader(code)`: once the header has gone out it changes nothing (gin only logs that
the headers were already written). -/
def ResponseWriter.writeHeader (w : ResponseWriter) (code : Status) : ResponseWriter :=
  if w.written then w else { w with status := code }

/-- What `ExecuteTemplate` did with an envelope: whether it wrote part of the body, and whether
it returned an error. The templates are not among the sources. -/
structure Rendering where
  wrote : Bool
  failed : Bool
  deriving DecidableEq, Repr

/-- How both handlers end every path (`produceResponse`, and inline in `FCSHandler`):
`ExecuteTemplate` of the envelope, then `WriteHeader(code)`; when the template fails,
`AbortWithError(http.StatusInternalServerError, err)` instead, whose `AbortWithStatus` goes
through `WriteHeader` too. -/
def render (rendering : Rendering) (code : Status) : ResponseWriter :=
  let w := if rendering.wrote then ResponseWriter.init.write else ResponseWriter.init
  w.writeHeader (if rendering.failed then .internalServerError else code)

/-- Once `ExecuteTemplate` has written part of the body, the client receives `http.StatusOK`,
whatever status the handler passes afterwards. -/
theorem render_status_of_wrote {rendering : Rendering} (h : rendering.wrote = true) (code : Status) :
    (render rendering code).status = .ok := by
  simp [render, h, ResponseWriter.write, ResponseWriter.writeHeader, ResponseWriter.init]

/-- A template that writes nothing and succeeds leaves the status to the handler. -/
example : (render ⟨false, false⟩ .badRequest).status = .badRequest := rfl

/-! ## Worker results -/

namespace Results

/-- `results.Token`: a word of a concordance line, `Strong` when it is part of the hit. -/
structure Token where
  word : String
  strong : Bool
  deriving DecidableEq, Repr

/-- `results.Line`. -/
structure Line where
  text : List Token
  deriving DecidableEq, Repr

/-- `results.ConcExample`: its lines, and the text of the error `Err()` returns. -/
structure ConcExample where
  lines : List Line
  error : Option String
  deriving DecidableEq, Repr

end Results

end MquerySru
