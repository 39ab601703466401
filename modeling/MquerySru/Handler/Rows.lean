import Mathlib.Algebra.Order.Ring.Nat
import MquerySru.Handler.Request

/-!
# The result fold of `searchRetrieve`

Every revision of `searchRetrieve` ends with the same nested loop: for each result, for
each of its lines, append a row whose `Position` is `len(Results) + 1` and whose `PID` is
the result's corpus. Only the row built from a line differs. `transformResults` is that loop,
with the row builder as a parameter. `searchRow` is the builder of the FCS revision
(`handler.go` and `Actions`), which splits a line into left context, hit and right context.

`transformResults_rows` says what the loop computes: the lines of all results in order,
numbered from 1, each with its corpus.
-/

namespace MquerySru

open Results

/-! ## The fold -/

/-- The fold that ends `searchRetrieve` in every revision: for each result `i` and each of
its lines in order, append `mkRow (len(Results) + 1) corpora[i] line`. `corpora[i]` is read
for each line, and panics out of range (`none`). -/
def transformResults {Row : Type} (mkRow : Nat → String → Line → Row) (corpora : List String)
    (results : List ConcExample) : Option (List Row) :=
  results.enum.foldlM (fun rows (i, r) =>
    r.lines.foldlM (fun rows l => (corpora[i]?).map fun pid => rows ++ [mkRow (rows.length + 1) pid l])
      rows) []

/-- The lines of the results, in order, each with the corpus of its result. -/
def resultLines (corpora : List String) (results : List ConcExample) : List (String × Line) :=
  (corpora.zip results).flatMap fun (pid, r) => r.lines.map (pid, ·)

section Fold

variable {Row : Type} (mkRow : Nat → String → Line → Row)

/-- The row built for the `k`-th line of `resultLines`, numbered from 0. -/
def numberedRow (x : Nat × String × Line) : Row := mkRow (x.1 + 1) x.2.1 x.2.2

theorem foldlM_lines (pid : String) (ls : List Line) (rows : List Row) :
    ls.foldlM (fun rows l => some (rows ++ [mkRow (rows.length + 1) pid l])) rows =
      some (rows ++ ((ls.map (pid, ·)).enumFrom rows.length).map (numberedRow mkRow)) := by
  induction ls generalizing rows with
  | nil => simp
  | cons l ls ih =>
    simp only [List.foldlM_cons, Option.bind_eq_bind, Option.some_bind, ih, List.length_append,
      List.length_singleton, List.map_cons, List.enumFrom_cons, List.map_cons, List.append_assoc,
      List.singleton_append, numberedRow]

theorem foldlM_results (corpora : List String) (results : List ConcExample) (n : Nat)
    (rows : List Row) (h : n + results.length ≤ corpora.length) :
    (results.enumFrom n).foldlM (fun rows (i, r) =>
      r.lines.foldlM (fun rows l => (corpora[i]?).map fun pid => rows ++ [mkRow (rows.length + 1) pid l])
        rows) rows =
      some (rows ++ ((resultLines (corpora.drop n) results).enumFrom rows.length).map
        (numberedRow mkRow)) := by
  induction results generalizing n rows with
  | nil => simp [resultLines]
  | cons r rs ih =>
    have hn : n < corpora.length := by simp at h; omega
    have hdrop : corpora.drop n = corpora[n] :: corpora.drop (n + 1) := List.drop_eq_getElem_cons hn
    simp only [List.enumFrom_cons, List.foldlM_cons, List.getElem?_eq_getElem hn, Option.map_some',
      foldlM_lines, Option.bind_eq_bind, Option.some_bind]
    rw [ih (n + 1) _ (by simp at h; omega)]
    simp only [resultLines, hdrop, List.zip_cons_cons, List.flatMap_cons, List.enumFrom_append,
      List.map_append, List.append_assoc, List.length_append, List.length_map, List.enumFrom_length]

theorem resultLines_length (corpora : List String) (results : List ConcExample)
    (h : results.length ≤ corpora.length) :
    (resultLines corpora results).length = (results.map fun r => r.lines.length).sum := by
  induction results generalizing corpora with
  | nil => simp [resultLines]
  | cons r rs ih =>
    obtain ⟨pid, corpora, rfl⟩ : ∃ pid cs, corpora = pid :: cs := by
      cases corpora with
      | nil => simp at h
      | cons pid cs => exact ⟨pid, cs, rfl⟩
    have := ih corpora (by simp at h; omega)
    simp only [resultLines] at this ⊢
    simp [this]

/-- When every result has its corpus, the fold does not panic and numbers the lines of the
results in order. -/
theorem transformResults_eq (corpora : List String) (results : List ConcExample)
    (h : results.length ≤ corpora.length) :
    transformResults mkRow corpora results =
      some ((resultLines corpora results).enum.map (numberedRow mkRow)) := by
  simpa using foldlM_results mkRow corpora results 0 [] (by omega)

/-- Row numbering of the result fold. When every result has its corpus, the fold does not
panic, and its rows are the lines of the results in order, the `k`-th (from 0) built at
position `k + 1` with the corpus of its result; there are as many rows as lines. -/
theorem transformResults_rows (corpora : List String) (results : List ConcExample)
    (h : results.length ≤ corpora.length) :
    ∃ rows, transformResults mkRow corpora results = some rows ∧
      rows = (resultLines corpora results).enum.map (numberedRow mkRow) ∧
      rows.length = (results.map fun r => r.lines.length).sum :=
  ⟨_, transformResults_eq mkRow corpora results h, rfl, by simp [resultLines_length corpora results h]⟩

end Fold

/-- Two corpora, the first with two lines and the second with one: rows at positions 1, 2
and 3, the last from the second corpus. -/
theorem transformResults_rows_two :
    ∃ rows, transformResults (fun k pid (_ : Line) => (k, pid)) ["A", "B"]
        [⟨[⟨[]⟩, ⟨[]⟩], none⟩, ⟨[⟨[]⟩], none⟩] = some rows ∧
      rows = (resultLines ["A", "B"] [⟨[⟨[]⟩, ⟨[]⟩], none⟩, ⟨[⟨[]⟩], none⟩]).enum.map
        (numberedRow fun k pid (_ : Line) => (k, pid)) ∧
      rows.length = ([⟨[⟨[]⟩, ⟨[]⟩], none⟩, ⟨[⟨[]⟩], none⟩].map fun (r : ConcExample) => r.lines.length).sum :=
  transformResults_rows _ _ _ (by decide)

/-! ## The rows of the FCS revision -/

/-- `FCSSearchRow` of the FCS revision. -/
structure FCSSearchRow where
  position : Nat
  pid : String
  left : String
  kwic : String
  right : String
  web : String
  ref : String
  deriving DecidableEq, Repr

/-- `unicode.IsSpace`: the Latin-1 spaces and the other code points of `White_Space`. -/
def goIsSpace (c : Char) : Bool :=
  [9, 10, 11, 12, 13, 32, 0x85, 0xA0, 0x1680, 0x2028, 0x2029, 0x202F, 0x205F, 0x3000].contains
      c.toNat ||
    (0x2000 ≤ c.toNat && c.toNat ≤ 0x200A)

/-- `strings.TrimSpace`. -/
def trimSpace (s : String) : String :=
  ⟨((s.data.dropWhile goIsSpace).reverse.dropWhile goIsSpace).reverse⟩

/-- The variables of the loop over a line's tokens. -/
structure KwicParts where
  left : String
  kwic : String
  right : String
  hit : Bool
  deriving DecidableEq, Repr

/-- One pass of the loop: a strong token sets `hit`; before it words go to `left`, after it
strong words to `kwic` and the others to `right`. -/
def KwicParts.step (k : KwicParts) (t : Token) : KwicParts :=
  let hit := k.hit || t.strong
  if hit then
    if t.strong then { k with kwic := k.kwic ++ (t.word ++ " "), hit }
    else { k with right := k.right ++ (t.word ++ " "), hit }
  else { k with left := k.left ++ (t.word ++ " "), hit }

/-- The row the FCS revision builds for a line. -/
def searchRow (position : Nat) (pid : String) (l : Line) : FCSSearchRow :=
  let k := l.text.foldl KwicParts.step ⟨"", "", "", false⟩
  ⟨position, pid, trimSpace k.left, trimSpace k.kwic, trimSpace k.right, "TODO", "TODO"⟩

/-! ## The KWIC split

The loop of `searchRow` sends each word, followed by a space, to `left` until the first
strong token, and from there the strong words to `kwic` and the others to `right`;
`strings.TrimSpace` then drops the last space. `searchRow_split` says so with the token lists
`leftTokens`, `kwicTokens` and `rightTokens`.
-/

/-- The tokens before the first strong token. -/
def leftTokens (ts : List Token) : List Token := ts.takeWhile (!·.strong)

/-- The strong tokens. -/
def kwicTokens (ts : List Token) : List Token := ts.filter (·.strong)

/-- The tokens after the first strong token that are not strong. -/
def rightTokens (ts : List Token) : List Token := (ts.dropWhile (!·.strong)).filter (!·.strong)

/-- The words of `ts`, each followed by a space: what the loop appends for them. -/
def spaced : List Token → String
  | [] => ""
  | t :: ts => t.word ++ " " ++ spaced ts

/-- Once `hit` is set, strong words go to `kwic` and the others to `right`. -/
theorem foldl_step_of_hit (ts : List Token) {k : KwicParts} (hk : k.hit = true) :
    ts.foldl KwicParts.step k = { k with kwic := k.kwic ++ spaced (ts.filter (·.strong)),
                                         right := k.right ++ spaced (ts.filter (!·.strong)) } := by
  induction ts generalizing k with
  | nil => simp [spaced]
  | cons t ts ih =>
    rw [List.foldl_cons, ih (by simp [KwicParts.step, hk]; split <;> rfl)]
    cases ht : t.strong <;> simp [KwicParts.step, hk, ht, spaced, String.append_assoc]

/-- The loop over a whole line: the three parts are the spaced words of the three token
lists, and `hit` tells whether the line has a strong token. -/
theorem foldl_step (ts : List Token) {k : KwicParts} (hk : k.hit = false) :
    ts.foldl KwicParts.step k = ⟨k.left ++ spaced (leftTokens ts), k.kwic ++ spaced (kwicTokens ts),
      k.right ++ spaced (rightTokens ts), ts.any (·.strong)⟩ := by
  induction ts generalizing k with
  | nil => cases k; simp_all [spaced, leftTokens, kwicTokens, rightTokens]
  | cons t ts ih =>
    cases ht : t.strong
    · rw [List.foldl_cons, ih (by simp [KwicParts.step, hk, ht])]
      simp [KwicParts.step, hk, ht, spaced, leftTokens, kwicTokens, rightTokens, String.append_assoc]
    · rw [List.foldl_cons, foldl_step_of_hit ts (by simp [KwicParts.step, hk, ht])]
      simp [KwicParts.step, hk, ht, spaced, leftTokens, kwicTokens, rightTokens, String.append_assoc]

/-- The row of a line: `Left`, `KWIC` and `Right` are the trimmed spaced words of the tokens
before the first strong one, of the strong ones, and of the others after it. -/
theorem searchRow_split (position : Nat) (pid : String) (l : Line) :
    searchRow position pid l = ⟨position, pid, trimSpace (spaced (leftTokens l.text)),
      trimSpace (spaced (kwicTokens l.text)), trimSpace (spaced (rightTokens l.text)), "TODO", "TODO"⟩ := by
  simp [searchRow, foldl_step l.text (k := ⟨"", "", "", false⟩) rfl]

/-! ### Words without spaces

When every word is non-empty and has no space `strings.TrimSpace` would drop, trimming the
spaced words gives their single-space join: the join starts and ends inside a word. -/

/-- A word the row keeps as written: non-empty, and without a code point `unicode.IsSpace`
accepts. -/
def Spaceless (w : String) : Prop := w ≠ "" ∧ ∀ c ∈ w.data, goIsSpace c = false

instance : DecidablePred Spaceless := fun w =>
  inferInstanceAs (Decidable (w ≠ "" ∧ ∀ c ∈ w.data, goIsSpace c = false))

theorem intercalate_data (w : String) (ws : List String) :
    (String.intercalate " " (w :: ws)).data = w.data ++ (ws.map fun v => ' ' :: v.data).flatten := by
  suffices h : ∀ acc : String, (String.intercalate.go acc " " ws).data =
      acc.data ++ (ws.map fun v => ' ' :: v.data).flatten from h w
  induction ws with
  | nil => simp [String.intercalate.go]
  | cons v ws ih => intro acc; simp [String.intercalate.go, ih]

theorem spaced_data (t : Token) (ts : List Token) :
    (spaced (t :: ts)).data = (String.intercalate " " ((t :: ts).map (·.word))).data ++ [' '] := by
  induction ts generalizing t with
  | nil => simp [spaced, intercalate_data]
  | cons u ts ih =>
    rw [spaced, String.data_append, ih]
    simp [intercalate_data]

theorem intercalate_cons_cons (t u : Token) (ts : List Token) :
    (String.intercalate " " ((t :: u :: ts).map (·.word))).data =
      t.word.data ++ ' ' :: (String.intercalate " " ((u :: ts).map (·.word))).data := by
  simp [intercalate_data]

/-- The join of non-empty words starts with the first word's first code point. -/
theorem intercalate_head (t : Token) (ts : List Token) (ht : Spaceless t.word) :
    ∃ a m, (String.intercalate " " ((t :: ts).map (·.word))).data = a :: m ∧ goIsSpace a = false := by
  obtain ⟨a, w, hw⟩ := List.exists_cons_of_ne_nil fun h => ht.1 (String.ext h)
  exact ⟨a, w ++ (ts.map fun u => ' ' :: u.word.data).flatten, by simp [intercalate_data, hw]; rfl,
    ht.2 a (by simp [hw])⟩

/-- The join of non-empty words ends with the last word's last code point. -/
theorem intercalate_last (t : Token) (ts : List Token) (hw : ∀ u ∈ t :: ts, Spaceless u.word) :
    ∃ m b, (String.intercalate " " ((t :: ts).map (·.word))).data = m ++ [b] ∧ goIsSpace b = false := by
  induction ts generalizing t with
  | nil =>
    have ht := hw t (List.mem_singleton_self _)
    obtain ⟨m, b, hmb⟩ := (List.eq_nil_or_concat t.word.data).resolve_left fun h => ht.1 (String.ext h)
    exact ⟨m, b, by simp [intercalate_data, hmb], ht.2 b (by simp [hmb])⟩
  | cons u ts ih =>
    obtain ⟨m, b, hmb, hb⟩ := ih u fun v hv => hw v (List.mem_cons_of_mem _ hv)
    exact ⟨t.word.data ++ ' ' :: m, b, by rw [intercalate_cons_cons, hmb]; simp, hb⟩

/-- Trimming the spaced words of non-empty words without spaces gives their single-space
join. -/
theorem trimSpace_spaced {ts : List Token} (hw : ∀ t ∈ ts, Spaceless t.word) :
    trimSpace (spaced ts) = String.intercalate " " (ts.map (·.word)) := by
  cases ts with
  | nil => rfl
  | cons t ts =>
    obtain ⟨a, m, ham, ha⟩ := intercalate_head t ts (hw t (List.mem_cons_self _ _))
    obtain ⟨m', b, hmb, hb⟩ := intercalate_last t ts hw
    apply String.ext
    have hfront : (spaced (t :: ts)).data.dropWhile goIsSpace = (spaced (t :: ts)).data := by
      rw [spaced_data, ham, List.cons_append, List.dropWhile_cons_of_neg (by simp [ha])]
    have hback : ((spaced (t :: ts)).data.reverse.dropWhile goIsSpace) =
        (String.intercalate " " ((t :: ts).map (·.word))).data.reverse := by
      rw [spaced_data, hmb, List.reverse_append, List.reverse_append]
      simp only [List.reverse_cons, List.reverse_nil, List.nil_append, List.singleton_append,
        List.dropWhile_cons_of_pos (show goIsSpace ' ' = true by decide)]
      exact List.dropWhile_cons_of_neg (by simp [hb])
    simp only [trimSpace, hfront, hback, List.reverse_reverse]

theorem intercalate_ne_empty {w : String} (hw : w ≠ "") (ws : List String) :
    String.intercalate " " (w :: ws) ≠ "" := fun h => by
  have := congrArg String.data h
  rw [intercalate_data] at this
  exact hw (String.ext (List.append_eq_nil.mp this).1)

/-- The join read as a separator before every word, with the first one dropped. -/
theorem intercalate_data_tail (ws : List String) :
    (String.intercalate " " ws).data = ((ws.map fun v => ' ' :: v.data).flatten).tail := by
  cases ws with
  | nil => rfl
  | cons w ws => simp [intercalate_data]

/-- Joining the non-empty joins of groups of non-empty words joins all the words. -/
theorem intercalate_filter (parts : List (List String)) (hne : ∀ p ∈ parts, ∀ w ∈ p, w ≠ "") :
    String.intercalate " " ((parts.map (String.intercalate " ")).filter (· ≠ "")) =
      String.intercalate " " parts.flatten := by
  apply String.ext
  rw [intercalate_data_tail, intercalate_data_tail]
  congr 1
  induction parts with
  | nil => rfl
  | cons p parts ih =>
    have ih := ih fun q hq => hne q (List.mem_cons_of_mem _ hq)
    cases p with
    | nil => simpa using ih
    | cons w ws =>
      have hw : w ≠ "" := hne _ (List.mem_cons_self _ _) w (List.mem_cons_self _ _)
      rw [List.map_cons, List.filter_cons_of_pos (by simpa using intercalate_ne_empty hw ws)]
      simp only [List.map_cons, List.flatten_cons, intercalate_data, List.cons_append, List.map_append,
        List.flatten_append, List.append_assoc, ih]

/-- A line whose strong tokens form one run, `pre ++ run ++ post` (with everything before
the run when there is no strong token), splits into exactly these three lists. -/
theorem tokens_of_run {pre run post : List Token} (hpre : ∀ t ∈ pre, t.strong = false)
    (hrun : ∀ t ∈ run, t.strong = true) (hpost : ∀ t ∈ post, t.strong = false)
    (hempty : run = [] → post = []) :
    leftTokens (pre ++ run ++ post) = pre ∧ kwicTokens (pre ++ run ++ post) = run ∧
      rightTokens (pre ++ run ++ post) = post := by
  have hpre' : ∀ t ∈ pre, (!t.strong) = true := fun t ht => by simp [hpre t ht]
  refine ⟨?_, ?_, ?_⟩
  · rw [leftTokens, List.append_assoc, List.takeWhile_append_of_pos hpre']
    cases run with
    | nil => simp [hempty rfl]
    | cons r run => simp [hrun r (List.mem_cons_self _ _)]
  · simp only [kwicTokens, List.filter_append]
    rw [List.filter_eq_nil_iff.mpr (by simpa using hpre), List.filter_eq_self.mpr hrun,
      List.filter_eq_nil_iff.mpr (by simpa using hpost)]
    simp
  · rw [rightTokens, List.append_assoc, List.dropWhile_append_of_pos hpre']
    cases run with
    | nil => simp [hempty rfl]
    | cons r run =>
      rw [List.cons_append, List.dropWhile_cons_of_neg (by simp [hrun r (List.mem_cons_self _ _)]),
        ← List.cons_append, List.filter_append, List.filter_eq_nil_iff.mpr (by simpa using hrun),
        List.filter_eq_self.mpr (by simpa using hpost), List.nil_append]

/-- The KWIC split of a line. `Left`, `KWIC` and `Right` are the trimmed spaced words of the
tokens before the first strong token, of the strong tokens, and of the other tokens after the
first strong one, in line order. When the strong tokens form one run and every word is
non-empty without spaces, the three are the single-space joins of the words before, in and
after the run, and the non-empty ones, joined by single spaces, give back the line. -/
theorem searchRow_kwic (position : Nat) (pid : String) (l : Line) :
    (searchRow position pid l).left = trimSpace (spaced (leftTokens l.text)) ∧
    (searchRow position pid l).kwic = trimSpace (spaced (kwicTokens l.text)) ∧
    (searchRow position pid l).right = trimSpace (spaced (rightTokens l.text)) ∧
    ∀ pre run post, l.text = pre ++ run ++ post → (∀ t ∈ pre, t.strong = false) →
      (∀ t ∈ run, t.strong = true) → (∀ t ∈ post, t.strong = false) → (run = [] → post = []) →
      (∀ t ∈ l.text, Spaceless t.word) →
      (searchRow position pid l).left = String.intercalate " " (pre.map (·.word)) ∧
      (searchRow position pid l).kwic = String.intercalate " " (run.map (·.word)) ∧
      (searchRow position pid l).right = String.intercalate " " (post.map (·.word)) ∧
      String.intercalate " " ([(searchRow position pid l).left, (searchRow position pid l).kwic,
        (searchRow position pid l).right].filter (· ≠ "")) = String.intercalate " " (l.text.map (·.word)) := by
  rw [searchRow_split]
  refine ⟨rfl, rfl, rfl, fun pre run post hl hpre hrun hpost hempty hw => ?_⟩
  obtain ⟨hL, hK, hR⟩ := tokens_of_run hpre hrun hpost hempty
  have hw' : ∀ t ∈ pre ++ run ++ post, Spaceless t.word := hl ▸ hw
  simp only [hl, hL, hK, hR]
  rw [trimSpace_spaced fun t ht => hw' t (by simp [ht]), trimSpace_spaced fun t ht => hw' t (by simp [ht]),
    trimSpace_spaced fun t ht => hw' t (by simp [ht])]
  refine ⟨rfl, rfl, rfl, ?_⟩
  have hne : ∀ p ∈ [pre.map (·.word), run.map (·.word), post.map (·.word)], ∀ w ∈ p, w ≠ "" := by
    intro p hp w hwp
    simp only [List.mem_cons, List.mem_singleton, List.not_mem_nil, or_false] at hp
    rcases hp with rfl | rfl | rfl <;>
      (obtain ⟨t, ht, rfl⟩ := List.mem_map.mp hwp; exact (hw' t (by simp [ht])).1)
  simpa using intercalate_filter _ hne

theorem searchRow_kwic_one_hit :
    (searchRow 1 "A" ⟨[⟨"a", false⟩, ⟨"b", true⟩, ⟨"c", false⟩]⟩).left = "a" ∧
    (searchRow 1 "A" ⟨[⟨"a", false⟩, ⟨"b", true⟩, ⟨"c", false⟩]⟩).kwic = "b" ∧
    (searchRow 1 "A" ⟨[⟨"a", false⟩, ⟨"b", true⟩, ⟨"c", false⟩]⟩).right = "c" ∧
    String.intercalate " " ([(searchRow 1 "A" ⟨[⟨"a", false⟩, ⟨"b", true⟩, ⟨"c", false⟩]⟩).left,
      (searchRow 1 "A" ⟨[⟨"a", false⟩, ⟨"b", true⟩, ⟨"c", false⟩]⟩).kwic,
      (searchRow 1 "A" ⟨[⟨"a", false⟩, ⟨"b", true⟩, ⟨"c", false⟩]⟩).right].filter (· ≠ "")) =
      String.intercalate " " ["a", "b", "c"] :=
  (searchRow_kwic 1 "A" ⟨[⟨"a", false⟩, ⟨"b", true⟩, ⟨"c", false⟩]⟩).2.2.2 [⟨"a", false⟩] [⟨"b", true⟩]
    [⟨"c", false⟩] rfl (by decide) (by decide) (by decide) (by decide) (by decide)

end MquerySru