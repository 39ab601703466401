import MquerySru.Query.Lexer
import MquerySru.Query.ParserComplete

/-!
# Round trip of the translator on queries without brackets

`yyParse` only sees the lexemes its lexer hands out. Section 1 makes that precise: two
lexers whose states are related so that they hand out the same lexemes drive the parser
through the same passes, to the same end (`Parser.run_withLexer`).

Section 2 describes what `basicTransformer.Lex` reads back as a given list of tokens
(`Renders`): keywords, terms written bare or between double quotes, separated by runs of
the bytes `isSpace` skips. A bare term must not contain RE2's `\s` or a quote and must not
begin with a keyword. A quoted term must not begin or end with a quote (`strings.Trim`
would drop it) or contain a line feed, and no quote may follow it on its line, since
`^\".*\"` is greedy. `lex_spells` and `Renders.lex` are the one-call lemmas;
`lex_quoted_merge` shows what the greedy rule does to two quoted terms on one line.

Brackets are missing on purpose: `^[\S]*` comes before the single-byte fallback in
`tokens`, so `(` and `)` never reach the parser as their own tokens (the query `(a)` comes
back as the single term `(a)`).

Section 3 puts this together with `ParserComplete`: every rendering of a well-formed tree
is accepted by `NewBasicTransformer`, without error, with the tree as `parseResult`
(`newBasicTransformer_renders`).
-/

namespace MquerySru

/-! ## 1. The parser depends on its lexer only through the lexemes -/

section Simulation

variable {σ τ : Type}

/-- The parser `p`, reading from the lexer state `t` instead of its own. -/
def Parser.withLexer (p : Parser σ) (t : τ) : Parser τ :=
  ⟨p.top, p.below, p.char, p.lval, p.errflag, t, p.result, p.errors⟩

/-- Where a pass ends, with the lexer state `t`. -/
def Step.withLexer : Step σ → τ → Step τ
  | .next q, t => .next (q.withLexer t)
  | .ret c q, t => .ret c (q.withLexer t)
  | .panic, _ => .panic

@[simp] theorem Parser.withLexer_lexer (p : Parser σ) (t : τ) : (p.withLexer t).lexer = t := rfl

@[simp] theorem Parser.withLexer_self (p : Parser σ) : p.withLexer p.lexer = p := rfl

@[simp] theorem Parser.init_withLexer (s : σ) (t : τ) : (Parser.init s).withLexer t = Parser.init t := rfl

theorem Parser.reduce_withLexer (p : Parser σ) (t : τ) (r : Nat) :
    (p.withLexer t).reduce r = (p.reduce r).withLexer t := by
  unfold Parser.reduce
  simp only [Parser.withLexer]
  split
  · rfl
  · split
    · rfl
    · split <;> rfl

theorem Parser.recover_withLexer (p : Parser σ) (t : τ) :
    (p.withLexer t).recover = p.recover.withLexer t := by
  unfold Parser.recover
  simp only [Parser.withLexer]
  split <;> simp_all [Step.withLexer, Parser.withLexer]

theorem Parser.error_withLexer (p : Parser σ) (t : τ) :
    (p.withLexer t).error = p.error.withLexer t := by
  have hf : (p.withLexer t).errflag = p.errflag := rfl
  unfold Parser.error
  rw [hf]
  split
  · exact Parser.recover_withLexer { p with errors := p.errors ++ [errorMessage p.char], errflag := 3 } t
  · exact Parser.recover_withLexer { p with errflag := 3 } t
  · exact Parser.recover_withLexer { p with errflag := 3 } t
  · show (if p.char = yyEofCode then _ else _) = _
    split <;> rfl
  · exact Parser.reduce_withLexer p t 0

theorem Parser.act_withLexer (p : Parser σ) (t : τ) :
    (p.withLexer t).act = p.act.withLexer t := by
  unfold Parser.act
  simp only [Parser.withLexer]
  split
  · rfl
  · split
    · rfl
    · split
      · exact Parser.reduce_withLexer p t _
      · split
        · rfl
        · exact Parser.error_withLexer p t

/-- A pass never changes the lexer state: only reading the lookahead does. -/
theorem Parser.act_eq_withLexer (p : Parser σ) : p.act = p.act.withLexer p.lexer := by
  simpa using Parser.act_withLexer p p.lexer

theorem Parser.act_next_lexer {p q : Parser σ} (h : p.act = .next q) : q.lexer = p.lexer := by
  have := Parser.act_eq_withLexer p
  rw [h] at this
  have hq : q = q.withLexer p.lexer := Step.next.inj this
  calc q.lexer = (q.withLexer p.lexer).lexer := congrArg Parser.lexer hq
    _ = p.lexer := rfl

theorem Parser.act_ret_lexer {p q : Parser σ} {c : Nat} (h : p.act = .ret c q) : q.lexer = p.lexer := by
  have := Parser.act_eq_withLexer p
  rw [h] at this
  have hq : q = q.withLexer p.lexer := (Step.ret.inj this).2
  calc q.lexer = (q.withLexer p.lexer).lexer := congrArg Parser.lexer hq
    _ = p.lexer := rfl

variable (lex₁ : σ → Lexeme × σ) (lex₂ : τ → Lexeme × τ)

theorem Parser.read_withLexer (p : Parser σ) (t : τ) (h : (lex₁ p.lexer).1 = (lex₂ t).1) :
    (p.withLexer t).read lex₂ = (p.read lex₁).withLexer (if p.char < 0 then (lex₂ t).2 else t) := by
  by_cases hc : p.char < 0
  · simp only [Parser.read, Parser.withLexer, hc, if_true, h]
  · simp only [Parser.read, Parser.withLexer, hc, if_false]

/-- Two runs that end the same way, the second's final parser the first's with a lexer state
related to the first's by `R`. -/
def Exec.Sim (R : σ → τ → Prop) : Exec (Nat × Parser σ) → Exec (Nat × Parser τ) → Prop
  | .done (c, q), .done (c', q') => c' = c ∧ q' = q.withLexer q'.lexer ∧ R q.lexer q'.lexer
  | .panic, .panic => True
  | .outOfFuel, .outOfFuel => True
  | _, _ => False

/-- A run simulating one that returned ends with the same code. -/
theorem Exec.Sim.of_done {R : σ → τ → Prop} {c : Nat} {q : Parser σ} {e : Exec (Nat × Parser τ)}
    (h : Exec.Sim R (.done (c, q)) e) : ∃ q', e = .done (c, q') ∧ q' = q.withLexer q'.lexer ∧ R q.lexer q'.lexer := by
  cases e with
  | done y =>
    obtain ⟨rfl, hq, hR⟩ := h
    exact ⟨y.2, rfl, hq, hR⟩
  | _ => exact h.elim

variable (R : σ → τ → Prop)

/-- One pass from related lexer states ends the same way, with related lexer states. -/
theorem Parser.step_withLexer (hsim : ∀ s t, R s t → (lex₁ s).1 = (lex₂ t).1 ∧ R (lex₁ s).2 (lex₂ t).2)
    (p : Parser σ) (t : τ) (h : R p.lexer t) :
    ∃ t', R (p.read lex₁).lexer t' ∧ (p.withLexer t).step lex₂ = (p.step lex₁).withLexer t' := by
  refine ⟨if p.char < 0 then (lex₂ t).2 else t, ?_, ?_⟩
  · unfold Parser.read
    split
    · simp [*, (hsim _ _ h).2]
    · simp [*]
  · rw [Parser.step, Parser.read_withLexer lex₁ lex₂ p t (hsim _ _ h).1, Parser.act_withLexer]
    rfl

/-- Runs from related lexer states end the same way, with related lexer states. -/
theorem Parser.run_withLexer (hsim : ∀ s t, R s t → (lex₁ s).1 = (lex₂ t).1 ∧ R (lex₁ s).2 (lex₂ t).2)
    (fuel : Nat) (p : Parser σ) (t : τ) (h : R p.lexer t) :
    Exec.Sim R (p.run lex₁ fuel) ((p.withLexer t).run lex₂ fuel) := by
  induction fuel generalizing p t with
  | zero => trivial
  | succ fuel ih =>
    obtain ⟨t', hR, hstep⟩ := Parser.step_withLexer lex₁ lex₂ R hsim p t h
    unfold Parser.run
    rw [hstep]
    unfold Parser.step
    cases hs : (p.read lex₁).act with
    | next q => exact ih _ _ (Parser.act_next_lexer hs ▸ hR)
    | ret c q => exact ⟨rfl, rfl, Parser.act_ret_lexer hs ▸ hR⟩
    | panic => trivial

end Simulation

/-! ## 2. What the lexer reads back -/

/-- The bytes after a token: none, or a run that starts with a byte `isSpace` skips. -/
def Separated : List UInt8 → Bool
  | [] => true
  | c :: _ => isSpace c

/-- The keyword tokens, each with its spelling (the text `Lex` stores for it). -/
def keywords : List (Token × List UInt8) :=
  [(.not, ascii "NOT"), (.and, ascii "AND"), (.or, ascii "OR"), (.prox, ascii "PROX")]

/-- A term that reads back as itself when written bare: non-empty, without RE2's `\s` and
without quotes, and not beginning with a keyword. -/
def BareTerm (v : List UInt8) : Prop :=
  v ≠ [] ∧ (∀ c ∈ v, isRegexSpace c = false) ∧ 34 ∉ v ∧ ∀ k ∈ keywords, ¬ k.2 <+: v

instance : DecidablePred BareTerm := fun v =>
  inferInstanceAs (Decidable (v ≠ [] ∧ (∀ c ∈ v, isRegexSpace c = false) ∧ 34 ∉ v ∧
    ∀ k ∈ keywords, ¬ k.2 <+: v))

/-- `Spells t sp rest`: `sp` writes the token `t` when `rest` follows it. A quoted term
allows no quote on the rest of its line. -/
inductive Spells : Token → List UInt8 → List UInt8 → Prop
  | keyword {t : Token} {k : List UInt8} (rest : List UInt8) : (t, k) ∈ keywords → Spells t k rest
  | bare {v : List UInt8} (rest : List UInt8) : BareTerm v → Spells (.term v) v rest
  | quoted {v : List UInt8} (rest : List UInt8) : v.head? ≠ some 34 → v.getLast? ≠ some 34 → 10 ∉ v →
      34 ∉ rest.takeWhile (· != 10) → Spells (.term v) (34 :: v ++ [34]) rest

/-- `Renders s ts`: the bytes `s` write the tokens `ts`, each after a run of bytes `isSpace`
skips, with a non-empty run between two tokens. -/
inductive Renders : List UInt8 → List Token → Prop
  | blank {ws : List UInt8} : (∀ c ∈ ws, isSpace c = true) → Renders ws []
  | token {ws sp rest : List UInt8} {t : Token} {ts : List Token} : (∀ c ∈ ws, isSpace c = true) →
      Spells t sp rest → Separated rest = true → Renders rest ts → Renders (ws ++ sp ++ rest) (t :: ts)

theorem isRegexSpace_of_isSpace {c : UInt8} (h : isSpace c = true) : isRegexSpace c = true := by
  simp only [isSpace, Bool.or_eq_true, beq_iff_eq] at h
  rcases h with (rfl | rfl) | rfl <;> rfl

/-- A keyword, which holds no space, is a prefix of a term and what follows it only if it is
a prefix of the term. -/
theorem isPrefixOf_append_separated {k : List UInt8} (hk : ∀ c ∈ k, isSpace c = false) (v : List UInt8)
    {rest : List UInt8} (hrest : Separated rest = true) : k.isPrefixOf (v ++ rest) = k.isPrefixOf v := by
  induction k generalizing v with
  | nil => simp
  | cons a k ih =>
    simp only [List.mem_cons, forall_eq_or_imp] at hk
    cases v with
    | nil =>
      cases rest with
      | nil => rfl
      | cons c r =>
        have hac : (a == c) = false := by
          simp only [Separated] at hrest
          simpa using fun h => by subst h; simp [hk.1] at hrest
        simp [List.isPrefixOf, hac]
    | cons b v => simp [List.isPrefixOf, ih hk.2 v]

theorem dropWhile_quote_of_head {l : List UInt8} (hl : l.head? ≠ some 34) : l.dropWhile (· == 34) = l := by
  cases l with
  | nil => rfl
  | cons c l =>
    have hc : (c == 34) = false := beq_eq_false_iff_ne.mpr fun h => hl (h ▸ rfl)
    simp [List.dropWhile_cons, hc]

theorem trimQuotes_of_not_mem {v : List UInt8} (hv : 34 ∉ v) : trimQuotes v = v := by
  rw [trimQuotes, dropWhile_quote_of_head fun h => hv (List.mem_of_mem_head? h),
    dropWhile_quote_of_head fun h => hv (List.mem_reverse.mp (List.mem_of_mem_head? h)), List.reverse_reverse]

/-- `strings.Trim(str, "\"")` on a quoted term gives the term back when the term neither
begins nor ends with a quote. -/
theorem trimQuotes_quoted {v : List UInt8} (hh : v.head? ≠ some 34) (hl : v.getLast? ≠ some 34) :
    trimQuotes (34 :: (v ++ [34])) = v := by
  cases v with
  | nil => rfl
  | cons c v =>
    have h1 : (34 :: (c :: v ++ [34])).dropWhile (· == 34) = c :: v ++ [34] :=
      (List.dropWhile_cons_of_pos rfl).trans (dropWhile_quote_of_head hh)
    have h2 : (c :: v ++ [34]).reverse.dropWhile (· == 34) = (c :: v).reverse := by
      rw [List.reverse_append, List.reverse_singleton, List.singleton_append,
        List.dropWhile_cons_of_pos (p := (· == 34)) rfl]
      exact dropWhile_quote_of_head (by rwa [List.head?_reverse])
    rw [trimQuotes, h1, h2, List.reverse_reverse]

theorem keywords_not_space : ∀ k ∈ keywords, ∀ c ∈ k.2, isSpace c = false := by decide

theorem ascii_keywords : ascii "NOT" = [78, 79, 84] ∧ ascii "AND" = [65, 78, 68] ∧
    ascii "OR" = [79, 82] ∧ ascii "PROX" = [80, 82, 79, 88] := ⟨rfl, rfl, rfl, rfl⟩

theorem findQuoted_of_ne {c : UInt8} (hc : c ≠ 34) (l : List UInt8) : findQuoted (c :: l) = [] := by
  simp [findQuoted, hc]

/-- `^\".*\"` on a quoted term: the greedy `.*` stops at the closing quote when no quote
follows on the line. -/
theorem findQuoted_quoted {v rest : List UInt8} (hlf : 10 ∉ v)
    (hline : 34 ∉ rest.takeWhile (· != 10)) : findQuoted (34 :: (v ++ 34 :: rest)) = 34 :: (v ++ [34]) := by
  have htake : (v ++ 34 :: rest).takeWhile (· != 10) = v ++ 34 :: rest.takeWhile (· != 10) := by
    rw [List.takeWhile_append_of_pos fun a ha => by simp only [bne_iff_ne, ne_eq]; rintro rfl; exact hlf ha]
    rfl
  have hdrop : ((rest.takeWhile (· != 10)).reverse ++ 34 :: v.reverse).dropWhile (· != 34) =
      34 :: v.reverse := by
    rw [List.dropWhile_append_of_pos fun a ha => by
      simp only [bne_iff_ne, ne_eq]; rintro rfl; exact hline (List.mem_reverse.mp ha)]
    rfl
  have hrev : (v ++ 34 :: rest.takeWhile (· != 10)).reverse =
      (rest.takeWhile (· != 10)).reverse ++ 34 :: v.reverse := by simp
  rw [findQuoted, htake, hrev, hdrop]
  simp

namespace Spells

variable {t : Token} {sp rest : List UInt8}

/-- A spelling starts with a byte `Lex` does not skip. -/
theorem head (h : Spells t sp rest) : ∃ c sp', sp = c :: sp' ∧ isSpace c = false := by
  cases h with
  | keyword _ hk =>
    simp only [keywords, List.mem_cons, Prod.mk.injEq, List.mem_singleton, List.not_mem_nil, or_false] at hk
    rcases hk with ⟨-, rfl⟩ | ⟨-, rfl⟩ | ⟨-, rfl⟩ | ⟨-, rfl⟩ <;> exact ⟨_, _, rfl, rfl⟩
  | bare _ hv =>
    obtain ⟨c, v, rfl⟩ := List.exists_cons_of_ne_nil hv.1
    refine ⟨c, v, rfl, ?_⟩
    have := hv.2.1 c (List.mem_cons_self _ _)
    cases hs : isSpace c
    · rfl
    · simp [isRegexSpace_of_isSpace hs] at this
  | quoted _ _ _ _ _ => exact ⟨34, _, rfl, rfl⟩

/-- The first rule of `tokens` with a non-empty match reads exactly the spelling, and `Lex`
stores the token's text. -/
theorem firstMatch (h : Spells t sp rest) (hsep : Separated rest = true) :
    MquerySru.firstMatch (sp ++ rest) = some (sp, t.lexeme.code) ∧
      t.lexeme = ⟨t.lexeme.code, some (if t.lexeme.code = TERM then trimQuotes sp else sp)⟩ := by
  obtain ⟨hnot, hand, hor, hprox⟩ := ascii_keywords
  cases h with
  | keyword _ hk =>
    simp only [keywords, List.mem_cons, Prod.mk.injEq, List.mem_singleton, List.not_mem_nil, or_false] at hk
    rcases hk with ⟨rfl, rfl⟩ | ⟨rfl, rfl⟩ | ⟨rfl, rfl⟩ | ⟨rfl, rfl⟩ <;>
      exact ⟨by simp [MquerySru.firstMatch, tokens, findLiteral, hnot, hand, hor, hprox, List.isPrefixOf,
        Token.lexeme], rfl⟩
  | bare _ hv =>
    obtain ⟨hne, hns, hq, hk⟩ := hv
    obtain ⟨c, v, rfl⟩ := List.exists_cons_of_ne_nil hne
    have hlit : ∀ k ∈ keywords, findLiteral k.2 (c :: (v ++ rest)) = [] := fun k hmem => if_neg <| by
      rw [← List.cons_append, isPrefixOf_append_separated (keywords_not_space k hmem) _ hsep]
      exact fun h => hk k hmem (List.isPrefixOf_iff_prefix.mp h)
    simp only [keywords, List.mem_cons, List.mem_singleton, List.not_mem_nil, or_false,
      forall_eq_or_imp, forall_eq] at hlit
    have hc : c ≠ 34 := fun h => hq (h ▸ List.mem_cons_self _ _)
    have hspace : findNonSpace (c :: (v ++ rest)) = c :: v := by
      rw [findNonSpace, ← List.cons_append, List.takeWhile_append_of_pos fun a ha => by simp [hns a ha]]
      cases rest with
      | nil => simp
      | cons b r => simp [isRegexSpace_of_isSpace (show isSpace b = true from hsep)]
    simp [MquerySru.firstMatch, tokens, hlit, findQuoted_of_ne hc, hspace, Token.lexeme,
      trimQuotes_of_not_mem hq]
  | quoted _ hh hl hlf hline =>
    simp [MquerySru.firstMatch, tokens, findLiteral, hnot, hand, hor, hprox, List.isPrefixOf,
      findQuoted_quoted hlf hline, Token.lexeme, trimQuotes_quoted hh hl]

end Spells

/-- One call of `Lex` on a rendering: the token's lexeme, and the rest of the input. -/
theorem lex_spells {ws sp rest : List UInt8} {t : Token} (hws : ∀ c ∈ ws, isSpace c = true)
    (h : Spells t sp rest) (hsep : Separated rest = true) :
    BasicTransformer.lex (ws ++ sp ++ rest) = (t.lexeme, rest) := by
  obtain ⟨hm, hl⟩ := h.firstMatch hsep
  obtain ⟨c, sp', rfl, hc⟩ := h.head
  have hdrop : (ws ++ (c :: sp') ++ rest).dropWhile isSpace = c :: (sp' ++ rest) := by
    rw [List.append_assoc, List.dropWhile_append_of_pos hws, List.cons_append, List.dropWhile_cons, hc]
    rfl
  rw [BasicTransformer.lex, hdrop]
  simp only [← List.cons_append, hm, hl.symm]
  simp

/-- Two quoted terms on one line are read as one term, whatever stands between them: the
greedy `.*` of `^\".*\"` runs to the last quote of the line, and `strings.Trim` keeps the
inner quotes. For `m = " AND "` the query `"v" AND "w"` is the single term `v" AND "w`. -/
theorem lex_quoted_merge {v m w : List UInt8} (hv : v ≠ []) (hw : w ≠ []) (hqv : 34 ∉ v) (hqw : 34 ∉ w)
    (hlf : 10 ∉ v ++ m ++ w) :
    BasicTransformer.lex (34 :: v ++ 34 :: m ++ 34 :: w ++ [34]) =
      (⟨TERM, some (v ++ 34 :: m ++ 34 :: w)⟩, []) := by
  have hh : (v ++ 34 :: m ++ 34 :: w).head? ≠ some 34 := by
    obtain ⟨c, v, rfl⟩ := List.exists_cons_of_ne_nil hv
    exact fun h => hqv (List.mem_of_mem_head? h)
  have hl : (v ++ 34 :: m ++ 34 :: w).getLast? ≠ some 34 := by
    obtain ⟨L, b, rfl⟩ := (List.eq_nil_or_concat w).resolve_left hw
    have hb : b ≠ 34 := fun h => hqw (by simp [h])
    rw [show v ++ 34 :: m ++ 34 :: L.concat b = (v ++ 34 :: m ++ 34 :: L) ++ [b] by simp,
      List.getLast?_concat]
    exact fun h => hb (Option.some.inj h)
  have hlf' : 10 ∉ v ++ 34 :: m ++ 34 :: w := by simpa using hlf
  simpa [Token.lexeme] using @lex_spells [] _ [] _ nofun (Spells.quoted [] hh hl hlf' (by simp)) rfl

theorem lex_quoted_merge_and :
    ascii "a" ≠ [] ∧ ascii "b" ≠ [] ∧ 34 ∉ ascii "a" ∧ 34 ∉ ascii "b" ∧ 10 ∉ ascii "a" ++ ascii " AND " ++ ascii "b" ∧
      BasicTransformer.lex (34 :: ascii "a" ++ 34 :: ascii " AND " ++ 34 :: ascii "b" ++ [34]) =
        (⟨TERM, some (ascii "a" ++ 34 :: ascii " AND " ++ 34 :: ascii "b")⟩, []) :=
  ⟨by decide, by decide, by decide, by decide, by decide,
    lex_quoted_merge (by decide) (by decide) (by decide) (by decide) (by decide)⟩

namespace Renders

variable {s : List UInt8} {ts : List Token}

/-- `Lex` reads a rendering as the token list it renders: one call hands out the next token's
lexeme and leaves a rendering of the rest, or `EOF` with the input exhausted. -/
theorem lex (h : Renders s ts) :
    (BasicTransformer.lex s).1 = (Token.lex ts).1 ∧ Renders (BasicTransformer.lex s).2 (Token.lex ts).2 := by
  cases h with
  | blank hws =>
    have hnil : s.dropWhile isSpace = [] := List.dropWhile_eq_nil_iff.mpr hws
    rw [BasicTransformer.lex, hnil]
    exact ⟨rfl, .blank nofun⟩
  | token hws hsp hsep hrest =>
    rw [lex_spells hws hsp hsep]
    exact ⟨rfl, hrest⟩

theorem length_le (h : Renders s ts) : ts.length ≤ s.length := by
  induction h with
  | blank => simp
  | token _ hsp _ _ ih =>
    obtain ⟨c, sp', rfl, -⟩ := hsp.head
    simp only [List.length_cons, List.length_append]
    omega

end Renders

/-! ## 3. The round trip -/

theorem Parser.Steps.inv {ts : List Token} {n : Nat} {p q : Parser (List Token)}
    (h : Parser.Steps Token.lex n p q) (hp : Inv ts p) : Inv ts q := by
  induction h with
  | refl => exact hp
  | next hs _ ih =>
    have := step_ok hp
    rw [hs] at this
    exact ih this.1

/-- On the token list of a well-formed tree, the run with `NewBasicTransformer`'s fuel accepts
the tree without error. -/
theorem yyParse_yield {t : Node} (hwf : t.wf = true) {fuel : Nat} (hfuel : 5 * t.yield.length < fuel) :
    ∃ q, yyParse Token.lex fuel t.yield = .done (0, q) ∧ q.result = .root t ∧ q.errors = [] := by
  obtain ⟨n, q, hsteps, hacc, hres⟩ := accepts hwf
  have hdone : (Parser.init t.yield).run Token.lex (n + 1) = .done (0, q) := by
    rw [Parser.run_steps hsteps 1, Parser.run, hacc]
  obtain ⟨x, hx⟩ := run_done (init_inv t.yield)
    (show (Parser.init t.yield).measure < fuel by rw [init_measure]; exact hfuel)
  refine ⟨q, ?_, hres, (hsteps.inv (init_inv _)).errors⟩
  rw [yyParse, hx, Parser.run_det hx hdone]

/-- Round trip: every rendering of a well-formed tree (which holds no brackets, since a
rendering writes none) is accepted by `NewBasicTransformer` without error, with the tree as
`parseResult`, and `Generate` folds the tree with the empty attribute. -/
theorem newBasicTransformer_renders {t : Node} (hwf : t.wf = true) {s : List UInt8}
    (hs : Renders s t.yield) (attr : List UInt8) :
    ∃ bt, newBasicTransformer s attr = .done (.ok bt) ∧ bt.parseResult = .root t ∧ bt.errors = [] ∧
      ∀ transform, (bt.generate transform).1 = (transform (.root t) []).1 := by
  have hlen := hs.length_le
  obtain ⟨q, hrun, hres, herr⟩ := yyParse_yield hwf (show 5 * t.yield.length < 5 * s.length + 3 by omega)
  have hsim := Parser.run_withLexer Token.lex BasicTransformer.lex (fun ts s => Renders s ts)
    (fun _ _ h => ⟨h.lex.1.symm, h.lex.2⟩) (5 * s.length + 3) (Parser.init t.yield) s hs
  rw [yyParse] at hrun
  rw [Parser.init_withLexer, hrun] at hsim
  obtain ⟨q', hb, hq', -⟩ := hsim.of_done
  have he : q'.errors = [] := by rw [hq']; exact herr
  have hr : q'.result = .root t := by rw [hq']; exact hres
  refine ⟨⟨q'.lexer, q'.result, [], q'.errors⟩, ?_, hr, he, fun _ => by simp [BasicTransformer.generate, hr]⟩
  unfold newBasicTransformer yyParse
  rw [hb]
  simp only [he]

/-- The query `"a b" AND NOT c`: a quoted term, two keywords and a bare term. -/
theorem newBasicTransformer_renders_quoted :
    (Node.binary .and (.term (ascii "a b")) (.not (.term (ascii "c")))).wf = true ∧
      Renders (ascii "\"a b\" AND NOT c") (Node.binary .and (.term (ascii "a b")) (.not (.term (ascii "c")))).yield ∧
      ∃ bt, newBasicTransformer (ascii "\"a b\" AND NOT c") (ascii "word") = .done (.ok bt) ∧
        bt.parseResult = .root (.binary .and (.term (ascii "a b")) (.not (.term (ascii "c")))) ∧ bt.errors = [] ∧
        ∀ transform, (bt.generate transform).1 =
          (transform (.root (.binary .and (.term (ascii "a b")) (.not (.term (ascii "c"))))) []).1 :=
  have hc : Renders [32, 99] [.term [99]] :=
    @Renders.token [32] [99] [] (.term [99]) [] (by decide) (.bare [] (by decide)) rfl (.blank nofun)
  have hnot : Renders [32, 78, 79, 84, 32, 99] [.not, .term [99]] :=
    @Renders.token [32] [78, 79, 84] _ .not _ (by decide) (.keyword _ (by decide)) rfl hc
  have hand : Renders [32, 65, 78, 68, 32, 78, 79, 84, 32, 99] [.and, .not, .term [99]] :=
    @Renders.token [32] [65, 78, 68] _ .and _ (by decide) (.keyword _ (by decide)) rfl hnot
  have hs : Renders (ascii "\"a b\" AND NOT c")
      (Node.binary .and (.term (ascii "a b")) (.not (.term (ascii "c")))).yield :=
    @Renders.token [] (34 :: [97, 32, 98] ++ [34]) _ (.term [97, 32, 98]) _ nofun
      (.quoted _ (by decide) (by decide) (by decide) (by decide)) rfl hand
  have hwf : (Node.binary .and (.term (ascii "a b")) (.not (.term (ascii "c")))).wf = true := rfl
  ⟨hwf, hs, newBasicTransformer_renders hwf hs (ascii "word")⟩

end MquerySru