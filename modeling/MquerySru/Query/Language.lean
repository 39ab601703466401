import MquerySru.Query.Termination

/-!
# The language of the translator

`NewBasicTransformer` is `basicTransformer.Lex` followed by `yyParse`. Every input has a
token stream (`Lexes`, from `Termination`), and `yyParse` sees the lexer only through the
lexemes it hands out (`Parser.run_withLexer`). So on every byte string the translator does
what the grammar says of the token stream:

* `newBasicTransformer_language`: when the stream is the yield of a well-formed tree, the
  translator returns that tree, the only one (`Node.eq_of_yield_eq`), without error; when it
  is the yield of none, the translator returns the parser's error.
* `newBasicTransformer_keyword_prefix`: the keyword rules `^NOT`, `^AND`, `^OR` and `^PROX`
  are anchored only at the start, so an upper-case word that begins with a keyword is split
  (`lex_keyword`). `NOTICE` is read as `NOT ICE`, and a query whose first word begins with
  `AND`, `OR` or `PROX` (`ORACLE`, `ANDROID`, `PROXY`) is rejected, whatever follows.
* `newBasicTransformer_paren_free`: the fallback of `Lex` hands out a single byte only for a
  form feed or a carriage return (`BasicTransformer.lex_byte`); `^[\S]*` reads `(` and `)` into
  a term. So the grammar's `'(' node ')'` never fires, and no tree the translator returns holds
  a parenthesis.
* `newBasicTransformer_stray_byte`: no tree is written with a form feed or a carriage return
  (`Node.yield_byte`), so an input whose token stream holds one, such as a query ending in a
  Windows line ending, is rejected.
-/

namespace MquerySru

/-! ## 1. Trees and their yields -/

/-- A well-formed tree is written with at least one token, and its first token is a term,
`NOT` or `(`, never the keyword of a binary operator. -/
theorem Node.yield_head {t : Node} (hwf : t.wf = true) :
    ∃ x rest, t.yield = x :: rest ∧ ∀ b : BinOp, x ≠ b.token := by
  induction t with
  | nil => cases hwf
  | root => cases hwf
  | term v => exact ⟨_, _, rfl, fun b => by cases b <;> nofun⟩
  | paren c _ => exact ⟨_, _, rfl, fun b => by cases b <;> nofun⟩
  | not c _ => exact ⟨_, _, rfl, fun b => by cases b <;> nofun⟩
  | binary op l r ihl _ =>
    simp only [Node.wf, Bool.and_eq_true] at hwf
    obtain ⟨x, rest, hl, hx⟩ := ihl hwf.1.1
    exact ⟨x, rest ++ op.token :: r.yield, by simp [Node.yield, hl], hx⟩

/-- The grammar is unambiguous: two well-formed trees with the same yield are equal. The
parser is deterministic and accepts each tree's yield with that tree as its result. -/
theorem Node.eq_of_yield_eq {t t' : Node} (hwf : t.wf = true) (hwf' : t'.wf = true)
    (hy : t.yield = t'.yield) : t = t' := by
  obtain ⟨q, hrun, hres, -⟩ := yyParse_yield hwf (Nat.lt_succ_self (5 * t.yield.length))
  obtain ⟨q', hrun', hres', -⟩ := yyParse_yield hwf' (Nat.lt_succ_self (5 * t'.yield.length))
  rw [← hy] at hrun'
  obtain rfl := (Prod.mk.inj (Exec.done.inj (hrun.symm.trans hrun'))).2
  exact Node.root.inj (hres.symm.trans hres')

/-! ## 2. The translator on the token stream -/

namespace Lexes

variable {s : List UInt8} {ts : List Token}

/-- The token stream of an input is no longer than the input. -/
theorem length_le (h : Lexes s ts) : ts.length ≤ s.length := by
  induction h with
  | eof => exact Nat.zero_le _
  | @token s t ts ht _ ih =>
    rcases BasicTransformer.lex_progress s with h | ⟨t', consumed, -, hne, hs⟩
    · have hpos := (Token.code_pos t).1
      rw [← ht, h] at hpos
      exact absurd hpos (by decide)
    · have := BasicTransformer.lex_length_lt hne hs
      simp only [List.length_cons]
      omega

/-- The run on the bytes ends as the run on their token stream, with the same parser but
for the lexer state. -/
theorem yyParse {c : Nat} {q : Parser (List Token)} (h : Lexes s ts)
    (hrun : MquerySru.yyParse Token.lex (5 * s.length + 3) ts = .done (c, q)) :
    ∃ q', MquerySru.yyParse BasicTransformer.lex (5 * s.length + 3) s = .done (c, q') ∧
      q' = q.withLexer q'.lexer := by
  have hsim := Parser.run_withLexer Token.lex BasicTransformer.lex (fun ts s => Lexes s ts)
    (fun _ _ h => ⟨h.lex.1.symm, h.lex.2⟩) (5 * s.length + 3) (Parser.init ts) s h
  rw [MquerySru.yyParse] at hrun
  rw [Parser.init_withLexer, hrun] at hsim
  obtain ⟨q', hb, hq', -⟩ := hsim.of_done
  exact ⟨q', hb, hq'⟩

end Lexes

/-- `NewBasicTransformer` after a run: the run's first error, or the transformer. -/
theorem newBasicTransformer_of_run {s attr : List UInt8} {c : Nat} {q : Parser (List UInt8)}
    (h : yyParse BasicTransformer.lex (5 * s.length + 3) s = .done (c, q)) :
    newBasicTransformer s attr = .done (match q.errors with
      | e :: _ => .error e
      | [] => .ok ⟨q.lexer, q.result, [], q.errors⟩) := by
  unfold newBasicTransformer
  exact h ▸ rfl

/-- When the token stream is the yield of a well-formed tree, the translator returns that
tree without error. -/
theorem newBasicTransformer_tree {s : List UInt8} {ts : List Token} (hts : Lexes s ts) {t : Node}
    (hwf : t.wf = true) (hy : t.yield = ts) (attr : List UInt8) :
    ∃ bt, newBasicTransformer s attr = .done (.ok bt) ∧ bt.parseResult = .root t ∧ bt.errors = [] := by
  obtain ⟨q, hrun, hres, herr⟩ := yyParse_yield hwf
    (show 5 * t.yield.length < 5 * s.length + 3 by have := hts.length_le; subst hy; omega)
  obtain ⟨q', hb, hq'⟩ := hts.yyParse (hy ▸ hrun)
  have he : q'.errors = [] := by rw [hq']; exact herr
  exact ⟨⟨q'.lexer, q'.result, [], q'.errors⟩, (newBasicTransformer_of_run hb).trans (by rw [he]),
    by rw [hq']; exact hres, he⟩

/-- When the token stream is the yield of no well-formed tree, the translator returns the
parser's error. -/
theorem newBasicTransformer_no_tree {s : List UInt8} {ts : List Token} (hts : Lexes s ts)
    (hno : ∀ t : Node, t.wf = true → t.yield ≠ ts) (attr : List UInt8) :
    ∃ m, newBasicTransformer s attr = .done (.error m) := by
  obtain ⟨⟨c, q⟩, hdone⟩ := run_done (init_inv ts)
    (show (Parser.init ts).measure < 5 * s.length + 3 by rw [init_measure]; have := hts.length_le; omega)
  have hok := run_ok (5 * s.length + 3) (init_inv ts)
  rw [hdone] at hok
  rcases hok with ⟨-, t, hwf, hy, -⟩ | ⟨rfl, ⟨m, hm⟩, -⟩
  · exact absurd hy (hno t hwf)
  · obtain ⟨q', hb, hq'⟩ := hts.yyParse hdone
    have he : q'.errors = [m] := by rw [hq']; exact hm
    exact ⟨m, (newBasicTransformer_of_run hb).trans (by rw [he])⟩

/-- The translator on every input: with `ts` the lexer's token stream of `s`, either `ts` is the
yield of a well-formed tree, the only one, and `NewBasicTransformer` returns that tree without
error; or `ts` is the yield of no well-formed tree and it returns an error. -/
theorem newBasicTransformer_language {s : List UInt8} {ts : List Token} (hts : Lexes s ts) (attr : List UInt8) :
    (∃ t : Node, t.wf = true ∧ t.yield = ts ∧ (∀ t' : Node, t'.wf = true → t'.yield = ts → t' = t) ∧
        ∃ bt, newBasicTransformer s attr = .done (.ok bt) ∧ bt.parseResult = .root t ∧ bt.errors = []) ∨
      ((∀ t : Node, t.wf = true → t.yield ≠ ts) ∧ ∃ m, newBasicTransformer s attr = .done (.error m)) := by
  by_cases h : ∃ t : Node, t.wf = true ∧ t.yield = ts
  · obtain ⟨t, hwf, hy⟩ := h
    exact .inl ⟨t, hwf, hy, fun t' hwf' hy' => Node.eq_of_yield_eq hwf' hwf (hy'.trans hy.symm),
      newBasicTransformer_tree hts hwf hy attr⟩
  · have hno : ∀ t : Node, t.wf = true → t.yield ≠ ts := fun t hwf hy => h ⟨t, hwf, hy⟩
    exact .inr ⟨hno, newBasicTransformer_no_tree hts hno attr⟩

theorem newBasicTransformer_language_term :
    Lexes (ascii "a b") [.term (ascii "a"), .term (ascii "b")] ∧
      ((∃ t : Node, t.wf = true ∧ t.yield = [.term (ascii "a"), .term (ascii "b")] ∧
          (∀ t' : Node, t'.wf = true → t'.yield = [.term (ascii "a"), .term (ascii "b")] → t' = t) ∧
          ∃ bt, newBasicTransformer (ascii "a b") (ascii "word") = .done (.ok bt) ∧ bt.parseResult = .root t ∧
            bt.errors = []) ∨
        ((∀ t : Node, t.wf = true → t.yield ≠ [.term (ascii "a"), .term (ascii "b")]) ∧
          ∃ m, newBasicTransformer (ascii "a b") (ascii "word") = .done (.error m))) :=
  have hts : Lexes (ascii "a b") [.term (ascii "a"), .term (ascii "b")] :=
    .token rfl (.token rfl (.eof rfl))
  ⟨hts, newBasicTransformer_language hts (ascii "word")⟩

/-! ## 3. Words that begin with a keyword -/

/-- The keyword rules are anchored only at the start: `Lex` reads a keyword off the front of
the input whatever follows it. -/
theorem lex_keyword {ws : List UInt8} (hws : ∀ c ∈ ws, isSpace c = true) {t : Token} {k : List UInt8}
    (hk : (t, k) ∈ keywords) (rest : List UInt8) :
    BasicTransformer.lex (ws ++ k ++ rest) = (t.lexeme, rest) := by
  obtain ⟨hnot, hand, hor, hprox⟩ := ascii_keywords
  obtain ⟨c, k', rfl, hc⟩ := (Spells.keyword rest hk).head
  have hdrop : (ws ++ c :: k' ++ rest).dropWhile isSpace = c :: (k' ++ rest) := by
    rw [List.append_assoc, List.dropWhile_append_of_pos hws, List.cons_append, List.dropWhile_cons, hc]
    rfl
  rw [BasicTransformer.lex, hdrop]
  simp only [keywords, List.mem_cons, Prod.mk.injEq, List.mem_singleton, List.not_mem_nil, or_false] at hk
  rcases hk with ⟨rfl, h⟩ | ⟨rfl, h⟩ | ⟨rfl, h⟩ | ⟨rfl, h⟩ <;>
    simp only [hnot, hand, hor, hprox, List.cons.injEq] at h <;> obtain ⟨rfl, rfl⟩ := h <;>
    simp [firstMatch, tokens, findLiteral, List.isPrefixOf, Token.lexeme, hnot, hand, hor, hprox, NOT, AND,
      OR, PROX, TERM]

/-- An upper-case word that begins with a keyword is split by the lexer. `NOT` followed by a
bare word `w` is read as the negation of `w`, and a query whose first word begins with `AND`,
`OR` or `PROX` is rejected, whatever follows. -/
theorem newBasicTransformer_keyword_prefix {ws : List UInt8} (hws : ∀ c ∈ ws, isSpace c = true)
    (w attr : List UInt8) :
    (BareTerm w → ∃ bt, newBasicTransformer (ws ++ ascii "NOT" ++ w) attr = .done (.ok bt) ∧
        bt.parseResult = .root (.not (.term w)) ∧ bt.errors = []) ∧
      ∀ (b : BinOp) (k : List UInt8), (b.token, k) ∈ keywords →
        ∃ m, newBasicTransformer (ws ++ k ++ w) attr = .done (.error m) := by
  refine ⟨fun hw => ?_, fun b k hk => ?_⟩
  · have hnot : (Token.not, ascii "NOT") ∈ keywords := List.mem_cons_self _ _
    have hlex : BasicTransformer.lex w = ((Token.term w).lexeme, []) := by
      simpa using lex_spells (List.forall_mem_nil _) (Spells.bare [] hw) rfl
    have hts : Lexes (ws ++ ascii "NOT" ++ w) [.not, .term w] := by
      refine .token (by rw [lex_keyword hws hnot w]) ?_
      rw [lex_keyword hws hnot w]
      exact .token (by rw [hlex]) (by rw [hlex]; exact .eof rfl)
    exact newBasicTransformer_tree hts (by simp [Node.isBinary]) (show Node.yield (.not (.term w)) = _ from rfl) attr
  · obtain ⟨ts, hts, -⟩ := exists_lexes w
    have hstream : Lexes (ws ++ k ++ w) (b.token :: ts) := by
      refine .token (by rw [lex_keyword hws hk w]) ?_
      rw [lex_keyword hws hk w]
      exact hts
    refine newBasicTransformer_no_tree hstream (fun t hwf hy => ?_) attr
    obtain ⟨x, rest, hx, hne⟩ := Node.yield_head hwf
    rw [hx, List.cons.injEq] at hy
    exact hne b hy.1

/-- `NOTICE` is read as `NOT ICE`. -/
theorem newBasicTransformer_keyword_prefix_notice :
    (∀ c ∈ ([] : List UInt8), isSpace c = true) ∧
      (BareTerm (ascii "ICE") → ∃ bt, newBasicTransformer ([] ++ ascii "NOT" ++ ascii "ICE") (ascii "word") =
          .done (.ok bt) ∧ bt.parseResult = .root (.not (.term (ascii "ICE"))) ∧ bt.errors = []) ∧
        ∀ (b : BinOp) (k : List UInt8), (b.token, k) ∈ keywords →
          ∃ m, newBasicTransformer ([] ++ k ++ ascii "ICE") (ascii "word") = .done (.error m) :=
  ⟨List.forall_mem_nil _, newBasicTransformer_keyword_prefix (List.forall_mem_nil _) (ascii "ICE") (ascii "word")⟩

/-! ## 4. Parentheses never reach the parser -/

/-- The tree has no `parenNode`. -/
def Node.parenFree : Node → Bool
  | .paren _ => false
  | .not c | .root c => c.parenFree
  | .binary _ l r => l.parenFree && r.parenFree
  | .nil | .term _ => true

/-- The bytes of RE2's `\s` that `isSpace` does not skip: a form feed and a carriage return. -/
theorem isRegexSpace_of_not_isSpace {c : UInt8} (h : isRegexSpace c = true) (h' : isSpace c = false) :
    c = 12 ∨ c = 13 := by
  simp only [isRegexSpace, Bool.or_eq_true, beq_iff_eq] at h
  rcases h with (((rfl | rfl) | rfl) | rfl) | rfl <;> revert h' <;> decide

/-- The single-byte fallback of `Lex` only hands out a form feed or a carriage return: every
other byte is skipped by `isSpace` or starts a match of `^[\S]*`. -/
theorem BasicTransformer.lex_byte {s : List UInt8} {b : UInt8} {hb : b ≠ 0}
    (h : (BasicTransformer.lex s).1 = (Token.byte b hb).lexeme) : b = 12 ∨ b = 13 := by
  unfold BasicTransformer.lex at h
  split at h
  · have : b.toNat = 0 := by simp [Token.lexeme, EOF] at h; omega
    exact absurd (@UInt8.toNat.inj b 0 this) hb
  · rename_i c rest hd
    split at h
    · simp [Token.lexeme] at h
    · rename_i hm
      obtain rfl : c = b := UInt8.toNat.inj (by simp [Token.lexeme] at h; omega)
      have hc := List.head_dropWhile_not isSpace s (by simp [hd])
      simp only [hd, List.head_cons] at hc
      exact isRegexSpace_of_not_isSpace (firstMatch_none hm) hc

/-- Every byte token of a token stream is a form feed or a carriage return. -/
theorem Lexes.byte {s : List UInt8} {ts : List Token} (h : Lexes s ts) {b : UInt8} {hb : b ≠ 0}
    (hmem : Token.byte b hb ∈ ts) : b = 12 ∨ b = 13 := by
  induction h with
  | eof => cases hmem
  | token ht _ ih =>
    rcases List.mem_cons.mp hmem with rfl | hmem
    · exact BasicTransformer.lex_byte ht
    · exact ih hmem

/-- The only byte tokens of the grammar are `(` and `)`. -/
theorem Node.yield_byte {t : Node} {b : UInt8} {hb : b ≠ 0} (hmem : Token.byte b hb ∈ t.yield) :
    b = 40 ∨ b = 41 := by
  induction t with
  | nil | term => simp [Node.yield] at hmem
  | paren c ih =>
    simp only [Node.yield, Token.lparen, Token.rparen, List.cons_append, List.mem_cons, List.mem_append,
      List.mem_singleton, Token.byte.injEq, List.not_mem_nil, or_false] at hmem
    rcases hmem with rfl | hmem | rfl
    · exact .inl rfl
    · exact ih hmem
    · exact .inr rfl
  | not c ih => exact ih (by simpa [Node.yield] using hmem)
  | binary op l r ihl ihr =>
    simp only [Node.yield, List.mem_append, List.mem_cons] at hmem
    rcases hmem with hmem | hmem | hmem
    · exact ihl hmem
    · cases op <;> cases hmem
    · exact ihr hmem
  | root c ih => exact ih hmem

/-- A tree with a `parenNode` is written with a `(`. -/
theorem Node.lparen_mem {t : Node} (h : t.parenFree = false) : Token.lparen ∈ t.yield := by
  induction t with
  | nil | term => cases h
  | paren c => exact List.mem_cons_self _ _
  | not c ih => exact List.mem_cons_of_mem _ (ih h)
  | binary op l r ihl ihr =>
    simp only [Node.parenFree, Bool.and_eq_false_iff] at h
    simp only [Node.yield, List.mem_append, List.mem_cons]
    rcases h with h | h
    · exact .inl (ihl h)
    · exact .inr (.inr (ihr h))
  | root c ih => exact ih h

/-- No tree the translator returns holds a parenthesis: `Lex` never hands out `(` or `)`,
which `^[\S]*` reads into a term, so the grammar's rule `'(' node ')'` never fires. -/
theorem newBasicTransformer_paren_free {s attr : List UInt8} {bt : BasicTransformer}
    (h : newBasicTransformer s attr = .done (.ok bt)) :
    ∃ t : Node, t.wf = true ∧ t.parenFree = true ∧ bt.parseResult = .root t := by
  obtain ⟨ts, hts, -⟩ := exists_lexes s
  rcases newBasicTransformer_language hts attr with ⟨t, hwf, hy, -, bt', hbt', hres, -⟩ | ⟨-, m, hm⟩
  · obtain rfl : bt = bt' := by simpa [h] using hbt'
    refine ⟨t, hwf, ?_, hres⟩
    cases hp : t.parenFree
    · have := hts.byte (hy ▸ Node.lparen_mem hp)
      simp at this
    · rfl
  · cases h.symm.trans hm

theorem newBasicTransformer_paren_free_term :
    newBasicTransformer (ascii "(a)") (ascii "word") = .done (.ok ⟨[], .root (.term (ascii "(a)")), [], []⟩) ∧
      ∃ t : Node, t.wf = true ∧ t.parenFree = true ∧
        (⟨[], .root (.term (ascii "(a)")), [], []⟩ : BasicTransformer).parseResult = .root t :=
  ⟨rfl, @newBasicTransformer_paren_free (ascii "(a)") (ascii "word") _ rfl⟩

/-- A form feed or a carriage return outside a quoted term reaches the parser as a byte token,
and no tree is written with one: the translator rejects every input whose token stream holds a
byte token, and each such token is a form feed or a carriage return. -/
theorem newBasicTransformer_stray_byte {s : List UInt8} {ts : List Token} (hts : Lexes s ts)
    {b : UInt8} {hb : b ≠ 0} (hmem : Token.byte b hb ∈ ts) (attr : List UInt8) :
    (b = 12 ∨ b = 13) ∧ ∃ m, newBasicTransformer s attr = .done (.error m) := by
  refine ⟨hts.byte hmem, newBasicTransformer_no_tree hts (fun t _ hy => ?_) attr⟩
  rcases hts.byte hmem with rfl | rfl <;> rcases Node.yield_byte (hy ▸ hmem) with h | h <;> cases h

/-- A query that ends in a Windows line ending is rejected. -/
theorem newBasicTransformer_stray_byte_crlf :
    Lexes (ascii "a\r\n") [.term (ascii "a"), .byte 13 (by decide)] ∧
      Token.byte 13 (by decide) ∈ [Token.term (ascii "a"), .byte 13 (by decide)] ∧
      ((13 : UInt8) = 12 ∨ (13 : UInt8) = 13) ∧
        ∃ m, newBasicTransformer (ascii "a\r\n") (ascii "word") = .done (.error m) :=
  have hts : Lexes (ascii "a\r\n") [.term (ascii "a"), .byte 13 (by decide)] := .token rfl (.token rfl (.eof rfl))
  have hmem : Token.byte 13 (by decide) ∈ [Token.term (ascii "a"), .byte 13 (by decide)] := by simp
  ⟨hts, hmem, newBasicTransformer_stray_byte hts hmem (ascii "word")⟩

end MquerySru
