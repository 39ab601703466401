import MquerySru.Query.RoundTrip

/-!
# The translator terminates on every input

`basicTransformer.Lex` never stalls. A call either returns `EOF` with the input exhausted, or
hands out a token's lexeme after removing at least one byte (`BasicTransformer.lex_progress`).
The catch-all rule `^[\S]*` matches the empty string before a carriage return or a form feed;
`tokens` skips empty matches, and the single-byte fallback then consumes that byte, which
reaches the parser as a byte token.

So every input has a token stream no longer than itself (`Lexes`, `exists_lexes`), and `Lex`
returns `EOF` after at most `len(s) + 1` calls (`Lexes.afterLex_eof`). `yyParse` only sees the
lexemes (`Parser.run_withLexer`), so on the bytes it runs as on the token stream, and there
`ParserInvariant`'s measure bounds the passes by the fuel of `NewBasicTransformer`
(`newBasicTransformer_terminates`).
-/

namespace MquerySru

/-! ## 1. One call of `Lex` -/

theorem findLiteral_of_ne_nil {lit s : List UInt8} (h : findLiteral lit s ≠ []) : findLiteral lit s = lit := by
  unfold findLiteral at *
  split <;> simp_all

/-- A match of `tokens` is never empty, and the lexeme `Lex` builds from it is a keyword's or a
term's. -/
theorem firstMatch_lexeme {input str : List UInt8} {tok : Int} (h : firstMatch input = some (str, tok)) :
    str ≠ [] ∧ ∃ t : Token, (⟨tok, some (if tok = TERM then trimQuotes str else str)⟩ : Lexeme) = t.lexeme := by
  obtain ⟨d, hd, hf⟩ := List.exists_of_findSome?_eq_some h
  simp only [Option.ite_none_left_eq_some, Option.some.injEq, Prod.mk.injEq, List.isEmpty_iff] at hf
  obtain ⟨hne, rfl, rfl⟩ := hf
  refine ⟨hne, ?_⟩
  simp only [tokens, List.mem_cons, List.mem_singleton, List.not_mem_nil, or_false] at hd
  rcases hd with rfl | rfl | rfl | rfl | rfl | rfl
  · exact ⟨.not, by simp [findLiteral_of_ne_nil hne, Token.lexeme, NOT, TERM]⟩
  · exact ⟨.and, by simp [findLiteral_of_ne_nil hne, Token.lexeme, AND, TERM]⟩
  · exact ⟨.or, by simp [findLiteral_of_ne_nil hne, Token.lexeme, OR, TERM]⟩
  · exact ⟨.prox, by simp [findLiteral_of_ne_nil hne, Token.lexeme, PROX, TERM]⟩
  all_goals exact ⟨.term _, rfl⟩

/-- `tokens` has no match only before a byte of RE2's `\s`: `^[\S]*` matches every other
byte. -/
theorem firstMatch_none {c : UInt8} {rest : List UInt8} (h : firstMatch (c :: rest) = none) :
    isRegexSpace c = true := by
  have := List.findSome?_eq_none_iff.mp h ⟨findNonSpace, TERM⟩ (by simp [tokens])
  simpa [findNonSpace, List.takeWhile_cons] using this

/-- One call of `Lex` either returns `EOF` with the input exhausted, or hands out a token's
lexeme after removing at least one byte from the front of the input. -/
theorem BasicTransformer.lex_progress (s : List UInt8) :
    BasicTransformer.lex s = (⟨EOF, none⟩, []) ∨
      ∃ (t : Token) (consumed : List UInt8), (BasicTransformer.lex s).1 = t.lexeme ∧ consumed ≠ [] ∧
        s = consumed ++ (BasicTransformer.lex s).2 := by
  have hs := List.takeWhile_append_dropWhile isSpace s
  unfold BasicTransformer.lex
  split
  · exact .inl rfl
  · rename_i c rest hd
    rw [hd] at hs
    split
    · rename_i str tok hm
      obtain ⟨hne, t, ht⟩ := firstMatch_lexeme hm
      refine .inr ⟨t, s.takeWhile isSpace ++ (c :: rest).take str.length, ht, ?_, ?_⟩
      · obtain ⟨x, xs, rfl⟩ := List.exists_cons_of_ne_nil hne
        simp
      · rw [List.append_assoc, List.take_append_drop, hs]
    · rename_i hm
      have hc : c ≠ 0 := by
        rintro rfl
        exact absurd (firstMatch_none hm) (by decide)
      exact .inr ⟨.byte c hc, s.takeWhile isSpace ++ [c], rfl, by simp,
        by rw [List.append_assoc, List.singleton_append, hs]⟩

/-- A carriage return reaches the parser as its own byte token. -/
example : BasicTransformer.lex [13, 97] = (⟨13, none⟩, [97]) := rfl

theorem BasicTransformer.lex_length_lt {s consumed : List UInt8}
    (hne : consumed ≠ []) (hs : s = consumed ++ (BasicTransformer.lex s).2) :
    (BasicTransformer.lex s).2.length < s.length := by
  have := congrArg List.length hs
  have := List.length_pos.mpr hne
  simp only [List.length_append] at *
  omega

/-! ## 2. The token stream of an input -/

/-- `Lexes s ts`: calling `Lex` again and again on `s` hands out the lexemes of `ts`, then
`EOF` with the input exhausted. -/
inductive Lexes : List UInt8 → List Token → Prop
  | eof {s : List UInt8} : BasicTransformer.lex s = (⟨EOF, none⟩, []) → Lexes s []
  | token {s : List UInt8} {t : Token} {ts : List Token} :
      (BasicTransformer.lex s).1 = t.lexeme → Lexes (BasicTransformer.lex s).2 ts → Lexes s (t :: ts)

/-- `t.input` after `k` calls of `Lex`. -/
def BasicTransformer.afterLex : Nat → List UInt8 → List UInt8
  | 0, s => s
  | k + 1, s => BasicTransformer.afterLex k (BasicTransformer.lex s).2

namespace Lexes

variable {s : List UInt8} {ts : List Token}

/-- `Lex` on `s` and the token list `ts` read as a lexer hand out the same lexeme and stay
related. -/
theorem lex (h : Lexes s ts) :
    (BasicTransformer.lex s).1 = (Token.lex ts).1 ∧ Lexes (BasicTransformer.lex s).2 (Token.lex ts).2 := by
  cases h with
  | eof h => exact ⟨by rw [h]; rfl, by rw [h]; exact .eof rfl⟩
  | token ht hts => exact ⟨ht, hts⟩

/-- After one call per token, `Lex` returns `EOF` on an exhausted input. -/
theorem afterLex_eof (h : Lexes s ts) : BasicTransformer.lex (BasicTransformer.afterLex ts.length s) = (⟨EOF, none⟩, []) := by
  induction h with
  | eof h => exact h
  | token _ _ ih => exact ih

end Lexes

/-- Every input has a token stream, no longer than the input: each call of `Lex` before `EOF`
removes at least one byte. -/
theorem exists_lexes (s : List UInt8) : ∃ ts, Lexes s ts ∧ ts.length ≤ s.length := by
  obtain ⟨n, hn⟩ : ∃ n, s.length = n := ⟨_, rfl⟩
  induction n using Nat.strong_induction_on generalizing s with
  | _ n ih =>
    rcases BasicTransformer.lex_progress s with h | ⟨t, consumed, ht, hne, hs⟩
    · exact ⟨[], .eof h, Nat.zero_le _⟩
    · have hlt := BasicTransformer.lex_length_lt hne hs
      obtain ⟨ts, hts, hlen⟩ := ih _ (hn ▸ hlt) _ rfl
      exact ⟨t :: ts, .token ht hts, by simp only [List.length_cons]; omega⟩

/-! ## 3. Termination -/

/-- `yyParse`, driven by `Lex`, stops within the fuel of `NewBasicTransformer`. -/
theorem newBasicTransformer_done (s attr : List UInt8) : ∃ x, newBasicTransformer s attr = .done x := by
  obtain ⟨ts, hts, hlen⟩ := exists_lexes s
  have hsim := Parser.run_withLexer Token.lex BasicTransformer.lex (fun ts s => Lexes s ts)
    (fun _ _ h => ⟨h.lex.1.symm, h.lex.2⟩) (5 * s.length + 3) (Parser.init ts) s hts
  obtain ⟨⟨c, q⟩, hdone⟩ := run_done (init_inv ts) (show (Parser.init ts).measure < 5 * s.length + 3 by
    rw [init_measure]; omega)
  rw [Parser.init_withLexer, hdone] at hsim
  obtain ⟨q', hb, -⟩ := hsim.of_done
  unfold newBasicTransformer yyParse
  rw [hb]
  exact ⟨_, rfl⟩

/-- The lexer makes progress on every input, reaches `EOF` after at most `len(s) + 1` calls, and
`NewBasicTransformer` returns on every input. -/
theorem newBasicTransformer_terminates (s : List UInt8) :
    (BasicTransformer.lex s = (⟨EOF, none⟩, []) ∨
      ∃ (t : Token) (consumed : List UInt8), (BasicTransformer.lex s).1 = t.lexeme ∧ consumed ≠ [] ∧
        s = consumed ++ (BasicTransformer.lex s).2) ∧
    (∃ k ≤ s.length, BasicTransformer.lex (BasicTransformer.afterLex k s) = (⟨EOF, none⟩, [])) ∧
    ∀ attr, ∃ x, newBasicTransformer s attr = .done x :=
  let ⟨ts, hts, hlen⟩ := exists_lexes s
  ⟨BasicTransformer.lex_progress s, ⟨ts.length, hlen, hts.afterLex_eof⟩, newBasicTransformer_done s⟩

end MquerySru
