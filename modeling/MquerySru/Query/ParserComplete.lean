import MquerySru.Query.ParserInvariant

/-!
# Completeness of `yyParse` on a token list, and the grammar theorem

`ParserInvariant` shows that a run never panics and that what it accepts is the yield of a
well-formed tree. Here the converse: `parses` follows the shape of a well-formed tree and
drives the loop through the tree's yield pass by pass (`Parser.Steps`), with one lemma per
constructor (`parses_term`, `parses_not`, `parses_paren`, `parses_binary`) built on two step
lemmas, `step_shift` and `step_reduce_node`. `accepts` adds the final reduction of rule 1
and the accept in state 1.

`yyParse_decides` puts the two halves together: every run on a token list ends without a
panic, the same way for all fuel above `5 * ts.length`, and accepts exactly the yields of
well-formed trees, each with its one tree.
-/

namespace MquerySru

/-! ## Runs of several passes -/

/-- `Steps lex n p q`: `n` passes of the loop lead from `p` to `q`. -/
inductive Parser.Steps {σ : Type} (lex : σ → Lexeme × σ) : Nat → Parser σ → Parser σ → Prop
  | refl (p : Parser σ) : Parser.Steps lex 0 p p
  | next {n : Nat} {p q r : Parser σ} :
      p.step lex = .next q → Parser.Steps lex n q r → Parser.Steps lex (n + 1) p r

section Steps

variable {σ : Type} {lex : σ → Lexeme × σ}

theorem Parser.Steps.trans {n m : Nat} {p q r : Parser σ} (h : Parser.Steps lex n p q)
    (h' : Parser.Steps lex m q r) : Parser.Steps lex (n + m) p r := by
  induction h with
  | refl => simpa using h'
  | next hs _ ih => rw [Nat.add_right_comm]; exact .next hs (ih h')

theorem Parser.Steps.single {p q : Parser σ} (h : p.step lex = .next q) :
    Parser.Steps lex 1 p q := .next h (.refl q)

theorem Parser.run_steps {n : Nat} {p q : Parser σ} (h : Parser.Steps lex n p q) (f : Nat) :
    p.run lex (n + f) = q.run lex f := by
  induction h with
  | refl => simp
  | next hs _ ih => rw [Nat.add_right_comm, Parser.run, hs]; exact ih

/-- More fuel does not change a run that ended. -/
theorem Parser.run_mono {f : Nat} {p : Parser σ} (h : p.run lex f ≠ .outOfFuel) (k : Nat) :
    p.run lex (f + k) = p.run lex f := by
  induction f generalizing p with
  | zero => exact absurd rfl h
  | succ f ih =>
    rw [Nat.add_right_comm]
    unfold Parser.run at h ⊢
    cases hs : p.step lex with
    | next q => rw [hs] at h; exact ih h
    | ret c q => rfl
    | panic => rfl

theorem Parser.step_of_nonneg {p : Parser σ} (h : 0 ≤ p.char) : p.step lex = p.act := by
  simp [Parser.step, h]

theorem Parser.act_shift_eq {p : Parser σ} {k : Nat} (hs : p.top.yys < 15)
    (ha : yyAction (row p.top.yys) (xchar p.char) = k) (hk : 0 < k) :
    p.act = .next (p.shift k) := by
  simp [Parser.act, getElem?_yyParseTab hs, ha, hk]

theorem Parser.act_reduce_eq {p : Parser σ} {r : Nat} (hs : p.top.yys < 15)
    (ha : yyAction (row p.top.yys) (xchar p.char) = -(r : Int)) (hr : 0 < r) :
    p.act = p.reduce r := by
  simp [Parser.act, getElem?_yyParseTab hs, ha, hr, show ¬(0 : Int) < -r by omega,
    show -(r : Int) < 0 by omega]

end Steps

/-! ## The lookahead of a token list -/

/-- The code of the next token of a list, `$end` at its end. -/
def laCode : List Token → Int
  | [] => yyEofCode
  | t :: _ => t.lexeme.code

theorem laCode_nonneg (ts : List Token) : 0 ≤ laCode ts := by
  cases ts with
  | nil => decide
  | cons t _ => have := t.code_pos; simp only [laCode]; omega

theorem read_list {p : Parser (List Token)} (h : p.char < 0) :
    p.read Token.lex =
      { p with
        char := laCode p.lexer
        lval := (Token.lex p.lexer).1.text.getD p.lval
        lexer := p.lexer.drop 1 } := by
  rw [Parser.read_of_neg _ h]
  cases hl : p.lexer with
  | nil => simp [Token.lex, laCode, yylex1, EOF]
  | cons t tl =>
    have := t.code_pos
    simp [Token.lex, laCode, yylex1, show ¬t.lexeme.code ≤ 0 by omega]

/-- The tokens that may follow a complete operand: an operator, `')'` or the end. -/
def Follow : List Token → Prop
  | [] => True
  | t :: _ => t = .and ∨ t = .or ∨ t = .prox ∨ t = .rparen

theorem Follow.xchar_lt {rest : List Token} (h : Follow rest) : xchar (laCode rest) < 5 := by
  cases rest with
  | nil => decide
  | cons t _ => rcases h with rfl | rfl | rfl | rfl <;> simp only [laCode] <;> decide


/-! ## Table facts used for completeness -/

/-- The goto on `node` (column 6) of a state. -/
def nodeGoto (s : Nat) : Nat := (row s).getD 6 8 - 8

theorem goto_expr : ∀ s ∈ expecting, (row s)[6]? = some (nodeGoto s + 8) := by decide

theorem expecting_lt {s : Nat} (h : s ∈ expecting) : s < 15 := by
  simp only [expecting, List.mem_cons, List.mem_singleton, List.not_mem_nil, or_false] at h
  omega

/-- The reductions that complete a node: the state, the rule, and its length. -/
def nodeRules : List (Nat × Nat × Nat) :=
  [(3, 2, 1), (14, 3, 3), (6, 4, 2), (12, 5, 3), (11, 6, 3), (10, 7, 3)]

theorem nodeRules_spec : ∀ x ∈ nodeRules, x.1 < 15 ∧ 0 < x.2.1 ∧ 0 < x.2.2 ∧
    yyReductions.lookup x.2.1 = some (6, x.2.2) ∧ ∀ c < 5, yyAction (row x.1) c = -(x.2.1 : Int) := by
  decide

/-- An operand begins with a shift in every expecting state. -/
theorem shift_operand : ∀ s ∈ expecting, yyAction (row s) (xchar TERM) = 3 ∧
    yyAction (row s) (xchar NOT) = 5 ∧ yyAction (row s) (xchar Token.lparen.lexeme.code) = 4 := by
  decide

/-- After the left operand of a binary node the operator is shifted, and its right operand
ends in the state that reduces the operator's rule. -/
theorem shift_operator : ∀ x ∈ binaryRules, ∀ s ∈ [0, 4], nodeGoto s < 15 ∧
    yyAction (row (nodeGoto s)) (xchar x.2.2.2.token.lexeme.code) = x.2.1 ∧ 0 < x.2.1 ∧
      x.2.1 ∈ expecting ∧ nodeGoto x.2.1 = x.1 ∧ (x.1, x.2.2.1, 3) ∈ nodeRules := by
  decide

theorem binaryRules_op (op : BinOp) : ∃ x ∈ binaryRules, x.2.2.2 = op := by
  cases op <;> decide

theorem binaryRules_action : ∀ x ∈ binaryRules, ∀ (stk : List SymType) (val : SymType) (res : Node),
    (semanticAction x.2.2.1 stk val res).1.node =
      .binary x.2.2.2 (stk.getD 2 ⟨0, [], .nil⟩).node (stk.getD 0 ⟨0, [], .nil⟩).node := by
  simp only [binaryRules, List.mem_cons, List.mem_singleton, List.not_mem_nil, or_false]
  rintro x (rfl | rfl | rfl) <;> intros <;> rfl

theorem nodeRules_result : ∀ x ∈ nodeRules, ∀ (stk : List SymType) (val : SymType) (res : Node),
    (semanticAction x.2.1 stk val res).2 = res := by
  simp only [nodeRules, List.mem_cons, List.mem_singleton, List.not_mem_nil, or_false]
  rintro x (rfl | rfl | rfl | rfl | rfl | rfl) <;> intros <;> rfl

theorem Follow.token (op : BinOp) (tl : List Token) : Follow (op.token :: tl) := by
  cases op <;> simp [Follow, BinOp.token]

/-! ## Parsing one node -/

/-- `q` is about to read `rest`: either no lookahead is read and the lexer is at `rest`, or
the lookahead is the first token of `rest`. -/
def Looking (rest : List Token) (q : Parser (List Token)) : Prop :=
  (q.char < 0 ∧ q.lexer = rest) ∨ (q.char = laCode rest ∧ q.lexer = rest.drop 1)

theorem Looking.read {rest : List Token} {q : Parser (List Token)} (h : Looking rest q) :
    (q.read Token.lex).char = laCode rest ∧ (q.read Token.lex).lexer = rest.drop 1 := by
  rcases h with ⟨hc, rfl⟩ | ⟨hc, hl⟩
  · simp [read_list hc]
  · simp [Parser.read_of_nonneg _ (hc ▸ laCode_nonneg rest), hc, hl]

/-- `q'` is `q` after the shift of a token into state `k`, with `tl` left to read. -/
structure Shifted (k : Nat) (tl : List Token) (q q' : Parser (List Token)) : Prop where
  yys : q'.top.yys = k
  str : q'.top.str = (q.read Token.lex).lval
  below : q'.below = q.top :: q.below
  char : q'.char < 0
  lexer : q'.lexer = tl
  errflag : q'.errflag = q.errflag - 1
  result : q'.result = q.result
  errors : q'.errors = q.errors

theorem step_shift {q : Parser (List Token)} {t : Token} {tl : List Token} {k : Nat}
    (hlook : Looking (t :: tl) q) (hs : q.top.yys < 15)
    (ha : yyAction (row q.top.yys) (xchar t.lexeme.code) = k) (hk : 0 < k) :
    ∃ q', q.step Token.lex = .next q' ∧ Shifted k tl q q' := by
  obtain ⟨hc, hl⟩ := hlook.read
  refine ⟨_, Parser.act_shift_eq (by simpa using hs) (by simpa [hc, laCode] using ha) hk, ?_⟩
  exact ⟨rfl, rfl, by simp [Parser.shift], by simp [Parser.shift], by simpa [Parser.shift] using hl,
    by simp [Parser.shift], by simp [Parser.shift], by simp [Parser.shift]⟩

/-- `q` is `p` after the loop parsed `u` off its input, with `rest` left: `u` is pushed in the
goto state of `p`'s top, the first token of `rest` is the lookahead, and nothing else
changed. -/
structure Parsed (u : Node) (rest : List Token) (p q : Parser (List Token)) : Prop where
  yys : q.top.yys = nodeGoto p.top.yys
  node : q.top.node = u
  below : q.below = p.top :: p.below
  char : q.char = laCode rest
  lexer : q.lexer = rest.drop 1
  errflag : q.errflag = 0
  result : q.result = p.result
  errors : q.errors = p.errors

/-- The reduction that completes a node: the entries `l` of its right-hand side are popped
down to `p`'s top, and the node is pushed in that state's goto. -/
theorem step_reduce_node {p q : Parser (List Token)} {u : Node} {rest : List Token}
    {r n : Nat} {l : List SymType} (hp : p.top.yys ∈ expecting)
    (hrule : (q.top.yys, r, n) ∈ nodeRules) (hn : l.length = n)
    (hstk : q.top :: q.below = l ++ p.top :: p.below)
    (hu : (semanticAction r (q.top :: q.below) (l.getD (n - 1) p.top) q.result).1.node = u)
    (hfol : Follow rest) (hlook : Looking rest q)
    (hflag : q.errflag = 0) (hres : q.result = p.result) (herr : q.errors = p.errors) :
    ∃ q', q.step Token.lex = .next q' ∧ Parsed u rest p q' := by
  obtain ⟨hc, hl⟩ := hlook.read
  obtain ⟨hq, hr0, hpos, hr, ha⟩ := nodeRules_spec _ hrule
  have hstk' : (q.read Token.lex).top :: (q.read Token.lex).below = l ++ p.top :: p.below := by
    simpa using hstk
  refine ⟨_, (Parser.act_reduce_eq (by simpa using hq) (by simpa [hc] using ha _ hfol.xchar_lt)
    hr0).trans (Parser.reduce_eq hr hn hpos hstk' (expecting_lt hp) (goto_expr _ hp)), ?_⟩
  exact ⟨rfl, by simpa [← hstk] using hu, rfl, hc, hl, by simpa using hflag,
    by simpa [nodeRules_result _ hrule] using hres, by simpa using herr⟩

/-- From every state in `states` with no lookahead read, no error pending and the input at
`u.yield ++ rest`, the loop parses `u`. -/
def ParsesFrom (states : List Nat) (u : Node) : Prop :=
  ∀ (p : Parser (List Token)) (rest : List Token), p.top.yys ∈ states → p.char < 0 →
    p.errflag = 0 → p.lexer = u.yield ++ rest → Follow rest →
    ∃ n q, Parser.Steps Token.lex n p q ∧ Parsed u rest p q

theorem parses_term (v : List UInt8) : ParsesFrom expecting (.term v) := by
  intro p rest hs hc hflag hlex hfol
  -- shift `TERM` into state 3
  obtain ⟨p1, h1, hp1⟩ := step_shift (t := .term v) (.inl ⟨hc, hlex⟩) (expecting_lt hs)
    (shift_operand _ hs).1 (by decide)
  -- reduce `node: TERM`
  obtain ⟨q, h2, hq⟩ := step_reduce_node (u := .term v) (r := 2) (n := 1) (l := [p1.top]) hs
    (by rw [hp1.yys]; decide) rfl (by rw [hp1.below]; rfl)
    (by simp [semanticAction, hp1.str, read_list hc, hlex, Node.yield, Token.lex, Token.lexeme]) hfol
    (.inl ⟨hp1.char, hp1.lexer⟩) (by rw [hp1.errflag, hflag]) hp1.result hp1.errors
  exact ⟨2, q, .next h1 (.single h2), hq⟩


theorem parses_not {c : Node} (hc : ParsesFrom expecting c) : ParsesFrom expecting (.not c) := by
  intro p rest hs hch hflag hlex hfol
  -- shift `NOT` into state 5
  obtain ⟨p1, h1, hp1⟩ := step_shift (t := .not) (.inl ⟨hch, hlex⟩) (expecting_lt hs)
    (shift_operand _ hs).2.1 (by decide)
  -- the operand, from state 5 to state 6
  obtain ⟨n, p2, h2, hp2⟩ := hc p1 rest (by rw [hp1.yys]; decide) hp1.char
    (by rw [hp1.errflag, hflag]) hp1.lexer hfol
  -- reduce `node: NOT node`
  obtain ⟨q, h3, hq⟩ := step_reduce_node (u := .not c) (r := 4) (n := 2) (l := [p2.top, p1.top]) hs
    (by rw [hp2.yys, hp1.yys]; decide) rfl (by rw [hp2.below, hp1.below]; rfl)
    (by simp [semanticAction, hp2.node]) hfol (.inr ⟨hp2.char, hp2.lexer⟩) hp2.errflag
    (hp2.result.trans hp1.result) (hp2.errors.trans hp1.errors)
  exact ⟨_, q, .next h1 (h2.trans (.single h3)), hq⟩

theorem parses_paren {c : Node} (hc : ParsesFrom [0, 4] c) : ParsesFrom expecting (.paren c) := by
  intro p rest hs hch hflag hlex hfol
  -- shift `'('` into state 4
  obtain ⟨p1, h1, hp1⟩ := step_shift (t := .lparen) (.inl ⟨hch, by simpa [Node.yield] using hlex⟩)
    (expecting_lt hs) (shift_operand _ hs).2.2 (by decide)
  -- the inner node, from state 4 to state 13
  obtain ⟨n, p2, h2, hp2⟩ := hc p1 (.rparen :: rest) (by rw [hp1.yys]; decide) hp1.char
    (by rw [hp1.errflag, hflag]) hp1.lexer (by simp [Follow])
  -- shift `')'` into state 14
  obtain ⟨p3, h3, hp3⟩ := step_shift (.inr ⟨hp2.char, hp2.lexer⟩)
    (by rw [hp2.yys, hp1.yys]; decide) (by rw [hp2.yys, hp1.yys]; decide) (k := 14) (by decide)
  -- reduce `node: '(' node ')'`
  obtain ⟨q, h4, hq⟩ := step_reduce_node (u := .paren c) (r := 3) (n := 3)
    (l := [p3.top, p2.top, p1.top]) hs (by rw [hp3.yys]; decide) rfl
    (by rw [hp3.below, hp2.below, hp1.below]; rfl) (by simp [semanticAction, hp3.below, hp2.node])
    hfol (.inl ⟨hp3.char, hp3.lexer⟩) (by rw [hp3.errflag, hp2.errflag])
    (hp3.result.trans (hp2.result.trans hp1.result)) (hp3.errors.trans (hp2.errors.trans hp1.errors))
  exact ⟨_, q, .next h1 (h2.trans (.next h3 (.single h4))), hq⟩

theorem parses_binary {op : BinOp} {l r : Node} (hl : ParsesFrom [0, 4] l)
    (hr : ParsesFrom expecting r) : ParsesFrom [0, 4] (.binary op l r) := by
  intro p rest hs hc hflag hlex hfol
  obtain ⟨x, hx, rfl⟩ := binaryRules_op op
  obtain ⟨hgoto_lt, hshift, hpos, hexp, hgoto, hrule⟩ := shift_operator x hx _ hs
  have hs' : p.top.yys ∈ expecting := by
    simp only [List.mem_cons, List.mem_singleton, List.not_mem_nil, or_false] at hs
    rcases hs with h | h <;> simp [expecting, h]
  -- the left operand, into state 2 or 13
  obtain ⟨n, p1, h1, hp1⟩ := hl p (x.2.2.2.token :: (r.yield ++ rest)) hs hc hflag
    (by simpa [Node.yield] using hlex) (Follow.token _ _)
  -- shift the operator into state 7, 8 or 9
  obtain ⟨p2, h2, hp2⟩ := step_shift (.inr ⟨hp1.char, hp1.lexer⟩)
    (by rw [hp1.yys]; exact hgoto_lt) (by rw [hp1.yys]; exact hshift) hpos
  -- the right operand, into the state of the operator's rule
  obtain ⟨m, p3, h3, hp3⟩ := hr p2 rest (by rw [hp2.yys]; exact hexp) hp2.char
    (by rw [hp2.errflag, hp1.errflag]) hp2.lexer hfol
  -- reduce `node: node op node`
  obtain ⟨q, h4, hq⟩ := step_reduce_node (u := .binary x.2.2.2 l r) (r := x.2.2.1) (n := 3)
    (l := [p3.top, p2.top, p1.top]) hs' (by rw [hp3.yys, hp2.yys, hgoto]; exact hrule) rfl
    (by rw [hp3.below, hp2.below, hp1.below]; rfl)
    (by rw [binaryRules_action x hx]; simp [hp3.below, hp2.below, hp1.node, hp3.node]) hfol
    (.inr ⟨hp3.char, hp3.lexer⟩) hp3.errflag
    (hp3.result.trans (hp2.result.trans hp1.result)) (hp3.errors.trans (hp2.errors.trans hp1.errors))
  exact ⟨_, q, h1.trans (.next h2 (h3.trans (.single h4))), hq⟩


theorem ParsesFrom.of_expecting {u : Node} (h : ParsesFrom expecting u) :
    (u.isBinary = false → ParsesFrom expecting u) ∧ ParsesFrom [0, 4] u :=
  ⟨fun _ => h, fun p rest hs => h p rest (by
    simp only [List.mem_cons, List.mem_singleton, List.not_mem_nil, or_false] at hs
    rcases hs with h | h <;> simp [expecting, h])⟩

/-- Every well-formed node is parsed from every state that expects it: from an expecting
state when it is not binary, and from states 0 and 4, where a binary node may stand. -/
theorem parses (u : Node) (hwf : u.wf = true) :
    (u.isBinary = false → ParsesFrom expecting u) ∧ ParsesFrom [0, 4] u := by
  induction u with
  | nil => simp [Node.wf] at hwf
  | root c _ => simp [Node.wf] at hwf
  | term v => exact (parses_term v).of_expecting
  | paren c ih => exact (parses_paren (ih (by simpa using hwf)).2).of_expecting
  | not c ih =>
    simp only [Node.wf_not, Bool.and_eq_true, Bool.not_eq_true'] at hwf
    exact (parses_not ((ih hwf.1).1 hwf.2)).of_expecting
  | binary op l r ihl ihr =>
    simp only [Node.wf_binary, Bool.and_eq_true, Bool.not_eq_true'] at hwf
    exact ⟨by simp [Node.isBinary], parses_binary (ihl hwf.1.1).2 ((ihr hwf.1.2).1 hwf.2)⟩

theorem Parser.act_accept_eq {σ : Type} {p : Parser σ} (h1 : p.top.yys = 1) : p.act = .ret 0 p := by
  simp [Parser.act, h1, getElem?_yyParseTab, accept_entry]

/-- The yield of a well-formed tree is accepted, with the tree as `parseResult`. -/
theorem accepts {t : Node} (hwf : t.wf = true) :
    ∃ n q, Parser.Steps Token.lex n (Parser.init t.yield) q ∧ q.step Token.lex = .ret 0 q ∧
      q.result = .root t := by
  obtain ⟨n, q1, h1, hq1⟩ := (parses t hwf).2 (Parser.init t.yield) [] (by simp [Parser.init])
    (show (-1 : Int) < 0 by decide) rfl (by simp [Parser.init]) trivial
  have hc1 : q1.char = yyEofCode := hq1.char
  have h0 : (Parser.init t.yield).top.yys = 0 := rfl
  -- reduce `start: node` on `$end`: state 1
  have h2 : q1.step Token.lex = .next { q1 with
      top := { (semanticAction 1 ([q1.top] ++ [(Parser.init t.yield).top]) q1.top q1.result).1
        with yys := 1 }
      below := [(Parser.init t.yield).top]
      result := (semanticAction 1 ([q1.top] ++ [(Parser.init t.yield).top]) q1.top q1.result).2 } := by
    rw [Parser.step_of_nonneg (by rw [hc1]; decide), Parser.act_reduce_eq (r := 1)
      (by rw [hq1.yys, h0]; decide) (by rw [hq1.yys, hc1, h0]; decide) (by decide)]
    exact Parser.reduce_eq (x := 9) (n := 1) rfl rfl (by decide) (by rw [hq1.below]; rfl)
      (by rw [h0]; decide) (by rw [h0]; decide)
  refine ⟨n + 1, _, h1.trans (.single h2), ?_, ?_⟩
  · rw [Parser.step_of_nonneg (by simp [hc1]; decide)]
    exact Parser.act_accept_eq rfl
  · simp [semanticAction, hq1.node]


/-! ## The parser decides the grammar -/

/-- Two runs that both ended ended the same way. -/
theorem Parser.run_det {σ : Type} {lex : σ → Lexeme × σ} {p : Parser σ} {f g : Nat}
    {x y : Nat × Parser σ} (hf : p.run lex f = .done x) (hg : p.run lex g = .done y) : x = y := by
  have h1 : p.run lex (f + g) = .done x := (Parser.run_mono (by simp [hf]) g).trans hf
  have h2 : p.run lex (g + f) = .done y := (Parser.run_mono (by simp [hg]) f).trans hg
  rw [Nat.add_comm, h1] at h2
  exact Exec.done.inj h2

theorem yyParse_accepts {t : Node} (hwf : t.wf = true) :
    ∃ f q, yyParse Token.lex f t.yield = .done (0, q) ∧ q.result = .root t := by
  obtain ⟨n, q, h, hacc, hres⟩ := accepts hwf
  refine ⟨n + 1, q, ?_, hres⟩
  rw [yyParse, Parser.run_steps h 1, Parser.run, hacc]

/-- `yyParse` on a token list decides the query grammar: it never panics (every table
lookup, goto and stack access is in range), and with fuel above five times the length it
ends, the same way for every such fuel, either returning 0 with `parseResult = Root t` for
the one well-formed tree `t` whose yield is the input, or, when there is no such tree,
returning 1 after exactly one `Error` with `parseResult` unset. -/
theorem yyParse_decides (ts : List Token) :
    (∀ fuel, yyParse Token.lex fuel ts ≠ .panic) ∧
    ∃ c q, (∀ fuel, 5 * ts.length < fuel → yyParse Token.lex fuel ts = .done (c, q)) ∧
      ((c = 0 ∧ ∃ t : Node, t.wf = true ∧ t.yield = ts ∧ q.result = .root t ∧
          ∀ t' : Node, t'.wf = true → t'.yield = ts → t' = t) ∨
        (c = 1 ∧ (∀ t : Node, t.wf = true → t.yield ≠ ts) ∧ (∃ m, q.errors = [m]) ∧
          q.result = .nil)) := by
  have hok : ∀ fuel, RunOk ts (yyParse Token.lex fuel ts) := fun fuel => run_ok fuel (init_inv ts)
  refine ⟨fun fuel h => by simpa [h, RunOk] using hok fuel, ?_⟩
  obtain ⟨⟨c, q⟩, hx⟩ := run_done (init_inv ts)
    (show (Parser.init ts).measure < 5 * ts.length + 1 by rw [init_measure]; omega)
  have hall : ∀ fuel, 5 * ts.length < fuel → yyParse Token.lex fuel ts = .done (c, q) := by
    intro fuel hf
    obtain ⟨k, rfl⟩ : ∃ k, fuel = 5 * ts.length + 1 + k := ⟨fuel - (5 * ts.length + 1), by omega⟩
    exact (Parser.run_mono (by simp [hx]) k).trans hx
  refine ⟨c, q, hall, ?_⟩
  have hrun := hok (5 * ts.length + 1)
  rw [yyParse, hx] at hrun
  rcases hrun with ⟨rfl, t, hwf, hy, hres⟩ | ⟨rfl, herr, hres⟩
  · refine .inl ⟨rfl, t, hwf, hy, hres, fun t' hwf' hy' => ?_⟩
    obtain ⟨f, q', hf, hres'⟩ := yyParse_accepts hwf'
    rw [hy'] at hf
    obtain rfl := (Prod.mk.inj (Parser.run_det hx hf)).2
    exact Node.root.inj (hres'.symm.trans hres)
  · refine .inr ⟨rfl, fun t hwf hy => ?_, herr, hres⟩
    obtain ⟨f, q', hf, -⟩ := yyParse_accepts hwf
    rw [hy] at hf
    exact absurd (Prod.mk.inj (Parser.run_det hx hf)).1 (by decide)

end MquerySru
