import Mathlib.Tactic.IntervalCases
import MquerySru.Query.Language

/-!
# Where `NewBasicTransformer` reports an error

`yyParse` stops at its first error, with a message that names the lookahead: `unexpected TERM`,
`unexpected AND`, and so on, or `unexpected $end`. The lookahead is never read as a code `≤ 0`,
so the message is never `syntax error`. This module shows that the token named is the right
one: the first at which the input stops being the beginning of a query.

A second reading of the language says what the beginning of a query is. `Reading.read` goes
left to right with a flag (an operand expected or not) and a count of open parentheses. Every
query is read to `⟨false, 0⟩` (`Reading.read_sentence`), so a token list on which the reading
fails begins no query (`Begins.read`).

1. `Viable.reading`: the tokens a viable stack stands for are read without failing. An operand
   is expected exactly in the states that expect a node; states 0 and 2 stand at the top
   level, states 4 and 13 inside a parenthesis.
2. `Viable.completable`, `Completable.begins`: those tokens begin a query.
3. `step_ret`, `run_ret`: a run that returns either accepts with no error, or rejects at a
   state whose table row has no entry for the lookahead (`Rejects`), with that lookahead's
   message as its one error. `Rejects.position`: there the reading fails on the lookahead.
4. `newBasicTransformer_error_position`: on every input, the error names the first token of
   the lexer's stream that no query can have at its place, or `$end` when the whole stream
   begins a query but is none.
-/

namespace MquerySru

/-! ## 1. Reading a query left to right -/

/-- Where a left-to-right reading of a query stands: whether an operand comes next, and how
many parentheses are open. -/
structure Reading where
  operand : Bool
  depth : Nat
  deriving DecidableEq, Repr

/-- One token: an operand (a term, `NOT`, `(`) where one is expected, else an operator, or a
`)` closing an open parenthesis. -/
def Reading.next : Reading → Token → Option Reading
  | ⟨true, d⟩, .term _ => some ⟨false, d⟩
  | ⟨true, d⟩, .not => some ⟨true, d⟩
  | ⟨true, d⟩, .byte b _ => if b = 40 then some ⟨true, d + 1⟩ else none
  | ⟨false, d⟩, .and | ⟨false, d⟩, .or | ⟨false, d⟩, .prox => some ⟨true, d⟩
  | ⟨false, d⟩, .byte b _ => if b = 41 ∧ 0 < d then some ⟨false, d - 1⟩ else none
  | _, _ => none

/-- A token list, from the reading `r`; `none` at the first token that cannot come next. -/
def Reading.read (r : Reading) : List Token → Option Reading
  | [] => some r
  | t :: ts => (r.next t).bind (·.read ts)

/-- The reading of a whole query begins expecting an operand. -/
def Reading.start : Reading := ⟨true, 0⟩

/-- `w` is the beginning of a query: the tokens of some well-formed tree start with `w`. -/
def Begins (w : List Token) : Prop := ∃ (t : Node) (u : List Token), t.wf = true ∧ t.yield = w ++ u

theorem Begins.of_append {w v : List Token} (h : Begins (w ++ v)) : Begins w :=
  let ⟨t, u, hwf, hy⟩ := h
  ⟨t, v ++ u, hwf, by rw [hy, List.append_assoc]⟩

theorem Reading.read_append (r : Reading) (w v : List Token) :
    r.read (w ++ v) = (r.read w).bind (·.read v) := by
  induction w generalizing r with
  | nil => rfl
  | cons t w ih =>
    simp only [List.cons_append, read]
    cases r.next t <;> simp [ih]

/-- Reading a well-formed tree from where an operand is expected ends after an operand, at
the same depth. -/
theorem Reading.read_yield {u : Node} (hwf : u.wf = true) (d : Nat) (v : List Token) :
    (⟨true, d⟩ : Reading).read (u.yield ++ v) = (⟨false, d⟩ : Reading).read v := by
  induction u generalizing d v with
  | nil | root => cases hwf
  | term s => rfl
  | paren c ih => simp [Node.yield, read, next, Token.lparen, Token.rparen, ih hwf]
  | not c ih =>
    simp only [Node.wf_not, Bool.and_eq_true] at hwf
    exact ih hwf.1 d v
  | binary op l r ihl ihr =>
    simp only [Node.wf_binary, Bool.and_eq_true] at hwf
    simp only [Node.yield, List.append_assoc, List.cons_append, ihl hwf.1.1]
    cases op <;> exact ihr hwf.1.2 d v

/-- Every query is read to its end, after an operand with no parenthesis open. -/
theorem Reading.read_sentence {t : Node} (hwf : t.wf = true) :
    Reading.start.read t.yield = some ⟨false, 0⟩ := by
  simpa using Reading.read_yield hwf 0 []

/-- The beginning of a query is read without failing. -/
theorem Begins.read {w : List Token} (h : Begins w) : Reading.start.read w ≠ none := fun hw => by
  obtain ⟨t, u, hwf, hy⟩ := h
  have hs := Reading.read_sentence hwf
  rw [hy, Reading.read_append, hw] at hs
  cases hs

/-! ## 2. The stack of `yyParse` is read as the beginning of a query -/

/-- The states the table moves from into each state. -/
def edgeSources : Nat → List Nat
  | 1 | 2 => [0]
  | 3 | 4 | 5 => expecting
  | 6 => [5]
  | 7 | 8 | 9 => [2, 13]
  | 10 => [9]
  | 11 => [8]
  | 12 => [7]
  | 13 => [4]
  | 14 => [13]
  | _ => []

theorem edge_into {s t : Nat} (h : edge s t = true) : s ∈ edgeSources t := by
  have table : ∀ s < 15, ∀ t < 15, edge s t = true → s ∈ edgeSources t := by decide
  exact table s (edge_lt h).1 t (edge_lt h).2 h

/-- How deep in parentheses each state stands: at the top level in states 0 and 2, inside
a parenthesis in states 4 and 13. -/
def DepthOk (s d : Nat) : Prop := ((s = 0 ∨ s = 2) → d = 0) ∧ ((s = 4 ∨ s = 13) → 0 < d)

/-- The tree a node entry holds is well formed. -/
theorem SymType.wf_of_ok {e : SymType} (hok : e.ok = true) (h : e.yys = 1 ∨ e.yys ∈ nodeStates) :
    e.node.wf = true := by
  simp only [nodeStates, List.mem_cons, List.mem_singleton, List.not_mem_nil, or_false] at h
  rcases h with h | h | h | h | h | h | h <;> simp_all [SymType.ok]

/-- One move of the table reads the tokens of the entry it pushes. -/
theorem edge_reading {b e : SymType} (hedge : edge b.yys e.yys = true) (hok : e.ok = true) {d : Nat}
    (hd : DepthOk b.yys d) :
    ∃ d', (⟨decide (b.yys ∈ expecting), d⟩ : Reading).read e.yield = some ⟨decide (e.yys ∈ expecting), d'⟩ ∧
      DepthOk e.yys d' := by
  have hs := edge_into hedge
  have ht := (edge_lt hedge).2
  have hnode : e.yys = 1 ∨ e.yys ∈ nodeStates → ∀ d, (⟨true, d⟩ : Reading).read e.yield = some ⟨false, d⟩ :=
    fun h d => by
      rcases h with h | h
      · simpa [SymType.yield, h] using Reading.read_yield (SymType.wf_of_ok hok (.inl h)) d []
      · simpa [SymType.yield_of_node h] using Reading.read_yield (SymType.wf_of_ok hok (.inr h)) d []
  generalize het : e.yys = t at *
  have hread : ∀ (x : Bool) (l : List Token) (d' : Nat), decide (b.yys ∈ expecting) = x → e.yield = l →
      (⟨x, d⟩ : Reading).read l = some ⟨decide (t ∈ expecting), d'⟩ → DepthOk t d' →
      ∃ d', (⟨decide (b.yys ∈ expecting), d⟩ : Reading).read e.yield = some ⟨decide (t ∈ expecting), d'⟩ ∧
        DepthOk t d' := fun _ _ _ hb he hr hdt => ⟨_, by rw [hb, he, hr], hdt⟩
  have hsrc : ∀ x, b.yys = x → decide (b.yys ∈ expecting) = decide (x ∈ expecting) := fun _ h => by rw [h]
  have hop : b.yys = 2 ∨ b.yys = 13 → decide (b.yys ∈ expecting) = false := by
    rintro (h | h) <;> simp [h, expecting]
  interval_cases t <;> simp only [edgeSources, List.mem_cons, List.mem_singleton, List.not_mem_nil,
    or_false] at hs
  · exact hread true e.yield d (hsrc 0 hs) rfl (hnode (.inl rfl) d) (by simp [DepthOk])
  · exact hread true e.yield d (hsrc 0 hs) rfl (hnode (by decide) d) (by simpa [DepthOk, hs] using hd)
  · exact hread true [.term e.str] d (decide_eq_true hs) (by simp [SymType.yield, het]) rfl (by simp [DepthOk])
  · exact hread true [.lparen] (d + 1) (decide_eq_true hs) (by simp [SymType.yield, het]) rfl
      (by simp [DepthOk])
  · exact hread true [.not] d (decide_eq_true hs) (by simp [SymType.yield, het]) rfl (by simp [DepthOk])
  · exact hread true e.yield d (hsrc 5 hs) rfl (hnode (by decide) d) (by simp [DepthOk])
  · exact hread false [.and] d (hop hs) (by simp [SymType.yield, het]) rfl (by simp [DepthOk])
  · exact hread false [.or] d (hop hs) (by simp [SymType.yield, het]) rfl (by simp [DepthOk])
  · exact hread false [.prox] d (hop hs) (by simp [SymType.yield, het]) rfl (by simp [DepthOk])
  · exact hread true e.yield d (hsrc 9 hs) rfl (hnode (by decide) d) (by simp [DepthOk])
  · exact hread true e.yield d (hsrc 8 hs) rfl (hnode (by decide) d) (by simp [DepthOk])
  · exact hread true e.yield d (hsrc 7 hs) rfl (hnode (by decide) d) (by simp [DepthOk])
  · exact hread true e.yield d (hsrc 4 hs) rfl (hnode (by decide) d) (by simpa [DepthOk, hs] using hd)
  · have hpos : 0 < d := by simpa [DepthOk, hs] using hd
    exact hread false [.rparen] (d - 1) (hsrc 13 hs) (by simp [SymType.yield, het])
      (by simp [Reading.read, Reading.next, Token.rparen, hpos, expecting]) (by simp [DepthOk])

/-- The tokens a viable stack stands for are read without failing: an operand is expected
exactly when the top state is one that expects a node, at the depth its state says. -/
theorem Viable.reading {e : SymType} {stk : List SymType} (h : Viable (e :: stk)) :
    ∃ d, Reading.start.read (stackYield (e :: stk)) = some ⟨decide (e.yys ∈ expecting), d⟩ ∧
      DepthOk e.yys d := by
  generalize hl : e :: stk = l at h
  induction h generalizing e stk with
  | bottom h0 =>
    obtain ⟨rfl, rfl⟩ := List.cons.inj hl
    exact ⟨0, by simp [stackYield, SymType.yield, h0, expecting, Reading.start, Reading.read],
      by simp [DepthOk, h0]⟩
  | push _ hedge hok ih =>
    obtain ⟨rfl, rfl⟩ := List.cons.inj hl
    obtain ⟨d, hread, hdepth⟩ := ih rfl
    obtain ⟨d', hr, hd'⟩ := edge_reading hedge hok hdepth
    exact ⟨d', by rw [stackYield, Reading.read_append, hread, Option.some_bind, hr], hd'⟩

/-! ## 3. Every prefix the stack stands for begins a query -/

/-- What can follow the tokens `pre` of a stack whose top is in state `s`: a node where one
is expected (closed by `)` in state 4), an operator and its operand after a node in states 2
and 13, or `)` in state 13; and in every state, some continuation to a query. -/
def Completable (s : Nat) (pre : List Token) : Prop :=
  match s with
  | 0 => ∀ n : Node, n.wf = true → Begins (pre ++ n.yield)
  | 4 => ∀ n : Node, n.wf = true → Begins (pre ++ n.yield ++ [.rparen])
  | 5 | 7 | 8 | 9 => ∀ n : Node, n.wf = true → n.isBinary = false → Begins (pre ++ n.yield)
  | 2 => ∀ (op : BinOp) (n : Node), n.wf = true → n.isBinary = false → Begins (pre ++ op.token :: n.yield)
  | 13 => (∀ (op : BinOp) (n : Node), n.wf = true → n.isBinary = false →
      Begins (pre ++ op.token :: n.yield)) ∧ Begins (pre ++ [.rparen])
  | _ => Begins pre

theorem Completable.operand {s : Nat} {pre : List Token} (h : Completable s pre) (hs : s ∈ expecting)
    {n : Node} (hwf : n.wf = true) (hnb : n.isBinary = false) : Begins (pre ++ n.yield) := by
  simp only [expecting, List.mem_cons, List.mem_singleton, List.not_mem_nil, or_false] at hs
  rcases hs with rfl | rfl | rfl | rfl | rfl | rfl
  · exact h n hwf
  · exact (h n hwf).of_append
  all_goals exact h n hwf hnb

theorem SymType.nonbinary_of_ok {e : SymType} (hok : e.ok = true) (h : e.yys ∈ [6, 10, 11, 12]) :
    e.node.isBinary = false := by
  simp only [List.mem_cons, List.mem_singleton, List.not_mem_nil, or_false] at h
  rcases h with h | h | h | h <;> simp_all [SymType.ok]

/-- One move of the table keeps what can follow the stack's tokens. -/
theorem edge_completable {b e : SymType} (hedge : edge b.yys e.yys = true) (hok : e.ok = true)
    {pre : List Token} (hc : Completable b.yys pre) : Completable e.yys (pre ++ e.yield) := by
  have hs := edge_into hedge
  have ht := (edge_lt hedge).2
  have hnode : e.yys ∈ nodeStates → e.yield = e.node.yield := SymType.yield_of_node
  have hwf : e.yys = 1 ∨ e.yys ∈ nodeStates → e.node.wf = true := SymType.wf_of_ok hok
  have hnb : e.yys ∈ [6, 10, 11, 12] → e.node.isBinary = false := SymType.nonbinary_of_ok hok
  generalize het : e.yys = t at *
  have hsrc : ∀ x, b.yys = x → Completable x pre := fun _ h => h ▸ hc
  have hop : ∀ op : BinOp, b.yys = 2 ∨ b.yys = 13 → e.yield = [op.token] →
      ∀ n : Node, n.wf = true → n.isBinary = false → Begins (pre ++ e.yield ++ n.yield) := by
    intro op hb hy n hn hnn
    rw [hy, List.append_assoc, List.singleton_append]
    rcases hb with h | h
    · exact hsrc 2 h op n hn hnn
    · exact (hsrc 13 h).1 op n hn hnn
  have hunder : ∀ x ∈ expecting, b.yys = x → t ∈ [6, 10, 11, 12] → Begins (pre ++ e.yield) := by
    intro x hx hb ht'
    have hns : t ∈ nodeStates := by
      simp only [nodeStates, List.mem_cons, List.mem_singleton, List.not_mem_nil, or_false] at ht' ⊢
      omega
    rw [hnode hns]
    exact (hsrc x hb).operand hx (hwf (.inr hns)) (hnb ht')
  interval_cases t
  · simp [edgeSources] at hs
  · have hc := hsrc 0 (by simpa [edgeSources] using hs)
    show Begins _
    simpa [SymType.yield, het] using hc e.node (hwf (.inl rfl))
  · have hc := hsrc 0 (by simpa [edgeSources] using hs)
    intro op n hn hnn
    simpa [hnode (by decide), Node.yield] using hc (.binary op e.node n) (by simp [hwf (by decide), hn, hnn])
  · show Begins _
    simpa [SymType.yield, het, Node.yield] using hc.operand hs (show (Node.term e.str).wf = true from rfl) rfl
  · intro n hn
    simpa [SymType.yield, het, Node.yield] using hc.operand hs (show (Node.paren n).wf = true from hn) rfl
  · intro n hn hnn
    simpa [SymType.yield, het, Node.yield] using
      hc.operand hs (show (Node.not n).wf = true by simp [hn, hnn]) rfl
  · exact hunder 5 (by decide) (by simpa [edgeSources] using hs) (by decide)
  · intro n hn hnn
    exact hop .and (by simpa [edgeSources] using hs) (by simp [SymType.yield, het]; rfl) n hn hnn
  · intro n hn hnn
    exact hop .or (by simpa [edgeSources] using hs) (by simp [SymType.yield, het]; rfl) n hn hnn
  · intro n hn hnn
    exact hop .prox (by simpa [edgeSources] using hs) (by simp [SymType.yield, het]; rfl) n hn hnn
  · exact hunder 9 (by decide) (by simpa [edgeSources] using hs) (by decide)
  · exact hunder 8 (by decide) (by simpa [edgeSources] using hs) (by decide)
  · exact hunder 7 (by decide) (by simpa [edgeSources] using hs) (by decide)
  · have hc := hsrc 4 (by simpa [edgeSources] using hs)
    refine ⟨fun op n hn hnn => ?_, ?_⟩
    · have := hc (.binary op e.node n) (by simp [hwf (by decide), hn, hnn])
      exact Begins.of_append (by simpa [hnode (by decide), Node.yield] using this)
    · simpa [hnode (by decide)] using hc e.node (hwf (by decide))
  · simpa [SymType.yield, het] using (hsrc 13 (by simpa [edgeSources] using hs)).2

theorem Viable.completable {e : SymType} {stk : List SymType} (h : Viable (e :: stk)) :
    Completable e.yys (stackYield (e :: stk)) := by
  generalize hl : e :: stk = l at h
  induction h generalizing e stk with
  | bottom h0 =>
    obtain ⟨rfl, rfl⟩ := List.cons.inj hl
    rw [h0]
    exact fun n hwf => ⟨n, [], hwf, by simp [stackYield, SymType.yield, h0]⟩
  | push _ hedge hok ih =>
    obtain ⟨rfl, rfl⟩ := List.cons.inj hl
    exact edge_completable hedge hok (ih rfl)

theorem Completable.begins {s : Nat} {pre : List Token} (h : Completable s pre) : Begins pre := by
  by_cases hs : s ∈ expecting
  · exact (h.operand hs (show (Node.term []).wf = true from rfl) rfl).of_append
  by_cases h2 : s = 2
  · subst h2
    exact (h .and (.term []) rfl rfl).of_append
  by_cases h13 : s = 13
  · subst h13
    exact h.2.of_append
  unfold Completable at h
  split at h <;> first | exact h | simp_all [expecting]

/-! ## 4. Where the loop rejects -/

/-- The state at the `yynewstate` pass that raises the error: a state of the invariant with
its lookahead read, outside the accepting state, where the table has no entry. -/
structure Rejects (ts : List Token) (r : Parser (List Token)) : Prop where
  inv : Inv ts r
  char : 0 < r.char
  top : r.top.yys ≠ 1
  action : yyAction (row r.top.yys) (xchar r.char) = 0

theorem Parser.reduce_ne_ret {σ : Type} (p : Parser σ) (r c : Nat) (q : Parser σ) : p.reduce r ≠ .ret c q := by
  intro h
  unfold Parser.reduce at h
  dsimp only at h
  split at h
  · cases h
  · split at h
    · cases h
    · split at h <;> cases h

/-- A pass that returns from an invariant state either accepts with no error or rejects at
the state it read its lookahead into, with that lookahead's message as the one error. -/
theorem step_ret {ts : List Token} {p q : Parser (List Token)} {c : Nat} (h : Inv ts p)
    (hs : p.step Token.lex = .ret c q) :
    (c = 0 ∧ q.errors = []) ∨
      (c = 1 ∧ Rejects ts (p.read Token.lex) ∧ q.errors = [errorMessage (p.read Token.lex).char]) := by
  obtain ⟨hr, hc, -⟩ := read_inv h
  unfold Parser.step at hs
  generalize p.read Token.lex = r at hr hc hs ⊢
  have hlt := hr.viable.lt r.top (List.mem_cons_self _ _)
  unfold Parser.act at hs
  rw [getElem?_yyParseTab hlt] at hs
  dsimp only at hs
  rcases Int.lt_trichotomy (yyAction (row r.top.yys) (xchar r.char)) 0 with hneg | hzero | hpos
  · rw [if_neg (by omega), if_pos hneg] at hs
    exact absurd hs (r.reduce_ne_ret _ _ _)
  · rw [if_neg (by omega), if_neg (by omega)] at hs
    by_cases h1 : r.top.yys = 1
    · rw [if_pos h1] at hs
      cases hs
      exact .inl ⟨rfl, hr.errors⟩
    · rw [if_neg h1] at hs
      simp only [Parser.error, hr.errflag, Parser.recover] at hs
      split at hs <;> cases hs
      exact .inr ⟨rfl, ⟨hr, hc, h1, hzero⟩, by simp [hr.errors]⟩
  · rw [if_pos hpos] at hs
    cases hs

/-- A run from an invariant state that returns accepts with no error, or rejects with the
message of the lookahead at a rejecting state. -/
theorem run_ret {ts : List Token} (fuel : Nat) {p q : Parser (List Token)} {c : Nat} (h : Inv ts p)
    (hr : p.run Token.lex fuel = .done (c, q)) :
    (c = 0 ∧ q.errors = []) ∨ (c = 1 ∧ ∃ r, Rejects ts r ∧ q.errors = [errorMessage r.char]) := by
  induction fuel generalizing p with
  | zero => cases hr
  | succ fuel ih =>
    have hok := step_ok h
    unfold Parser.run at hr
    revert hok
    cases hs : p.step Token.lex with
    | next q' => rw [hs] at hr; exact fun hq => ih hq.1 hr
    | ret c' q' =>
      rw [hs] at hr
      cases hr
      intro _
      exact (step_ret h hs).imp_right fun ⟨h1, hrej, he⟩ => ⟨h1, _, hrej, he⟩
    | panic => exact False.elim

/-- The states after a node, a term or `)`. -/
def afterStates : List Nat := [2, 3, 6, 10, 11, 12, 13, 14]

theorem mem_afterStates {s : Nat} (hs : s < 15) (he : s ∉ expecting) (h1 : s ≠ 1) : s ∈ afterStates := by
  simp only [expecting, afterStates, List.mem_cons, List.mem_singleton, List.not_mem_nil, or_false] at he ⊢
  omega

/-- After a node, the table lacks an entry for an operator or `)` only in two places: `)` at
the top level (state 2), and `$end` inside a parenthesis (state 13). -/
theorem error_entry : ∀ s ∈ afterStates, ∀ x < 5, yyAction (row s) x = 0 → x = 0 ∧ s = 13 ∨ x = 4 ∧ s = 2 := by
  decide

theorem BinOp.xchar_token (op : BinOp) : 0 < xchar op.token.lexeme.code ∧ xchar op.token.lexeme.code < 4 := by
  cases op <;> decide

/-- What the reading accepts next: a term, `NOT` or `(` where an operand is expected, else an
operator, or `)` inside a parenthesis. -/
theorem Reading.next_ne_none {r : Reading} {tok : Token} (h : r.next tok ≠ none) :
    (r.operand = true ∧ ((∃ s, tok = .term s) ∨ tok = .not ∨ tok = .lparen)) ∨
      (r.operand = false ∧ ((∃ op : BinOp, tok = op.token) ∨ (tok = .rparen ∧ 0 < r.depth))) := by
  obtain ⟨op, d⟩ := r
  cases op <;> cases tok <;> simp [Reading.next] at h ⊢
  · exact .inl ⟨.and, rfl⟩
  · exact .inl ⟨.or, rfl⟩
  · exact .inl ⟨.prox, rfl⟩
  · obtain ⟨rfl, hd⟩ := h
    exact .inr ⟨rfl, Nat.pos_of_ne_zero hd⟩
  · subst h
    rfl

/-- At a rejecting state, the tokens the stack stands for begin a query, and the lookahead
cannot follow them in any query; at `$end`, they are not a query. -/
theorem Rejects.position {ts : List Token} {r : Parser (List Token)} (h : Rejects ts r) :
    ∃ pre, Begins pre ∧
      ((∃ tok post, ts = pre ++ tok :: post ∧ r.char = tok.lexeme.code ∧ ¬Begins (pre ++ [tok])) ∨
        (ts = pre ∧ r.char = yyEofCode ∧ ∀ t : Node, t.wf = true → t.yield ≠ pre)) := by
  obtain ⟨rest, hpend, hts⟩ := h.inv.tokens
  obtain ⟨d, hread, hdepth⟩ := h.inv.viable.reading
  have hlt := h.inv.viable.lt r.top (List.mem_cons_self _ _)
  have ha := h.action
  refine ⟨_, h.inv.viable.completable.begins, ?_⟩
  cases hpend with
  | unread hc => exact absurd h.char (by omega)
  | eof hc hl =>
    refine .inr ⟨by simpa using hts.symm, hc, fun t hwf hy => ?_⟩
    have hs := Reading.read_sentence hwf
    rw [hy, hread] at hs
    simp only [Option.some.injEq, Reading.mk.injEq, decide_eq_false_iff_not] at hs
    rw [hc, show xchar yyEofCode = 0 from rfl] at ha
    rcases error_entry _ (mem_afterStates hlt hs.1 h.top) 0 (by decide) ha with ⟨-, h13⟩ | ⟨h4, -⟩
    · exact absurd (hdepth.2 (.inr h13)) (by omega)
    · exact absurd h4 (by decide)
  | token tok hc _ =>
    refine .inl ⟨tok, r.lexer, hts.symm, hc, fun hb => hb.read ?_⟩
    rw [Reading.read_append, hread, Option.some_bind, Reading.read]
    cases hn : (⟨decide (r.top.yys ∈ expecting), d⟩ : Reading).next tok with
    | none => rfl
    | some _ =>
      exfalso
      rw [hc] at ha
      rcases Reading.next_ne_none (hn ▸ Option.some_ne_none _) with ⟨hop, htok⟩ | ⟨hop, htok⟩
      · have hs := shift_operand _ (of_decide_eq_true hop)
        rcases htok with ⟨v, rfl⟩ | rfl | rfl
        · exact absurd (hs.1 ▸ ha) (by decide)
        · exact absurd (hs.2.1 ▸ ha) (by decide)
        · exact absurd (hs.2.2 ▸ ha) (by decide)
      · have hafter := mem_afterStates hlt (of_decide_eq_false hop) h.top
        rcases htok with ⟨op, rfl⟩ | ⟨rfl, hd⟩
        · have hx := BinOp.xchar_token op
          rcases error_entry _ hafter _ (by omega) ha with ⟨h0, -⟩ | ⟨h4, -⟩ <;> omega
        · rcases error_entry _ hafter 4 (by decide) ha with ⟨h0, -⟩ | ⟨-, h2⟩
          · exact absurd h0 (by decide)
          · exact absurd (hdepth.1 (.inr h2)) (Nat.pos_iff_ne_zero.mp hd)

/-! ## 5. The error `NewBasicTransformer` returns -/

/-- A run of `yyParse` on a token list that returns accepts with no error, or rejects with one
error, the message of the first token that no query can have there, or of `$end` when the
tokens are a proper beginning of a query. -/
theorem yyParse_error_position {ts : List Token} {fuel c : Nat} {q : Parser (List Token)}
    (h : yyParse Token.lex fuel ts = .done (c, q)) :
    (c = 0 ∧ q.errors = []) ∨
      (c = 1 ∧ ∃ pre, Begins pre ∧
        ((∃ tok post, ts = pre ++ tok :: post ∧ q.errors = [errorMessage tok.lexeme.code] ∧
            ¬Begins (pre ++ [tok])) ∨
          (ts = pre ∧ q.errors = [errorMessage yyEofCode] ∧ ∀ t : Node, t.wf = true → t.yield ≠ pre))) := by
  rcases run_ret fuel (init_inv ts) h with h0 | ⟨h1, r, hrej, he⟩
  · exact .inl h0
  obtain ⟨pre, hb, hpos⟩ := hrej.position
  refine .inr ⟨h1, pre, hb, hpos.imp ?_ ?_⟩
  · rintro ⟨tok, post, hts, hc, hn⟩
    exact ⟨tok, post, hts, hc ▸ he, hn⟩
  · rintro ⟨hts, hc, hn⟩
    exact ⟨hts, hc ▸ he, hn⟩

/-- Where `NewBasicTransformer` reports an error. On every input whose token stream is `ts`,
an error it returns names the first token of `ts` that no query can have at its place: the
tokens before it begin a query, and with it they begin none. When the whole stream begins
a query but is none, the error names `$end`. -/
theorem newBasicTransformer_error_position {s : List UInt8} {ts : List Token} (hts : Lexes s ts)
    {attr : List UInt8} {m : String} (h : newBasicTransformer s attr = .done (.error m)) :
    ∃ pre, Begins pre ∧
      ((∃ tok post, ts = pre ++ tok :: post ∧ m = "unexpected " ++ yySymName tok.lexeme.code ∧
          ¬Begins (pre ++ [tok])) ∨
        (ts = pre ∧ m = "unexpected $end" ∧ ∀ t : Node, t.wf = true → t.yield ≠ pre)) := by
  obtain ⟨⟨c, q⟩, hdone⟩ := run_done (init_inv ts)
    (show (Parser.init ts).measure < 5 * s.length + 3 by rw [init_measure]; have := hts.length_le; omega)
  obtain ⟨q', hb, hq'⟩ := hts.yyParse hdone
  have herr : q'.errors = q.errors := by rw [hq']; rfl
  rw [newBasicTransformer_of_run hb, herr] at h
  rcases yyParse_error_position hdone with ⟨-, he⟩ | ⟨-, pre, hbeg, hpos⟩
  · rw [he] at h
    cases h
  refine ⟨pre, hbeg, hpos.imp ?_ ?_⟩
  · rintro ⟨tok, post, hts', he, hn⟩
    rw [he] at h
    cases h
    exact ⟨tok, post, hts', by rw [errorMessage, if_pos (Token.code_pos tok).1], hn⟩
  · rintro ⟨hts', he, hn⟩
    rw [he] at h
    cases h
    exact ⟨hts', rfl, hn⟩

/-- `a b`: two terms with no operator between them; the error names the second term. -/
theorem newBasicTransformer_error_position_term :
    Lexes (ascii "a b") [.term (ascii "a"), .term (ascii "b")] ∧
      newBasicTransformer (ascii "a b") (ascii "word") = .done (.error "unexpected TERM") ∧
      ∃ pre, Begins pre ∧
        ((∃ tok post, [.term (ascii "a"), .term (ascii "b")] = pre ++ tok :: post ∧
            "unexpected TERM" = "unexpected " ++ yySymName tok.lexeme.code ∧ ¬Begins (pre ++ [tok])) ∨
          ([.term (ascii "a"), .term (ascii "b")] = pre ∧ "unexpected TERM" = "unexpected $end" ∧
            ∀ t : Node, t.wf = true → t.yield ≠ pre)) :=
  ⟨.token rfl (.token rfl (.eof rfl)), rfl,
    @newBasicTransformer_error_position (ascii "a b") [.term (ascii "a"), .term (ascii "b")]
      (.token rfl (.token rfl (.eof rfl))) (ascii "word") "unexpected TERM" rfl⟩

end MquerySru
