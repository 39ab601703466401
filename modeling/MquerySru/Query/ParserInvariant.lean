import MquerySru.Query.Parser

/-!
# Safety and soundness of `yyParse` on a token list

The parser is run on a token list (`Token.lex`). `Inv ts p` is the invariant of every
state the loop reaches from `Parser.init ts`:

* `Viable`: the states on the stack form a path of `yyParseTab` from state 0, each entry
  entered on its state's accessing symbol (`edge`), and node entries hold trees of the
  grammar (`SymType.ok`);
* the tokens the stack stands for (`stackYield`), followed by the lookahead and the
  lexer's rest (`Pending`), are the input;
* no error has happened, and `parseResult` is set exactly in the accepting state 1.

`step_ok` proves that one pass from an invariant state keeps it and lowers
`Parser.measure`, or accepts a tree `t` with `t.wf` and `t.yield = ts`, or rejects after
exactly one `Error` with `parseResult` still `nil`, and never panics. The run lemmas
`run_ok` and `run_ne_outOfFuel` follow by induction on the fuel.

All table facts are checked by `decide` over the 15 states.
-/

namespace MquerySru

/-! ## The table -/

/-- The column of the symbol on which the table enters each state; state 0 is entered
on nothing (`yyError`, a column no row has). -/

def accessCols : List Nat := [yyError, 9, 6, 8, 5, 7, 6, 1, 2, 3, 6, 6, 6, 6, 4]
/-- The accessing column of a state. -/
def accessCol (s : Nat) : Nat := accessCols.getD s yyError
/-- The row of a state. -/
def row (s : Nat) : List Nat := yyParseTab.getD s []
/-- `edge s t`: the table moves from `s` to `t` on `t`'s accessing symbol. -/
def edge (s t : Nat) : Bool := s < 15 && (row s)[accessCol t]? == some (t + 8)

theorem getElem?_yyParseTab {s : Nat} (hs : s < 15) : yyParseTab[s]? = some (row s) := by
  simp [row, List.getD_eq_getElem?_getD, List.getElem?_eq_getElem (show s < yyParseTab.length from hs)]

theorem edge_lt {s t : Nat} (h : edge s t = true) : s < 15 ∧ t < 15 := by
  have hs : s < 15 := by simp [edge] at h; exact h.1
  refine ⟨hs, Nat.lt_of_not_le fun ht => ?_⟩
  have hcol : accessCol t = yyError := by
    simp [accessCol, List.getElem?_eq_none (show accessCols.length ≤ t by simp [accessCols]; omega)]
  have hlen : (row s).length ≤ yyError := yyParseTab_length_le _ (List.getElem?_mem (getElem?_yyParseTab hs))
  simp [edge, hcol, List.getElem?_eq_none hlen] at h

/-- The states with a single move into them, and the state that move leaves. -/
def edgeSource : Nat → Option Nat
  | 1 => some 0 | 2 => some 0 | 6 => some 5 | 10 => some 9 | 11 => some 8 | 12 => some 7
  | 13 => some 4 | 14 => some 13 | _ => none

theorem edge_source {s t u : Nat} (h : edge s t = true) (hu : edgeSource t = some u) : s = u := by
  have table : ∀ s < 15, ∀ t < 15, edge s t = true → (edgeSource t).all (· == s) = true := by decide
  have := table s (edge_lt h).1 t (edge_lt h).2 h
  rw [hu] at this
  exact (beq_iff_eq.mp this).symm

/-- A move into an operator state (7-9) leaves a state with a `node` on top (2 or 13). -/
theorem edge_operator {s t : Nat} (h : edge s t = true) (ht : t = 7 ∨ t = 8 ∨ t = 9) :
    s = 2 ∨ s = 13 := by
  have table : ∀ s < 15, ∀ t ∈ [7, 8, 9], edge s t = true → s = 2 ∨ s = 13 := by decide
  exact table s (edge_lt h).1 t (by rcases ht with rfl | rfl | rfl <;> decide) h

theorem edge_ne_zero {s t : Nat} (h : edge s t = true) : t ≠ 0 := by
  have table : ∀ s < 15, edge s 0 = false := by decide
  rintro rfl
  simp [table s (edge_lt h).1] at h

theorem xchar_other {n : Int} (h0 : 0 ≤ n) (h1 : n < 256) (h40 : n ≠ 40) (h41 : n ≠ 41) :
    xchar n = 12 := by
  have hnone : yyXLAT.lookup n = none := List.lookup_eq_none_iff.mpr (by simp [yyXLAT]; omega)
  simp [xchar, hnone, yySymNames]

theorem yyAction_row_ge {s c : Nat} (hc : 10 ≤ c) : yyAction (row s) c = 0 := by
  have hlen : ∀ s, (row s).length ≤ 10 := by
    intro s
    by_cases hs : s < 15
    · have : ∀ s < 15, (row s).length ≤ 10 := by decide
      exact this s hs
    · simp [row, List.getElem?_eq_none (show yyParseTab.length ≤ s by simp [yyParseTab]; omega)]
  simp [yyAction, List.getElem?_eq_none (Nat.le_trans (hlen s) hc)]

/-! ## The invariant -/

/-- What the node entry of each state holds: a tree of the grammar, one that is not a
binary node in the states of `NOT` operands and right operands (6, 10-12). -/
def SymType.ok (e : SymType) : Bool :=
  match e.yys with
  | 1 | 2 | 13 => e.node.wf
  | 6 | 10 | 11 | 12 => e.node.wf && !e.node.isBinary
  | _ => true

/-- The tokens an entry stands for: the terminal its state is entered on, or its node's
yield. -/
def SymType.yield (e : SymType) : List Token :=
  match e.yys with
  | 0 => []
  | 3 => [.term e.str]
  | 4 => [.lparen]
  | 5 => [.not]
  | 7 => [.and]
  | 8 => [.or]
  | 9 => [.prox]
  | 14 => [.rparen]
  | _ => e.node.yield

/-- The stack, top first, is a path of the table from state 0. -/
inductive Viable : List SymType → Prop
  | bottom {e : SymType} : e.yys = 0 → Viable [e]
  | push {e b : SymType} {stk : List SymType} :
      Viable (b :: stk) → edge b.yys e.yys = true → e.ok = true → Viable (e :: b :: stk)

/-- The tokens a stack stands for, bottom first. -/
def stackYield : List SymType → List Token
  | [] => []
  | e :: stk => stackYield stk ++ e.yield

/-- `Pending p rest`: `rest` is what the parser has not shifted, the lookahead if one is
read and then the lexer's list. -/
inductive Pending (p : Parser (List Token)) : List Token → Prop
  | unread : p.char < 0 → Pending p p.lexer
  | eof : p.char = yyEofCode → p.lexer = [] → Pending p []
  | token (t : Token) : p.char = t.lexeme.code → (∀ s, t = .term s → p.lval = s) →
      Pending p (t :: p.lexer)

/-- The invariant of the states `yyParse` reaches on the token list `ts`. -/
structure Inv (ts : List Token) (p : Parser (List Token)) : Prop where
  viable : Viable (p.top :: p.below)
  tokens : ∃ rest, Pending p rest ∧ stackYield (p.top :: p.below) ++ rest = ts
  errflag : p.errflag = 0
  errors : p.errors = []
  result : if p.top.yys = 1 then p.result = .root p.top.node ∧ p.char = yyEofCode
    else p.result = .nil

/-- Weight of the states a unit reduction leaves: `TERM` (3) reduces to a node, and a
node in state 2 to `start`. -/
def weight : Nat → Nat
  | 2 => 1
  | 3 => 2
  | _ => 0

/-- Decreases on every pass: a shift consumes a token, a reduction shrinks the stack or
leaves a lighter state. -/
def Parser.measure (p : Parser (List Token)) : Nat :=
  5 * (p.lexer.length + if 0 < p.char ∧ p.char ≠ yyEofCode then 1 else 0) +
    2 * p.below.length + weight p.top.yys

theorem Token.code_pos (t : Token) : 0 < t.lexeme.code ∧ t.lexeme.code ≠ yyEofCode := by
  cases t with
  | byte b h =>
    have hb : b.toNat ≠ 0 := fun h0 => h (UInt8.eq_of_val_eq (Fin.ext h0))
    have hlt : b.toNat < 256 := b.val.isLt
    simp only [Token.lexeme, yyEofCode]
    omega
  | _ => simp [Token.lexeme, TERM, NOT, AND, OR, PROX, yyEofCode]

@[simp] theorem Parser.read_of_nonneg {σ : Type} (lex : σ → Lexeme × σ) {p : Parser σ}
    (h : 0 ≤ p.char) : p.read lex = p := by
  simp [Parser.read, show ¬p.char < 0 by omega]

theorem Parser.read_of_neg {σ : Type} (lex : σ → Lexeme × σ) {p : Parser σ} (h : p.char < 0) :
    p.read lex =
      { p with
        char := yylex1 (lex p.lexer).1.code
        lval := (lex p.lexer).1.text.getD p.lval
        lexer := (lex p.lexer).2 } := by
  simp [Parser.read, h]

theorem Inv.top_ne_one {ts : List Token} {p : Parser (List Token)} (h : Inv ts p)
    (hc : p.char < 0) : p.top.yys ≠ 1 ∧ p.result = .nil := by
  have hr := h.result
  by_cases h1 : p.top.yys = 1
  · simp only [h1, if_true] at hr
    simp [hr.2, yyEofCode] at hc
  · simp only [h1, if_false] at hr
    exact ⟨h1, hr⟩

theorem read_inv {ts : List Token} {p : Parser (List Token)} (h : Inv ts p) :
    Inv ts (p.read Token.lex) ∧ 0 < (p.read Token.lex).char ∧
      (p.read Token.lex).measure = p.measure := by
  obtain ⟨rest, hpend, hts⟩ := h.tokens
  cases hpend with
  | unread hc =>
    obtain ⟨h1, hres⟩ := h.top_ne_one hc
    rw [Parser.read_of_neg _ hc]
    cases hl : p.lexer with
    | nil =>
      have hc' : ¬0 < p.char := by omega
      refine ⟨⟨h.viable, ⟨[], .eof ?_ ?_, ?_⟩, h.errflag, h.errors, ?_⟩, ?_, ?_⟩ <;>
        simp_all [Token.lex, yylex1, EOF, yyEofCode, Parser.measure]
    | cons t tl =>
      have ht := t.code_pos
      have hcode : yylex1 t.lexeme.code = t.lexeme.code := by simp [yylex1]; omega
      refine ⟨⟨h.viable, ⟨t :: tl, .token t ?_ ?_, ?_⟩, h.errflag, h.errors, ?_⟩, ?_, ?_⟩
      · simp [Token.lex, hcode]
      · rintro s rfl
        simp [Token.lex, Token.lexeme]
      · simpa [hl] using hts
      · simpa [h1] using hres
      · simpa [Token.lex, hcode] using ht.1
      · have hc' : ¬0 < p.char := by omega
        simp [Parser.measure, Token.lex, hcode, hl, hc', ht.1, ht.2]
  | eof hc hl =>
    have : 0 ≤ p.char := by simp [hc, yyEofCode]
    rw [Parser.read_of_nonneg _ this]
    exact ⟨h, by simp [hc, yyEofCode], rfl⟩
  | token t hc _ =>
    have : 0 ≤ p.char := by have := t.code_pos; omega
    rw [Parser.read_of_nonneg _ this]
    exact ⟨h, by have := t.code_pos; omega, rfl⟩

/-! ## Table facts used by the invariant -/

/-- States in which a `node` can begin. -/
def expecting : List Nat := [0, 4, 5, 7, 8, 9]

/-- The states a `node` goto leads to. -/
def nodeStates : List Nat := [2, 13, 6, 12, 11, 10]

theorem accessCol_le (k : Nat) : accessCol k ≤ 11 := by
  by_cases hk : k < 15
  · have : ∀ k < 15, accessCol k ≤ 11 := by decide
    exact this k hk
  · simp [accessCol, List.getElem?_eq_none (show accessCols.length ≤ k by simp [accessCols]; omega),
      yyError]

theorem shift_entry : ∀ s < 15, ∀ c < 10, 0 < yyAction (row s) c →
    edge s (yyAction (row s) c).toNat = true ∧ accessCol (yyAction (row s) c).toNat = c := by
  decide

theorem shift_eof : ∀ s < 15, yyAction (row s) 0 ≤ 0 := by decide

/-- The reductions of the table: the rule each reducing state reduces by. Rule 1 is
reduced on `$end` only. -/
def reductions : List (Nat × Int) := [(2, -1), (3, -2), (14, -3), (6, -4), (12, -5), (11, -6), (10, -7)]

theorem reduce_entry : ∀ s < 15, ∀ c < 10, yyAction (row s) c < 0 →
    reductions.contains (s, yyAction (row s) c) = true ∧ (s = 2 → c = 0) := by
  decide

theorem accept_entry (c : Nat) : yyAction (row 1) c = 0 := by
  by_cases hc : c < 10
  · have : ∀ c < 10, yyAction (row 1) c = 0 := by decide
    exact this c hc
  · exact yyAction_row_ge (by omega)

theorem goto_node : ∀ s ∈ expecting, ∃ g ∈ nodeStates, (row s)[6]? = some (g + 8) ∧ edge s g = true := by
  decide

theorem accessCol_eq : ∀ k < 15, ∀ c < 9, c ≠ 6 → accessCol k = c →
    k = [0, 7, 8, 9, 14, 4, 0, 5, 3].getD c 0 := by
  decide

/-- The entry a shift pushes stands for the shifted token. -/
theorem shift_token (t : Token) {k : Nat} {lval : List UInt8} (hl : ∀ s, t = .term s → lval = s)
    (hk : k < 15) (hcol : accessCol k = xchar t.lexeme.code) :
    (⟨k, lval, .nil⟩ : SymType).yield = [t] ∧ (⟨k, lval, .nil⟩ : SymType).ok = true ∧
      weight k ≤ 2 ∧ k ≠ 1 := by
  cases t with
  | term v =>
    obtain rfl := accessCol_eq k hk 8 (by decide) (by decide) hcol
    simp [SymType.yield, SymType.ok, weight, hl v rfl]
  | not =>
    obtain rfl := accessCol_eq k hk 7 (by decide) (by decide) hcol
    simp [SymType.yield, SymType.ok, weight]
  | and =>
    obtain rfl := accessCol_eq k hk 1 (by decide) (by decide) hcol
    simp [SymType.yield, SymType.ok, weight]
  | or =>
    obtain rfl := accessCol_eq k hk 2 (by decide) (by decide) hcol
    simp [SymType.yield, SymType.ok, weight]
  | prox =>
    obtain rfl := accessCol_eq k hk 3 (by decide) (by decide) hcol
    simp [SymType.yield, SymType.ok, weight]
  | byte b hb =>
    have hlt : b.toNat < 256 := b.val.isLt
    by_cases h40 : b.toNat = 40
    · obtain rfl : b = 40 := UInt8.toNat.inj h40
      obtain rfl := accessCol_eq k hk 5 (by decide) (by decide) hcol
      exact ⟨rfl, rfl, by decide, by decide⟩
    by_cases h41 : b.toNat = 41
    · obtain rfl : b = 41 := UInt8.toNat.inj h41
      obtain rfl := accessCol_eq k hk 4 (by decide) (by decide) hcol
      exact ⟨rfl, rfl, by decide, by decide⟩
    have hx : xchar (Token.byte b hb).lexeme.code = 12 :=
      xchar_other (by simp only [Token.lexeme]; omega) (by simp [Token.lexeme]; omega)
        (by simp [Token.lexeme]; omega) (by simp [Token.lexeme]; omega)
    have := accessCol_le k
    omega

/-! ## The stack -/

theorem Viable.tail {e b : SymType} {stk : List SymType} (h : Viable (e :: b :: stk)) :
    Viable (b :: stk) ∧ edge b.yys e.yys = true ∧ e.ok = true := by
  cases h
  exact ⟨‹_›, ‹_›, ‹_›⟩

theorem Viable.zero_iff {e : SymType} {stk : List SymType} (h : Viable (e :: stk)) :
    e.yys = 0 ↔ stk = [] := by
  cases h with
  | bottom h0 => simp [h0]
  | push _ hedge _ =>
    constructor
    · intro h0
      exact absurd h0 (edge_ne_zero hedge)
    · intro h
      cases h

theorem Viable.lt {stk : List SymType} (h : Viable stk) : ∀ e ∈ stk, e.yys < 15 := by
  induction h with
  | bottom h0 => simp [h0]
  | push _ hedge _ ih =>
    intro e he
    simp only [List.mem_cons] at he
    rcases he with rfl | he
    · exact (edge_lt hedge).2
    · exact ih e (by simpa using he)

theorem Viable.of_cons {e : SymType} {stk : List SymType} (h : Viable (e :: stk))
    (hne : stk ≠ []) : Viable stk := by
  cases h with
  | bottom _ => exact absurd rfl hne
  | push hv _ _ => exact hv

theorem Viable.suffix {l l' : List SymType} (h : Viable (l ++ l')) (hne : l' ≠ []) :
    Viable l' := by
  induction l with
  | nil => simpa using h
  | cons e l ih => exact ih (h.of_cons (by simp [hne]))

theorem Viable.cons_of_ne_zero {e : SymType} {stk : List SymType} (h : Viable (e :: stk))
    (h0 : e.yys ≠ 0) : ∃ b stk', stk = b :: stk' := by
  cases h with
  | bottom h' => exact absurd h' h0
  | push _ _ _ => exact ⟨_, _, rfl⟩

theorem stackYield_append (l l' : List SymType) :
    stackYield (l ++ l') = stackYield l' ++ stackYield l := by
  induction l with
  | nil => simp [stackYield]
  | cons e l ih => simp [stackYield, ih]

theorem Pending.congr {p q : Parser (List Token)} {rest : List Token} (h : Pending p rest)
    (hchar : q.char = p.char) (hlexer : q.lexer = p.lexer) (hlval : q.lval = p.lval) :
    Pending q rest := by
  cases h with
  | unread hc => exact hlexer ▸ .unread (hchar ▸ hc)
  | eof hc hl => exact .eof (hchar ▸ hc) (hlexer ▸ hl)
  | token t hc hs => exact hlexer ▸ .token t (hchar ▸ hc) (hlval ▸ hs)

/-- A reduction keeps the invariant when the entry it pushes on `base` stands for the
popped entries and is a valid move of the table. -/
theorem Inv.reduce {ts : List Token} {p q : Parser (List Token)} (h : Inv ts p)
    {l k : List SymType} {b : SymType}
    (hstk : p.top :: p.below = l ++ b :: k) (hbelow : q.below = b :: k)
    (hchar : q.char = p.char) (hlexer : q.lexer = p.lexer) (hlval : q.lval = p.lval)
    (hflag : q.errflag = p.errflag) (herrors : q.errors = p.errors)
    (hedge : edge b.yys q.top.yys = true) (hok : q.top.ok = true)
    (hyield : q.top.yield = stackYield l)
    (hresult : if q.top.yys = 1 then q.result = .root q.top.node ∧ q.char = yyEofCode
      else q.result = .nil) :
    Inv ts q := by
  obtain ⟨r, hpend, hts⟩ := h.tokens
  have hbase : Viable (b :: k) := by
    have hv := h.viable
    rw [hstk] at hv
    exact hv.suffix (List.cons_ne_nil _ _)
  refine ⟨?_, ⟨r, hpend.congr hchar hlexer hlval, ?_⟩, hflag ▸ h.errflag, herrors ▸ h.errors,
    hresult⟩
  · rw [hbelow]
    exact .push hbase hedge hok
  · rw [hbelow, ← hts, hstk, stackYield_append]
    simp [stackYield, hyield]

theorem Parser.reduce_eq {σ : Type} {p : Parser σ} {r x n g : Nat} {l k : List SymType}
    {b : SymType} (hr : yyReductions.lookup r = some (x, n)) (hn : l.length = n)
    (hpos : 0 < n) (hstk : p.top :: p.below = l ++ b :: k) (hb : b.yys < 15)
    (hg : (row b.yys)[x]? = some (g + 8)) :
    p.reduce r = .next { p with
      top := { (semanticAction r (l ++ b :: k) (l.getD (n - 1) b) p.result).1 with yys := g }
      below := b :: k
      result := (semanticAction r (l ++ b :: k) (l.getD (n - 1) b) p.result).2 } := by
  have hdrop : (l ++ b :: k).drop n = b :: k := by
    rw [List.drop_append_eq_append_drop]; simp [hn]
  have hget : (l ++ b :: k).getD (n - 1) b = l.getD (n - 1) b := by
    simp [List.getD_eq_getElem?_getD, List.getElem?_append_left (show n - 1 < l.length by omega)]
  simp only [Parser.reduce, hr, Option.getD_some, hstk, hdrop, getElem?_yyParseTab hb,
    Option.some_bind, hg, show ¬g + 8 < 8 by omega, if_false, hget, Nat.add_sub_cancel]

theorem Token.xchar_ne_zero (t : Token) : xchar t.lexeme.code ≠ 0 := by
  cases t with
  | term v => show xchar TERM ≠ 0; decide
  | not => decide
  | and => decide
  | or => decide
  | prox => decide
  | byte b hb =>
    have hlt : b.toNat < 256 := b.val.isLt
    by_cases h40 : b.toNat = 40
    · obtain rfl : b = 40 := UInt8.toNat.inj h40
      show xchar ((40 : UInt8).toNat : Int) ≠ 0
      decide
    by_cases h41 : b.toNat = 41
    · obtain rfl : b = 41 := UInt8.toNat.inj h41
      show xchar ((41 : UInt8).toNat : Int) ≠ 0
      decide
    rw [xchar_other (by simp only [Token.lexeme]; omega) (by simp [Token.lexeme]; omega)
        (by simp [Token.lexeme]; omega) (by simp [Token.lexeme]; omega)]
    decide

/-- What one pass from an invariant state may end in: a state that keeps the invariant
with a smaller measure, acceptance of a tree of the grammar that yields the input, or
rejection after exactly one `Error` with `parseResult` still `nil`; never a panic. -/
def StepOk (ts : List Token) (p : Parser (List Token)) : Step (List Token) → Prop
  | .next q => Inv ts q ∧ q.measure < p.measure
  | .ret c q => (c = 0 ∧ ∃ t, t.wf = true ∧ t.yield = ts ∧ q.result = .root t) ∨
      (c = 1 ∧ (∃ m, q.errors = [m]) ∧ q.result = .nil)
  | .panic => False

theorem edge_eq {s t : Nat} (h : edge s t = true) :
    (row s)[accessCol t]? = some (t + 8) := by
  simp [edge] at h; exact h.2

section Reductions

variable {ts : List Token} {p : Parser (List Token)}

theorem reduce_start (h : Inv ts p) (h2 : p.top.yys = 2) (hc : p.char = yyEofCode) :
    StepOk ts p (p.reduce 1) := by
  have hv := h.viable
  obtain ⟨b, stk, hb⟩ := hv.cons_of_ne_zero (by omega)
  rw [hb] at hv
  obtain ⟨hv', hedge, hok⟩ := hv.tail
  have hb0 : b.yys = 0 := edge_source hedge (by rw [h2]; rfl)
  obtain rfl : stk = [] := (hv'.zero_iff).mp hb0
  have hres : p.result = .nil := by have := h.result; simp [h2] at this; exact this
  rw [Parser.reduce_eq (r := 1) (x := 9) (n := 1) (g := 1) (l := [p.top]) rfl rfl (by decide)
    (by rw [hb]; rfl) (by omega) (by rw [hb0]; rfl)]
  refine ⟨Inv.reduce h (l := [p.top]) (by rw [hb]; rfl) rfl rfl rfl rfl rfl rfl
    (by rw [hb0]; rfl) ?_ ?_ ?_, ?_⟩
  · simpa [SymType.ok, h2, semanticAction] using hok
  · simp [SymType.yield, h2, semanticAction, stackYield]
  · simp [semanticAction, hc]
  · simp [Parser.measure, hb, h2, weight]

theorem SymType.yield_of_node {e : SymType} (hg : e.yys ∈ nodeStates) :
    e.yield = e.node.yield := by
  simp only [nodeStates, List.mem_cons, List.mem_singleton, List.not_mem_nil, or_false] at hg
  rcases hg with hg | hg | hg | hg | hg | hg <;> simp [SymType.yield, hg]

theorem SymType.ok_of_node {e : SymType} (hg : e.yys ∈ nodeStates) (hwf : e.node.wf = true)
    (hnb : e.node.isBinary = false) : e.ok = true := by
  simp only [nodeStates, List.mem_cons, List.mem_singleton, List.not_mem_nil, or_false] at hg
  rcases hg with hg | hg | hg | hg | hg | hg <;> simp [SymType.ok, hg, hwf, hnb]

theorem weight_of_node {g : Nat} (hg : g ∈ nodeStates) : weight g ≤ 1 ∧ g ≠ 1 := by
  simp only [nodeStates, List.mem_cons, List.mem_singleton, List.not_mem_nil, or_false] at hg
  rcases hg with rfl | rfl | rfl | rfl | rfl | rfl <;> decide

/-- A rule that ends in a unary node (`TERM`, `NOT node`, `'(' node ')'`) replaces its
popped entries, which sit on an expecting state, by a node entry in the goto state. -/
theorem reduce_unary (h : Inv ts p) {r n : Nat} {l k : List SymType} {b : SymType}
    (hr : yyReductions.lookup r = some (6, n)) (hn : l.length = n) (hpos : 0 < n)
    (hstk : p.top :: p.below = l ++ b :: k) (hexp : b.yys ∈ expecting)
    (hs : p.top.yys ≠ 1) (hweight : 4 ≤ 2 * n + weight p.top.yys)
    {u : Node} (hu : (semanticAction r (l ++ b :: k) (l.getD (n - 1) b) p.result) =
      ({ l.getD (n - 1) b with node := u }, p.result))
    (hwf : u.wf = true) (hnb : u.isBinary = false) (hyield : u.yield = stackYield l) :
    StepOk ts p (p.reduce r) := by
  obtain ⟨g, hg, hrow, hedge⟩ := goto_node b.yys hexp
  have hblt : b.yys < 15 := by simp [expecting] at hexp; omega
  have hres : p.result = .nil := by have := h.result; simp [hs] at this; exact this
  obtain ⟨hw, hg1⟩ := weight_of_node hg
  rw [Parser.reduce_eq hr hn hpos hstk hblt hrow, hu]
  refine ⟨Inv.reduce h hstk rfl rfl rfl rfl rfl rfl hedge
    (SymType.ok_of_node hg hwf hnb) ?_ ?_, ?_⟩
  · rw [SymType.yield_of_node hg]; exact hyield
  · simp [hg1, hres]
  · have hlen := congrArg List.length hstk
    simp only [List.length_cons, List.length_append] at hlen
    simp only [Parser.measure, List.length_cons]
    omega

theorem expecting_of_edge {s t : Nat} (h : edge s t = true) (ht : t = 3 ∨ t = 4 ∨ t = 5) :
    s ∈ expecting := by
  have table : ∀ s < 15, ∀ t ∈ [3, 4, 5], edge s t = true → s ∈ expecting := by decide
  exact table s (edge_lt h).1 t (by rcases ht with rfl | rfl | rfl <;> decide) h

theorem reduce_term (h : Inv ts p) (h3 : p.top.yys = 3) : StepOk ts p (p.reduce 2) := by
  have hv := h.viable
  obtain ⟨b, stk, hb⟩ := hv.cons_of_ne_zero (by omega)
  rw [hb] at hv
  have hexp := expecting_of_edge hv.tail.2.1 (by omega)
  exact reduce_unary h (l := [p.top]) (u := .term p.top.str) rfl rfl (by decide)
    (by rw [hb]; rfl) hexp (by omega) (by simp [h3, weight]) (by simp [semanticAction]) rfl rfl
    (by simp [stackYield, SymType.yield, h3, Node.yield])

theorem reduce_not (h : Inv ts p) (h6 : p.top.yys = 6) : StepOk ts p (p.reduce 4) := by
  have hv := h.viable
  obtain ⟨e5, stk, hb⟩ := hv.cons_of_ne_zero (by omega)
  rw [hb] at hv
  obtain ⟨hv5, hedge, hok⟩ := hv.tail
  have h5 : e5.yys = 5 := edge_source hedge (by rw [h6]; rfl)
  obtain ⟨b, stk', rfl⟩ := hv5.cons_of_ne_zero (by omega)
  have hexp := expecting_of_edge hv5.tail.2.1 (by omega)
  have hok' : p.top.node.wf = true ∧ p.top.node.isBinary = false := by
    simpa [SymType.ok, h6] using hok
  exact reduce_unary h (l := [p.top, e5]) (u := .not p.top.node) rfl rfl (by decide)
    (by rw [hb]; rfl) hexp (by omega) (by simp [h6, weight]) (by simp [semanticAction])
    (by simp [hok']) rfl (by simp [stackYield, SymType.yield, h6, h5, Node.yield])

theorem reduce_paren (h : Inv ts p) (h14 : p.top.yys = 14) : StepOk ts p (p.reduce 3) := by
  have hv := h.viable
  obtain ⟨e13, stk, hb⟩ := hv.cons_of_ne_zero (by omega)
  rw [hb] at hv
  obtain ⟨hv13, hedge, -⟩ := hv.tail
  have h13 : e13.yys = 13 := edge_source hedge (by rw [h14]; rfl)
  obtain ⟨e4, stk', rfl⟩ := hv13.cons_of_ne_zero (by omega)
  obtain ⟨hv4, hedge', hok⟩ := hv13.tail
  have h4 : e4.yys = 4 := edge_source hedge' (by rw [h13]; rfl)
  obtain ⟨b, stk'', rfl⟩ := hv4.cons_of_ne_zero (by omega)
  have hexp := expecting_of_edge hv4.tail.2.1 (by omega)
  have hok' : e13.node.wf = true := by simpa [SymType.ok, h13] using hok
  exact reduce_unary h (l := [p.top, e13, e4]) (u := .paren e13.node) rfl rfl (by decide)
    (by rw [hb]; rfl) hexp (by omega) (by simp [h14, weight]) (by simp [semanticAction])
    (by simp [hok']) rfl (by simp [stackYield, SymType.yield, h14, h13, h4, Node.yield])

/-- The binary rules: the state each reduces in, the operator's state below it, the rule
and the operator. -/
def binaryRules : List (Nat × Nat × Nat × BinOp) :=
  [(12, 7, 5, .and), (11, 8, 6, .or), (10, 9, 7, .prox)]

theorem reduce_binary (h : Inv ts p) {s o r : Nat} {op : BinOp}
    (hrule : (s, o, r, op) ∈ binaryRules) (hs : p.top.yys = s) : StepOk ts p (p.reduce r) := by
  have hv := h.viable
  have hrule' := hrule
  simp only [binaryRules, List.mem_cons, List.mem_singleton, Prod.mk.injEq,
    List.not_mem_nil, or_false] at hrule'
  have hs0 : s ≠ 0 ∧ s ≠ 1 := by omega
  obtain ⟨eo, stk, hb⟩ := hv.cons_of_ne_zero (by omega)
  rw [hb] at hv
  obtain ⟨hvo, hedge, hok⟩ := hv.tail
  have ho : eo.yys = o := edge_source hedge (by
    rw [hs]; rcases hrule' with ⟨rfl, rfl, -, -⟩ | ⟨rfl, rfl, -, -⟩ | ⟨rfl, rfl, -, -⟩ <;> rfl)
  obtain ⟨eg, stk', rfl⟩ := hvo.cons_of_ne_zero (by omega)
  obtain ⟨hvg, hedge', -⟩ := hvo.tail
  have hg : eg.yys = 2 ∨ eg.yys = 13 := edge_operator hedge' (by rw [ho]; omega)
  obtain ⟨b, stk'', rfl⟩ := hvg.cons_of_ne_zero (by omega)
  obtain ⟨hvb, hedgeb, hokg⟩ := hvg.tail
  have hrow : (row b.yys)[6]? = some (eg.yys + 8) := by
    have := edge_eq hedgeb
    rcases hg with hg | hg <;> simpa [hg, accessCol, accessCols] using this
  have hblt : b.yys < 15 := hvb.lt b (List.mem_cons_self _ _)
  have hred : yyReductions.lookup r = some (6, 3) := by
    rcases hrule' with ⟨-, -, rfl, -⟩ | ⟨-, -, rfl, -⟩ | ⟨-, -, rfl, -⟩ <;> rfl
  have hact : semanticAction r ([p.top, eo, eg] ++ b :: stk'') eg p.result =
      ({ eg with node := .binary op eg.node p.top.node }, p.result) := by
    rcases hrule' with ⟨-, -, rfl, rfl⟩ | ⟨-, -, rfl, rfl⟩ | ⟨-, -, rfl, rfl⟩ <;> rfl
  have hres : p.result = .nil := by have := h.result; simp [hs, hs0.2] at this; exact this
  have hwf : eg.node.wf = true ∧ p.top.node.wf = true ∧ p.top.node.isBinary = false := by
    have hokg' : eg.node.wf = true := by
      rcases hg with hg | hg <;> simpa [SymType.ok, hg] using hokg
    have hok' : p.top.node.wf = true ∧ p.top.node.isBinary = false := by
      rcases hrule' with ⟨rfl, -⟩ | ⟨rfl, -⟩ | ⟨rfl, -⟩ <;> simpa [SymType.ok, hs] using hok
    exact ⟨hokg', hok'⟩
  rw [Parser.reduce_eq (l := [p.top, eo, eg]) hred rfl (by decide) (by rw [hb]; rfl) hblt hrow]
  simp only [List.getD_cons_succ, List.getD_cons_zero, Nat.add_one_sub_one, hact]
  refine ⟨Inv.reduce h (l := [p.top, eo, eg]) (by rw [hb]; rfl) rfl rfl rfl rfl rfl rfl
    hedgeb ?_ ?_ ?_, ?_⟩
  · rcases hg with hg | hg <;> simp [SymType.ok, hg, hwf]
  · have hyo : eo.yield = [op.token] := by
      rcases hrule' with ⟨-, rfl, -, rfl⟩ | ⟨-, rfl, -, rfl⟩ | ⟨-, rfl, -, rfl⟩ <;>
        simp [SymType.yield, ho, BinOp.token]
    have hyt : p.top.yield = p.top.node.yield := by
      rcases hrule' with ⟨rfl, -⟩ | ⟨rfl, -⟩ | ⟨rfl, -⟩ <;> simp [SymType.yield, hs]
    have hyg : eg.yield = eg.node.yield := by rcases hg with hg | hg <;> simp [SymType.yield, hg]
    rw [SymType.yield_of_node (by rcases hg with hg | hg <;> simp [nodeStates, hg])]
    simp [Node.yield, stackYield, hyo, hyt, hyg]
  · rcases hg with hg | hg <;> simp [hg, hres]
  · simp only [Parser.measure, hb, List.length_cons]
    rcases hg with hg | hg <;> simp only [hg, weight] <;> omega

end Reductions

section Actions

variable {ts : List Token} {p : Parser (List Token)}

theorem Inv.char_eof (h : Inv ts p) (hc : 0 < p.char) (hx : xchar p.char = 0) :
    p.char = yyEofCode := by
  obtain ⟨rest, hpend, -⟩ := h.tokens
  cases hpend with
  | unread hneg => omega
  | eof he _ => exact he
  | token t he _ => exact absurd (he ▸ hx) t.xchar_ne_zero

theorem act_shift (h : Inv ts p) (hc : 0 < p.char) (hs : p.top.yys < 15) {k : Int} (hk : 0 < k)
    (hact : yyAction (row p.top.yys) (xchar p.char) = k) :
    StepOk ts p (.next (p.shift k.toNat)) := by
  have hc10 : xchar p.char < 10 := by
    by_contra hge
    rw [yyAction_row_ge (by omega)] at hact
    omega
  obtain ⟨hedge, hcol⟩ := shift_entry _ hs _ hc10 (by rw [hact]; exact hk)
  rw [hact] at hedge hcol
  have hs1 : p.top.yys ≠ 1 := fun h1 => by rw [h1, accept_entry] at hact; omega
  have hres : p.result = .nil := by have := h.result; simp [hs1] at this; exact this
  obtain ⟨rest, hpend, hts⟩ := h.tokens
  cases hpend with
  | unread hneg => omega
  | eof he _ =>
    have := shift_eof _ hs
    rw [he, show xchar yyEofCode = 0 by decide] at hact
    omega
  | token t hct hl =>
    have hk15 : k.toNat < 15 := (edge_lt hedge).2
    obtain ⟨hyield, hok, hw, hk1⟩ := shift_token t hl hk15 (hct ▸ hcol)
    refine ⟨⟨.push h.viable hedge hok, ⟨p.lexer, .unread (by simp [Parser.shift]), ?_⟩, ?_,
      h.errors, ?_⟩, ?_⟩
    · simp only [Parser.shift, stackYield] at hts ⊢
      rw [hyield, ← hts]
      simp
    · simp [Parser.shift, h.errflag]
    · simp [Parser.shift, hk1, hres]
    · have ht := t.code_pos
      simp only [Parser.measure, Parser.shift, List.length_cons, hct, ht.1, ht.2, ne_eq,
        not_false_eq_true, and_self, if_true]
      simp
      omega

theorem act_accept (h : Inv ts p) (h1 : p.top.yys = 1) :
    ∃ t, t.wf = true ∧ t.yield = ts ∧ p.result = .root t := by
  have hv := h.viable
  obtain ⟨b, stk, hb⟩ := hv.cons_of_ne_zero (by omega)
  rw [hb] at hv
  obtain ⟨hv', hedge, hok⟩ := hv.tail
  have hb0 : b.yys = 0 := edge_source hedge (by rw [h1]; rfl)
  obtain rfl : stk = [] := (hv'.zero_iff).mp hb0
  have hres := h.result
  simp only [h1, if_true] at hres
  obtain ⟨rest, hpend, hts⟩ := h.tokens
  have hrest : rest = [] := by
    cases hpend with
    | unread hneg => simp [hres.2, yyEofCode] at hneg
    | eof _ _ => rfl
    | token t he _ => exact absurd (he ▸ hres.2) t.code_pos.2
  refine ⟨p.top.node, by simpa [SymType.ok, h1] using hok, ?_, hres.1⟩
  rw [← hts, hrest, hb]
  simp [stackYield, SymType.yield, hb0, h1]

theorem act_error (h : Inv ts p) (h1 : p.top.yys ≠ 1) : StepOk ts p p.error := by
  have hres : p.result = .nil := by have := h.result; simp [h1] at this; exact this
  have hall : (p.top :: p.below).all (fun e => e.yys < yyParseTab.length) = true := by
    simpa using fun e he => h.viable.lt e he
  simp only [Parser.error, h.errflag, Parser.recover]
  rw [if_pos hall]
  exact .inr ⟨rfl, ⟨errorMessage p.char, by simp [h.errors]⟩, hres⟩

theorem act_ok (h : Inv ts p) (hc : 0 < p.char) : StepOk ts p p.act := by
  have hs := h.viable.lt p.top (List.mem_cons_self _ _)
  unfold Parser.act
  rw [getElem?_yyParseTab hs]
  dsimp only
  rcases Int.lt_trichotomy (yyAction (row p.top.yys) (xchar p.char)) 0 with hneg | hzero | hpos
  · rw [if_neg (by omega), if_pos hneg]
    have hc10 : xchar p.char < 10 := by
      by_contra hge
      rw [yyAction_row_ge (by omega)] at hneg
      omega
    obtain ⟨hmem, h2⟩ := reduce_entry _ hs _ hc10 hneg
    simp only [reductions, List.contains_cons, List.contains_nil, Bool.or_eq_true, beq_iff_eq,
      Prod.mk.injEq, Bool.or_false] at hmem
    rcases hmem with ⟨hs', he⟩ | ⟨hs', he⟩ | ⟨hs', he⟩ | ⟨hs', he⟩ | ⟨hs', he⟩ | ⟨hs', he⟩ |
      ⟨hs', he⟩ <;> rw [he]
    · exact reduce_start h hs' (h.char_eof hc (h2 hs'))
    · exact reduce_term h hs'
    · exact reduce_paren h hs'
    · exact reduce_not h hs'
    · exact reduce_binary h (show (12, 7, 5, BinOp.and) ∈ binaryRules by decide) hs'
    · exact reduce_binary h (show (11, 8, 6, BinOp.or) ∈ binaryRules by decide) hs'
    · exact reduce_binary h (show (10, 9, 7, BinOp.prox) ∈ binaryRules by decide) hs'
  · rw [if_neg (by omega), if_neg (by omega)]
    split
    · exact .inl ⟨rfl, act_accept h ‹_›⟩
    · exact act_error h ‹_›
  · rw [if_pos hpos]
    exact act_shift h hc hs hpos rfl

theorem step_ok (h : Inv ts p) : StepOk ts p (p.step Token.lex) := by
  obtain ⟨hr, hc, hm⟩ := read_inv h
  have hact := act_ok hr hc
  unfold Parser.step
  revert hact
  cases (p.read Token.lex).act with
  | next q => exact fun hq => ⟨hq.1, hm ▸ hq.2⟩
  | ret c q => exact id
  | panic => exact id

end Actions

/-! ## Runs -/

/-- What a fuelled run from an invariant state may end in. -/
def RunOk (ts : List Token) : Exec (Nat × Parser (List Token)) → Prop
  | .done (c, q) => (c = 0 ∧ ∃ t, t.wf = true ∧ t.yield = ts ∧ q.result = .root t) ∨
      (c = 1 ∧ (∃ m, q.errors = [m]) ∧ q.result = .nil)
  | .panic => False
  | .outOfFuel => True

theorem run_ok {ts : List Token} (fuel : Nat) {p : Parser (List Token)} (h : Inv ts p) :
    RunOk ts (p.run Token.lex fuel) := by
  induction fuel generalizing p with
  | zero => trivial
  | succ fuel ih =>
    have hs := step_ok h
    unfold Parser.run
    revert hs
    cases p.step Token.lex with
    | next q => exact fun hq => ih hq.1
    | ret c q => exact id
    | panic => exact id

theorem run_ne_outOfFuel {ts : List Token} {fuel : Nat} {p : Parser (List Token)} (h : Inv ts p)
    (hf : p.measure < fuel) : p.run Token.lex fuel ≠ .outOfFuel := by
  induction fuel generalizing p with
  | zero => omega
  | succ fuel ih =>
    have hs := step_ok h
    unfold Parser.run
    revert hs
    cases p.step Token.lex with
    | next q => exact fun hq => ih hq.1 (by have := hq.2; omega)
    | ret c q => exact fun _ => Exec.noConfusion
    | panic => exact False.elim

theorem init_inv (ts : List Token) : Inv ts (Parser.init ts) where
  viable := .bottom rfl
  tokens := ⟨ts, .unread (show (-1 : Int) < 0 by decide),
    by simp [Parser.init, stackYield, SymType.yield]⟩
  errflag := rfl
  errors := rfl
  result := by simp [Parser.init]

theorem init_measure (ts : List Token) : (Parser.init ts).measure = 5 * ts.length := by
  simp [Parser.measure, Parser.init, weight]

/-- On the token list, a run with more fuel than the measure stops with `done`. -/
theorem run_done {ts : List Token} {fuel : Nat} {p : Parser (List Token)} (h : Inv ts p)
    (hf : p.measure < fuel) : ∃ x, p.run Token.lex fuel = .done x := by
  have hok := run_ok fuel h
  cases hx : p.run Token.lex fuel with
  | done x => exact ⟨x, rfl⟩
  | panic => rw [hx] at hok; exact hok.elim
  | outOfFuel => exact absurd hx (run_ne_outOfFuel h hf)

end MquerySru
