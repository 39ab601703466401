import MquerySru.Query.Lexer

/-!
# The goyacc parser `yyParse` and `NewBasicTransformer`

A transcription of the generated parser: the tables `yyXLAT`, `yyReductions` and
`yyParseTab`, the stack `yyS`, and the loop between the labels `yystack` and
`yynewstate`. A `Parser` is the parser's state at `yynewstate`; `Parser.step` runs the
loop once, up to the next `yynewstate` or a `return`, and `Parser.run` iterates it on
fuel. The parser is generic in its lexer's state `σ`: `BasicTransformer.lex` for the
transformer, `Token.lex` for a bare token list.

Where the model leaves the Go text, the parser's behaviour is unchanged:
* `yyS` is the list of live entries `yyS[yyp], ..., yyS[0]` (`top` and `below`); the
  slice's growth is invisible, and every rule of `yyReductions` has a component, so
  `yyS[yyp+1]` after a pop is the deepest popped entry.
* `yyDebug = 0`, and a `basicTransformer` has no `Reduced` method (`yyEx = nil`).
* `yyXErrors` and `yyTokenLiteralStrings` are empty, so every lookup in them misses;
  `yyshift` and `Nerrs`, which only feed those lookups or are never read, are dropped.
* `yyxchar` is always `yyXLAT[yychar]` where it is read, and is computed there.
* no row of `yyParseTab` reaches the `error` column `yyError`
  (`yyParseTab_length_le`), so the recovery loop pops every entry and returns 1.
* a goto entry below `8` gives a negative `yystate`, on which the next
  `yyParseTab[yystate]` panics; the model panics at the goto.
-/

namespace MquerySru

/-- `yyTabOfs`. -/
def yyTabOfs : Int := -8

/-- `yyEofCode`, the code of `$end`. -/
def yyEofCode : Int := 57344

/-- `yyError`, the column of the `error` symbol. -/
def yyError : Nat := 11

/-- `yyXLAT`: the column of each symbol code. -/
def yyXLAT : List (Int × Nat) :=
  [(57344, 0), (57348, 1), (57349, 2), (57350, 3), (41, 4), (40, 5), (57352, 6),
   (57347, 7), (57346, 8), (57353, 9), (57351, 10), (57345, 11)]

/-- `yySymNames`. -/
def yySymNames : List String :=
  ["$end", "AND", "OR", "PROX", "')'", "'('", "node", "NOT", "TERM", "start",
   "$default", "error"]

/-- `yyReductions`: rule number to `(xsym, components)`. -/
def yyReductions : List (Nat × Nat × Nat) :=
  [(0, 0, 1), (1, 9, 1), (2, 6, 1), (3, 6, 3), (4, 6, 2), (5, 6, 3), (6, 6, 3), (7, 6, 3)]

/-- `yyParseTab`, one row per state; goyacc's sparse rows such as `{5: 12, 10, 13, 11, 9}`
are written out with their leading zeros. -/
def yyParseTab : List (List Nat) :=
  [[0, 0, 0, 0, 0, 12, 10, 13, 11, 9],
   [8],
   [7, 15, 16, 17],
   [6, 6, 6, 6, 6],
   [0, 0, 0, 0, 0, 12, 21, 13, 11],
   [0, 0, 0, 0, 0, 12, 14, 13, 11],
   [4, 4, 4, 4, 4],
   [0, 0, 0, 0, 0, 12, 20, 13, 11],
   [0, 0, 0, 0, 0, 12, 19, 13, 11],
   [0, 0, 0, 0, 0, 12, 18, 13, 11],
   [1, 1, 1, 1, 1],
   [2, 2, 2, 2, 2],
   [3, 3, 3, 3, 3],
   [0, 15, 16, 17, 22],
   [5, 5, 5, 5, 5]]

/-- No row has an entry in the `error` column: error recovery never finds a state to
resume in. -/
theorem yyParseTab_length_le : ∀ row ∈ yyParseTab, row.length ≤ yyError := by
  decide

/-- Two lowercase hex digits, as in Go's `\x` escapes. -/
def hex2 (n : Nat) : String :=
  let d := Nat.toDigits 16 n
  String.mk (if d.length < 2 then '0' :: d else d)

/-- Go's `%q` of a code below `0x7f`: a single-quoted, escaped character literal. -/
def goQuoteRune (c : Int) : String :=
  let q := String.singleton (Char.ofNat 39)
  let body := match c.toNat with
    | 7 => "\\a" | 8 => "\\b" | 9 => "\\t" | 10 => "\\n" | 11 => "\\v" | 12 => "\\f"
    | 13 => "\\r" | 39 => "\\" ++ q | 92 => "\\\\"
    | n => if c < 0 then "\uFFFD" else if 32 ≤ n then (Char.ofNat n).toString else "\\x" ++ hex2 n
  q ++ body ++ q

/-- `yySymName`. -/
def yySymName (c : Int) : String :=
  match yyXLAT.lookup c with
  | some x => yySymNames.getD x ""
  | none => if c < 0x7f then goQuoteRune c else toString c

/-- The message `yyParse` hands to `Error` on a new error, with `yyXErrors` and
`yyTokenLiteralStrings` empty. -/
def errorMessage (c : Int) : String :=
  if 0 < c then "unexpected " ++ yySymName c else "syntax error"

/-- `yylex1`: a code `≤ 0` is the end of input. -/
def yylex1 (n : Int) : Int := if n ≤ 0 then yyEofCode else n

/-- `yyxchar` of a code: its `yyXLAT` column, or `len(yySymNames)`, past every row. -/
def xchar (c : Int) : Nat := (yyXLAT.lookup c).getD yySymNames.length

/-- `yyn` at a row and column: `0` for a missing or zero entry, else the entry plus
`yyTabOfs`. -/
def yyAction (row : List Nat) (x : Nat) : Int :=
  match row[x]? with
  | some v => if v = 0 then 0 else v + yyTabOfs
  | none => 0

/-- `yySymType`: a stack entry, its state `yys`, its `String` and its `Node`. -/
structure SymType where
  yys : Nat
  str : List UInt8
  node : Node
  deriving DecidableEq, Repr

/-- The parser at `yynewstate`, with the fields of the transformer it writes. -/
structure Parser (σ : Type) where
  /-- `yyS[yyp]`; its `yys` is `yystate`. -/
  top : SymType
  /-- `yyS[yyp-1], ..., yyS[0]`. -/
  below : List SymType
  /-- `yychar`, `-1` when no lookahead has been read. -/
  char : Int
  /-- `yylval.String`. -/
  lval : List UInt8
  /-- `Errflag`. -/
  errflag : Nat
  /-- The lexer's state. -/
  lexer : σ
  /-- The transformer's `parseResult`. -/
  result : Node
  /-- The transformer's `errors`, as their messages. -/
  errors : List String
  deriving DecidableEq, Repr

/-- Where one pass of the loop ends. -/
inductive Step (σ : Type) where
  | next (p : Parser σ)
  | ret (code : Nat) (p : Parser σ)
  | panic

/-- The end of a fuelled run: a value, a Go runtime panic, or no end within the fuel. -/
inductive Exec (α : Type) where
  | done (a : α)
  | panic
  | outOfFuel
  deriving DecidableEq, Repr

/-- The parser before its first pass: `yyS[0]` is the zero `yySymType` in state 0. -/
def Parser.init {σ : Type} (s : σ) : Parser σ :=
  ⟨⟨0, [], .nil⟩, [], -1, [], 0, s, .nil, []⟩

/-- The semantic action of rule `r` on the stack before the pop (`stk[k]` is
`yyS[yypt-k]`): the new `yyVAL` and `parseResult`. -/
def semanticAction (r : Nat) (stk : List SymType) (val : SymType) (result : Node) :
    SymType × Node :=
  let at_ := fun k => (stk.getD k ⟨0, [], .nil⟩)
  match r with
  | 1 => (val, .root (at_ 0).node)
  | 2 => ({ val with node := .term (at_ 0).str }, result)
  | 3 => ({ val with node := .paren (at_ 1).node }, result)
  | 4 => ({ val with node := .not (at_ 0).node }, result)
  | 5 => ({ val with node := .binary .and (at_ 2).node (at_ 0).node }, result)
  | 6 => ({ val with node := .binary .or (at_ 2).node (at_ 0).node }, result)
  | 7 => ({ val with node := .binary .prox (at_ 2).node (at_ 0).node }, result)
  | _ => (val, result)

section Loop

variable {σ : Type} (lex : σ → Lexeme × σ)

/-- The head of `yynewstate`: read a lookahead when `yychar < 0`. -/
def Parser.read (p : Parser σ) : Parser σ :=
  if p.char < 0 then
    { p with char := yylex1 (lex p.lexer).1.code, lval := (lex p.lexer).1.text.getD p.lval,
             lexer := (lex p.lexer).2 }
  else p

@[simp] theorem Parser.read_top (p : Parser σ) : (p.read lex).top = p.top := by
  unfold Parser.read; split <;> rfl

@[simp] theorem Parser.read_below (p : Parser σ) : (p.read lex).below = p.below := by
  unfold Parser.read; split <;> rfl

@[simp] theorem Parser.read_errflag (p : Parser σ) : (p.read lex).errflag = p.errflag := by
  unfold Parser.read; split <;> rfl

@[simp] theorem Parser.read_result (p : Parser σ) : (p.read lex).result = p.result := by
  unfold Parser.read; split <;> rfl

@[simp] theorem Parser.read_errors (p : Parser σ) : (p.read lex).errors = p.errors := by
  unfold Parser.read; split <;> rfl

/-- `case yyn > 0`: consume the lookahead and push state `s`. -/
def Parser.shift (p : Parser σ) (s : Nat) : Parser σ :=
  { p with top := ⟨s, p.lval, .nil⟩, below := p.top :: p.below, char := -1,
           errflag := p.errflag - 1 }

/-- Reduction by rule `r`: pop its components, consult the goto entry of the uncovered
state, run the semantic action and push `yyVAL` in the goto state. -/
def Parser.reduce (p : Parser σ) (r : Nat) : Step σ :=
  let xn := (yyReductions.lookup r).getD (0, 0)
  let stk := p.top :: p.below
  match stk.drop xn.2 with
  | [] => .panic
  | base :: rest =>
    match (yyParseTab[base.yys]?).bind (·[xn.1]?) with
    | none => .panic
    | some g =>
      if g < 8 then .panic
      else
        let vr := semanticAction r stk (stk.getD (xn.2 - 1) base) p.result
        .next { p with top := { vr.1 with yys := g - 8 }, below := base :: rest,
                       result := vr.2 }

/-- Error recovery with `Errflag = 3`: look down the stack for a state with an `error`
shift. There is none, so every entry is popped (each row lookup must be in range) and
the parse returns 1. -/
def Parser.recover (p : Parser σ) : Step σ :=
  if (p.top :: p.below).all (fun e => e.yys < yyParseTab.length) then .ret 1 p else .panic

/-- `yyn == 0` outside state 1: the `switch Errflag`. A flag above 3 matches no case and
falls through to the reduction by rule `-yyn = 0`. -/
def Parser.error (p : Parser σ) : Step σ :=
  match p.errflag with
  | 0 => Parser.recover { p with errors := p.errors ++ [errorMessage p.char], errflag := 3 }
  | 1 | 2 => Parser.recover { p with errflag := 3 }
  | 3 => if p.char = yyEofCode then .ret 1 p else .next { p with char := -1 }
  | _ => p.reduce 0

/-- The rest of a pass, once the lookahead is read: the `yyParseTab` lookup and the
`switch` on `yyn`. -/
def Parser.act (p : Parser σ) : Step σ :=
  match yyParseTab[p.top.yys]? with
  | none => .panic
  | some row =>
    let yyn := yyAction row (xchar p.char)
    if 0 < yyn then .next (p.shift yyn.toNat)
    else if yyn < 0 then p.reduce (-yyn).toNat
    else if p.top.yys = 1 then .ret 0 p
    else p.error

/-- One pass from `yynewstate`. -/
def Parser.step (p : Parser σ) : Step σ := (p.read lex).act

/-- The loop, on fuel. -/
def Parser.run : Nat → Parser σ → Exec (Nat × Parser σ)
  | 0, _ => .outOfFuel
  | fuel + 1, p =>
    match p.step lex with
    | .next q => Parser.run fuel q
    | .ret c q => .done (c, q)
    | .panic => .panic

/-- `yyParse`, with the lexer starting in state `s`. -/
def yyParse (fuel : Nat) (s : σ) : Exec (Nat × Parser σ) :=
  Parser.run lex fuel (Parser.init s)

end Loop

/-! ## The transformer -/

/-- `basicTransformer`; `errors` holds the messages of its `[]error`. -/
structure BasicTransformer where
  input : List UInt8
  parseResult : Node
  defaultAttr : List UInt8
  errors : List String
  deriving DecidableEq, Repr

/-- `TranslateWithinCtx`. -/
def translateWithinCtx (v : String) : String :=
  match v with
  | "sentence" | "s" => "s"
  | "utterance" | "u" => "u"
  | "paragraph" | "p" => "p"
  | "turn" | "t" => "t"
  | "text" => "doc"
  | "session" => "session"
  | _ => "??"

/-- `NewBasicTransformer`: run `yyParse` with the transformer as its lexer and return
the first error, if any. The struct literal sets only `input`: the attribute argument is
never read, and `defaultAttr` keeps its zero value. The fuel covers the loop: every pass consumes input or shrinks the
stack. -/
def newBasicTransformer (input _defaultAttr : List UInt8) :
    Exec (Except String BasicTransformer) :=
  match yyParse BasicTransformer.lex (5 * input.length + 3) input with
  | .done (_, p) =>
    .done (match p.errors with
      | e :: _ => .error e
      | [] => .ok ⟨p.lexer, p.result, [], p.errors⟩)
  | .panic => .panic
  | .outOfFuel => .outOfFuel

/-- The parenthesised query `(a)` comes back as the single term `(a)`: the catch-all
`^[\S]*` rule of `tokens` matches the brackets before the single-byte fallback can. -/
theorem newBasicTransformer_paren_term :
    newBasicTransformer (ascii "(a)") (ascii "word") =
      .done (.ok ⟨[], .root (.term (ascii "(a)")), [], []⟩) := rfl

/-- `Generate`: the codegen fold `transform` (a method of the AST nodes, which are not
among the sources) applied to `parseResult` and `defaultAttr`; its error is appended. -/
def BasicTransformer.generate
    (transform : Node → List UInt8 → List UInt8 × Option String) (t : BasicTransformer) :
    List UInt8 × BasicTransformer :=
  ((transform t.parseResult t.defaultAttr).1,
   { t with errors := t.errors ++ (transform t.parseResult t.defaultAttr).2.toList })

end MquerySru
