import Mathlib.Data.List.Basic

/-!
# The FCS basic-query AST and the parser's token alphabet

The node types of the query AST (`termNode`, `parenNode`, `unaryNode`, `binaryNode`,
`rootNode`) and their `transform` methods are not among the sources; the goyacc
semantic actions (`yyParse`, rules 1-7) are the only code that builds them, and this
module models the nodes from those actions and from the spec's description of the AST.

The parser reads lexer tokens. `Token` is the alphabet the lexer can hand it before the
end of input: `TERM` with its text, the four keywords, and a single byte, the grammar's
`'('` and `')'` among them (the lexer's fallback only ever returns a form feed or a carriage
return, as `Query/Language` shows). A byte `0` is not a token: `yylex1` reads any code `≤ 0`
as `$end`.

The grammar of the spec, with its precedence (one level for `AND`, `OR`, `PROX`, left
associative; `NOT` tighter), is given by `Node.wf` and `Node.yield`: a token sequence
derives from `start` with tree `t` exactly when `t.wf` and `t.yield` is the sequence.
-/

namespace MquerySru

/-- Go strings are byte strings; `ascii` spells a literal of the source as bytes. -/
def ascii (s : String) : List UInt8 := s.toList.map fun c => c.toNat.toUInt8

/-- The `Op` of a `binaryNode`: the parser writes `"AND"`, `"OR"` or `"PROX"`. -/
inductive BinOp where
  | and | or | prox
  deriving DecidableEq, Repr

/-- Modelled from the spec: a value of the Go interface type `node`. `nil` is the
interface's zero value, which `yySymType.Node` holds until a reduction sets it;
`not` is `unaryNode{Op: "NOT"}`, the only unary node the parser builds. -/
inductive Node where
  | nil
  | term (value : List UInt8)
  | paren (child : Node)
  | not (child : Node)
  | binary (op : BinOp) (left right : Node)
  | root (child : Node)
  deriving DecidableEq, Repr

/-- A token the lexer hands the parser before `EOF`. -/
inductive Token where
  | term (value : List UInt8)
  | not | and | or | prox
  | byte (b : UInt8) (nonzero : b ≠ 0)
  deriving DecidableEq

/-- The literal token `'('`. -/
def Token.lparen : Token := .byte 40 (by decide)

/-- The literal token `')'`. -/
def Token.rparen : Token := .byte 41 (by decide)

/-- The keyword token of a binary operator. -/
def BinOp.token : BinOp → Token
  | .and => .and
  | .or => .or
  | .prox => .prox

/-- `EOF`, the code `Lex` returns when the input is exhausted. -/
def EOF : Int := 0

/-- The token codes goyacc assigns. -/
def TERM : Int := 57346
def NOT : Int := 57347
def AND : Int := 57348
def OR : Int := 57349
def PROX : Int := 57350

/-- What one call of `Lex` returns to the parser: the token code, and the new
`lval.String` when `Lex` sets it (it does not for `EOF` and for single bytes). -/
structure Lexeme where
  code : Int
  text : Option (List UInt8)
  deriving DecidableEq, Repr

/-- A token's code, with the text `Lex` stores for it. -/
def Token.lexeme : Token → Lexeme
  | .term s => ⟨TERM, some s⟩
  | .not => ⟨NOT, some (ascii "NOT")⟩
  | .and => ⟨AND, some (ascii "AND")⟩
  | .or => ⟨OR, some (ascii "OR")⟩
  | .prox => ⟨PROX, some (ascii "PROX")⟩
  | .byte b _ => ⟨b.toNat, none⟩

/-- A token list read as a lexer: each call hands out the next token, and `EOF`
(code `0`) once the list is exhausted. -/
def Token.lex : List Token → Lexeme × List Token
  | [] => (⟨EOF, none⟩, [])
  | t :: ts => (t.lexeme, ts)

/-! ## The grammar -/

/-- The node is a `binaryNode`. -/
def Node.isBinary : Node → Bool
  | .binary .. => true
  | _ => false

/-- `t.wf`: `t` is a tree of the grammar `node := TERM | '(' node ')' | NOT node |
node op node` that respects its precedence: no binary node is the right operand of a
binary node or the operand of `NOT` (those positions need a `Paren`). -/
def Node.wf : Node → Bool
  | .term _ => true
  | .paren c => c.wf
  | .not c => c.wf && !c.isBinary
  | .binary _ l r => l.wf && r.wf && !r.isBinary
  | .nil | .root _ => false

/-- The tokens a tree is written with. -/
def Node.yield : Node → List Token
  | .nil => []
  | .term s => [.term s]
  | .paren c => .lparen :: c.yield ++ [.rparen]
  | .not c => .not :: c.yield
  | .binary op l r => l.yield ++ op.token :: r.yield
  | .root c => c.yield

@[simp] theorem Node.wf_term (s : List UInt8) : (Node.term s).wf = true := rfl

@[simp] theorem Node.wf_paren (c : Node) : (Node.paren c).wf = c.wf := rfl

@[simp] theorem Node.wf_not (c : Node) : (Node.not c).wf = (c.wf && !c.isBinary) := rfl

@[simp] theorem Node.wf_binary (op : BinOp) (l r : Node) :
    (Node.binary op l r).wf = (l.wf && r.wf && !r.isBinary) := rfl

end MquerySru
