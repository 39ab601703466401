import MquerySru.Query.Ast

/-!
# The lexer `basicTransformer.Lex`

`Lex` skips the bytes `isSpace` accepts, returns `EOF` on an exhausted input, tries the
regular expressions of `tokens` in order (the first non-empty match wins), and falls
back to returning the next byte as its own token. The lexer's state is the
transformer's remaining `input`, a byte string.

Go's `regexp` works on runes and reads an invalid byte as `U+FFFD`. The three patterns
only look for the ASCII bytes `"`, line feed and RE2's `\s` class, which never occur
inside a multi-byte rune, so each `FindString` is written here on bytes.
-/

namespace MquerySru

/-- `isSpace`: the bytes `Lex` skips before a token (space, tab, line feed). -/
def isSpace (c : UInt8) : Bool := c == 32 || c == 9 || c == 10

/-- RE2's `\s`, the class `[\t\n\f\r ]`. -/
def isRegexSpace (c : UInt8) : Bool := c == 9 || c == 10 || c == 12 || c == 13 || c == 32

/-- `tokenDef`: a compiled regular expression, given by its `FindString` (the leftmost
match, `""` when there is none), and the token it yields. -/
structure TokenDef where
  findString : List UInt8 → List UInt8
  token : Int

/-- `FindString` of a literal anchored at the start, such as `^NOT`. -/
def findLiteral (lit s : List UInt8) : List UInt8 := if lit.isPrefixOf s then lit else []

/-- `FindString` of `^\".*\"`: a quote, then the longest run of bytes other than a line
feed that ends in a quote (`.` does not match a line feed, and `.*` is greedy). -/
def findQuoted : List UInt8 → List UInt8
  | 34 :: rest =>
    match (rest.takeWhile (· != 10)).reverse.dropWhile (· != 34) with
    | [] => []
    | body => 34 :: body.reverse
  | _ => []

/-- `FindString` of `^[\S]*`: the longest prefix of bytes outside `\s`. -/
def findNonSpace (s : List UInt8) : List UInt8 := s.takeWhile fun c => !isRegexSpace c

/-- `tokens`, in the order `Lex` tries them. -/
def tokens : List TokenDef :=
  [⟨findLiteral (ascii "NOT"), NOT⟩, ⟨findLiteral (ascii "AND"), AND⟩,
   ⟨findLiteral (ascii "OR"), OR⟩, ⟨findLiteral (ascii "PROX"), PROX⟩,
   ⟨findQuoted, TERM⟩, ⟨findNonSpace, TERM⟩]

/-- `strings.Trim(str, "\"")`: drop every leading and trailing quote. -/
def trimQuotes (s : List UInt8) : List UInt8 :=
  ((s.dropWhile (· == 34)).reverse.dropWhile (· == 34)).reverse

/-- The first entry of `tokens` with a non-empty match, with that match. -/
def firstMatch (input : List UInt8) : Option (List UInt8 × Int) :=
  tokens.findSome? fun d =>
    let str := d.findString input
    if str.isEmpty then none else some (str, d.token)

/-- `basicTransformer.Lex` on the remaining input: the lexeme and the input left. -/
def BasicTransformer.lex (input : List UInt8) : Lexeme × List UInt8 :=
  match input.dropWhile isSpace with
  | [] => (⟨EOF, none⟩, [])
  | c :: rest =>
    match firstMatch (c :: rest) with
    | some (str, tok) =>
      (⟨tok, some (if tok = TERM then trimQuotes str else str)⟩, (c :: rest).drop str.length)
    | none => (⟨c.toNat, none⟩, rest)

end MquerySru
