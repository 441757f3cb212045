import PolicyEngine.Core.Basic
import PolicyEngine.Lib.Casing
import PolicyEngine.Lib.Words

/-!
# CHECK constraints in stored DDL

The lexer of `schema.go` and the search for a required CHECK in its tokens. A
position in the text is the rest of the text from there. Beside it stands the lexer
that SQLite itself applies to the text, which the search is meant to agree with.
-/

open PolicyEngine.Lib
open PolicyEngine.Lib.Utf8 (CaseTable toUpper upperAscii lossyRunes)

namespace PolicyEngine.Sqlite

/-! ## Character classes -/

def lineFeed : UInt8 := 0x0A
def carriageReturn : UInt8 := 0x0D
def doubleQuote : UInt8 := 0x22
def singleQuote : UInt8 := 0x27
def openBracket : UInt8 := 0x5B
def closeBracket : UInt8 := 0x5D
def backQuote : UInt8 := 0x60

def isSQLiteSpace (value : UInt8) : Bool :=
  value == 0x20 || value == 0x09 || value == lineFeed || value == carriageReturn || value == 0x0C

def isQuote (value : UInt8) : Bool := value == singleQuote || value == doubleQuote || value == backQuote

def isSQLiteBareTokenByte (value : UInt8) : Bool :=
  (0x61 ≤ value && value ≤ 0x7A) || (0x41 ≤ value && value ≤ 0x5A) || (0x30 ≤ value && value ≤ 0x39) ||
    value == 0x5F || value == 0x24 || 0x80 ≤ value

def isSQLiteTwoByteOperator (value : Bytes) : Bool :=
  [ascii ">=", ascii "<=", ascii "<>", ascii "!=", ascii "==", ascii "||", ascii "<<", ascii ">>"].contains value

/-! ## The lexer -/

inductive DdlToken where
  | word (text : Bytes)
  | quoted
  | symbol (text : Bytes)
  deriving DecidableEq, Repr

def skipSQLiteLineComment : Bytes → Bytes
  | [] => []
  | b :: rest => if b != lineFeed && b != carriageReturn then skipSQLiteLineComment rest else b :: rest

/-- The text behind the first `*/`. -/
def skipSQLiteBlockComment : Bytes → Option Bytes
  | b :: c :: rest => if [b, c] == ascii "*/" then some rest else skipSQLiteBlockComment (c :: rest)
  | _ => none

/-- The text behind the closing delimiter; a doubled one does not close. -/
def skipSQLiteDelimitedToken (delimiter : UInt8) : Bytes → Option Bytes
  | [] => none
  | b :: rest =>
    if b != delimiter then skipSQLiteDelimitedToken delimiter rest
    else
      match rest with
      | [] => some []
      | c :: rest' => if c == delimiter then skipSQLiteDelimitedToken delimiter rest' else some (c :: rest')

def skipSQLiteBracketIdentifier (value : Bytes) : Option Bytes := skipSQLiteDelimitedToken closeBracket value

/-- One or two bytes that belong to nothing else. -/
def symbolAt (b : UInt8) (rest : Bytes) : Bytes × Bytes :=
  if isSQLiteTwoByteOperator (b :: rest.take 1) then (b :: rest.take 1, rest.drop 1) else ([b], rest)

section

variable [CaseTable]

/-- One round of the loop at a nonempty rest: what it appends, or its error. -/
def nextDDLToken (b : UInt8) (rest : Bytes) : Result (Option DdlToken) × Bytes :=
  if isSQLiteSpace b then (.ok none, rest)
  else if (ascii "--").isPrefixOf (b :: rest) then (.ok none, skipSQLiteLineComment (rest.drop 1))
  else if (ascii "/*").isPrefixOf (b :: rest) then
    match skipSQLiteBlockComment (rest.drop 1) with
    | none => (.error .integrity, [])
    | some after => (.ok none, after)
  else if isQuote b then
    match skipSQLiteDelimitedToken b rest with
    | none => (.error .integrity, [])
    | some after => (.ok (some .quoted), after)
  else if b == openBracket then
    match skipSQLiteBracketIdentifier rest with
    | none => (.error .integrity, [])
    | some after => (.ok (some .quoted), after)
  else if isSQLiteBareTokenByte b then
    (.ok (some (.word (toUpper (b :: rest.takeWhile isSQLiteBareTokenByte)))), rest.dropWhile isSQLiteBareTokenByte)
  else (.ok (some (.symbol (symbolAt b rest).1)), (symbolAt b rest).2)

/-- The tokens appended up to the first error. -/
def collect : List (Result (Option DdlToken)) → Result (List DdlToken)
  | [] => .ok []
  | .error e :: _ => .error e
  | .ok token :: rest => (token.toList ++ ·) <$> collect rest

def canonicalDDLTokens (ddl : Bytes) : Result (List DdlToken) := collect (Lexer.lexemes nextDDLToken ddl)

/-! ## The search -/

def isDDLWord (token : DdlToken) (word : String) : Bool := token == .word (ascii word)

def isDDLSymbol (token : DdlToken) (symbol : String) : Bool := token == .symbol (ascii symbol)

/-- The scan for the closing parenthesis, at a depth and an index. -/
def matchingFrom (depth : Int) (index : Nat) : List DdlToken → Option Nat
  | [] => none
  | token :: tokens =>
    if isDDLSymbol token "(" then matchingFrom (depth + 1) (index + 1) tokens
    else if isDDLSymbol token ")" then
      if depth - 1 = 0 then some index
      else if depth - 1 < 0 then none
      else matchingFrom (depth - 1) (index + 1) tokens
    else matchingFrom depth (index + 1) tokens

def matchingDDLParenthesis (tokens : List DdlToken) ( open_ : Nat) : Option Nat :=
  matchingFrom 0 open_ (tokens.drop open_)

/-- Whether the tokens from `index` on start with `CHECK (`. -/
def checkAt (tokens : List DdlToken) (index : Nat) : Bool :=
  (tokens[index]?.any (isDDLWord · "CHECK")) && (tokens[index + 1]?.any (isDDLSymbol · "("))

def canonicalCheckExpression (check : Bytes) : Option (List DdlToken) :=
  match canonicalDDLTokens check with
  | .error _ => none
  | .ok tokens =>
    if tokens.length < 4 || !checkAt tokens 0 then none
    else
      match matchingDDLParenthesis tokens 1 with
      | none => none
      | some end_ => if end_ != tokens.length - 1 || end_ == 2 then none else some (slice tokens 2 end_)

/-- The search loop over the indexes that are left. -/
def containsFrom (tokens expression : List DdlToken) : List Nat → Bool
  | [] => false
  | index :: indexes =>
    if !checkAt tokens index then containsFrom tokens expression indexes
    else
      match matchingDDLParenthesis tokens (index + 1) with
      | none => false
      | some end_ => slice tokens (index + 2) end_ == expression || containsFrom tokens expression indexes

def containsCanonicalCheck (tokens expression : List DdlToken) : Bool :=
  containsFrom tokens expression (List.range (tokens.length - 2))

/-- The checks that the stored DDL of one table must hold. -/
def validateTableChecks (ddl : Bytes) (checks : List Bytes) : Result Unit := do
  let tokens ← orFail .integrity (canonicalDDLTokens ddl)
  checks.forM fun check =>
    match canonicalCheckExpression check with
    | none => .error .integrity
    | some expression => require (containsCanonicalCheck tokens expression) .integrity

end

/-- The checks of the first schema version. -/
def requiredChecks : List Bytes :=
  [ascii "CHECK (DATA_GENERATION >= 0)", ascii "CHECK (EVENT_SEQUENCE >= 0)", ascii "CHECK (EXPIRED_THROUGH >= 0)",
    ascii "CHECK (GENERATION > 0)", ascii "CHECK (SEQUENCE > 0)"]

end PolicyEngine.Sqlite
