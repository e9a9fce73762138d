import Chronolog.Compiler.Names
import Mathlib.Data.List.DropRight

/-!
# The scanner of statements

An `UPDATE` or `DELETE` with a `LIMIT` is not in the grammar of the parser. The compiler finds the
words and the parameters of the text itself (`scanSql`): it skips quoted texts, quoted names and
comments, and counts parentheses. (Texts are lists of characters here, and lists of UTF-16 code units
in the source; no test of the scanner tells the two apart.)
-/

namespace Chronolog.Compiler

/-- A word or a parameter of a text, with the depth of the parentheses around it. -/
structure Token where
  start : ℕ
  stop : ℕ
  text : String
  depth : ℕ
  deriving DecidableEq

def isWordStart (c : Char) : Bool := c.isAlpha || c = '_'

def isWordCharacter (c : Char) : Bool := c.isAlphanum || c = '_'

def isSqliteParameterNameCharacter (c : Char) : Bool := isWordCharacter c || 0x80 ≤ c.toNat

/-- The length of the rest of a quoted text or name. A quote in it is doubled, but for brackets. -/
def quotedLength (close : Char) : List Char → ℕ
  | [] => 0
  | [_] => 1
  | c :: c' :: rest =>
    if c = close then
      if close ≠ ']' ∧ c' = close then 2 + quotedLength close rest else 1
    else 1 + quotedLength close (c' :: rest)

/-- The source's `indexOf` of the end of a comment. -/
def commentEnd : List Char → Option ℕ
  | [] | [_] => none
  | c :: c' :: rest =>
    if c = '*' ∧ c' = '/' then some 0 else (commentEnd (c' :: rest)).map (· + 1)

/-- The length of the names after the first one of a `$` parameter, each after two colons. -/
def qualifiedLength : ℕ → List Char → ℕ
  | fuel + 1, ':' :: ':' :: c :: rest =>
    if isSqliteParameterNameCharacter c then
      let n := ((c :: rest).takeWhile isSqliteParameterNameCharacter).length
      2 + n + qualifiedLength fuel ((c :: rest).drop n)
    else 0
  | _, _ => 0

/-- The length of the text in parentheses at the end of a `$` parameter. -/
def parenthesizedLength : List Char → ℕ
  | '(' :: rest =>
    match rest.findIdx? (· = ')') with
    | some n => n + 2
    | none => 0
  | _ => 0

/-- The length of a parameter without its first character. -/
def parameterLength (first : Char) (rest : List Char) : ℕ :=
  if first = '?' then (rest.takeWhile Char.isDigit).length
  else
    let n := (rest.takeWhile isSqliteParameterNameCharacter).length
    if first = '$' ∧ 0 < n then
      let m := n + qualifiedLength rest.length (rest.drop n)
      m + parenthesizedLength (rest.drop m)
    else n

/-- The words and parameters of a text from a position on. Every step takes a character at least. -/
def scanFrom : ℕ → ℕ → ℕ → List Char → List Token
  | 0, _, _, _ | _, _, _, [] => []
  | fuel + 1, index, depth, c :: rest =>
    if c = '\'' ∨ c = '"' ∨ c = '`' ∨ c = '[' then
      let n := quotedLength (if c = '[' then ']' else c) rest
      scanFrom fuel (index + 1 + n) depth (rest.drop n)
    else if c = '-' ∧ rest.head? = some '-' then
      match rest.tail.findIdx? (· = '\n') with
      | none => []
      | some n => scanFrom fuel (index + 2 + n) depth (rest.tail.drop n)
    else if c = '/' ∧ rest.head? = some '*' then
      match commentEnd rest.tail with
      | none => []
      | some n => scanFrom fuel (index + n + 4) depth (rest.tail.drop (n + 2))
    else if c = '(' then scanFrom fuel (index + 1) (depth + 1) rest
    else if c = ')' then scanFrom fuel (index + 1) (depth - 1) rest
    else if isWordStart c then
      let n := (rest.takeWhile isWordCharacter).length
      ⟨index, index + 1 + n, String.ofList (c :: rest.take n), depth⟩ ::
        scanFrom fuel (index + 1 + n) depth (rest.drop n)
    else if c = '?' ∨ c = ':' ∨ c = '@' ∨ c = '$' then
      let n := parameterLength c rest
      if c ≠ '?' ∧ n = 0 then scanFrom fuel (index + 1) depth rest
      else ⟨index, index + 1 + n, String.ofList (c :: rest.take n), depth⟩ ::
        scanFrom fuel (index + 1 + n) depth (rest.drop n)
    else scanFrom fuel (index + 1) depth rest

def scanSql (sql : String) : List Token := scanFrom sql.toList.length 0 0 sql.toList

/-- Is this token a word? -/
def Token.isWord (token : Token) : Bool := token.text.toList.head?.any isWordStart

/-- The words outside of parentheses, in lower case. -/
def topLevelWords (sql : String) : List Token :=
  ((scanSql sql).filter fun token => token.depth = 0 && token.isWord).map fun token =>
    { token with text := asciiLower token.text }

/-! ## Spaces -/

/-- The characters that the platform takes for spaces. -/
def isSpace (c : Char) : Bool :=
  (0x09 ≤ c.toNat && c.toNat ≤ 0x0d) || (0x2000 ≤ c.toNat && c.toNat ≤ 0x200a) ||
    [0x20, 0xa0, 0x1680, 0x2028, 0x2029, 0x202f, 0x205f, 0x3000, 0xfeff].contains c.toNat

def trimEnd (value : String) : String := String.ofList (value.toList.rdropWhile isSpace)

def trim (value : String) :
    String := String.ofList ((value.toList.rdropWhile isSpace).dropWhile isSpace)

/-- The source's `replace(/;\s*$/u, '')`. -/
def dropSemicolon (value : String) : String :=
  let trimmed := value.toList.rdropWhile isSpace
  if trimmed.getLast? = some ';' then String.ofList trimmed.dropLast else value

/-- The first occurrence of a text is replaced. -/
def replaceFirst (pattern replacement : List Char) : List Char → List Char
  | [] => if pattern = [] then replacement else []
  | c :: rest =>
    if pattern.isPrefixOf (c :: rest) then replacement ++ (c :: rest).drop pattern.length
    else c :: replaceFirst pattern replacement rest

def replaceText (value pattern replacement : String) : String :=
  String.ofList (replaceFirst pattern.toList replacement.toList value.toList)

/-! ## Parameters -/

structure ParameterOccurrence where
  start : ℕ
  stop : ℕ
  index : ℕ
  name : Option String
  deriving DecidableEq

/-- The greatest index of a parameter. -/
def maximumParameter : ℕ := 32766

/-- The number of a parameter such as `?12`. -/
def numberOf (token : String) : Option ℕ :=
  match token.toList with
  | '?' :: digits =>
    if digits ≠ [] ∧ digits.all Char.isDigit then some (Nat.ofDigitChars 10 digits 0) else none
  | _ => none

/-- The index of the next parameter, and the names with their indices. -/
def nextIndex (names : OrdMap String ℕ) (maximum : ℕ) (token : String) :
    ℕ × Option String × OrdMap String ℕ :=
  if token = "?" then (maximum + 1, none, names)
  else
    match numberOf token with
    | some number => (number, none, names)
    | none =>
      let index := (names.get? token).getD (maximum + 1)
      (index, some token, names.set token index)

/-- The parameters of tokens, each with its index. -/
def occurrencesFrom (names : OrdMap String ℕ) (maximum : ℕ) :
    List Token → Compiled (List ParameterOccurrence)
  | [] => return []
  | token :: tokens => do
    let (index, name, names) := nextIndex names maximum token.text
    if index < 1 ∨ maximumParameter < index then throw (.compiler .parameterIndexInvalid none)
    else return ⟨token.start, token.stop, index, name⟩ ::
      (← occurrencesFrom names (max maximum index) tokens)

def parameterOccurrences (sql : String) : Compiled (List ParameterOccurrence) :=
  occurrencesFrom .empty 0 ((scanSql sql).filter fun token => !token.isWord)

/-- Part of a text with its parameters numbered. -/
def rewriteFrom (sql : String) (start stop : ℕ) : ℕ → List ParameterOccurrence → String
  | cursor, [] => slice sql cursor stop
  | cursor, parameter :: parameters =>
    if parameter.start < start ∨ stop < parameter.stop then rewriteFrom sql start stop cursor parameters
    else slice sql cursor parameter.start ++ "?" ++ toString parameter.index ++
      rewriteFrom sql start stop parameter.stop parameters

def rewriteSourceSegment (sql : String) (start stop : ℕ) (parameters : List ParameterOccurrence) :
    String :=
  rewriteFrom sql start stop start parameters

/-! ## Ordered mutations -/

structure OrderedMutationSyntax where
  parserSql : String
  cutoff : ℕ
  whereKeyword : Option ℕ
  returningKeyword : Option ℕ
  orderExpressionStart : Option ℕ
  limitKeyword : ℕ
  limitExpressionStart : ℕ
  deriving DecidableEq

/-- The parts of an `UPDATE` or `DELETE` with a `LIMIT`. -/
def parseOrderedMutationSyntax (sql : String) : Compiled (Option OrderedMutationSyntax) := do
  let words := topLevelWords sql
  let first := words.head?.map (·.text)
  if first ≠ some "update" ∧ first ≠ some "delete" then return none
  match words.find? (·.text = "limit") with
  | none => return none
  | some limit =>
    let orderIndex := words.findIdx? (·.text = "order")
    let order := orderIndex.bind fun i => words[i]?
    let «by» := orderIndex.bind fun i => words[i + 1]?
    if order.isSome ∧ «by».map (·.text) ≠ some "by" then throw (.compiler .parseError none)
    if order.any (limit.start < ·.start) then throw (.compiler .parseError none)
    let cutoff := (order.map (·.start)).getD limit.start
    let suffix := trimEnd (slice sql 0 cutoff)
    let parserSql := if suffix.toList.getLast? = some ';' then suffix else suffix ++ ";"
    let returning := words.find? (·.text = "returning")
    if returning.any (cutoff < ·.start) then
      throw (.compiler .orderedMutationReturningPositionInvalid none)
    return some {
      parserSql
      cutoff
      whereKeyword := ((words.find? (·.text = "where")).map (·.start)).filter (· < cutoff)
      returningKeyword := (returning.map (·.start)).filter (· < cutoff)
      orderExpressionStart := «by».map (·.stop)
      limitKeyword := limit.start
      limitExpressionStart := limit.stop }

end Chronolog.Compiler
