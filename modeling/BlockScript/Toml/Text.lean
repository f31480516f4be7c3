import BlockScript.Toml.Cursor

/-!
# TOML strings and keys

The four forms of strings. Basic strings know escapes, literal ones do not; of each there is a form over several lines, in
which every end of line counts as one line feed and the one right after the opening quotes is dropped.
-/

namespace BlockScript.Toml.Reader

/-- Characters that stand for themselves in a string with the given quote. -/
def isPlain (quote : Char) (escapes : Bool) (c : Char) : Bool :=
  isCommentChar c && c != quote && !(escapes && c == '\\')

/-- The value of a hexadecimal digit. -/
def hexValue? (c : Char) : Option Nat :=
  if '0' ≤ c ∧ c ≤ '9' then some (c.toNat - '0'.toNat)
  else if 'a' ≤ c ∧ c ≤ 'f' then some (c.toNat - 'a'.toNat + 10)
  else if 'A' ≤ c ∧ c ≤ 'F' then some (c.toNat - 'A'.toNat + 10)
  else none

/-- A character by its number, in the given count of hexadecimal digits. -/
def codePoint (digits : Nat) : Reader Char := do
  let mut n := 0
  for _ in List.range digits do
    let c ← satisfy fun c => (hexValue? c).isSome
    n := 16 * n + (hexValue? c).getD 0
  guard (n.isValidChar)
  pure (Char.ofNat n)

/-- An escape. -/
def escape : Reader Char := do
  char '\\'
  match ← satisfy fun _ => true with
  | 'b' => pure '\x08'
  | 't' => pure '\t'
  | 'n' => pure '\n'
  | 'f' => pure '\x0c'
  | 'r' => pure '\r'
  | '"' => pure '"'
  | '\\' => pure '\\'
  | 'u' => codePoint 4
  | 'U' => codePoint 8
  | _ => failure

/-- A piece of text that stands for itself. -/
def plain (quote : Char) (escapes : Bool) : Reader (List Char) := takeWhile1 (isPlain quote escapes)

/-- A string on one line. -/
def lineString (quote : Char) (escapes : Bool) : Reader String := do
  char quote
  let piece := if escapes then plain quote true <|> (do pure [← escape]) else plain quote false
  let pieces ← many piece
  char quote
  pure (String.ofList pieces.flatten)

/-- A line that ends in a backslash: the text goes on at the next character that is no blank. -/
def joinedLines : Reader (List Char) := do
  char '\\'
  blanks
  newline
  let _ ← many (newline <|> do let _ ← takeWhile1 isBlank)
  pure []

/-- One or two quotes that do not end a string over several lines. -/
def innerQuotes (quote : Char) : Reader (List Char) := fun c =>
  let run := c.rest.takeWhile (· == quote)
  if run.length = 1 ∨ run.length = 2 then takeWhile (· == quote) c else none

/-- The quotes that end a string over several lines: three, and up to two before them that belong to the text. -/
def closingQuotes (quote : Char) : Reader (List Char) := do
  let run ← takeWhile (· == quote)
  guard (3 ≤ run.length ∧ run.length ≤ 5)
  pure (run.drop 3)

/-- A string over several lines. -/
def blockString (quote : Char) (escapes : Bool) : Reader String := do
  word (String.ofList [quote, quote, quote])
  let _ ← optional newline
  let lineFeed : Reader (List Char) := do newline; pure ['\n']
  let literal := plain quote escapes <|> lineFeed <|> innerQuotes quote
  let piece := if escapes then literal <|> (do pure [← escape]) <|> joinedLines else literal
  let pieces ← many piece
  let last ← closingQuotes quote
  pure (String.ofList (pieces.flatten ++ last))

/-- A string in any form. -/
def string : Reader String :=
  blockString '"' true <|> lineString '"' true <|> blockString '\'' false <|> lineString '\'' false

/-- Characters of a key without quotes. -/
def isBareKeyChar (c : Char) : Bool := c.isAlphanum || c == '_' || c == '-'

/-- One key. -/
def key : Reader Key := do
  let (name, span) ← located
    (lineString '"' true <|> lineString '\'' false <|> do pure (String.ofList (← takeWhile1 isBareKeyChar)))
  pure ⟨name, some span⟩

/-- Keys with dots between them: those before the last one, and the last one. A path holds fewer than eighty keys. -/
def keyPath : Reader (List Key × Key) := do
  let keys ← sepBy1 (do blanks; let k ← key; blanks; pure k) (char '.')
  guard (keys.length < 80)
  match keys.getLast? with
  | some last => pure (keys.dropLast, last)
  | none => failure

end BlockScript.Toml.Reader
