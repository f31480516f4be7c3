import BlockScript.Toml.Node

/-!
# Cursors

Readers move a cursor over the characters of a source and count bytes. A reader answers `none` where the source is not what it
reads; the cursor is then where it was for whoever tries something else.
-/

namespace BlockScript.Toml

/-- The characters that are left, and the byte offset of the first of them. -/
structure Cursor where
  rest : List Char
  offset : Nat

/-- A step over a source. -/
abbrev Reader := StateT Cursor Option

namespace Reader

/-- The count of bytes of some characters. -/
def bytes (cs : List Char) : Nat := cs.foldr (fun c n => c.utf8Size + n) 0

/-- The next character, left in place. -/
def peek? : Reader (Option Char) := fun c => some (c.rest.head?, c)

/-- Takes a character that satisfies a test. -/
def satisfy (test : Char → Bool) : Reader Char := fun c =>
  match c.rest with
  | x :: rest => if test x then some (x, ⟨rest, c.offset + x.utf8Size⟩) else none
  | [] => none

/-- Takes a given character. -/
def char (x : Char) : Reader Unit := do
  let _ ← satisfy (· == x)

/-- Takes a given text. -/
def word (text : String) : Reader Unit := text.toList.forM char

/-- Takes all characters up to the first that fails a test. -/
def takeWhile (test : Char → Bool) : Reader (List Char) := fun c =>
  let taken := c.rest.takeWhile test
  some (taken, ⟨c.rest.dropWhile test, c.offset + bytes taken⟩)

/-- Takes one or more characters that satisfy a test. -/
def takeWhile1 (test : Char → Bool) : Reader (List Char) := do
  let taken ← takeWhile test
  guard (!taken.isEmpty)
  pure taken

/-- Succeeds where nothing is left. -/
def done : Reader Unit := fun c => if c.rest.isEmpty then some ((), c) else none

/-- What a reader takes, if it takes anything; otherwise the cursor stays. -/
def optional (r : Reader α) : Reader (Option α) := fun c =>
  match r c with
  | some (a, c) => some (some a, c)
  | none => some (none, c)

/-- A reader's answer and the range it took. -/
def located (r : Reader α) : Reader (α × Span) := fun c =>
  (r c).map fun (a, after) => ((a, ⟨c.offset, after.offset⟩), after)

/-- What a reader takes again and again, at most once more than there are characters in a budget. -/
def manyWithin (r : Reader α) (budget : List Char) (c : Cursor) : Option (List α × Cursor) :=
  match r c, budget with
  | none, _ => some ([], c)
  | some (a, after), _ :: budget =>
    if c.offset < after.offset then
      (manyWithin r budget after).map fun (as, last) => (a :: as, last)
    else some ([a], after)
  | some (a, after), [] => some ([a], after)

/-- What a reader takes again and again, until it takes nothing more. The characters that are left are budget enough, since
each time but the last uses up one of them. -/
def many (r : Reader α) : Reader (List α) := fun c => manyWithin r c.rest c

/-- One or more things with a separator between them. -/
def sepBy1 (r : Reader α) (separator : Reader Unit) : Reader (List α) := do
  let first ← r
  let others ← many (do separator; r)
  pure (first :: others)

/-! ## Blanks -/

/-- Spaces and tabs. -/
def isBlank (c : Char) : Bool := c == ' ' || c == '\t'

/-- Characters beyond ASCII, which comments and strings may hold. -/
def isBeyondAscii (c : Char) : Bool := decide (0x80 ≤ c.toNat)

/-- Characters of a comment: tabs and everything printable. -/
def isCommentChar (c : Char) : Bool :=
  c == '\t' || decide (0x20 ≤ c.toNat ∧ c.toNat ≤ 0x7E) || isBeyondAscii c

/-- Skips spaces and tabs. -/
def blanks : Reader Unit := do
  let _ ← takeWhile isBlank

/-- The end of a line. -/
def newline : Reader Unit := do
  let _ ← optional (char '\r')
  char '\n'

/-- A comment, up to the end of its line. -/
def comment : Reader Unit := do
  char '#'
  let _ ← takeWhile isCommentChar

/-- Skips blanks, ends of lines and comments. -/
def spacing : Reader Unit := do
  let _ ← many (newline <|> comment <|> do let _ ← takeWhile1 isBlank)

/-- The rest of a line that holds nothing more. -/
def lineEnd : Reader Unit := do
  blanks
  let _ ← optional comment
  newline <|> done

end Reader

end BlockScript.Toml
