import BlockScript.Text.Lines
import BlockScript.Text.Width
import BlockScript.Toml.Cursor

/-!
# Diagnostics

A message about a source, with the lines it speaks of and carets under the place. A place on one line is underlined; a place
over several lines is enclosed by a line on its left, of which the first lines and the last ones are shown.
-/

namespace BlockScript

/-- A message, the place it is about and what could be done. -/
structure Diagnostic where
  message : String
  place : Option Toml.Span := none
  notes : List String := []

namespace Diagnostic

/-- What the parts of a diagnostic look like on a terminal with colours. -/
inductive Style where
  | severity | message | frame | caret

/-- The codes that switch a style on. -/
def Style.codes : Style → String
  | severity => "\x1b[1m\x1b[38;5;9m"
  | message => "\x1b[1m"
  | frame => "\x1b[36m"
  | caret => "\x1b[31m"

/-- Switches to a style, from whatever was on. -/
def switch (colour : Bool) (s : Style) : String := if colour then "\x1b[0m" ++ s.codes else ""

/-- Switches all styles off. -/
def reset (colour : Bool) : String := if colour then "\x1b[0m" else ""

/-- A text in a style. -/
def paint (colour : Bool) (s : Style) (text : String) : String := switch colour s ++ text ++ reset colour

/-- The line that names the severity and the message. -/
def header (colour : Bool) (text : String) : String :=
  switch colour .severity ++ "error" ++ switch colour .message ++ ": " ++ text ++ reset colour ++ "\n"

/-- A line of a source: its number from one, the offset of its first byte, and its characters without the end of line. -/
structure Line where
  number : Nat
  start : Nat
  text : List Char
  deriving Inhabited

/-- A line without ends of line and zero characters at its end. -/
def trimEnd (cs : List Char) : List Char :=
  (cs.reverse.dropWhile fun c => c == '\n' || c == '\r' || c == '\x00').reverse

/-- Cuts a source into lines. -/
def linesOf (source : String) : List Line :=
  let step := fun (acc : List Line × Nat) (piece : String) =>
    let (found, start) := acc
    (⟨found.length + 1, start, trimEnd piece.toList⟩ :: found, start + piece.utf8ByteSize + 1)
  ((source.splitOn "\n").foldl step ([], 0)).1.reverse

/-- The line that holds a byte offset. -/
def lineAt (lines : List Line) (offset : Nat) : Line :=
  ((lines.takeWhile fun l => decide (l.start ≤ offset)).getLast?).getD default

/-- A character with the offset of its byte in the line and the columns it takes. -/
structure Cell where
  offset : Nat
  width : Nat
  char : Char

/-- The cells of a line. A tab reaches to the next column that is a multiple of four. -/
def cellsFrom (offset column : Nat) : List Char → List Cell
  | [] => []
  | c :: rest =>
    let width := if c = '\t' then 4 - column % 4 else Text.charWidth c
    ⟨offset, width, c⟩ :: cellsFrom (offset + c.utf8Size) (column + width) rest

/-- The cells of a line. -/
def cells (text : List Char) : List Cell := cellsFrom 0 0 text

/-- A cell as it is printed. -/
def Cell.text (c : Cell) : String :=
  if c.char = '\t' then String.ofList (List.replicate c.width ' ') else String.ofList [c.char]

/-- A character as often as the columns of some cells. -/
def fill (mark : Char) (cs : List Cell) : String :=
  String.ofList (cs.flatMap fun c => List.replicate c.width mark)

/-- The column of a byte offset in a line, counted in characters from one. -/
def columnOf (l : Line) (offset : Nat) : Nat :=
  ((cells l.text).filter fun c => decide (c.offset < offset - l.start)).length + 1

/-- Printing with a gutter of some width. -/
structure Layout where
  colour : Bool
  gutter : Nat

namespace Layout

/-- The blank gutter. -/
def blank (o : Layout) : String := String.ofList (List.replicate (o.gutter + 1) ' ')

/-- The bar right of the gutter. -/
def bar (o : Layout) : String := paint o.colour .frame "│"

/-- The gutter with a line number, and the bar. -/
def numbered (o : Layout) (n : Nat) : String :=
  let digits := toString n
  paint o.colour .frame (String.ofList (List.replicate (o.gutter - digits.length) ' ') ++ digits) ++ " " ++ o.bar

/-- The line that names the place. -/
def locus (o : Layout) (file : String) (line column : Nat) : String :=
  o.blank ++ paint o.colour .frame "┌─" ++ " " ++ file ++ ":" ++ toString line ++ ":" ++ toString column ++ "\n"

/-- A mark of the line that encloses a place. -/
def side (o : Layout) (mark : String) : String := " " ++ paint o.colour .caret mark

/-- Some cells, those in the place highlighted. -/
def highlighted (o : Layout) (inPlace : Cell → Bool) : Bool → List Cell → String
  | active, [] => if active then reset o.colour else ""
  | active, c :: rest =>
    let change :=
      if inPlace c && !active then switch o.colour .caret
      else if !inPlace c && active then reset o.colour
      else ""
    change ++ c.text ++ highlighted o inPlace (inPlace c) rest

/-- Whether the range of a cell overlaps with a range of offsets. -/
def overlaps (start stop : Nat) (c : Cell) : Bool :=
  decide (max start c.offset < min stop (c.offset + c.char.utf8Size))

/-- The carets under the cells of a place, with blanks before them. -/
def carets (o : Layout) (start stop : Nat) : Bool → List Cell → String
  | active, [] => if active then reset o.colour else ""
  | active, c :: rest =>
    let hit := overlaps start stop c
    let change := if hit && !active then switch o.colour .caret else if !hit && active then reset o.colour else ""
    let mark := if hit then fill '^' [c] else if c.offset < stop then fill ' ' [c] else ""
    change ++ mark ++ carets o start stop hit rest

/-- A line with a place on it. There is at least one caret, if need be after the end of the line. -/
def oneLine (o : Layout) (l : Line) (span : Toml.Span) : String :=
  let start := span.start - l.start
  let stop := max (span.stop - l.start) (start + 1)
  let cs := cells l.text
  let afterEnd : Cell := ⟨Toml.Reader.bytes l.text, 1, '\x00'⟩
  o.numbered l.number ++ " " ++ o.highlighted (overlaps start stop) false cs ++ "\n" ++
    o.blank ++ o.bar ++ " " ++ o.carets start stop false (cs ++ [afterEnd]) ++ "\n"

/-- The first line of a place over several lines. A place that starts before all text of the line is enclosed right there. -/
def firstLine (o : Layout) (l : Line) (offset : Nat) : String :=
  let start := offset - l.start
  let cs := cells l.text
  let indent := Toml.Reader.bytes (l.text.takeWhile Text.isSpace)
  let text := o.highlighted (fun c => decide (start ≤ c.offset)) false cs ++ "\n"
  if start ≤ indent then o.numbered l.number ++ o.side "╭" ++ " " ++ text
  else
    let line := fill '─' (cs.filter fun c => decide (c.offset < start + 1))
    o.numbered l.number ++ "   " ++ text ++
      o.blank ++ o.bar ++ o.side "╭" ++ paint o.colour .caret (line ++ "^") ++ "\n"

/-- A line inside a place over several lines. -/
def innerLine (o : Layout) (l : Line) : String :=
  o.numbered l.number ++ o.side "│" ++ " " ++ o.highlighted (fun _ => true) false (cells l.text) ++ "\n"

/-- The last line of a place over several lines. -/
def lastLine (o : Layout) (l : Line) (offset : Nat) : String :=
  let stop := offset - l.start
  let cs := cells l.text
  let line := fill '─' (cs.filter fun c => decide (c.offset < stop))
  o.numbered l.number ++ o.side "│" ++ " " ++
      o.highlighted (fun c => decide (c.offset + c.char.utf8Size ≤ stop)) false cs ++ "\n" ++
    o.blank ++ o.bar ++ o.side "╰" ++ paint o.colour .caret (line ++ "^") ++ "\n"

/-- The line that stands for lines left out. -/
def gap (o : Layout) : String := o.blank ++ paint o.colour .frame "·" ++ o.side "│" ++ "\n"

/-- The lines inside a place over several lines: the first three and the last one, and a gap for two or more between them. -/
def innerLines (o : Layout) (inner : List Line) : String :=
  if inner.length ≤ 5 then String.join (inner.map o.innerLine)
  else
    String.join ((inner.take 3).map o.innerLine) ++ o.gap ++ String.join ((inner.drop (inner.length - 1)).map o.innerLine)

/-- A note, its further lines below the first one. -/
def note (o : Layout) (text : String) : String :=
  let line := fun (bullet : String) (l : String) => o.blank ++ bullet ++ " " ++ l ++ "\n"
  match text.splitOn "\n" with
  | [] => ""
  | l :: rest => line (paint o.colour .frame "=") l ++ String.join (rest.map (line " "))

end Layout

/-- The lines of a source that a place is on. -/
def snippet (colour : Bool) (file source : String) (span : Toml.Span) : String :=
  let lines := linesOf source
  let first := lineAt lines span.start
  let last := lineAt lines span.stop
  let o : Layout := ⟨colour, (toString last.number).length⟩
  let locus := o.locus file first.number (columnOf first span.start)
  if first.number = last.number then
    locus ++ o.blank ++ o.bar ++ "\n" ++ o.oneLine first span
  else
    let inner := lines.filter fun l => decide (first.number < l.number ∧ l.number < last.number)
    locus ++ o.blank ++ o.bar ++ "  \n" ++ o.firstLine first span.start ++ o.innerLines inner ++
      o.lastLine last span.stop

/-- A diagnostic as it is printed, with an empty line at its end. -/
def render (colour : Bool) (file source : String) (d : Diagnostic) : String :=
  let body := match d.place with
    | none => ""
    | some span => snippet colour file source span
  header colour d.message ++ body ++ String.join (d.notes.map (Layout.note ⟨colour, 0⟩)) ++ "\n"

end Diagnostic

end BlockScript
