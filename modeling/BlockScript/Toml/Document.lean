import BlockScript.Toml.Moment
import BlockScript.Toml.Number

/-!
# Reading TOML documents

A document is read into statements, and the statements are put together to a tree. Both steps are total; a document that is not
TOML, also one that defines something twice, has no tree.
-/

namespace BlockScript.Toml

namespace Reader

/-- An array in brackets, over a reader for its items. -/
def arrayOf (item : Reader Node) : Reader Node := do
  let (items, span) ← located do
    char '['
    let first ← optional (do spacing; item)
    let items ← match first with
      | none => pure []
      | some first => do
        let others ← many (do spacing; char ','; spacing; item)
        let _ ← optional (do spacing; char ',')
        pure (first :: others)
    spacing
    char ']'
    pure items
  pure (.array false (some span) items)

/-- A table in braces, over a reader for its values. -/
def bracesOf (item : Reader Node) : Reader Node := do
  let (pairs, span) ← located do
    char '\x7b'
    let pair : Reader (List Key × Key × Node) := do
      let (path, key) ← keyPath
      char '='
      blanks
      let node ← item
      blanks
      pure (path, key, node)
    let pairs ← optional (sepBy1 pair (char ','))
    blanks
    char '\x7d'
    pure (pairs.getD [])
  Node.ofPairs? span pairs

/-- A value that holds no others. -/
def scalar : Reader Node := do
  let (node, span) ← located <|
    (do let s ← string; pure fun span => Node.text span s)
    <|> (do let s ← moment; pure fun span => Node.moment span s)
    <|> (do let x ← float; pure fun span => Node.float span x)
    <|> (do let n ← integer; pure fun span => Node.integer span n)
    <|> (do word "true"; pure fun span => Node.boolean span true)
    <|> (do word "false"; pure fun span => Node.boolean span false)
  pure (node (some span))

/-- A value with at most the given count of levels of arrays and tables in braces. -/
def value : Nat → Reader Node
  | 0 => scalar
  | levels + 1 => do
    match ← peek? with
    | some '[' => arrayOf (value levels)
    | some '\x7b' => bracesOf (value levels)
    | _ => scalar

end Reader

/-- A statement of a document. -/
inductive Statement where
  /-- `[path]`: the entries that follow belong to a table. -/
  | header (path : List Key) (key : Key) (span : Span)
  /-- `[[path]]`: the entries that follow belong to a new table at the end of an array. -/
  | rowHeader (path : List Key) (key : Key) (span : Span)
  /-- `path = value`. -/
  | entry (path : List Key) (key : Key) (node : Node)

namespace Reader

/-- The levels of arrays and tables in braces that a value may have. -/
def maxLevels : Nat := 79

/-- A header with the given brackets. -/
def headerWithin (opening closing : String) (make : List Key → Key → Span → Statement) : Reader Statement := do
  let ((path, key), span) ← located do
    word opening
    let keys ← keyPath
    word closing
    pure keys
  lineEnd
  pure (make path key span)

/-- A value with its keys. -/
def entry : Reader Statement := do
  let (path, key) ← keyPath
  char '='
  blanks
  let node ← value maxLevels
  lineEnd
  pure (.entry path key node)

/-- One line of a document, or a few where a value goes over several. -/
def statement : Reader (Option Statement) := do
  blanks
  match ← peek? with
  | some '#' | some '\n' | some '\r' => lineEnd; pure none
  | some '[' =>
    some <$> (headerWithin "[[" "]]" .rowHeader <|> headerWithin "[" "]" .header)
  | _ => some <$> entry

/-- The statements that a document begins with; a byte order mark may stand before them. -/
def statements : Reader (List Statement) := do
  let _ ← optional (char '\uFEFF')
  let found ← many statement
  blanks
  pure (found.filterMap id)

/-- Whether a value can begin with a character. -/
def beginsValue (c : Char) : Bool := "\"'[\x7b+-_.tfin".contains c || c.isDigit

end Reader

/-- What keeps a source from being TOML, as far as it is told apart. -/
inductive Malformation where
  /-- A line begins with something that is neither a key nor a header. -/
  | noKey
  /-- A key has no equals sign after it. -/
  | noEqualsSign
  /-- An equals sign has no value after it. -/
  | noValue
  | other
  deriving DecidableEq, Repr

namespace Malformation

/-- The wording of what is wrong. -/
def message : Malformation → String
  | noKey => "invalid key"
  | noEqualsSign => "expected `.`, `=`"
  | noValue => "invalid string\nexpected `\"`, `'`"
  | other => "invalid document"

/-- What is wrong with the text at a cursor where no statement begins. -/
def ofCursor (c : Cursor) : Malformation :=
  match c.rest with
  | '[' :: _ | '#' :: _ | '\r' :: _ => other
  | _ =>
    match Reader.keyPath c with
    | none => noKey
    | some (_, after) =>
      match after.rest with
      | '=' :: rest =>
        match rest.dropWhile Reader.isBlank with
        | [] => noValue
        | x :: _ => if Reader.beginsValue x then other else noValue
      | _ => noEqualsSign

end Malformation

/-- A document while it is put together: the tables completed so far, and the table that entries go to, with its place. -/
structure Draft where
  root : Node := .table .header none []
  /-- The keys to the table that is open, or `none` if that is the root. -/
  place : Option (List Key × Key) := none
  /-- Whether the open table goes to the end of an array. -/
  isRow : Bool := false
  opened : Node := .table .header none []

namespace Draft

/-- The span of an array of tables: from the first one to the last one. -/
def rowsSpan (rows : List Node) : Option Span :=
  match rows.head?.bind Node.span, rows.getLast?.bind Node.span with
  | some first, some last => some ⟨first.start, last.stop⟩
  | _, _ => none

/-- Puts a row at the end of the array under a key. -/
def pushRow (key : Key) (row : Node) : Node → Option Node
  | .table style span entries =>
    match Node.lookup? key.name entries with
    | none => some (.table style span (entries ++ [(key, .array true (rowsSpan [row]) [row])]))
    | some (.array true _ rows) =>
      let rows := rows ++ [row]
      some (.table style span (Node.replace key.name (.array true (rowsSpan rows) rows) entries))
    | some _ => none
  | _ => none

/-- Makes sure that there is an array of tables under a key. -/
def ensureRows (key : Key) : Node → Option Node
  | .table style span entries =>
    match Node.lookup? key.name entries with
    | none => some (.table style span (entries ++ [(key, .array true none [])]))
    | some (.array true _ _) => some (.table style span entries)
    | some _ => none
  | _ => none

/-- Puts a table under a key that is free. -/
def putTable (key : Key) (t : Node) : Node → Option Node
  | .table style span entries =>
    if (Node.lookup? key.name entries).isSome then none else some (.table style span (entries ++ [(key, t)]))
  | _ => none

/-- Completes the open table. -/
def close (d : Draft) : Option Node :=
  match d.place with
  | none => some d.opened
  | some (path, key) =>
    if d.isRow then Node.descend false (pushRow key d.opened) path d.root
    else Node.descend false (putTable key d.opened) path d.root

/-- The entry under a key at the end of a path. -/
def find? (path : List Key) (key : Key) (root : Node) : Option Node :=
  let inTable (t : Node) : Option Node :=
    match t with
    | .table _ _ entries => Node.lookup? key.name entries
    | _ => none
  let step (t : Option Node) (k : Key) : Option Node :=
    match t with
    | some (.table _ _ entries) =>
      match Node.lookup? k.name entries with
      | some (.array true _ rows) => rows.getLast?
      | other => other
    | _ => none
  (path.foldl step (some root)).bind inTable

/-- Takes the entry under a key out of a table. -/
def removeEntry (key : Key) : Node → Option Node
  | .table style span entries => some (.table style span (entries.filter (·.1.name != key.name)))
  | _ => none

/-- Opens the table of a header. Only a table that headers below it passed through may be there already; it moves to the place
of its header. -/
def openTable (path : List Key) (key : Key) (span : Span) (root : Node) : Option Draft := do
  let entries ← match find? path key root with
    | none => some []
    | some (.table .implied _ entries) => some entries
    | some _ => none
  let root ← Node.descend false (removeEntry key) path root
  some { root, place := some (path, key), opened := .table .header (some span) entries }

/-- Opens a new table at the end of an array. -/
def openRow (path : List Key) (key : Key) (span : Span) (root : Node) : Option Draft := do
  let root ← Node.descend false (ensureRows key) path root
  some { root, place := some (path, key), isRow := true, opened := .table .header (some span) [] }

/-- Lets the span of a table reach to the end of a value that was put into it. -/
def reach (node : Node) : Node → Node
  | .table style (some span) entries =>
    .table style (some ⟨span.start, (node.span.map Span.stop).getD span.stop⟩) entries
  | t => t

/-- Adds a statement. -/
def add (d : Draft) : Statement → Option Draft
  | .entry path key node => do
    let opened ← Node.addPath path key node (reach node d.opened)
    some { d with opened }
  | .header path key span => do openTable path key span (← d.close)
  | .rowHeader path key span => do openRow path key span (← d.close)

end Draft

/-- The tree that statements make. -/
def Node.ofStatements? (statements : List Statement) : Option Node := do
  (← statements.foldlM Draft.add {}).close

/-- The tree of a document. -/
def Node.parse (source : String) : Except Malformation Node :=
  match Reader.statements ⟨source.toList, 0⟩ with
  | none => .error .other
  | some (statements, c) =>
    if !c.rest.isEmpty then .error (.ofCursor c)
    else
      match Node.ofStatements? statements with
      | none => .error .other
      | some root => .ok root

end BlockScript.Toml
