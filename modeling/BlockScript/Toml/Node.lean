/-!
# TOML documents

A document is a tree of values and tables that know where in the source they stand. Positions are byte offsets.
-/

namespace BlockScript.Toml

/-- A range of byte offsets, the end excluded. -/
structure Span where
  start : Nat
  stop : Nat
  deriving DecidableEq, Repr

/-- A key with the place of its literal. -/
structure Key where
  name : String
  span : Option Span := none
  deriving DecidableEq, Repr

/-- How a table came about, which decides what may still be added to it. -/
inductive TableStyle where
  /-- Opened by a header of its own, or the root. -/
  | header
  /-- Only passed through by the header of a table below it. -/
  | implied
  /-- Made by a dotted key. -/
  | dotted
  /-- Written in braces, and closed. -/
  | braces
  deriving DecidableEq, Repr

/-- A value or table. A table that has no place of its own, like one made by a dotted key, has no span. The entries of a table
stand in the order in which they were completed. -/
inductive Node where
  | text (span : Option Span) (s : String)
  | integer (span : Option Span) (n : Int)
  | float (span : Option Span) (x : Float)
  | boolean (span : Option Span) (b : Bool)
  /-- A date, a time or both, in normal form. -/
  | moment (span : Option Span) (s : String)
  /-- An array, written in brackets or, if `headers` is set, as tables with double-bracket headers. -/
  | array (headers : Bool) (span : Option Span) (items : List Node)
  | table (style : TableStyle) (span : Option Span) (entries : List (Key × Node))

namespace Node

/-- Where a node stands. -/
def span : Node → Option Span
  | text s _ | integer s _ | float s _ | boolean s _ | moment s _ | array _ s _ | table _ s _ => s

/-- Whether a table may be given further entries by dotted keys. -/
def TableStyle.isOpen : TableStyle → Bool
  | .implied | .dotted => true
  | .header | .braces => false

/-- The entry under a name. -/
def lookup? (name : String) (entries : List (Key × Node)) : Option Node :=
  (entries.find? (·.1.name == name)).map (·.2)

/-- Puts a node in the place of the entry under a name. -/
def replace (name : String) (node : Node) (entries : List (Key × Node)) : List (Key × Node) :=
  entries.map fun e => if e.1.name == name then (e.1, node) else e

/-- A table without entries that a path passes through. -/
def passing (byDots : Bool) : Node := table (if byDots then .dotted else .implied) none []

/-- Changes the table at the end of a path, making the tables on the way that are missing. A path may not pass through a value
or a table in braces; a dotted path may also not pass through a table with a header of its own. It passes through the last
table of an array of tables. -/
def descend (byDots : Bool) (change : Node → Option Node) : List Key → Node → Option Node
  | [], t => change t
  | key :: path, table style span entries =>
    match lookup? key.name entries with
    | none => do
      let below ← descend byDots change path (passing byDots)
      some (table style span (entries ++ [(key, below)]))
    | some (table .braces _ _) => none
    | some (table s sp es) =>
      if byDots && !TableStyle.isOpen s then none
      else do
        let below ← descend byDots change path (table s sp es)
        some (table style span (replace key.name below entries))
    | some (array true sp rows) =>
      match rows.getLast? with
      | none => none
      | some row => do
        let below ← descend byDots change path row
        some (table style span (replace key.name (array true sp (rows.dropLast ++ [below])) entries))
    | some _ => none
  | _ :: _, _ => none

/-- Adds an entry to a table; `byDots` says whether the table was reached by a dotted key, which only a table made by dotted
keys may be. A name that is taken is refused. -/
def addEntry (byDots : Bool) (key : Key) (node : Node) : Node → Option Node
  | table style span entries =>
    if (style == .dotted) != byDots then none
    else if (lookup? key.name entries).isSome then none
    else some (table style span (entries ++ [(key, node)]))
  | _ => none

/-- Adds a value under a path of keys, all but the last of which name tables. -/
def addPath (path : List Key) (key : Key) (node : Node) (t : Node) : Option Node :=
  descend true (addEntry (!path.isEmpty) key node) path t

/-- The table in braces with the given entries. -/
def ofPairs? (span : Span) (pairs : List (List Key × Key × Node)) : Option Node :=
  pairs.foldlM (fun t (path, key, node) => addPath path key node t) (table .braces (some span) [])

end Node

end BlockScript.Toml
