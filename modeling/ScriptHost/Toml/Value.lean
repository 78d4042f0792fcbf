import ScriptHost.Number.Double

/-! Values of TOML documents. A table remembers how it came about, because that decides what later
lines may add to it: a header opens a table once, a dotted key adds only to tables that dotted keys
made, and what is written as a value is complete. -/

namespace ScriptHost.Toml

open Number

inductive Making where
  /-- Written in braces. -/
  | closed
  /-- Opened by its own header. -/
  | opened
  /-- On the way to a table that a header names. -/
  | implied
  /-- On the way to a value that a dotted key names. -/
  | dotted
deriving DecidableEq

inductive Value where
  | text (s : String)
  | integer (i : Int)
  | float (x : Double)
  | boolean (b : Bool)
  /-- A date, a time, or both, as written. -/
  | moment (s : String)
  | array (vs : List Value)
  | table (making : Making) (entries : List (String × Value))
  /-- Tables that a header in double brackets opens one after the other. -/
  | tables (ts : List (List (String × Value)))

abbrev Entries := List (String × Value)

namespace Entries

def find? (es : Entries) (k : String) : Option Value := es.lookup k

/-- Puts a value under a key, in place if the key is there. -/
def put (k : String) (v : Value) : Entries → Entries
  | [] => [(k, v)]
  | (k', v') :: rest => if k = k' then (k', v) :: rest else (k', v') :: put k v rest

/-- Changes the last table of a run of tables. -/
def atLast (f : Entries → Option Entries) : List Entries → Option (List Entries)
  | [] => none
  | [es] => (f es).map ([·])
  | es :: rest => (atLast f rest).map (es :: ·)

/-! ### Headers -/

/-- Changes what a header's path leads to. Missing tables on the way are made, and of a run of
tables the last one is entered. -/
def alter (change : Option Value → Option Value) : List String → Entries → Option Entries
  | [], _ => none
  | [k], es => (change (es.find? k)).map fun v => put k v es
  | k :: rest, es =>
    match es.find? k with
    | none => (alter change rest []).map fun sub => put k (.table .implied sub) es
    | some (.table .closed _) => none
    | some (.table making sub) => (alter change rest sub).map fun sub => put k (.table making sub) es
    | some (.tables ts) => (atLast (alter change rest) ts).map fun ts => put k (.tables ts) es
    | some _ => none

/-- A header makes a table, or takes over one that was only implied. -/
def openTable (path : List String) (es : Entries) : Option Entries :=
  es.alter (fun
    | none => some (.table .opened [])
    | some (.table .implied sub) => some (.table .opened sub)
    | some _ => none) path

/-- A header in double brackets adds a table to a run. -/
def openNext (path : List String) (es : Entries) : Option Entries :=
  es.alter (fun
    | none => some (.tables [[]])
    | some (.tables ts) => some (.tables (ts ++ [[]]))
    | some _ => none) path

/-! ### Keys -/

/-- Adds a value under a dotted key. The table that takes the value must have been made by dotted
keys, and those on the way must not have been opened. -/
def insert (v : Value) : List String → Entries → Option Entries
  | [], _ => none
  | [k], es => if (es.find? k).isSome then none else some (put k v es)
  | k :: k' :: rest, es =>
    match es.find? k with
    | none => (insert v (k' :: rest) []).map fun sub => put k (.table .dotted sub) es
    | some (.table .dotted sub) => (insert v (k' :: rest) sub).map fun sub => put k (.table .dotted sub) es
    | some (.table .implied sub) =>
      if rest.isEmpty then none
      else (insert v (k' :: rest) sub).map fun sub => put k (.table .implied sub) es
    | some (.tables ts) =>
      if rest.isEmpty then none
      else (atLast (insert v (k' :: rest)) ts).map fun ts => put k (.tables ts) es
    | some _ => none

/-- Adds a value in the table that the last header opened; the empty path is the root. -/
def insertAt (path key : List String) (v : Value) (es : Entries) : Option Entries :=
  if path.isEmpty then insert v key es
  else
    es.alter (fun
      | some (.table making sub) => (insert v key sub).map (.table making)
      | some (.tables ts) => (atLast (insert v key) ts).map .tables
      | _ => none) path

end Entries

end ScriptHost.Toml
