import ScriptHost.Host.Spelling
import ScriptHost.Host.Table
import ScriptHost.Text.Quoted

/-! Host tables as text, in two forms: an indented listing for people, and a full form that names
the kind of every value, on one line or spread over many. -/

namespace ScriptHost.Host

open Number Text.Quoted

namespace Value

/-! ### The indented listing -/

mutual

/-- What stands behind the key; a table's closing brace is indented like its key. -/
def listed (indent : Nat) : Value → String
  | .text s => "\"" ++ s ++ "\""
  | .number x => plainNumber x
  | .boolean b => boolText b
  | .table [] => "\x7b\x7d"
  | .table es =>
    "\x7b\n" ++ listing (indent + 2) es ++ "\n" ++ String.ofList (List.replicate indent ' ') ++ "\x7d"
  | .function f => "<function " ++ f.name ++ ">"
  | .pointer p => "<opaque " ++ addressText p ++ ">"

/-- One line for each entry, with commas between. -/
def listing (indent : Nat) : List (String × Value) → String
  | [] => ""
  | (k, v) :: rest =>
    String.ofList (List.replicate indent ' ') ++ k ++ " = " ++ listed indent v
      ++ (if rest.isEmpty then "" else ",\n" ++ listing indent rest)

end

/-! ### The full form -/

mutual

def full : Value → String
  | .number x => "Number(" ++ markedNumber x ++ ")"
  | .text s => "String(" ++ quoted s ++ ")"
  | .boolean b => "Boolean(" ++ boolText b ++ ")"
  | .function f => "Function(" ++ f.name ++ ")"
  | .table es => "Table(\x7b" ++ fullEntries es ++ "\x7d)"
  | .pointer p => "Opaque(" ++ addressText p ++ ")"

def fullEntries : List (String × Value) → String
  | [] => ""
  | (k, v) :: rest => quoted k ++ ": " ++ full v ++ (if rest.isEmpty then "" else ", " ++ fullEntries rest)

end

/-- A line at a depth; each step in is four spaces. -/
def lineAt (depth : Nat) (s : String) : String := String.ofList (List.replicate (4 * depth) ' ') ++ s ++ "\n"

/-- A named value on lines of its own. -/
def wrapped (depth : Nat) (name body : String) : String :=
  name ++ "(\n" ++ lineAt (depth + 1) (body ++ ",") ++ String.ofList (List.replicate (4 * depth) ' ') ++ ")"

mutual

/-- The full form over several lines. The first line is not indented and the last has no end. -/
def spread (depth : Nat) : Value → String
  | .number x => wrapped depth "Number" (markedNumber x)
  | .text s => wrapped depth "String" (quoted s)
  | .boolean b => wrapped depth "Boolean" (boolText b)
  | .function f => "Function(" ++ f.name ++ ")"
  | .table es =>
    wrapped depth "Table" (
      if es.isEmpty then "\x7b\x7d"
      else "\x7b\n" ++ spreadEntries (depth + 2) es ++ String.ofList (List.replicate (4 * (depth + 1)) ' ') ++ "\x7d")
  | .pointer p => "Opaque(" ++ addressText p ++ ")"

def spreadEntries (depth : Nat) : List (String × Value) → String
  | [] => ""
  | (k, v) :: rest => lineAt depth (quoted k ++ ": " ++ spread depth v ++ ",") ++ spreadEntries depth rest

end

end Value

namespace Table

/-- The indented listing, every line behind `indent` spaces. -/
def listing (t : Table) (indent : Nat) : String := Value.listing indent t.entries

def full (t : Table) : String := "\x7b" ++ Value.fullEntries t.entries ++ "\x7d"

def spread (t : Table) : String :=
  if t.isEmpty then "\x7b\x7d" else "\x7b\n" ++ Value.spreadEntries 1 t.entries ++ "\x7d"

end Table

end ScriptHost.Host
