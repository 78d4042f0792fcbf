import ScriptHost.Toml.Quoted
import ScriptHost.Toml.Scalar

/-! Reading documents. A reader takes what it reads from the head of the text and answers the rest;
it answers nothing where the text is no document. Every step takes a character, so twice the length
of a text is enough fuel. -/

namespace ScriptHost.Toml

open Quoted

namespace Reader

/-- Arrays, tables in braces and keys may go this deep, and no deeper. -/
def depthLimit : Nat := 79

def skipBlanks (cs : List Char) : List Char := cs.dropWhile isBlank

/-- Drops a comment if there is one here; its line end stays. -/
def skipComment : List Char → List Char
  | '#' :: cs => cs.dropWhile isPlain
  | cs => cs

/-- After a header or a value only blanks and a comment may stand on the line. -/
def lineEnd? (cs : List Char) : Option (List Char) :=
  match skipComment (skipBlanks cs) with
  | [] => some []
  | cs => newline? cs

/-- Drops blanks, line ends and comments. A comment must end with its line. -/
def skipSpace? : Nat → List Char → Option (List Char)
  | 0, _ => none
  | fuel + 1, cs =>
    match skipBlanks cs with
    | '#' :: cs => newline? (cs.dropWhile isPlain) >>= skipSpace? fuel
    | cs =>
      match newline? cs with
      | some cs => skipSpace? fuel cs
      | none => some cs

/-! ### Keys -/

def isBare (c : Char) : Bool := c.isAlphanum || c == '_' || c == '-'

def keyPart : List Char → Option (String × List Char)
  | '"' :: cs => (basic cs).map fun (body, rest) => (String.ofList body, rest)
  | '\'' :: cs => (literal cs).map fun (body, rest) => (String.ofList body, rest)
  | cs =>
    let body := cs.takeWhile isBare
    if body.isEmpty then none else some (String.ofList body, cs.drop body.length)

/-- A key of parts with points between them, with blanks around the parts. -/
def keyWith : Nat → List Char → Option (List String × List Char)
  | 0, _ => none
  | fuel + 1, cs => do
    let (part, cs) ← keyPart (skipBlanks cs)
    match skipBlanks cs with
    | '.' :: cs =>
      let (parts, cs) ← keyWith fuel cs
      pure (part :: parts, cs)
    | cs => pure ([part], cs)

def key (cs : List Char) : Option (List String × List Char) := do
  let (parts, cs) ← keyWith (cs.length + 1) cs
  if parts.length ≤ depthLimit then some (parts, cs) else none

/-! ### Values -/

mutual

/-- The second number is how deep arrays and tables may still nest. -/
def value : Nat → Nat → List Char → Option (Value × List Char)
  | 0, _, _ => none
  | fuel + 1, depth, cs =>
    match cs with
    | '"' :: '"' :: '"' :: cs => (lines '"' true cs).map fun (body, rest) => (.text (String.ofList body), rest)
    | '"' :: cs => (basic cs).map fun (body, rest) => (.text (String.ofList body), rest)
    | '\'' :: '\'' :: '\'' :: cs =>
      (lines '\'' false cs).map fun (body, rest) => (.text (String.ofList body), rest)
    | '\'' :: cs => (literal cs).map fun (body, rest) => (.text (String.ofList body), rest)
    | '[' :: cs =>
      match depth with
      | 0 => none
      | depth + 1 => (elements fuel depth cs).map fun (vs, rest) => (.array vs, rest)
    | '\x7b' :: cs =>
      match depth with
      | 0 => none
      | depth + 1 =>
        match skipBlanks cs with
        | '\x7d' :: rest => some (.table .closed [], rest)
        | _ => (pairs fuel depth cs []).map fun (es, rest) => (.table .closed es, rest)
    | cs =>
      let (word, rest) := Scalar.splitWord cs
      (Scalar.read? word).map fun v => (v, rest)

/-- The elements of an array up to its bracket; a comma may stand behind the last one. -/
def elements : Nat → Nat → List Char → Option (List Value × List Char)
  | 0, _, _ => none
  | fuel + 1, depth, cs => do
    match ← skipSpace? (cs.length + 1) cs with
    | ']' :: rest => pure ([], rest)
    | cs =>
      let (v, cs) ← value fuel depth cs
      match ← skipSpace? (cs.length + 1) cs with
      | ',' :: cs =>
        let (vs, rest) ← elements fuel depth cs
        pure (v :: vs, rest)
      | ']' :: rest => pure ([v], rest)
      | _ => none

/-- The pairs of a table in braces, added to what is there; none may be missing behind a comma. -/
def pairs : Nat → Nat → List Char → Entries → Option (Entries × List Char)
  | 0, _, _, _ => none
  | fuel + 1, depth, cs, es => do
    let (path, cs) ← key cs
    match cs with
    | '=' :: cs =>
      let (v, cs) ← value fuel depth (skipBlanks cs)
      let es ← es.insert v path
      match skipBlanks cs with
      | ',' :: cs => pairs fuel depth cs es
      | '\x7d' :: rest => pure (es, rest)
      | _ => none
    | _ => none

end

/-! ### Lines -/

/-- What has been read: everything so far, and the path of the last header. -/
structure Draft where
  root : Entries := []
  path : List String := []

def header (cs : List Char) : Option (List String × List Char) := do
  let (path, cs) ← key cs
  match cs with
  | ']' :: cs => pure (path, cs)
  | _ => none

/-- Reads one line and its end. -/
def line (draft : Draft) (cs : List Char) : Option (Draft × List Char) := do
  match cs with
  | '[' :: '[' :: cs =>
    let (path, cs) ← header cs
    match cs with
    | ']' :: cs =>
      let rest ← lineEnd? cs
      let root ← draft.root.openNext path
      pure (⟨root, path⟩, rest)
    | _ => none
  | '[' :: cs =>
    let (path, cs) ← header cs
    let rest ← lineEnd? cs
    let root ← draft.root.openTable path
    pure (⟨root, path⟩, rest)
  | '#' :: _ | '\n' :: _ | '\r' :: _ =>
    let rest ← lineEnd? cs
    pure (draft, rest)
  | cs =>
    let (path, cs) ← key cs
    match cs with
    | '=' :: cs =>
      let cs := skipBlanks cs
      let (v, cs) ← value (2 * cs.length + 2) depthLimit cs
      let rest ← lineEnd? cs
      let root ← draft.root.insertAt draft.path path v
      pure ({ draft with root }, rest)
    | _ => none

def document : Nat → Draft → List Char → Option Draft
  | 0, _, _ => none
  | fuel + 1, draft, cs =>
    match skipBlanks cs with
    | [] => some draft
    | cs => do
      let (draft, rest) ← line draft cs
      document fuel draft rest

end Reader

/-- The entries of a document. A byte order mark in front is skipped. -/
def read? (text : String) : Option Entries :=
  let cs := match text.toList with
    | '\ufeff' :: cs => cs
    | cs => cs
  (Reader.document (cs.length + 1) {} cs).map (·.root)

end ScriptHost.Toml
