/-! Quoted texts: basic ones with escapes and literal ones without, on one line in one quote or
over several lines in three. Every text consists of characters that stand for themselves, and none
of these is a control character but the tab. -/

namespace ScriptHost.Toml.Quoted

def isPlain (c : Char) : Bool := c == '\t' || (0x20 ≤ c.toNat && c.toNat != 0x7f)

def isBlank (c : Char) : Bool := c == ' ' || c == '\t'

/-- The text after a line end, if there is one here. -/
def newline? : List Char → Option (List Char)
  | '\n' :: cs => some cs
  | '\r' :: '\n' :: cs => some cs
  | _ => none

/-! ### Escapes -/

def hexValue? (c : Char) : Option Nat :=
  if c.isDigit then some (c.toNat - '0'.toNat)
  else if 'a' ≤ c && c ≤ 'f' then some (c.toNat - 'a'.toNat + 10)
  else if 'A' ≤ c && c ≤ 'F' then some (c.toNat - 'A'.toNat + 10)
  else none

/-- The character whose code point the next `n` hexadecimal digits give. -/
def codePoint? (n : Nat) (cs : List Char) : Option (Char × List Char) := do
  let ds ← (cs.take n).mapM hexValue?
  if ds.length = n then
    let v := ds.foldl (fun v d => v * 16 + d) 0
    if v.isValidChar then some (Char.ofNat v, cs.drop n) else none
  else none

/-- What stands behind a backslash. -/
def escape? : List Char → Option (Char × List Char)
  | 'b' :: cs => some ('\x08', cs)
  | 't' :: cs => some ('\t', cs)
  | 'n' :: cs => some ('\n', cs)
  | 'f' :: cs => some ('\x0c', cs)
  | 'r' :: cs => some ('\r', cs)
  | '"' :: cs => some ('"', cs)
  | '\\' :: cs => some ('\\', cs)
  | 'u' :: cs => codePoint? 4 cs
  | 'U' :: cs => codePoint? 8 cs
  | _ => none

/-! ### One line -/

/-- The rest of a literal text after its quote. -/
def literal (cs : List Char) : Option (List Char × List Char) :=
  let body := cs.takeWhile fun c => isPlain c && c != '\''
  match cs.drop body.length with
  | '\'' :: rest => some (body, rest)
  | _ => none

/-- The rest of a basic text after its quote. Every step takes a character, so the length of what
is there is enough fuel; so it is below. -/
def basicWith : Nat → List Char → Option (List Char × List Char)
  | 0, _ => none
  | _, [] => none
  | _, '"' :: cs => some ([], cs)
  | fuel + 1, '\\' :: cs => do
    let (c, cs) ← escape? cs
    let (body, rest) ← basicWith fuel cs
    pure (c :: body, rest)
  | fuel + 1, c :: cs =>
    if isPlain c then (basicWith fuel cs).map fun (body, rest) => (c :: body, rest) else none

def basic (cs : List Char) : Option (List Char × List Char) := basicWith (cs.length + 1) cs

/-! ### Several lines -/

/-- Drops blanks and line ends. -/
def skipLines : Nat → List Char → List Char
  | 0, cs => cs
  | fuel + 1, cs =>
    let cs := cs.dropWhile isBlank
    match newline? cs with
    | some cs => skipLines fuel cs
    | none => cs

/-- A backslash at the end of a line takes away the line end and the blanks around it. -/
def lineEndBelow? (cs : List Char) : Option (List Char) :=
  (newline? (cs.dropWhile isBlank)).map fun rest => skipLines (rest.length + 1) rest

/-- The rest of a text in triple quotes. Up to two quotes may stand before the closing three, and a
line end counts as a single character however it is written. -/
def linesWith (quote : Char) (escapes : Bool) : Nat → List Char → Option (List Char × List Char)
  | 0, _ => none
  | _, [] => none
  | fuel + 1, c :: cs =>
    if c == quote then
      let quotes := ((c :: cs).takeWhile (· == quote)).length
      if 3 ≤ quotes then
        let own := min (quotes - 3) 2
        some (List.replicate own quote, (c :: cs).drop (own + 3))
      else (linesWith quote escapes fuel cs).map fun (body, rest) => (c :: body, rest)
    else if escapes && c == '\\' then
      match lineEndBelow? cs with
      | some rest => linesWith quote escapes fuel rest
      | none => do
        let (c, cs) ← escape? cs
        let (body, rest) ← linesWith quote escapes fuel cs
        pure (c :: body, rest)
    else
      match newline? (c :: cs) with
      | some cs => (linesWith quote escapes fuel cs).map fun (body, rest) => ('\n' :: body, rest)
      | none =>
        if isPlain c then (linesWith quote escapes fuel cs).map fun (body, rest) => (c :: body, rest)
        else none

/-- A line end straight after the opening quotes is dropped. -/
def lines (quote : Char) (escapes : Bool) (cs : List Char) : Option (List Char × List Char) :=
  let cs := (newline? cs).getD cs
  linesWith quote escapes (cs.length + 1) cs

end ScriptHost.Toml.Quoted
