import ScriptHost.Script.Value

/-! Tokens of script text. Reading never fails as a whole: a malformed token ends the list as
`invalid` and is reported only when the reader of chunks gets there. -/

namespace ScriptHost.Script

open Number Ascii

inductive Token where
  | name (id : String)
  | keyword (word : String)
  | mark (symbol : String)
  | number (n : Numeral) (spelling : ByteArray)
  | text (bytes : ByteArray) (spelling : ByteArray)
  | finish
  /-- Text that is no token, with the complaint about it. -/
  | invalid (complaint : ByteArray)
deriving DecidableEq, Inhabited

/-- A token with the line on which it ends. -/
structure Placed where
  token : Token
  line : Nat
deriving DecidableEq, Inhabited

namespace Token

def keywords : List String :=
  ["and", "break", "do", "else", "elseif", "end", "false", "for", "function", "goto", "if", "in",
   "local", "nil", "not", "or", "repeat", "return", "then", "true", "until", "while"]

/-- A message and what stands at the fault; text is shown up to its first zero byte. -/
def near (message : String) (shown : ByteArray) : ByteArray :=
  let upToZero := (shown.toList.takeWhile (· != 0)).toByteArray
  (message ++ " near ").toUTF8 ++ upToZero

def quote (shown : ByteArray) : ByteArray := "'".toUTF8 ++ shown ++ "'".toUTF8

/-- The end of the text as messages show it. -/
def finishText : ByteArray := "<eof>".toUTF8

/-- Bytes that do not print stand as their number. -/
def byteText (b : UInt8) : ByteArray :=
  if isPrintable b then (String.singleton (Char.ofNat b.toNat)).toUTF8
  else ("<\\" ++ toString b.toNat ++ ">").toUTF8

/-- How a message shows a token. -/
def shown : Token → ByteArray
  | .name id => quote id.toUTF8
  | .keyword word => quote word.toUTF8
  | .mark symbol => quote symbol.toUTF8
  | .number _ spelling | .text _ spelling => quote spelling
  | .finish => finishText
  | .invalid complaint => complaint

/-! ### Single tokens

Each reader gets the bytes from its token on and answers the token, the number of line ends in it
and the bytes behind it. -/

abbrev Step := Token × Nat × List UInt8

/-- Line ends come as one byte or as a pair of two different ones. -/
def skipNewline : List UInt8 → List UInt8
  | a :: b :: rest => if isNewline b && a != b then rest else b :: rest
  | bs => bs.drop 1

def invalidNear (message : String) (shown : ByteArray) : Token := .invalid (near message shown)

/-- Characters of a numeral: digits, points, and a sign right behind an exponent mark. -/
def numeralSpan (isMark : UInt8 → Bool) : List UInt8 → List UInt8
  | [] => []
  | [b] => if isMark b || isHexDigit b || b == byte '.' then [b] else []
  | b :: c :: rest =>
    if isMark b then
      if c == byte '-' || c == byte '+' then b :: c :: numeralSpan isMark rest
      else b :: numeralSpan isMark (c :: rest)
    else if isHexDigit b || b == byte '.' then b :: numeralSpan isMark (c :: rest)
    else []

def readNumber (bs : List UInt8) : Step :=
  let isMark (upper : Char) (b : UInt8) : Bool := b == byte upper || b == byte upper.toLower
  let head : List UInt8 := if (Numeral.afterHexMark? bs).isSome then bs.take 2 else []
  let tail := bs.drop head.length
  let span := head ++ numeralSpan (isMark (if head.isEmpty then 'E' else 'P')) tail
  let after := bs.drop span.length
  let touching := (after.take 1).filter isLetter
  let all := span ++ touching
  let token : Token := match Numeral.read? all with
    | some n => .number n all.toByteArray
    | none => invalidNear "malformed number" (quote all.toByteArray)
  (token, 0, after.drop touching.length)

/-- The number of `=` between two brackets of the given kind, and the bytes behind the second. -/
def longBracket? (bracket : Char) : List UInt8 → Option (Nat × List UInt8)
  | [] => none
  | b :: rest =>
    if b != byte bracket then none
    else
      let level := (rest.takeWhile (· == byte '=')).length
      match rest.drop level with
      | [] => none
      | c :: behind => if c == byte bracket then some (level, behind) else none

/-- Bytes up to the closing bracket of a level; line ends count as one newline each. -/
def longBody (level : Nat) : Nat → List UInt8 → Option (List UInt8 × Nat × List UInt8)
  | 0, _ => none
  | _, [] => none
  | fuel + 1, b :: rest =>
    match longBracket? ']' (b :: rest) with
    | some (l, behind) =>
      if l = level then some ([], 0, behind)
      else (longBody level fuel rest).map fun (body, n, behind) => (b :: body, n, behind)
    | none =>
      if isNewline b then
        (longBody level fuel (skipNewline (b :: rest))).map fun (body, n, behind) =>
          (10 :: body, n + 1, behind)
      else (longBody level fuel rest).map fun (body, n, behind) => (b :: body, n, behind)

/-- The inside of a long bracket; a line end right after it does not count as text. -/
def longText? (level : Nat) (bs : List UInt8) : Option (List UInt8 × Nat × List UInt8) :=
  match bs with
  | b :: _ =>
    if isNewline b then
      (longBody level (bs.length + 1) (skipNewline bs)).map fun (body, n, rest) => (body, n + 1, rest)
    else longBody level (bs.length + 1) bs
  | [] => none

def unfinishedLong (what : String) (line : Nat) : Token :=
  invalidNear ("unfinished long " ++ what ++ " (starting at line " ++ toString line ++ ")") finishText

/-- The bytes of a code point below `2 ^ 31`, in the encoding that goes up to six bytes. -/
def encodePoint (n : Nat) : List UInt8 :=
  let tail (k : Nat) : List UInt8 :=
    ((List.range k).reverse.map fun i => UInt8.ofNat (128 + n / 64 ^ i % 64))
  if n < 0x80 then [UInt8.ofNat n]
  else if n < 0x800 then UInt8.ofNat (0xC0 + n / 64) :: tail 1
  else if n < 0x10000 then UInt8.ofNat (0xE0 + n / 64 ^ 2) :: tail 2
  else if n < 0x200000 then UInt8.ofNat (0xF0 + n / 64 ^ 3) :: tail 3
  else if n < 0x4000000 then UInt8.ofNat (0xF8 + n / 64 ^ 4) :: tail 4
  else UInt8.ofNat (0xFC + n / 64 ^ 5) :: tail 5

/-- An escape sequence behind its backslash: the bytes it stands for, the line ends in it and the
bytes behind it; or a complaint and how many bytes it shows. -/
def readEscape (bs : List UInt8) : Except (String × Nat) (List UInt8 × Nat × List UInt8) :=
  match bs with
  | [] => .ok ([], 0, [])
  | b :: rest =>
    let plain (c : UInt8) : Except (String × Nat) (List UInt8 × Nat × List UInt8) := .ok ([c], 0, rest)
    if b == byte 'n' then plain 10
    else if b == byte 't' then plain 9
    else if b == byte 'r' then plain 13
    else if b == byte 'a' then plain 7
    else if b == byte 'b' then plain 8
    else if b == byte 'f' then plain 12
    else if b == byte 'v' then plain 11
    else if b == byte '\\' || b == byte '"' || b == byte '\'' then plain b
    else if isNewline b then .ok ([10], 1, skipNewline bs)
    else if b == byte 'x' then
      let digits := (rest.take 2).takeWhile isHexDigit
      if digits.length = 2 then .ok ([UInt8.ofNat (value 16 digits)], 0, rest.drop 2)
      else .error ("hexadecimal digit expected", digits.length + 2)
    else if b == byte 'z' then
      let blanks := rest.takeWhile isSpace
      .ok ([], (blanks.filter isNewline).length, rest.dropWhile isSpace)
    else if b == byte 'u' then
      match rest with
      | [] => .error ("missing '\x7b' in \\u\x7bxxxx\x7d", 2)
      | open_ :: inner =>
        if open_ != byte '\x7b' then .error ("missing '\x7b' in \\u\x7bxxxx\x7d", 2)
        else
          let digits := inner.takeWhile isHexDigit
          let after := inner.drop digits.length
          if digits.isEmpty then .error ("hexadecimal digit expected", 3)
          else if 2 ^ 31 ≤ value 16 digits then .error ("UTF-8 value too large", digits.length + 2)
          else if after.take 1 != [byte '\x7d'] then
            .error ("missing '\x7d' in \\u\x7bxxxx\x7d", digits.length + 3)
          else .ok (encodePoint (value 16 digits), 0, after.drop 1)
    else if isDigit b then
      let digits := (bs.take 3).takeWhile isDigit
      if 255 < value 10 digits then .error ("decimal escape too large", digits.length + 1)
      else .ok ([UInt8.ofNat (value 10 digits)], 0, bs.drop digits.length)
    else .error ("invalid escape sequence", 1)

/-- The inside of a quoted string. `seen` holds what was read so far, last byte first. -/
def readQuoted (quoteByte : UInt8) : Nat → List UInt8 → Nat → List UInt8 → Step
  | 0, _, lines, rest => (.finish, lines, rest)
  | _, _, lines, [] => (invalidNear "unfinished string" finishText, lines, [])
  | fuel + 1, seen, lines, b :: rest =>
    let shownWith (more : List UInt8) : ByteArray :=
      quote (quoteByte :: seen.reverse ++ more).toByteArray
    if b == quoteByte then
      let bytes := seen.reverse
      (.text bytes.toByteArray (quoteByte :: bytes ++ [quoteByte]).toByteArray, lines, rest)
    else if isNewline b then (invalidNear "unfinished string" (shownWith []), lines, b :: rest)
    else if b == byte '\\' then
      match readEscape rest with
      | .ok (bytes, n, behind) => readQuoted quoteByte fuel (bytes.reverse ++ seen) (lines + n) behind
      | .error (complaint, count) =>
        (invalidNear complaint (shownWith (b :: rest.take count)), lines, [])
    else readQuoted quoteByte fuel (b :: seen) lines rest

def marks3 : List String := ["..."]
def marks2 : List String := ["==", "~=", "<=", ">=", "//", "::", "<<", ">>", ".."]

/-- The longest mark at the front; any other byte is a mark of its own. -/
def readMark (b : UInt8) (rest : List UInt8) : Step :=
  let starts (s : String) : Bool := bytes s |>.isPrefixOf (b :: rest)
  match (marks3 ++ marks2).find? starts with
  | some s => (.mark s, 0, (b :: rest).drop s.utf8ByteSize)
  | none => (.mark ((String.fromUTF8? (byteText b)).getD ""), 0, rest)

def readWord (bs : List UInt8) : Step :=
  let word := (String.fromUTF8? (bs.takeWhile isWord).toByteArray).getD ""
  (if word ∈ keywords then .keyword word else .name word, 0, bs.dropWhile isWord)

/-- A comment behind its two dashes: the line ends in it and the bytes behind it, or `none` if it
is long and never closed. -/
def skipComment (bs : List UInt8) : Option (Nat × List UInt8) :=
  match longBracket? '[' bs with
  | some (level, inner) => (longText? level inner).map fun (_, n, rest) => (n, rest)
  | none => some (0, bs.dropWhile fun b => !isNewline b)

/-- Whether brackets with `=` between them start here without the second one. -/
def brokenBracket (bs : List UInt8) : Bool :=
  match bs with
  | _ :: c :: _ => c == byte '=' && (longBracket? '[' bs).isNone
  | _ => false

/-- One token, blanks and comments already skipped. -/
def readOne (line : Nat) (b : UInt8) (rest : List UInt8) : Step :=
  let bs := b :: rest
  if isLetter b then readWord bs
  else if isDigit b || (b == byte '.' && (rest.take 1).any isDigit) then readNumber bs
  else if b == byte '"' || b == byte '\'' then readQuoted b (rest.length + 1) [] 0 rest
  else if b == byte '[' then
    match longBracket? '[' bs with
    | some (level, inner) =>
      match longText? level inner with
      | some (body, n, behind) =>
        let fence := (byte '=' |> List.replicate level)
        let shown := byte '[' :: fence ++ byte '[' :: body ++ byte ']' :: fence ++ [byte ']']
        (.text body.toByteArray shown.toByteArray, n, behind)
      | none => (unfinishedLong "string" line, 0, [])
    | none =>
      if brokenBracket bs then
        let span := b :: rest.takeWhile (· == byte '=')
        (invalidNear "invalid long string delimiter" (quote span.toByteArray), 0, [])
      else (.mark "[", 0, rest)
  else readMark b rest

/-- All tokens from a line on, ended by `finish` or `invalid`. Every step takes a byte at least,
so the number of bytes is enough fuel. -/
def readFrom : Nat → Nat → List UInt8 → List Placed
  | 0, line, _ => [⟨.finish, line⟩]
  | _, line, [] => [⟨.finish, line⟩]
  | fuel + 1, line, b :: rest =>
    if isNewline b then readFrom fuel (line + 1) (skipNewline (b :: rest))
    else if isSpace b then readFrom fuel line rest
    else if b == byte '-' && rest.take 1 == [byte '-'] then
      match skipComment (rest.drop 1) with
      | some (n, behind) => readFrom fuel (line + n) behind
      | none => [⟨unfinishedLong "comment" line, line⟩]
    else
      match readOne line b rest with
      | (.invalid complaint, n, _) => [⟨.invalid complaint, line + n⟩]
      | (token, n, behind) => ⟨token, line + n⟩ :: readFrom fuel (line + n) behind

def readAll (source : String) : List Placed :=
  let bs := bytes source
  readFrom (bs.length + 1) 1 bs

end Token

end ScriptHost.Script
