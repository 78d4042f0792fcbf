import ScriptHost.Script.Chunk
import ScriptHost.Script.Token

/-! Reading chunks from tokens, by recursive descent with operator priorities. Every nested
construct takes at least one token, so the number of tokens bounds the depth of the descent. -/

namespace ScriptHost.Script.Chunk

/-- Why a text is no chunk, and on which line. -/
structure Fault where
  message : ByteArray
  line : Nat

/-- The tokens not yet taken, the line of the last one taken, and the first `break` of the current
function that stands in no loop. -/
structure Cursor where
  ahead : List Placed
  lastLine : Nat := 1
  strayBreak : Option Nat := none

abbrev Reader (α : Type) := StateT Cursor (Except Fault) α

namespace Reader

/-! ### Looking and taking -/

def current : Reader Placed := do
  return ((← get).ahead.head?).getD ⟨.finish, (← get).lastLine⟩

def failWith {α : Type} (message : ByteArray) : Reader α := do
  throw ⟨message, (← current).line⟩

/-- A complaint at the current token. -/
def fail {α : Type} (message : String) : Reader α := do
  failWith (Token.near message (← current).token.shown)

/-- A token that is invalid is reported as soon as it is next. -/
def checkAhead : Reader Unit := do
  match (← current).token with
  | .invalid complaint => failWith complaint
  | _ => pure ()

/-- Takes the current token; the end of the text is never used up. -/
def advance : Reader Unit := do
  let c ← get
  match c.ahead with
  | t :: u :: rest =>
    set { c with ahead := u :: rest, lastLine := t.line }
    checkAhead
  | _ => pure ()

def isMark (symbol : String) : Reader Bool := return (← current).token == .mark symbol
def isKeyword (word : String) : Reader Bool := return (← current).token == .keyword word

def takes (t : Token) : Reader Bool := do
  if (← current).token == t then
    advance
    return true
  else return false

def takesMark (symbol : String) : Reader Bool := takes (.mark symbol)
def takesKeyword (word : String) : Reader Bool := takes (.keyword word)

def expected {α : Type} (what : String) : Reader α := fail (what ++ " expected")

def expect (t : Token) : Reader Unit := do
  unless ← takes t do
    failWith (Token.near ((String.fromUTF8? t.shown).getD "" ++ " expected") (← current).token.shown)

def expectMark (symbol : String) : Reader Unit := expect (.mark symbol)
def expectKeyword (word : String) : Reader Unit := expect (.keyword word)

/-- The token that closes what was opened on an earlier line is asked for by naming that line. -/
def expectClosing (close opener : Token) (line : Nat) : Reader Unit := do
  unless ← takes close do
    let now ← current
    if now.line = line then expect close
    else
      let what (t : Token) : String := (String.fromUTF8? t.shown).getD ""
      fail (what close ++ " expected (to close " ++ what opener ++ " at line " ++ toString line ++ ")")

def identifier : Reader String := do
  match (← current).token with
  | .name id =>
    advance
    return id
  | _ => expected "<name>"

/-- Whether no further statement can start here. -/
def atBlockEnd : Reader Bool := do
  match (← current).token with
  | .finish | .keyword "else" | .keyword "elseif" | .keyword "end" | .keyword "until" => return true
  | _ => return false

def reportBreak : Reader Unit := do
  match (← get).strayBreak with
  | some line => failWith ("break outside a loop at line " ++ toString line).toUTF8
  | none => pure ()

/-! ### Operators -/

def unary? : Token → Option UnaryOp
  | .keyword "not" => some .not
  | .mark "-" => some .negate
  | .mark "#" => some .length
  | .mark "~" => some .bitNot
  | _ => none

/-- How an operator joins its operands. -/
inductive Join where
  | op (o : BinaryOp)
  | and
  | or

/-- Left and right priority; a smaller right one makes the operator group to the right. -/
def binary? : Token → Option (Join × Nat × Nat)
  | .mark "+" => some (.op (.arithmetic .add), 10, 10)
  | .mark "-" => some (.op (.arithmetic .sub), 10, 10)
  | .mark "*" => some (.op (.arithmetic .mul), 11, 11)
  | .mark "%" => some (.op (.arithmetic .mod), 11, 11)
  | .mark "^" => some (.op (.arithmetic .pow), 14, 13)
  | .mark "/" => some (.op (.arithmetic .div), 11, 11)
  | .mark "//" => some (.op (.arithmetic .floorDiv), 11, 11)
  | .mark "&" => some (.op (.arithmetic .bitAnd), 6, 6)
  | .mark "|" => some (.op (.arithmetic .bitOr), 4, 4)
  | .mark "~" => some (.op (.arithmetic .bitXor), 5, 5)
  | .mark "<<" => some (.op (.arithmetic .shiftLeft), 7, 7)
  | .mark ">>" => some (.op (.arithmetic .shiftRight), 7, 7)
  | .mark ".." => some (.op .concat, 9, 8)
  | .mark "==" => some (.op (.compare .equal), 3, 3)
  | .mark "~=" => some (.op (.compare .notEqual), 3, 3)
  | .mark "<" => some (.op (.compare .less), 3, 3)
  | .mark "<=" => some (.op (.compare .lessEqual), 3, 3)
  | .mark ">" => some (.op (.compare .greater), 3, 3)
  | .mark ">=" => some (.op (.compare .greaterEqual), 3, 3)
  | .keyword "and" => some (.and, 2, 2)
  | .keyword "or" => some (.or, 1, 1)
  | _ => none

def unaryPriority : Nat := 12

def join (j : Join) (left right : Expr) (line : Nat) : Expr :=
  match j with
  | .op o => .binary o left right line
  | .and => .and left right
  | .or => .or left right

/-- Only variables and indexed values can be assigned. -/
def assignable : Expr → Bool
  | .variable .. | .index .. => true
  | _ => false

def isCall : Expr → Bool
  | .call .. | .method .. => true
  | _ => false

/-- What the surrounding text allows at a place. -/
structure Place where
  variadic : Bool
  inLoop : Bool := false

/-! ### Descent -/

mutual

def expression : Nat → Place → Nat → Reader Expr
  | 0, _, _ => fail "chunk has too many syntax levels"
  | n + 1, p, limit => do
    let now ← current
    let left ← match unary? now.token with
      | some op => do
        advance
        let operand ← expression n p unaryPriority
        pure (Expr.unary op operand now.line)
      | none => simple n p
    operators n p limit left

/-- Operators of more than the given priority, applied from left to right. -/
def operators : Nat → Place → Nat → Expr → Reader Expr
  | 0, _, _, left => pure left
  | n + 1, p, limit, left => do
    let now ← current
    match binary? now.token with
    | none => pure left
    | some (j, leftPriority, rightPriority) =>
      if limit < leftPriority then
        advance
        let right ← expression n p rightPriority
        operators n p limit (join j left right now.line)
      else pure left

def simple : Nat → Place → Reader Expr
  | 0, _ => fail "chunk has too many syntax levels"
  | n + 1, p => do
    let now ← current
    match now.token with
    | .number value _ => advance; pure (.number value)
    | .text value _ => advance; pure (.text value)
    | .keyword "nil" => advance; pure .nil
    | .keyword "true" => advance; pure (.boolean true)
    | .keyword "false" => advance; pure (.boolean false)
    | .mark "..." =>
      if p.variadic then
        advance
        pure .rest
      else fail "cannot use '...' outside a vararg function"
    | .mark "\x7b" => tableConstructor n p
    | .keyword "function" =>
      advance
      let body ← functionBody n false now.line
      pure (.function body)
    | _ => suffixed n p

def primary : Nat → Place → Reader Expr
  | 0, _ => fail "chunk has too many syntax levels"
  | n + 1, p => do
    let now ← current
    match now.token with
    | .name id =>
      advance
      pure (.variable id now.line)
    | .mark "(" =>
      advance
      let e ← expression n p 0
      expectClosing (.mark ")") (.mark "(") now.line
      pure (.single e)
    | _ => fail "unexpected symbol"

def suffixed : Nat → Place → Reader Expr
  | 0, _ => fail "chunk has too many syntax levels"
  | n + 1, p => do
    let e ← primary n p
    suffixes n p e

def suffixes : Nat → Place → Expr → Reader Expr
  | 0, _, e => pure e
  | n + 1, p, e => do
    let now ← current
    match now.token with
    | .mark "." =>
      advance
      let key ← identifier
      suffixes n p (.index e (.text key.toUTF8) (← get).lastLine)
    | .mark "[" =>
      advance
      let key ← expression n p 0
      expectMark "]"
      suffixes n p (.index e key (← get).lastLine)
    | .mark ":" =>
      advance
      let name ← identifier
      let line := (← current).line
      let args ← arguments n p
      suffixes n p (.method e name args line)
    | .mark "(" | .mark "\x7b" | .text .. =>
      let args ← arguments n p
      suffixes n p (.call e args now.line)
    | _ => pure e

def arguments : Nat → Place → Reader (List Expr)
  | 0, _ => fail "chunk has too many syntax levels"
  | n + 1, p => do
    let now ← current
    match now.token with
    | .mark "(" =>
      advance
      if ← takesMark ")" then pure []
      else
        let args ← expressions n p
        expectClosing (.mark ")") (.mark "(") now.line
        pure args
    | .mark "\x7b" =>
      let t ← tableConstructor n p
      pure [t]
    | .text value _ =>
      advance
      pure [.text value]
    | _ => fail "function arguments expected"

def expressions : Nat → Place → Reader (List Expr)
  | 0, _ => fail "chunk has too many syntax levels"
  | n + 1, p => do
    let e ← expression n p 0
    if ← takesMark "," then
      let es ← expressions n p
      pure (e :: es)
    else pure [e]

def tableConstructor : Nat → Place → Reader Expr
  | 0, _ => fail "chunk has too many syntax levels"
  | n + 1, p => do
    let line := (← current).line
    expectMark "\x7b"
    let fs ← fields n p
    expectClosing (.mark "\x7d") (.mark "\x7b") line
    pure (.table fs line)

def fields : Nat → Place → Reader (List Field)
  | 0, _ => pure []
  | n + 1, p => do
    if ← isMark "\x7d" then pure []
    else
      let f ← field n p
      if (← takesMark ",") then
        let fs ← fields n p
        pure (f :: fs)
      else if (← takesMark ";") then
        let fs ← fields n p
        pure (f :: fs)
      else pure [f]

def field : Nat → Place → Reader Field
  | 0, _ => fail "chunk has too many syntax levels"
  | n + 1, p => do
    match (← get).ahead with
    | ⟨.name id, _⟩ :: ⟨.mark "=", _⟩ :: _ =>
      advance
      advance
      let v ← expression n p 0
      pure (.keyed (.text id.toUTF8) v)
    | ⟨.name _, _⟩ :: ⟨.invalid complaint, line⟩ :: _ => throw ⟨complaint, line⟩
    | ⟨.mark "[", _⟩ :: _ =>
      advance
      let k ← expression n p 0
      expectMark "]"
      expectMark "="
      let v ← expression n p 0
      pure (.keyed k v)
    | _ =>
      let v ← expression n p 0
      pure (.positional v)

/-- Parameters and body of a function whose `function` stood on the given line. A `break` in no
loop is reported when the function ends. -/
def functionBody : Nat → Bool → Nat → Reader FunctionBody
  | 0, _, _ => fail "chunk has too many syntax levels"
  | n + 1, isMethod, line => do
    expectMark "("
    let (names, variadic) ← parameters n
    expectMark ")"
    let outer := (← get).strayBreak
    modify fun c => { c with strayBreak := none }
    let body ← block n { variadic := variadic }
    expectClosing (.keyword "end") (.keyword "function") line
    reportBreak
    modify fun c => { c with strayBreak := outer }
    pure (.mk (if isMethod then "self" :: names else names) variadic body)

def parameters : Nat → Reader (List String × Bool)
  | 0 => fail "chunk has too many syntax levels"
  | n + 1 => do
    match (← current).token with
    | .mark ")" => pure ([], false)
    | _ => parameterList n

def parameterList : Nat → Reader (List String × Bool)
  | 0 => fail "chunk has too many syntax levels"
  | n + 1 => do
    match (← current).token with
    | .name id =>
      advance
      if ← takesMark "," then
        let (names, variadic) ← parameterList n
        pure (id :: names, variadic)
      else pure ([id], false)
    | .mark "..." =>
      advance
      pure ([], true)
    | _ => fail "<name> or '...' expected"

/-- Statements up to the end of the block; `return` is the last one. -/
def block : Nat → Place → Reader (List Stmt)
  | 0, _ => fail "chunk has too many syntax levels"
  | n + 1, p => do
    if ← atBlockEnd then pure []
    else if ← isKeyword "return" then
      let s ← returnStatement n p
      pure [s]
    else
      let s ← statement n p
      let rest ← block n p
      pure (s ++ rest)

def returnStatement : Nat → Place → Reader Stmt
  | 0, _ => fail "chunk has too many syntax levels"
  | n + 1, p => do
    advance
    let stop := (← atBlockEnd) || (← isMark ";")
    let values ← if stop then pure [] else expressions n p
    let _ ← takesMark ";"
    pure (.return values)

/-- One statement; the empty one yields nothing. -/
def statement : Nat → Place → Reader (List Stmt)
  | 0, _ => fail "chunk has too many syntax levels"
  | n + 1, p => do
    let now ← current
    match now.token with
    | .mark ";" =>
      advance
      pure []
    | .keyword "if" =>
      let s ← branches n p now.line
      pure [s]
    | .keyword "while" =>
      advance
      let condition ← expression n p 0
      expectKeyword "do"
      let body ← block n { p with inLoop := true }
      expectClosing (.keyword "end") (.keyword "while") now.line
      pure [.while condition body]
    | .keyword "do" =>
      advance
      let body ← block n p
      expectClosing (.keyword "end") (.keyword "do") now.line
      pure [.block body]
    | .keyword "for" =>
      let s ← loop n p now.line
      pure [s]
    | .keyword "repeat" =>
      advance
      let body ← block n { p with inLoop := true }
      expectClosing (.keyword "until") (.keyword "repeat") now.line
      let condition ← expression n p 0
      pure [.repeat body condition]
    | .keyword "function" =>
      advance
      let id ← identifier
      let (target, isMethod) ← functionName n (.variable id now.line)
      let body ← functionBody n isMethod now.line
      pure [.assign [target] [.function body] now.line]
    | .keyword "local" =>
      advance
      if ← takesKeyword "function" then
        let id ← identifier
        let body ← functionBody n false (← get).lastLine
        pure [.declareFunction id body]
      else
        let names ← nameList n
        let values ← if ← takesMark "=" then expressions n p else pure []
        pure [.declare names values]
    | .keyword "break" =>
      advance
      unless p.inLoop do
        modify fun c => { c with strayBreak := c.strayBreak <|> some now.line }
      pure [.break]
    | _ =>
      let e ← suffixed n p
      let next ← current
      if next.token = .mark "=" ∨ next.token = .mark "," then
        let s ← assignment n p [e]
        pure [s]
      else if isCall e then pure [.call e]
      else fail "syntax error"

/-- Targets so far, last one first; then either one more or the values. -/
def assignment : Nat → Place → List Expr → Reader Stmt
  | 0, _, _ => fail "chunk has too many syntax levels"
  | n + 1, p, targets => do
    unless (targets.head?.map assignable).getD false do fail "syntax error"
    if ← takesMark "," then
      let e ← suffixed n p
      assignment n p (e :: targets)
    else
      expectMark "="
      let values ← expressions n p
      pure (.assign targets.reverse values (← get).lastLine)

def functionName : Nat → Expr → Reader (Expr × Bool)
  | 0, e => pure (e, false)
  | n + 1, e => do
    if ← takesMark "." then
      let key ← identifier
      functionName n (.index e (.text key.toUTF8) (← get).lastLine)
    else if ← takesMark ":" then
      let key ← identifier
      pure (.index e (.text key.toUTF8) (← get).lastLine, true)
    else pure (e, false)

def nameList : Nat → Reader (List String)
  | 0 => pure []
  | n + 1 => do
    let id ← identifier
    if ← takesMark "," then
      let ids ← nameList n
      pure (id :: ids)
    else pure [id]

def branches : Nat → Place → Nat → Reader Stmt
  | 0, _, _ => fail "chunk has too many syntax levels"
  | n + 1, p, line => do
    advance
    let condition ← expression n p 0
    expectKeyword "then"
    let yes ← block n p
    if ← isKeyword "elseif" then
      let no ← branches n p line
      pure (.branch condition yes [no])
    else
      let no ← if ← takesKeyword "else" then block n p else pure []
      expectClosing (.keyword "end") (.keyword "if") line
      pure (.branch condition yes no)

def loop : Nat → Place → Nat → Reader Stmt
  | 0, _, _ => fail "chunk has too many syntax levels"
  | n + 1, p, line => do
    advance
    let id ← identifier
    let inside : Place := { p with inLoop := true }
    match (← current).token with
    | .mark "=" =>
      advance
      let start ← expression n p 0
      expectMark ","
      let limit ← expression n p 0
      let step ← if ← takesMark "," then some <$> expression n p 0 else pure none
      expectKeyword "do"
      let body ← block n inside
      expectClosing (.keyword "end") (.keyword "for") line
      pure (.count id start limit step body line)
    | .mark "," | .keyword "in" =>
      let more ← if ← takesMark "," then nameList n else pure []
      expectKeyword "in"
      let values ← expressions n p
      expectKeyword "do"
      let body ← block n inside
      expectClosing (.keyword "end") (.keyword "for") line
      pure (.each (id :: more) values body line)
    | _ => fail "'=' or 'in' expected"

end

end Reader

/-- Reads a whole text. The body of a chunk takes any number of arguments. -/
def read (source : String) : Except Fault FunctionBody :=
  let tokens := Token.readAll source
  let reader : Reader FunctionBody := do
    Reader.checkAhead
    let body ← Reader.block (8 * tokens.length + 8) { variadic := true }
    match (← Reader.current).token with
    | .finish => Reader.reportBreak
    | _ => Reader.expected "<eof>"
    pure (.mk [] true body)
  (reader.run ⟨tokens, 1, none⟩).map (·.1)

end ScriptHost.Script.Chunk
