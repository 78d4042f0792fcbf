import ScriptHost.Script.Value

/-! Chunks, the units in which script text is loaded, as trees. Nodes that can fail when run carry
the line that their errors name. -/

namespace ScriptHost.Script

open Number

inductive Arithmetic where
  | add | sub | mul | mod | pow | div | floorDiv | bitAnd | bitOr | bitXor | shiftLeft | shiftRight
deriving DecidableEq

inductive Comparison where
  | equal | notEqual | less | lessEqual | greater | greaterEqual
deriving DecidableEq

inductive BinaryOp where
  | arithmetic (op : Arithmetic)
  | compare (op : Comparison)
  | concat
deriving DecidableEq

inductive UnaryOp where
  | negate | length | not | bitNot
deriving DecidableEq

mutual

inductive Expr where
  | nil
  | boolean (b : Bool)
  | number (n : Numeral)
  | text (bytes : ByteArray)
  | rest
  | function (body : FunctionBody)
  | variable (name : String) (line : Nat)
  | index (object key : Expr) (line : Nat)
  | call (callee : Expr) (args : List Expr) (line : Nat)
  | method (object : Expr) (name : String) (args : List Expr) (line : Nat)
  | binary (op : BinaryOp) (left right : Expr) (line : Nat)
  | unary (op : UnaryOp) (operand : Expr) (line : Nat)
  | and (left right : Expr)
  | or (left right : Expr)
  /-- An expression in parentheses yields exactly one value. -/
  | single (e : Expr)
  | table (fields : List Field) (line : Nat)

inductive Field where
  | positional (value : Expr)
  | keyed (key value : Expr)

inductive Stmt where
  | declare (names : List String) (values : List Expr)
  | declareFunction (name : String) (body : FunctionBody)
  | assign (targets values : List Expr) (line : Nat)
  | call (e : Expr)
  | block (body : List Stmt)
  | while (condition : Expr) (body : List Stmt)
  | repeat (body : List Stmt) (condition : Expr)
  | branch (condition : Expr) (yes no : List Stmt)
  | count (name : String) (start limit : Expr) (step : Option Expr) (body : List Stmt) (line : Nat)
  | each (names : List String) (values : List Expr) (body : List Stmt) (line : Nat)
  | return (values : List Expr)
  | break

/-- Parameters, whether more arguments are taken, and the statements. -/
inductive FunctionBody where
  | mk (parameters : List String) (variadic : Bool) (body : List Stmt)

end

instance : Inhabited Expr := ⟨.nil⟩
instance : Inhabited Stmt := ⟨.break⟩
instance : Inhabited FunctionBody := ⟨.mk [] false []⟩

end ScriptHost.Script
