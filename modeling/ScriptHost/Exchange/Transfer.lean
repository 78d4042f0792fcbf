import ScriptHost.Exchange.Stack
import ScriptHost.Host.Table

/-! Moving host values to the stack and back. A table is pushed as a new script table and read back
by draining, entry by entry. Reading is by kind, with a test that never changes the stack; a run of
kinds is read from the top downwards. -/

namespace ScriptHost.Exchange

open Script (State TableRef)
open Host (Error Fault Kind Table)

/-! ### Pushing -/

mutual

def pushHost : Host.Value → Exchange Unit
  | .number x => pushNumber x
  | .text s => pushText s
  | .boolean b => push (.boolean b)
  | .function f => pushFunction f
  | .table es =>
    balanced do
      newTable
      pushEntries es
  | .pointer p => push (.pointer p)

/-- Stores entries in the table on top of the stack. -/
def pushEntries : List (String × Host.Value) → Exchange Unit
  | [] => pure ()
  | (k, v) :: rest => do
    push (Host.scriptKey k)
    pushHost v
    setTable
    pushEntries rest

end

def pushTable (t : Table) : Exchange Unit := pushHost (.ofTable t)

def pushAll : List Host.Value → Exchange Unit
  | [] => pure ()
  | v :: vs => do
    pushHost v
    pushAll vs

/-! ### Draining -/

/-- Adds an entry; a key that is there already came from another script key. -/
def keep (t : Table) (key : String) (v : Host.Value) : Exchange Table := do
  match t.find? key with
  | some previous =>
    emit .table .warn ("Script keys collide on \"" ++ key ++ "\", dropping earlier " ++ previous.kind.name ++ " value")
  | none => pure ()
  pure (t.set key v)

/-- The host value for a script value, if the host can store it. Tables are drained by `sub`. -/
def convert? (sub : TableRef → Exchange Table) (v : Script.Value) : Exchange (Option Host.Value) := do
  match v with
  | .number n => pure (some (.number n.toDouble))
  | .text _ => pure ((toText? v).map .text)
  | .boolean b => pure (some (.boolean b))
  | .pointer p => pure (some (.pointer p))
  | .table r => do
    let t ← sub r
    pure (some (.ofTable t))
  | .function r => return ((← state).hostFunction? r).map .function
  | .nil | .thread _ | .failure _ => pure none

/-- Entries whose key has no spelling or whose value cannot be stored are left out, each with a
warning. -/
def drainPairs (sub : TableRef → Exchange Table) : List (Script.Value × Script.Value) → Table → Exchange Table
  | [], t => pure t
  | (k, v) :: rest, t => do
    match Host.keySpelling? k with
    | none =>
      emit .table .warn ("Skipping table entry with unsupported " ++ k.description ++ " key")
      drainPairs sub rest t
    | some key =>
      match ← convert? sub v with
      | some stored =>
        let t ← keep t key stored
        drainPairs sub rest t
      | none =>
        emit .table .warn ("Skipping value of key \"" ++ key ++ "\" the host cannot store")
        drainPairs sub rest t

/-- Copies a script table into a host table, nested tables at most `n` deep. -/
def drainInto : Nat → TableRef → Table → Exchange Table
  | 0, _, _ => exhausted
  | n + 1, r, t => do
    let pairs ← entriesOf r
    let t ← drainPairs (fun r => drainInto n r {}) pairs t
    emit .table .debug ("Drained script table into " ++ toString t.size ++ " entries")
    pure t

/-- Tables that do not contain themselves nest no deeper than there are tables. -/
def drain (r : TableRef) (t : Table) : Exchange Table := do
  drainInto ((← state).tables.size + 1) r t

/-- Drains the table on top of the stack over `t`, and pops it. -/
def drainTop (t : Table) : Exchange Table := do
  match ← peek with
  | some (.table r) =>
    let t ← drain r t
    pop 1
    pure t
  | other => stop (.noTableToDrain (describe other))

def takeTable : Exchange Table := drainTop {}

/-! ### Reading by kind -/

/-- Whether the top of the stack can be read as a kind. Numbers and strings stand in for each other
where they convert. -/
def check (kind : Kind) : Exchange Bool := do
  let s ← state
  let top ← peek
  return match kind with
  | .number => (top.bind toNumber?).isSome
  | .text => (top.bind toText?).isSome
  | .boolean => top.bind Kind.of? == some .boolean
  | .function => (top.bind (toHostFunction? s)).isSome
  | .table => top.bind Kind.of? == some .table
  | .pointer => (top.bind toPointer?).isSome

/-- What a message says was found on top of the stack. -/
def found (top : Option Script.Value) : String :=
  match top with
  | some (.text b) => if (String.fromUTF8? b).isNone then "non-UTF-8 string" else "string"
  | top => describe top

def foundForFunction (top : Option Script.Value) : String :=
  match top with
  | some (.function _) => "script function"
  | top => describe top

def orMismatch (kind : Kind) (top : Option Script.Value) : Option Host.Value → Exchange Host.Value
  | some v => pure v
  | none => fail (.slotMismatch kind (found top))

/-- Reads the top of the stack as a kind. A table is popped, all else stays. -/
def construct (kind : Kind) : Exchange Host.Value := do
  let s ← state
  let top ← peek
  match kind with
  | .number => orMismatch kind top ((top.bind toNumber?).map .number)
  | .text => orMismatch kind top ((top.bind toText?).map .text)
  | .boolean => pure (.boolean (toBoolean top))
  | .function =>
    match top.bind (toHostFunction? s) with
    | some f => pure (.function f)
    | none => fail (.notHostFunction (foundForFunction top))
  | .table => do
    let t ← takeTable
    pure (.ofTable t)
  | .pointer => orMismatch kind top ((top.bind toPointer?).map .pointer)

/-- As `construct`, and the slot is popped whatever the kind. -/
def take (kind : Kind) : Exchange Host.Value := do
  let before ← depth
  let v ← construct kind
  if (← depth) = before then pop 1
  pure v

/-- How a slot of the wrong kind is treated: as a fault of the caller, or as an error. -/
inductive Extraction where
  | strict | checked
deriving DecidableEq

def popSlot (mode : Extraction) (kind : Kind) : Exchange Host.Value := do
  let top ← peek
  match mode with
  | .strict =>
    if isAbsent top then stop .nilArgument
    else if ← check kind then take kind
    else stop (.argumentKind kind (describe top))
  | .checked =>
    if ← check kind then take kind
    else fail (.slotMismatch kind (found top))

/-- Slots from the top downwards, one for each kind. -/
def popDown (mode : Extraction) : List Kind → Exchange (List Host.Value)
  | [] => pure []
  | k :: ks => do
    let v ← popSlot mode k
    let vs ← popDown mode ks
    pure (v :: vs)

/-- The last kind is on top. The first slot that fails ends the reading; those below it stay. -/
def popAll (mode : Extraction) (kinds : List Kind) : Exchange (List Host.Value) :=
  List.reverse <$> popDown mode kinds.reverse

end ScriptHost.Exchange
