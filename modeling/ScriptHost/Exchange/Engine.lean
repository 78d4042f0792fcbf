import ScriptHost.Exchange.Operations
import ScriptHost.Script.Chunk.Reader
import ScriptHost.Script.Evaluation

/-! The whole engine. A catalog says what every host function does, as an exchange on a stack that
holds the arguments of the call; the count it answers selects the results from the top. Host errors
become script errors, and so do faults, which then wait for the next value that reaches the host. -/

namespace ScriptHost.Exchange

open Script (Value State Eval Call Site Flow Failure)
open Host (Error Fault)

abbrev Catalog := HostFunction → Exchange Nat

/-- Raises the error object of a failed host function. -/
def raiseFailure {α : Type} (failure : Failure) (s : State) : Flow α :=
  let (r, s) := s.newFailure failure
  .raised (.failure r) s

/-- The results of a host function on given arguments. -/
def resultsOf (body : Exchange Nat) (args : List Value) : Exchange (List Value) := do
  let vs ← receiveAll args
  setStack vs.reverse
  let n ← body
  let d ← depth
  if n ≤ d then takeTop n else stop (.tooManyResults n d)

/-- A host function works on a stack of its own. -/
def hostCall (catalog : Catalog) : Script.Evaluation.HostCall := fun call f args site s =>
  match resultsOf (catalog f) args ⟨call, ⟨none, site.callers⟩⟩ ⟨[], s⟩ with
  | .done vs frame => .done vs frame.state
  | .failed e frame => raiseFailure (.error e.text) frame.state
  | .stopped fault s => raiseFailure (.fatal fault.message) s
  | .exhausted => .exhausted

/-- How deep calls may nest. -/
def depthLimit : Nat := 12000

def engine (catalog : Catalog) : Call := Script.Evaluation.callAt (hostCall catalog) depthLimit

/-- The channel of host code that no script has called. -/
def outermost (catalog : Catalog) : Channel := ⟨engine catalog, Site.host⟩

/-! ### Chunks -/

/-- How messages name a chunk: its name, or the end of a name that is too long. -/
def chunkTitle (name : String) : ByteArray :=
  let bytes := name.toUTF8.toList
  if bytes.length < 60 then name.toUTF8
  else ("...".toUTF8.toList ++ bytes.drop (bytes.length - 56)).toByteArray

/-- Why a chunk did not run to its end. -/
inductive ChunkError where
  | unreadable (message : String)
  /-- The name has a zero byte; the mark in front of a name counts for the position. -/
  | unnameable (position : Nat)
  | raised (message : String)

namespace ChunkError

def message : ChunkError → String
  | .unreadable m | .raised m => m
  | .unnameable n => "invalid name: nul byte found in provided data at position: " ++ toString n

/-- The message with the kind of error in front. -/
def text (e : ChunkError) : String :=
  match e with
  | .unreadable m => "syntax error: " ++ m
  | .unnameable _ | .raised _ => "runtime error: " ++ e.message

end ChunkError

/-- Reads a text as a chunk and runs it; its results are dropped. -/
def runChunk (name source : String) : Exchange (Except ChunkError Unit) := do
  let title := chunkTitle name
  match name.toUTF8.toList.idxOf? 0, Script.Chunk.read source with
  | some n, _ => pure (.error (.unnameable (n + 1)))
  | none, .error fault =>
    let place : Script.Position := ⟨title, fault.line⟩
    pure (.error (.unreadable (Text.Lossy.ofBytes (place.text ++ fault.message))))
  | none, .ok body =>
    let r ← primitive fun _ _ => Script.Evaluation.loadChunk body title
    match ← attempt fun call site => call r [] (site.callSite none) with
    | .ok _ => pure (.ok ())
    | .error message => pure (.error (.raised message))

/-- Runs a text, its failure as an error of the engine. -/
def exec (name source : String) : Exchange Unit := do
  match ← runChunk name source with
  | .ok () => pure ()
  | .error e => fail (.refused e.text)

end ScriptHost.Exchange
