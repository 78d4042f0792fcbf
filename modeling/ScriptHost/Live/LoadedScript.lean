import ScriptHost.Exchange.Engine
import ScriptHost.Files
import ScriptHost.Live.Changes
import ScriptHost.Live.Fingerprint
import ScriptHost.Live.Report
import ScriptHost.Script.Builtins
import ScriptHost.Settings

/-! Scripts loaded from a file. A script keeps the fingerprint of the text that its state was built
from, and the changes that the host made since. Reloading builds a new state from the file and
makes the changes again; only when all of that succeeds does the new state take the old one's
place. -/

namespace ScriptHost.Live

open Script (State)
open Host (Error Fault Kind Library)
open Exchange

structure LoadedScript where
  path : String
  /-- How messages name the script. -/
  chunkName : String
  hotReload : Bool
  /-- Of the text behind `state`. -/
  fingerprint : UInt64
  changes : Changes := []
  state : State

namespace LoadedScript

/-! ### Loading -/

/-- The name of the file; the whole path where that has none. -/
def defaultChunkName (path : String) : String := (Path.fileName? path).getD path

/-- Runs the text of a script. -/
def execute (chunkName source : String) : Exchange Unit := do
  match ← runChunk chunkName source with
  | .ok () => pure ()
  | .error e => fail (.notLoaded e.message)

/-- Reads a script file and runs it in a fresh state. -/
def openFile (c : Channel) (fs : Files) (path chunkName : String) (hotReload : Bool) : Report LoadedScript :=
  match fs.readText path with
  | .error e => ⟨.failed (.file e), []⟩
  | .ok source =>
    let (report, state) := perform c (execute chunkName source) State.fresh
    let script := { path, chunkName, hotReload, fingerprint := Live.fingerprint source, state }
    match report with
    | ⟨.done (), events⟩ => ⟨.done script, events ++ [⟨.script, .info, "Loaded script " ++ path⟩]⟩
    | report => report.map fun () => script

def load (c : Channel) (fs : Files) (path : String) : Report LoadedScript :=
  openFile c fs path (defaultChunkName path) false

def fromSettings (c : Channel) (fs : Files) (s : ScriptSettings) : Report LoadedScript :=
  openFile c fs s.script (if s.chunkName.isEmpty then defaultChunkName s.script else s.chunkName) s.hotReload

/-! ### Operations on the state -/

/-- An operation must leave the stack empty, whether it succeeds or not. -/
def settled {α : Type} (chunkName : String) (m : Exchange α) : Exchange α := do
  let result ← settle m
  let d ← depth
  if d = 0 then ofResult result else stop (.unbalancedOperation chunkName d)

def withState {α : Type} (c : Channel) (m : Exchange α) (script : LoadedScript) : Report α × LoadedScript :=
  let (report, state) := perform c (settled script.chunkName m) script.state
  (report, { script with state })

/-- As `withState`; a success is recorded. -/
def changing (c : Channel) (m : Exchange Unit) (change : Change) (script : LoadedScript) :
    Report Unit × LoadedScript :=
  match script.withState c m with
  | (⟨.done (), events⟩, script) => (⟨.done (), events⟩, { script with changes := script.changes.record change })
  | other => other

def getGlobal (c : Channel) (name : String) (kind : Kind) (script : LoadedScript) :
    Report Host.Value × LoadedScript :=
  script.withState c (Exchange.getGlobal name kind)

def setGlobal (c : Channel) (name : String) (v : Host.Value) (script : LoadedScript) :
    Report Unit × LoadedScript :=
  script.changing c (Exchange.setGlobal name v) (.global name v)

def runFunction (c : Channel) (name : String) (args : List Host.Value) (kinds : List Kind)
    (script : LoadedScript) : Report (List Host.Value) × LoadedScript :=
  script.withState c (Exchange.runFunction name args kinds)

def registerFunction (c : Channel) (space name : String) (f : HostFunction) (script : LoadedScript) :
    Report Unit × LoadedScript :=
  script.changing c (Exchange.registerFunction space name f) (.function space name f)

/-- Registers functions in turn, up to the first that fails. -/
def registerAll (c : Channel) (space : String) :
    List (String × HostFunction) → LoadedScript → Report Unit × LoadedScript
  | [], script => (⟨.done (), []⟩, script)
  | (name, f) :: rest, script =>
    match script.registerFunction c space name f with
    | (⟨.done (), events⟩, script) =>
      let (report, script) := registerAll c space rest script
      (report.after events, script)
    | other => other

def registerLibrary (c : Channel) (l : Library) (script : LoadedScript) : Report Unit × LoadedScript :=
  match registerAll c l.name l.functions script with
  | (⟨.done (), events⟩, script) =>
    let message := "Registered library " ++ l.name ++ " (" ++ toString l.size ++ " functions)"
    (⟨.done (), events ++ [⟨.library, .debug, message⟩]⟩, script)
  | other => other

def registerLibraries (c : Channel) : List Library → LoadedScript → Report Unit × LoadedScript
  | [], script => (⟨.done (), []⟩, script)
  | l :: rest, script =>
    match script.registerLibrary c l with
    | (⟨.done (), events⟩, script) =>
      let (report, script) := registerLibraries c rest script
      (report.after events, script)
    | other => other

def loadWith (c : Channel) (fs : Files) (path : String) (ls : List Library) : Report LoadedScript :=
  match load c fs path with
  | ⟨.done script, events⟩ =>
    let (report, script) := registerLibraries c ls script
    (report.map fun () => script).after events
  | other => other

/-! ### Reloading -/

def setHotReload (on : Bool) (script : LoadedScript) : LoadedScript := { script with hotReload := on }

/-- Whether the file has another text than the state was built from. -/
def isStale (fs : Files) (script : LoadedScript) : Except Error Bool :=
  match fs.readText script.path with
  | .error e => .error (.file e)
  | .ok source => .ok (Live.fingerprint source != script.fingerprint)

/-- Builds the state anew: runs the text and makes the changes again. -/
def rebuild (chunkName source : String) (changes : Changes) : Exchange Unit := do
  execute chunkName source
  changes.apply
  let d ← depth
  if d = 0 then pure () else stop (.unbalancedReload d)

def reloadedMessage (script : LoadedScript) : String :=
  "Reloaded script " ++ script.path ++ " (" ++ toString script.changes.functions ++ " functions, "
    ++ toString script.changes.globals ++ " globals restored)"

def reload (c : Channel) (fs : Files) (script : LoadedScript) : Report Unit × LoadedScript :=
  match fs.readText script.path with
  | .error e => (⟨.failed (.file e), []⟩, script)
  | .ok source =>
    match perform c (rebuild script.chunkName source script.changes) State.fresh with
    | (⟨.done (), events⟩, state) =>
      (⟨.done (), events ++ [⟨.script, .info, script.reloadedMessage⟩]⟩,
        { script with state, fingerprint := Live.fingerprint source })
    | (report, _) => (report, script)

/-- Reloads if hot reload is on and the file has changed, and answers whether it did. The file is
read twice: the check sees `checked`, and the reload sees `now`. -/
def reloadIfChanged (c : Channel) (checked now : Files) (script : LoadedScript) : Report Bool × LoadedScript :=
  if script.hotReload then
    match script.isStale checked with
    | .error e => (⟨.failed e, []⟩, script)
    | .ok false => (⟨.done false, []⟩, script)
    | .ok true =>
      match script.reload c now with
      | (⟨.failed e, events⟩, script) =>
        let message := "Keeping previous state of " ++ script.path ++ ": " ++ e.text
        (⟨.failed e, events ++ [⟨.script, .warn, message⟩]⟩, script)
      | (report, script) => (report.map fun () => true, script)
  else (⟨.done false, []⟩, script)

end LoadedScript

end ScriptHost.Live
