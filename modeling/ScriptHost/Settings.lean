import ScriptHost.Files
import ScriptHost.Text.Blank
import ScriptHost.Toml.Reader

/-! Settings of a host: which script it runs and where it logs. They come from a TOML document, in
which everything may be left out, and two of them may be set from the environment instead. -/

namespace ScriptHost

open Host (Error)

structure ScriptSettings where
  /-- The path of the script file. -/
  script : String := "scripts/main.lua"
  hotReload : Bool := true
  /-- How messages name the script; empty for its file name. -/
  chunkName : String := ""
deriving DecidableEq

structure LogSettings where
  level : String := "info"
  file : String := "logs/sl-lua.log"
deriving DecidableEq

structure Settings where
  runtime : ScriptSettings := {}
  logging : LogSettings := {}
deriving DecidableEq

namespace Settings

/-! ### From documents -/

/-- The fields of a group, by position or by name: an array gives them in order, a table by name.
A date stands for a group without any. -/
inductive Group where
  | listed (vs : List Toml.Value)
  | named (es : Toml.Entries)

namespace Group

def ofValue? : Toml.Value → Option Group
  | .array vs => some (.listed vs)
  | .tables ts => some (.listed (ts.map (.table .opened ·)))
  | .table _ es => some (.named es)
  | .moment _ => some (.named [])
  | .text _ | .integer _ | .float _ | .boolean _ => none

def find? (g : Group) (position : Nat) (name : String) : Option Toml.Value :=
  match g with
  | .listed vs => vs[position]?
  | .named es => es.find? name

/-- A text field; one that is there must be text. -/
def text (g : Group) (position : Nat) (name fallback : String) : Option String :=
  match g.find? position name with
  | none => some fallback
  | some (.text s) => some s
  | some _ => none

def flag (g : Group) (position : Nat) (name : String) (fallback : Bool) : Option Bool :=
  match g.find? position name with
  | none => some fallback
  | some (.boolean b) => some b
  | some _ => none

end Group

def scriptOf (g : Group) : Option ScriptSettings := do
  let base : ScriptSettings := {}
  let script ← g.text 0 "script" base.script
  let hotReload ← g.flag 1 "hot_reload" base.hotReload
  let chunkName ← g.text 2 "chunk_name" base.chunkName
  pure { script, hotReload, chunkName }

def loggingOf (g : Group) : Option LogSettings := do
  let base : LogSettings := {}
  let level ← g.text 0 "level" base.level
  let file ← g.text 1 "file" base.file
  pure { level, file }

/-- A group of the document; one that is missing has its defaults. -/
def groupOf {α : Type} (read : Group → Option α) (fallback : α) (es : Toml.Entries) (name : String) : Option α :=
  match es.find? name with
  | none => some fallback
  | some v => Group.ofValue? v >>= read

/-- Keys that are no settings are passed over. -/
def ofEntries? (es : Toml.Entries) : Option Settings := do
  let runtime ← groupOf scriptOf {} es "runtime"
  let logging ← groupOf loggingOf {} es "logging"
  pure { runtime, logging }

def parse (text : String) : Except Error Settings :=
  match Toml.read? text >>= ofEntries? with
  | some s => .ok s
  | none => .error .malformedSettings

def load (fs : Files) (path : String) : Except Error Settings :=
  match fs.readText path with
  | .ok text => parse text
  | .error e => .error (.file e)

/-! ### From the environment -/

/-- Environment variables by name. -/
abbrev Environment := List (String × String)

/-- A variable that is set to something. -/
def Environment.value? (env : Environment) (name : String) : Option String :=
  (env.lookup name).filter (· != "")

def override (env : Environment) (s : Settings) : Settings :=
  { runtime := { s.runtime with script := (env.value? "SL_LUA_SCRIPT").getD s.runtime.script }
    logging := { s.logging with level := (env.value? "SL_LUA_LOG_LEVEL").getD s.logging.level } }

def loadWith (env : Environment) (fs : Files) (path : String) : Except Error Settings :=
  (load fs path).map (override env)

/-! ### Validity -/

/-- The path of the script must not be blank. -/
def validate (s : Settings) : Except Error Unit :=
  if Text.Blank.allBlank s.runtime.script then .error .scriptUnset else .ok ()

end Settings

end ScriptHost
