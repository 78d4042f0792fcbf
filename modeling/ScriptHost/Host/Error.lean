import ScriptHost.Host.Kind

/-! Failures that a caller can handle. Each has a code, by which callers tell them apart, and a
message; shown together they read `code: message`. -/

namespace ScriptHost.Host

inductive Code where
  | typeMismatch | variableDoesntExist | notFunction | functionError | load | engine | io | config
deriving DecidableEq, Inhabited

namespace Code

def text : Code → String
  | .typeMismatch => "type mismatch"
  | .variableDoesntExist => "variable doesn't exist"
  | .notFunction => "not a function"
  | .functionError => "function error"
  | .load => "load error"
  | .engine => "engine error"
  | .io => "I/O error"
  | .config => "configuration error"

/-- The text of an optional code; no error has a text too. -/
def textOf : Option Code → String
  | none => "none"
  | some c => c.text

end Code

/-- What the file system refuses. -/
inductive FileError where
  | notFound | permissionDenied | exists | notADirectory | isADirectory | nameTooLong | invalidName
  | notUtf8
deriving DecidableEq, Inhabited

namespace FileError

def message : FileError → String
  | .notFound => "No such file or directory (os error 2)"
  | .permissionDenied => "Permission denied (os error 13)"
  | .exists => "File exists (os error 17)"
  | .notADirectory => "Not a directory (os error 20)"
  | .isADirectory => "Is a directory (os error 21)"
  | .nameTooLong => "File name too long (os error 36)"
  | .invalidName => "file name contained an unexpected NUL byte"
  | .notUtf8 => "stream did not contain valid UTF-8"

end FileError

inductive Error where
  /-- A value on the stack cannot be read as the wanted kind. -/
  | slotMismatch (wanted : Kind) (found : String)
  | notHostFunction (found : String)
  | globalMismatch (name found : String) (wanted : Kind)
  | namespaceMissing (name : String)
  | notCallable (name found : String)
  /-- A script function failed with a message. -/
  | scriptFailed (message : String)
  | notLoaded (message : String)
  /-- The script engine refused an operation. -/
  | refused (message : String)
  | file (error : FileError)
  | malformedSettings
  | scriptUnset
  | loggingTaken
  /-- An error that a host function makes up itself. -/
  | stated (code : Code) (message : String)
deriving DecidableEq, Inhabited

namespace Error

def code : Error → Code
  | .slotMismatch .. | .notHostFunction _ | .globalMismatch .. => .typeMismatch
  | .namespaceMissing _ => .variableDoesntExist
  | .notCallable .. => .notFunction
  | .scriptFailed _ => .functionError
  | .notLoaded _ => .load
  | .refused _ => .engine
  | .file _ => .io
  | .malformedSettings | .scriptUnset | .loggingTaken => .config
  | .stated c _ => c

def message : Error → String
  | .slotMismatch wanted found => "expected " ++ wanted.name ++ ", found " ++ found
  | .notHostFunction found => "expected host function, found " ++ found
  | .globalMismatch name found wanted =>
    "global \"" ++ name ++ "\" is " ++ found ++ ", expected " ++ wanted.name
  | .namespaceMissing name => "namespace \"" ++ name ++ "\" could not be created"
  | .notCallable name found => "global \"" ++ name ++ "\" is " ++ found
  | .scriptFailed m | .notLoaded m | .refused m | .stated _ m => m
  | .file e => e.message
  | .malformedSettings => "config parse error"
  | .scriptUnset =>
    "runtime.script is empty. "
      ++ "Set it in the config file or via the SL_LUA_SCRIPT environment variable."
  | .loggingTaken =>
    "logging already initialized: a global default trace dispatcher has already been set"

def text (e : Error) : String := e.code.text ++ ": " ++ e.message

end Error

end ScriptHost.Host
