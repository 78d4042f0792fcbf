import ScriptHost.Logging.Filter
import ScriptHost.Settings

/-! Logging to standard output and to a file. Setting up to a file makes the file empty first and
then tries to become the one subscriber that all records go to; the first to become it stays. -/

namespace ScriptHost.Logging

open Host (Error)

/-- A line for the log, with the target that filters know it by. -/
structure Record where
  level : Level
  target : String
  message : String
deriving DecidableEq

namespace Record

def ofEvent (e : Event) : Record := ⟨e.level, e.origin.target, e.message⟩

def line (r : Record) : String := r.level.name ++ " " ++ r.target ++ ": " ++ r.message

end Record

/-- An open file and how far it has been written. -/
structure LogFile where
  place : List String
  offset : Nat := 0

structure Subscriber where
  filter : Filter
  file : Option LogFile := none

/-- The log of a process: its subscriber, the files around it, and the lines written to standard
output. -/
structure Log where
  files : Files := {}
  output : List String := []
  subscriber : Option Subscriber := none

namespace Log

/-- Makes the log file empty, with the directories on the way to it. Directories that have been made stay when
that fails. -/
def openFile (files : Files) (path : String) : Except Error LogFile × Files :=
  match files.makeParents path with
  | (.error e, files) => (.error (.file e), files)
  | (.ok (), files) =>
    match files.create path with
    | .error e => (.error (.file e), files)
    | .ok (place, files) => (.ok { place }, files)

/-- Logs to standard output and a file from now on. The file is made empty even when there is a
subscriber already. -/
def start (directives : String) (s : LogSettings) (l : Log) : Except Error Unit × Log :=
  match openFile l.files s.file, l.subscriber with
  | (.error e, files), _ => (.error e, { l with files })
  | (.ok _, files), some _ => (.error .loggingTaken, { l with files })
  | (.ok file, files), none =>
    (.ok (), { l with files, subscriber := some ⟨.ofSettings directives s.level, some file⟩ })

/-- Logs to standard output from now on, if nothing does yet. -/
def startConsole (directives level : String) (l : Log) : Log :=
  match l.subscriber with
  | some _ => l
  | none => { l with subscriber := some ⟨.ofSettings directives level, none⟩ }

/-- Writes a record that the filter admits. -/
def record (r : Record) (l : Log) : Log :=
  match l.subscriber with
  | none => l
  | some s =>
    if s.filter.admits r.target r.level then
      let l := { l with output := l.output ++ [r.line] }
      match s.file with
      | none => l
      | some file =>
        let bytes := (r.line ++ "\n").toUTF8
        { l with
          files := l.files.writeAt file.place file.offset bytes
          subscriber := some { s with file := some { file with offset := file.offset + bytes.size } } }
    else l

def recordAll (rs : List Record) (l : Log) : Log := rs.foldl (fun l r => l.record r) l

end Log

end ScriptHost.Logging
