import ScriptHost.Host.Error
import ScriptHost.Text.Split

/-! A tree of files. Paths are relative to its root, which is a directory and has no parent. -/

namespace ScriptHost

open Host (FileError)

inductive FileNode where
  | directory
  | file (content : ByteArray)
deriving DecidableEq

/-- A path taken apart: its steps, and whether its end insists on a directory. -/
structure Path where
  steps : List String
  wantsDirectory : Bool
deriving DecidableEq

namespace Path

def isStep (p : String) : Bool := p != "" && p != "."

def ofString (s : String) : Path :=
  let ps := Text.Split.pieces '/' s
  ⟨ps.filter isStep, (ps.getLast?.map isStep) != some true⟩

/-- The last step, unless it leads upwards. -/
def fileName? (s : String) : Option String :=
  match (ofString s).steps.getLast? with
  | some ".." | none => none
  | some name => some name

end Path

/-- The nodes of a tree by the steps from the root; the root itself is not listed. -/
structure Files where
  nodes : List (List String × FileNode) := []

namespace Files

def node? (fs : Files) (steps : List String) : Option FileNode :=
  if steps.isEmpty then some .directory else fs.nodes.lookup steps

def put (fs : Files) (steps : List String) (n : FileNode) : Files :=
  ⟨(steps, n) :: fs.nodes.filter (·.1 != steps)⟩

def remove (fs : Files) (steps : List String) : Files := ⟨fs.nodes.filter (·.1 != steps)⟩

/-- Follows steps from a directory to the place they name, whether or not something is there. All
but the last step must lead to directories. -/
def walk (fs : Files) : List String → List String → Except FileError (List String)
  | at_, [] => .ok at_
  | at_, step :: rest =>
    if 255 < step.utf8ByteSize then .error .nameTooLong
    else
      let next := if step = ".." then at_.dropLast else at_ ++ [step]
      match rest with
      | [] => .ok next
      | _ =>
        match fs.node? next with
        | some .directory => fs.walk next rest
        | some (.file _) => .error .notADirectory
        | none => .error .notFound

/-- The place a path names. -/
def place (fs : Files) (path : String) : Except FileError (List String) :=
  if path.isEmpty then .error .notFound
  else if path.toList.contains '\x00' then .error .invalidName
  else fs.walk [] (Path.ofString path).steps

def readBytes (fs : Files) (path : String) : Except FileError ByteArray := do
  let steps ← fs.place path
  match fs.node? steps with
  | none => .error .notFound
  | some .directory => .error .isADirectory
  | some (.file content) => if (Path.ofString path).wantsDirectory then .error .notADirectory else .ok content

/-- The text of a file, which must be UTF-8. -/
def readText (fs : Files) (path : String) : Except FileError String := do
  match String.fromUTF8? (← fs.readBytes path) with
  | some s => .ok s
  | none => .error .notUtf8

/-- Makes a file empty, new or not; answers its place. -/
def create (fs : Files) (path : String) : Except FileError (List String × Files) := do
  let steps ← fs.place path
  match fs.node? steps with
  | some .directory => .error .isADirectory
  | some (.file _) =>
    if (Path.ofString path).wantsDirectory then .error .notADirectory
    else .ok (steps, fs.put steps (.file ByteArray.empty))
  | none =>
    if (Path.ofString path).wantsDirectory then .error .isADirectory
    else .ok (steps, fs.put steps (.file ByteArray.empty))

/-- Makes one directory, whose parent must be there. -/
def makeDirectory (fs : Files) (steps : List String) : Except FileError Files := do
  let at_ ← fs.walk [] steps
  match fs.node? at_ with
  | some _ => .error .exists
  | none => .ok (fs.put at_ .directory)

def isDirectory (fs : Files) (steps : List String) : Bool :=
  match fs.walk [] steps with
  | .ok at_ => fs.node? at_ == some .directory
  | .error _ => false

/-- Makes a directory whose parent is there, unless it is there itself. -/
def makeUnlessThere (fs : Files) (steps : List String) : Except FileError Unit × Files :=
  match fs.makeDirectory steps with
  | .ok fs => (.ok (), fs)
  | .error e => (if fs.isDirectory steps then .ok () else .error e, fs)

/-- Makes a directory and those above it that are missing. The steps are tried from the whole path
upwards until one of them does not lack its parent. What has been made stays when a later step fails. -/
def makeDirectories (fs : Files) : Nat → List String → Except FileError Unit × Files
  | 0, _ => (.error .notFound, fs)
  | fuel + 1, steps =>
    if steps.isEmpty then (.ok (), fs)
    else
      match fs.makeDirectory steps with
      | .error .notFound =>
        match fs.makeDirectories fuel steps.dropLast with
        | (.ok (), fs) => fs.makeUnlessThere steps
        | failed => failed
      | _ => fs.makeUnlessThere steps

/-- Makes what a file at this path would lack to be created. -/
def makeParents (fs : Files) (path : String) : Except FileError Unit × Files :=
  let steps := (Path.ofString path).steps.dropLast
  if steps.any (·.toList.contains '\x00') then (.error .invalidName, fs)
  else fs.makeDirectories (steps.length + 1) steps

/-- Writes bytes at an offset; a gap before them is filled with zeros. -/
def writeAt (fs : Files) (steps : List String) (offset : Nat) (bytes : ByteArray) : Files :=
  match fs.node? steps with
  | some (.file content) =>
    let old := content.toList
    let before := old.take offset ++ List.replicate (offset - old.length) 0
    fs.put steps (.file (before ++ bytes.toList ++ old.drop (offset + bytes.size)).toByteArray)
  | _ => fs

end Files

end ScriptHost
