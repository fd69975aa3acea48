import RuleClasses.Files.Node
import RuleClasses.Files.Path

/-! A tree of files with a place where one stands, and what a program can do with
paths there. -/

namespace RuleClasses.Files

inductive OsError where
  | notFound
  | exists
  | notDirectory
  | isDirectory
  | nameTooLong
  | nullInName
  deriving DecidableEq, Repr

def OsError.message : OsError → String
  | .notFound => "No such file or directory (os error 2)"
  | .exists => "File exists (os error 17)"
  | .notDirectory => "Not a directory (os error 20)"
  | .isDirectory => "Is a directory (os error 21)"
  | .nameTooLong => "File name too long (os error 36)"
  | .nullInName => "file name contained an unexpected NUL byte"

inductive ReadError where
  | os (error : OsError)
  | notText
  deriving DecidableEq, Repr

def ReadError.message : ReadError → String
  | .os e => e.message
  | .notText => "stream did not contain valid UTF-8"

structure Disk where
  root : Node
  /-- Names on the way from the root to the working directory. -/
  workingDirectory : List String
  deriving Repr

namespace Disk

/-- Bytes that a name, and a whole path, may have. -/
def nameLimit : Nat := 255

def pathLimit : Nat := 4095

def checkName (name : String) : Except OsError Unit :=
  if nameLimit < name.utf8ByteSize then .error .nameTooLong else .ok ()

/-- Go along the parts of a path, from one position to another. -/
def walk (root : Node) (position : List String) : List String → Except OsError (List String)
  | [] => .ok position
  | part :: rest =>
    match root.at? position with
    | none => .error .notFound
    | some (.file _) => .error .notDirectory
    | some (.dir entries) =>
      if part = "." then walk root position rest
      else if part = ".." then walk root position.dropLast rest
      else do
        checkName part
        if (Keyed.get? part entries).isNone then .error .notFound
        else walk root (position ++ [part]) rest

/-- The place where a path begins. -/
def origin (d : Disk) (path : String) : List String :=
  if Path.isAbsolute path then [] else d.workingDirectory

def checkPath (path : String) : Except OsError Unit :=
  if path.toList.contains '\x00' then .error .nullInName
  else if path = "" then .error .notFound
  else if pathLimit < path.utf8ByteSize then .error .nameTooLong
  else .ok ()

/-- The position of a path. With a slash at its end it must be a directory. -/
def find (d : Disk) (path : String) : Except OsError (List String) := do
  checkPath path
  let parts := Path.parts path ++ (if Path.endsInSlash path then ["."] else [])
  walk d.root (d.origin path) parts

def node? (d : Disk) (path : String) : Option Node :=
  match d.find path with
  | .ok position => d.root.at? position
  | .error _ => none

def isDir (d : Disk) (path : String) : Bool :=
  match d.node? path with
  | some t => t.isDir
  | none => false

def read (d : Disk) (path : String) : Except ReadError String := do
  let position ← (d.find path).mapError .os
  match d.root.at? position with
  | some (.file (.text s)) => .ok s
  | some (.file (.binary _)) => .error .notText
  | some (.dir _) => .error (.os .isDirectory)
  | none => .error (.os .notFound)

/-- The directory and the name under which a path would be made. There is no name
when the path ends in dots. The name may still be too long. -/
def target (d : Disk) (path : String) : Except OsError (List String × Option String) := do
  checkPath path
  let parts := Path.parts path
  match parts.getLast? with
  | none => return ([], none)
  | some "." | some ".." => return (← walk d.root (d.origin path) parts, none)
  | some name =>
    let position ← walk d.root (d.origin path) parts.dropLast
    match d.root.at? position with
    | some (.dir _) => return (position, some name)
    | _ => .error .notDirectory

def put (d : Disk) (position : List String) (new : Node) : Disk :=
  { d with root := Node.put new position d.root }

def makeDirectory (d : Disk) (path : String) : Except OsError Disk := do
  match ← d.target path with
  | (_, none) => .error .exists
  | (position, some name) =>
    checkName name
    match d.root.at? (position ++ [name]) with
    | some _ => .error .exists
    | none => return d.put (position ++ [name]) (.dir [])

/-- Make a directory that may be there already. -/
def ensureDirectory (d : Disk) (path : String) : Except OsError Disk :=
  match d.makeDirectory path with
  | .ok d => .ok d
  | .error e => if d.isDir path then .ok d else .error e

/-- Make a directory that may be there already, after the directories around
it. -/
def makeDirectories (d : Disk) (path : String) : Except OsError Disk :=
  match d.makeDirectory path with
  | .error .notFound =>
    match _h : Path.parent? path with
    | none => .error .notFound
    | some above => do
      let d ← if above = "" then .ok d else d.makeDirectories above
      d.ensureDirectory path
  | _ => d.ensureDirectory path
termination_by path.toList.length
decreasing_by exact Path.length_parent?_lt _h

/-- Make a file, or replace what it holds. A slash at the end of the path asks for
a directory, whatever the name in front of it. -/
def write (d : Disk) (path text : String) : Except OsError Disk := do
  match ← d.target path with
  | (_, none) => .error .isDirectory
  | (position, some name) =>
    if Path.endsInSlash path then .error .isDirectory
    else
      checkName name
      match d.root.at? (position ++ [name]) with
      | some (.dir _) => .error .isDirectory
      | _ => return d.put (position ++ [name]) (.file (.text text))

end Disk

end RuleClasses.Files
