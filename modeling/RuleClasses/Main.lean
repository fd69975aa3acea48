import RuleClasses.CommandLine.Run

/-! The program. It looks up the files that the arguments name, lets the library
work on them, and writes what is new. -/

namespace RuleClasses.Program

open Files CommandLine

def usage : String :=
  "usage: modelgen (specs | generate) -i INPUT... [--config FILE] [--name NAME]\n" ++
  "         [--base-type TYPE] [--target python|rust] [--strict] [-o OUT] [--no-op]"

def pathOf (position : List String) : String := "/" ++ Text.joinWith "/" position

/-- The position of a path, with dots taken away. -/
def positionOf (d : Disk) (path : String) : List String :=
  (Path.parts path).foldl
    (fun p s => if s = "." then p else if s = ".." then p.dropLast else p ++ [s])
    (d.origin path)

/-- Take over what stands at a position, and the directories on the way. -/
def lookUp (d : Disk) (position : List String) : IO Disk := do
  let mut d := d
  for n in [1:position.length + 1] do
    let here := position.take n
    if (d.root.at? here).isNone then
      match ← (IO.FS.realPath (pathOf here)).toBaseIO with
      | .ok path =>
        if ← path.isDir then d := d.put here (.dir [])
        else d := d.put here (.file (.ofBytes (← IO.FS.readBinFile path).toList))
      | .error _ => return d
  return d

/-- Take over the names below a directory, down to some depth. A directory that
stands above itself is not entered again. -/
partial def lookAround (d : Disk) (depth : Option Nat) (above : List String)
    (position : List String) : IO Disk := do
  let path ← IO.FS.realPath (pathOf position)
  if depth = some 0 || above.contains path.toString || !(← path.isDir) then return d
  let mut d := d
  for entry in ← path.readDir do
    let below := position ++ [entry.fileName]
    if ← entry.path.isDir then
      d ← lookUp d below
      d ← lookAround d (depth.map (· - 1)) (path.toString :: above) below
    else d := d.put below (.file (.text ""))
  return d

/-- How deep a pattern can reach below the place where it begins. -/
def reach (pattern : String) : Option Nat :=
  match Glob.parse pattern with
  | .ok g => if g.parts.contains [.anyDepth] then none else some g.parts.length
  | .error _ => some 0

/-- All that a command may look at. -/
def filesFor (d : Disk) (s : Settings) : IO Disk := do
  let mut d := d
  for pattern in s.inputs.filter hasWildcards do
    d ← lookAround d (reach pattern) [] (d.origin pattern)
  let found := s.inputs.map fun i => ((resolveInput d i).toOption).getD []
  let mut known : Disk := { d with root := .dir [] }
  for path in found.flatten ++ s.config.toList ++ s.out.toList do
    known ← lookUp known (positionOf d path)
  for (position, _) in d.root.files [] do
    if (known.root.at? position).isNone then known := known.put position (.file (.text ""))
  return known

def writeChange (change : List String × Content) : IO Unit := do
  match change with
  | (position, .text text) =>
    IO.FS.createDirAll (pathOf position.dropLast)
    IO.FS.writeFile (pathOf position) text
    IO.eprintln ("wrote " ++ pathOf position)
  | (_, .binary _) => return

def runCommand (c : Command) : IO UInt32 := do
  let here ← IO.currentDir
  let d : Disk := ⟨.dir [], Path.parts here.toString⟩
  let d ← filesFor (← lookUp d d.workingDirectory) c.settings
  match c.run d with
  | .error failure =>
    IO.eprintln ("error: " ++ failure.message)
    return 1
  | .ok outcome =>
    for change in Node.changes d.root outcome.disk.root do writeChange change
    IO.print outcome.stdout
    return 0

end RuleClasses.Program

open RuleClasses in
def main (args : List String) : IO UInt32 := do
  match CommandLine.Command.ofArguments args with
  | .ok c => Program.runCommand c
  | .error refusal =>
    IO.eprintln Program.usage
    return refusal.exitCode.toUInt32
