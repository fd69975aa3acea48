import RuleClasses.Files.Disk
import RuleClasses.Files.Pattern

/-! Paths that match a pattern, sorted by their parts. -/

namespace RuleClasses.Files

/-- A pattern, cut at its slashes. -/
structure Glob where
  absolute : Bool
  parts : List Pattern
  /-- Only directories count. -/
  directories : Bool
  deriving DecidableEq, Repr

namespace Glob

/-- The texts between the slashes. A slash at the end opens no further part. -/
def partTexts (s : List Char) : List String :=
  let parts := (Text.splitOnChar '/' s).map String.ofList
  if parts.getLast? = some "" then parts.dropLast else parts

/-- Two stars are looked for in the whole pattern first, and brackets may hold a
slash there; after that every part must be a pattern by itself. -/
def parse (s : String) : Except PatternError Glob := do
  let _ ← Pattern.parse s
  let absolute := Path.isAbsolute s
  let parts ← (partTexts (if absolute then s.toList.drop 1 else s.toList)).mapM Pattern.parse
  return ⟨absolute, parts, Path.endsInSlash s⟩

/-! ## Matching paths -/

/-- The path of an entry. -/
def childPath (path name : String) : String :=
  if Path.isHere path then name else Path.join path name

mutual

/-- Everything below a directory with its path: an entry, what is below it, then
the next entry. -/
def below (path : String) : Node → List (String × String)
  | .file _ => []
  | .dir entries => belowEntries path entries

def belowEntries (path : String) : List (String × Node) → List (String × String)
  | [] => []
  | (name, t) :: rest =>
    (name, childPath path name) :: below (childPath path name) t ++ belowEntries path rest

end

/-- The entries of a directory with their paths. -/
def children (d : Disk) (path : String) : List (String × String) :=
  match d.node? path with
  | some (.dir entries) => entries.map fun (name, _) => (name, childPath path name)
  | _ => []

def descendants (d : Disk) (path : String) : List (String × String) :=
  match d.node? path with
  | some t => below path t
  | none => []

/-- A path that matched all parts. -/
def accept (d : Disk) (directories : Bool) (path : String) : List String :=
  if directories && !d.isDir path then [] else [path]

/-- The paths with dots only count when the pattern begins with a dot itself. -/
def dotNames (p : Pattern) : List String :=
  match p with
  | .char '.' :: _ => ["..", "."].filter p.isMatch
  | _ => []

/-- Any depth twice in a row is any depth. -/
def collapse (parts : List Pattern) : List Pattern :=
  parts.foldr (fun p rest => if p = [.anyDepth] ∧ rest.head? = some p then rest else p :: rest) []

/-- Paths below a directory that match the parts. -/
def search (d : Disk) (directories : Bool) : List Pattern → String → List String
  | [], path => accept d directories path
  | [[.anyDepth]], path => ((descendants d path).map Prod.snd).filter d.isDir
  | [.anyDepth] :: p :: rest, path =>
    (descendants d path).flatMap fun (name, next) =>
      if Pattern.isMatch p name then search d directories rest next else []
  | p :: rest, path =>
    match Pattern.literal? p with
    | some s =>
      let name := String.ofList s
      let next := childPath path name
      let found := if name = "." ∨ name = ".." then d.isDir path else (d.node? next).isSome
      if found then search d directories rest next else []
    | none =>
      if !d.isDir path then []
      else
        ((dotNames p).flatMap fun name => search d directories rest (Path.join path name)) ++
          (children d path).flatMap fun (name, next) =>
            if Pattern.isMatch p name then search d directories rest next else []

def paths (g : Glob) (d : Disk) : List String :=
  search d g.directories (collapse g.parts) (if g.absolute then "/" else ".")

end Glob

end RuleClasses.Files
