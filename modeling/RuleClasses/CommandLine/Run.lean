import RuleClasses.CommandLine.Arguments
import RuleClasses.Files.Glob
import RuleClasses.Generation
import RuleClasses.Grammar.Decoding
import RuleClasses.Json.Printer
import RuleClasses.Text.Lowercase

/-! What a command does with the files around it. -/

namespace RuleClasses.CommandLine

open Files

/-! ## Failures -/

/-- Why a file cannot be loaded. -/
inductive FileError where
  | unreadable (path : String) (error : ReadError)
  | json (issue : Json.Issue)
  deriving DecidableEq, Repr

inductive Failure where
  | config (path : String) (error : FileError)
  | rootType (error : Error)
  | pattern (error : PatternError)
  | noMatch (pattern : String)
  | grammar (path : String) (error : FileError)
  | order (path : String) (error : Error)
  | generation (path : String) (error : Error)
  | outRequired
  | sameOutput (first second out : String)
  | makeDirectory (path : String) (error : OsError)
  | write (path : String) (error : OsError)
  deriving DecidableEq, Repr

/-- The text of an error of the system stands there twice: as part of the failure
and as its cause. -/
def FileError.message : FileError → String
  | .unreadable path error =>
    "failed to read " ++ path ++ ": " ++ error.message ++ ": " ++ error.message
  | .json issue => issue.message

def Failure.message : Failure → String
  | .config path e => "failed to load config " ++ path ++ ": " ++ e.message
  | .rootType e => e.message
  | .pattern e => "failed to resolve input file paths: " ++ e.message
  | .noMatch p =>
    "failed to resolve input file paths: glob pattern matched no files: " ++ p
  | .grammar path e => "failed to load grammar " ++ path ++ ": " ++ e.message
  | .order path e => "failed to order classes of " ++ path ++ ": " ++ e.message
  | .generation path e => "failed to generate " ++ path ++ ": " ++ e.message
  | .outRequired => "--out <DIR> is required when generating several grammars"
  | .sameOutput first second out => first ++ " and " ++ second ++ " both generate " ++ out
  | .makeDirectory path e => "failed to create " ++ path ++ ": " ++ e.message
  | .write path e => "failed to write " ++ path ++ ": " ++ e.message

/-! ## Inputs -/

def readWith {α : Type} (d : Disk) (read : String → Except Json.Issue α) (path : String) :
    Except FileError α := do
  let text ← (d.read path).mapError (.unreadable path)
  (read text).mapError .json

def readConfigFile (d : Disk) : Option String → Except Failure Config
  | some path => (readWith d Config.ofText path).mapError (.config path)
  | none => .ok {}

/-- Options of the command line go before those of the file. -/
def Settings.override (s : Settings) (c : Config) : Config :=
  { name := s.name <|> c.name
    rootPath := s.rootPath <|> c.rootPath
    target := s.target.getD c.target
    strict := c.strict || s.strict }

def optionsFor (d : Disk) (s : Settings) : Except Failure Options := do
  let c ← readConfigFile d s.config
  (s.override c).options.mapError .rootType

/-- A path with one of these characters is a pattern. -/
def hasWildcards (path : String) : Bool :=
  path.toList.any fun c => c = '*' || c = '?' || c = '[' || c = '\x7b'

def resolveInput (d : Disk) (path : String) : Except Failure (List String) :=
  if hasWildcards path then do
    let g ← (Glob.parse path).mapError .pattern
    match g.paths d with
    | [] => .error (.noMatch path)
    | found => return found
  else .ok [path]

/-- All inputs are found before the first one is loaded. -/
def readInputs (d : Disk) (inputs : List String) :
    Except Failure (List (String × Grammar)) := do
  let paths ← inputs.mapM (resolveInput d)
  paths.flatten.mapM fun path =>
    ((readWith d Grammar.ofText path).mapError (.grammar path)).map fun g => (path, g)

/-! ## Outputs -/

structure Outcome where
  stdout : String
  disk : Disk
  deriving Repr

/-- Make the directory that an output is to stand in. -/
def prepare (d : Disk) (path : String) : Except Failure Disk :=
  match Path.parent? path with
  | none | some "" => .ok d
  | some above => (d.makeDirectories above).mapError (.makeDirectory above)

def save (d : Disk) (path text : String) : Except Failure Disk := do
  let d ← prepare d path
  (d.write path text).mapError (.write path)

/-- A file named after a grammar, in small letters. -/
def modelFileName (grammarName fileExtension : String) : String :=
  Text.lowercase (Text.identifier (fun _ => false) grammarName) ++ "_model." ++ fileExtension

/-- The output of every grammar, each with the input it comes from. No two
grammars may have the same one; `before` holds those of the grammars in front. -/
def assignOutputsFrom (outDir fileExtension : String) (before : List (String × String)) :
    List (String × Grammar) → Except Failure (List String)
  | [] => .ok []
  | (source, g) :: rest =>
    let out := Path.join outDir (modelFileName g.name fileExtension)
    match Keyed.get? out before with
    | some first => .error (.sameOutput first source out)
    | none =>
      (assignOutputsFrom outDir fileExtension (before ++ [(out, source)]) rest).map (out :: ·)

def assignOutputs (outDir fileExtension : String) (grammars : List (String × Grammar)) :
    Except Failure (List String) :=
  assignOutputsFrom outDir fileExtension [] grammars

/-! ## Commands -/

def reportText : List Report → String
  | [r] => r.toJson.pretty
  | rs => (Json.list (rs.map Report.toJson)).pretty

def runSpecs (d : Disk) (s : Settings) : Except Failure Outcome := do
  let o ← optionsFor d s
  let grammars ← readInputs d s.inputs
  let reports ← grammars.mapM fun (path, g) => (Report.ofGrammar o g).mapError (.order path)
  match s.out with
  | some out => return ⟨"", ← save d out (reportText reports)⟩
  | none => return ⟨reportText reports ++ "\n", d⟩

/-- Write every grammar's source to its own file. The program works on all grammars of a batch
in parallel and may report any one of those that fail. Here they are taken in the order of the
inputs, so that the first failure is the one that counts. A batch without a failure writes the
same files in any order. -/
def generateEach (o : Options) (d : Disk) :
    List ((String × Grammar) × String) → Except Failure Disk
  | [] => .ok d
  | ((path, g), out) :: rest => do
    let text ← (g.source o).mapError (.generation path)
    let d ← save d out text
    generateEach o d rest

/-- The source of one grammar, saved or printed. -/
def generateOne (o : Options) (d : Disk) (out : Option String) (path : String) (g : Grammar) :
    Except Failure Outcome := do
  let text ← (g.source o).mapError (.generation path)
  match out with
  | some out => return ⟨"", ← save d out text⟩
  | none => return ⟨text, d⟩

/-- The sources of several grammars, each in its file in the directory. -/
def generateMany (o : Options) (d : Disk) (outDir : String) (grammars : List (String × Grammar)) :
    Except Failure Outcome := do
  let outs ← assignOutputs outDir o.target.fileExtension grammars
  return ⟨"", ← generateEach o d (grammars.zip outs)⟩

/-- One grammar may have any output, several need a directory. -/
def generate (o : Options) (d : Disk) :
    List (String × Grammar) → Option String → Except Failure Outcome
  | [(path, g)], out => generateOne o d out path g
  | _, none => .error .outRequired
  | grammars, some outDir => generateMany o d outDir grammars

def runGenerate (d : Disk) (s : Settings) : Except Failure Outcome := do
  let o ← optionsFor d s
  let grammars ← readInputs d s.inputs
  generate o d grammars s.out

def Command.run (d : Disk) (c : Command) : Except Failure Outcome :=
  if c.settings.noOp then .ok ⟨"", d⟩
  else match c.action with
    | .specs => runSpecs d c.settings
    | .generate => runGenerate d c.settings

end RuleClasses.CommandLine
