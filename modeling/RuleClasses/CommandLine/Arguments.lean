import RuleClasses.Target.Basic

/-! The arguments of the command line. They are read from left to right; the first
thing that is wrong, or that asks for help, decides. -/

namespace RuleClasses.CommandLine

inductive Action where
  | specs
  | generate
  deriving DecidableEq, Repr

structure Settings where
  /-- Paths or patterns of grammar files, at least one. -/
  inputs : List String
  config : Option String
  name : Option String
  rootPath : Option String
  target : Option Target
  strict : Bool
  out : Option String
  noOp : Bool
  deriving DecidableEq, Repr

structure Command where
  action : Action
  settings : Settings
  deriving DecidableEq, Repr

/-- Why no command comes out of the arguments. -/
inductive Refusal where
  | badUsage
  /-- Help or the version is asked for. -/
  | information
  deriving DecidableEq, Repr

def Refusal.exitCode : Refusal → Nat
  | .badUsage => 2
  | .information => 0

/-- Options with a value. -/
inductive Opt where
  | input
  | config
  | name
  | rootPath
  | target
  | out
  deriving DecidableEq, Repr

/-- What was read so far. -/
structure Draft where
  inputs : List String := []
  config : Option String := none
  name : Option String := none
  rootPath : Option String := none
  target : Option Target := none
  strict : Bool := false
  out : Option String := none
  noOp : Bool := false
  deriving DecidableEq, Repr

namespace Draft

/-- A value that may be given once. -/
def once {α : Type} (before : Option α) (value : α) (put : Option α → Draft) :
    Except Refusal Draft :=
  match before with
  | some _ => .error .badUsage
  | none => .ok (put (some value))

/-- A path is not empty. -/
def oncePath (before : Option String) (value : String) (put : Option String → Draft) :
    Except Refusal Draft :=
  if value = "" then .error .badUsage else once before value put

def setOption (d : Draft) (o : Opt) (value : String) : Except Refusal Draft :=
  match o with
  | .input => .ok { d with inputs := d.inputs ++ [value] }
  | .config => oncePath d.config value fun v => { d with config := v }
  | .name => once d.name value fun v => { d with name := v }
  | .rootPath => once d.rootPath value fun v => { d with rootPath := v }
  | .target =>
    match Target.ofLanguage? value with
    | some t => once d.target t fun v => { d with target := v }
    | none => .error .badUsage
  | .out => oncePath d.out value fun v => { d with out := v }

def setStrict (d : Draft) : Except Refusal Draft :=
  if d.strict then .error .badUsage else .ok { d with strict := true }

def setNoOp (d : Draft) : Except Refusal Draft :=
  if d.noOp then .error .badUsage else .ok { d with noOp := true }

def finish (d : Draft) : Except Refusal Settings :=
  if d.inputs = [] then .error .badUsage
  else .ok ⟨d.inputs, d.config, d.name, d.rootPath, d.target, d.strict, d.out, d.noOp⟩

end Draft

/-! ## Single arguments -/

/-- What an argument is. -/
inductive Argument where
  | value
  /-- Nothing behind it is an option. -/
  | endOfOptions
  | option (option : Opt) (value : Option String)
  | strict
  | noOp
  | help
  | unknown
  deriving DecidableEq, Repr

def Opt.ofLongName? : List Char → Option Opt
  | ['i', 'n', 'p', 'u', 't'] => some .input
  | ['c', 'o', 'n', 'f', 'i', 'g'] => some .config
  | ['n', 'a', 'm', 'e'] => some .name
  | ['b', 'a', 's', 'e', '-', 't', 'y', 'p', 'e'] => some .rootPath
  | ['t', 'a', 'r', 'g', 'e', 't'] => some .target
  | ['o', 'u', 't'] => some .out
  | _ => none

/-- An argument behind its two dashes. -/
def Argument.ofLong (s : List Char) : Argument :=
  let name := s.takeWhile (· ≠ '=')
  let value := match s.dropWhile (· ≠ '=') with
    | [] => none
    | _ :: rest => some (String.ofList rest)
  match Opt.ofLongName? name, value with
  | some o, value => .option o value
  | none, some _ => .unknown
  | none, none =>
    if name = "strict".toList then .strict
    else if name = "no-op".toList then .noOp
    else if name = "help".toList then .help
    else .unknown

/-- The value that is attached to a one-letter option. -/
def attached : List Char → Option String
  | [] => none
  | '=' :: rest => some (String.ofList rest)
  | s => some (String.ofList s)

def Argument.ofChars : List Char → Argument
  | ['-'] => .value
  | ['-', '-'] => .endOfOptions
  | '-' :: '-' :: s => .ofLong s
  | '-' :: 'i' :: s => .option .input (attached s)
  | '-' :: 'o' :: s => .option .out (attached s)
  | '-' :: 'h' :: _ => .help
  | '-' :: _ => .unknown
  | _ => .value

def Argument.of (s : String) : Argument := .ofChars s.toList

/-! ## All arguments -/

/-- The place in the arguments: whether the next value belongs to an option, and
whether that option had one already. -/
inductive Place where
  | free
  | wants (option : Opt)
  /-- More inputs may follow. -/
  | inputs
  deriving DecidableEq, Repr

/-- The place behind the value of an option. -/
def Place.behind : Opt → Place
  | .input => .inputs
  | _ => .free

def readSettings (place : Place) (d : Draft) : List String → Except Refusal Settings
  | [] =>
    match place with
    | .wants _ => .error .badUsage
    | _ => d.finish
  | a :: rest =>
    match place, Argument.of a with
    | .wants o, .value => do
      let d ← d.setOption o a
      readSettings (.behind o) d rest
    | .wants _, _ => .error .badUsage
    | .inputs, .value => do
      let d ← d.setOption .input a
      readSettings .inputs d rest
    | .free, .value => .error .badUsage
    | _, .endOfOptions => if rest = [] then d.finish else .error .badUsage
    | _, .option o none => readSettings (.wants o) d rest
    | _, .option o (some v) => do
      let d ← d.setOption o v
      readSettings .free d rest
    | _, .strict => do
      let d ← d.setStrict
      readSettings .free d rest
    | _, .noOp => do
      let d ← d.setNoOp
      readSettings .free d rest
    | _, .help => .error .information
    | _, .unknown => .error .badUsage

def commandNames : List String := ["specs", "generate", "help"]

/-- The first letter of one-letter options that ask for help or the version. -/
def asksForInformation (a : String) : Bool :=
  match a.toList with
  | '-' :: 'h' :: _ | '-' :: 'V' :: _ => true
  | _ => a = "--help" || a = "--version"

def Command.ofArguments : List String → Except Refusal Command
  | "specs" :: rest => (readSettings .free {} rest).map (⟨.specs, ·⟩)
  | "generate" :: rest => (readSettings .free {} rest).map (⟨.generate, ·⟩)
  | ["help"] => .error .information
  | ["help", name] => .error (if name ∈ commandNames then .information else .badUsage)
  | a :: _ => .error (if asksForInformation a then .information else .badUsage)
  | [] => .error .badUsage

end RuleClasses.CommandLine
