import RuleClasses.ClassOrder
import RuleClasses.Json.Issue
import RuleClasses.RootType
import RuleClasses.Target.Basic

/-! Plans: the classes of a grammar in the order in which they are declared, each
with its base and, for the class of a rule, with its attributes. -/

namespace RuleClasses

/-- What classes are made for. -/
structure Options where
  target : Target
  rootType : RootType
  /-- Names the builder semantics; the grammar's name when absent. -/
  name : Option String
  /-- A class that cannot be declared is an error, and not left out. -/
  strict : Bool
  deriving DecidableEq, Repr

/-- Reasons for which no classes come out of a grammar. -/
inductive Error where
  /-- The classes that are on a cycle of the hierarchy or derive from one. -/
  | cycle (classes : List String)
  | reserved (name : String) (target : Target)
  | hidesRootType (name root : String)
  | badRootType (path : String)
  | json (issue : Json.Issue)
  deriving DecidableEq, Repr

def Error.message : Error → String
  | .cycle classes =>
    "class hierarchy contains a cycle through: " ++ Text.joinWith ", " classes
  | .reserved name target =>
    "class `" ++ name ++ "` collides with a " ++ target.language ++ " built-in"
  | .hidesRootType name root =>
    "class `" ++ name ++ "` shadows the imported base type `" ++ root ++ "`"
  | .badRootType path => "invalid base type `" ++ path ++ "`"
  | .json issue => issue.message

/-! ## Classes in order -/

inductive Decl where
  /-- The class of a rule, with the names that the rule binds. -/
  | rule (name base rule : String) (attributes : List String)
  /-- A class that no rule has for its own. -/
  | base (name : String) (base : Option String)
  deriving DecidableEq, Repr

def Decl.name : Decl → String
  | .rule n _ _ _ => n
  | .base n _ => n

def Decl.base? : Decl → Option String
  | .rule _ b _ _ => some b
  | .base _ b => b

structure Plan where
  name : String
  rootType : RootType
  decls : List Decl
  deriving DecidableEq, Repr

def Plan.classNames (p : Plan) : List String := p.decls.map Decl.name

/-- Safe names of all that the rule binds, sorted. -/
def Rule.attributes (safe : String → String) (r : Rule) : List String :=
  Text.sortNames (r.bindings.map fun d => safe d.name)

/-! ## From grammars to plans -/

namespace Plan

/-- The base of every class. Of several bases the last counts. -/
def bases (root : String) (rules : List ClassRule) : List (String × String) :=
  Keyed.put modelBase root
    (Keyed.ofList ((rules.flatMap ClassRule.edges).map fun e => (e.name, e.base)))

/-- The rules by their own class. Of several rules with one class the last
counts. -/
def leaves (rules : List ClassRule) : List (String × ClassRule) :=
  Keyed.ofList (rules.map fun c => (c.leaf.name, c))

/-- Why a class is not declared: it would hide the root type, which is imported
by that name, or a built-in. -/
def obstacle? (o : Options) (name : String) : Option Error :=
  if o.rootType.module ≠ "" ∧ name = o.rootType.name then
    some (.hidesRootType name o.rootType.name)
  else if o.target.isBuiltin name then some (.reserved name o.target)
  else none

/-- The classes that can be declared, which a strict run asks of all. -/
def declarable (o : Options) : List String → Except Error (List String)
  | [] => .ok []
  | name :: rest =>
    match obstacle? o name with
    | some error => if o.strict then .error error else declarable o rest
    | none => (declarable o rest).map (name :: ·)

/-- The declaration of a class, from the bases of all classes and the rules by
their own class. -/
def declare (safe : String → String) (bases : List (String × String))
    (leaves : List (String × ClassRule)) (name : String) : Decl :=
  match Keyed.get? name leaves with
  | some c => .rule name c.leaf.base c.rule.name (c.rule.attributes safe)
  | none => .base name (Keyed.get? name bases)

/-- All classes of the rules that can be declared, in order. -/
def declsOf (o : Options) (rules : List ClassRule) : Except Error (List Decl) := do
  let bases := bases o.rootType.name rules
  let order ← (classOrder (Keyed.keys bases) (rules.flatMap ClassRule.edges)).mapError .cycle
  let names ← declarable o order
  return names.map (declare o.target.identifier bases (leaves rules))

def ofGrammar (o : Options) (g : Grammar) : Except Error Plan :=
  (declsOf o (g.classRules o.target.identifier)).map fun decls =>
    ⟨o.name.getD g.name, o.rootType, decls⟩

end Plan

end RuleClasses
