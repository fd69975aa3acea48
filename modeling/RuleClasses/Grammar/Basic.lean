import RuleClasses.Grammar.Expr
import RuleClasses.Json.Value

/-! Grammars, as far as the classes of their rules are concerned. -/

namespace RuleClasses

structure Rule where
  name : String
  /-- Any values; a text in front declares the rule's class and the bases above
  it. -/
  params : List Json
  body : Expr
  deriving Repr

structure Grammar where
  name : String
  rules : List Rule
  deriving Repr

/-- The text that declares the rule's class. -/
def Rule.classPath? (r : Rule) : Option String :=
  match r.params with
  | .string s :: _ => some s
  | _ => none

/-- The names that the rule binds, each of them once. -/
def Rule.bindings (r : Rule) : List Binding := Binding.unique r.body.bindings

end RuleClasses
