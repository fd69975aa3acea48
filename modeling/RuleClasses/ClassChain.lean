import RuleClasses.Grammar.Basic
import RuleClasses.Target.Basic
import RuleClasses.Text.Separated

/-! Classes that rules declare. A rule with `Foo::Expr::Node` in front of its
parameters has the class `Foo`, which extends `Expr`, which extends `Node`. Above
the last name of every such chain stands one class that all have in common. -/

namespace RuleClasses

/-- The class `name` extends the class `base`. -/
structure Edge where
  name : String
  base : String
  deriving DecidableEq, Repr

/-- The class above all chains. -/
def modelBase : String := "ModelBase"

/-- Edges along a chain of names, up to the common class. -/
def chainEdges : List String → List Edge
  | [] => []
  | [n] => [⟨n, modelBase⟩]
  | n :: m :: rest => ⟨n, m⟩ :: chainEdges (m :: rest)

/-- The names in a path, each made safe. -/
def chainNames (safe : String → String) (path : String) : List String :=
  (Text.segments path.toList).map fun s => safe (String.ofList s)

/-- The edges that a rule declares, its own class first. -/
def Rule.edges (safe : String → String) (r : Rule) : List Edge :=
  match r.classPath? with
  | some s => chainEdges (chainNames safe s)
  | none => []

/-- A rule that has a class: the edge of that class, and those above it. -/
structure ClassRule where
  rule : Rule
  leaf : Edge
  above : List Edge
  deriving Repr

def ClassRule.edges (c : ClassRule) : List Edge := c.leaf :: c.above

/-- Nothing when the rule has no class. -/
def ClassRule.ofRule? (safe : String → String) (r : Rule) : Option ClassRule :=
  match r.edges safe with
  | [] => none
  | leaf :: above => some ⟨r, leaf, above⟩

/-- The rules with classes. Of rules with one name the last with a class counts,
at the place of the first. -/
def Grammar.classRules (safe : String → String) (g : Grammar) : List ClassRule :=
  Keyed.values (Keyed.ofList ((g.rules.filterMap (ClassRule.ofRule? safe)).map
    fun c => (c.rule.name, c)))

end RuleClasses
