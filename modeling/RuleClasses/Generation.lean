import RuleClasses.Config
import RuleClasses.Emit

/-! What a config makes of a grammar: a plan, a source file, or a report on its classes. A
root type that cannot be read is the first thing that can go wrong, whatever the grammar
holds. -/

namespace RuleClasses

/-! ## Reports -/

/-- The edges that the rules of a grammar declare, and the order of the classes. -/
structure Report where
  grammar : String
  rules : List (String × List Edge)
  order : List String
  deriving DecidableEq, Repr

def Report.ofGrammar (o : Options) (g : Grammar) : Except Error Report :=
  (Plan.ofGrammar o g).map fun p =>
    { grammar := g.name
      rules := (g.classRules o.target.identifier).map fun c => (c.rule.name, c.edges)
      order := p.classNames }

def Edge.toJson (e : Edge) : Json :=
  .object [("class_name", .string e.name), ("base", .string e.base)]

def Report.toJson (r : Report) : Json :=
  .object [("grammar", .string r.grammar),
    ("rules", .object (r.rules.map fun (name, edges) => (name, .list (edges.map Edge.toJson)))),
    ("order", .list (r.order.map .string))]

/-! ## Runs of a config -/

namespace Config

def plan (c : Config) (g : Grammar) : Except Error Plan := do
  let o ← c.options
  Plan.ofGrammar o g

/-- The source file of the grammar's classes. -/
def source (c : Config) (g : Grammar) : Except Error String := do
  let o ← c.options
  g.source o

def report (c : Config) (g : Grammar) : Except Error Report := do
  let o ← c.options
  Report.ofGrammar o g

theorem target_of_options {c : Config} {o : Options} (h : c.options = .ok o) :
    o.target = c.target := by
  unfold options at h
  cases hroot : c.rootType with
  | error e => rw [hroot] at h; cases h
  | ok root => rw [hroot] at h; cases h; rfl

theorem rootType_of_options {c : Config} {o : Options} (h : c.options = .ok o) :
    c.rootType = .ok o.rootType := by
  unfold options at h
  cases hroot : c.rootType with
  | error e => rw [hroot] at h; cases h
  | ok root => rw [hroot] at h; cases h; rfl

theorem name_of_options {c : Config} {o : Options} (h : c.options = .ok o) :
    o.name = c.name := by
  unfold options at h
  cases hroot : c.rootType with
  | error e => rw [hroot] at h; cases h
  | ok root => rw [hroot] at h; cases h; rfl

end Config

end RuleClasses
