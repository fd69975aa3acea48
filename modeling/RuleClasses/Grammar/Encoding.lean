import RuleClasses.Grammar.Basic
import RuleClasses.Grammar.Tag

/-! Grammars as JSON values. Everything is written out but empty parameter
lists. -/

namespace RuleClasses

def Tag.entry (t : Tag) : String × Json := ("type", .string t.name)

def Atom.fieldEntries : Atom → List (String × Json)
  | .void | .cut => []
  | .token text => [("token", .string text)]
  | .pattern text => [("pattern", .string text)]
  | .call rule => [("rule", .string rule)]

mutual

def Expr.toJson : Expr → Json
  | .atom a => .object (a.tag.entry :: a.fieldEntries)
  | .bind isList name body =>
    .object [(if isList then Tag.namedList else Tag.named).entry, ("name", .string name),
      ("exp", body.toJson)]
  | .wrap wrapper body => .object [wrapper.tag.entry, ("exp", body.toJson)]
  | .sequence items => .object [Tag.sequence.entry, ("items", .list (Expr.toJsonAll items))]
  | .choice options => .object [Tag.choice.entry, ("options", .list (Expr.toJsonAll options))]

def Expr.toJsonAll : List Expr → List Json
  | [] => []
  | e :: rest => e.toJson :: Expr.toJsonAll rest

end

def Rule.toJson (r : Rule) : Json :=
  .object (("name", .string r.name) ::
    (if r.params.isEmpty then [] else [("params", .list r.params)]) ++
    [("exp", r.body.toJson)])

def Grammar.toJson (g : Grammar) : Json :=
  .object [("name", .string g.name), ("rules", .list (g.rules.map Rule.toJson))]

end RuleClasses
