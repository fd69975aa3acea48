import RuleClasses.Grammar.Expr

/-! The kinds of expressions as they are named in a grammar file, with the fields
that each of them has. -/

namespace RuleClasses

inductive Tag where
  | void
  | cut
  | token
  | pattern
  | call
  | named
  | namedList
  | override
  | sequence
  | choice
  | optional
  | closure
  | positiveClosure
  | group
  | lookahead
  | negativeLookahead
  deriving DecidableEq, Repr

namespace Tag

/-- In the order of the numbers that a kind may be given by. -/
def all : List Tag :=
  [void, cut, token, pattern, call, named, namedList, override, sequence, choice, optional,
   closure, positiveClosure, group, lookahead, negativeLookahead]

def name : Tag → String
  | void => "Void"
  | cut => "Cut"
  | token => "Token"
  | pattern => "Pattern"
  | call => "Call"
  | named => "Named"
  | namedList => "NamedList"
  | override => "Override"
  | sequence => "Sequence"
  | choice => "Choice"
  | optional => "Optional"
  | closure => "Closure"
  | positiveClosure => "PositiveClosure"
  | group => "Group"
  | lookahead => "Lookahead"
  | negativeLookahead => "NegativeLookahead"

def ofName? (name : String) : Option Tag := all.find? fun t => t.name = name

theorem ofName?_name (t : Tag) : ofName? t.name = some t := by
  cases t <;> decide

/-- The kind of value that a field holds. -/
inductive FieldKind where
  | text
  | body
  | parts
  deriving DecidableEq, Repr

/-- The fields in the order in which they are written. -/
def fields : Tag → List (String × FieldKind)
  | void | cut => []
  | token => [("token", .text)]
  | pattern => [("pattern", .text)]
  | call => [("rule", .text)]
  | named | namedList => [("name", .text), ("exp", .body)]
  | sequence => [("items", .parts)]
  | choice => [("options", .parts)]
  | _ => [("exp", .body)]

def fieldKind? (t : Tag) (field : String) : Option FieldKind :=
  (t.fields.find? fun f => f.1 = field).map Prod.snd

end Tag

def Atom.tag : Atom → Tag
  | .void => .void
  | .cut => .cut
  | .token _ => .token
  | .pattern _ => .pattern
  | .call _ => .call

def Wrapper.tag : Wrapper → Tag
  | .override => .override
  | .optional => .optional
  | .closure => .closure
  | .positiveClosure => .positiveClosure
  | .group => .group
  | .lookahead => .lookahead
  | .negativeLookahead => .negativeLookahead

def Expr.tag : Expr → Tag
  | .atom a => a.tag
  | .bind false _ _ => .named
  | .bind true _ _ => .namedList
  | .wrap w _ => w.tag
  | .sequence _ => .sequence
  | .choice _ => .choice

end RuleClasses
