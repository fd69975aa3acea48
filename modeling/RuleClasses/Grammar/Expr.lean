/-! Rule bodies: parsing expressions, of which only the shape counts here. Which
of their parts can bind names is told by `Expr.bindings`. -/

namespace RuleClasses

/-- A bound name; a list when the binding collects every match. -/
structure Binding where
  name : String
  isList : Bool
  deriving DecidableEq, Repr

/-- One binding for each name, the first. -/
def Binding.unique : List Binding → List Binding
  | [] => []
  | d :: rest => d :: (unique rest).filter fun e => e.name ≠ d.name

/-- Expressions without parts. -/
inductive Atom where
  | void
  | cut
  | token (text : String)
  | pattern (text : String)
  | call (rule : String)
  deriving DecidableEq, Repr

/-- What can be said about one expression. -/
inductive Wrapper where
  | override
  | optional
  | closure
  | positiveClosure
  | group
  | lookahead
  | negativeLookahead
  deriving DecidableEq, Repr

inductive Expr where
  | atom (atom : Atom)
  /-- The name is bound to what the body matches, or to the list of all that it
  matches. -/
  | bind (isList : Bool) (name : String) (body : Expr)
  | wrap (wrapper : Wrapper) (body : Expr)
  | sequence (items : List Expr)
  | choice (options : List Expr)
  deriving Repr

/-- Names inside bind nothing: an override takes the place of the whole node, and
what a negative lookahead names is gone when the rule goes on. -/
def Wrapper.hides : Wrapper → Bool
  | .override | .negativeLookahead => true
  | _ => false

namespace Expr

def void : Expr := .atom .void

mutual

/-- The bindings of an expression in textual order, with repeats. -/
def bindings : Expr → List Binding
  | .atom _ => []
  | .bind isList name body => ⟨name, isList⟩ :: bindings body
  | .wrap wrapper body => if wrapper.hides then [] else bindings body
  | .sequence items => bindingsAll items
  | .choice options => bindingsAll options

def bindingsAll : List Expr → List Binding
  | [] => []
  | e :: rest => bindings e ++ bindingsAll rest

end

end Expr

end RuleClasses
