import RuleClasses.Generation
import RuleClasses.Grammar.Decoding

/-! A grammar and its options, changed step by step. The command line reads a grammar once and
is done with it. A session stands for a caller of the library who keeps a grammar, changes it
and asks for the plan after each change, so the steps put together what reading and planning do.
A change that fails is answered by its error, and the later answers are those that would have
come without it. -/

namespace RuleClasses

structure Session where
  config : Config := {}
  grammar : Grammar := ⟨"", []⟩
  deriving Repr

namespace Session

inductive Change where
  | rename (name : String)
  /-- Options in the form of a config file. -/
  | configure (text : String)
  /-- A rule in the form in which it stands in a grammar file. -/
  | add (text : String)
  | remove (index : Nat)
  deriving DecidableEq, Repr

/-- The session after a change. A text that cannot be read changes nothing, and an
index without a rule does not either. -/
def apply (s : Session) : Change → Except Error Session
  | .rename name => .ok { s with grammar := { s.grammar with name := name } }
  | .configure text => ((Config.ofText text).mapError .json).map fun c => { s with config := c }
  | .add text =>
    ((Rule.ofText text).mapError .json).map fun r =>
      { s with grammar := { s.grammar with rules := s.grammar.rules ++ [r] } }
  | .remove index =>
    .ok { s with grammar := { s.grammar with rules := s.grammar.rules.eraseIdx index } }

def plan (s : Session) : Except Error Plan := s.config.plan s.grammar

/-- The answers to a row of changes: the plan after each of them, or what went
wrong. -/
def answers (s : Session) : List Change → List (Except Error Plan)
  | [] => []
  | change :: rest =>
    match s.apply change with
    | .ok next => next.plan :: answers next rest
    | .error e => .error e :: answers s rest

/-- The session behind a row of changes, in which a change that fails does nothing. -/
def after (s : Session) : List Change → Session
  | [] => s
  | change :: rest =>
    match s.apply change with
    | .ok next => after next rest
    | .error _ => after s rest

variable {s : Session} {change : Change}

theorem answers_append (s : Session) (before rest : List Change) :
    s.answers (before ++ rest) = s.answers before ++ (s.after before).answers rest := by
  induction before generalizing s with
  | nil => rfl
  | cons change before ih =>
    rw [List.cons_append, answers, answers, after]
    cases s.apply change with
    | ok next => exact congrArg (next.plan :: ·) (ih next)
    | error e => exact congrArg (.error e :: ·) (ih s)

theorem after_append (s : Session) (before rest : List Change) :
    s.after (before ++ rest) = (s.after before).after rest := by
  induction before generalizing s with
  | nil => rfl
  | cons change before ih =>
    rw [List.cons_append, after, after]
    cases s.apply change with
    | ok next => exact ih next
    | error e => exact ih s

/-- A change that fails, wherever in a row, leaves the session as it was. It is answered by its
error, and neither the answers around it nor the session in the end know of it. -/
theorem answers_of_apply_error {before : List Change} {e : Error}
    (h : (s.after before).apply change = .error e) (rest : List Change) :
    s.answers (before ++ change :: rest) =
        s.answers before ++ .error e :: (s.after before).answers rest ∧
      s.answers (before ++ rest) = s.answers before ++ (s.after before).answers rest ∧
      s.after (before ++ change :: rest) = s.after (before ++ rest) := by
  rw [answers_append, answers_append, after_append, after_append, answers, after, h]
  exact ⟨rfl, rfl, rfl⟩

end Session

end RuleClasses
