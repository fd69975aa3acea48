import RuleClasses.Json.Fault
import RuleClasses.Json.Value
import RuleClasses.Text.Quoted
import RuleClasses.Text.Separated

/-! What keeps a JSON text from being read as the thing that is wanted, and where
in the text the reader stood. -/

namespace RuleClasses.Json

/-- What stands at a place, as far as a message tells. -/
inductive Found where
  | null
  | bool (value : Bool)
  | number (value : Number)
  | string (value : String)
  | list
  | object
  deriving DecidableEq, Repr

def Found.message : Found → String
  | .null => "null"
  | .bool value => "boolean `" ++ (if value then "true" else "false") ++ "`"
  | .number (.int value) => "integer `" ++ toString value ++ "`"
  | .number (.double value) => "floating point `" ++ String.ofList value.text ++ "`"
  | .string value => "string " ++ Text.quoted value
  | .list => "sequence"
  | .object => "map"

inductive Problem where
  | fault (fault : Fault)
  | missingField (field : String)
  | duplicateField (field : String)
  | unknownField (field : String) (known : List String)
  | unknownVariant (variant : String) (known : List String)
  | invalidType (found : Found) (wanted : String)
  | invalidLength (length : Nat) (wanted : String)
  /-- A variant given by a number that is too large. -/
  | invalidIndex (index : Int) (count : Nat)
  deriving DecidableEq, Repr

/-- Names to choose from: two of them with an `or`, more of them as a list. -/
def alternatives (names : List String) : String :=
  let ticked := names.map fun n => "`" ++ n ++ "`"
  match ticked with
  | [a] => a
  | [a, b] => a ++ " or " ++ b
  | _ => "one of " ++ Text.joinWith ", " ticked

def Problem.message : Problem → String
  | .fault f => f.message
  | .missingField field => "missing field `" ++ field ++ "`"
  | .duplicateField field => "duplicate field `" ++ field ++ "`"
  | .unknownField field known => "unknown field `" ++ field ++ "`, expected " ++ alternatives known
  | .unknownVariant variant known =>
    "unknown variant `" ++ variant ++ "`, expected " ++ alternatives known
  | .invalidType found wanted => "invalid type: " ++ found.message ++ ", expected " ++ wanted
  | .invalidLength length wanted =>
    "invalid length " ++ toString length ++ ", expected " ++ wanted
  | .invalidIndex index count =>
    "invalid value: integer `" ++ toString index ++ "`, expected variant index 0 <= i < "
      ++ toString count

inductive Step where
  | key (key : String)
  | index (index : Nat)
  /-- A key was about to be read. -/
  | unknown
  deriving DecidableEq, Repr

/-- Steps from the outermost value inwards. -/
abbrev Path := List Step

def Step.text : Step → String
  | .key k => k
  | .index i => "[" ++ toString i ++ "]"
  | .unknown => "?"

/-- Steps behind the first one; a point stands in front of all but an index. -/
def Path.tail : Path → String
  | [] => ""
  | .index i :: rest => (Step.index i).text ++ Path.tail rest
  | step :: rest => "." ++ step.text ++ Path.tail rest

def Path.text : Path → String
  | [] => "."
  | step :: rest => step.text ++ Path.tail rest

structure Issue where
  path : Path
  problem : Problem
  deriving DecidableEq, Repr

/-- An issue with the value itself. -/
def Issue.here (problem : Problem) : Issue := ⟨[], problem⟩

def Issue.within (step : Step) (issue : Issue) : Issue := ⟨step :: issue.path, issue.problem⟩

def Issue.message (issue : Issue) : String :=
  "at JSON path " ++ issue.path.text ++ " → " ++ issue.problem.message

/-- A reader's answer about a part of a value, as an answer about the value. -/
def within {α : Type} (step : Step) (answer : Except Issue α) : Except Issue α :=
  answer.mapError (Issue.within step)

/-- An answer about the value itself. -/
def here {α : Type} (answer : Except Problem α) : Except Issue α := answer.mapError Issue.here

def faulty {α : Type} (answer : Except Fault α) : Except Problem α := answer.mapError Problem.fault

end RuleClasses.Json
