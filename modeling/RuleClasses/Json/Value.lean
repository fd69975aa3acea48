import RuleClasses.Decimal.Shortest
import RuleClasses.Keyed

/-! JSON values. Integers that fit into 64 bits (signed or unsigned) stay
integers; every other number is a double. The entries of an object keep their
order, and may repeat a key until `mergeKeys` settles which one counts. -/

namespace RuleClasses

/-- A number of a JSON text. -/
inductive Json.Number where
  | int (value : Int)
  | double (value : Decimal.Binary64)
  deriving DecidableEq, Repr

inductive Json where
  | null
  | bool (value : Bool)
  | number (value : Json.Number)
  | string (value : String)
  | list (items : List Json)
  | object (entries : List (String × Json))
  deriving Repr

namespace Json

mutual

/-- In every object the last value of a repeated key counts, at the place where
the key came first. -/
def mergeKeys : Json → Json
  | .list items => .list (mergeItems items)
  | .object entries => .object (Keyed.ofList (mergeEntries entries))
  | other => other

def mergeItems : List Json → List Json
  | [] => []
  | j :: rest => mergeKeys j :: mergeItems rest

def mergeEntries : List (String × Json) → List (String × Json)
  | [] => []
  | (k, j) :: rest => (k, mergeKeys j) :: mergeEntries rest

end

/-- The value of the first entry with a key. -/
def field? (key : String) : Json → Option Json
  | .object entries => Keyed.get? key entries
  | _ => none

end Json

end RuleClasses
