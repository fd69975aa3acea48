/-! Lines of text at levels of indentation. -/

namespace RuleClasses

inductive Layout where
  /-- One line. An empty one is not indented. -/
  | line (text : String)
  | blank
  /-- One level deeper. -/
  | nested (body : List Layout)
  deriving Repr

namespace Layout

def indentation (level : Nat) : String := String.ofList (List.replicate (4 * level) ' ')

def lineText (level : Nat) (text : String) : String :=
  (if text = "" then "" else indentation level ++ text) ++ "\n"

mutual

def text (level : Nat) : Layout → String
  | .line s => lineText level s
  | .blank => "\n"
  | .nested body => textAll (level + 1) body

def textAll (level : Nat) : List Layout → String
  | [] => ""
  | l :: rest => text level l ++ textAll level rest

end

end Layout

end RuleClasses
