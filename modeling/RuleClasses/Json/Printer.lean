import RuleClasses.Json.Value

/-! JSON values as text: on one line without any space, or spread over lines with
two spaces for each level. -/

namespace RuleClasses.Json

/-! ## Strings and numbers -/

/-- One character inside a string. -/
def stringChar (c : Char) : List Char :=
  match c with
  | '"' => ['\\', '"']
  | '\\' => ['\\', '\\']
  | '\x08' => ['\\', 'b']
  | '\x0c' => ['\\', 'f']
  | '\n' => ['\\', 'n']
  | '\r' => ['\\', 'r']
  | '\t' => ['\\', 't']
  | c =>
    if c < ' ' then
      ['\\', 'u', '0', '0', Nat.digitChar (c.toNat / 16), Nat.digitChar (c.toNat % 16)]
    else [c]

def stringChars (s : String) : List Char := '"' :: s.toList.flatMap stringChar ++ ['"']

def Number.chars : Number → List Char
  | .int n => (toString n).toList
  | .double x => x.text

def boolChars (b : Bool) : List Char := (if b then "true" else "false").toList

/-! ## On one line -/

mutual

def chars : Json → List Char
  | .null => ['n', 'u', 'l', 'l']
  | .bool b => boolChars b
  | .number n => n.chars
  | .string s => stringChars s
  | .list items => '[' :: itemsChars items ++ [']']
  | .object entries => '\x7b' :: entriesChars entries ++ ['\x7d']

def itemsChars : List Json → List Char
  | [] => []
  | [j] => chars j
  | j :: rest => chars j ++ ',' :: itemsChars rest

def entriesChars : List (String × Json) → List Char
  | [] => []
  | [(k, j)] => stringChars k ++ ':' :: chars j
  | (k, j) :: rest => stringChars k ++ ':' :: chars j ++ ',' :: entriesChars rest

end

def text (j : Json) : String := String.ofList (chars j)

/-! ## On many lines -/

/-- A new line at a level. -/
def lineBreak (level : Nat) : List Char := '\n' :: List.replicate (2 * level) ' '

mutual

def prettyChars (level : Nat) : Json → List Char
  | .null => ['n', 'u', 'l', 'l']
  | .bool b => boolChars b
  | .number n => n.chars
  | .string s => stringChars s
  | .list [] => ['[', ']']
  | .list items => '[' :: prettyItems (level + 1) items ++ lineBreak level ++ [']']
  | .object [] => ['\x7b', '\x7d']
  | .object entries =>
    '\x7b' :: prettyEntries (level + 1) entries ++ lineBreak level ++ ['\x7d']

def prettyItems (level : Nat) : List Json → List Char
  | [] => []
  | [j] => lineBreak level ++ prettyChars level j
  | j :: rest => lineBreak level ++ prettyChars level j ++ ',' :: prettyItems level rest

def prettyEntries (level : Nat) : List (String × Json) → List Char
  | [] => []
  | [(k, j)] => lineBreak level ++ stringChars k ++ ':' :: ' ' :: prettyChars level j
  | (k, j) :: rest =>
    lineBreak level ++ stringChars k ++ ':' :: ' ' :: prettyChars level j ++
      ',' :: prettyEntries level rest

end

def pretty (j : Json) : String := String.ofList (prettyChars 0 j)

end RuleClasses.Json
