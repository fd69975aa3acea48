import RuleClasses.Layout.Block

/-! A text that is written piece by piece, at a level of indentation. -/

namespace RuleClasses

inductive Stroke where
  | print (line : String)
  | newline
  | block (text : String)
  /-- One level deeper. -/
  | indented (body : List Stroke)
  deriving Repr

structure Page where
  text : String := ""
  level : Nat := 0
  deriving DecidableEq, Repr

namespace Page

def place (p : Page) (layouts : List Layout) : Page :=
  { p with text := p.text ++ Layout.textAll p.level layouts }

mutual

/-- Nothing is left when a block cannot be placed. -/
def write (p : Page) : Stroke → Option Page
  | .print line => some (p.place [.line line])
  | .newline => some (p.place [.blank])
  | .block text => (Layout.block? text).map p.place
  | .indented body =>
    (writeAll { p with level := p.level + 1 } body).map fun inner =>
      { inner with level := inner.level - 1 }

def writeAll (p : Page) : List Stroke → Option Page
  | [] => some p
  | x :: rest =>
    match write p x with
    | some next => writeAll next rest
    | none => none

end

mutual

/-- The texts after every single step, the steps inside an indentation first.
Where nothing is left, `none` ends the history. -/
def history (p : Page) : Stroke → List (Option String)
  | .indented body =>
    historyAll { p with level := p.level + 1 } body ++
      (match write p (.indented body) with
        | some next => [some next.text]
        | none => [])
  | x => [(write p x).map Page.text]

def historyAll (p : Page) : List Stroke → List (Option String)
  | [] => []
  | x :: rest =>
    history p x ++
      (match write p x with
        | some next => historyAll next rest
        | none => [])

end

end Page

end RuleClasses
