import RuleClasses.Layout
import RuleClasses.Text.Blank
import RuleClasses.Text.Lines

/-! Blocks of text that are written with an indentation of their own, which goes
away when the block is placed. The common margin of the lines is measured in
bytes, and so it can end in the middle of a character. -/

namespace RuleClasses.Layout

/-- Bytes of a text. -/
def width (s : List Char) : Nat := s.foldr (fun c n => c.utf8Size + n) 0

def isBlankLine (l : List Char) : Bool := l.all Text.isBlank

/-- Bytes of the blanks at the start of a line. -/
def margin (l : List Char) : Nat := width (l.takeWhile Text.isBlank)

/-- The smallest margin of the lines that are not blank. -/
def commonMargin (lines : List (List Char)) : Nat :=
  (((lines.filter fun l => !isBlankLine l).map margin).min?).getD 0

/-- The text behind the given number of bytes, unless that cuts a character. -/
def dropBytes? : Nat → List Char → Option (List Char)
  | 0, s => some s
  | _ + 1, [] => none
  | n + 1, c :: rest =>
    if c.utf8Size ≤ n + 1 then dropBytes? (n + 1 - c.utf8Size) rest else none

def blockLine? (cut : Nat) (l : List Char) : Option Layout :=
  if isBlankLine l then some .blank
  else (dropBytes? cut l).map fun s => .line (String.ofList s)

def isSpaceOrTab (c : Char) : Bool := c = ' ' || c = '\t'

/-- The lines of a block, without one newline at the front and without the spaces
and tabs at the end. -/
def blockLines (text : List Char) : List (List Char) :=
  let text := match text with
    | '\n' :: rest => rest
    | text => text
  Text.lines (Text.dropEndWhile isSpaceOrTab text)

/-- A block without its margin; nothing when a character would be cut. -/
def block? (text : String) : Option (List Layout) :=
  let lines := blockLines text.toList
  lines.mapM (blockLine? (commonMargin lines))

end RuleClasses.Layout
