import RuleClasses.Json.NumberScan
import RuleClasses.Json.StringScan

/-! The tokens of a JSON text.

A text may be read for its values or only passed over, and what is wrong with a
token can depend on that: half a surrogate pair is no text, but does no harm in a
value that nobody looks at. So a token holds its value or what is wrong with the
value, and a broken token, with which the list ends, holds both verdicts. -/

namespace RuleClasses.Json

/-- A text at a place where text is expected, or what is wrong with it. -/
abbrev Key := Except Fault String

inductive Token where
  | openList
  | closeList
  | openObject
  | closeObject
  | comma
  | colon
  | null
  | bool (value : Bool)
  | number (value : Except Fault Number)
  | string (value : Key)
  /-- The text is wrong from here on: what to say when the value is wanted, and
  when it is only passed over. -/
  | broken (wanted passed : Fault)
  /-- The same inside a string. -/
  | brokenString (wanted passed : Fault)

def isSpace (c : Char) : Bool := c = ' ' || c = '\n' || c = '\t' || c = '\r'

/-- A word of which the first letter is gone already. -/
def scanWord (token : Token) : List Char → List Char → Token × List Char
  | [], s => (token, s)
  | _ :: _, [] => (.broken .endInValue .endInValue, [])
  | e :: expected, c :: s =>
    if c = e then scanWord token expected s else (.broken .wordExpected .wordExpected, [])

theorem scanWord_length (token : Token) (expected s : List Char) :
    (scanWord token expected s).2.length ≤ s.length := by
  fun_induction scanWord token expected s with
  | case1 => simp
  | case2 => simp
  | case3 _ _ _ ih => simp only [List.length_cons]; omega
  | case4 => simp

def StringScan.token : StringScan → Token × List Char
  | .closed value rest => (.string (value.map String.ofList), rest)
  | .broken wanted passed => (.brokenString wanted passed, [])

def NumberScan.token : NumberScan → Token × List Char
  | .closed parts rest => (.number parts.value, rest)
  | .broken true => (.broken .endInValue .invalidNumber, [])
  | .broken false => (.broken .invalidNumber .invalidNumber, [])

theorem StringScan.token_length (s : StringScan) : s.token.2.length = s.rest.length := by
  cases s <;> rfl

theorem NumberScan.token_length (s : NumberScan) : s.token.2.length = s.rest.length := by
  cases s with
  | closed => rfl
  | broken atEnd => cases atEnd <;> rfl

/-- A number behind its minus sign. -/
def negativeToken : List Char → Token × List Char
  | [] => (.broken .endInValue .invalidNumber, [])
  | c :: s => (scanNumber true (c :: s)).token

/-- The token that begins with `c`, and the text behind it. -/
def token (c : Char) (s : List Char) : Token × List Char :=
  match c with
  | '[' => (.openList, s)
  | ']' => (.closeList, s)
  | '\x7b' => (.openObject, s)
  | '\x7d' => (.closeObject, s)
  | ',' => (.comma, s)
  | ':' => (.colon, s)
  | 'n' => scanWord .null ['u', 'l', 'l'] s
  | 't' => scanWord (.bool true) ['r', 'u', 'e'] s
  | 'f' => scanWord (.bool false) ['a', 'l', 's', 'e'] s
  | '"' => (scanString s).token
  | '-' => negativeToken s
  | c =>
    if c.isDigit then (scanNumber false (c :: s)).token
    else (.broken .valueExpected .valueExpected, [])

theorem token_length (c : Char) (s : List Char) : (token c s).2.length ≤ s.length := by
  unfold token
  split
  case h_7 | h_8 | h_9 => exact scanWord_length ..
  case h_10 => rw [StringScan.token_length]; exact scanString_length s
  case h_11 =>
    unfold negativeToken
    split
    · simp
    · rw [NumberScan.token_length]
      exact Nat.le_succ_of_le (scanNumber_length ..)
  case h_12 =>
    split
    · rw [NumberScan.token_length]; exact scanNumber_length ..
    · simp
  all_goals simp

def tokens : List Char → List Token
  | [] => []
  | c :: s =>
    if isSpace c then tokens s
    else (token c s).1 :: tokens (token c s).2
termination_by s => s.length
decreasing_by
  · simp
  · have := token_length c s
    simp only [List.length_cons]; omega

end RuleClasses.Json
