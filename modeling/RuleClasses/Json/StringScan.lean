import RuleClasses.Json.Fault

/-! Strings of a JSON text. Half a surrogate pair is no text, but it does not end
the string either: it is a fault for a reader who wants the value, and none for a
reader who passes over it. -/

namespace RuleClasses.Json

def hexValue? (c : Char) : Option Nat :=
  if '0' ≤ c ∧ c ≤ '9' then some (c.toNat - '0'.toNat)
  else if 'a' ≤ c ∧ c ≤ 'f' then some (c.toNat - 'a'.toNat + 10)
  else if 'A' ≤ c ∧ c ≤ 'F' then some (c.toNat - 'A'.toNat + 10)
  else none

/-- The number of four hexadecimal digits at the front of a text, and the rest.
A text too short for four digits ends inside the string; the length counts in
bytes. -/
def fourDigits : List Char → Except Fault (Nat × List Char)
  | a :: b :: c :: d :: rest =>
    match hexValue? a, hexValue? b, hexValue? c, hexValue? d with
    | some a, some b, some c, some d => .ok (((a * 16 + b) * 16 + c) * 16 + d, rest)
    | _, _, _, _ => .error .invalidEscape
  | short =>
    if short.foldr (fun c n => c.utf8Size + n) 0 < 4 then .error .endInString
    else .error .invalidEscape

theorem fourDigits_length {s rest : List Char} {n : Nat} (h : fourDigits s = .ok (n, rest)) :
    rest.length < s.length := by
  unfold fourDigits at h
  split at h
  · split at h
    · cases h; simp only [List.length_cons]; omega
    · cases h
  · split at h <;> cases h

/-- What a backslash stands for. -/
inductive Escape where
  | char (c : Char) (rest : List Char)
  /-- Half a surrogate pair: no character, but nothing that ends the string. -/
  | half (fault : Fault) (rest : List Char)
  | wrong (fault : Fault)

def isHighSurrogate (n : Nat) : Bool := 0xD800 ≤ n && n ≤ 0xDBFF

def isLowSurrogate (n : Nat) : Bool := 0xDC00 ≤ n && n ≤ 0xDFFF

/-- The low half that must follow the high half `high`. -/
def lowHalf (high : Nat) (s : List Char) : Escape :=
  match s with
  | '\\' :: 'u' :: t =>
    match fourDigits t with
    | .ok (low, rest) =>
      if isLowSurrogate low then
        .char (Char.ofNat ((high - 0xD800) * 0x400 + (low - 0xDC00) + 0x10000)) rest
      else .half .loneSurrogate s
    | .error fault => .half fault s
  | [] | ['\\'] => .half .endInString s
  | _ => .half .surrogateCutOff s

/-- The escape whose text follows the backslash. -/
def escape : List Char → Escape
  | [] => .wrong .endInString
  | '"' :: rest => .char '"' rest
  | '\\' :: rest => .char '\\' rest
  | '/' :: rest => .char '/' rest
  | 'b' :: rest => .char '\x08' rest
  | 'f' :: rest => .char '\x0c' rest
  | 'n' :: rest => .char '\n' rest
  | 'r' :: rest => .char '\r' rest
  | 't' :: rest => .char '\t' rest
  | 'u' :: s =>
    match fourDigits s with
    | .ok (n, rest) =>
      if isHighSurrogate n then lowHalf n rest
      else if isLowSurrogate n then .half .loneSurrogate rest
      else .char (Char.ofNat n) rest
    | .error fault => .wrong fault
  | _ => .wrong .invalidEscape

def Escape.rest : Escape → List Char
  | .char _ rest => rest
  | .half _ rest => rest
  | .wrong _ => []

theorem lowHalf_length (high : Nat) (s : List Char) :
    (lowHalf high s).rest.length ≤ s.length := by
  unfold lowHalf
  split
  · split
    · split
      · rename_i h _
        have := fourDigits_length h
        simp only [Escape.rest, List.length_cons]; omega
      · exact Nat.le_refl _
    · exact Nat.le_refl _
  · exact Nat.le_refl _
  · exact Nat.le_refl _
  · exact Nat.le_refl _

theorem escape_length (s : List Char) : (escape s).rest.length ≤ s.length := by
  unfold escape
  split
  case h_10 s =>
    split
    · rename_i h
      have := fourDigits_length h
      have := lowHalf_length
      split
      · refine Nat.le_trans (lowHalf_length _ _) ?_
        simp only [List.length_cons]; omega
      · split <;> simp only [Escape.rest, List.length_cons] <;> omega
    · simp [Escape.rest]
  all_goals simp [Escape.rest]

/-- A string from behind its opening quote: the value, or what is wrong with it,
and the text behind the closing quote. -/
inductive StringScan where
  | closed (value : Except Fault (List Char)) (rest : List Char)
  | broken (wanted passed : Fault)

def StringScan.cons (c : Char) : StringScan → StringScan
  | .closed value rest => .closed (value.map (c :: ·)) rest
  | .broken wanted passed => .broken wanted passed

/-- A fault that only counts when the value is wanted. It comes first in the
text, so it hides any other such fault behind it. -/
def StringScan.spoil (fault : Fault) : StringScan → StringScan
  | .closed _ rest => .closed (.error fault) rest
  | .broken _ passed => .broken fault passed

def scanString : List Char → StringScan
  | [] => .broken .endInString .endInString
  | c :: rest =>
    if c = '"' then .closed (.ok []) rest
    else if c = '\\' then
      match _h : escape rest with
      | .char d t => (scanString t).cons d
      | .half fault t => (scanString t).spoil fault
      | .wrong fault => .broken fault fault
    else if c < ' ' then .broken .controlCharacter .controlCharacter
    else (scanString rest).cons c
termination_by s => s.length
decreasing_by
  · have := escape_length rest; rw [_h] at this
    simp only [Escape.rest, List.length_cons] at *; omega
  · have := escape_length rest; rw [_h] at this
    simp only [Escape.rest, List.length_cons] at *; omega
  · simp

def StringScan.rest : StringScan → List Char
  | .closed _ rest => rest
  | .broken _ _ => []

@[simp] theorem StringScan.rest_cons (c : Char) (s : StringScan) : (s.cons c).rest = s.rest := by
  cases s <;> rfl

@[simp] theorem StringScan.rest_spoil (f : Fault) (s : StringScan) :
    (s.spoil f).rest = s.rest := by
  cases s <;> rfl

theorem scanString_length (s : List Char) : (scanString s).rest.length ≤ s.length := by
  fun_induction scanString s with
  | case1 => simp [StringScan.rest]
  | case2 => simp [StringScan.rest]
  | case3 rest d t h _ ih =>
    have := escape_length rest; rw [h] at this
    simp only [StringScan.rest_cons, Escape.rest, List.length_cons] at *; omega
  | case4 rest f t h _ ih =>
    have := escape_length rest; rw [h] at this
    simp only [StringScan.rest_spoil, Escape.rest, List.length_cons] at *; omega
  | case5 => simp [StringScan.rest]
  | case6 => simp [StringScan.rest]
  | case7 c rest hq hb hc ih => simp only [StringScan.rest_cons, List.length_cons]; omega

end RuleClasses.Json
