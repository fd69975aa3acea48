/-! Patterns for file names. A question mark stands for any character, a star for
any text, and brackets for one character of a set, or of none of it when the set
begins with an exclamation mark. Two stars that fill a whole part of a path stand
for directories at any depth. -/

namespace RuleClasses.Files

inductive CharSet where
  | single (c : Char)
  | range (first last : Char)
  deriving DecidableEq, Repr

def CharSet.contains : CharSet → Char → Bool
  | .single d, c => c = d
  | .range first last, c => first ≤ c && c ≤ last

inductive Wildcard where
  | char (c : Char)
  | anyChar
  | anyText
  /-- Directories at any depth. -/
  | anyDepth
  | oneOf (sets : List CharSet)
  | noneOf (sets : List CharSet)
  deriving DecidableEq, Repr

abbrev Pattern := List Wildcard

inductive PatternFault where
  | tooManyStars
  | partOfComponent
  | invalidRange
  deriving DecidableEq, Repr

/-- A fault at a position, which counts characters. -/
structure PatternError where
  position : Nat
  fault : PatternFault
  deriving DecidableEq, Repr

def PatternFault.message : PatternFault → String
  | .tooManyStars => "wildcards are either regular `*` or recursive `**`"
  | .partOfComponent => "recursive wildcards must form a single path component"
  | .invalidRange => "invalid range pattern"

def PatternError.message (e : PatternError) : String :=
  "Pattern syntax error near position " ++ toString e.position ++ ": " ++ e.fault.message

namespace Pattern

/-- The sets between two brackets. A dash between two characters makes a range. -/
def charSets : List Char → List CharSet
  | a :: '-' :: b :: rest => .range a b :: charSets rest
  | a :: rest => .single a :: charSets rest
  | [] => []

/-- The text of a bracket and what follows it. The first character belongs to the
text even if it is a closing bracket. -/
def bracket? : List Char → Option (List Char × List Char)
  | [] => none
  | c :: rest =>
    match rest.dropWhile (· ≠ ']') with
    | [] => none
    | _ :: behind => some (c :: rest.takeWhile (· ≠ ']'), behind)

theorem length_bracket? {s inside behind : List Char} (h : bracket? s = some (inside, behind)) :
    behind.length < s.length := by
  unfold bracket? at h
  split at h
  · cases h
  · rename_i c rest
    split at h
    · cases h
    · rename_i d behind' hd
      cases h
      have := (List.dropWhile_sublist (p := (· ≠ ']')) (l := rest)).length_le
      rw [hd] at this
      simp only [List.length_cons] at *
      omega

/-- The wildcards of a pattern, from a position on; `before` is the character in
front of it. -/
def parseFrom (position : Nat) (before : Option Char) :
    List Char → Except PatternError Pattern
  | [] => .ok []
  | '?' :: rest => (parseFrom (position + 1) (some '?') rest).map (.anyChar :: ·)
  | '*' :: '*' :: '*' :: _ => .error ⟨position + 2, .tooManyStars⟩
  | '*' :: '*' :: rest =>
    if before ≠ none ∧ before ≠ some '/' then .error ⟨position - 1, .partOfComponent⟩
    else match rest with
      | [] => .ok [.anyDepth]
      | '/' :: rest => (parseFrom (position + 3) (some '/') rest).map (.anyDepth :: ·)
      | _ => .error ⟨position + 2, .partOfComponent⟩
  | '*' :: rest => (parseFrom (position + 1) (some '*') rest).map (.anyText :: ·)
  | '[' :: '!' :: rest =>
    match _h : bracket? rest with
    | some (inside, behind) =>
      (parseFrom (position + inside.length + 3) (some ']') behind).map
        (.noneOf (charSets inside) :: ·)
    | none => .error ⟨position, .invalidRange⟩
  | '[' :: rest =>
    match _h : bracket? rest with
    | some (inside, behind) =>
      (parseFrom (position + inside.length + 2) (some ']') behind).map
        (.oneOf (charSets inside) :: ·)
    | none => .error ⟨position, .invalidRange⟩
  | c :: rest => (parseFrom (position + 1) (some c) rest).map (.char c :: ·)
termination_by s => s.length
decreasing_by
  · simp
  · simp only [List.length_cons]; omega
  · simp
  · have := length_bracket? _h
    simp only [List.length_cons]; omega
  · have := length_bracket? _h
    simp only [List.length_cons]; omega
  · simp

def parse (s : String) : Except PatternError Pattern := parseFrom 0 none s.toList

/-- The text that a pattern without wildcards stands for. -/
def literal? : Pattern → Option (List Char)
  | [] => some []
  | .char c :: rest => (literal? rest).map (c :: ·)
  | _ :: _ => none

/-- Whether each tail of a text matches, the whole text first and the empty text
last. -/
abbrev Tails := List Bool

/-- Any text in front: a tail matches when it or a shorter one did. -/
def anyTextBefore : Tails → Tails
  | [] => []
  | found :: rest =>
    let shorter := anyTextBefore rest
    (found || shorter.headD false) :: shorter

/-- One character in front: a tail matches when its first character is accepted and
the next tail did. -/
def oneCharBefore (accepts : Char → Bool) : List Char → Tails → Tails
  | c :: s, _ :: shorter =>
    (accepts c && shorter.headD false) :: oneCharBefore accepts s shorter
  | _, _ => [false]

def before (s : List Char) (w : Wildcard) (found : Tails) : Tails :=
  match w with
  | .anyText | .anyDepth => anyTextBefore found
  | .char d => oneCharBefore (· = d) s found
  | .anyChar => oneCharBefore (fun _ => true) s found
  | .oneOf sets => oneCharBefore (fun c => sets.any (·.contains c)) s found
  | .noneOf sets => oneCharBefore (fun c => !sets.any (·.contains c)) s found

/-- Without wildcards only the empty text matches. -/
def onlyEmpty : List Char → Tails
  | [] => [true]
  | _ :: s => false :: onlyEmpty s

/-- The tails of a text that match. The wildcards are taken from the last one on,
and each goes along the text once, so that many stars take no longer than they
are many. -/
def matchedTails (p : Pattern) (s : List Char) : Tails := p.foldr (before s) (onlyEmpty s)

def isMatch (p : Pattern) (name : String) : Bool :=
  (matchedTails p name.toList).headD false

end Pattern

end RuleClasses.Files
