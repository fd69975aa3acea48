import RuleClasses.Text.Separated
import RuleClasses.Text.Blank

/-! Paths as they are written, with a slash between their parts. -/

namespace RuleClasses.Files.Path

def isAbsolute (p : String) : Bool := p.toList.head? = some '/'

def endsInSlash (p : String) : Bool := p.toList.getLast? = some '/'

/-- The parts that are not empty. -/
def parts (p : String) : List String :=
  ((Text.splitOnChar '/' p.toList).map String.ofList).filter (· ≠ "")

/-- A name in a directory. One that begins at the root does not need the directory. -/
def join (base name : String) : String :=
  if base = "" ∨ isAbsolute name then name
  else if endsInSlash base then base ++ name else base ++ "/" ++ name

/-- Only dots, so that the path is where one stands. -/
def isHere (p : String) : Bool :=
  !isAbsolute p && !(parts p).isEmpty && (parts p).all (· = ".")

/-! ## The directory around a path -/

/-- A path read from its end, without slashes and parts `.` that add nothing; a
slash or a dot at the very front stays. -/
def trimEnd : List Char → List Char
  | ['/'] => ['/']
  | '/' :: rest => trimEnd rest
  | '.' :: '/' :: rest => trimEnd ('/' :: rest)
  | s => s

theorem length_trimEnd_le (s : List Char) : (trimEnd s).length ≤ s.length := by
  fun_induction trimEnd s with
  | case1 => simp
  | case2 _ _ ih => simp only [List.length_cons] at *; omega
  | case3 _ ih => simp only [List.length_cons] at *; omega
  | case4 => exact Nat.le_refl _

/-- What is left of a path, read from its end, is no slash unless it is the
root. -/
theorem trimEnd_head {s rest : List Char} (h : trimEnd s = '/' :: rest) : rest = [] := by
  fun_induction trimEnd s with
  | case1 => cases h; rfl
  | case2 _ _ ih => exact ih h
  | case3 _ ih => exact ih h
  | case4 s h1 h2 _ =>
    subst h
    match rest with
    | [] => rfl
    | _ :: _ => exact absurd rfl (h2 _)

/-- Without the last part, read from the end. -/
def dropPart (s : List Char) : List Char := trimEnd (s.dropWhile (· ≠ '/'))

/-- The path of the directory that holds the last part. The root and the empty
path have none. -/
def parent? (p : String) : Option String :=
  match trimEnd p.toList.reverse with
  | [] | ['/'] => none
  | s => some (String.ofList (dropPart s).reverse)

theorem length_dropPart_lt {s : List Char} (hs : s ≠ []) (hh : s.head? ≠ some '/') :
    (dropPart s).length < s.length := by
  match s with
  | [] => exact absurd rfl hs
  | c :: rest =>
    have hc : c ≠ '/' := fun h => hh (by simp [h])
    refine Nat.lt_of_le_of_lt (length_trimEnd_le _) ?_
    have := (List.dropWhile_sublist (p := (· ≠ '/')) (l := rest)).length_le
    simp only [List.dropWhile_cons, hc, ne_eq, not_false_eq_true, decide_true, if_true,
      List.length_cons]
    simp only [ne_eq] at this
    omega

theorem length_parent?_lt {p q : String} (h : parent? p = some q) :
    q.toList.length < p.toList.length := by
  unfold parent? at h
  split at h
  · cases h
  · cases h
  · rename_i s h1 h2
    cases h
    have hl := length_trimEnd_le p.toList.reverse
    have := length_dropPart_lt (s := trimEnd p.toList.reverse) (fun e => h1 e) (fun e => by
      match ht : trimEnd p.toList.reverse with
      | [] => simp [ht] at e
      | c :: rest =>
        rw [ht] at e
        have hc : c = '/' := by simpa using e
        subst hc
        rw [trimEnd_head ht] at ht
        exact h2 ht)
    simp only [String.toList_ofList, List.length_reverse] at *
    omega

end RuleClasses.Files.Path
