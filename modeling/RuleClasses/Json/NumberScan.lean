import RuleClasses.Json.Number

/-! Numbers of a JSON text: the parts of a number, and the text behind it. -/

namespace RuleClasses.Json

inductive NumberScan where
  | closed (parts : NumberParts) (rest : List Char)
  /-- Digits are missing where the text ends (`true`) or goes on with something
  else. -/
  | broken (atEnd : Bool)

/-- Digits that must be there, and the text behind them. -/
def someDigits (s : List Char) : Except Bool (List Char × List Char) :=
  match s.takeWhile Char.isDigit with
  | [] => .error s.isEmpty
  | digits => .ok (digits, s.dropWhile Char.isDigit)

/-- The digits in front of a point. A zero stands alone. -/
def wholeDigits (s : List Char) : Except Bool (List Char × List Char) :=
  match someDigits s with
  | .ok ('0' :: _ :: _, _) => .error false
  | other => other

def fractionDigits : List Char → Except Bool (Option (List Char) × List Char)
  | '.' :: s => (someDigits s).map fun d => (some d.1, d.2)
  | s => .ok (none, s)

def exponentDigits : List Char → Except Bool (Option (Bool × List Char) × List Char)
  | c :: s =>
    if c = 'e' ∨ c = 'E' then
      match s with
      | '-' :: t => (someDigits t).map fun d => (some (true, d.1), d.2)
      | '+' :: t => (someDigits t).map fun d => (some (false, d.1), d.2)
      | t => (someDigits t).map fun d => (some (false, d.1), d.2)
    else .ok (none, c :: s)
  | [] => .ok (none, [])

/-- A number, behind its sign. -/
def scanNumber (negative : Bool) (s : List Char) : NumberScan :=
  let found : Except Bool (NumberParts × List Char) := do
    let (whole, s) ← wholeDigits s
    let (fraction, s) ← fractionDigits s
    let (exponent, s) ← exponentDigits s
    return (⟨negative, whole, fraction, exponent⟩, s)
  match found with
  | .ok (parts, rest) => .closed parts rest
  | .error atEnd => .broken atEnd

theorem someDigits_length {s rest digits : List Char} (h : someDigits s = .ok (digits, rest)) :
    rest.length < s.length := by
  unfold someDigits at h
  split at h
  · cases h
  · rename_i hd
    cases h
    match s with
    | [] => simp at hd
    | c :: t =>
      by_cases hc : c.isDigit
      · have := (List.dropWhile_sublist (p := Char.isDigit) (l := t)).length_le
        simp only [List.dropWhile_cons, hc, if_true, List.length_cons]; omega
      · simp [hc] at hd

theorem wholeDigits_length {s rest digits : List Char} (h : wholeDigits s = .ok (digits, rest)) :
    rest.length < s.length := by
  unfold wholeDigits at h
  split at h
  · cases h
  · exact someDigits_length h

theorem someDigits_map_length {α : Type} (f : List Char → α) {s rest : List Char} {a : α}
    (h : (someDigits s).map (fun d => (f d.1, d.2)) = .ok (a, rest)) :
    rest.length < s.length := by
  match hs : someDigits s with
  | .error _ => simp [hs, Except.map] at h
  | .ok (digits, t) =>
    simp only [hs, Except.map, Except.ok.injEq, Prod.mk.injEq] at h
    exact h.2 ▸ someDigits_length hs

theorem fractionDigits_length {s rest : List Char} {f : Option (List Char)}
    (h : fractionDigits s = .ok (f, rest)) : rest.length ≤ s.length := by
  unfold fractionDigits at h
  split at h
  · have := someDigits_map_length some h
    simp only [List.length_cons]; omega
  · cases h; exact Nat.le_refl _

theorem exponentDigits_length {s rest : List Char} {e : Option (Bool × List Char)}
    (h : exponentDigits s = .ok (e, rest)) : rest.length ≤ s.length := by
  unfold exponentDigits at h
  split at h
  · split at h
    · split at h
      · have := someDigits_map_length (fun d => some (true, d)) h
        simp only [List.length_cons]; omega
      · have := someDigits_map_length (fun d => some (false, d)) h
        simp only [List.length_cons]; omega
      · have := someDigits_map_length (fun d => some (false, d)) h
        simp only [List.length_cons]; omega
    · cases h; exact Nat.le_refl _
  · cases h; exact Nat.le_refl _

def NumberScan.rest : NumberScan → List Char
  | .closed _ rest => rest
  | .broken _ => []

theorem scanNumber_length (negative : Bool) (c : Char) (s : List Char) :
    (scanNumber negative (c :: s)).rest.length ≤ s.length := by
  unfold scanNumber
  cases hw : wholeDigits (c :: s) with
  | error _ => simp [bind, Except.bind, NumberScan.rest]
  | ok w =>
    cases hf : fractionDigits w.2 with
    | error _ => simp [bind, Except.bind, hf, NumberScan.rest]
    | ok f =>
      cases he : exponentDigits f.2 with
      | error _ => simp [bind, Except.bind, hf, he, NumberScan.rest]
      | ok e =>
        have hw := wholeDigits_length hw
        have := fractionDigits_length hf
        have := exponentDigits_length he
        simp only [bind, Except.bind, hf, he, pure, Except.pure, NumberScan.rest]
        simp only [List.length_cons] at hw
        omega

end RuleClasses.Json
