import RuleClasses.Text.WordChar

/-! Identifiers made from any text. -/

namespace RuleClasses.Text

def wordOrUnderscore (c : Char) : Char := if isWordChar c then c else '_'

/-- Every character that is no word character becomes an underscore, and an
underscore goes in front of an ASCII digit. No text becomes one underscore. -/
def wordChars (s : List Char) : List Char :=
  match s.map wordOrUnderscore with
  | [] => ['_']
  | c :: rest => if c.isDigit then '_' :: c :: rest else c :: rest

/-- An identifier that is no keyword: a keyword gets an underscore behind it. The
empty text is never one. -/
def identifier (isKeyword : String → Bool) (name : String) : String :=
  let word := String.ofList (wordChars name.toList)
  if name ≠ "" ∧ isKeyword word then word.push '_' else word

theorem isWordChar_wordOrUnderscore (c : Char) : isWordChar (wordOrUnderscore c) = true := by
  unfold wordOrUnderscore
  split
  · assumption
  · decide

theorem isWordChar_of_mem_wordChars {s : List Char} {c : Char} (h : c ∈ wordChars s) :
    isWordChar c = true := by
  have hunderscore : isWordChar '_' = true := by decide
  have hmap : ∀ d ∈ s.map wordOrUnderscore, isWordChar d = true := by
    intro d hd
    obtain ⟨e, -, rfl⟩ := List.mem_map.mp hd
    exact isWordChar_wordOrUnderscore e
  unfold wordChars at h
  split at h
  · rwa [List.mem_singleton.mp h]
  · rename_i hs
    rw [hs] at hmap
    split at h
    · rcases List.mem_cons.mp h with rfl | h
      · exact hunderscore
      · exact hmap c h
    · exact hmap c h

theorem isWordChar_of_mem_identifier {isKeyword : String → Bool} {name : String} {c : Char}
    (h : c ∈ (identifier isKeyword name).toList) : isWordChar c = true := by
  unfold identifier at h
  simp only at h
  split at h
  · rcases (by simpa using h : c ∈ wordChars name.toList ∨ c = '_') with h | rfl
    · exact isWordChar_of_mem_wordChars h
    · decide
  · exact isWordChar_of_mem_wordChars (by simpa using h)

theorem notMem_identifier {c : Char} (h : isWordChar c = false) (isKeyword : String → Bool)
    (name : String) : c ∉ (identifier isKeyword name).toList := by
  intro hmem
  rw [isWordChar_of_mem_identifier hmem] at h
  cases h

end RuleClasses.Text
