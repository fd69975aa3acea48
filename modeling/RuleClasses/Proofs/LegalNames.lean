import RuleClasses.Proofs.Identifiers
import RuleClasses.Text.Letter
import Mathlib.Dynamics.FixedPoints.Basic

/-! Names that can be written in a target. Making a name safe takes all texts to the
identifiers and leaves these alone. An identifier is a legal name of the target unless it
starts with a word character that is neither a letter nor an underscore. For Rust one
underscore alone is none either. -/

namespace RuleClasses

namespace Text

variable {isKeyword : String → Bool}

theorem wordChars_cons (c : Char) (rest : List Char) : wordChars (c :: rest) =
    if (wordOrUnderscore c).isDigit then '_' :: (c :: rest).map wordOrUnderscore
    else (c :: rest).map wordOrUnderscore := rfl

/-! ## How long an identifier is -/

/-- Nothing is put in front of a word that starts with no underscore. -/
theorem length_wordChars {l : List Char} (h : (wordChars l).head? ≠ some '_') :
    (wordChars l).length = l.length := by
  cases l with
  | nil => exact absurd rfl h
  | cons c rest =>
    rw [wordChars_cons] at h ⊢
    split at h
    · exact absurd rfl h
    · rename_i hdigit
      rw [if_neg hdigit, List.length_map]

theorem length_wordChars_le (l : List Char) : (wordChars l).length ≤ l.length + 1 := by
  cases l with
  | nil => exact Nat.le_refl 1
  | cons c rest =>
    rw [wordChars_cons]
    split
    · rw [List.length_cons, List.length_map]
    · rw [List.length_map]
      exact Nat.le_succ _

/-- One character at most is added: an underscore goes behind keywords only, and none of them
starts with an underscore that came in front. -/
theorem length_identifier_le
    (h : ∀ w : String, isKeyword w = true → w.toList.head? ≠ some '_') (name : String) :
    (identifier isKeyword name).length ≤ name.length + 1 := by
  rw [← String.length_toList, ← String.length_toList, toList_identifier, List.length_append]
  split
  · rename_i hkeyword
    have hfirst := h _ hkeyword.2
    rw [String.toList_ofList] at hfirst
    rw [length_wordChars hfirst, List.length_singleton]
  · exact length_wordChars_le name.toList

/-! ## The first character -/

/-- The first character of a name if it is the first one of the identifier too. It is not when
it is no word character, or an ASCII digit; then an underscore is. -/
def front? (name : String) : Option Char :=
  name.toList.head?.filter fun c => isWordChar c && !c.isDigit

theorem head?_identifier (isKeyword : String → Bool) (name : String) :
    (identifier isKeyword name).toList.head? = some ((front? name).getD '_') := by
  rw [toList_identifier, List.head?_append_of_ne_nil _ (wordChars_ne_nil _), front?]
  cases name.toList with
  | nil => rfl
  | cons c rest =>
    rw [wordChars_cons, List.map_cons, List.head?_cons, Option.filter_some]
    cases hword : isWordChar c with
    | false => simp [wordOrUnderscore, hword]
    | true => cases hdigit : c.isDigit <;> simp [wordOrUnderscore, hword, hdigit]

/-! ## One underscore -/

/-- Nothing of the name can be written: it has no characters, or one that is an underscore or
becomes one. -/
def IsBare (name : String) : Prop :=
  name.length ≤ 1 ∧ ∀ c ∈ name.toList, c = '_' ∨ isWordChar c = false

theorem wordOrUnderscore_eq_underscore {c : Char} :
    wordOrUnderscore c = '_' ↔ c = '_' ∨ isWordChar c = false := by
  unfold wordOrUnderscore
  cases hword : isWordChar c <;> simp

theorem wordChars_eq_underscore {l : List Char} :
    wordChars l = ['_'] ↔ l.length ≤ 1 ∧ ∀ c ∈ l, c = '_' ∨ isWordChar c = false := by
  cases l with
  | nil => exact iff_of_true rfl ⟨Nat.zero_le 1, List.forall_mem_nil _⟩
  | cons c rest =>
    simp only [← wordOrUnderscore_eq_underscore, wordChars_cons, List.map_cons]
    split
    · rename_i hdigit
      refine iff_of_false (by simp) fun h => ?_
      rw [h.2 c List.mem_cons_self] at hdigit
      exact absurd hdigit (by decide)
    · cases rest <;> simp

theorem identifier_eq_underscore (h : isKeyword "_" = false) (name : String) :
    identifier isKeyword name = "_" ↔ IsBare name := by
  rw [IsBare, ← String.length_toList, ← wordChars_eq_underscore, ← String.toList_inj,
    toList_identifier]
  constructor
  · intro hid
    rcases List.append_eq_singleton_iff.mp hid with ⟨hnil, -⟩ | ⟨hword, -⟩
    · exact absurd hnil (wordChars_ne_nil _)
    · exact hword
  · intro hword
    have hfree : isKeyword (String.ofList (wordChars name.toList)) = false := by
      rw [hword]
      exact h
    rw [if_neg (by simp [hfree]), hword]
    rfl

end Text

open Text (IsIdentifier IsWord isLetter isWordChar front? IsBare)

namespace Target

/-! ## Identifiers as normal forms -/

/-- The keywords of a target, and none where there is no target. -/
def keywordsOf (t : Option Target) : String → Bool := t.elim (fun _ => false) isKeyword

theorem head?_of_isKeyword {t : Target} {w : String} (h : t.isKeyword w = true) :
    w.toList.head? ≠ some '_' := by
  have hfirst : ∀ k ∈ t.keywords, k.toList.head? ≠ some '_' := by
    cases t <;> decide
  exact hfirst w (List.contains_iff_mem.mp h)

theorem keywordsOf_push (t : Option Target) (w : String) : keywordsOf t (w.push '_') = false := by
  cases t with
  | none => rfl
  | some t => exact t.isKeyword_push w

theorem head?_of_keywordsOf {t : Option Target} {w : String} (h : keywordsOf t w = true) :
    w.toList.head? ≠ some '_' := by
  cases t with
  | none => cases h
  | some t => exact head?_of_isKeyword h

/-- **Making names safe is a projection.** For the keywords of each target, and for none, it
takes every text to an identifier and leaves exactly the identifiers as they are. So it does
nothing when it is done again, its results are its fixed points, and a text gets longer by one
character at most. -/
theorem identifier_projects (t : Option Target) :
    (∀ name, IsIdentifier (keywordsOf t) (Text.identifier (keywordsOf t) name)) ∧
    (∀ name, IsIdentifier (keywordsOf t) name ↔ Text.identifier (keywordsOf t) name = name) ∧
    (∀ name, Text.identifier (keywordsOf t) (Text.identifier (keywordsOf t) name) =
      Text.identifier (keywordsOf t) name) ∧
    Set.range (Text.identifier (keywordsOf t)) =
      Function.fixedPoints (Text.identifier (keywordsOf t)) ∧
    ∀ name, (Text.identifier (keywordsOf t) name).length ≤ name.length + 1 := by
  have hident : ∀ name, IsIdentifier (keywordsOf t) (Text.identifier (keywordsOf t) name) :=
    Text.isIdentifier_identifier (keywordsOf_push t)
  refine ⟨hident, fun name => ⟨IsIdentifier.identifier_eq, fun h => h ▸ hident name⟩,
    fun name => (hident name).identifier_eq, ?_,
    Text.length_identifier_le fun _ => head?_of_keywordsOf⟩
  ext s
  constructor
  · rintro ⟨name, rfl⟩
    exact (hident name).identifier_eq
  · intro hfixed
    exact ⟨s, hfixed⟩

/-! ## Legal names -/

/-- The text is a name in the target: a letter or an underscore and word characters behind it,
but no keyword. In Rust one underscore alone is no name. -/
structure IsLegal (t : Target) (s : String) : Prop where
  start : ∃ c ∈ s.toList.head?, isLetter c = true ∨ c = '_'
  word : IsWord s
  free : t.isKeyword s = false
  named : t = .rust → s ≠ "_"

theorem not_isLegal {t : Target} {s : String} {c : Char} (hc : s.toList.head? = some c)
    (hletter : isLetter c = false) (hne : c ≠ '_') : ¬ t.IsLegal s := by
  intro h
  obtain ⟨d, hd, hstart⟩ := h.start
  obtain rfl : c = d := Option.some.inj (hc.symm.trans hd)
  simp [hletter, hne] at hstart

/-- **A name that was made safe is legal exactly if** the character that it keeps in front, when
it keeps one, is a letter or an underscore, and for Rust more is left of it than an underscore.
It is an identifier in any case. -/
theorem isLegal_identifier_iff (t : Target) (name : String) :
    IsIdentifier t.isKeyword (t.identifier name) ∧
    (t.IsLegal (t.identifier name) ↔
      (∀ c ∈ front? name, isLetter c = true ∨ c = '_') ∧ (t = .rust → ¬ IsBare name)) := by
  have hident := t.isIdentifier_identifier name
  have hhead : (t.identifier name).toList.head? = some ((front? name).getD '_') :=
    Text.head?_identifier t.isKeyword name
  have hbare : t.identifier name = "_" ↔ IsBare name :=
    Text.identifier_eq_underscore (t.isKeyword_push "") name
  refine ⟨hident, ?_⟩
  constructor
  · intro hlegal
    obtain ⟨c, hc, hstart⟩ := hlegal.start
    rw [hhead, Option.mem_some] at hc
    refine ⟨fun d hd => ?_, fun hrust => mt hbare.mpr (hlegal.named hrust)⟩
    rw [Option.mem_def.mp hd, Option.getD_some] at hc
    exact hc ▸ hstart
  · rintro ⟨hfront, hnamed⟩
    refine ⟨⟨_, hhead, ?_⟩, hident.word, hident.free, fun hrust => mt hbare.mp (hnamed hrust)⟩
    cases hc : front? name with
    | none => exact .inr rfl
    | some c => exact hfront c hc

/-- A digit of another script, a mark or a joiner stays in front of a name. No name, or one dash,
becomes one underscore. -/
theorem illegal_identifiers :
    (Text.isDecimalDigit '\u0663' = true ∧ python.identifier "\u0663x" = "\u0663x" ∧
      ¬ python.IsLegal (python.identifier "\u0663x")) ∧
    (Text.isMark '\u0301' = true ∧ rust.identifier "\u0301x" = "\u0301x" ∧
      ¬ rust.IsLegal (rust.identifier "\u0301x")) ∧
    (Text.isJoiner '\u200d' = true ∧ python.identifier "\u200dx" = "\u200dx" ∧
      ¬ python.IsLegal (python.identifier "\u200dx")) ∧
    rust.identifier "" = "_" ∧ rust.identifier "-" = "_" ∧ ¬ rust.IsLegal "_" := by
  have hdigit : Text.isDecimalDigit '\u0663' = true := by decide +kernel
  have hmark : Text.isMark '\u0301' = true := by decide +kernel
  have hjoiner : Text.isJoiner '\u200d' = true := by decide +kernel
  have hdigitKept : python.identifier "\u0663x" = "\u0663x" := by decide +kernel
  have hmarkKept : rust.identifier "\u0301x" = "\u0301x" := by decide +kernel
  have hjoinerKept : python.identifier "\u200dx" = "\u200dx" := by decide +kernel
  have hdash : rust.identifier "-" = "_" := by decide +kernel
  refine ⟨⟨hdigit, hdigitKept, ?_⟩, ⟨hmark, hmarkKept, ?_⟩, ⟨hjoiner, hjoinerKept, ?_⟩, rfl, hdash,
    fun h => h.named rfl rfl⟩
  · rw [hdigitKept]
    exact not_isLegal (c := '\u0663') rfl (by simp [isLetter, hdigit]) (by decide)
  · rw [hmarkKept]
    exact not_isLegal (c := '\u0301') rfl (by simp [isLetter, hmark]) (by decide)
  · rw [hjoinerKept]
    exact not_isLegal (c := '\u200d') rfl (by simp [isLetter, hjoiner]) (by decide)

end Target

end RuleClasses
