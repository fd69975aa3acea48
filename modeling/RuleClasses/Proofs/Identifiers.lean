import RuleClasses.Proofs.Bindings
import RuleClasses.Proofs.Declarations
import RuleClasses.Proofs.Rows

/-! Identifiers. The texts that a target makes out of names are those that it leaves as
they are, so it does not matter how often a name is made safe. All names that a plan takes
from its grammar are such texts. -/

namespace RuleClasses

namespace Text

/-- A word that is no keyword and does not start with an ASCII digit. -/
structure IsIdentifier (isKeyword : String → Bool) (s : String) : Prop where
  nonempty : s ≠ ""
  word : IsWord s
  start : ∀ c ∈ s.toList.head?, c.isDigit = false
  free : isKeyword s = false

variable {isKeyword : String → Bool} {s : String}

/-! ## Texts that stay as they are -/

theorem map_wordOrUnderscore {l : List Char} (h : ∀ c ∈ l, isWordChar c = true) :
    l.map wordOrUnderscore = l := by
  refine (List.map_congr_left fun c hc => ?_).trans (List.map_id l)
  exact if_pos (h c hc)

theorem wordChars_eq_self {l : List Char} (hne : l ≠ []) (hword : ∀ c ∈ l, isWordChar c = true)
    (hstart : ∀ c ∈ l.head?, c.isDigit = false) : wordChars l = l := by
  rw [wordChars, map_wordOrUnderscore hword]
  cases l with
  | nil => exact absurd rfl hne
  | cons c rest => simp [hstart c rfl]

theorem IsIdentifier.identifier_eq (h : IsIdentifier isKeyword s) : identifier isKeyword s = s := by
  have hne : s.toList ≠ [] := mt String.toList_eq_nil_iff.mp h.nonempty
  have hword : String.ofList (wordChars s.toList) = s := by
    rw [wordChars_eq_self hne (fun _ => h.word.isWordChar) h.start, String.ofList_toList]
  simp [identifier, hword, h.free]

/-! ## What is made of any text -/

theorem wordChars_ne_nil (l : List Char) : wordChars l ≠ [] := by
  unfold wordChars
  split
  · exact List.cons_ne_nil _ _
  · split <;> exact List.cons_ne_nil _ _

theorem isDigit_of_mem_head?_wordChars {l : List Char} {c : Char} (h : c ∈ (wordChars l).head?) :
    c.isDigit = false := by
  unfold wordChars at h
  split at h
  · obtain rfl : '_' = c := Option.some.inj h
    rfl
  · rename_i d rest _
    split at h
    · obtain rfl : '_' = c := Option.some.inj h
      rfl
    · rename_i hdigit
      obtain rfl : d = c := Option.some.inj h
      simpa using hdigit

/-- An underscore behind a keyword is all that comes after the word. -/
theorem toList_identifier (isKeyword : String → Bool) (name : String) :
    (identifier isKeyword name).toList = wordChars name.toList ++
      if name ≠ "" ∧ isKeyword (String.ofList (wordChars name.toList)) then ['_'] else [] := by
  unfold identifier
  simp only
  split
  · rw [String.toList_push, String.toList_ofList]
  · rw [String.toList_ofList, List.append_nil]

theorem isKeyword_identifier (h : ∀ w : String, isKeyword (w.push '_') = false) (name : String) :
    isKeyword (identifier isKeyword name) = false := by
  unfold identifier
  simp only
  split
  · exact h _
  · rename_i hfree
    by_cases hname : name = ""
    · subst hname
      exact h ""
    · simpa [hname] using hfree

/-- A text becomes an identifier, since none of the keywords ends with the underscore that
makes another name of a keyword. -/
theorem isIdentifier_identifier (h : ∀ w : String, isKeyword (w.push '_') = false)
    (name : String) : IsIdentifier isKeyword (identifier isKeyword name) := by
  have hne := wordChars_ne_nil name.toList
  refine ⟨?_, List.all_eq_true.mpr fun _ => isWordChar_of_mem_identifier, fun c hc => ?_,
    isKeyword_identifier h name⟩
  · intro hempty
    have hchars := toList_identifier isKeyword name
    rw [hempty] at hchars
    exact hne (List.append_eq_nil_iff.mp hchars.symm).1
  · rw [toList_identifier, List.head?_append_of_ne_nil _ hne] at hc
    exact isDigit_of_mem_head?_wordChars hc

end Text

open Text (IsIdentifier)

/-! ## Identifiers of a target -/

namespace Target

theorem isKeyword_push (t : Target) (w : String) : t.isKeyword (w.push '_') = false := by
  have hlast : ∀ k ∈ t.keywords, k.toList.getLast? ≠ some '_' := by
    cases t <;> decide
  rw [← Bool.not_eq_true]
  intro h
  refine hlast _ (List.contains_iff_mem.mp h) ?_
  rw [String.toList_push, List.getLast?_append_of_ne_nil _ (List.cons_ne_nil _ _)]
  rfl

theorem isIdentifier_identifier (t : Target) (name : String) :
    IsIdentifier t.isKeyword (t.identifier name) :=
  Text.isIdentifier_identifier t.isKeyword_push name

/-- The identifiers are the texts that a target leaves as they are. -/
theorem isIdentifier_iff {t : Target} {s : String} :
    IsIdentifier t.isKeyword s ↔ t.identifier s = s := by
  constructor
  · exact IsIdentifier.identifier_eq
  · intro h
    exact h ▸ t.isIdentifier_identifier s

end Target

theorem isIdentifier_modelBase (t : Target) : IsIdentifier t.isKeyword modelBase := by
  rw [Target.isIdentifier_iff]
  cases t <;> rfl

theorem isIdentifier_of_isClass {t : Target} {g : Grammar} {n : String}
    (h : IsClass (g.classRules t.identifier) n) : IsIdentifier t.isKeyword n := by
  rcases exists_safe_of_isClass h with rfl | ⟨s, rfl⟩
  · exact isIdentifier_modelBase t
  · exact t.isIdentifier_identifier s

theorem isIdentifier_of_mem_attributes {t : Target} {r : Rule} {a : String}
    (h : a ∈ r.attributes t.identifier) : IsIdentifier t.isKeyword a := by
  obtain ⟨s, -, rfl⟩ := Rule.mem_attributes.mp h
  exact t.isIdentifier_identifier s

/-! ## Names in a plan -/

/-- The names that a plan takes from its grammar. The base of the class above all chains is
none of them, since it is the root type. -/
inductive Plan.HasName (p : Plan) : String → Prop where
  | ofClass {d : Decl} : d ∈ p.decls → HasName p d.name
  | ofBase {d : Decl} {b : String} : d ∈ p.decls → d.name ≠ modelBase → d.base? = some b →
      HasName p b
  | ofAttribute {d : Decl} {a : String} : d ∈ p.decls → a ∈ d.attributes → HasName p a

namespace Plan

variable {o : Options} {g : Grammar} {p : Plan}

namespace Made

variable {order : List String} {rules : List ClassRule}

/-- The attributes of a class are those of a rule, if it has any. -/
theorem attributes_of_mem (h : Made o rules order p) {d : Decl} (hd : d ∈ p.decls) :
    d.attributes = [] ∨ ∃ r : Rule, d.attributes = r.attributes o.target.identifier := by
  rw [h.decls] at hd
  obtain ⟨n, -, rfl⟩ := List.mem_map.mp hd
  unfold declare
  split
  · rename_i c _
    exact .inr ⟨c.rule, rfl⟩
  · exact .inl rfl

end Made

/-- The name of a class, of a base or of an attribute can be written in the target. -/
theorem HasName.isIdentifier (h : ofGrammar o g = .ok p) {n : String} (hn : p.HasName n) :
    IsIdentifier o.target.isKeyword n := by
  obtain ⟨order, hm⟩ := made_of_ofGrammar h
  have hc := chained_classRules o.target.identifier g
  cases hn with
  | ofClass hd =>
    exact isIdentifier_of_isClass ((hm.mem_classNames hc _).mp (List.mem_map_of_mem hd)).1
  | ofBase hd hne hb =>
    obtain ⟨b, hb', hroot | he⟩ := hm.base_of_mem hc hd
    · exact absurd hroot.1 hne
    · obtain rfl := Option.some.inj (hb'.symm.trans hb)
      exact isIdentifier_of_isClass (hc.isClass_base he)
  | ofAttribute hd ha =>
    rcases hm.attributes_of_mem hd with he | ⟨r, he⟩
    · exact absurd (he ▸ ha) List.not_mem_nil
    · exact isIdentifier_of_mem_attributes (he ▸ ha)

/-- **Only safe names are in a plan.** Each is an identifier, which stays the same when it is
made safe again, and no class has a name that means something already. -/
theorem only_safe_names (h : ofGrammar o g = .ok p) :
    (∀ n, p.HasName n → o.target.identifier n = n ∧ IsIdentifier o.target.isKeyword n) ∧
    ∀ n ∈ p.classNames, ¬ Taken o n := by
  constructor
  · intro n hn
    have hident := hn.isIdentifier h
    exact ⟨hident.identifier_eq, hident⟩
  · intro n hn
    obtain ⟨order, hm⟩ := made_of_ofGrammar h
    exact ((hm.mem_classNames (chained_classRules _ g) n).mp hn).2

unseal ClassOrder.run in
/-- Keywords and a digit are in the names of the first rule, and the second one has a class
that would hide the root type. -/
theorem only_safe_names_of_keywords :
    ∃ p, ofGrammar ⟨.python, ⟨"ast", "Node"⟩, none, false⟩
        ⟨"calc", [⟨"num", [.string "class::9lives"], .bind false "def" .void⟩,
          ⟨"top", [.string "Node"], .void⟩]⟩ = .ok p ∧
      p.decls[2]? = some (.rule "class_" "_9lives" "num" ["def_"]) ∧
      (∀ n ∈ ["class_", "_9lives", "def_"],
        Target.python.identifier n = n ∧ IsIdentifier Target.python.isKeyword n) ∧
      ¬ Taken ⟨.python, ⟨"ast", "Node"⟩, none, false⟩ "class_" := by
  have h : ofGrammar ⟨.python, ⟨"ast", "Node"⟩, none, false⟩
      ⟨"calc", [⟨"num", [.string "class::9lives"], .bind false "def" .void⟩,
        ⟨"top", [.string "Node"], .void⟩]⟩ =
      .ok ⟨"calc", ⟨"ast", "Node"⟩, [.base "ModelBase" (some "Node"),
        .base "_9lives" (some "ModelBase"), .rule "class_" "_9lives" "num" ["def_"]]⟩ := by rfl
  have hmem : Decl.rule "class_" "_9lives" "num" ["def_"] ∈
      [Decl.base "ModelBase" (some "Node"), .base "_9lives" (some "ModelBase"),
        .rule "class_" "_9lives" "num" ["def_"]] := List.mem_of_getElem? (i := 2) rfl
  have hclass := HasName.ofClass (p := ⟨"calc", ⟨"ast", "Node"⟩, _⟩) hmem
  obtain ⟨hnames, hfree⟩ := only_safe_names h
  refine ⟨_, h, rfl, ?_, hfree "class_" (List.mem_map_of_mem hmem)⟩
  simp only [List.forall_mem_cons]
  exact ⟨hnames "class_" hclass, hnames "_9lives" (.ofBase hmem (by decide) rfl),
    hnames "def_" (.ofAttribute hmem List.mem_cons_self), nofun⟩

end Plan

end RuleClasses
