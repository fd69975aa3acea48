import RuleClasses.Proofs.Chains
import RuleClasses.Proofs.Identifiers

/-! Class paths. The path of a rule is cut at its double colons, from left to right, and its
parts become a chain of classes, none of them lost: the names of the chain, joined again, are
the path, and safe names joined again make the same chain. -/

namespace RuleClasses

namespace Text

/-- A text and its parts. Each cut is at the first double colon of what is left: there is none
in the part in front of it, also not together with the first of the two colons. -/
inductive IsCut : List Char → List (List Char) → Prop where
  | whole {s : List Char} : ¬ [':', ':'] <:+: s → IsCut s [s]
  | first {front rest : List Char} {parts : List (List Char)} :
      ¬ [':', ':'] <:+: front ++ [':'] → IsCut rest parts →
      IsCut (front ++ ':' :: ':' :: rest) (front :: parts)

variable {s : List Char} {parts : List (List Char)}

theorem IsCut.ne_nil (h : IsCut s parts) : parts ≠ [] := by
  cases h <;> exact List.cons_ne_nil _ _

/-! ## Cutting -/

/-- A character in front of a text makes a double colon only with a colon behind it. -/
theorem notInfix_cons {c : Char} (hc : ∀ rest, c = ':' → s = ':' :: rest → False)
    (h : ¬ [':', ':'] <:+: s) : ¬ [':', ':'] <:+: c :: s := by
  intro hin
  rcases List.infix_cons_iff.mp hin with hprefix | hin
  · obtain ⟨hcolon, hprefix⟩ := List.cons_prefix_cons.mp hprefix
    obtain ⟨rest, hrest⟩ := hprefix
    exact hc rest hcolon.symm hrest.symm
  · exact h hin

theorem isCut_segments (s : List Char) : IsCut s (segments s) := by
  fun_induction segments s with
  | case1 => exact .whole (by decide)
  | case2 rest ih =>
    have hnone : ¬ [':', ':'] <:+: [] ++ [':'] := by decide
    exact .first hnone ih
  | case3 c rest hc hnil ih => exact absurd hnil (segments_ne_nil rest)
  | case4 c rest hc p ps hrest ih =>
    rw [hrest] at ih
    cases ih with
    | whole h => exact .whole (notInfix_cons hc h)
    | @first _ after _ h hafter =>
      have hnone : ¬ [':', ':'] <:+: c :: p ++ [':'] := by
        refine notInfix_cons (fun more hcolon hmore => ?_) h
        refine hc (more ++ ':' :: after) hcolon ?_
        simpa using congrArg (· ++ ':' :: after) hmore
      exact .first hnone hafter

theorem segments_cons {c : Char} (hc : ∀ rest, c = ':' → s = ':' :: rest → False) :
    segments (c :: s) = (c :: (segments s).headD []) :: (segments s).tail := by
  rw [segments]
  · split
    · rename_i hnil
      exact absurd hnil (segments_ne_nil s)
    · rename_i p ps hs
      rw [hs]
      rfl
  · exact hc

theorem segments_of_notInfix (h : ¬ [':', ':'] <:+: s) : segments s = [s] := by
  induction s with
  | nil => rfl
  | cons c s ih =>
    have hs : ¬ [':', ':'] <:+: s := fun hin => h (List.infix_cons hin)
    rw [segments_cons, ih hs]
    · rfl
    · rintro rest rfl rfl
      exact h (List.prefix_append [':', ':'] rest).isInfix

theorem segments_append {front : List Char} (h : ¬ [':', ':'] <:+: front ++ [':'])
    (rest : List Char) : segments (front ++ ':' :: ':' :: rest) = front :: segments rest := by
  induction front with
  | nil => rfl
  | cons c front ih =>
    have hfront : ¬ [':', ':'] <:+: front ++ [':'] := fun hin => h (List.infix_cons hin)
    rw [List.cons_append, segments_cons, ih hfront]
    · rfl
    · rintro more rfl hmore
      refine h (List.IsPrefix.isInfix ?_)
      cases front with
      | nil => exact List.prefix_rfl
      | cons d front =>
        obtain ⟨rfl, -⟩ := List.cons.inj hmore
        exact List.prefix_append [':', ':'] (front ++ [':'])

/-- A text is cut in one way only. -/
theorem isCut_iff : IsCut s parts ↔ segments s = parts := by
  constructor
  · intro h
    induction h with
    | whole h => exact segments_of_notInfix h
    | first h _ ih => rw [segments_append h, ih]
  · rintro rfl
    exact isCut_segments s

/-! ## Joining -/

theorem IsCut.joinWith_eq (h : IsCut s parts) :
    joinWith "::" (parts.map String.ofList) = String.ofList s := by
  induction h with
  | whole => rfl
  | @first front rest parts _ hrest ih =>
    have hne : parts.map String.ofList ≠ [] := mt List.map_eq_nil_iff.mp hrest.ne_nil
    rw [List.map_cons, joinWith_cons "::" _ hne, ih, ← String.toList_inj]
    simp

/-- Parts without colons are found again in the text that they make. -/
theorem isCut_joinWith {names : List String} (hne : names ≠ [])
    (h : ∀ n ∈ names, ':' ∉ n.toList) :
    IsCut (joinWith "::" names).toList (names.map String.toList) := by
  induction names with
  | nil => exact absurd rfl hne
  | cons n rest ih =>
    obtain ⟨hn, hrest⟩ := List.forall_mem_cons.mp h
    by_cases hlast : rest = []
    · subst hlast
      refine .whole fun hin => hn (hin.subset List.mem_cons_self)
    · rw [joinWith_cons "::" n hlast]
      have hnone : ¬ [':', ':'] <:+: n.toList ++ [':'] := by
        intro hin
        have hcount := hin.sublist.count_le ':'
        rw [List.count_append, List.count_eq_zero.mpr hn] at hcount
        exact absurd hcount (by decide)
      simpa using IsCut.first hnone (ih hlast hrest)

end Text

open Text (IsCut joinWith)

/-! ## Chains -/

theorem map_base_chainEdges {names : List String} (h : names ≠ []) :
    (chainEdges names).map Edge.base = names.tail ++ [modelBase] := by
  fun_induction chainEdges names with
  | case1 => exact absurd rfl h
  | case2 n => rfl
  | case3 n m rest ih =>
    rw [List.map_cons, ih (List.cons_ne_nil m rest)]
    rfl

namespace Rule

variable {r : Rule} {s : String}

theorem classPath?_eq_some : r.classPath? = some s ↔ r.params.head? = some (.string s) := by
  unfold classPath?
  split
  · rename_i hparams
    simp [hparams]
  · rename_i hparams
    refine iff_of_false nofun fun hhead => ?_
    obtain ⟨rest, hrest⟩ := List.head?_eq_some_iff.mp hhead
    exact hparams s rest hrest

theorem classes_eq (h : r.params.head? = some (.string s)) (safe : String → String) :
    r.classes safe = (Text.segments s.toList).map fun p => safe (String.ofList p) := by
  rw [classes, classPath?_eq_some.mpr h]
  rfl

theorem map_name_edges (safe : String → String) (r : Rule) :
    (r.edges safe).map Edge.name = r.classes safe := by
  rw [edges_eq_chainEdges, map_name_chainEdges]

/-- Safe classes are the parts of the path that they make, and stay as they are. -/
theorem classes_joined {t : Target} (h : r.params.head? = some (.string s)) {r' : Rule}
    (h' : r'.params.head? = some (.string (joinWith "::" (r.classes t.identifier)))) :
    r'.classes t.identifier = r.classes t.identifier := by
  have hne : r.classes t.identifier ≠ [] := by
    rw [classes_eq h]
    exact mt List.map_eq_nil_iff.mp (Text.segments_ne_nil _)
  have hcolon : ∀ n ∈ r.classes t.identifier, ':' ∉ n.toList := by
    intro n hn
    obtain ⟨name, rfl⟩ := exists_safe hn
    exact Text.notMem_identifier (Text.isWordChar_mark (by decide)) _ name
  have hfixed : ∀ n ∈ r.classes t.identifier, t.identifier n = n := by
    intro n hn
    obtain ⟨name, rfl⟩ := exists_safe hn
    exact (t.isIdentifier_identifier name).identifier_eq
  have hparts := Text.isCut_iff.mp (Text.isCut_joinWith hne hcolon)
  rw [classes_eq h', hparts, List.map_map]
  refine (List.map_congr_left fun n hn => ?_).trans (List.map_id _)
  rw [Function.comp_apply, String.ofList_toList, hfixed n hn, id]

/-- **A class path is cut and linked without loss.** A rule without a path has no edges. A path
has one edge for each of its parts, from the first to the class above all chains, and neither
other parameters nor the rest of the rule count. The names of the edges, joined again, are the
path, if they are left as they are, and a path with the same edges, if they are made safe. -/
theorem edges_cut_and_linked (safe : String → String) (r : Rule) :
    ((∀ s, r.params.head? ≠ some (.string s)) → r.edges safe = []) ∧
    ∀ s, r.params.head? = some (.string s) →
      (∃ parts, IsCut s.toList parts ∧ parts ≠ [] ∧
        (r.edges safe).map Edge.name = parts.map fun p => safe (String.ofList p)) ∧
      (r.edges safe).map Edge.base = ((r.edges safe).map Edge.name).tail ++ [modelBase] ∧
      (∀ r' : Rule, r'.params.head? = r.params.head? → r'.edges safe = r.edges safe) ∧
      joinWith "::" ((r.edges id).map Edge.name) = s ∧
      ∀ (t : Target) (r' : Rule), r'.params.head? =
          some (.string (joinWith "::" ((r.edges t.identifier).map Edge.name))) →
        r'.edges t.identifier = r.edges t.identifier := by
  constructor
  · intro hnone
    rw [edges, Option.eq_none_iff_forall_ne_some.mpr fun s => mt classPath?_eq_some.mp (hnone s)]
  · intro s hs
    have hcut := Text.isCut_segments s.toList
    have hne : r.classes safe ≠ [] := by
      rw [classes_eq hs]
      exact mt List.map_eq_nil_iff.mp hcut.ne_nil
    refine ⟨⟨_, hcut, hcut.ne_nil, ?_⟩, ?_, fun r' hr' => ?_, ?_, fun t r' hr' => ?_⟩
    · rw [map_name_edges, classes_eq hs]
    · rw [map_name_edges, edges_eq_chainEdges, map_base_chainEdges hne]
    · rw [edges_eq_chainEdges, edges_eq_chainEdges, classes_eq hs, classes_eq (hr'.trans hs)]
    · rw [map_name_edges, classes_eq hs]
      exact hcut.joinWith_eq.trans String.ofList_toList
    · rw [map_name_edges] at hr'
      rw [edges_eq_chainEdges, edges_eq_chainEdges, classes_joined hs hr']

/-- Of three colons the last one goes with the name behind them, and no name is behind the last
two. -/
theorem edges_cut_and_linked_of_colons :
    let r : Rule := ⟨"top", [.string "A:::class::", .null], .void⟩
    let again : Rule := ⟨"again", [.string "A::_class::_"], .void⟩
    r.edges id = [⟨"A", ":class"⟩, ⟨":class", ""⟩, ⟨"", "ModelBase"⟩] ∧
    r.params.head? = some (.string "A:::class::") ∧
    joinWith "::" ((r.edges id).map Edge.name) = "A:::class::" ∧
    again.params.head? =
      some (.string (joinWith "::" ((r.edges Target.python.identifier).map Edge.name))) ∧
    again.edges Target.python.identifier = r.edges Target.python.identifier ∧
    (⟨"none", [.null, .string "A"], .void⟩ : Rule).edges id = [] := by
  intro r again
  have hparams : r.params.head? = some (.string "A:::class::") := rfl
  obtain ⟨-, -, -, hjoined, hagain⟩ := (edges_cut_and_linked id r).2 _ hparams
  have hnames : joinWith "::" ((r.edges Target.python.identifier).map Edge.name) =
      "A::_class::_" := by decide +kernel
  have hsafe : again.params.head? =
      some (.string (joinWith "::" ((r.edges Target.python.identifier).map Edge.name))) := by
    rw [hnames]
    rfl
  refine ⟨by rfl, hparams, hjoined, hsafe, hagain .python again hsafe, ?_⟩
  exact (edges_cut_and_linked id _).1 nofun

end Rule

end RuleClasses
