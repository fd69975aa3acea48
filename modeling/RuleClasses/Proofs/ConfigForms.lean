import RuleClasses.Proofs.GrammarForms

/-! A config is read from any object that holds its fields in any order, or from a list that
begins with them in theirs; what holds its default need not be written. No other entry may stand
in the object: one with an unknown key and one with a repeated key are both told. -/

namespace RuleClasses

open Json

/-- The values that stand for a target: its name, by itself or as the key of an empty entry. -/
inductive Target.Form (t : Target) : Json → Prop where
  | name : Form t (.string t.language)
  | entry : Form t (.object [(t.language, .null)])

namespace Config

variable {c : Config} {d : Draft} {j : Json} {k text : String}
  {name root target strict : Option Json}

/-- The values of the fields. -/
structure Given (c : Config) (name root target strict : Option Json) : Prop where
  name : Omissible (c.name = none) (· = optionJson c.name) name
  root : Omissible (c.rootPath = none) (· = optionJson c.rootPath) root
  target : Omissible (c.target = .python) c.target.Form target
  strict : Omissible (c.strict = false) (· = .bool c.strict) strict

/-- The values that stand for a config. -/
inductive Form (c : Config) : Json → Prop where
  /-- The fields in their order; fields may only be left out at the end. -/
  | list {name root target strict : Option Json} : Given c name root target strict →
      (root.isSome → name.isSome) → (target.isSome → root.isSome) →
      (strict.isSome → target.isSome) →
      Form c (.list (name.toList ++ root.toList ++ target.toList ++ strict.toList))
  /-- The fields in any order. -/
  | object {name root target strict : Option Json} {entries : List (String × Json)} :
      Given c name root target strict →
      entries.Perm (entry "name" name ++ entry "base_type" root ++ entry "target" target ++
        entry "strict" strict) → Form c (.object entries)

/-! ## Fields -/

def nameField : RecordField Draft where
  name := "name"
  Value := Option String
  read := Tree.readString?
  get := Draft.name
  set d s := { d with name := some s }

def rootField : RecordField Draft where
  name := "base_type"
  Value := Option String
  read := Tree.readString?
  get := Draft.rootPath
  set d s := { d with rootPath := some s }

def targetField : RecordField Draft where
  name := "target"
  Value := Target
  read := readTarget
  get := Draft.target
  set d t := { d with target := some t }

def strictField : RecordField Draft where
  name := "strict"
  Value := Bool
  read := Tree.readBool
  get := Draft.strict
  set d b := { d with strict := some b }

def recordFields : List (RecordField Draft) := [nameField, rootField, targetField, strictField]

theorem use_unknown (h : k ∉ fieldNames) (d : Draft) :
    reader.use d k = .refuse (unknownField k) := by
  simp only [fieldNames, List.mem_cons, List.not_mem_nil, or_false, not_or] at h
  unfold reader
  simp only
  split <;> simp_all

theorem hasFields : HasFields recordFields reader.use where
  apart := by
    have hnr : nameField.Apart rootField := { name_ne := (by decide : "name" ≠ "base_type") }
    have hnt : nameField.Apart targetField := { name_ne := (by decide : "name" ≠ "target") }
    have hns : nameField.Apart strictField := { name_ne := (by decide : "name" ≠ "strict") }
    have hrt : rootField.Apart targetField := { name_ne := (by decide : "base_type" ≠ "target") }
    have hrs : rootField.Apart strictField := { name_ne := (by decide : "base_type" ≠ "strict") }
    have hts : targetField.Apart strictField := { name_ne := (by decide : "target" ≠ "strict") }
    simp [recordFields, hnr, hnt, hns, hrt, hrs, hts]
  known := by
    intro f hf d
    simp only [recordFields, List.mem_cons, List.not_mem_nil, or_false] at hf
    rcases hf with rfl | rfl | rfl | rfl <;> rfl
  other k hk := .inr fun d => ⟨unknownField k, use_unknown hk d⟩

theorem readString?_optionJson (value : Option String) :
    (optionJson value).tree.readString? = .ok value := by
  cases value <;> rfl

theorem readTarget_form {t : Target} (h : t.Form j) : readTarget j.tree = .ok t := by
  cases h <;> cases t <;> rfl

/-! ## Forms are read -/

section

variable (h : Given c name root target strict)

include h

theorem readFields_given {entries : List (String × Json)}
    (hperm : entries.Perm (entry "name" name ++ entry "base_type" root ++ entry "target" target ++
      entry "strict" strict)) :
    ∃ d, readFields reader.use {} (entryTrees entries) = .ok d ∧ d.finish = c := by
  obtain ⟨hname, hroot, htarget, hstrict⟩ := h
  have hreadName : ∀ j ∈ name, nameField.read j.tree = .ok c.name := fun j hj =>
    hname.of_mem hj ▸ readString?_optionJson c.name
  have hreadRoot : ∀ j ∈ root, rootField.read j.tree = .ok c.rootPath := fun j hj =>
    hroot.of_mem hj ▸ readString?_optionJson c.rootPath
  have hreadTarget : ∀ j ∈ target, targetField.read j.tree = .ok c.target := fun j hj =>
    readTarget_form (htarget.of_mem hj)
  have hreadStrict : ∀ j ∈ strict, strictField.read j.tree = .ok c.strict := fun j hj =>
    hstrict.of_mem hj ▸ rfl
  have hnothing (d : Draft) : readFields reader.use d (entryTrees []) = .ok d := rfl
  have hinOrder := hasFields.readFields_entry (d := {}) (f := nameField) (by simp [recordFields])
    rfl hreadName <|
    hasFields.readFields_entry (f := rootField) (by simp [recordFields]) (by cases name <;> rfl)
      hreadRoot <|
    hasFields.readFields_entry (f := targetField) (by simp [recordFields])
      (by cases name <;> cases root <;> rfl) hreadTarget <|
    hasFields.readFields_entry (f := strictField) (by simp [recordFields])
      (by cases name <;> cases root <;> cases target <;> rfl) hreadStrict (hnothing _)
  refine ⟨_, hasFields.readFields_perm
    (by simpa [nameField, rootField, targetField, strictField] using hperm.symm) hinOrder, ?_⟩
  obtain ⟨n, r, t, s⟩ := c
  -- what is not given is what a draft without it makes of it
  cases hname <;> cases hroot <;> cases htarget <;> cases hstrict <;>
    simp_all [Draft.finish, nameField, rootField, targetField, strictField]

theorem read_given_list (hroot : root.isSome → name.isSome) (htarget : target.isSome → root.isSome)
    (hstrict : strict.isSome → target.isSome) :
    reader.read (Json.list (name.toList ++ root.toList ++ target.toList ++ strict.toList)).tree =
      .ok c := by
  obtain ⟨d, hread, hfinish⟩ := readFields_given h (.refl _)
  have hzip : entry "name" name ++ entry "base_type" root ++ entry "target" target ++
      entry "strict" strict = (recordFields.map RecordField.name).zip
        (name.toList ++ root.toList ++ target.toList ++ strict.toList) := by
    cases name <;> cases root <;> cases target <;> cases strict <;>
      simp_all [entry, recordFields, nameField, rootField, targetField, strictField]
  have hlength : (name.toList ++ root.toList ++ target.toList ++ strict.toList).length ≤ 4 := by
    cases name <;> cases root <;> cases target <;> cases strict <;> simp
  rw [hzip] at hread
  have hpositions := hasFields.readPositions_of_readFields (fun _ => id) 0 hlength hread
  exact bind_eq_ok.mpr ⟨d, hpositions, congrArg Except.ok hfinish⟩

end

theorem Form.read (h : Form c j) : reader.read j.tree = .ok c := by
  cases h with
  | list hgiven hroot htarget hstrict => exact read_given_list hgiven hroot htarget hstrict
  | object hgiven hperm =>
    obtain ⟨d, hread, hfinish⟩ := readFields_given hgiven hperm
    exact bind_eq_ok.mpr ⟨d, bind_eq_ok.mpr ⟨d, hread, rfl⟩, congrArg Except.ok hfinish⟩

theorem ofText_form (h : Form c j) (htext : j.IsText text) : ofText text = .ok c := by
  rw [ofText, htext.ofChars, h.read]

/-! ## The encoded config -/

theorem form_toJson (c : Config) : Form c c.toJson :=
  .object ⟨.given rfl, .given rfl, .given .name, .given rfl⟩ (.refl _)

theorem isText_toJson (c : Config) : c.toJson.IsText c.toJson.text := by
  obtain ⟨name, rootPath, target, strict⟩ := c
  refine isText_text ?_ ?_ <;> cases name <;> cases rootPath <;>
    simp [toJson, optionJson, EachNumber, EachNumberOfEntries]

/-- A config is read from any text that holds all of its fields. -/
theorem ofText_toJson (h : c.toJson.IsText text) : ofText text = .ok c :=
  ofText_form (form_toJson c) h

/-! ## One entry more -/

section

variable {before after : List (String × Json)} {v : Json}

/-- The entries in front of some place in a form are taken, and then those behind it. -/
theorem Form.readFields_parts (h : Form c (.object (before ++ after))) :
    ∃ d d', readFields reader.use {} (entryTrees before) = .ok d ∧
      readFields reader.use d (entryTrees after) = .ok d' := by
  generalize hentries : before ++ after = entries at h
  cases h with
  | object hgiven hperm =>
    obtain ⟨d', hread, -⟩ := readFields_given hgiven hperm
    rw [← hentries, entryTrees_append, readFields_append] at hread
    obtain ⟨d, hbefore, hafter⟩ := bind_eq_ok.mp hread
    exact ⟨d, d', hbefore, hafter⟩

theorem readFields_unknown (h : Form c (.object (before ++ after))) (hk : k ∉ fieldNames) :
    readFields reader.use {} (entryTrees (before ++ (k, v) :: after)) =
      .error (unknownField k) := by
  obtain ⟨d, d', hbefore, -⟩ := h.readFields_parts
  rw [entryTrees_append, readFields_append, hbefore, entryTrees]
  exact readFields_of_refuse (use_unknown hk d)

theorem Form.mem_fieldNames {entries : List (String × Json)} (h : Form c (.object entries))
    (hk : k ∈ entries.map Prod.fst) : k ∈ fieldNames := by
  cases h with
  | @object name root target strict _ _ hperm =>
    have hmem := (hperm.map Prod.fst).mem_iff.mp hk
    simp only [List.map_append, List.mem_append] at hmem
    have hentry {field : String} {value : Option Json}
        (h : k ∈ (entry field value).map Prod.fst) : k = field := by
      cases value <;> simp_all [entry]
    rcases hmem with ((hk | hk) | hk) | hk <;> rw [hentry hk] <;> decide

/-- Of two entries with one key the second is refused, unless the first cannot be read. -/
theorem readFields_twice (h : Form c (.object (before ++ after)))
    (hk : k ∈ (before ++ after).map Prod.fst) :
    ∃ issue, readFields reader.use {} (entryTrees (before ++ (k, v) :: after)) = .error issue ∧
      (issue = .here (.duplicateField k) ∨ ∃ inner, issue = .within (.key k) inner) := by
  obtain ⟨d, d', hbefore, hafter⟩ := h.readFields_parts
  obtain ⟨f, hf, rfl⟩ : ∃ f ∈ recordFields, f.name = k := by
    simpa [recordFields, fieldNames, nameField, rootField, targetField, strictField, eq_comm]
      using h.mem_fieldNames hk
  have hgiven := hasFields.isSome_get_iff hf hbefore
  rw [entryTrees_append, readFields_append, hbefore, entryTrees]
  change ∃ issue, readFields reader.use d ((.ok f.name, v.tree) :: entryTrees after) = _ ∧ _
  by_cases htaken : (f.get d).isSome
  · exact ⟨_, readFields_of_refuse (hasFields.use_taken hf htaken), .inl rfl⟩
  · have hfree : f.get d = none := by simpa using htaken
    cases hv : f.read v.tree with
    | error inner =>
      have hfield : (f.read v.tree).map (f.set d) = .error inner := by rw [hv]; rfl
      exact ⟨_, readFields_of_error (hasFields.use_free hf hfree) hfield, .inr ⟨inner, rfl⟩⟩
    | ok w =>
      have hmem : (.ok f.name : Key) ∈ (entryTrees after).map Prod.fst := by
        rw [hgiven, map_fst_entryTrees] at htaken
        rw [map_fst_entryTrees]
        simp only [List.map_append, List.mem_append, List.mem_map, Except.ok.injEq] at hk htaken ⊢
        exact hk.resolve_left fun hk => htaken (.inr hk)
      refine ⟨_, ?_, .inl rfl⟩
      rw [readFields_of_takes (hasFields.takes_known hf hfree hv)]
      exact hasFields.readFields_repeated hf hafter hmem w

theorem ofText_error {entries : List (String × Json)} {issue : Issue}
    (h : readFields reader.use {} (entryTrees entries) = .error issue)
    (htext : (Json.object entries).IsText text) : ofText text = .error issue := by
  rw [ofText, htext.ofChars]
  exact bind_eq_error.mpr (.inl (bind_eq_error.mpr (.inl h)))

end

/-- **A config file holds its fields and nothing else.** Whatever leaves out no more than defaults
is read as the config, its encoding included. With one entry more, wherever it stands, the file is
refused: the key is told when it is unknown, and when it is a field for the second time. -/
theorem fields_exact (c : Config) :
    (∀ j text, Form c j → j.IsText text → ofText text = .ok c) ∧
    ofText c.toJson.text = .ok c ∧
    ∀ before after k v text, Form c (.object (before ++ after)) →
      (Json.object (before ++ (k, v) :: after)).IsText text →
      (k ∉ fieldNames → ofText text = .error (unknownField k)) ∧
      (k ∈ (before ++ after).map Prod.fst →
        ofText text = .error (.here (.duplicateField k)) ∨
        ∃ inner, ofText text = .error (.within (.key k) inner)) := by
  refine ⟨fun j text => ofText_form, ofText_toJson (isText_toJson c), ?_⟩
  intro before after k v text hform htext
  refine ⟨fun hunknown => ofText_error (readFields_unknown hform hunknown) htext, fun hk => ?_⟩
  obtain ⟨issue, hread, hissue⟩ := readFields_twice (v := v) hform hk
  have herror := ofText_error hread htext
  rcases hissue with rfl | ⟨inner, rfl⟩
  · exact .inl herror
  · exact .inr ⟨inner, herror⟩

end Config

end RuleClasses
