import RuleClasses.Generation
import RuleClasses.Proofs.ExprForms
import RuleClasses.Proofs.Records

/-! A grammar can be written in many ways. Each grammar, rule and expression is an object or a
list by itself; an object holds its entries in any order, and what holds its default need not
be written. All of these are read, and as the same grammar. -/

namespace RuleClasses

open Json

/-! ## Forms -/

/-- A field that may be left out where it holds its default. -/
inductive Omissible (isDefault : Prop) (form : Json → Prop) : Option Json → Prop where
  | omitted : isDefault → Omissible isDefault form none
  | given {j : Json} : form j → Omissible isDefault form (some j)

theorem Omissible.of_mem {isDefault : Prop} {form : Json → Prop} {value : Option Json}
    (h : Omissible isDefault form value) {j : Json} (hj : j ∈ value) : form j := by
  cases h with
  | omitted _ => cases hj
  | given hform => cases hj; exact hform

/-- A list of values; in each of them the last value of a repeated key counts. -/
inductive ParamsForm (params : List Json) : Json → Prop where
  | list {js : List Json} : Json.mergeItems js = params → ParamsForm params (.list js)

/-- The values that stand for a rule. -/
inductive Rule.Form (r : Rule) : Json → Prop where
  /-- The fields in their order; a field may only be left out at the end. -/
  | list {params body : Option Json} : Omissible (r.params = []) (ParamsForm r.params) params →
      Omissible (r.body = .void) r.body.Form body → (body.isSome → params.isSome) →
      Form r (.list (.string r.name :: params.toList ++ body.toList))
  /-- The fields and whatever else in any order. -/
  | object {params body : Option Json} {extra entries : List (String × Json)} :
      Omissible (r.params = []) (ParamsForm r.params) params →
      Omissible (r.body = .void) r.body.Form body →
      (∀ x ∈ extra, x.1 ∉ ["name", "params", "exp"]) →
      entries.Perm
        (("name", .string r.name) :: entry "params" params ++ entry "exp" body ++ extra) →
      Form r (.object entries)

inductive RulesForm (rules : List Rule) : Json → Prop where
  | list {js : List Json} : List.Forall₂ (fun j r => Rule.Form r j) js rules →
      RulesForm rules (.list js)

/-- The values that stand for a grammar. -/
inductive Grammar.Form (g : Grammar) : Json → Prop where
  | list {rules : Option Json} : Omissible (g.rules = []) (RulesForm g.rules) rules →
      Form g (.list (.string g.name :: rules.toList))
  | object {rules : Option Json} {extra entries : List (String × Json)} :
      Omissible (g.rules = []) (RulesForm g.rules) rules →
      (∀ x ∈ extra, x.1 ∉ ["name", "rules"]) →
      entries.Perm (("name", .string g.name) :: entry "rules" rules ++ extra) →
      Form g (.object entries)

/-! ## Outermost expressions -/

namespace Expr

variable {room : Nat}

theorem tagRead_name (t : Tag) : Tag.read (tree (.string t.name)) = .ok t := by
  refine Json.here_eq_ok.mpr (bind_eq_ok.mpr ⟨t.name, rfl, ?_⟩)
  rw [Tag.ofText, Tag.ofName?_name]

theorem Buffer.use_type {b : Buffer} (hb : b.tag = none) :
    Buffer.use room b "type" = .read fun t => (Tag.read t).map fun t => ⟨some t, b.entries⟩ := by
  rw [Buffer.use, if_pos rfl, hb]
  rfl

theorem Buffer.use_other {k : String} (hk : k ≠ "type") (b : Buffer) :
    Buffer.use room b k =
      .read fun t => (t.read room).map fun j => ⟨b.tag, b.entries ++ [(k, j)]⟩ := by
  rw [Buffer.use, if_neg hk]

theorem Buffer.takes_type {b : Buffer} (hb : b.tag = none) (t : Tag) :
    Takes (Buffer.use room) b "type" (tree (.string t.name)) ⟨some t, b.entries⟩ :=
  .read (Buffer.use_type hb) (by rw [tagRead_name]; rfl)

theorem Buffer.takes_other {k : String} {j : Json} (hk : k ≠ "type") (hdepth : j.depth ≤ room)
    (b : Buffer) : Takes (Buffer.use room) b k j.tree ⟨b.tag, b.entries ++ [(k, j)]⟩ :=
  .read (Buffer.use_other hk b) (by rw [Json.read_tree j hdepth]; rfl)

theorem Buffer.readFields_others {entries : List (String × Json)}
    (hdepth : entriesDepth entries ≤ room) (hnone : ∀ x ∈ entries, x.1 ≠ "type") (b : Buffer) :
    readFields (Buffer.use room) b (entryTrees entries) = .ok ⟨b.tag, b.entries ++ entries⟩ := by
  induction entries generalizing b with
  | nil => simp [entryTrees, readFields]
  | cons x rest ih =>
    rw [entriesDepth, Nat.max_le] at hdepth
    refine readFields_cons_iff.mpr
      ⟨_, Buffer.takes_other (hnone x List.mem_cons_self) hdepth.1 b, ?_⟩
    rw [ih hdepth.2 fun y hy => hnone y (List.mem_cons_of_mem x hy)]
    simp

/-- The kind may stand anywhere; all other entries are kept in their order. -/
theorem Buffer.readFields_entries {t : Tag} {b : Buffer} {entries : List (String × Json)}
    (hb : b.tag = none) (hdepth : entriesDepth entries ≤ room)
    (htype : (entries.filter fun x => x.1 = "type") = [("type", .string t.name)]) :
    readFields (Buffer.use room) b (entryTrees entries) =
      .ok ⟨some t, b.entries ++ entries.filter fun x => x.1 ≠ "type"⟩ := by
  induction entries generalizing b with
  | nil => cases htype
  | cons x rest ih =>
    rw [entriesDepth, Nat.max_le] at hdepth
    by_cases hk : x.1 = "type"
    · rw [List.filter_cons_of_pos (by simpa using hk)] at htype
      obtain ⟨rfl, hrest⟩ := List.cons.inj htype
      have hnone : ∀ y ∈ rest, y.1 ≠ "type" := fun y hy => by
        simpa using List.filter_eq_nil_iff.mp hrest y hy
      refine readFields_cons_iff.mpr ⟨_, Buffer.takes_type hb t, ?_⟩
      rw [Buffer.readFields_others hdepth.2 hnone, List.filter_cons_of_neg (by simp),
        List.filter_eq_self.mpr fun y hy => by simpa using hnone y hy]
    · rw [List.filter_cons_of_neg (by simpa using hk)] at htype
      refine readFields_cons_iff.mpr ⟨_, Buffer.takes_other hk hdepth.1 b, ?_⟩
      refine (ih (b := ⟨b.tag, b.entries ++ [x]⟩) hb hdepth.2 htype).trans ?_
      rw [List.filter_cons_of_pos (by simpa using hk)]
      simp

theorem Form.read {e : Expr} {j : Json} (h : Form e j) (hdepth : j.depth ≤ room) :
    Expr.read room j.tree = .ok e := by
  match room, h with
  | 0, .list _ | 0, .object _ _ _ => cases hdepth
  | room + 1, .list hfields =>
    rw [Json.depth, itemsDepth, Nat.add_le_add_iff_right, Nat.max_le] at hdepth
    rw [tree, itemTrees, Expr.read]
    refine bind_eq_ok.mpr ⟨e.tag, within_eq_ok.mpr (tagRead_name e.tag), ?_⟩
    refine bind_eq_ok.mpr ⟨_, readItems_itemTrees 1 _ hdepth.2, bind_eq_ok.mpr ⟨(), rfl, ?_⟩⟩
    refine here_eq_ok.mpr (bind_eq_ok.mpr ⟨_, ?_, finish_fieldParts e⟩)
    rw [fields_tag]
    exact hfields.read.ofItems e.tag 0 {}
  | room + 1, .object hfields hextra hperm =>
    rw [Json.depth, Nat.add_le_add_iff_right] at hdepth
    obtain ⟨htype, d, hd, hfinish⟩ := hfields.read.object hextra hperm
    rw [tree, Expr.read]
    refine bind_eq_ok.mpr ⟨⟨some e.tag, _⟩, bind_eq_ok.mpr
      ⟨_, Buffer.readFields_entries rfl hdepth htype, rfl⟩, ?_⟩
    refine here_eq_ok.mpr (bind_eq_ok.mpr ⟨e.tag, rfl, bind_eq_ok.mpr ⟨d, ?_, hfinish⟩⟩)
    rw [List.nil_append, ofEntries_filter, hd]

end Expr

/-! ## Rules -/

namespace Rule

variable {room : Nat}

def nameField : RecordField Draft where
  name := "name"
  Value := String
  read := Tree.readString
  get := Draft.name
  set d s := { d with name := some s }

def paramsField (room : Nat) : RecordField Draft where
  name := "params"
  Value := List Json
  read := readParams room
  get := Draft.params
  set d js := { d with params := some js }

def bodyField (room : Nat) : RecordField Draft where
  name := "exp"
  Value := Expr
  read := Expr.read room
  get := Draft.body
  set d e := { d with body := some e }

theorem use_other {k : String} (h : k ∉ ["name", "params", "exp"]) (d : Draft) :
    (reader room).use d k = .pass := by
  simp only [List.mem_cons, List.not_mem_nil, or_false, not_or] at h
  unfold reader
  simp only
  split <;> simp_all

theorem hasFields (room : Nat) :
    HasFields [nameField, paramsField room, bodyField room] (reader room).use where
  apart := by
    have hnp : nameField.Apart (paramsField room) := { name_ne := (by decide : "name" ≠ "params") }
    have hnb : nameField.Apart (bodyField room) := { name_ne := (by decide : "name" ≠ "exp") }
    have hpb : (paramsField room).Apart (bodyField room) :=
      { name_ne := (by decide : "params" ≠ "exp") }
    simp [hnp, hnb, hpb]
  known := by
    intro f hf d
    simp only [List.mem_cons, List.not_mem_nil, or_false] at hf
    rcases hf with rfl | rfl | rfl <;> rfl
  other k hk := .inl (use_other hk)

theorem mergeEach (js : List Json) (hdepth : itemsDepth js ≤ room) :
    readEach (fun t => (t.read room).map mergeKeys) 0 (itemTrees js) = .ok (mergeItems js) := by
  refine readEach_itemTrees ?_ 0
  induction js with
  | nil => exact .nil
  | cons j rest ih =>
    rw [itemsDepth, Nat.max_le] at hdepth
    exact .cons (by rw [read_tree j hdepth.1]; rfl) (ih hdepth.2)

theorem readParams_form {r : Rule} {j : Json} (h : ParamsForm r.params j)
    (hdepth : j.depth ≤ room) : readParams room j.tree = .ok r.params := by
  cases h with
  | list hmerge =>
    rw [Json.depth] at hdepth
    rw [readParams, tree, Tree.readList, mergeEach _ (by omega), hmerge]
    rfl

section

variable {r : Rule} {params body : Option Json}
  (hparams : Omissible (r.params = []) (ParamsForm r.params) params)
  (hbody : Omissible (r.body = .void) r.body.Form body)

include hparams hbody

theorem read_fields (hlast : body.isSome → params.isSome)
    (hdepth : ∀ j ∈ params.toList ++ body.toList, j.depth ≤ room) :
    (reader room).read (.list (itemTrees (.string r.name :: params.toList ++ body.toList))
      .closed) = .ok r := by
  rw [RecordReader.read]
  obtain ⟨name, ps, e⟩ := r
  cases hparams with
  | omitted hps =>
    cases hps
    cases hbody with
    | omitted he => cases he; rfl
    | given _ => cases hlast rfl
  | @given j hj =>
    have hps : (paramsField room).read j.tree = .ok ps := readParams_form hj (hdepth j (by simp))
    cases hbody with
    | omitted he =>
      cases he
      exact bind_eq_ok.mpr ⟨_, readPositions_field (f := nameField) rfl
        (readPositions_field hps rfl), rfl⟩
    | @given i hi =>
      have he : (bodyField room).read i.tree = .ok e := hi.read (hdepth i (by simp))
      exact bind_eq_ok.mpr ⟨_, readPositions_field (f := nameField) rfl
        (readPositions_field hps (readPositions_field he rfl)), rfl⟩

theorem read_entries {extra entries : List (String × Json)}
    (hextra : ∀ x ∈ extra, x.1 ∉ ["name", "params", "exp"])
    (hperm : entries.Perm
      (("name", .string r.name) :: entry "params" params ++ entry "exp" body ++ extra))
    (hdepth : ∀ x ∈ entry "params" params ++ entry "exp" body, x.2.depth ≤ room) :
    (reader room).read (.object (entryTrees entries) .closed) = .ok r := by
  have hreadParams : ∀ j ∈ params, readParams room j.tree = .ok r.params := fun j hj =>
    readParams_form (hparams.of_mem hj) (hdepth _ (List.mem_append_left _ (mem_entry hj)))
  have hreadBody : ∀ j ∈ body, Expr.read room j.tree = .ok r.body := fun j hj =>
    (hbody.of_mem hj).read (hdepth _ (List.mem_append_right _ (mem_entry hj)))
  have hname : ∀ j ∈ some (Json.string r.name), j.tree.readString = .ok r.name := by
    rintro _ ⟨⟩; rfl
  have hinOrder := (hasFields room).readFields_entry (d := {}) (f := nameField) (by simp) rfl
    hname <|
    (hasFields room).readFields_entry (f := paramsField room) (by simp) rfl hreadParams <|
    (hasFields room).readFields_entry (f := bodyField room) (by simp)
      (by cases params <;> rfl) hreadBody <|
    HasFields.readFields_pass fun x hx => use_other (hextra x hx) _
  have hfields := (hasFields room).readFields_perm
    (by simpa [entry, nameField, paramsField, bodyField] using hperm.symm) hinOrder
  rw [RecordReader.read]
  refine bind_eq_ok.mpr ⟨_, bind_eq_ok.mpr ⟨_, hfields, rfl⟩, here_eq_ok.mpr ?_⟩
  obtain ⟨name, ps, e⟩ := r
  cases hparams with
  | omitted hps =>
    cases hps
    cases hbody with
    | omitted he => cases he; rfl
    | given _ => rfl
  | given _ =>
    cases hbody with
    | omitted he => cases he; rfl
    | given _ => rfl

end

theorem Form.read {r : Rule} {j : Json} (h : Form r j) (hdepth : j.depth ≤ room + 1) :
    (reader room).read j.tree = .ok r := by
  cases h with
  | list hparams hbody hlast =>
    rw [Json.depth, Nat.add_le_add_iff_right] at hdepth
    exact read_fields hparams hbody hlast fun j hj =>
      itemsDepth_le.mp hdepth j (List.mem_cons_of_mem _ hj)
  | @object params body extra entries hparams hbody hextra hperm =>
    rw [Json.depth, Nat.add_le_add_iff_right] at hdepth
    exact read_entries hparams hbody hextra hperm fun x hx => entriesDepth_le.mp hdepth x
      (hperm.mem_iff.mpr (List.mem_cons_of_mem _ (List.mem_append_left extra hx)))

end Rule

/-! ## Grammars -/

namespace Grammar

variable {room : Nat}

def nameField : RecordField Draft where
  name := "name"
  Value := String
  read := Tree.readString
  get := Draft.name
  set d s := { d with name := some s }

def rulesField (room : Nat) : RecordField Draft where
  name := "rules"
  Value := List Rule
  read := readRules room
  get := Draft.rules
  set d rs := { d with rules := some rs }

theorem use_other {k : String} (h : k ∉ ["name", "rules"]) (d : Draft) :
    (reader room).use d k = .pass := by
  simp only [List.mem_cons, List.not_mem_nil, or_false, not_or] at h
  unfold reader
  simp only
  split <;> simp_all

theorem hasFields (room : Nat) : HasFields [nameField, rulesField room] (reader room).use where
  apart := by
    have hnr : nameField.Apart (rulesField room) := { name_ne := (by decide : "name" ≠ "rules") }
    simp [hnr]
  known := by
    intro f hf d
    simp only [List.mem_cons, List.not_mem_nil, or_false] at hf
    rcases hf with rfl | rfl <;> rfl
  other k hk := .inl (use_other hk)

theorem readRules_form {rules : List Rule} {j : Json} (h : RulesForm rules j)
    (hdepth : j.depth ≤ room + 2) : readRules (room + 2) j.tree = .ok rules := by
  cases h with
  | @list js hall =>
    rw [Json.depth, Nat.add_le_add_iff_right (n := 1)] at hdepth
    have hread : List.Forall₂ (fun j r => (Rule.reader room).read j.tree = .ok r) js rules := by
      induction hall with
      | nil => exact .nil
      | cons hj _ ih =>
        rw [itemsDepth, Nat.max_le] at hdepth
        exact .cons (hj.read hdepth.1) (ih hdepth.2)
    rw [readRules, tree, Tree.readList, Nat.add_sub_cancel, readEach_itemTrees hread]
    rfl

theorem Form.read {g : Grammar} {j : Json} (h : Form g j) (hdepth : j.depth ≤ room + 3) :
    (reader (room + 2)).read j.tree = .ok g := by
  cases h with
  | @list rules hrules =>
    rw [Json.depth, Nat.add_le_add_iff_right (n := 1)] at hdepth
    rw [tree, RecordReader.read]
    obtain ⟨name, rs⟩ := g
    cases hrules with
    | omitted hrs => cases hrs; rfl
    | @given j hj =>
      have hrs : (rulesField (room + 2)).read j.tree = .ok rs :=
        readRules_form hj (itemsDepth_le.mp hdepth j (by simp))
      exact bind_eq_ok.mpr ⟨_, readPositions_field (f := nameField) rfl
        (readPositions_field hrs rfl), rfl⟩
  | @object rules extra entries hrules hextra hperm =>
    rw [Json.depth, Nat.add_le_add_iff_right (n := 1)] at hdepth
    have hreadRules : ∀ j ∈ rules, readRules (room + 2) j.tree = .ok g.rules := fun j hj =>
      readRules_form (hrules.of_mem hj) (entriesDepth_le.mp hdepth _ (hperm.mem_iff.mpr
        (List.mem_cons_of_mem _ (List.mem_append_left extra (mem_entry hj)))))
    have hname : ∀ j ∈ some (Json.string g.name), j.tree.readString = .ok g.name := by
      rintro _ ⟨⟩; rfl
    have hinOrder := (hasFields (room + 2)).readFields_entry (d := {}) (f := nameField) (by simp)
      rfl hname <|
      (hasFields (room + 2)).readFields_entry (f := rulesField (room + 2)) (by simp) rfl
        hreadRules <|
      HasFields.readFields_pass fun x hx => use_other (hextra x hx) _
    have hfields := (hasFields (room + 2)).readFields_perm
      (by simpa [entry, nameField, rulesField] using hperm.symm) hinOrder
    rw [tree, RecordReader.read]
    refine bind_eq_ok.mpr ⟨_, bind_eq_ok.mpr ⟨_, hfields, rfl⟩, here_eq_ok.mpr ?_⟩
    obtain ⟨name, rs⟩ := g
    cases hrules with
    | omitted hrs => cases hrs; rfl
    | given _ => rfl

theorem ofText_form {g : Grammar} {j : Json} {text : String} (h : Form g j)
    (htext : j.IsText text) (hdepth : j.depth ≤ depthLimit) : ofText text = .ok g := by
  have hroom : j.depth ≤ 124 + 3 := hdepth
  rw [ofText, htext.ofChars]
  exact h.read hroom

/-- A grammar does not depend on how it is written, and so nothing that is made of it does. -/
theorem answers_form {g : Grammar} {j : Json} {text : String} (h : Form g j)
    (htext : j.IsText text) (hdepth : j.depth ≤ depthLimit) :
    ofText text = .ok g ∧ ∀ c : Config,
      ((ofText text).mapError .json >>= c.plan) = c.plan g ∧
      ((ofText text).mapError .json >>= c.report) = c.report g ∧
      ((ofText text).mapError .json >>= c.source) = c.source g := by
  have hread := ofText_form h htext hdepth
  exact ⟨hread, fun c => by rw [hread]; exact ⟨rfl, rfl, rfl⟩⟩

/-- A rule as a list, in it a parameter with a repeated key and an expression as an object whose
kind comes last, and a rule of which only the name is given. -/
def mixedJson : Json :=
  .object [("rules", .list [.list [.string "r",
      .list [.number (.int 1), .object [("k", .bool true), ("k", .null)]],
      .object [("name", .string "x"), ("note", .null),
        ("exp", .list [.string "Token", .string "a"]), ("type", .string "Named")]],
      .list [.string "s"]]),
    ("name", .string "G")]

def mixedGrammar : Grammar :=
  ⟨"G", [⟨"r", [.number (.int 1), .object [("k", .null)]], .bind false "x" (.atom (.token "a"))⟩,
    ⟨"s", [], .void⟩]⟩

theorem mixed_form : Form mixedGrammar mixedJson := by
  have htoken : (Expr.atom (.token "a")).Form (.list [.string "Token", .string "a"]) :=
    @Expr.Form.list _ [("token", .string "a")] (.cons .text .nil)
  have hbody := @Expr.Form.object (.bind false "x" (.atom (.token "a")))
    [("name", .string "x"), ("exp", .list [.string "Token", .string "a"])] [("note", .null)] _
    (.cons .text (.cons (.body htoken) .nil)) (by decide)
    (.trans (List.perm_append_singleton ("type", .string "Named") [("name", .string "x"),
      ("note", .null), ("exp", .list [.string "Token", .string "a"])])
      (.cons _ (.cons _ (.swap _ _ []))))
  have hparams : ParamsForm [.number (.int 1), .object [("k", .null)]] _ :=
    @ParamsForm.list _ [.number (.int 1), .object [("k", .bool true), ("k", .null)]] rfl
  have hrule := @Rule.Form.list ⟨"r", _, _⟩ _ _ (.given hparams) (.given hbody) fun _ => rfl
  have hdefaults : Rule.Form ⟨"s", [], .void⟩ _ := .list (.omitted rfl) (.omitted rfl) nofun
  exact @Form.object _ (some _) [] _ (.given (.list (.cons hrule (.cons hdefaults .nil)))) nofun
    (.swap _ _ [])

theorem mixed_isText : mixedJson.IsText (" " ++ mixedJson.text ++ "\n") := by
  have hspace (c : Char) (hc : isSpace c = true) : Space [c] := fun _ h => by
    rw [List.mem_singleton.mp h]; exact hc
  have hnumbers {P : Number → Prop} (h : P (.int 1)) : mixedJson.EachNumber P := by
    simp [mixedJson, EachNumber, EachNumberOfEntries, EachNumberOfItems, h]
  have hone : Fits 1 := ⟨by decide, by decide⟩
  exact ⟨[' '], mixedJson.chars, ['\n'], hspace ' ' rfl,
    spelling_chars _ (hnumbers hone) (hnumbers trivial), hspace '\n' rfl, by simp [Json.text]⟩

theorem answers_mixed :
    Form mixedGrammar mixedJson ∧ mixedJson.IsText (" " ++ mixedJson.text ++ "\n") ∧
      mixedJson.depth ≤ depthLimit ∧
      ofText (" " ++ mixedJson.text ++ "\n") = .ok mixedGrammar :=
  have hdepth : mixedJson.depth ≤ depthLimit := by decide
  ⟨mixed_form, mixed_isText, hdepth, (answers_form mixed_form mixed_isText hdepth).1⟩

end Grammar

end RuleClasses
