import RuleClasses.Generation
import RuleClasses.Proofs.Headers
import RuleClasses.Proofs.Renderings

/-! Fields of structs, read off the lines of a Rust file. A struct has one field for each
attribute, and before them the field of its base. No two fields of a struct have one name:
the attributes are sorted without repeats, and the name of the first field is a keyword, so
no attribute has it. -/

namespace RuleClasses

open Layout
open Text (IsWord)

/-- A text that starts with no blank has none to drop. -/
theorem Text.dropWhile_isBlank_append {start : List Char}
    (h : (start.head?.any fun c => !isBlank c) = true) (rest : List Char) :
    (start ++ rest).dropWhile isBlank = start ++ rest := by
  cases start with
  | nil => exact absurd h (by decide)
  | cons c cs => exact List.dropWhile_cons_of_neg (by simpa using h)

namespace Emit.Structs

/-! ## Reading a file -/

/-- What can be declared behind `pub`, as far as fields are concerned. -/
inductive Item where
  | struct (name : String)
  | field (name : String)
  deriving DecidableEq

/-- A struct has its name behind its keyword, and a field is a word that a colon follows. -/
def itemOf? (rest : List Char) : Option Item :=
  match nameAfter? "struct ".toList rest with
  | some name => some (.struct (String.ofList name))
  | none =>
    if (rest.dropWhile Text.isWordChar).head? = some ':' then
      some (.field (String.ofList (rest.takeWhile Text.isWordChar)))
    else none

/-- What the line declares, at whatever indentation. -/
def item? (line : List Char) : Option Item :=
  ((line.dropWhile Text.isBlank).dropPrefix? "pub ".toList).bind itemOf?

/-- The fields above the next struct. -/
def fieldsAbove : List Item → List String
  | .field f :: rest => f :: fieldsAbove rest
  | _ => []

/-- Each struct with the fields below it. -/
def group : List Item → List (String × List String)
  | [] => []
  | .struct name :: rest => (name, fieldsAbove rest) :: group rest
  | .field _ :: rest => group rest

/-- The structs that a file declares, each with its fields. -/
def structs (text : String) : List (String × List String) :=
  group ((Text.lines text.toList).filterMap item?)

/-- The items of a struct with these fields. -/
def items (s : String × List String) : List Item := .struct s.1 :: s.2.map .field

theorem fieldsAbove_append (fields : List String) (rest : List Item) :
    fieldsAbove (fields.map .field ++ rest) = fields ++ fieldsAbove rest := by
  induction fields with
  | nil => rfl
  | cons f fs ih => rw [List.map_cons, List.cons_append, fieldsAbove, ih, List.cons_append]

theorem group_append (fields : List String) (rest : List Item) :
    group (fields.map .field ++ rest) = group rest := by
  induction fields with
  | nil => rfl
  | cons f fs ih => rw [List.map_cons, List.cons_append, group, ih]

theorem group_flatMap_items (l : List (String × List String)) : group (l.flatMap items) = l := by
  induction l with
  | nil => rfl
  | cons s rest ih =>
    have hnext : fieldsAbove (rest.flatMap items) = [] := by
      cases rest <;> rfl
    rw [List.flatMap_cons, items, List.cons_append, group, fieldsAbove_append, hnext,
      List.append_nil, group_append, ih]

/-! ## Lines with an item, and without one -/

/-- The text declares no struct and no field. -/
def Plain (s : String) : Prop := item? s.toList = none

instance : DecidablePred Plain := fun _ => inferInstanceAs (Decidable (_ = _))

theorem item?_row (level : Nat) (s : String) : item? (row level s) = item? s.toList := by
  rw [item?, item?, dropWhile_isBlank_row]

theorem filterMap_plain {ls : List Layout} (h : EveryAll Plain ls) (level : Nat) :
    (rowsAll level ls).filterMap item? = [] := by
  refine List.filterMap_eq_nil_iff.mpr (h.forall_mem_rowsAll ?_ fun level s hs => ?_)
  · rfl
  · exact (item?_row level s).trans hs

/-- What begins like this is not public. -/
def StartsPrivate (start : List Char) : Prop :=
  (start.head?.any fun c => !Text.isBlank c) = true ∧
    ¬ "pub ".toList <+: start ∧ ¬ start <+: "pub ".toList

instance (start : List Char) : Decidable (StartsPrivate start) :=
  inferInstanceAs (Decidable (_ ∧ _))

theorem plain_ofList {s : List Char} (h : item? s = none) : Plain (String.ofList s) := by
  rwa [Plain, String.toList_ofList]

theorem plain_ofList_append {start : List Char} (h : StartsPrivate start) {rest : String} :
    Plain (String.ofList start ++ rest) := by
  obtain ⟨hblank, hmark, hstart⟩ := h
  rw [Plain, item?, String.toList_append, String.toList_ofList,
    Text.dropWhile_isBlank_append hblank, dropPrefix?_append_eq_none hmark hstart]
  rfl

theorem item?_public (rest : List Char) : item? ("pub ".toList ++ rest) = itemOf? rest := by
  rw [item?, Text.dropWhile_isBlank_append (by decide), List.dropPrefix?_append_of_beq _ (by simp)]
  rfl

/-- A word that a blank follows is no field. -/
theorem plain_word {w : String} (hw : IsWord w) (hmark : ¬ "struct ".toList <+: w.toList)
    (hstart : ¬ w.toList <+: "struct ".toList) (rest : String) :
    Plain ("pub " ++ w ++ (" " ++ rest)) := by
  have hblank : Text.isWordChar ' ' = false := Text.isWordChar_mark (by decide)
  have hline : ("pub " ++ w ++ (" " ++ rest)).toList =
      "pub ".toList ++ (w.toList ++ ' ' :: rest.toList) := by simp
  rw [Plain, hline, item?_public, itemOf?, nameAfter?_eq_none hmark hstart,
    hw.dropWhile_append hblank]
  rfl

theorem item?_struct {name : String} (h : IsWord name) {c : Char}
    (hc : Text.isWordChar c = false) (rest : List Char) :
    item? ("pub ".toList ++ ("struct ".toList ++ (name.toList ++ c :: rest))) =
      some (.struct name) := by
  rw [item?_public, itemOf?, nameAfter?_append (fun _ => h.isWordChar) hc]
  simp

theorem item?_field {a : String} (h : IsWord a) (rest : List Char) :
    item? ("pub ".toList ++ (a.toList ++ ':' :: rest)) = some (.field a) := by
  have hcolon : Text.isWordChar ':' = false := Text.isWordChar_mark (by decide)
  have hstruct : nameAfter? "struct ".toList (a.toList ++ ':' :: rest) = none :=
    Target.nameAfter?_word_eq_none (w := "struct") h (by decide) hcolon (by decide) [] rest
  rw [item?_public, itemOf?, hstruct, h.dropWhile_append hcolon, h.takeWhile_append hcolon]
  simp

theorem plain_braces {head : String} {body : List Layout} (hhead : Plain (head ++ " \x7b"))
    (hbody : EveryAll Plain body) : EveryAll Plain (braces head body) :=
  ⟨hhead, hbody, plain_ofList rfl, trivial⟩

/-! ## The structs of a file -/

theorem item?_header {name : String} (h : IsWord name) {c : Char}
    (hc : Text.isWordChar c = false) (rest : List Char) :
    item? (row 0 ("pub struct " ++ name ++ String.ofList (c :: rest))) = some (.struct name) := by
  have hline : ("pub struct " ++ name ++ String.ofList (c :: rest)).toList =
      "pub ".toList ++ ("struct ".toList ++ (name.toList ++ c :: rest)) := by simp
  rw [item?_row, hline, item?_struct h hc]

theorem items_braces {name : String} (h : IsWord name) (body : List Layout) :
    (rowsAll 0 (braces ("pub struct " ++ name) body)).filterMap item? =
      .struct name :: (rowsAll 1 body).filterMap item? := by
  have hopen := item?_header h (Text.isWordChar_mark (c := ' ') (by decide)) ['\x7b']
  have hclose : [row 0 "\x7d"].filterMap item? = [] := rfl
  have hrows : rowsAll 0 (braces ("pub struct " ++ name) body) =
      row 0 ("pub struct " ++ name ++ " \x7b") :: (rowsAll 1 body ++ [row 0 "\x7d"]) := rfl
  rw [hrows, List.filterMap_cons_some hopen, List.filterMap_append, hclose, List.append_nil]

theorem item?_entry {a : String} (h : IsWord a) (level : Nat) (rest : String) :
    item? (row level ("pub " ++ a ++ (": " ++ rest))) = some (.field a) := by
  have hline : ("pub " ++ a ++ (": " ++ rest)).toList =
      "pub ".toList ++ (a.toList ++ ':' :: ' ' :: rest.toList) := by simp
  rw [item?_row, hline, item?_field h]

theorem filterMap_map_row {α : Type*} {l : List α} {level : Nat} {f : α → String} {g : α → Item}
    (h : ∀ a ∈ l, item? (row level (f a)) = some (g a)) :
    (l.map fun a => row level (f a)).filterMap item? = l.map g := by
  rw [List.filterMap_map]
  exact (List.filterMap_congr h).trans (congrFun List.filterMap_eq_map l)

/-- The names of the fields of a struct. -/
def fieldNames (base : Option String) (attributes : List String) : List String :=
  (base.toList.map fun _ => "base") ++ attributes

theorem items_fields (base : Option String) {attributes : List String}
    (h : ∀ a ∈ attributes, IsWord a) :
    (rowsAll 1 (fields base attributes)).filterMap item? =
      (fieldNames base attributes).map .field := by
  have hbase : ∀ b ∈ base.toList,
      item? (row 1 ("pub base: " ++ b ++ ",")) = some (.field "base") := by
    intro b _
    have hline : "pub base: " ++ b ++ "," = "pub " ++ "base" ++ (": " ++ (b ++ ",")) :=
      String.toList_inj.mp (by simp)
    rw [hline, item?_entry (by decide)]
  have hattributes : ∀ a ∈ attributes,
      item? (row 1 ("pub " ++ a ++ ": Option<Value>,")) = some (.field a) :=
    fun a ha => item?_entry (h a ha) 1 "Option<Value>,"
  rw [rows_fields, List.filterMap_append, filterMap_map_row hbase, filterMap_map_row hattributes,
    fieldNames, List.map_append, List.map_map]
  rfl

theorem plain_dereference (name base : String) : EveryAll Plain (dereference name base) := by
  have himpl : Plain ("impl Deref for " ++ (name ++ " \x7b")) := plain_ofList_append (by decide)
  have htype : Plain ("type Target = " ++ (base ++ ";")) := plain_ofList_append (by decide)
  have hderef : Plain ("fn deref(&self) -> &" ++ (base ++ " \x7b")) :=
    plain_ofList_append (by decide)
  rw [← String.append_assoc] at himpl htype hderef
  exact ⟨trivial, plain_braces himpl
    ⟨htype, trivial, plain_braces hderef ⟨plain_ofList rfl, trivial⟩⟩⟩

theorem items_struct {name : String} (hname : IsWord name) (base : Option String)
    {attributes : List String} (h : ∀ a ∈ attributes, IsWord a) :
    (rowsAll 0 (struct name base attributes)).filterMap item? =
      items (name, fieldNames base attributes) := by
  have hhead : EveryAll Plain [.blank, derives] := ⟨trivial, plain_ofList rfl, trivial⟩
  unfold struct
  rw [rowsAll_append, List.filterMap_append, filterMap_plain hhead, List.nil_append]
  split
  · exact List.filterMap_cons_some (item?_header hname (Text.isWordChar_mark (by decide)) [])
  · rw [items_braces hname, items_fields none h, items]
  · rename_i b
    rw [rowsAll_append, List.filterMap_append, items_braces hname, items_fields (some b) h,
      filterMap_plain (plain_dereference name b), List.append_nil, items]

theorem items_semantics (name : String) :
    (rowsAll 0 (semantics name)).filterMap item? =
      items (semanticsName (Target.rust.identifier name), ["types"]) := by
  have htypes : (rowsAll 1 [.line "pub types: Vec<String>,"]).filterMap item? =
      [.field "types"] :=
    List.filterMap_cons_some (item?_entry (a := "types") (by decide) 1 "Vec<String>,")
  have himpl : Plain ("impl " ++ (semanticsName (Target.rust.identifier name) ++ " \x7b")) :=
    plain_ofList_append (by decide)
  rw [← String.append_assoc] at himpl
  have hnew : Plain ("pub fn new(types: Option<Vec<String>>) -> Self" ++ " \x7b") :=
    plain_word (w := "fn") (by decide) (by decide) (by decide)
      "new(types: Option<Vec<String>>) -> Self \x7b"
  have hbody : EveryAll Plain
      [.line "let mut all: Vec<String> = MODEL_TYPES.iter().map(|t| t.to_string()).collect();",
       .line "all.extend(types.unwrap_or_default());",
       .line "Self \x7b types: all \x7d"] :=
    ⟨plain_ofList rfl, plain_ofList rfl, plain_ofList rfl, trivial⟩
  have hrest := plain_braces himpl (plain_braces hnew hbody)
  have hderives : EveryAll Plain [derives] := ⟨plain_ofList rfl, trivial⟩
  have hblank : EveryAll Plain [.blank] := ⟨trivial, trivial⟩
  rw [semantics, ← List.singleton_append, rowsAll_append, rowsAll_append, rowsAll_append,
    List.filterMap_append, List.filterMap_append, List.filterMap_append,
    filterMap_plain hderives, items_braces (isWord_semanticsName .rust name), htypes,
    filterMap_plain hblank, filterMap_plain hrest]
  rfl

theorem items_preamble (p : Plan) :
    (rowsAll 0 (preamble p)).filterMap item? =
      items (semanticsName (Target.rust.identifier p.name), ["types"]) := by
  have hnotice : EveryAll Plain (noticeComment "//") := by decide
  have himports : EveryAll Plain (imports p.rootType) := by
    refine everyAll_append.mpr ⟨⟨plain_ofList rfl, trivial, plain_ofList rfl, trivial⟩, ?_⟩
    split
    · trivial
    · have himport : Plain ("use " ++ (p.rootType.module ++ "::" ++ p.rootType.name ++ ";")) :=
        plain_ofList_append (by decide)
      simpa only [String.append_assoc, EveryAll, Every, and_true, true_and] using himport
  have hentries : EveryAll Plain (p.classNames.map fun n => .line ("\"" ++ n ++ "\",")) := by
    refine everyAll_map_line fun n _ => ?_
    rw [String.append_assoc]
    exact plain_ofList_append (by decide)
  have hregistry : EveryAll Plain (registry p.classNames) :=
    ⟨plain_ofList rfl, plain_word (w := "const") (by decide) (by decide) (by decide)
      "MODEL_TYPES: &[&str] = &[", hentries, plain_ofList rfl, trivial⟩
  have hhead : EveryAll Plain (noticeComment "//" ++ [.blank] ++ imports p.rootType ++ [.blank] ++
      registry p.classNames ++ [.blank]) :=
    everyAll_append.mpr ⟨everyAll_append.mpr ⟨everyAll_append.mpr ⟨everyAll_append.mpr
      ⟨everyAll_append.mpr ⟨hnotice, by decide⟩, himports⟩, by decide⟩, hregistry⟩, by decide⟩
  rw [preamble, rowsAll_append, List.filterMap_append, filterMap_plain hhead, items_semantics,
    List.nil_append]

end Emit.Structs

open Emit.Structs

/-- The first struct of a file is the builder semantics, and the others are the classes of
the plan. -/
theorem Plan.Legible.structs_render {p : Plan} (h : p.Legible) :
    structs (p.render .rust) =
      (Emit.semanticsName (Target.rust.identifier p.name), ["types"]) ::
        p.decls.map fun d => (d.name, fieldNames d.base? d.attributes) := by
  have hdecl : ∀ d ∈ p.decls, (rowsAll 0 (Target.rust.declaration d)).filterMap item? =
      items (d.name, fieldNames d.base? d.attributes) := by
    intro d hd
    exact items_struct (h.name d hd) d.base? (h.attributes d hd)
  rw [structs, h.lines_render, rowsAll_append, List.filterMap_append,
    filterMap_rowsAll_flatMap hdecl, Target.preamble, items_preamble,
    ← List.flatMap_map (fun d : Decl => (d.name, fieldNames d.base? d.attributes)) items,
    ← List.flatMap_cons, group_flatMap_items]

/-! ## Main result -/

/-- The name of the first field of a struct is a keyword for this very reason. -/
theorem Rule.base_notMem_attributes (r : Rule) :
    "base" ∉ r.attributes Target.rust.identifier := by
  intro h
  have hfree := (isIdentifier_of_mem_attributes h).free
  revert hfree
  decide

theorem Rule.nodup_attributes (safe : String → String) (r : Rule) : (r.attributes safe).Nodup := by
  refine (Text.pairwise_sortNames _).imp ?_
  intro a b hlt he
  exact String.lt_irrefl b (he ▸ hlt)

namespace Plan

variable {c : Config} {o : Options} {g : Grammar} {p : Plan}

theorem nodup_fields (h : ofGrammar o g = .ok p) (ht : o.target = .rust) {d : Decl}
    (hd : d ∈ p.decls) : ("base" :: d.attributes).Nodup := by
  obtain ⟨order, hm⟩ := made_of_ofGrammar h
  rw [List.nodup_cons]
  rcases hm.attributes_of_mem hd with he | ⟨r, he⟩
  · rw [he]
    exact ⟨List.not_mem_nil, List.nodup_nil⟩
  · rw [he, ht]
    exact ⟨r.base_notMem_attributes, r.nodup_attributes _⟩

/-- Every class of a plan has a base. -/
theorem structs_of_ofGrammar (hc : c.options = .ok o) (h : ofGrammar o g = .ok p) :
    structs (p.render .rust) =
      (Emit.semanticsName (Target.rust.identifier p.name), ["types"]) ::
        p.decls.map fun d => (d.name, "base" :: d.attributes) := by
  have hfields : ∀ d ∈ p.decls,
      (d.name, fieldNames d.base? d.attributes) = (d.name, "base" :: d.attributes) := by
    intro d hd
    obtain ⟨order, hm⟩ := made_of_ofGrammar h
    obtain ⟨b, hb, -⟩ := hm.base_of_mem (chained_classRules _ g) hd
    rw [hb]
    rfl
  rw [(legible_of_ofGrammar hc h).structs_render, List.map_congr_left hfields]

end Plan

namespace Config

variable {c : Config} {g : Grammar}

theorem exists_plan_of_source {text : String} (h : c.source g = .ok text) :
    ∃ o p, c.options = .ok o ∧ Plan.ofGrammar o g = .ok p ∧ text = p.render o.target := by
  unfold source at h
  cases hc : c.options with
  | error e => rw [hc] at h; cases h
  | ok o =>
    simp only [hc, bind, Except.bind, Grammar.source] at h
    cases hp : Plan.ofGrammar o g with
    | error e => rw [hp] at h; cases h
    | ok p =>
      rw [hp] at h
      cases h
      exact ⟨o, p, rfl, hp, rfl⟩

/-- **No field has the name of another.** The attributes of a rule are the safe forms of the
names that its body binds, sorted by code point and without repeats. None is a keyword, and
in Rust none has the name of the field for the base. So no struct of a Rust file declares a
field twice. -/
theorem distinct_fields :
    (∀ (t : Target) (r : Rule), (r.attributes t.identifier).Pairwise (· < ·) ∧
      (∀ a, a ∈ r.attributes t.identifier ↔ ∃ n, r.body.Binds n ∧ t.identifier n = a) ∧
      (∀ a ∈ r.attributes t.identifier, t.isKeyword a = false) ∧
      (t = .rust → "base" ∉ r.attributes t.identifier)) ∧
    ∀ (c : Config) (g : Grammar) (text : String), c.target = .rust → c.source g = .ok text →
      ∃ p, c.plan g = .ok p ∧
        structs text = (Emit.semanticsName (Target.rust.identifier p.name), ["types"]) ::
          p.decls.map (fun d => (d.name, "base" :: d.attributes)) ∧
        ∀ s ∈ structs text, s.2.Nodup := by
  constructor
  · intro t r
    refine ⟨Text.pairwise_sortNames _, fun a => Rule.mem_attributes,
      fun a ha => (isIdentifier_of_mem_attributes ha).free, fun ht => ?_⟩
    subst ht
    exact r.base_notMem_attributes
  · intro c g text ht hsource
    obtain ⟨o, p, hc, hp, rfl⟩ := exists_plan_of_source hsource
    have htarget : o.target = .rust := (target_of_options hc).trans ht
    have hstructs := Plan.structs_of_ofGrammar hc hp
    rw [htarget]
    refine ⟨p, ?_, hstructs, fun s hs => ?_⟩
    · rw [plan, hc]
      exact hp
    · rw [hstructs] at hs
      rcases List.mem_cons.mp hs with rfl | hs
      · exact List.nodup_singleton "types"
      · obtain ⟨d, hd, rfl⟩ := List.mem_map.mp hs
        exact Plan.nodup_fields hp htarget hd

unseal ClassOrder.run in
/-- Two names of this rule become one attribute, one is that of the first field, and one is
inside an override. -/
theorem distinct_fields_of_keywords :
    ∃ text, ({ target := .rust } : Config).source
        ⟨"Calc", [⟨"add", [.string "Add"], .sequence [.bind false "type" .void,
          .bind true "type_" .void, .bind false "base" .void,
          .wrap .override (.bind false "left" .void)]⟩]⟩ = .ok text ∧
      structs text = [("CalcModelBuilderSemantics", ["types"]), ("ModelBase", ["base"]),
        ("Add", ["base", "base_", "type_"])] ∧
      ∀ s ∈ structs text, s.2.Nodup := by
  have hsource : ({ target := .rust } : Config).source
      ⟨"Calc", [⟨"add", [.string "Add"], .sequence [.bind false "type" .void,
        .bind true "type_" .void, .bind false "base" .void,
        .wrap .override (.bind false "left" .void)]⟩]⟩ =
      .ok (Plan.render ⟨"Calc", ⟨"crate::ast", "Node"⟩, [.base "ModelBase" (some "Node"),
        .rule "Add" "ModelBase" "add" ["base_", "type_"]]⟩ .rust) := by rfl
  obtain ⟨p, hp, hstructs, hnodup⟩ := distinct_fields.2 _ _ _ rfl hsource
  refine ⟨_, hsource, ?_, hnodup⟩
  rw [hstructs]
  cases hp
  rfl

end Config

end RuleClasses
