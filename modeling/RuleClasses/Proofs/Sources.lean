import RuleClasses.Proofs.Clashes
import RuleClasses.Proofs.Identifiers

/-! Source files line by line. No text of a plan breaks a line when the root type has no
blanks in it, and classes and attributes are words. Then the rows of its layouts are the
lines of the file. -/

namespace RuleClasses

open Layout
open Text (IsWord HasNoBlank OneLine oneLine_ofList)

/-- There are no blanks in the root type and in bases, and only word characters in classes and
attributes. Then no text of the plan breaks a line, and a name in a line ends where the text
around it goes on. -/
structure Plan.Legible (p : Plan) : Prop where
  root_module : HasNoBlank p.rootType.module
  root_name : HasNoBlank p.rootType.name
  name : ∀ d ∈ p.decls, IsWord d.name
  base : ∀ d ∈ p.decls, ∀ b ∈ d.base?, HasNoBlank b
  attributes : ∀ d ∈ p.decls, ∀ a ∈ d.attributes, IsWord a

/-! ## Plans of grammars -/

namespace Plan

variable {c : Config} {o : Options} {g : Grammar} {p : Plan}

/-- Whatever texts are in a grammar and in a config, the plan can be written line by line. -/
theorem legible_of_ofGrammar (hc : c.options = .ok o) (h : ofGrammar o g = .ok p) :
    p.Legible := by
  obtain ⟨order, hm⟩ := made_of_ofGrammar h
  obtain ⟨path, hpath⟩ := Config.exists_ofPath_of_options hc
  have hchained := chained_classRules o.target.identifier g
  have hmodule : HasNoBlank o.rootType.module :=
    List.any_eq_false.mpr fun _ hc => by simp [RootType.isBlank_module_of_ofPath hpath hc]
  have hname : HasNoBlank o.rootType.name :=
    List.any_eq_false.mpr fun _ hc => by simp [RootType.isBlank_of_ofPath hpath hc]
  have hroot := rootType_of_ofGrammar h
  refine ⟨hroot ▸ hmodule, hroot ▸ hname, fun d hd => ((HasName.ofClass hd).isIdentifier h).word,
    fun d hd b hb => ?_, fun d hd a ha => ((HasName.ofAttribute hd ha).isIdentifier h).word⟩
  obtain ⟨b', hb', hbase⟩ := hm.base_of_mem hchained hd
  obtain rfl : b' = b := Option.some.inj (hb'.symm.trans hb)
  rcases hbase with ⟨-, rfl⟩ | he
  · exact hname
  · exact (isIdentifier_of_isClass (hchained.isClass_base he)).word.hasNoBlank

end Plan

/-! ## Heads and declarations -/

namespace Emit

theorem isWord_semanticsName (t : Target) (name : String) :
    IsWord (semanticsName (t.identifier name)) :=
  List.all_eq_true.mpr fun _ => isWordChar_of_mem_semanticsName

theorem unbroken_noticeComment {mark : String} (h : OneLine mark.toList) :
    Unbroken (noticeComment mark) := by
  have hnotice : ∀ line ∈ notice, OneLine line.toList := by
    simp only [notice, List.forall_mem_cons]
    exact ⟨oneLine_ofList rfl, oneLine_ofList rfl, oneLine_ofList rfl, oneLine_ofList rfl,
      oneLine_ofList rfl, oneLine_ofList rfl, nofun⟩
  have hmark : OneLine (mark ++ " ").toList := h.before rfl
  refine everyAll_map_line fun line hl => ?_
  split
  · exact h
  · exact hmark.append (hnotice line hl)

namespace Dataclasses

theorem unbroken_imports {root : RootType} (hmodule : HasNoBlank root.module)
    (hname : HasNoBlank root.name) : Unbroken (imports root) := by
  have hfrom : OneLine ("from " ++ root.module ++ " import ").toList :=
    hmodule.oneLine.between rfl rfl
  refine everyAll_append.mpr ⟨⟨oneLine_ofList rfl, trivial, oneLine_ofList rfl,
    oneLine_ofList rfl, trivial, oneLine_ofList rfl, trivial⟩, ?_⟩
  split
  · trivial
  · exact ⟨hfrom.append hname.oneLine, trivial⟩

theorem unbroken_semantics (name : String) {root : RootType} (hname : HasNoBlank root.name) :
    Unbroken (semantics name root) := by
  have hsemantics := (isWord_semanticsName .python name).hasNoBlank.oneLine
  exact ⟨hsemantics.between rfl rfl, ⟨oneLine_ofList rfl, ⟨oneLine_ofList rfl,
    ⟨oneLine_ofList rfl, hname.oneLine.between rfl rfl, trivial⟩, oneLine_ofList rfl,
    oneLine_ofList rfl, trivial⟩, trivial⟩, trivial⟩

theorem unbroken_preamble {p : Plan} (h : p.Legible) : Unbroken (preamble p) := by
  have hnotice : Unbroken (noticeComment "#") := unbroken_noticeComment (oneLine_ofList rfl)
  have himports := unbroken_imports h.root_module h.root_name
  exact everyAll_append.mpr ⟨everyAll_append.mpr ⟨everyAll_append.mpr
    ⟨everyAll_append.mpr ⟨⟨oneLine_ofList rfl, trivial, hnotice⟩, by decide⟩, himports⟩,
    by decide⟩, unbroken_semantics p.name h.root_name⟩

theorem unbroken_dataclass {name : String} {base : Option String} {attributes : List String}
    (hname : IsWord name) (hbase : ∀ b ∈ base, HasNoBlank b)
    (hattributes : ∀ a ∈ attributes, IsWord a) : Unbroken (dataclass name base attributes) := by
  have hheader : OneLine (header name base).toList := by
    cases base with
    | none => exact hname.hasNoBlank.oneLine.between rfl rfl
    | some b =>
      have hopen : OneLine ("class " ++ name ++ "(").toList :=
        hname.hasNoBlank.oneLine.between rfl rfl
      exact (hopen.append (hbase b rfl).oneLine).before rfl
  have hbody : Unbroken (body attributes) := by
    unfold body
    split
    · exact ⟨oneLine_ofList rfl, trivial⟩
    · exact everyAll_map_line fun a ha => (hattributes a ha).hasNoBlank.oneLine.before rfl
  exact ⟨trivial, trivial, oneLine_ofList rfl, hheader, hbody, trivial⟩

end Dataclasses

namespace Structs

theorem unbroken_braces {head : String} {body : List Layout} (hhead : OneLine head.toList)
    (hbody : Unbroken body) : Unbroken (braces head body) :=
  ⟨hhead.before rfl, hbody, oneLine_ofList rfl, trivial⟩

theorem unbroken_imports {root : RootType} (hmodule : HasNoBlank root.module)
    (hname : HasNoBlank root.name) : Unbroken (imports root) := by
  have huse : OneLine ("use " ++ root.module ++ "::").toList := hmodule.oneLine.between rfl rfl
  refine everyAll_append.mpr ⟨⟨oneLine_ofList rfl, trivial, oneLine_ofList rfl, trivial⟩, ?_⟩
  split
  · trivial
  · exact ⟨trivial, (huse.append hname.oneLine).before rfl, trivial⟩

theorem unbroken_registry {names : List String} (h : ∀ n ∈ names, IsWord n) :
    Unbroken (registry names) := by
  have hentries : Unbroken (names.map fun n => .line ("\"" ++ n ++ "\",")) :=
    everyAll_map_line fun n hn => (h n hn).hasNoBlank.oneLine.between rfl rfl
  exact ⟨oneLine_ofList rfl, oneLine_ofList rfl, hentries, oneLine_ofList rfl, trivial⟩

theorem unbroken_semantics (name : String) : Unbroken (semantics name) := by
  have hname := (isWord_semanticsName .rust name).hasNoBlank.oneLine
  have hstruct : Unbroken (braces ("pub struct " ++ semanticsName (Target.rust.identifier name))
      [.line "pub types: Vec<String>,"]) :=
    unbroken_braces (hname.behind rfl) ⟨oneLine_ofList rfl, trivial⟩
  have hnew : Unbroken (braces "pub fn new(types: Option<Vec<String>>) -> Self"
      [.line "let mut all: Vec<String> = MODEL_TYPES.iter().map(|t| t.to_string()).collect();",
       .line "all.extend(types.unwrap_or_default());",
       .line "Self \x7b types: all \x7d"]) :=
    unbroken_braces (oneLine_ofList rfl) ⟨oneLine_ofList rfl, oneLine_ofList rfl,
      oneLine_ofList rfl, trivial⟩
  exact everyAll_append.mpr ⟨everyAll_append.mpr ⟨⟨oneLine_ofList rfl, hstruct⟩, by decide⟩,
    unbroken_braces (hname.behind rfl) hnew⟩

theorem unbroken_preamble {p : Plan} (h : p.Legible) : Unbroken (preamble p) := by
  have hnotice : Unbroken (noticeComment "//") := unbroken_noticeComment (oneLine_ofList rfl)
  have himports := unbroken_imports h.root_module h.root_name
  have hregistry : Unbroken (registry p.classNames) :=
    unbroken_registry (List.forall_mem_map.mpr h.name)
  exact everyAll_append.mpr ⟨everyAll_append.mpr ⟨everyAll_append.mpr ⟨everyAll_append.mpr
    ⟨everyAll_append.mpr ⟨everyAll_append.mpr ⟨hnotice, by decide⟩, himports⟩, by decide⟩,
    hregistry⟩, by decide⟩, unbroken_semantics p.name⟩

theorem unbroken_fields {base : Option String} {attributes : List String}
    (hbase : ∀ b ∈ base, HasNoBlank b) (hattributes : ∀ a ∈ attributes, IsWord a) :
    Unbroken (fields base attributes) := by
  refine everyAll_append.mpr ⟨everyAll_map_line fun b hb => ?_, everyAll_map_line fun a ha => ?_⟩
  · exact (hbase b (Option.mem_toList.mp hb)).oneLine.between rfl rfl
  · exact (hattributes a ha).hasNoBlank.oneLine.between rfl rfl

theorem unbroken_dereference {name base : String} (hname : IsWord name) (hbase : HasNoBlank base) :
    Unbroken (dereference name base) := by
  have hderef : Unbroken (braces ("fn deref(&self) -> &" ++ base) [.line "&self.base"]) :=
    unbroken_braces (hbase.oneLine.behind rfl) ⟨oneLine_ofList rfl, trivial⟩
  exact ⟨trivial, unbroken_braces (hname.hasNoBlank.oneLine.behind rfl)
    ⟨hbase.oneLine.between rfl rfl, trivial, hderef⟩⟩

theorem unbroken_struct {name : String} {base : Option String} {attributes : List String}
    (hname : IsWord name) (hbase : ∀ b ∈ base, HasNoBlank b)
    (hattributes : ∀ a ∈ attributes, IsWord a) : Unbroken (struct name base attributes) := by
  have hhead : OneLine ("pub struct " ++ name).toList := hname.hasNoBlank.oneLine.behind rfl
  refine everyAll_append.mpr ⟨⟨trivial, oneLine_ofList rfl, trivial⟩, ?_⟩
  split
  · exact ⟨hhead.before rfl, trivial⟩
  · exact unbroken_braces hhead (unbroken_fields hbase hattributes)
  · rename_i b
    exact everyAll_append.mpr ⟨unbroken_braces hhead (unbroken_fields hbase hattributes),
      unbroken_dereference hname (hbase b rfl)⟩

end Structs

end Emit

/-- The lines of a file are the rows of its head and of its declarations. -/
theorem Plan.Legible.lines_render {p : Plan} (h : p.Legible) (t : Target) :
    Text.lines (p.render t).toList = rowsAll 0 (t.preamble p ++ p.decls.flatMap t.declaration) := by
  refine lines_textAll (everyAll_append.mpr ⟨?_, everyAll_flatMap fun d hd => ?_⟩)
  · cases t with
    | python => exact Emit.Dataclasses.unbroken_preamble h
    | rust => exact Emit.Structs.unbroken_preamble h
  · cases t with
    | python =>
      exact Emit.Dataclasses.unbroken_dataclass (h.name d hd) (h.base d hd) (h.attributes d hd)
    | rust => exact Emit.Structs.unbroken_struct (h.name d hd) (h.base d hd) (h.attributes d hd)

end RuleClasses
