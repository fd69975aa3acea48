import RuleClasses.Proofs.Sources

/-! What can be read back from a source file. The blocks of a file follow each other without
a mark in between, but from its first line on every block says where it ends: a dataclass at
the next empty line, a struct at a semicolon or at a closing brace, behind which there is a
second part when the struct has a base. So two files are the same only when their blocks are,
one after the other. -/

namespace RuleClasses

open Layout
open Text (IsWord)

/-- What is written of a declaration. The rule that has the class is left out. -/
def Decl.shape (d : Decl) : String × Option String × List String :=
  (d.name, d.base?, d.attributes)

namespace Emit

theorem semanticsName_inj {a b : String} : semanticsName a = semanticsName b ↔ a = b :=
  String.append_left_inj _

/-! ## Dataclasses -/

namespace Dataclasses

theorem header_inj {n m : String} {b c : Option String} (hn : IsWord n) (hm : IsWord m)
    (h : header n b = header m c) : n = m ∧ b = c := by
  have hbare : ∀ n, (header n none).toList = "class ".toList ++ (n.toList ++ ':' :: []) := by
    simp [header]
  have hbased : ∀ n b, (header n (some b)).toList =
      "class ".toList ++ (n.toList ++ '(' :: (b.toList ++ "):".toList)) := by
    simp [header]
  have hcolon := Text.isWordChar_mark (c := ':') (by decide)
  have hparen := Text.isWordChar_mark (c := '(') (by decide)
  have h := congrArg String.toList h
  cases b with
  | none =>
    cases c with
    | none =>
      rw [hbare, hbare] at h
      exact ⟨(hn.append_inj hm hcolon hcolon (List.append_cancel_left h)).1, rfl⟩
    | some c =>
      rw [hbare, hbased] at h
      exact absurd (hn.append_inj hm hcolon hparen (List.append_cancel_left h)).2.1 (by decide)
  | some b =>
    cases c with
    | none =>
      rw [hbased, hbare] at h
      exact absurd (hn.append_inj hm hparen hcolon (List.append_cancel_left h)).2.1 (by decide)
    | some c =>
      rw [hbased, hbased] at h
      obtain ⟨rfl, -, hbase⟩ := hn.append_inj hm hparen hparen (List.append_cancel_left h)
      rw [String.toList_inj.mp (List.append_cancel_right hbase)]
      exact ⟨rfl, rfl⟩

theorem ne_nil_of_mem_body {attributes : List String} {r : List Char}
    (h : r ∈ rowsAll 1 (body attributes)) : r ≠ [] := by
  unfold body at h
  split at h
  · rw [List.mem_singleton.mp h]
    decide
  · rw [rowsAll_map_line] at h
    obtain ⟨a, -, rfl⟩ := List.mem_map.mp h
    exact row_ne_nil (by simp)

/-- No attribute looks like `pass`, since a colon follows it. -/
theorem body_inj {as bs : List String} (h : rowsAll 1 (body as) = rowsAll 1 (body bs)) :
    as = bs := by
  have hrow : ∀ a b : String, row 1 (a ++ ": Any = None") = row 1 (b ++ ": Any = None") → a = b :=
    fun a b h => (String.append_left_inj _).mp (row_inj.mp h)
  have hpass : ∀ b : String, row 1 "pass" ≠ row 1 (b ++ ": Any = None") := by
    intro b h
    have hcolon : ':' ∈ "pass".toList := by rw [row_inj.mp h]; simp
    exact absurd hcolon (by decide)
  have hbody : ∀ (a : String) (as : List String), rowsAll 1 (body (a :: as)) =
      (a :: as).map fun a => row 1 (a ++ ": Any = None") := fun a as =>
    rowsAll_map_line 1 (fun a => a ++ ": Any = None") (a :: as)
  cases as with
  | nil =>
    cases bs with
    | nil => rfl
    | cons b bs =>
      rw [hbody] at h
      exact absurd (List.cons.inj h).1 (hpass b)
  | cons a as =>
    cases bs with
    | nil =>
      rw [hbody] at h
      exact absurd (List.cons.inj h).1.symm (hpass a)
    | cons b bs =>
      rw [hbody, hbody] at h
      exact List.map_injective_iff.mpr hrow h

theorem dataclass_append_inj {n m : String} {b c : Option String} {as bs : List String}
    (hn : IsWord n) (hm : IsWord m) {r s : List (List Char)} (hr : ∀ x ∈ r.head?, x = [])
    (hs : ∀ x ∈ s.head?, x = [])
    (h : rowsAll 0 (dataclass n b as) ++ r = rowsAll 0 (dataclass m c bs) ++ s) :
    (n, b, as) = (m, c, bs) ∧ r = s := by
  have hrows : ∀ (n : String) (b : Option String) (as : List String),
      rowsAll 0 (dataclass n b as) = [] :: [] :: "@dataclass(eq=False)".toList ::
        (header n b).toList :: rowsAll 1 (body as) := by
    simp [dataclass, rowsAll, rows]
  simp only [hrows, List.cons_append, List.cons.injEq, true_and] at h
  obtain ⟨rfl, rfl⟩ := header_inj hn hm (String.toList_inj.mp h.1)
  obtain ⟨hbody, rfl⟩ := append_inj_of_stop (p := fun x => decide (x ≠ []))
    (fun x hx => by simpa using ne_nil_of_mem_body hx)
    (fun x hx => by simpa using ne_nil_of_mem_body hx)
    (fun x hx => by simpa using hr x hx) (fun x hx => by simpa using hs x hx) h.2
  rw [body_inj hbody]
  exact ⟨rfl, rfl⟩

theorem exists_rows_dataclass (name : String) (base : Option String) (attributes : List String) :
    ∃ rest, rowsAll 0 (dataclass name base attributes) = [] :: rest := ⟨_, rfl⟩

/-- An import stands where the other file has an empty line. -/
theorem imports_append_inj {a b : RootType} {r s : List (List Char)}
    (h : rowsAll 0 (imports a) ++ [] :: r = rowsAll 0 (imports b) ++ [] :: s) : r = s := by
  have hline : ∀ a : RootType, row 0 ("from " ++ a.module ++ " import " ++ a.name) ≠ [] :=
    fun a => row_ne_nil (by simp)
  simp only [imports, rowsAll_append, List.append_assoc] at h
  have h := List.append_cancel_left h
  split at h <;> split at h
  · exact (List.cons.inj h).2
  · exact absurd (List.cons.inj h).1.symm (hline b)
  · exact absurd (List.cons.inj h).1 (hline a)
  · exact (List.cons.inj (List.cons.inj h).2).2

theorem semantics_append_inj {a b : String} {x y : RootType} {r s : List (List Char)}
    (h : rowsAll 0 (semantics a x) ++ r = rowsAll 0 (semantics b y) ++ s) :
    Target.python.identifier a = Target.python.identifier b ∧ r = s := by
  simp only [semantics, rowsAll, rows, List.cons_append, List.nil_append, List.append_nil,
    List.cons.injEq, true_and] at h
  obtain ⟨hclass, -, hrest⟩ := h
  have hname := (String.append_right_inj _).mp ((String.append_left_inj _).mp (row_inj.mp hclass))
  exact ⟨semanticsName_inj.mp hname, hrest⟩

theorem preamble_append_inj {p q : Plan} {r s : List (List Char)}
    (h : rowsAll 0 (preamble p) ++ r = rowsAll 0 (preamble q) ++ s) :
    Target.python.identifier p.name = Target.python.identifier q.name ∧ r = s := by
  simp only [preamble, rowsAll_append, List.append_assoc] at h
  have himports := List.append_cancel_left (List.append_cancel_left (List.append_cancel_left h))
  have hblank := imports_append_inj himports
  exact semantics_append_inj (List.cons.inj hblank).2

end Dataclasses

/-! ## Structs -/

namespace Structs

theorem rows_fields (base : Option String) (attributes : List String) :
    rowsAll 1 (fields base attributes) =
      (base.toList.map fun b => row 1 ("pub base: " ++ b ++ ",")) ++
        attributes.map fun a => row 1 ("pub " ++ a ++ ": Option<Value>,") := by
  rw [fields, rowsAll_append, rowsAll_map_line, rowsAll_map_line]

theorem ne_brace_of_mem_fields {base : Option String} {attributes : List String} {r : List Char}
    (h : r ∈ rowsAll 1 (fields base attributes)) : r ≠ "\x7d".toList := by
  rw [rows_fields] at h
  rcases List.mem_append.mp h with h | h
  · obtain ⟨b, -, rfl⟩ := List.mem_map.mp h
    simp [row]
  · obtain ⟨a, -, rfl⟩ := List.mem_map.mp h
    simp [row]

theorem fields_inj {base : Option String} {as bs : List String}
    (h : rowsAll 1 (fields base as) = rowsAll 1 (fields base bs)) : as = bs := by
  have hrow : Function.Injective fun a => row 1 ("pub " ++ a ++ ": Option<Value>,") :=
    fun a b h => (String.append_right_inj _).mp ((String.append_left_inj _).mp (row_inj.mp h))
  rw [rows_fields, rows_fields] at h
  exact List.map_injective_iff.mpr hrow (List.append_cancel_left h)

/-- The first field of a struct with a base is the base. -/
theorem base_of_fields {b c : String} {as bs : List String}
    (h : rowsAll 1 (fields (some b) as) = rowsAll 1 (fields (some c) bs)) : b = c := by
  rw [rows_fields, rows_fields] at h
  have hrow := (List.cons.inj h).1
  exact (String.append_right_inj _).mp ((String.append_left_inj _).mp (row_inj.mp hrow))

/-- A struct starts as every other one, or the file is at its end. -/
def AtStruct (r : List (List Char)) : Prop :=
  r = [] ∨ ∃ rest, r = [] :: "#[derive(Debug, Clone, Default)]".toList :: rest

theorem rows_unit (name : String) : rowsAll 0 (struct name none []) =
    [[], "#[derive(Debug, Clone, Default)]".toList, row 0 ("pub struct " ++ name ++ ";")] := by
  simp [struct, derives, rowsAll, rows]

/-- A struct with fields, and behind its brace the second part that comes with a base. -/
theorem rows_struct {base : Option String} {attributes : List String}
    (h : ¬ (base = none ∧ attributes = [])) (name : String) :
    rowsAll 0 (struct name base attributes) = [] :: "#[derive(Debug, Clone, Default)]".toList ::
      row 0 ("pub struct " ++ name ++ " \x7b") :: (rowsAll 1 (fields base attributes) ++
        "\x7d".toList :: rowsAll 0 (base.elim [] (dereference name))) := by
  cases base with
  | none =>
    cases attributes with
    | nil => exact absurd ⟨rfl, rfl⟩ h
    | cons a as => simp [struct, braces, derives, rowsAll, rows]
  | some b => simp [struct, braces, derives, rowsAll, rows]

theorem exists_rows_struct (name : String) (base : Option String) (attributes : List String) :
    ∃ rest, rowsAll 0 (struct name base attributes) =
      [] :: "#[derive(Debug, Clone, Default)]".toList :: rest := by
  by_cases hunit : base = none ∧ attributes = []
  · obtain ⟨rfl, rfl⟩ := hunit
    exact ⟨_, rows_unit name⟩
  · exact ⟨_, rows_struct hunit name⟩

theorem AtStruct.ne_dereference {r : List (List Char)} (hr : AtStruct r) (name base : String)
    (s : List (List Char)) : rowsAll 0 (dereference name base) ++ s ≠ r := by
  intro h
  rcases hr with rfl | ⟨rest, rfl⟩
  · simp [dereference, rowsAll, rows] at h
  · simp [dereference, braces, rowsAll, rows] at h

/-- A name ends at a semicolon, or at the blank in front of a brace. -/
theorem header_inj {n m : String} (hn : IsWord n) (hm : IsWord m) {x y : String}
    (hx : x ∈ [";", " \x7b"]) (hy : y ∈ [";", " \x7b"])
    (h : row 0 ("pub struct " ++ n ++ x) = row 0 ("pub struct " ++ m ++ y)) : n = m ∧ x = y := by
  have hstop : ∀ x ∈ [";", " \x7b"], ∀ c ∈ x.toList.head?, ¬ Text.isWordChar c := by
    simp [Text.isWordChar_mark]
  have h := congrArg String.toList (row_inj.mp h)
  simp only [String.toList_append, List.append_assoc] at h
  obtain ⟨hname, hend⟩ := append_inj_of_stop (fun _ => hn.isWordChar) (fun _ => hm.isWordChar)
    (hstop x hx) (hstop y hy) (List.append_cancel_left h)
  exact ⟨String.toList_inj.mp hname, String.toList_inj.mp hend⟩

theorem struct_append_inj {n m : String} {b c : Option String} {as bs : List String}
    (hn : IsWord n) (hm : IsWord m) {r s : List (List Char)} (hr : AtStruct r) (hs : AtStruct s)
    (h : rowsAll 0 (struct n b as) ++ r = rowsAll 0 (struct m c bs) ++ s) :
    (n, b, as) = (m, c, bs) ∧ r = s := by
  by_cases hunit : b = none ∧ as = []
  · obtain ⟨rfl, rfl⟩ := hunit
    by_cases hunit' : c = none ∧ bs = []
    · obtain ⟨rfl, rfl⟩ := hunit'
      simp only [rows_unit, List.cons_append, List.cons.injEq, true_and, List.nil_append] at h
      obtain ⟨rfl, -⟩ := header_inj hn hm (by simp) (by simp) h.1
      exact ⟨rfl, h.2⟩
    · simp only [rows_unit, rows_struct hunit', List.cons_append, List.cons.injEq, true_and] at h
      exact absurd (header_inj hn hm (by simp) (by simp) h.1).2 (by decide)
  · by_cases hunit' : c = none ∧ bs = []
    · obtain ⟨rfl, rfl⟩ := hunit'
      simp only [rows_unit, rows_struct hunit, List.cons_append, List.cons.injEq, true_and] at h
      exact absurd (header_inj hn hm (by simp) (by simp) h.1).2 (by decide)
    · simp only [rows_struct hunit, rows_struct hunit', List.cons_append, List.append_assoc,
        List.cons.injEq, true_and] at h
      obtain ⟨rfl, -⟩ := header_inj hn hm (by simp) (by simp) h.1
      -- the fields end at the first brace, and what is behind it shows if there is a base
      obtain ⟨hfields, hrest⟩ := append_inj_of_stop (p := fun x => decide (x ≠ "\x7d".toList))
        (fun x hx => by simpa using ne_brace_of_mem_fields hx)
        (fun x hx => by simpa using ne_brace_of_mem_fields hx) (by simp) (by simp) h.2
      have hrest := (List.cons.inj hrest).2
      cases b with
      | none =>
        cases c with
        | none =>
          rw [fields_inj hfields]
          exact ⟨rfl, hrest⟩
        | some c => exact absurd hrest.symm (hr.ne_dereference n c s)
      | some b =>
        cases c with
        | none => exact absurd hrest (hs.ne_dereference n b r)
        | some c =>
          obtain rfl := base_of_fields hfields
          rw [fields_inj hfields]
          exact ⟨rfl, List.append_cancel_left hrest⟩

/-- An import stands where the other file goes on with something else. -/
theorem imports_append_inj {a b : RootType} {x y : List Char} {r s : List (List Char)}
    (hx : x.head? ≠ some 'u') (hy : y.head? ≠ some 'u')
    (h : rowsAll 0 (imports a) ++ [] :: x :: r = rowsAll 0 (imports b) ++ [] :: y :: s) :
    x :: r = y :: s := by
  have hline : ∀ a : RootType,
      (row 0 ("use " ++ a.module ++ "::" ++ a.name ++ ";")).head? = some 'u' := by
    simp
  simp only [imports, rowsAll_append, List.append_assoc] at h
  have h := List.append_cancel_left h
  split at h <;> split at h
  · exact (List.cons.inj h).2
  · have hhead := (List.cons.inj (List.cons.inj h).2).1
    exact absurd (hhead ▸ hline b) hx
  · have hhead := (List.cons.inj (List.cons.inj h).2).1
    exact absurd (hhead ▸ hline a) hy
  · exact (List.cons.inj (List.cons.inj (List.cons.inj h).2).2).2

theorem rows_registry (names : List String) : rowsAll 0 (registry names) =
    row 0 "/// Every model type declared in this file, bases first." ::
      row 0 "pub const MODEL_TYPES: &[&str] = &[" ::
        ((names.map fun n => row 1 ("\"" ++ n ++ "\",")) ++ [row 0 "];"]) := by
  simp [registry, rowsAll, rows, rowsAll_map_line]

theorem registry_append_inj {ns ms : List String} {r s : List (List Char)}
    (h : rowsAll 0 (registry ns) ++ r = rowsAll 0 (registry ms) ++ s) : r = s := by
  have hentry : ∀ names : List String, ∀ x ∈ names.map fun n => row 1 ("\"" ++ n ++ "\","),
      decide (x ≠ row 0 "];") = true := by
    intro names x hx
    obtain ⟨n, -, rfl⟩ := List.mem_map.mp hx
    simp [row]
  simp only [rows_registry, List.cons_append, List.append_assoc, List.cons.injEq, true_and] at h
  obtain ⟨-, hrest⟩ := append_inj_of_stop (hentry ns) (hentry ms) (by simp) (by simp) h
  exact (List.cons.inj hrest).2

theorem semantics_append_inj {a b : String} {r s : List (List Char)}
    (h : rowsAll 0 (semantics a) ++ r = rowsAll 0 (semantics b) ++ s) :
    Target.rust.identifier a = Target.rust.identifier b ∧ r = s := by
  simp only [semantics, derives, braces, rowsAll, rows, List.cons_append, List.nil_append,
    List.append_nil, List.cons.injEq, true_and] at h
  obtain ⟨hstruct, -, hrest⟩ := h
  have hname := (String.append_right_inj _).mp ((String.append_left_inj _).mp (row_inj.mp hstruct))
  exact ⟨semanticsName_inj.mp hname, hrest⟩

theorem preamble_append_inj {p q : Plan} {r s : List (List Char)}
    (h : rowsAll 0 (preamble p) ++ r = rowsAll 0 (preamble q) ++ s) :
    Target.rust.identifier p.name = Target.rust.identifier q.name ∧ r = s := by
  simp only [preamble, rowsAll_append, List.append_assoc] at h
  have himports := List.append_cancel_left (List.append_cancel_left h)
  have hregistry := registry_append_inj (imports_append_inj (by decide) (by decide) himports)
  exact semantics_append_inj (List.cons.inj hregistry).2

end Structs

end Emit

/-! ## Whole files -/

namespace Target

theorem preamble_append_inj {t : Target} {p q : Plan} {r s : List (List Char)}
    (h : rowsAll 0 (t.preamble p) ++ r = rowsAll 0 (t.preamble q) ++ s) :
    t.identifier p.name = t.identifier q.name ∧ r = s := by
  cases t with
  | python => exact Emit.Dataclasses.preamble_append_inj h
  | rust => exact Emit.Structs.preamble_append_inj h

theorem exists_rows_declaration (t : Target) (d : Decl) :
    ∃ rest, rowsAll 0 (t.declaration d) = [] :: rest := by
  cases t with
  | python => exact Emit.Dataclasses.exists_rows_dataclass _ _ _
  | rust =>
    obtain ⟨rest, h⟩ := Emit.Structs.exists_rows_struct d.name d.base? d.attributes
    exact ⟨_, h⟩

/-- The block of a declaration says where it ends, if nothing but blocks follow it. -/
theorem declaration_append_inj {t : Target} {d e : Decl} (hd : IsWord d.name)
    (he : IsWord e.name) {ds es : List Decl}
    (h : rowsAll 0 (t.declaration d) ++ rowsAll 0 (ds.flatMap t.declaration) =
      rowsAll 0 (t.declaration e) ++ rowsAll 0 (es.flatMap t.declaration)) :
    d.shape = e.shape ∧
      rowsAll 0 (ds.flatMap t.declaration) = rowsAll 0 (es.flatMap t.declaration) := by
  cases t with
  | python =>
    have hblank : ∀ ds : List Decl, ∀ x ∈ (rowsAll 0 (ds.flatMap python.declaration)).head?,
        x = [] := by
      rintro (_ | ⟨d, ds⟩) x hx
      · cases hx
      · obtain ⟨rest, hd⟩ := exists_rows_declaration python d
        rw [List.flatMap_cons, rowsAll_append, hd] at hx
        exact (Option.some.inj hx).symm
    exact Emit.Dataclasses.dataclass_append_inj hd he (hblank ds) (hblank es) h
  | rust =>
    have hstruct : ∀ ds : List Decl,
        Emit.Structs.AtStruct (rowsAll 0 (ds.flatMap rust.declaration)) := by
      rintro (_ | ⟨d, ds⟩)
      · exact .inl rfl
      · obtain ⟨rest, hd⟩ := Emit.Structs.exists_rows_struct d.name d.base? d.attributes
        rw [List.flatMap_cons, rowsAll_append, declaration, hd]
        exact .inr ⟨_, rfl⟩
    exact Emit.Structs.struct_append_inj hd he (hstruct ds) (hstruct es) h

theorem shapes_inj {t : Target} {ds es : List Decl} (hds : ∀ d ∈ ds, IsWord d.name)
    (hes : ∀ e ∈ es, IsWord e.name)
    (h : rowsAll 0 (ds.flatMap t.declaration) = rowsAll 0 (es.flatMap t.declaration)) :
    ds.map Decl.shape = es.map Decl.shape := by
  have hne : ∀ (d : Decl) (ds : List Decl),
      rowsAll 0 ((d :: ds).flatMap t.declaration) ≠ rowsAll 0 ([].flatMap t.declaration) := by
    intro d ds
    obtain ⟨rest, hd⟩ := t.exists_rows_declaration d
    rw [List.flatMap_cons, rowsAll_append, hd]
    exact List.cons_ne_nil _ _
  induction ds generalizing es with
  | nil =>
    cases es with
    | nil => rfl
    | cons e es => exact absurd h.symm (hne e es)
  | cons d ds ih =>
    cases es with
    | nil => exact absurd h (hne d ds)
    | cons e es =>
      obtain ⟨hd, hds⟩ := List.forall_mem_cons.mp hds
      obtain ⟨he, hes⟩ := List.forall_mem_cons.mp hes
      simp only [List.flatMap_cons, rowsAll_append] at h
      obtain ⟨hshape, hrest⟩ := declaration_append_inj hd he h
      rw [List.map_cons, List.map_cons, hshape, ih hds hes hrest]

end Target

/-! ## Main result -/

namespace Plan

/-- **Nothing is lost in a file.** The same text is written of two plans only if the builder
semantics has the same name in both, and they declare the same classes in the same order, with
the same bases and attributes. -/
theorem render_inj {t : Target} {p q : Plan} (hp : p.Legible) (hq : q.Legible)
    (h : p.render t = q.render t) : t.identifier p.name = t.identifier q.name ∧
      p.decls.map Decl.shape = q.decls.map Decl.shape := by
  have hlines : Text.lines (p.render t).toList = Text.lines (q.render t).toList := by rw [h]
  rw [hp.lines_render, hq.lines_render, rowsAll_append, rowsAll_append] at hlines
  obtain ⟨hname, hdecls⟩ := Target.preamble_append_inj hlines
  exact ⟨hname, Target.shapes_inj hp.name hq.name hdecls⟩

/-- The plans differ in their names, which become the same identifier, and in a rule. -/
theorem render_inj_of_other_rule :
    ∃ p q : Plan, p ≠ q ∧ p.Legible ∧ q.Legible ∧ p.render .python = q.render .python ∧
      Target.python.identifier p.name = Target.python.identifier q.name ∧
      p.decls.map Decl.shape = q.decls.map Decl.shape := by
  have h : Plan.render ⟨"class", ⟨"ast", "Node"⟩, [.base "ModelBase" (some "Node"),
        .rule "Num" "ModelBase" "num" ["value"]]⟩ .python =
      Plan.render ⟨"class_", ⟨"ast", "Node"⟩, [.base "ModelBase" (some "Node"),
        .rule "Num" "ModelBase" "number" ["value"]]⟩ .python := by
    rfl
  have hp : Plan.Legible ⟨"class", ⟨"ast", "Node"⟩, [.base "ModelBase" (some "Node"),
      .rule "Num" "ModelBase" "num" ["value"]]⟩ :=
    ⟨by decide, by decide, by decide, by decide, by decide⟩
  have hq : Plan.Legible ⟨"class_", ⟨"ast", "Node"⟩, [.base "ModelBase" (some "Node"),
      .rule "Num" "ModelBase" "number" ["value"]]⟩ :=
    ⟨by decide, by decide, by decide, by decide, by decide⟩
  exact ⟨_, _, by decide, hp, hq, h, render_inj hp hq h⟩

end Plan

end RuleClasses
