import RuleClasses.Grammar.Decoding
import RuleClasses.Proofs.Answers
import Mathlib.Data.List.Nodup
import Mathlib.Data.List.Perm.Basic

/-! The values that stand for an expression, at every depth a list or an object with its entries
in any order. Each of them is read as that expression. -/

namespace RuleClasses

namespace Expr

/-- What a field of an expression holds. -/
inductive Part where
  | text (value : String)
  | body (e : Expr)
  | parts (es : List Expr)

def Part.kind : Part → Tag.FieldKind
  | .text _ => .text
  | .body _ => .body
  | .parts _ => .parts

/-- The fields of an expression in their order. -/
def fieldParts : Expr → List (String × Part)
  | .atom .void | .atom .cut => []
  | .atom (.token s) => [("token", .text s)]
  | .atom (.pattern s) => [("pattern", .text s)]
  | .atom (.call s) => [("rule", .text s)]
  | .bind _ name body => [("name", .text name), ("exp", .body body)]
  | .wrap _ body => [("exp", .body body)]
  | .sequence items => [("items", .parts items)]
  | .choice options => [("options", .parts options)]

def fieldNames (e : Expr) : List String := e.fieldParts.map Prod.fst

mutual

/-- The values that stand for an expression. -/
inductive Form : Expr → Json → Prop where
  /-- The kind first, then the fields in their order. -/
  | list {e : Expr} {fields : List (String × Json)} : FieldForms e.fieldParts fields →
      Form e (.list (.string e.tag.name :: fields.map Prod.snd))
  /-- The kind, the fields and whatever else in any order. -/
  | object {e : Expr} {fields extra entries : List (String × Json)} :
      FieldForms e.fieldParts fields → (∀ x ∈ extra, x.1 ∉ "type" :: e.fieldNames) →
      entries.Perm (("type", .string e.tag.name) :: fields ++ extra) → Form e (.object entries)

inductive FieldForms : List (String × Part) → List (String × Json) → Prop where
  | nil : FieldForms [] []
  | cons {name : String} {p : Part} {j : Json} {ps : List (String × Part)}
      {fields : List (String × Json)} : PartForm p j → FieldForms ps fields →
      FieldForms ((name, p) :: ps) ((name, j) :: fields)

inductive PartForm : Part → Json → Prop where
  | text {s : String} : PartForm (.text s) (.string s)
  | body {e : Expr} {j : Json} : Form e j → PartForm (.body e) j
  | parts {es : List Expr} {js : List Json} : AllForms es js → PartForm (.parts es) (.list js)

inductive AllForms : List Expr → List Json → Prop where
  | nil : AllForms [] []
  | cons {e : Expr} {j : Json} {es : List Expr} {js : List Json} : Form e j → AllForms es js →
      AllForms (e :: es) (j :: js)

end

/-! ## Fields of a kind -/

def Draft.add (d : Draft) : Part → Draft
  | .text s => { d with text := some s }
  | .body e => { d with body := some e }
  | .parts es => { d with parts := some es }

/-- The part that a field of some kind holds. -/
def partOf (kind : Tag.FieldKind) (j : Json) : Except Json.Problem Part :=
  match kind with
  | .text => (textOf j).map .text
  | .body => (ofJson j).map .body
  | .parts => (partsOf j).map .parts

theorem put_eq (d : Draft) (kind : Tag.FieldKind) (j : Json) :
    d.put kind (fun _ => textOf j) (fun _ => ofJson j) (fun _ => partsOf j) =
      (partOf kind j).map d.add := by
  cases kind with
  | text => cases h : textOf j <;> simp [Draft.put, partOf, h, Except.map, Draft.add]
  | body => cases h : ofJson j <;> simp [Draft.put, partOf, h, Except.map, Draft.add]
  | parts => cases h : partsOf j <;> simp [Draft.put, partOf, h, Except.map, Draft.add]

theorem kind_of_partOf {kind : Tag.FieldKind} {j : Json} {p : Part} (h : partOf kind j = .ok p) :
    p.kind = kind := by
  cases kind with
  | text => cases ht : textOf j <;> simp [partOf, ht, Except.map] at h; subst h; rfl
  | body => cases ht : ofJson j <;> simp [partOf, ht, Except.map] at h; subst h; rfl
  | parts => cases ht : partsOf j <;> simp [partOf, ht, Except.map] at h; subst h; rfl

theorem has_add (d : Draft) (p : Part) (kind : Tag.FieldKind) :
    (d.add p).has kind = (decide (p.kind = kind) || d.has kind) := by
  cases p <;> cases kind <;> rfl

theorem add_comm (d : Draft) {p q : Part} (h : p.kind ≠ q.kind) :
    (d.add p).add q = (d.add q).add p := by
  cases p <;> cases q <;> first | rfl | exact absurd rfl h

/-! ## The fields of each expression -/

def Draft.addAll (d : Draft) (ps : List (String × Part)) : Draft :=
  ps.foldl (fun d f => d.add f.2) d

theorem fields_tag (e : Expr) : e.tag.fields = e.fieldParts.map fun f => (f.1, f.2.kind) := by
  match e with
  | .atom a => cases a <;> rfl
  | .bind isList _ _ => cases isList <;> rfl
  | .wrap w _ => cases w <;> rfl
  | .sequence _ | .choice _ => rfl

theorem finish_fieldParts (e : Expr) : (Draft.addAll {} e.fieldParts).finish e.tag = .ok e := by
  match e with
  | .atom a => cases a <;> rfl
  | .bind isList _ _ => cases isList <;> rfl
  | .wrap w _ => cases w <;> rfl
  | .sequence _ | .choice _ => rfl

theorem nodup_kinds (e : Expr) : (e.fieldParts.map fun f => f.2.kind).Nodup := by
  match e with
  | .atom a => cases a <;> simp [fieldParts]
  | .bind _ _ _ => simp [fieldParts, Part.kind]
  | .wrap _ _ | .sequence _ | .choice _ => simp [fieldParts]

theorem fieldKind?_of_mem_fields {t : Tag} {f : String × Tag.FieldKind} (h : f ∈ t.fields) :
    t.fieldKind? f.1 = some f.2 := by
  have hall : ∀ f ∈ t.fields, t.fieldKind? f.1 = some f.2 := by
    cases t <;> simp [Tag.fields, Tag.fieldKind?]
  exact hall f h

theorem fieldKind?_of_notMem_fields {t : Tag} {name : String}
    (h : name ∉ t.fields.map Prod.fst) : t.fieldKind? name = none := by
  rw [Tag.fieldKind?, Option.map_eq_none_iff, List.find?_eq_none]
  intro f hf
  simp only [decide_eq_true_eq]
  rintro rfl
  exact h (List.mem_map_of_mem hf)

theorem fieldNames_tag (e : Expr) : e.tag.fields.map Prod.fst = e.fieldNames := by
  rw [fields_tag, List.map_map]
  rfl

theorem fieldKind?_of_mem {e : Expr} {f : String × Part} (h : f ∈ e.fieldParts) :
    e.tag.fieldKind? f.1 = some f.2.kind := by
  refine fieldKind?_of_mem_fields (f := (f.1, f.2.kind)) ?_
  rw [fields_tag]
  exact List.mem_map_of_mem h

theorem fieldKind?_eq_none {e : Expr} {name : String} (h : name ∉ e.fieldNames) :
    e.tag.fieldKind? name = none :=
  fieldKind?_of_notMem_fields (fieldNames_tag e ▸ h)

theorem fieldKind?_type (t : Tag) : t.fieldKind? "type" = none := by
  cases t <;> decide

/-! ## Entries in any order -/

/-- What one entry adds to a draft. -/
def takeEntry (t : Tag) (d : Draft) (x : String × Json) : Except Json.Problem Draft :=
  match t.fieldKind? x.1 with
  | none => .ok d
  | some kind => if d.has kind then .error (.duplicateField x.1) else (partOf kind x.2).map d.add

theorem ofEntries_cons (t : Tag) (d : Draft) (x : String × Json) (rest : List (String × Json)) :
    ofEntries t d (x :: rest) = takeEntry t d x >>= fun d => ofEntries t d rest := by
  obtain ⟨k, j⟩ := x
  rw [ofEntries, takeEntry]
  cases t.fieldKind? k with
  | none => rfl
  | some kind =>
    simp only [put_eq]
    by_cases h : d.has kind
    · rw [if_pos h, if_pos h]; rfl
    · rw [if_neg h, if_neg h]

theorem ofEntries_cons_iff {t : Tag} {d d' : Draft} {x : String × Json}
    {rest : List (String × Json)} :
    ofEntries t d (x :: rest) = .ok d' ↔
      ∃ d₁, takeEntry t d x = .ok d₁ ∧ ofEntries t d₁ rest = .ok d' := by
  rw [ofEntries_cons, bind_eq_ok]

theorem takeEntry_of_none {t : Tag} {d : Draft} {x : String × Json}
    (h : t.fieldKind? x.1 = none) : takeEntry t d x = .ok d := by
  rw [takeEntry, h]

theorem takeEntry_of_some {t : Tag} {d : Draft} {x : String × Json} {kind : Tag.FieldKind}
    (h : t.fieldKind? x.1 = some kind) : takeEntry t d x =
      if d.has kind then .error (.duplicateField x.1) else (partOf kind x.2).map d.add := by
  rw [takeEntry, h]

theorem takeEntry_iff {t : Tag} {d d' : Draft} {x : String × Json} :
    takeEntry t d x = .ok d' ↔
      (t.fieldKind? x.1 = none ∧ d' = d) ∨
      ∃ p, t.fieldKind? x.1 = some p.kind ∧ d.has p.kind = false ∧ partOf p.kind x.2 = .ok p ∧
        d' = d.add p := by
  constructor
  · intro h
    cases hk : t.fieldKind? x.1 with
    | none =>
      rw [takeEntry_of_none hk] at h
      exact .inl ⟨rfl, (Except.ok.inj h).symm⟩
    | some kind =>
      rw [takeEntry_of_some hk] at h
      split at h
      · cases h
      · rename_i hfree
        obtain ⟨p, hp, rfl⟩ := map_eq_ok.mp h
        obtain rfl := kind_of_partOf hp
        exact .inr ⟨p, rfl, by simpa using hfree, hp, rfl⟩
  · rintro (⟨hk, rfl⟩ | ⟨p, hk, hfree, hp, rfl⟩)
    · exact takeEntry_of_none hk
    · rw [takeEntry_of_some hk, if_neg (by simp [hfree]), hp]
      rfl

theorem takeEntry_swap {t : Tag} {d d₁ d₂ : Draft} {x y : String × Json}
    (hx : takeEntry t d x = .ok d₁) (hy : takeEntry t d₁ y = .ok d₂) :
    ∃ d₃, takeEntry t d y = .ok d₃ ∧ takeEntry t d₃ x = .ok d₂ := by
  rw [takeEntry_iff] at hx hy
  rcases hx with ⟨hnx, rfl⟩ | ⟨p, hkx, hfree, hp, rfl⟩
  · exact ⟨d₂, takeEntry_iff.mpr hy, takeEntry_iff.mpr (.inl ⟨hnx, rfl⟩)⟩
  · rcases hy with ⟨hny, rfl⟩ | ⟨q, hky, hfreey, hq, rfl⟩
    · exact ⟨d, takeEntry_iff.mpr (.inl ⟨hny, rfl⟩),
        takeEntry_iff.mpr (.inr ⟨p, hkx, hfree, hp, rfl⟩)⟩
    · rw [has_add, Bool.or_eq_false_iff, decide_eq_false_iff_not] at hfreey
      refine ⟨d.add q, takeEntry_iff.mpr (.inr ⟨q, hky, hfreey.2, hq, rfl⟩),
        takeEntry_iff.mpr (.inr ⟨p, hkx, ?_, hp, add_comm d hfreey.1⟩)⟩
      rw [has_add, hfree, Bool.or_false, decide_eq_false_iff_not]
      exact Ne.symm hfreey.1

theorem ofEntries_perm {t : Tag} {l l' : List (String × Json)} (h : l.Perm l') {d d' : Draft}
    (hl : ofEntries t d l = .ok d') : ofEntries t d l' = .ok d' := by
  induction h generalizing d with
  | nil => exact hl
  | cons x _ ih =>
    obtain ⟨d₁, hx, hrest⟩ := ofEntries_cons_iff.mp hl
    exact ofEntries_cons_iff.mpr ⟨d₁, hx, ih hrest⟩
  | swap x y _ =>
    obtain ⟨d₁, hy, hrest⟩ := ofEntries_cons_iff.mp hl
    obtain ⟨d₂, hx, hrest⟩ := ofEntries_cons_iff.mp hrest
    obtain ⟨d₃, hx, hy⟩ := takeEntry_swap hy hx
    exact ofEntries_cons_iff.mpr ⟨d₃, hx, ofEntries_cons_iff.mpr ⟨d₂, hy, hrest⟩⟩
  | trans _ _ ih₁ ih₂ => exact ih₂ (ih₁ hl)

/-! ## Forms are read -/

/-- Fields with the parts that are read from their values. -/
abbrev Read (ps : List (String × Part)) (fields : List (String × Json)) : Prop :=
  List.Forall₂ (fun f x => f.1 = x.1 ∧ partOf f.2.kind x.2 = .ok f.2) ps fields

theorem Read.ofItems {ps : List (String × Part)} {fields : List (String × Json)}
    (h : Read ps fields) (t : Tag) (count : Nat) (d : Draft) :
    Expr.ofItems t count d (ps.map fun f => (f.1, f.2.kind)) (fields.map Prod.snd) =
      .ok (d.addAll ps) := by
  induction h generalizing count d with
  | nil => rfl
  | @cons f x ps fields hf _ ih =>
    simp only [List.map_cons, Expr.ofItems, put_eq, hf.2]
    exact ih (count + 1) (d.add f.2)

theorem Read.ofEntries {ps : List (String × Part)} {fields : List (String × Json)}
    (h : Read ps fields) {t : Tag} {d : Draft}
    (hkinds : ∀ f ∈ ps, t.fieldKind? f.1 = some f.2.kind)
    (hnodup : (ps.map fun f => f.2.kind).Nodup) (hfree : ∀ f ∈ ps, d.has f.2.kind = false)
    {extra : List (String × Json)} (hextra : ∀ x ∈ extra, t.fieldKind? x.1 = none) :
    Expr.ofEntries t d (fields ++ extra) = .ok (d.addAll ps) := by
  induction h generalizing d with
  | nil =>
    induction extra with
    | nil => rfl
    | cons x extra ih =>
      refine ofEntries_cons_iff.mpr ⟨d, takeEntry_iff.mpr (.inl ⟨?_, rfl⟩), ?_⟩
      · exact hextra x List.mem_cons_self
      · exact ih fun y hy => hextra y (List.mem_cons_of_mem x hy)
  | @cons f x ps fields hf _ ih =>
    rw [List.map_cons, List.nodup_cons] at hnodup
    have hx : takeEntry t d x = .ok (d.add f.2) := by
      refine takeEntry_iff.mpr (.inr ⟨f.2, ?_, hfree f List.mem_cons_self, hf.2, rfl⟩)
      rw [← hf.1]
      exact hkinds f List.mem_cons_self
    refine ofEntries_cons_iff.mpr ⟨d.add f.2, hx,
      ih (fun g hg => hkinds g (List.mem_cons_of_mem f hg)) hnodup.2 fun g hg => ?_⟩
    have hne : f.2.kind ≠ g.2.kind := fun he => hnodup.1 (he ▸ List.mem_map_of_mem hg)
    rw [has_add, hfree g (List.mem_cons_of_mem f hg), Bool.or_false, decide_eq_false_iff_not]
    exact hne

theorem Read.names {ps : List (String × Part)} {fields : List (String × Json)}
    (h : Read ps fields) : fields.map Prod.fst = ps.map Prod.fst := by
  induction h with
  | nil => rfl
  | cons hf _ ih => rw [List.map_cons, List.map_cons, ih, hf.1]

theorem tagOfEntries_filter (seen : Option Tag) (entries : List (String × Json)) :
    Tag.ofEntries seen (entries.filter fun x => x.1 = "type") = Tag.ofEntries seen entries := by
  induction entries generalizing seen with
  | nil => rfl
  | cons x rest ih =>
    obtain ⟨k, j⟩ := x
    by_cases hk : k = "type"
    · subst hk
      simp only [List.filter_cons_of_pos, decide_true, Tag.ofEntries, if_true, ih]
    · simp only [List.filter_cons, hk, decide_false, Bool.false_eq_true, if_false, Tag.ofEntries,
        ih]

theorem ofEntries_filter (t : Tag) (d : Draft) (entries : List (String × Json)) :
    ofEntries t d (entries.filter fun x => x.1 ≠ "type") = ofEntries t d entries := by
  induction entries generalizing d with
  | nil => rfl
  | cons x rest ih =>
    obtain ⟨k, j⟩ := x
    by_cases hk : k = "type"
    · subst hk
      rw [List.filter_cons_of_neg (by simp), ih, ofEntries, fieldKind?_type]
    · rw [List.filter_cons_of_pos (by simpa using hk), ofEntries, ofEntries]
      simp only [ih]

theorem type_notMem_fields (t : Tag) : "type" ∉ t.fields.map Prod.fst := by
  intro h
  obtain ⟨f, hf, hname⟩ := List.mem_map.mp h
  have hkind := fieldKind?_of_mem_fields hf
  rw [hname, fieldKind?_type] at hkind
  cases hkind

/-- Among the entries of an expression there is one kind. -/
theorem filter_type_of_perm {t : Tag} {kind : Json} {fields extra entries : List (String × Json)}
    (hnames : fields.map Prod.fst = t.fields.map Prod.fst)
    (hextra : ∀ x ∈ extra, x.1 ∉ "type" :: t.fields.map Prod.fst)
    (hperm : entries.Perm (("type", kind) :: fields ++ extra)) :
    (entries.filter fun x => x.1 = "type") = [("type", kind)] := by
  have hnone : ((fields ++ extra).filter fun x => x.1 = "type") = [] := by
    refine List.filter_eq_nil_iff.mpr fun x hx => ?_
    rw [decide_eq_true_eq]
    intro htype
    rcases List.mem_append.mp hx with hx | hx
    · refine type_notMem_fields t ?_
      rw [← hnames, ← htype]
      exact List.mem_map_of_mem hx
    · exact hextra x hx (by simp [htype])
  have hfilter := hperm.filter fun x => x.1 = "type"
  rw [List.cons_append, List.filter_cons_of_pos (by simp), hnone] at hfilter
  exact List.perm_singleton.mp hfilter

theorem tagOfJson_name (t : Tag) : Tag.ofJson (.string t.name) = .ok t := by
  rw [Tag.ofJson, Tag.ofText, Tag.ofName?_name]

theorem tagOfEntries_name (t : Tag) : Tag.ofEntries none [("type", .string t.name)] = .ok t := by
  rw [Tag.ofEntries, if_pos rfl, tagOfJson_name]
  rfl

section

variable {e : Expr} {fields extra entries : List (String × Json)}

/-- Among the entries of an expression there is one kind, and the others hold its fields. -/
theorem Read.object (h : Read e.fieldParts fields)
    (hextra : ∀ x ∈ extra, x.1 ∉ "type" :: e.fieldNames)
    (hperm : entries.Perm (("type", .string e.tag.name) :: fields ++ extra)) :
    (entries.filter fun x => x.1 = "type") = [("type", .string e.tag.name)] ∧
      ∃ d, Expr.ofEntries e.tag {} entries = .ok d ∧ d.finish e.tag = .ok e := by
  refine ⟨filter_type_of_perm (h.names.trans (fieldNames_tag e).symm)
    (fieldNames_tag e ▸ hextra) hperm, Draft.addAll {} e.fieldParts, ?_, finish_fieldParts e⟩
  refine ofEntries_perm hperm.symm
    (ofEntries_cons_iff.mpr ⟨{}, takeEntry_of_none (fieldKind?_type _), ?_⟩)
  refine h.ofEntries (fun f hf => fieldKind?_of_mem hf) (nodup_kinds e) (fun f _ => ?_)
    fun x hx => fieldKind?_eq_none fun hmem => hextra x hx (List.mem_cons_of_mem _ hmem)
  cases f.2.kind <;> rfl

end

mutual

theorem Form.ofJson {e : Expr} {j : Json} (h : Form e j) : Expr.ofJson j = .ok e := by
  match h with
  | .list hfields =>
    refine bind_eq_ok.mpr ⟨e.tag, tagOfJson_name e.tag, bind_eq_ok.mpr ⟨_, ?_, finish_fieldParts e⟩⟩
    rw [fields_tag]
    exact hfields.read.ofItems e.tag 0 {}
  | .object hfields hextra hperm =>
    obtain ⟨htype, d, hd, hfinish⟩ := hfields.read.object hextra hperm
    refine bind_eq_ok.mpr ⟨e.tag, ?_, bind_eq_ok.mpr ⟨d, hd, hfinish⟩⟩
    rw [← tagOfEntries_filter, htype]
    exact tagOfEntries_name e.tag

theorem FieldForms.read {ps : List (String × Part)} {fields : List (String × Json)}
    (h : FieldForms ps fields) : Read ps fields := by
  match h with
  | .nil => exact .nil
  | .cons hp hrest => exact .cons ⟨rfl, hp.read⟩ hrest.read

theorem PartForm.read {p : Part} {j : Json} (h : PartForm p j) : partOf p.kind j = .ok p := by
  match h with
  | .text => rfl
  | .body he => rw [Part.kind, partOf, he.ofJson]; rfl
  | .parts hes => rw [Part.kind, partOf, partsOf, hes.ofAll]; rfl

theorem AllForms.ofAll {es : List Expr} {js : List Json} (h : AllForms es js) :
    Expr.ofAll js = .ok es := by
  match h with
  | .nil => rfl
  | .cons he hes => rw [Expr.ofAll, he.ofJson, hes.ofAll]; rfl

end

end Expr

end RuleClasses
