import RuleClasses.Proofs.GrammarForms
import RuleClasses.Proofs.PartialTexts

/-! Expressions of which one, at any depth, has a kind that does not exist. Nothing but that is
wrong with them, and it is told at the rule that the expression belongs to. -/

namespace RuleClasses

open Json

namespace Expr

/-! ## Expressions with one wrong part -/

/-- A field with an expression inside it. -/
inductive HoldsPart (inner : Json) : Tag.FieldKind → Json → Prop where
  | body : HoldsPart inner .body inner
  | item {before after : List Json} : (∀ j ∈ before, ∃ e, ofJson j = .ok e) →
      (∀ j ∈ after, ∃ e, ofJson j = .ok e) →
      HoldsPart inner .parts (.list (before ++ inner :: after))

/-- The fields of a kind, each of them valid. -/
abbrev ValidFields (fs : List (String × Tag.FieldKind)) (fields : List (String × Json)) : Prop :=
  List.Forall₂ (fun f x => f.1 = x.1 ∧ ∃ p, partOf f.2 x.2 = .ok p) fs fields

/-- The fields of a kind, one of them with an expression inside it and the others valid. -/
inductive HoldsField (inner : Json) :
    List (String × Tag.FieldKind) → List (String × Json) → Prop where
  | here {name : String} {kind : Tag.FieldKind} {j : Json} {fs : List (String × Tag.FieldKind)}
      {fields : List (String × Json)} : HoldsPart inner kind j → ValidFields fs fields →
      HoldsField inner ((name, kind) :: fs) ((name, j) :: fields)
  | there {name : String} {kind : Tag.FieldKind} {j : Json} {p : Part}
      {fs : List (String × Tag.FieldKind)} {fields : List (String × Json)} :
      partOf kind j = .ok p → HoldsField inner fs fields →
      HoldsField inner ((name, kind) :: fs) ((name, j) :: fields)

/-- An expression that is valid but for one of the expressions right inside it. -/
inductive Holds (inner : Json) : Json → Prop where
  | list {t : Tag} {kind : Json} {fields : List (String × Json)} : Tag.ofJson kind = .ok t →
      HoldsField inner t.fields fields → Holds inner (.list (kind :: fields.map Prod.snd))
  | object {t : Tag} {kind : Json} {fields extra entries : List (String × Json)} :
      Tag.ofJson kind = .ok t → HoldsField inner t.fields fields →
      (∀ x ∈ extra, x.1 ∉ "type" :: t.fields.map Prod.fst) →
      entries.Perm (("type", kind) :: fields ++ extra) → Holds inner (.object entries)

/-- An expression that is valid but for an object inside it, so many levels down, of which the
kind does not exist. -/
inductive Misnamed (variant : String) : Nat → Json → Prop where
  | here {entries : List (String × Json)} :
      (entries.filter fun x => x.1 = "type") = [("type", .string variant)] →
      Misnamed variant 0 (.object entries)
  | inside {depth : Nat} {inner outer : Json} : Holds inner outer → Misnamed variant depth inner →
      Misnamed variant (depth + 1) outer

/-! ## What is wrong with a part is wrong with the whole -/

section

variable {inner : Json} {problem : Problem} (hinner : ofJson inner = .error problem)

include hinner

theorem HoldsPart.partOf {kind : Tag.FieldKind} {j : Json} (h : HoldsPart inner kind j) :
    Expr.partOf kind j = .error problem := by
  cases h with
  | body => rw [Expr.partOf, hinner]; rfl
  | @item before after hbefore hafter =>
    have hall : ofAll (before ++ inner :: after) = .error problem := by
      clear hafter
      induction before with
      | nil => rw [List.nil_append, ofAll, hinner]; rfl
      | cons j before ih =>
        obtain ⟨⟨e, he⟩, hbefore⟩ := List.forall_mem_cons.mp hbefore
        rw [List.cons_append, ofAll, he, ih hbefore]
        rfl
    rw [Expr.partOf, partsOf, hall]
    rfl

theorem HoldsField.ofItems {fs : List (String × Tag.FieldKind)} {fields : List (String × Json)}
    (h : HoldsField inner fs fields) (t : Tag) (count : Nat) (d : Draft) :
    Expr.ofItems t count d fs (fields.map Prod.snd) = .error problem := by
  induction h generalizing count d with
  | here hpart =>
    rw [List.map_cons, Expr.ofItems, put_eq, hpart.partOf hinner]
    rfl
  | @there name kind j p fs fields hp _ ih =>
    rw [List.map_cons, Expr.ofItems, put_eq, hp]
    exact ih (count + 1) (d.add p)

/-- Every field of a kind is valid, or has that problem. -/
theorem HoldsField.parts {fs : List (String × Tag.FieldKind)} {fields : List (String × Json)}
    (h : HoldsField inner fs fields) :
    List.Forall₂ (fun f x => f.1 = x.1 ∧
      ((∃ p, partOf f.2 x.2 = .ok p) ∨ partOf f.2 x.2 = .error problem)) fs fields := by
  induction h with
  | here hpart hvalid =>
    exact .cons ⟨rfl, .inr (hpart.partOf hinner)⟩
      (hvalid.imp fun _ _ h => ⟨h.1, .inl h.2⟩)
  | there hp _ ih => exact .cons ⟨rfl, .inl ⟨_, hp⟩⟩ ih

theorem HoldsField.exists_part {fs : List (String × Tag.FieldKind)}
    {fields : List (String × Json)} (h : HoldsField inner fs fields) :
    ∃ f ∈ fs, ∃ j, (f.1, j) ∈ fields ∧ partOf f.2 j = .error problem := by
  induction h with
  | here hpart _ =>
    exact ⟨_, List.mem_cons_self, _, List.mem_cons_self, hpart.partOf hinner⟩
  | there _ _ ih =>
    obtain ⟨f, hf, j, hj, hpart⟩ := ih
    exact ⟨f, List.mem_cons_of_mem _ hf, j, List.mem_cons_of_mem _ hj, hpart⟩

end

/-- The entries of an object have the problem of one of them, if no field is repeated and the others
are valid. -/
theorem ofEntries_eq_error {t : Tag} {d : Draft} {l : List (String × Json)} {problem : Problem}
    (hnodup : (l.filterMap fun x => t.fieldKind? x.1).Nodup)
    (hfree : ∀ kind ∈ l.filterMap fun x => t.fieldKind? x.1, d.has kind = false)
    (hparts : ∀ x ∈ l, ∀ kind ∈ t.fieldKind? x.1,
      (∃ p, partOf kind x.2 = .ok p) ∨ partOf kind x.2 = .error problem)
    (hone : ∃ x ∈ l, ∃ kind ∈ t.fieldKind? x.1, partOf kind x.2 = .error problem) :
    ofEntries t d l = .error problem := by
  induction l generalizing d with
  | nil =>
    obtain ⟨x, hx, -⟩ := hone
    cases hx
  | cons x l ih =>
    obtain ⟨hx, hparts⟩ := List.forall_mem_cons.mp hparts
    have hrest := (List.exists_mem_cons_iff _ x l).mp hone
    rw [ofEntries_cons]
    cases hk : t.fieldKind? x.1 with
    | none =>
      rw [takeEntry_of_none hk]
      simp only [List.filterMap_cons, hk] at hnodup hfree
      refine ih hnodup hfree hparts (hrest.resolve_left ?_)
      rintro ⟨kind, hkind, -⟩
      rw [hk] at hkind; cases hkind
    | some kind =>
      simp only [List.filterMap_cons, hk] at hnodup hfree
      obtain ⟨hkind, hfree⟩ := List.forall_mem_cons.mp hfree
      obtain ⟨hnew, hnodup⟩ := List.nodup_cons.mp hnodup
      rw [takeEntry_of_some hk, if_neg (by simp [hkind])]
      cases hp : partOf kind x.2 with
      | error e =>
        rcases hx kind hk with ⟨p, hok⟩ | herror
        · rw [hp] at hok; cases hok
        · rw [hp] at herror; cases herror; rfl
      | ok p =>
        -- the draft has one field more, but none that is still to come
        refine ih hnodup (fun other hother => ?_) hparts (hrest.resolve_left ?_)
        · have hne : p.kind ≠ other := fun he =>
            hnew (kind_of_partOf hp ▸ he ▸ hother)
          rw [has_add, hfree other hother, Bool.or_false, decide_eq_false_iff_not]
          exact hne
        · rintro ⟨other, hother, hpart⟩
          rw [hk] at hother; cases hother
          rw [hp] at hpart; cases hpart

theorem filterMap_fieldKind? (t : Tag) :
    (t.fields.map Prod.fst).filterMap t.fieldKind? = t.fields.map Prod.snd := by
  cases t <;> rfl

theorem nodup_fieldKinds (t : Tag) : (t.fields.map Prod.snd).Nodup := by
  cases t <;> decide

theorem HoldsField.names {inner : Json} {fs : List (String × Tag.FieldKind)}
    {fields : List (String × Json)} (h : HoldsField inner fs fields) :
    fields.map Prod.fst = fs.map Prod.fst := by
  induction h with
  | @here name kind j fs fields _ hvalid =>
    have hnames : fields.map Prod.fst = fs.map Prod.fst := by
      induction hvalid with
      | nil => rfl
      | cons hx _ ih => rw [List.map_cons, List.map_cons, ih, hx.1]
    rw [List.map_cons, List.map_cons, hnames]
  | there _ _ ih => rw [List.map_cons, List.map_cons, ih]

section

variable {inner : Json} {problem : Problem} {t : Tag} {kind : Json}
  {fields extra entries : List (String × Json)}

theorem fieldKinds_eq (hnames : fields.map Prod.fst = t.fields.map Prod.fst)
    (hextra : ∀ x ∈ extra, x.1 ∉ "type" :: t.fields.map Prod.fst) :
    (("type", kind) :: fields ++ extra).filterMap (fun x => t.fieldKind? x.1) =
      t.fields.map Prod.snd := by
  have hnone : extra.filterMap (fun x => t.fieldKind? x.1) = [] :=
    List.filterMap_eq_nil_iff.mpr fun x hx => fieldKind?_of_notMem_fields fun hmem =>
      hextra x hx (List.mem_cons_of_mem _ hmem)
  have hfields : fields.filterMap (fun x => t.fieldKind? x.1) = t.fields.map Prod.snd := by
    rw [← filterMap_fieldKind?, ← hnames, List.filterMap_map]
    rfl
  rw [List.filterMap_append, hnone, List.append_nil, ← hfields]
  exact List.filterMap_cons_none (fieldKind?_type t)

theorem HoldsField.ofEntries (hinner : ofJson inner = .error problem)
    (h : HoldsField inner t.fields fields)
    (hextra : ∀ x ∈ extra, x.1 ∉ "type" :: t.fields.map Prod.fst)
    (hperm : entries.Perm (("type", kind) :: fields ++ extra)) :
    Expr.ofEntries t {} entries = .error problem := by
  have hkinds := hperm.filterMap fun x => t.fieldKind? x.1
  rw [fieldKinds_eq h.names hextra] at hkinds
  refine ofEntries_eq_error (hkinds.nodup_iff.mpr (nodup_fieldKinds t)) ?_ ?_ ?_
  · intro kind _
    cases kind <;> rfl
  · intro x hx kind hkind
    rw [hperm.mem_iff, List.cons_append, List.mem_cons, List.mem_append] at hx
    rcases hx with rfl | hx | hx
    · rw [fieldKind?_type] at hkind; cases hkind
    · obtain ⟨f, hf, hname, hpart⟩ := exists_of_forall₂_right (h.parts hinner) x hx
      rw [← hname, fieldKind?_of_mem_fields hf] at hkind
      cases hkind
      exact hpart
    · have hnone := fieldKind?_of_notMem_fields fun hmem =>
        hextra x hx (List.mem_cons_of_mem _ hmem)
      rw [hnone] at hkind
      cases hkind
  · obtain ⟨f, hf, j, hj, hpart⟩ := h.exists_part hinner
    exact ⟨(f.1, j), hperm.mem_iff.mpr (List.mem_cons_of_mem _ (List.mem_append_left _ hj)), f.2,
      fieldKind?_of_mem_fields hf, hpart⟩

/-- The problem of an expression right inside another one is the problem of that one. -/
theorem Holds.ofJson {outer : Json} (hinner : Expr.ofJson inner = .error problem)
    (h : Holds inner outer) : Expr.ofJson outer = .error problem := by
  cases h with
  | @list t _ fields hkind hfields =>
    rw [Expr.ofJson, hkind]
    refine bind_eq_error.mpr (.inr ⟨t, rfl, bind_eq_error.mpr (.inl ?_)⟩)
    exact hfields.ofItems hinner t 0 {}
  | @object t kind fields extra entries hkind hfields hextra hperm =>
    have htag : Tag.ofEntries none entries = .ok t := by
      rw [← tagOfEntries_filter, filter_type_of_perm hfields.names hextra hperm, Tag.ofEntries,
        if_pos rfl, hkind]
      rfl
    rw [Expr.ofJson, htag]
    refine bind_eq_error.mpr (.inr ⟨t, rfl, bind_eq_error.mpr (.inl ?_)⟩)
    exact hfields.ofEntries hinner hextra hperm

end

theorem tagOfText_unknown {variant : String} (h : variant ∉ Tag.all.map Tag.name) :
    Tag.ofText variant = .error (.unknownVariant variant (Tag.all.map Tag.name)) := by
  have hnone : Tag.ofName? variant = none := by
    rw [Tag.ofName?, List.find?_eq_none]
    intro t ht
    rw [decide_eq_true_eq]
    exact fun hname => h (List.mem_map.mpr ⟨t, ht, hname⟩)
  rw [Tag.ofText, hnone]

theorem Misnamed.ofJson {variant : String} (hvariant : variant ∉ Tag.all.map Tag.name)
    {depth : Nat} {j : Json} (h : Misnamed variant depth j) :
    Expr.ofJson j = .error (.unknownVariant variant (Tag.all.map Tag.name)) := by
  induction h with
  | here htype =>
    refine bind_eq_error.mpr (.inl ?_)
    rw [← tagOfEntries_filter, htype, Tag.ofEntries, if_pos rfl, Tag.ofJson,
      tagOfText_unknown hvariant]
    rfl
  | inside hholds _ ih => exact hholds.ofJson ih

/-! ## Outermost expressions -/

theorem tag_name_of_ofText {name : String} {t : Tag} (h : Tag.ofText name = .ok t) :
    t.name = name := by
  unfold Tag.ofText at h
  split at h
  · rename_i hfind
    cases h
    simpa using List.find?_some hfind
  · cases h

theorem Buffer.readFields_misnamed {variant : String} (hvariant : variant ∉ Tag.all.map Tag.name)
    {room : Nat} {entries : List (String × Json)} (hdepth : entriesDepth entries ≤ room)
    (htype : (entries.filter fun x => x.1 = "type") = [("type", .string variant)]) :
    readFields (Buffer.use room) ⟨none, []⟩ (entryTrees entries) =
      .error ⟨[.key "type"], .unknownVariant variant (Tag.all.map Tag.name)⟩ := by
  obtain ⟨before, after, rfl, hbefore, -, -⟩ := List.filter_eq_cons_iff.mp htype
  have hroom : entriesDepth before ≤ room := entriesDepth_le.mpr fun x hx =>
    entriesDepth_le.mp hdepth x (List.mem_append_left _ hx)
  have hread : Tag.read (tree (.string variant)) =
      .error ⟨[], .unknownVariant variant (Tag.all.map Tag.name)⟩ := by
    rw [tree, Tag.read]
    exact congrArg here (tagOfText_unknown hvariant)
  have herror : readFields (Buffer.use room) ⟨none, [] ++ before⟩
      (entryTrees (("type", .string variant) :: after)) =
        .error ⟨[.key "type"], .unknownVariant variant (Tag.all.map Tag.name)⟩ :=
    readFields_of_error (Buffer.use_type rfl) (by rw [hread]; rfl)
  rw [entryTrees_append, readFields_append,
    Buffer.readFields_others hroom fun x hx => by simpa using hbefore x hx]
  exact herror

/-- An unknown kind of the outermost expression is told at the kind, one further inside at the
outermost expression. -/
theorem Misnamed.read {variant : String} (hvariant : variant ∉ Tag.all.map Tag.name)
    {depth room : Nat} {entries : List (String × Json)}
    (hkind : ∀ j, ("type", j) ∈ entries → ∃ s, j = .string s)
    (hdepth : (Json.object entries).depth ≤ room) (h : Misnamed variant depth (.object entries)) :
    Expr.read room (tree (.object entries)) = .error
      ⟨if depth = 0 then [.key "type"] else [],
        .unknownVariant variant (Tag.all.map Tag.name)⟩ := by
  match room, hdepth with
  | room + 1, hdepth =>
    rw [Json.depth, Nat.add_le_add_iff_right] at hdepth
    rw [tree, Expr.read]
    cases h with
    | here htype =>
      rw [readObject, Buffer.readFields_misnamed hvariant hdepth htype]
      rfl
    | @inside depth inner _ hholds hinner =>
      have herror := hinner.ofJson hvariant
      cases hholds with
      | @object t kind fields extra _ htag hfields hextra hperm =>
        obtain ⟨name, rfl⟩ := hkind kind (hperm.mem_iff.mpr (by simp))
        have htype := filter_type_of_perm hfields.names hextra hperm
        rw [← tag_name_of_ofText htag] at htype
        rw [readObject, Buffer.readFields_entries rfl hdepth htype, if_neg (Nat.succ_ne_zero depth)]
        have hentries := hfields.ofEntries herror hextra hperm
        rw [← ofEntries_filter] at hentries
        refine bind_eq_error.mpr (.inr ⟨⟨some t, _⟩, rfl, ?_⟩)
        have hdraft : ofEntries t {} (entries.filter fun x => x.1 ≠ "type") >>=
            (fun d => d.finish t) = .error (.unknownVariant variant (Tag.all.map Tag.name)) :=
          bind_eq_error.mpr (.inl hentries)
        exact congrArg Json.here hdraft

end Expr

/-! ## Grammars with such an expression -/

namespace Json

variable {σ α : Type} {issue : Issue} {t : Tree} {close : Close}

/-- Entries that can be read, none of them for the field of that name. -/
structure ReadBefore (r : RecordReader σ α) (name : String) (entries : List (Key × Tree)) :
    Prop where
  valid : ∃ d, readFields r.use r.empty entries = .ok d
  new : (.ok name : Key) ∉ entries.map Prod.fst

/-- The issue of a field is told whatever follows behind the field. -/
theorem RecordReader.read_of_error {r : RecordReader σ α} {fields : List (RecordField σ)}
    (hfields : HasFields fields r.use) {f : RecordField σ} (hf : f ∈ fields)
    (hempty : f.get r.empty = none) {before after : List (Key × Tree)}
    (hbefore : ReadBefore r f.name before) (h : f.read t = .error issue) :
    r.read (.object (before ++ (.ok f.name, t) :: after) close) =
      .error (issue.within (.key f.name)) := by
  obtain ⟨d, hd⟩ := hbefore.valid
  have hfree : f.get d = none := by
    rw [← Option.not_isSome_iff_eq_none, hfields.isSome_get_iff hf hd, hempty]
    exact fun hor => hor.elim nofun hbefore.new
  have herror : readFields r.use d ((.ok f.name, t) :: after) =
      .error (issue.within (.key f.name)) :=
    readFields_of_error (hfields.use_free hf hfree) (map_eq_error.mpr h)
  rw [RecordReader.read, readObject, readFields_append, hd]
  exact bind_eq_error.mpr (.inl (bind_eq_error.mpr (.inl herror)))

theorem readEach_of_error {item : Tree → Except Issue α} {before after : List Tree}
    (hbefore : ∀ t ∈ before, ∃ a, item t = .ok a) (h : item t = .error issue) (index : Nat) :
    readEach item index (before ++ t :: after) =
      .error (issue.within (.index (index + before.length))) := by
  induction before generalizing index with
  | nil => rw [List.nil_append, readEach, h]; rfl
  | cons u before ih =>
    obtain ⟨⟨a, ha⟩, hbefore⟩ := List.forall_mem_cons.mp hbefore
    have hrest := ih hbefore (index + 1)
    rw [Nat.add_right_comm, Nat.add_assoc] at hrest
    rw [List.cons_append, readEach, ha]
    exact bind_eq_error.mpr (.inr ⟨a, rfl, bind_eq_error.mpr (.inl hrest)⟩)

theorem readList_of_error {item : Tree → Except Issue α} {before after : List Tree}
    (hbefore : ∀ t ∈ before, ∃ a, item t = .ok a) (h : item t = .error issue) :
    Tree.readList item (.list (before ++ t :: after) close) =
      .error (issue.within (.index before.length)) := by
  rw [Tree.readList, readEach_of_error hbefore h, Nat.zero_add]
  rfl

end Json

namespace Grammar

/-- A text of a grammar up to the body of the rule at an index, with nothing wrong in it. The
grammar, its list of rules and the rule are open there. -/
inductive UpToBody : Nat → List Char → Prop where
  | mk {above inside : List (Key × Tree)} {earlier : List Tree} {head : List Char} :
      TextUpTo [.member inside.reverse (.ok "exp"), .item earlier.reverse,
        .member above.reverse (.ok "rules")] head →
      ReadBefore (reader (depthLimit - 1)) "rules" above →
      (∀ t ∈ earlier, ∃ r, (Rule.reader (depthLimit - 3)).read t = .ok r) →
      ReadBefore (Rule.reader (depthLimit - 3)) "exp" inside →
      UpToBody earlier.length head

/-- The issue of a body is told at the rule, whatever follows behind the body. -/
theorem UpToBody.ofText {i : Nat} {head body tail : List Char} {entries : List (String × Json)}
    {issue : Issue} (hhead : UpToBody i head) (hbody : EntriesSpelling entries body)
    (h : Expr.read (depthLimit - 3) (tree (.object entries)) = .error issue) :
    Grammar.ofText (.ofList (head ++ '\x7b' :: (body ++ '\x7d' :: tail))) = .error
      ⟨.key "rules" :: .index i :: .key "exp" :: issue.path, issue.problem⟩ := by
  obtain @⟨above, inside, earlier, _, htext, habove, hearlier, hinside⟩ := hhead
  have hfills := htext.fills hbody tail
  rw [Grammar.ofText, String.toList_ofList]
  generalize Tree.ofChars (head ++ '\x7b' :: (body ++ '\x7d' :: tail)) = whole at hfills ⊢
  cases hfills with
  | @member _ _ moreInside _ closeInside _ _ hfills =>
  cases hfills with
  | @item _ _ moreRules closeRules _ _ hfills =>
  cases hfills with
  | @member _ _ moreBehind _ closeBehind _ _ hfills =>
  cases hfills with
  | here =>
  simp only [List.reverse_reverse]
  have hrule : (Rule.reader (depthLimit - 3)).read
      (.object (inside ++ (.ok "exp", tree (.object entries)) :: moreInside) closeInside) =
        .error (issue.within (.key "exp")) :=
    RecordReader.read_of_error (f := Rule.bodyField (depthLimit - 3))
      (Rule.hasFields (depthLimit - 3)) (by simp) rfl hinside h
  have hrules : (rulesField (depthLimit - 1)).read (.list (earlier ++ .object
      (inside ++ (.ok "exp", tree (.object entries)) :: moreInside) closeInside :: moreRules)
        closeRules) = .error ((issue.within (.key "exp")).within (.index earlier.length)) :=
    readList_of_error hearlier hrule
  exact RecordReader.read_of_error (f := rulesField (depthLimit - 1))
    (hasFields (depthLimit - 1)) (by simp) rfl habove hrules

/-- A kind that does not exist is told at the rule with the expression, by its place when it is the
kind of the whole body, and whatever the text goes on with. Bodies deeper than the reader goes are
not read as expressions. -/
theorem misnamed_kind_told {i depth : Nat} {variant : String} {entries : List (String × Json)}
    {head body : List Char} (hhead : UpToBody i head) (hbody : EntriesSpelling entries body)
    (hdepth : (Json.object entries).depth ≤ depthLimit - 3)
    (hkind : ∀ j, ("type", j) ∈ entries → ∃ s, j = .string s)
    (hvariant : variant ∉ Tag.all.map Tag.name)
    (h : Expr.Misnamed variant depth (.object entries)) (tail : List Char) :
    ∃ issue, ofText (.ofList (head ++ '\x7b' :: (body ++ '\x7d' :: tail))) = .error issue ∧
      issue.path.text = "rules[" ++ toString i ++ "].exp" ++ (if depth = 0 then ".type" else "") ∧
      issue.problem.message = "unknown variant `" ++ variant ++ "`, expected " ++
        alternatives (Tag.all.map Tag.name) := by
  refine ⟨_, hhead.ofText hbody (h.read hvariant hkind hdepth), ?_, rfl⟩
  apply String.toList_injective
  by_cases hzero : depth = 0 <;> simp [hzero, Path.text, Path.tail, Step.text]

/-- The text up to the body of a second rule. -/
theorem upToBody_second : UpToBody 1
    "\x7b\"name\":\"g\",\"rules\":[\x7b\"name\":\"a\"\x7d,\x7b\"name\":\"b\",\"exp\":".toList := by
  have hkey (k : String) : StringSpelling k (stringChars k) := stringSpelling_stringChars k
  have hname (v : String) : EntriesUpTo (entryTrees [("name", .string v)]) _ :=
    .cons space_nil (hkey "name") space_nil space_nil (Spelling.hasText (.string (hkey v)))
      space_nil .nil
  have hrule : (tree (.object [("name", .string "a")])).HasText _ :=
    (spelling_chars (.object [("name", .string "a")]) ⟨trivial, trivial⟩ ⟨trivial, trivial⟩).hasText
  have htext := TextUpTo.member (.item (.member (.start space_nil) (hname "g") space_nil
    (hkey "rules") space_nil space_nil) (.cons space_nil hrule space_nil .nil) space_nil)
    (hname "b") space_nil (hkey "exp") space_nil space_nil
  have hearlier : ∀ t ∈ [tree (.object [("name", .string "a")])],
      ∃ r, (Rule.reader (depthLimit - 3)).read t = .ok r := by
    simp only [List.mem_singleton, forall_eq]
    exact ⟨_, rfl⟩
  exact .mk htext ⟨⟨_, rfl⟩, by simp [entryTrees]⟩ hearlier ⟨⟨_, rfl⟩, by simp [entryTrees]⟩

/-- A group around an expression of an unknown kind, in a text that breaks off behind it. -/
theorem misnamed_kind_told_second : ∃ issue,
    ofText ("\x7b\"name\":\"g\",\"rules\":[\x7b\"name\":\"a\"\x7d,\x7b\"name\":\"b\",\"exp\":" ++
      "\x7b\"type\":\"Group\",\"exp\":\x7b\"type\":\"Grup\"\x7d\x7d, ?") = .error issue ∧
    issue.path.text = "rules[1].exp" ∧
    issue.problem.message = "unknown variant `Grup`, expected " ++
      alternatives (Tag.all.map Tag.name) := by
  have hinner : Expr.Misnamed "Grup" 0 (.object [("type", .string "Grup")]) := .here rfl
  have hholds : Expr.Holds (.object [("type", .string "Grup")])
      (.object [("type", .string "Group"), ("exp", .object [("type", .string "Grup")])]) :=
    @Expr.Holds.object _ .group (.string "Group") [("exp", .object [("type", .string "Grup")])] []
      _ rfl (.here .body .nil) (by simp) (.refl _)
  have hbody := entriesSpelling_entriesChars
    [("type", .string "Group"), ("exp", .object [("type", .string "Grup")])] (by simp)
    ⟨trivial, ⟨trivial, trivial⟩, trivial⟩ ⟨trivial, ⟨trivial, trivial⟩, trivial⟩
  obtain ⟨issue, herror, hpath, hmessage⟩ := misnamed_kind_told upToBody_second hbody (by decide)
    (by simp) (by decide) (.inside hholds hinner) [',', ' ', '?']
  exact ⟨issue, herror, hpath, hmessage⟩

end Grammar

end RuleClasses
