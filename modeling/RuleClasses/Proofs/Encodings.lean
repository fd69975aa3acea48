import RuleClasses.Grammar.Encoding
import RuleClasses.Proofs.GrammarForms
import RuleClasses.Proofs.JsonValues

/-! An encoded grammar is read again, and as the same grammar. What is written is one of the
forms of the grammar; that it can be read needs more. It must not be deeper than there is room
for, its integers must not be read as doubles, and the parameters must have no key that is
repeated. All of this holds of a grammar that was read from a text. -/

namespace RuleClasses

open Json

/-! ## Encodings are forms -/

namespace Expr

/-- The kind and then the fields. -/
theorem Form.inOrder {e : Expr} {fields : List (String × Json)}
    (h : FieldForms e.fieldParts fields) : Form e (.object (e.tag.entry :: fields)) := by
  refine @Form.object e fields [] _ h (List.forall_mem_nil _) ?_
  rw [List.append_nil]
  exact .refl _

mutual

theorem form_toJson (e : Expr) : Form e e.toJson := by
  match e with
  | .atom a =>
    have hfields : FieldForms (Expr.atom a).fieldParts a.fieldEntries := by
      cases a with
      | void | cut => exact .nil
      | token | pattern | call => exact .cons .text .nil
    exact .inOrder hfields
  | .bind isList name body =>
    have hbody := form_toJson body
    cases isList <;> exact .inOrder (.cons .text (.cons (.body hbody) .nil))
  | .wrap wrapper body => exact .inOrder (.cons (.body (form_toJson body)) .nil)
  | .sequence items => exact .inOrder (.cons (.parts (forms_toJsonAll items)) .nil)
  | .choice options => exact .inOrder (.cons (.parts (forms_toJsonAll options)) .nil)

theorem forms_toJsonAll (es : List Expr) : AllForms es (toJsonAll es) := by
  match es with
  | [] => exact .nil
  | e :: rest => exact .cons (form_toJson e) (forms_toJsonAll rest)

end

end Expr

/-- The entry of the parameters, if there are any. -/
def Rule.paramsJson (r : Rule) : Option Json :=
  if r.params.isEmpty then none else some (.list r.params)

theorem Rule.toJson_eq (r : Rule) :
    r.toJson = .object (("name", .string r.name) :: entry "params" r.paramsJson ++
      entry "exp" (some r.body.toJson) ++ []) := by
  rw [toJson, paramsJson]
  split <;> rfl

/-- The values in an encoded rule. -/
theorem Rule.exists_entries {P : Json → Prop} {r : Rule} (hname : P (.string r.name))
    (hparams : P (.list r.params)) (hbody : P r.body.toJson) :
    ∃ entries, r.toJson = .object entries ∧ ∀ x ∈ entries, P x.2 := by
  refine ⟨_, r.toJson_eq, ?_⟩
  simp only [List.append_nil, List.cons_append, List.forall_mem_cons, List.forall_mem_append]
  refine ⟨hname, fun x hx => ?_, fun x hx => ?_⟩
  · unfold paramsJson at hx
    split at hx
    · cases hx
    · rw [List.mem_singleton.mp hx]
      exact hparams
  · rw [List.mem_singleton.mp hx]
    exact hbody

theorem Rule.form_toJson {r : Rule} (hmerged : mergeItems r.params = r.params) :
    Form r r.toJson := by
  have hparams : Omissible (r.params = []) (ParamsForm r.params) r.paramsJson := by
    unfold paramsJson
    split
    · exact .omitted (List.isEmpty_iff.mp ‹_›)
    · exact .given (.list hmerged)
  rw [toJson_eq]
  exact .object hparams (.given (Expr.form_toJson r.body)) (List.forall_mem_nil _) (.refl _)

theorem Grammar.form_toJson {g : Grammar}
    (hmerged : ∀ r ∈ g.rules, mergeItems r.params = r.params) : Form g g.toJson := by
  have hrules : List.Forall₂ (fun j r => Rule.Form r j) (g.rules.map Rule.toJson) g.rules := by
    rw [List.forall₂_map_left_iff, List.forall₂_same]
    exact fun r hr => Rule.form_toJson (hmerged r hr)
  exact @Form.object g (some _) [] _ (.given (.list hrules)) (List.forall_mem_nil _) (.refl _)

/-! ## Numbers of an encoding -/

namespace Expr

variable (P : Number → Prop)

mutual

/-- An expression holds no numbers. -/
theorem eachNumber_toJson (e : Expr) : e.toJson.EachNumber P := by
  match e with
  | .atom a => cases a <;> exact ⟨trivial, by first | exact trivial | exact ⟨trivial, trivial⟩⟩
  | .bind isList name body => exact ⟨trivial, trivial, eachNumber_toJson body, trivial⟩
  | .wrap wrapper body => exact ⟨trivial, eachNumber_toJson body, trivial⟩
  | .sequence items => exact ⟨trivial, eachNumber_toJsonAll items, trivial⟩
  | .choice options => exact ⟨trivial, eachNumber_toJsonAll options, trivial⟩

theorem eachNumber_toJsonAll (es : List Expr) : EachNumberOfItems P (toJsonAll es) := by
  match es with
  | [] => exact trivial
  | e :: rest => exact ⟨eachNumber_toJson e, eachNumber_toJsonAll rest⟩

end

end Expr

theorem Rule.eachNumber_toJson {P : Number → Prop} {r : Rule}
    (h : EachNumberOfItems P r.params) : r.toJson.EachNumber P := by
  obtain ⟨entries, hentries, hall⟩ :=
    exists_entries (P := EachNumber P) trivial h (Expr.eachNumber_toJson P r.body)
  rw [hentries]
  exact eachNumberOfEntries_iff.mpr hall

theorem Grammar.eachNumber_toJson {P : Number → Prop} {g : Grammar}
    (h : ∀ r ∈ g.rules, EachNumberOfItems P r.params) : g.toJson.EachNumber P := by
  refine ⟨trivial, eachNumberOfItems_iff.mpr fun j hj => ?_, trivial⟩
  obtain ⟨r, hr, rfl⟩ := List.mem_map.mp hj
  exact Rule.eachNumber_toJson (h r hr)

/-! ## Depth of an expression that was read -/

namespace Expr

theorem depth_bind (isList : Bool) (name : String) (body : Expr) :
    (bind isList name body).toJson.depth = body.toJson.depth + 1 := by
  cases isList <;> simp [toJson, Tag.entry, Json.depth, entriesDepth]

theorem depth_wrap (wrapper : Wrapper) (body : Expr) :
    (wrap wrapper body).toJson.depth = body.toJson.depth + 1 := by
  simp [toJson, Tag.entry, Json.depth, entriesDepth]

theorem depth_sequence (items : List Expr) :
    (sequence items).toJson.depth = itemsDepth (toJsonAll items) + 2 := by
  simp [toJson, Tag.entry, Json.depth, entriesDepth]

theorem depth_choice (options : List Expr) :
    (choice options).toJson.depth = itemsDepth (toJsonAll options) + 2 := by
  simp [toJson, Tag.entry, Json.depth, entriesDepth]

theorem itemsDepth_toJsonAll_le {es : List Expr} {n : Nat} :
    itemsDepth (toJsonAll es) ≤ n ↔ ∀ e ∈ es, e.toJson.depth ≤ n := by
  induction es with
  | nil => simp [toJsonAll, itemsDepth]
  | cons e rest ih => rw [toJsonAll, itemsDepth, Nat.max_le, ih, List.forall_mem_cons]

/-- Nothing that a part is written as is deeper than `n`. -/
def Part.Within (n : Nat) : Part → Prop
  | .text _ => True
  | .body e => e.toJson.depth ≤ n
  | .parts es => itemsDepth (toJsonAll es) + 1 ≤ n

structure Draft.Within (n : Nat) (d : Draft) : Prop where
  body : ∀ e ∈ d.body, e.toJson.depth ≤ n
  parts : ∀ es ∈ d.parts, itemsDepth (toJsonAll es) + 1 ≤ n

theorem Draft.within_empty (n : Nat) : Draft.Within n {} := ⟨nofun, nofun⟩

theorem Draft.within_add {n : Nat} {d : Draft} {p : Part} (hd : d.Within n) (hp : p.Within n) :
    (d.add p).Within n := by
  cases p with
  | text s => exact ⟨hd.body, hd.parts⟩
  | body e => exact ⟨fun _ he => Option.some.inj he ▸ hp, hd.parts⟩
  | parts es => exact ⟨hd.body, fun _ he => Option.some.inj he ▸ hp⟩

theorem Draft.depth_finish {n : Nat} {d : Draft} {t : Tag} {e : Expr} (hd : d.Within n)
    (h : d.finish t = .ok e) : e.toJson.depth ≤ n + 1 := by
  cases t with
  | void | cut =>
    cases h
    exact Nat.succ_le_succ (Nat.zero_le n)
  | token | pattern | call =>
    obtain ⟨s, -, rfl⟩ := map_eq_ok.mp h
    exact Nat.succ_le_succ (Nat.zero_le n)
  | named | namedList =>
    obtain ⟨s, -, h⟩ := bind_eq_ok.mp h
    obtain ⟨b, hb, h⟩ := bind_eq_ok.mp h
    cases h
    rw [depth_bind]
    exact Nat.succ_le_succ (hd.body b (need_eq_ok.mp hb))
  | override | optional | closure | positiveClosure | group | lookahead | negativeLookahead =>
    obtain ⟨b, hb, rfl⟩ := map_eq_ok.mp h
    rw [depth_wrap]
    exact Nat.succ_le_succ (hd.body b (need_eq_ok.mp hb))
  | sequence =>
    obtain ⟨es, hes, rfl⟩ := map_eq_ok.mp h
    rw [depth_sequence]
    exact Nat.succ_le_succ (hd.parts es (need_eq_ok.mp hes))
  | choice =>
    obtain ⟨es, hes, rfl⟩ := map_eq_ok.mp h
    rw [depth_choice]
    exact Nat.succ_le_succ (hd.parts es (need_eq_ok.mp hes))

theorem ofAll_eq_ok {js : List Json} {es : List Expr} (h : ofAll js = .ok es) :
    List.Forall₂ (fun j e => ofJson j = .ok e) js es := by
  induction js generalizing es with
  | nil => cases h; exact .nil
  | cons j rest ih =>
    rw [ofAll] at h
    obtain ⟨e, he, h⟩ := bind_eq_ok.mp h
    obtain ⟨es, hes, h⟩ := bind_eq_ok.mp h
    cases h
    exact .cons he (ih hes)

section

/-- Parts of a value of some depth are written as deep as the value. -/
abbrev PartsWithin (n : Nat) : Prop :=
  ∀ ⦃j kind p⦄, j.depth ≤ n → partOf kind j = .ok p → p.Within n

variable {n : Nat} {t : Tag} {d d' : Draft}

theorem ofEntries_within (hparts : PartsWithin n) {entries : List (String × Json)}
    (hentries : ∀ x ∈ entries, x.2.depth ≤ n) (hd : d.Within n)
    (h : ofEntries t d entries = .ok d') : d'.Within n := by
  induction entries generalizing d with
  | nil => cases h; exact hd
  | cons x rest ih =>
    obtain ⟨hx, hrest⟩ := List.forall_mem_cons.mp hentries
    obtain ⟨d₁, htake, hnext⟩ := ofEntries_cons_iff.mp h
    rcases takeEntry_iff.mp htake with ⟨-, rfl⟩ | ⟨p, -, -, hp, rfl⟩
    · exact ih hrest hd hnext
    · exact ih hrest (Draft.within_add hd (hparts hx hp)) hnext

theorem ofItems_within (hparts : PartsWithin n) {count : Nat}
    {fields : List (String × Tag.FieldKind)} {items : List Json}
    (hitems : ∀ j ∈ items, j.depth ≤ n) (hd : d.Within n)
    (h : ofItems t count d fields items = .ok d') : d'.Within n := by
  induction items generalizing count d fields with
  | nil =>
    cases fields with
    | nil => cases h; exact hd
    | cons => cases h
  | cons j rest ih =>
    cases fields with
    | nil => cases h
    | cons f fields =>
      obtain ⟨hj, hrest⟩ := List.forall_mem_cons.mp hitems
      rw [ofItems, put_eq] at h
      obtain ⟨d₁, hd₁, h⟩ := bind_eq_ok.mp h
      obtain ⟨p, hp, rfl⟩ := map_eq_ok.mp hd₁
      exact ih hrest (Draft.within_add hd (hparts hj hp)) h

theorem partOf_within (ih : ∀ m ≤ n, ∀ ⦃j e⦄, j.depth ≤ m → ofJson j = .ok e → e.toJson.depth ≤ m) :
    PartsWithin n := by
  intro j kind p hj h
  cases kind with
  | text => obtain ⟨s, -, rfl⟩ := map_eq_ok.mp h; trivial
  | body =>
    obtain ⟨e, he, rfl⟩ := map_eq_ok.mp h
    exact ih n (Nat.le_refl n) hj he
  | parts =>
    obtain ⟨es, hes, rfl⟩ := map_eq_ok.mp h
    cases j with
    | list items =>
      match n, hj with
      | m + 1, hj =>
        have hitems := itemsDepth_le.mp (Nat.le_of_succ_le_succ hj)
        refine Nat.succ_le_succ (itemsDepth_toJsonAll_le.mpr ?_)
        exact forall_of_forall₂ (fun j e hj he => ih m (Nat.le_succ m) hj he) (ofAll_eq_ok hes)
          hitems
    | _ => cases hes

end

/-- An expression is written no deeper than the value that it was read from. -/
theorem depth_ofJson {n : Nat} {j : Json} {e : Expr} (hj : j.depth ≤ n) (h : ofJson j = .ok e) :
    e.toJson.depth ≤ n := by
  induction n using Nat.strongRecOn generalizing j e with
  | ind n ih =>
    match j, n, hj with
    | .object entries, n + 1, hj =>
      have hparts := partOf_within fun m hm _ _ => ih m (Nat.lt_succ_of_le hm)
      have hentries := entriesDepth_le.mp (Nat.le_of_succ_le_succ hj)
      obtain ⟨t, -, h⟩ := bind_eq_ok.mp h
      obtain ⟨d, hd, h⟩ := bind_eq_ok.mp h
      exact Draft.depth_finish (ofEntries_within hparts hentries (Draft.within_empty n) hd) h
    | .list (j :: items), n + 1, hj =>
      have hparts := partOf_within fun m hm _ _ => ih m (Nat.lt_succ_of_le hm)
      have hitems := (List.forall_mem_cons.mp (itemsDepth_le.mp (Nat.le_of_succ_le_succ hj))).2
      obtain ⟨t, -, h⟩ := bind_eq_ok.mp h
      obtain ⟨d, hd, h⟩ := bind_eq_ok.mp h
      exact Draft.depth_finish (ofItems_within hparts hitems (Draft.within_empty n) hd) h
    | .list [], _, _ | .null, _, _ | .bool _, _, _ | .number _, _, _ | .string _, _, _ => cases h

theorem partsWithin (n : Nat) : PartsWithin n := partOf_within fun _ _ _ _ => depth_ofJson

theorem Buffer.depth_step {room : Nat} {k : String} {t : Tree} {b b' : Buffer}
    (hb : ∀ x ∈ b.entries, x.2.depth ≤ room) (h : Takes (Buffer.use room) b k t b') :
    ∀ x ∈ b'.entries, x.2.depth ≤ room := by
  by_cases hk : k = "type"
  · subst hk
    cases htag : b.tag with
    | none =>
      obtain ⟨_, -, rfl⟩ := map_eq_ok.mp ((takes_of_read (Buffer.use_type htag)).mp h)
      exact hb
    | some _ =>
      have hrefuse : Buffer.use room b "type" = .refuse (.here (.duplicateField "type")) := by
        rw [Buffer.use, if_pos rfl, htag]
        rfl
      exact absurd h (not_takes_of_refuse hrefuse)
  · obtain ⟨j, hj, rfl⟩ := map_eq_ok.mp ((takes_of_read (Buffer.use_other hk b)).mp h)
    exact List.forall_mem_append.mpr ⟨hb, List.forall_mem_singleton.mpr (read_eq_ok hj).1⟩

theorem depth_read {room : Nat} {t : Tree} {e : Expr} (h : Expr.read room t = .ok e) :
    e.toJson.depth ≤ room := by
  match t, room with
  | .object entries close, room + 1 =>
    rw [Expr.read] at h
    obtain ⟨b, hb, h⟩ := bind_eq_ok.mp h
    obtain ⟨_, hfields, hend⟩ := bind_eq_ok.mp hb
    obtain ⟨-, -, hend⟩ := bind_eq_ok.mp hend
    cases hend
    obtain ⟨t, -, h⟩ := bind_eq_ok.mp (here_eq_ok.mp h)
    obtain ⟨d, hd, h⟩ := bind_eq_ok.mp h
    have hentries : ∀ x ∈ b.entries, x.2.depth ≤ room :=
      readFields_inv (Q := fun _ => True) (fun _ => Buffer.depth_step) (fun _ _ => trivial)
        (List.forall_mem_nil _) hfields
    exact Draft.depth_finish (ofEntries_within (partsWithin room) hentries
      (Draft.within_empty room) hd) h
  | .list (t :: items) close, room + 1 =>
    rw [Expr.read] at h
    obtain ⟨tag, -, h⟩ := bind_eq_ok.mp h
    obtain ⟨values, hvalues, h⟩ := bind_eq_ok.mp h
    obtain ⟨-, -, h⟩ := bind_eq_ok.mp h
    obtain ⟨d, hd, h⟩ := bind_eq_ok.mp (here_eq_ok.mp h)
    exact Draft.depth_finish (ofItems_within (partsWithin room) (depth_of_readItems hvalues)
      (Draft.within_empty room) hd) h
  | .list [] close, room + 1 => cases close <;> cases h
  | .object _ _, 0 | .list [] _, 0 | .list (_ :: _) _, 0 => cases h
  | .null, _ | .bool _, _ | .absent, _ | .broken _ _, _ | .brokenString _ _, _ => cases h
  | .number n, _ => cases n <;> cases h
  | .string s, _ => cases s <;> cases h

end Expr

/-! ## Grammars that were read -/

namespace Rule

variable {room : Nat}

/-- The encoded rule can be read where that many lists and objects may be open. -/
structure Readable (room : Nat) (r : Rule) : Prop where
  merged : mergeItems r.params = r.params
  inRange : EachNumberOfItems Number.InRange r.params
  depth : r.toJson.depth ≤ room

theorem depth_toJson_le {r : Rule} (hparams : itemsDepth r.params ≤ room)
    (hbody : r.body.toJson.depth ≤ room + 1) : r.toJson.depth ≤ room + 2 := by
  obtain ⟨entries, hentries, hall⟩ := exists_entries (P := fun j => j.depth ≤ room + 1)
    (Nat.zero_le _) (Nat.succ_le_succ hparams) hbody
  rw [hentries]
  exact Nat.succ_le_succ (entriesDepth_le.mpr hall)

/-- Parameters in which no key is repeated, with numbers in range. -/
structure ReadableParams (room : Nat) (ps : List Json) : Prop where
  merged : mergeItems ps = ps
  inRange : EachNumberOfItems Number.InRange ps
  depth : itemsDepth ps ≤ room

theorem readableParams_nil (room : Nat) : ReadableParams room [] := ⟨rfl, trivial, Nat.zero_le _⟩

theorem readable_readParams {t : Tree} {ps : List Json} (ht : t.InRange)
    (h : readParams (room + 1) t = .ok ps) : ReadableParams room ps := by
  obtain ⟨items, close, rfl, hitems⟩ := readList_eq_ok h
  cases ht with
  | list hall =>
    have hvalue (t : Tree) (p : Json) (ht : t.InRange) (h : (t.read room).map mergeKeys = .ok p) :
        p.mergeKeys = p ∧ p.EachNumber Number.InRange ∧ p.depth ≤ room := by
      obtain ⟨j, hj, rfl⟩ := map_eq_ok.mp h
      obtain ⟨hdepth, hrange⟩ := read_eq_ok hj
      exact ⟨mergeKeys_mergeKeys j, eachNumber_mergeKeys j (hrange ht),
        Nat.le_trans (depth_mergeKeys_le j) hdepth⟩
    have hps := forall_of_forall₂ hvalue hitems hall
    exact ⟨mergeItems_of_forall fun p hp => (hps p hp).1,
      eachNumberOfItems_iff.mpr fun p hp => (hps p hp).2.1,
      itemsDepth_le.mpr fun p hp => (hps p hp).2.2⟩

structure Draft.Readable (room : Nat) (d : Draft) : Prop where
  params : ∀ ps ∈ d.params, ReadableParams room ps
  body : ∀ e ∈ d.body, e.toJson.depth ≤ room + 1

theorem Draft.readable_set : ∀ f ∈ [nameField, paramsField (room + 1), bodyField (room + 1)],
    ∀ {t d v}, t.InRange → Draft.Readable room d → f.read t = .ok v →
      Draft.Readable room (f.set d v) := by
  intro f hf
  simp only [List.mem_cons, List.not_mem_nil, or_false] at hf
  rcases hf with rfl | rfl | rfl
  · exact fun _ hd _ => ⟨hd.params, hd.body⟩
  · exact fun ht hd h => ⟨fun _ hps => Option.some.inj hps ▸ readable_readParams ht h, hd.body⟩
  · exact fun _ hd h => ⟨hd.params, fun _ he => Option.some.inj he ▸ Expr.depth_read h⟩

theorem readable_read {t : Tree} {r : Rule} (ht : t.InRange)
    (h : (reader (room + 1)).read t = .ok r) : r.Readable (room + 2) := by
  obtain ⟨d, missing, hd, hfinish⟩ := RecordReader.read_inv (hasFields (room + 1)) rfl
    (I := Draft.Readable room) ⟨nofun, nofun⟩ Draft.readable_set ht h
  obtain ⟨name, -, rfl⟩ := map_eq_ok.mp hfinish
  have hparams : ReadableParams room (d.params.getD []) := by
    cases hps : d.params with
    | none => exact readableParams_nil room
    | some ps => exact hd.params ps hps
  have hbody : (d.body.getD .void).toJson.depth ≤ room + 1 := by
    cases he : d.body with
    | none => exact Nat.succ_le_succ (Nat.zero_le room)
    | some e => exact hd.body e he
  exact ⟨hparams.merged, hparams.inRange, depth_toJson_le hparams.depth hbody⟩

end Rule

namespace Grammar

variable {room : Nat}

theorem depth_toJson_le {g : Grammar} (h : ∀ r ∈ g.rules, r.toJson.depth ≤ room) :
    g.toJson.depth ≤ room + 2 := by
  have hrules : itemsDepth (g.rules.map Rule.toJson) ≤ room :=
    itemsDepth_le.mpr (List.forall_mem_map.mpr h)
  simp only [toJson, Json.depth, entriesDepth]
  omega

theorem readable_readRules {t : Tree} {rs : List Rule} (ht : t.InRange)
    (h : readRules (room + 3) t = .ok rs) : ∀ r ∈ rs, r.Readable (room + 2) := by
  obtain ⟨items, close, rfl, hitems⟩ := readList_eq_ok h
  cases ht with
  | list hall =>
    have hrule (t : Tree) (r : Rule) (ht : t.InRange)
        (h : (Rule.reader (room + 1)).read t = .ok r) := Rule.readable_read ht h
    exact forall_of_forall₂ hrule hitems hall

theorem readable_read {t : Tree} {g : Grammar} (ht : t.InRange)
    (h : (reader (room + 3)).read t = .ok g) : ∀ r ∈ g.rules, r.Readable (room + 2) := by
  have hset : ∀ f ∈ [nameField, rulesField (room + 3)], ∀ {t d v}, t.InRange →
      (∀ rs ∈ d.rules, ∀ r ∈ rs, r.Readable (room + 2)) → f.read t = .ok v →
        ∀ rs ∈ (f.set d v).rules, ∀ r ∈ rs, r.Readable (room + 2) := by
    intro f hf
    simp only [List.mem_cons, List.not_mem_nil, or_false] at hf
    rcases hf with rfl | rfl
    · exact fun _ hd _ => hd
    · exact fun ht _ h _ hrs => Option.some.inj hrs ▸ readable_readRules ht h
  obtain ⟨d, missing, hd, hfinish⟩ := RecordReader.read_inv (hasFields (room + 3)) rfl nofun hset
    ht h
  obtain ⟨name, -, rfl⟩ := map_eq_ok.mp hfinish
  cases hrs : d.rules with
  | none => exact List.forall_mem_nil _
  | some rs => exact hd rs hrs

/-- No number in a parameter is a double, which is what a number with a fraction or an exponent
is read as, and an integer of more than 64 bits. -/
def IntegersOnly (g : Grammar) : Prop := ∀ r ∈ g.rules, EachNumberOfItems Number.IsInt r.params

theorem readable_ofText {text : String} {g : Grammar} (h : ofText text = .ok g) :
    ∀ r ∈ g.rules, r.Readable 125 := by
  have hread : (reader (123 + 3)).read (.ofChars text.toList) = .ok g := h
  exact readable_read (ofChars_inRange _) hread

theorem ofText_text {text : String} {g : Grammar} (h : ofText text = .ok g)
    (hint : g.IntegersOnly) : ofText g.toJson.text = .ok g := by
  have hrules := readable_ofText h
  have htext : g.toJson.IsText g.toJson.text :=
    isText_text (eachNumber_toJson fun r hr => (hrules r hr).inRange) (eachNumber_toJson hint)
  exact ofText_form (form_toJson fun r hr => (hrules r hr).merged) htext
    (depth_toJson_le fun r hr => (hrules r hr).depth)

/-- Decoding undoes encoding on every grammar that was read from a text, and so grammars that
are read have encodings of their own. -/
theorem decode_encode {text : String} {g : Grammar} (h : ofText text = .ok g)
    (hint : g.IntegersOnly) :
    ofText g.toJson.text = .ok g ∧
      ∀ text' g', ofText text' = .ok g' → g'.IntegersOnly → g'.toJson.text = g.toJson.text →
        g' = g := by
  refine ⟨ofText_text h hint, fun text' g' h' hint' htext => ?_⟩
  have hread := ofText_text h' hint'
  rw [htext, ofText_text h hint] at hread
  exact (Except.ok.inj hread).symm

theorem decode_encode_mixed :
    ofText (" " ++ mixedJson.text ++ "\n") = .ok mixedGrammar ∧ mixedGrammar.IntegersOnly ∧
      ofText mixedGrammar.toJson.text = .ok mixedGrammar := by
  have hread : ofText (" " ++ mixedJson.text ++ "\n") = .ok mixedGrammar :=
    ofText_form mixed_form mixed_isText (by decide)
  have hint : mixedGrammar.IntegersOnly := by
    simp [IntegersOnly, mixedGrammar, EachNumberOfItems, EachNumber, EachNumberOfEntries,
      Number.IsInt]
  exact ⟨hread, hint, (decode_encode hread hint).1⟩

end Grammar

end RuleClasses
