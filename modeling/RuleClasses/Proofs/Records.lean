import RuleClasses.Proofs.Answers
import RuleClasses.Proofs.JsonDepth
import RuleClasses.Proofs.TreeNumbers
import Mathlib.Data.List.Pairwise
import Mathlib.Data.List.Perm.Basic

/-! Records with known fields. A draft holds every field in a place of its own, so the entries of
an object may come in any order, and what every field preserves holds of the whole record. -/

namespace RuleClasses.Json

variable {σ : Type}

/-- A field of a record: how its value is read, and where a draft holds it. -/
structure RecordField (σ : Type) where
  name : String
  Value : Type
  read : Tree → Except Issue Value
  get : σ → Option Value
  set : σ → Value → σ
  get_set : ∀ d v, get (set d v) = some v := by intros; rfl

/-- Two fields that a draft holds in different places. -/
structure RecordField.Apart (f g : RecordField σ) : Prop where
  name_ne : f.name ≠ g.name
  get_set : ∀ d v, f.get (g.set d v) = f.get d := by intros; rfl
  get_set' : ∀ d v, g.get (f.set d v) = g.get d := by intros; rfl
  set_set : ∀ d v w, g.set (f.set d v) w = f.set (g.set d w) v := by intros; rfl

/-- A record has these fields, and looks at no other entry of an object. -/
structure HasFields (fields : List (RecordField σ)) (use : σ → String → KeyUse σ) : Prop where
  apart : fields.Pairwise RecordField.Apart
  known : ∀ f ∈ fields, ∀ d, use d f.name = once f.name (f.get d) f.read (f.set d)
  other : ∀ k, k ∉ fields.map RecordField.name →
    (∀ d, use d k = .pass) ∨ ∀ d, ∃ issue, use d k = .refuse issue

/-- The entry of a field that may be left out. -/
def entry (name : String) (value : Option Json) : List (String × Json) :=
  (value.map fun j => (name, j)).toList

theorem mem_entry {name : String} {value : Option Json} {j : Json} (h : j ∈ value) :
    (name, j) ∈ entry name value := by
  rw [Option.mem_def] at h; subst h; exact List.mem_cons_self

theorem entryTrees_append (l m : List (String × Json)) :
    entryTrees (l ++ m) = entryTrees l ++ entryTrees m := by
  induction l with
  | nil => rfl
  | cons x rest ih => rw [List.cons_append, entryTrees, ih]; rfl

theorem map_fst_entryTrees (l : List (String × Json)) :
    (entryTrees l).map Prod.fst = l.map fun x => .ok x.1 := by
  induction l with
  | nil => rfl
  | cons x rest ih => rw [entryTrees, List.map_cons, ih]; rfl

/-- An entry takes one draft to the next. -/
inductive Takes (use : σ → String → KeyUse σ) (d : σ) (k : String) (t : Tree) : σ → Prop where
  | read {field : Tree → Except Issue σ} {d' : σ} : use d k = .read field → field t = .ok d' →
      Takes use d k t d'
  | pass : use d k = .pass → t.pass = .ok () → Takes use d k t d

section

variable {use : σ → String → KeyUse σ} {d d' : σ} {k : String} {t : Tree}

/-- The first entry of an object, when its key is a text. -/
theorem readFields_cons {rest : List (Key × Tree)} :
    readFields use d ((.ok k, t) :: rest) =
      match use d k with
      | .read field => within (.key k) (field t) >>= fun d => readFields use d rest
      | .pass => within (.key k) (here (faulty t.pass)) >>= fun _ => readFields use d rest
      | .refuse issue => .error issue := rfl

theorem takes_of_read {field : Tree → Except Issue σ} (huse : use d k = .read field) :
    Takes use d k t d' ↔ field t = .ok d' := by
  refine ⟨fun h => ?_, .read huse⟩
  cases h with
  | read huse' hfield => rw [huse] at huse'; cases huse'; exact hfield
  | pass huse' _ => rw [huse] at huse'; cases huse'

theorem takes_of_pass (huse : use d k = .pass) :
    Takes use d k t d' ↔ t.pass = .ok () ∧ d' = d := by
  constructor
  · intro h
    cases h with
    | read huse' _ => rw [huse] at huse'; cases huse'
    | pass _ ht => exact ⟨ht, rfl⟩
  · rintro ⟨ht, rfl⟩
    exact .pass huse ht

theorem not_takes_of_refuse {issue : Issue} (huse : use d k = .refuse issue) :
    ¬ Takes use d k t d' := by
  intro h
  cases h with
  | read huse' _ => rw [huse] at huse'; cases huse'
  | pass huse' _ => rw [huse] at huse'; cases huse'

theorem readFields_cons_iff {rest : List (Key × Tree)} :
    readFields use d ((.ok k, t) :: rest) = .ok d' ↔
      ∃ d₁, Takes use d k t d₁ ∧ readFields use d₁ rest = .ok d' := by
  rw [readFields_cons]
  cases huse : use d k with
  | read field =>
    simp only [takes_of_read huse]
    refine bind_eq_ok.trans (exists_congr fun d₁ => and_congr_left fun _ => within_eq_ok)
  | pass =>
    simp only [takes_of_pass huse]
    have hpass : within (.key k) (here (faulty t.pass)) = .ok () ↔ t.pass = .ok () := by
      rw [within_eq_ok, here_eq_ok, faulty_eq_ok]
    refine bind_eq_ok.trans ⟨fun ⟨_, ht, h⟩ => ⟨d, ⟨hpass.mp ht, rfl⟩, h⟩, ?_⟩
    rintro ⟨_, ⟨ht, rfl⟩, h⟩
    exact ⟨(), hpass.mpr ht, h⟩
  | refuse issue => exact ⟨nofun, fun ⟨_, h, _⟩ => absurd h (not_takes_of_refuse huse)⟩

end

/-! ### Entries in front of others -/

section

variable {use : σ → String → KeyUse σ} {d d₁ : σ} {k : String} {t : Tree}
  {l rest : List (Key × Tree)}

theorem readFields_of_takes (h : Takes use d k t d₁) :
    readFields use d ((.ok k, t) :: rest) = readFields use d₁ rest := by
  rw [readFields_cons]
  cases h with
  | read huse hfield => simp only [huse, hfield]; rfl
  | pass huse ht => simp only [huse, ht]; rfl

theorem readFields_of_refuse {issue : Issue} (huse : use d k = .refuse issue) :
    readFields use d ((.ok k, t) :: rest) = .error issue := by
  rw [readFields_cons, huse]

theorem readFields_of_error {field : Tree → Except Issue σ} {issue : Issue}
    (huse : use d k = .read field) (ht : field t = .error issue) :
    readFields use d ((.ok k, t) :: rest) = .error (issue.within (.key k)) := by
  simp only [readFields_cons, huse, ht]
  rfl

/-- Reading goes on behind entries that are taken. -/
theorem readFields_append :
    readFields use d (l ++ rest) = readFields use d l >>= fun d => readFields use d rest := by
  induction l generalizing d with
  | nil => rfl
  | cons x l ih =>
    match x with
    | (.error _, _) => rfl
    | (.ok k, t) =>
      rw [List.cons_append, readFields_cons, readFields_cons]
      cases use d k with
      | read field =>
        cases hfield : within (.key k) (field t) with
        | error issue => simp only [hfield]; rfl
        | ok d₁ => simp only [hfield]; exact ih
      | pass =>
        cases within (.key k) (here (faulty t.pass)) with
        | error issue => rfl
        | ok _ => exact ih
      | refuse issue => rfl

end

theorem RecordField.Apart.symm {f g : RecordField σ} (h : f.Apart g) : g.Apart f :=
  ⟨h.name_ne.symm, h.get_set', h.get_set, fun d v w => (h.set_set d w v).symm⟩

namespace HasFields

variable {fields : List (RecordField σ)} {use : σ → String → KeyUse σ} {d d' d₁ d₂ : σ}
  {k l : String} {t u : Tree}

theorem use_free (h : HasFields fields use) {f : RecordField σ} (hf : f ∈ fields)
    (hfree : f.get d = none) : use d f.name = .read fun t => (f.read t).map (f.set d) := by
  rw [h.known f hf, hfree]; rfl

theorem apart_of_ne (h : HasFields fields use) {f g : RecordField σ} (hf : f ∈ fields)
    (hg : g ∈ fields) (hne : f ≠ g) : f.Apart g := by
  have : Std.Symm (@RecordField.Apart σ) := ⟨fun _ _ => RecordField.Apart.symm⟩
  exact h.apart.forall hf hg hne

theorem use_taken (h : HasFields fields use) {f : RecordField σ} (hf : f ∈ fields)
    (htaken : (f.get d).isSome) :
    use d f.name = .refuse (.here (.duplicateField f.name)) := by
  obtain ⟨v, hv⟩ := Option.isSome_iff_exists.mp htaken
  rw [h.known f hf, hv]
  rfl

theorem takes_known (h : HasFields fields use) {f : RecordField σ} (hf : f ∈ fields) {v : f.Value}
    (hfree : f.get d = none) (hread : f.read t = .ok v) : Takes use d f.name t (f.set d v) := by
  rw [takes_of_read (h.use_free hf hfree), hread]
  rfl

theorem takes_field_iff (h : HasFields fields use) {f : RecordField σ} (hf : f ∈ fields) :
    Takes use d f.name t d' ↔ f.get d = none ∧ ∃ v, f.read t = .ok v ∧ f.set d v = d' := by
  cases hget : f.get d with
  | none => rw [takes_of_read (h.use_free hf hget), map_eq_ok]; simp
  | some v =>
    have hrefuse : ¬ Takes use d f.name t d' :=
      not_takes_of_refuse (h.use_taken hf (by rw [hget]; rfl))
    exact ⟨fun htakes => absurd htakes hrefuse, fun ⟨hfree, _⟩ => nomatch hfree⟩

theorem takes_iff (h : HasFields fields use) : Takes use d k t d' ↔
    (∃ f ∈ fields, f.name = k ∧ f.get d = none ∧ ∃ v, f.read t = .ok v ∧ d' = f.set d v) ∨
      ((∀ d, use d k = .pass) ∧ t.pass = .ok () ∧ d' = d) := by
  constructor
  · intro htakes
    by_cases hk : k ∈ fields.map RecordField.name
    · obtain ⟨f, hf, rfl⟩ := List.mem_map.mp hk
      obtain ⟨hfree, v, hv, rfl⟩ := (h.takes_field_iff hf).mp htakes
      exact .inl ⟨f, hf, rfl, hfree, v, hv, rfl⟩
    · rcases h.other k hk with hpass | hrefuse
      · exact .inr ⟨hpass, (takes_of_pass (hpass d)).mp htakes⟩
      · obtain ⟨issue, huse⟩ := hrefuse d
        exact absurd htakes (not_takes_of_refuse huse)
  · rintro (⟨f, hf, rfl, hfree, v, hv, rfl⟩ | ⟨hpass, ht, rfl⟩)
    · exact h.takes_known hf hfree hv
    · exact .pass (hpass _) ht

/-- Two entries that are both taken may change places. -/
theorem takes_swap (h : HasFields fields use) (hx : Takes use d k t d₁) (hy : Takes use d₁ l u d₂) :
    ∃ d₃, Takes use d l u d₃ ∧ Takes use d₃ k t d₂ := by
  rw [h.takes_iff] at hx hy
  rcases hx with ⟨f, hf, rfl, hfree, v, hv, rfl⟩ | ⟨hpass, ht, rfl⟩
  · rcases hy with ⟨g, hg, rfl, hfree', w, hw, rfl⟩ | ⟨hpass, ht, rfl⟩
    · have hne : f ≠ g := by
        rintro rfl
        rw [f.get_set] at hfree'
        cases hfree'
      have hapart := h.apart_of_ne hf hg hne
      rw [hapart.get_set'] at hfree'
      refine ⟨g.set d w, h.takes_known hg hfree' hw, ?_⟩
      rw [hapart.set_set]
      exact h.takes_known hf (by rw [hapart.get_set, hfree]) hv
    · exact ⟨d, .pass (hpass d) ht, h.takes_known hf hfree hv⟩
  · exact ⟨d₂, h.takes_iff.mpr hy, .pass (hpass _) ht⟩

/-- The entries of an object may stand in any order. -/
theorem readFields_perm (h : HasFields fields use) {l l' : List (String × Json)} (hp : l.Perm l')
    (hl : readFields use d (entryTrees l) = .ok d') :
    readFields use d (entryTrees l') = .ok d' := by
  induction hp generalizing d with
  | nil => exact hl
  | cons x _ ih =>
    obtain ⟨d₁, hx, hrest⟩ := readFields_cons_iff.mp hl
    exact readFields_cons_iff.mpr ⟨d₁, hx, ih hrest⟩
  | swap x y _ =>
    obtain ⟨d₁, hy, hrest⟩ := readFields_cons_iff.mp hl
    obtain ⟨d₂, hx, hrest⟩ := readFields_cons_iff.mp hrest
    obtain ⟨d₃, hx, hy⟩ := h.takes_swap hy hx
    exact readFields_cons_iff.mpr ⟨d₃, hx, readFields_cons_iff.mpr ⟨d₂, hy, hrest⟩⟩
  | trans _ _ ih₁ ih₂ => exact ih₂ (ih₁ hl)

/-- An entry for a field that is given. -/
theorem readFields_entry (h : HasFields fields use) {f : RecordField σ} (hf : f ∈ fields)
    {v : f.Value} {value : Option Json} (hfree : f.get d = none)
    (hread : ∀ j ∈ value, f.read j.tree = .ok v) {rest : List (String × Json)}
    (hrest : readFields use (if value.isSome then f.set d v else d) (entryTrees rest) = .ok d') :
    readFields use d (entryTrees (entry f.name value ++ rest)) = .ok d' := by
  cases value with
  | none => exact hrest
  | some j => exact readFields_cons_iff.mpr ⟨_, h.takes_known hf hfree (hread j rfl), hrest⟩

/-- Entries that nobody looks at leave the draft as it is. -/
theorem readFields_pass {l : List (String × Json)} (h : ∀ x ∈ l, use d x.1 = .pass) :
    readFields use d (entryTrees l) = .ok d := by
  induction l with
  | nil => rfl
  | cons x rest ih =>
    exact readFields_cons_iff.mpr ⟨d, .pass (h x List.mem_cons_self) (pass_tree x.2),
      ih fun y hy => h y (List.mem_cons_of_mem x hy)⟩

/-! ### Fields that were read already -/

/-- A draft holds a field when it did so before or when an entry gives the field. -/
theorem isSome_get_iff (h : HasFields fields use) {f : RecordField σ} (hf : f ∈ fields)
    {l : List (Key × Tree)} (hl : readFields use d l = .ok d') :
    (f.get d').isSome ↔ (f.get d).isSome ∨ (.ok f.name : Key) ∈ l.map Prod.fst := by
  induction l generalizing d with
  | nil => cases hl; simp
  | cons x rest ih =>
    match x, hl with
    | (.error _, _), hl => cases hl
    | (.ok k, t), hl =>
      obtain ⟨d₁, htakes, hrest⟩ := readFields_cons_iff.mp hl
      have hfirst : (f.get d₁).isSome ↔ (f.get d).isSome ∨ f.name = k := by
        by_cases hk : f.name = k
        · subst hk
          obtain ⟨-, v, -, rfl⟩ := (h.takes_field_iff hf).mp htakes
          simp [f.get_set]
        · rcases h.takes_iff.mp htakes with ⟨g, hg, rfl, -, v, -, rfl⟩ | ⟨-, -, rfl⟩
          · have hapart := h.apart_of_ne hf hg fun heq => hk (heq ▸ rfl)
            simp [hapart.get_set, hk]
          · simp [hk]
      rw [ih hrest, hfirst, List.map_cons, List.mem_cons, Except.ok.injEq, or_assoc]

/-- What can be read without a field cannot be read where the field is there already, if it
gives the field. -/
theorem readFields_repeated (h : HasFields fields use) {f : RecordField σ} (hf : f ∈ fields)
    {l : List (Key × Tree)} (hl : readFields use d l = .ok d')
    (hmem : (.ok f.name : Key) ∈ l.map Prod.fst) (v : f.Value) :
    readFields use (f.set d v) l = .error (.here (.duplicateField f.name)) := by
  induction l generalizing d with
  | nil => cases hmem
  | cons x rest ih =>
    match x, hl, hmem with
    | (.error _, _), hl, _ => cases hl
    | (.ok k, t), hl, hmem =>
      by_cases hk : f.name = k
      · subst hk
        exact readFields_of_refuse (h.use_taken hf (by rw [f.get_set]; rfl))
      · have hbehind : (.ok f.name : Key) ∈ rest.map Prod.fst := by
          rw [List.map_cons, List.mem_cons, Except.ok.injEq] at hmem
          exact hmem.resolve_left hk
        obtain ⟨d₁, htakes, hrest⟩ := readFields_cons_iff.mp hl
        rcases h.takes_iff.mp htakes with ⟨g, hg, rfl, hfree, w, hw, rfl⟩ | ⟨hpass, ht, rfl⟩
        · have hapart := h.apart_of_ne hf hg fun heq => hk (heq ▸ rfl)
          have hfree' : g.get (f.set d v) = none := by rw [hapart.get_set', hfree]
          rw [readFields_of_takes (h.takes_known hg hfree' hw), hapart.set_set]
          exact ih hrest hbehind
        · rw [readFields_of_takes (.pass (hpass _) ht)]
          exact ih hrest hbehind

end HasFields

/-- How the value of a field is read where it stands in a list. -/
def RecordField.position (f : RecordField σ) (d : σ) (t : Tree) : Except Issue σ :=
  (f.read t).map (f.set d)

theorem readPositions_field {index : Nat} {d d' : σ} {f : RecordField σ} {v : f.Value}
    {fields : List (σ → Tree → Except Issue σ)} {j : Json} {js : List Json}
    (hread : f.read j.tree = .ok v)
    (hjs : readPositions (index + 1) (f.set d v) fields (itemTrees js) .closed = .ok d') :
    readPositions index d (f.position :: fields) (itemTrees (j :: js)) .closed = .ok d' := by
  rw [itemTrees, readPositions, RecordField.position, hread]
  exact hjs

/-- The items of a list are read as the entries of an object would be in which the fields stand in
their order. -/
theorem HasFields.readPositions_of_readFields {fields : List (RecordField σ)}
    {use : σ → String → KeyUse σ} {d d' : σ} (h : HasFields fields use)
    {first : List (RecordField σ)} (hfirst : first ⊆ fields) {js : List Json} (index : Nat)
    (hlength : js.length ≤ first.length)
    (hread : readFields use d (entryTrees ((first.map RecordField.name).zip js)) = .ok d') :
    readPositions index d (first.map RecordField.position) (itemTrees js) .closed = .ok d' := by
  induction first generalizing index d js with
  | nil =>
    obtain rfl := List.eq_nil_of_length_eq_zero (Nat.le_zero.mp hlength)
    exact hread
  | cons f first ih =>
    obtain ⟨hf, hfirst⟩ := List.cons_subset.mp hfirst
    match js with
    | [] => exact hread
    | j :: js =>
      obtain ⟨d₁, htakes, hread⟩ := readFields_cons_iff.mp hread
      obtain ⟨-, v, hv, rfl⟩ := (h.takes_field_iff hf).mp htakes
      exact readPositions_field hv (ih hfirst (index + 1) (Nat.le_of_succ_le_succ hlength) hread)

/-- Items that are read one by one. -/
theorem readEach_itemTrees {α : Type} {item : Tree → Except Issue α} {js : List Json} {as : List α}
    (h : List.Forall₂ (fun j a => item j.tree = .ok a) js as) (index : Nat) :
    readEach item index (itemTrees js) = .ok as := by
  induction h generalizing index with
  | nil => rfl
  | cons hj _ ih => rw [itemTrees, readEach, hj, ih (index + 1)]; rfl

/-! ## What stays true while a record is read -/

section

variable {I : σ → Prop} {Q : Tree → Prop} {fields : List (RecordField σ)}
  {use : σ → String → KeyUse σ} {d d' : σ}

theorem readFields_inv (hstep : ∀ {k t d d'}, Q t → I d → Takes use d k t d' → I d')
    {entries : List (Key × Tree)} (hentries : ∀ x ∈ entries, Q x.2) (hd : I d)
    (h : readFields use d entries = .ok d') : I d' := by
  induction entries generalizing d with
  | nil => cases h; exact hd
  | cons x rest ih =>
    obtain ⟨hx, hrest⟩ := List.forall_mem_cons.mp hentries
    match x, hx, h with
    | (.error _, _), _, h => cases h
    | (.ok k, t), hx, h =>
      obtain ⟨d₁, htakes, h⟩ := readFields_cons_iff.mp h
      exact ih hrest (hstep hx hd htakes) h

theorem readPositions_inv {index : Nat} {items : List Tree} {close : Close}
    (hset : ∀ f ∈ fields, ∀ {t d v}, Q t → I d → f.read t = .ok v → I (f.set d v))
    (hitems : ∀ t ∈ items, Q t) (hd : I d)
    (h : readPositions index d (fields.map RecordField.position) items close = .ok d') : I d' := by
  induction fields generalizing index items d with
  | nil =>
    cases items with
    | nil => cases close <;> cases h; exact hd
    | cons => cases h
  | cons f fields ih =>
    obtain ⟨hf, hfields⟩ := List.forall_mem_cons.mp hset
    cases items with
    | nil =>
      obtain ⟨-, -, h⟩ := bind_eq_ok.mp h
      cases h
      exact hd
    | cons t rest =>
      obtain ⟨ht, hrest⟩ := List.forall_mem_cons.mp hitems
      obtain ⟨d₁, hd₁, h⟩ := bind_eq_ok.mp h
      obtain ⟨v, hv, rfl⟩ := map_eq_ok.mp (within_eq_ok.mp hd₁)
      exact ih hfields hrest (hf ht hd hv) h

/-- A record comes from a draft of which holds what every field preserves. -/
theorem RecordReader.read_inv {α : Type} {r : RecordReader σ α} (hfields : HasFields fields r.use)
    (hpositions : r.positions = fields.map RecordField.position) (hempty : I r.empty)
    (hset : ∀ f ∈ fields, ∀ {t d v}, t.InRange → I d → f.read t = .ok v → I (f.set d v))
    {t : Tree} (ht : t.InRange) {a : α} (h : r.read t = .ok a) :
    ∃ d problem, I d ∧ r.finish problem d = .ok a := by
  match t, ht with
  | .object entries close, .object hentries =>
    obtain ⟨d, hd, h⟩ := bind_eq_ok.mp h
    obtain ⟨_, hd, h'⟩ := bind_eq_ok.mp hd
    obtain ⟨-, -, h'⟩ := bind_eq_ok.mp h'
    cases h'
    refine ⟨d, _, readFields_inv (fun {k t d d'} ht hinv htakes => ?_) hentries hempty hd,
      here_eq_ok.mp h⟩
    rcases hfields.takes_iff.mp htakes with ⟨f, hf, -, -, v, hv, rfl⟩ | ⟨-, -, rfl⟩
    · exact hset f hf ht hinv hv
    · exact hinv
  | .list items close, .list hitems =>
    obtain ⟨d, hd, h⟩ := bind_eq_ok.mp h
    rw [hpositions] at hd
    exact ⟨d, _, readPositions_inv hset hitems hempty hd, here_eq_ok.mp h⟩
  | .null, _ | .bool _, _ | .absent, _ | .broken _ _, _ | .brokenString _ _, _ => cases h
  | .number n, _ => cases n <;> cases h
  | .string s, _ => cases s <;> cases h

end

end RuleClasses.Json
