import RuleClasses.Proofs.TreeNumbers

/-! What the readers give: values that are not deeper than there was room for, whose numbers
are in range, and in which no key is repeated where repeated keys are settled. -/

namespace RuleClasses.Json

variable {room index : Nat}

/-! ## Values that were read -/

theorem readItems_eq_ok {ts : List Tree} {js : List Json} (h : readItems room index ts = .ok js) :
    List.Forall₂ (fun t j => t.read room = .ok j) ts js := by
  induction ts generalizing index js with
  | nil => cases h; exact .nil
  | cons t rest ih =>
    rw [readItems] at h
    obtain ⟨j, hj, h⟩ := bind_eq_ok.mp h
    obtain ⟨values, hvalues, h⟩ := bind_eq_ok.mp h
    cases h
    exact .cons (within_eq_ok.mp hj) (ih hvalues)

theorem readEntries_eq_ok {entries : List (Key × Tree)} {es : List (String × Json)}
    (h : readEntries room entries = .ok es) :
    List.Forall₂ (fun x e => x.1 = .ok e.1 ∧ x.2.read room = .ok e.2) entries es := by
  induction entries generalizing es with
  | nil => cases h; exact .nil
  | cons x rest ih =>
    rw [readEntries] at h
    obtain ⟨k, hk, h⟩ := bind_eq_ok.mp h
    obtain ⟨j, hj, h⟩ := bind_eq_ok.mp h
    obtain ⟨values, hvalues, h⟩ := bind_eq_ok.mp h
    cases h
    exact .cons ⟨faulty_eq_ok.mp (here_eq_ok.mp (within_eq_ok.mp hk)), within_eq_ok.mp hj⟩
      (ih hvalues)

theorem readEach_eq_ok {α : Type} {item : Tree → Except Issue α} {ts : List Tree} {as : List α}
    (h : readEach item index ts = .ok as) : List.Forall₂ (fun t a => item t = .ok a) ts as := by
  induction ts generalizing index as with
  | nil => cases h; exact .nil
  | cons t rest ih =>
    rw [readEach] at h
    obtain ⟨a, ha, h⟩ := bind_eq_ok.mp h
    obtain ⟨values, hvalues, h⟩ := bind_eq_ok.mp h
    cases h
    exact .cons (within_eq_ok.mp ha) (ih hvalues)

theorem readList_eq_ok {α : Type} {item : Tree → Except Issue α} {t : Tree} {as : List α}
    (h : t.readList item = .ok as) : ∃ items close,
      t = .list items close ∧ List.Forall₂ (fun t a => item t = .ok a) items as := by
  match t with
  | .list items close =>
    obtain ⟨_, has, h⟩ := bind_eq_ok.mp h
    obtain ⟨-, -, h⟩ := bind_eq_ok.mp h
    cases h
    exact ⟨items, close, rfl, readEach_eq_ok has⟩
  | .null | .bool _ | .absent | .broken _ _ | .brokenString _ _ | .object _ _ => cases h
  | .number n => cases n <;> cases h
  | .string s => cases s <;> cases h

/-- What holds of a tree holds of the value that is read from it. -/
theorem read_eq_ok {room : Nat} {t : Tree} {j : Json} (h : t.read room = .ok j) :
    j.depth ≤ room ∧ (t.InRange → j.EachNumber Number.InRange) := by
  match t, room with
  | .null, _ | .bool _, _ => cases h; exact ⟨Nat.zero_le _, fun _ => trivial⟩
  | .number n, _ =>
    obtain ⟨m, hm, rfl⟩ := map_eq_ok.mp (faulty_eq_ok.mp (here_eq_ok.mp h))
    refine ⟨Nat.zero_le _, fun hrange => ?_⟩
    cases hrange with
    | number hn => exact hn m hm
  | .string s, _ =>
    obtain ⟨v, -, rfl⟩ := map_eq_ok.mp (faulty_eq_ok.mp (here_eq_ok.mp h))
    exact ⟨Nat.zero_le _, fun _ => trivial⟩
  | .list items close, room + 1 =>
    obtain ⟨js, hjs, h⟩ := bind_eq_ok.mp h
    obtain ⟨-, -, h⟩ := bind_eq_ok.mp h
    cases h
    have hitem (t : Tree) (j : Json) (h : t.read room = .ok j) := read_eq_ok h
    have hitems := readItems_eq_ok hjs
    constructor
    · rw [depth, Nat.add_le_add_iff_right, itemsDepth_le]
      exact forall_of_forall₂ (P := fun _ => True) (fun t j _ h => (hitem t j h).1) hitems
        fun _ _ => trivial
    · intro hrange
      cases hrange with
      | list hall =>
        exact eachNumberOfItems_iff.mpr
          (forall_of_forall₂ (fun t j ht h => (hitem t j h).2 ht) hitems hall)
  | .object entries close, room + 1 =>
    obtain ⟨es, hes, h⟩ := bind_eq_ok.mp h
    obtain ⟨-, -, h⟩ := bind_eq_ok.mp h
    cases h
    have hitem (t : Tree) (j : Json) (h : t.read room = .ok j) := read_eq_ok h
    have hentries := readEntries_eq_ok hes
    constructor
    · rw [depth, Nat.add_le_add_iff_right, entriesDepth_le]
      exact forall_of_forall₂ (P := fun _ => True) (fun _ _ _ h => (hitem _ _ h.2).1) hentries
        fun _ _ => trivial
    · intro hrange
      cases hrange with
      | object hall =>
        exact eachNumberOfEntries_iff.mpr
          (forall_of_forall₂ (fun _ _ ht h => (hitem _ _ h.2).2 ht) hentries hall)
  | .list _ _, 0 | .object _ _, 0 | .absent, _ | .broken _ _, _ | .brokenString _ _, _ => cases h
termination_by room

theorem depth_of_readItems {ts : List Tree} {js : List Json}
    (h : readItems room index ts = .ok js) : ∀ j ∈ js, j.depth ≤ room := by
  have hread (t : Tree) (j : Json) (_ : True) (h : t.read room = .ok j) := (read_eq_ok h).1
  exact forall_of_forall₂ hread (readItems_eq_ok h) fun _ _ => trivial

/-! ## Repeated keys -/

mutual

theorem depth_mergeKeys_le (j : Json) : j.mergeKeys.depth ≤ j.depth := by
  match j with
  | .null | .bool _ | .number _ | .string _ => exact Nat.le_refl _
  | .list items => exact Nat.succ_le_succ (itemsDepth_mergeItems_le items)
  | .object entries =>
    refine Nat.succ_le_succ (entriesDepth_le.mpr fun x hx => ?_)
    exact entriesDepth_le.mp (entriesDepth_mergeEntries_le entries) x (Keyed.mem_of_mem_ofList hx)

theorem itemsDepth_mergeItems_le (items : List Json) :
    itemsDepth (mergeItems items) ≤ itemsDepth items := by
  match items with
  | [] => exact Nat.le_refl 0
  | j :: rest =>
    have hj := depth_mergeKeys_le j
    have hrest := itemsDepth_mergeItems_le rest
    rw [mergeItems, itemsDepth, itemsDepth]
    omega

theorem entriesDepth_mergeEntries_le (entries : List (String × Json)) :
    entriesDepth (mergeEntries entries) ≤ entriesDepth entries := by
  match entries with
  | [] => exact Nat.le_refl 0
  | (_, j) :: rest =>
    have hj := depth_mergeKeys_le j
    have hrest := entriesDepth_mergeEntries_le rest
    rw [mergeEntries, entriesDepth, entriesDepth]
    omega

end

section

variable {P : Number → Prop}

mutual

theorem eachNumber_mergeKeys (j : Json) (h : j.EachNumber P) : j.mergeKeys.EachNumber P := by
  match j with
  | .null | .bool _ | .string _ => exact trivial
  | .number _ => exact h
  | .list items => exact eachNumberOfItems_mergeItems items h
  | .object entries =>
    have hmerged := eachNumberOfEntries_iff.mp (eachNumberOfEntries_mergeEntries entries h)
    exact eachNumberOfEntries_iff.mpr fun x hx => hmerged x (Keyed.mem_of_mem_ofList hx)

theorem eachNumberOfItems_mergeItems (items : List Json) (h : EachNumberOfItems P items) :
    EachNumberOfItems P (mergeItems items) := by
  match items with
  | [] => exact trivial
  | j :: rest => exact ⟨eachNumber_mergeKeys j h.1, eachNumberOfItems_mergeItems rest h.2⟩

theorem eachNumberOfEntries_mergeEntries (entries : List (String × Json))
    (h : EachNumberOfEntries P entries) : EachNumberOfEntries P (mergeEntries entries) := by
  match entries with
  | [] => exact trivial
  | (_, j) :: rest => exact ⟨eachNumber_mergeKeys j h.1, eachNumberOfEntries_mergeEntries rest h.2⟩

end

end

theorem mergeItems_of_forall {items : List Json} (h : ∀ j ∈ items, j.mergeKeys = j) :
    mergeItems items = items := by
  induction items with
  | nil => rfl
  | cons j rest ih =>
    obtain ⟨hj, hrest⟩ := List.forall_mem_cons.mp h
    rw [mergeItems, hj, ih hrest]

theorem mergeEntries_of_forall {entries : List (String × Json)}
    (h : ∀ x ∈ entries, x.2.mergeKeys = x.2) : mergeEntries entries = entries := by
  induction entries with
  | nil => rfl
  | cons x rest ih =>
    obtain ⟨hx, hrest⟩ := List.forall_mem_cons.mp h
    rw [mergeEntries, hx, ih hrest]

theorem mergeKeys_string (s : String) : (Json.string s).mergeKeys = .string s := by
  simp [mergeKeys]

theorem mergeKeys_list {items : List Json} (h : ∀ j ∈ items, j.mergeKeys = j) :
    (Json.list items).mergeKeys = .list items := by
  rw [mergeKeys, mergeItems_of_forall h]

/-- Nothing is lost from an object whose keys are all different. -/
theorem mergeKeys_object {entries : List (String × Json)} (hkeys : (Keyed.keys entries).Nodup)
    (h : ∀ x ∈ entries, x.2.mergeKeys = x.2) :
    (Json.object entries).mergeKeys = .object entries := by
  rw [mergeKeys, mergeEntries_of_forall h, Keyed.ofList_of_nodup hkeys]

mutual

/-- What is settled stays as it is. -/
theorem mergeKeys_mergeKeys (j : Json) : j.mergeKeys.mergeKeys = j.mergeKeys := by
  match j with
  | .null | .bool _ | .number _ | .string _ => rfl
  | .list items => exact congrArg Json.list (mergeItems_mergeItems items)
  | .object entries =>
    have hsettled : ∀ x ∈ Keyed.ofList (mergeEntries entries), x.2.mergeKeys = x.2 :=
      fun x hx => mergeKeys_mergeEntries entries x (Keyed.mem_of_mem_ofList hx)
    rw [mergeKeys]
    exact mergeKeys_object (Keyed.nodup_keys_ofList _) hsettled

theorem mergeItems_mergeItems (items : List Json) :
    mergeItems (mergeItems items) = mergeItems items := by
  match items with
  | [] => rfl
  | j :: rest =>
    rw [mergeItems, mergeItems, mergeKeys_mergeKeys j, mergeItems_mergeItems rest]

theorem mergeKeys_mergeEntries (entries : List (String × Json)) :
    ∀ x ∈ mergeEntries entries, x.2.mergeKeys = x.2 := by
  match entries with
  | [] => nofun
  | (k, j) :: rest =>
    exact List.forall_mem_cons.mpr ⟨mergeKeys_mergeKeys j, mergeKeys_mergeEntries rest⟩

end

end RuleClasses.Json
