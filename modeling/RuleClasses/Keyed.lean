/-! Lists of values under keys. A key keeps the place where it was first put, and
the last value put under it. -/

namespace RuleClasses

namespace Keyed

variable {κ : Type u} {α : Type v} [DecidableEq κ]

def put (key : κ) (value : α) : List (κ × α) → List (κ × α)
  | [] => [(key, value)]
  | (k, v) :: rest => if k = key then (k, value) :: rest else (k, v) :: put key value rest

def ofList (entries : List (κ × α)) : List (κ × α) :=
  entries.foldl (fun l e => put e.1 e.2 l) []

def get? (key : κ) (entries : List (κ × α)) : Option α :=
  (entries.find? fun e => e.1 = key).map Prod.snd

def keys (entries : List (κ × α)) : List κ := entries.map Prod.fst

def values (entries : List (κ × α)) : List α := entries.map Prod.snd

theorem get?_append (key : κ) (l l' : List (κ × α)) :
    get? key (l ++ l') = (get? key l).or (get? key l') := by
  rw [get?, get?, get?, List.find?_append, Option.map_or]

theorem get?_cons (key k : κ) (value : α) (rest : List (κ × α)) :
    get? key ((k, value) :: rest) = if k = key then some value else get? key rest := by
  by_cases h : k = key <;> simp [get?, h]

theorem get?_eq_none {key : κ} {entries : List (κ × α)} :
    get? key entries = none ↔ key ∉ keys entries := by
  induction entries with
  | nil => simp [get?, keys]
  | cons e rest ih =>
    rw [keys] at ih ⊢
    rw [get?_cons, List.map_cons, List.mem_cons, not_or, ← ih]
    by_cases h : e.1 = key
    · simp [h]
    · simp [h, Ne.symm h]

theorem get?_of_mem {entries : List (κ × α)} (h : (keys entries).Nodup) {e : κ × α}
    (he : e ∈ entries) : get? e.1 entries = some e.2 := by
  induction entries with
  | nil => cases he
  | cons d rest ih =>
    obtain ⟨hd, hrest⟩ := List.nodup_cons.mp h
    rw [get?_cons]
    rcases List.mem_cons.mp he with rfl | he
    · exact if_pos rfl
    · have hne : d.1 ≠ e.1 := fun hkey => hd (hkey ▸ List.mem_map_of_mem he)
      rw [if_neg hne]
      exact ih hrest he

theorem get?_put (key k : κ) (value : α) (entries : List (κ × α)) :
    get? k (put key value entries) = if k = key then some value else get? k entries := by
  induction entries with
  | nil => by_cases h : k = key <;> simp [put, get?, h, eq_comm]
  | cons e rest ih =>
    obtain ⟨k', v'⟩ := e
    simp only [get?] at ih
    by_cases h : k' = key
    · subst h; by_cases hk : k = k' <;> simp [put, get?, hk, eq_comm]
    · by_cases hk : k' = k
      · subst hk; simp [put, get?, h]
      · simp [put, get?, h, hk, ih]

theorem keys_put (key : κ) (value : α) (entries : List (κ × α)) :
    keys (put key value entries) =
      if key ∈ keys entries then keys entries else keys entries ++ [key] := by
  induction entries with
  | nil => simp [put, keys]
  | cons e rest ih =>
    obtain ⟨k', v'⟩ := e
    simp only [keys] at ih
    by_cases h : k' = key
    · subst h; simp [put, keys]
    · have h' : key ≠ k' := fun e => h e.symm
      simp only [put, h, if_false, keys, List.map_cons, ih, List.mem_cons, h', false_or]
      split <;> simp_all

theorem mem_put {key : κ} {value : α} {entries : List (κ × α)} {e : κ × α}
    (h : e ∈ put key value entries) : e = (key, value) ∨ e ∈ entries := by
  induction entries with
  | nil => exact .inl (by simpa [put] using h)
  | cons f rest ih =>
    obtain ⟨k', v'⟩ := f
    simp only [put] at h
    split at h
    · rename_i hk
      rcases List.mem_cons.mp h with rfl | h
      · exact .inl (by rw [hk])
      · exact .inr (List.mem_cons_of_mem _ h)
    · rcases List.mem_cons.mp h with rfl | h
      · exact .inr List.mem_cons_self
      · exact (ih h).imp_right (List.mem_cons_of_mem _)

/-- Of all values under a key the last one stays. -/
theorem get?_foldl_put (key : κ) (entries acc : List (κ × α)) :
    get? key (entries.foldl (fun l e => put e.1 e.2 l) acc) =
      ((entries.findRev? fun e => e.1 = key).map Prod.snd).or (get? key acc) := by
  induction entries generalizing acc with
  | nil => rfl
  | cons e rest ih =>
    rw [List.foldl_cons, ih, get?_put, List.findRev?]
    cases rest.findRev? fun e => e.1 = key with
    | some f => rfl
    | none =>
      by_cases h : e.1 = key
      · simp [h]
      · simp [h, Ne.symm h]

/-- Entries made of the members of a list: the last member with a key counts. -/
theorem get?_ofList_map {β : Type w} (f : β → κ) (g : β → α) (key : κ) (l : List β) :
    get? key (ofList (l.map fun b => (f b, g b))) = (l.findRev? fun b => f b = key).map g := by
  have hmap : (l.map fun b => (f b, g b)).findRev? (fun e => e.1 = key) =
      (l.findRev? fun b => f b = key).map fun b => (f b, g b) := by
    induction l with
    | nil => rfl
    | cons b rest ih =>
      rw [List.map_cons, List.findRev?, ih, List.findRev?]
      cases rest.findRev? fun b => f b = key with
      | some c => rfl
      | none => by_cases h : f b = key <;> simp [h]
  rw [ofList, get?_foldl_put, hmap, Option.map_map]
  exact Option.or_none

theorem mem_keys_put {key k : κ} {value : α} {entries : List (κ × α)} :
    k ∈ keys (put key value entries) ↔ k = key ∨ k ∈ keys entries := by
  rw [keys_put]
  split
  · rename_i hk
    exact ⟨.inr, fun h => h.elim (fun he => he ▸ hk) id⟩
  · rw [List.mem_append, List.mem_singleton, or_comm]

theorem nodup_keys_put {key : κ} {value : α} {entries : List (κ × α)}
    (h : (keys entries).Nodup) : (keys (put key value entries)).Nodup := by
  rw [keys_put]
  split
  · exact h
  · rename_i hnew
    refine List.nodup_append.mpr ⟨h, by simp, fun k hk k' hk' he => ?_⟩
    rw [List.mem_singleton.mp hk'] at he
    exact hnew (he ▸ hk)

theorem nodup_keys_ofList (entries : List (κ × α)) : (keys (ofList entries)).Nodup := by
  have hfold : ∀ acc, (keys acc).Nodup →
      (keys (entries.foldl (fun l e => put e.1 e.2 l) acc)).Nodup := by
    induction entries with
    | nil => exact fun _ h => h
    | cons e rest ih => exact fun _ h => ih _ (nodup_keys_put h)
  exact hfold [] List.nodup_nil

theorem mem_keys_ofList {key : κ} {entries : List (κ × α)} :
    key ∈ keys (ofList entries) ↔ key ∈ keys entries := by
  have hfold : ∀ acc, key ∈ keys (entries.foldl (fun l e => put e.1 e.2 l) acc) ↔
      key ∈ keys entries ∨ key ∈ keys acc := by
    induction entries with
    | nil => simp [keys]
    | cons e rest ih =>
      intro acc
      have hcons : key ∈ keys (e :: rest) ↔ key = e.1 ∨ key ∈ keys rest := by simp [keys]
      rw [List.foldl_cons, ih, mem_keys_put, hcons, or_left_comm, or_assoc]
  rw [ofList, hfold]
  simp [keys]

theorem mem_of_mem_ofList {entries : List (κ × α)} {e : κ × α} (h : e ∈ ofList entries) :
    e ∈ entries := by
  have hfold : ∀ acc, e ∈ entries.foldl (fun l e => put e.1 e.2 l) acc → e ∈ entries ∨ e ∈ acc := by
    clear h
    induction entries with
    | nil => intro acc h; exact .inr h
    | cons f rest ih =>
      intro acc h
      rcases ih _ h with h | h
      · exact .inl (List.mem_cons_of_mem _ h)
      · rcases mem_put h with rfl | h
        · exact .inl List.mem_cons_self
        · exact .inr h
  simpa using hfold [] h

theorem put_of_notMem {key : κ} {value : α} {entries : List (κ × α)} (h : key ∉ keys entries) :
    put key value entries = entries ++ [(key, value)] := by
  induction entries with
  | nil => rfl
  | cons e rest ih =>
    obtain ⟨k, v⟩ := e
    obtain ⟨hne, hrest⟩ := not_or.mp (mt List.mem_cons.mpr h)
    rw [put, if_neg (Ne.symm hne), ih hrest, List.cons_append]

/-- Entries with keys of their own stay as they are. -/
theorem ofList_of_nodup {entries : List (κ × α)} (h : (keys entries).Nodup) :
    ofList entries = entries := by
  have hfold : ∀ acc, (keys (acc ++ entries)).Nodup →
      entries.foldl (fun l e => put e.1 e.2 l) acc = acc ++ entries := by
    clear h
    induction entries with
    | nil => intro acc _; exact (List.append_nil acc).symm
    | cons e rest ih =>
      intro acc hacc
      have hnew : e.1 ∉ keys acc := by
        intro hmem
        rw [keys, List.map_append, List.map_cons] at hacc
        exact (List.nodup_append.mp hacc).2.2 _ hmem _ List.mem_cons_self rfl
      rw [List.foldl_cons, put_of_notMem hnew, ih _ (by simpa using hacc)]
      simp
  exact hfold [] h

end Keyed

end RuleClasses
