import Mathlib.Data.List.Basic
import Mathlib.Data.List.Nodup

/-! Places in a list. One element stands before another when it is first found at an
earlier place. Neither a filter nor the removal of repeats changes which of two
elements that are kept comes first. -/

namespace RuleClasses

variable {α : Type*}

theorem mem_of_findRev? {p : α → Bool} {l : List α} {a : α} (h : l.findRev? p = some a) :
    a ∈ l ∧ p a := by
  rw [List.findRev?_eq_find?_reverse] at h
  exact ⟨List.mem_reverse.mp (List.mem_of_find?_eq_some h), List.find?_some h⟩

theorem findRev?_eq_none {p : α → Bool} {l : List α} : l.findRev? p = none ↔ ∀ a ∈ l, ¬ p a := by
  simp [List.findRev?_eq_find?_reverse, List.find?_eq_none]

theorem findRev?_map {β : Type*} (f : α → β) (p : β → Bool) (l : List α) :
    (l.map f).findRev? p = (l.findRev? fun a => p (f a)).map f := by
  rw [List.findRev?_eq_find?_reverse, List.findRev?_eq_find?_reverse, ← List.map_reverse,
    List.find?_map]
  rfl

/-- Where at most one member of a list passes a test, its place does not matter. -/
theorem findRev?_eq_of_perm {p : α → Bool} {l m : List α} (hlm : l.Perm m)
    (huniq : ∀ a ∈ l, ∀ b ∈ l, p a → p b → a = b) : l.findRev? p = m.findRev? p := by
  cases hl : l.findRev? p with
  | none =>
    rw [findRev?_eq_none] at hl
    exact (findRev?_eq_none.mpr fun a ha => hl a (hlm.mem_iff.mpr ha)).symm
  | some a =>
    obtain ⟨ha, hpa⟩ := mem_of_findRev? hl
    cases hm : m.findRev? p with
    | none => exact absurd hpa (findRev?_eq_none.mp hm a (hlm.mem_iff.mp ha))
    | some b =>
      obtain ⟨hb, hpb⟩ := mem_of_findRev? hm
      rw [huniq a ha b (hlm.mem_iff.mpr hb) hpa hpb]

variable [DecidableEq α]

theorem find?_eq_ite_mem (l : List α) (a : α) :
    (l.find? fun x => x = a) = if a ∈ l then some a else none := by
  split
  · rename_i ha
    cases hf : l.find? fun x => x = a with
    | none =>
      have hne : ¬ a = a := by simpa only [decide_eq_true_eq] using List.find?_eq_none.mp hf a ha
      exact absurd rfl hne
    | some x =>
      have hx : x = a := by simpa using List.find?_some hf
      rw [hx]
  · rename_i ha
    refine List.find?_eq_none.mpr fun x hx he => ha ?_
    rwa [← of_decide_eq_true he]

/-- The first `a` in the list stands in front of the first `b`. An element that is
not in the list stands behind all that are. -/
def Before (l : List α) (a b : α) : Prop := l.idxOf a < l.idxOf b

instance (l : List α) (a b : α) : Decidable (Before l a b) :=
  inferInstanceAs (Decidable (l.idxOf a < l.idxOf b))

theorem Before.irrefl {l : List α} {a : α} : ¬ Before l a a := Nat.lt_irrefl _

theorem Before.trans {l : List α} {a b c : α} (hab : Before l a b) (hbc : Before l b c) :
    Before l a c := Nat.lt_trans hab hbc

theorem Before.asymm {l : List α} {a b : α} (h : Before l a b) : ¬ Before l b a :=
  Nat.lt_asymm h

theorem Before.mem {l : List α} {a b : α} (h : Before l a b) : a ∈ l :=
  List.idxOf_lt_length_iff.mp (Nat.lt_of_lt_of_le h List.idxOf_le_length)

theorem before_total {l : List α} {a b : α} (ha : a ∈ l) (hne : a ≠ b) :
    Before l a b ∨ Before l b a := by
  rcases Nat.lt_trichotomy (l.idxOf a) (l.idxOf b) with h | h | h
  · exact .inl h
  · exact absurd ((List.idxOf_inj ha).mp h) hne
  · exact .inr h

theorem before_cons {x : α} {l : List α} {a b : α} :
    Before (x :: l) a b ↔ b ≠ x ∧ (a = x ∨ Before l a b) := by
  unfold Before
  by_cases hb : x = b
  · subst hb; simp
  · rw [List.idxOf_cons_ne l hb]
    by_cases ha : x = a
    · subst ha; simp [Ne.symm hb]
    · rw [List.idxOf_cons_ne l ha]
      simp [Ne.symm hb, Ne.symm ha]

/-- What comes behind `b` is of no account. -/
theorem before_append {l r : List α} {a b : α} (hb : b ∈ l) :
    Before (l ++ r) a b ↔ Before l a b := by
  unfold Before
  rw [List.idxOf_append_of_mem hb]
  by_cases ha : a ∈ l
  · rw [List.idxOf_append_of_mem ha]
  · have h := List.idxOf_lt_length_of_mem hb
    rw [List.idxOf_append_of_notMem ha, List.idxOf_of_notMem ha]
    omega

theorem before_append_of_notMem {l r : List α} {a b : α} (ha : a ∈ l) (hb : b ∉ l) :
    Before (l ++ r) a b := by
  unfold Before
  have h := List.idxOf_lt_length_of_mem ha
  rw [List.idxOf_append_of_mem ha, List.idxOf_append_of_notMem hb]
  omega

theorem before_filter {p : α → Bool} {l : List α} {a b : α} (ha : p a) (hb : p b) :
    Before (l.filter p) a b ↔ Before l a b := by
  induction l with
  | nil => simp [Before]
  | cons x l ih =>
    by_cases hx : p x
    · rw [List.filter_cons_of_pos hx, before_cons, before_cons, ih]
    · have hax : a ≠ x := by rintro rfl; exact hx ha
      have hbx : b ≠ x := by rintro rfl; exact hx hb
      rw [List.filter_cons_of_neg hx, before_cons, ih]
      simp [hax, hbx]

theorem Before.exists_getElem? {l : List α} {a b : α} {i : Nat} (h : Before l a b)
    (hi : l[i]? = some b) : ∃ j, j < i ∧ l[j]? = some a := by
  induction l generalizing i with
  | nil => simp at hi
  | cons x l ih =>
    obtain ⟨hbx, hab⟩ := before_cons.mp h
    cases i with
    | zero => simp [Ne.symm hbx] at hi
    | succ i =>
      rcases hab with rfl | hab
      · exact ⟨0, Nat.zero_lt_succ i, rfl⟩
      · obtain ⟨j, hj, hja⟩ := ih hab (by simpa using hi)
        exact ⟨j + 1, Nat.succ_lt_succ hj, by simpa using hja⟩

/-! ## Lists without repeats -/

theorem pairwise_before {l : List α} (h : l.Nodup) : l.Pairwise (Before l) := by
  induction l with
  | nil => exact List.Pairwise.nil
  | cons x l ih =>
    obtain ⟨hx, hl⟩ := List.nodup_cons.mp h
    have hne : ∀ b ∈ l, b ≠ x := by rintro b hb rfl; exact hx hb
    refine List.pairwise_cons.mpr ⟨fun b hb => before_cons.mpr ⟨hne b hb, .inl rfl⟩, ?_⟩
    refine (ih hl).imp_of_mem fun _ hb hab => before_cons.mpr ⟨hne _ hb, .inr hab⟩

theorem Before.of_pairwise {r : α → α → Prop} {l : List α} {a b : α} (h : l.Pairwise r)
    (hab : Before l a b) (hb : b ∈ l) : r a b := by
  induction l with
  | nil => simp at hb
  | cons x l ih =>
    obtain ⟨hx, hl⟩ := List.pairwise_cons.mp h
    obtain ⟨hbx, hab⟩ := before_cons.mp hab
    have hbl : b ∈ l := (List.mem_cons.mp hb).resolve_left hbx
    rcases hab with rfl | hab
    · exact hx b hbl
    · exact ih hl hab hbl

/-- What is in the list stands in it as the order says, and that is all there is to
know about a list without repeats. -/
theorem eq_of_before_iff {l m : List α} (hl : l.Nodup) (hm : m.Nodup)
    (hmem : ∀ a, a ∈ l ↔ a ∈ m)
    (h : ∀ a ∈ l, ∀ b ∈ l, (Before l a b ↔ Before m a b)) : l = m := by
  have hlp : l.Pairwise (Before m) :=
    (pairwise_before hl).imp_of_mem fun {a b} ha hb hab => (h a ha b hb).mp hab
  refine ((List.perm_ext_iff_of_nodup hl hm).mpr hmem).eq_of_pairwise ?_ hlp (pairwise_before hm)
  intro a b _ _ hab hba
  exact absurd hba hab.asymm

theorem nodup_eraseDups (l : List α) : l.eraseDups.Nodup := by
  match l with
  | [] => simp
  | x :: l =>
    rw [List.eraseDups_cons, List.nodup_cons]
    refine ⟨fun h => ?_, nodup_eraseDups _⟩
    simpa using List.mem_eraseDups.mp h
termination_by l.length
decreasing_by exact Nat.lt_succ_of_le (List.length_filter_le _ _)

theorem eraseDups_append_singleton (l : List α) (a : α) :
    (l ++ [a]).eraseDups = if a ∈ l then l.eraseDups else l.eraseDups ++ [a] := by
  rw [List.eraseDups_append, List.removeAll]
  by_cases ha : a ∈ l <;> simp [ha, List.eraseDups_cons]

theorem before_eraseDups (l : List α) (a b : α) : Before l.eraseDups a b ↔ Before l a b := by
  match l with
  | [] => rfl
  | x :: l =>
    rw [List.eraseDups_cons, before_cons, before_cons]
    by_cases hbx : b = x
    · simp [hbx]
    · by_cases hax : a = x
      · simp [hax]
      · rw [before_eraseDups (l.filter fun y => !y == x) a b, before_filter (by simpa) (by simpa)]
termination_by l.length
decreasing_by exact Nat.lt_succ_of_le (List.length_filter_le _ _)

/-! ## Repeats in a list of lists -/

variable {β : Type*} [DecidableEq β]

/-- What was there before is not new when it comes again. -/
theorem eraseDups_append_flatMap_filter {f : α → List β} {x : α} {l : List β} (hx : f x ⊆ l)
    (xs : List α) :
    (l ++ (xs.filter fun y => !y == x).flatMap f).eraseDups = (l ++ xs.flatMap f).eraseDups := by
  induction xs generalizing l with
  | nil => rfl
  | cons y ys ih =>
    by_cases hy : y = x
    · subst hy
      have hold : (f y).filter (fun b => !l.elem b) = [] := by
        simpa [List.filter_eq_nil_iff] using fun b hb => hx hb
      rw [List.filter_cons_of_neg (by simp), ih hx, List.flatMap_cons, List.eraseDups_append,
        List.eraseDups_append, List.removeAll, List.removeAll, List.filter_append, hold,
        List.nil_append]
    · rw [List.filter_cons_of_pos (by simpa using hy), List.flatMap_cons, List.flatMap_cons,
        ← List.append_assoc, ← List.append_assoc]
      exact ih (List.subset_append_of_subset_left _ hx)

/-- A list that is given again brings nothing new. -/
theorem eraseDups_append_flatMap (f : α → List β) (l : List β) (xs : List α) :
    (l ++ xs.eraseDups.flatMap f).eraseDups = (l ++ xs.flatMap f).eraseDups := by
  match xs with
  | [] => rfl
  | x :: xs =>
    rw [List.eraseDups_cons, List.flatMap_cons, List.flatMap_cons, ← List.append_assoc,
      ← List.append_assoc, eraseDups_append_flatMap f (l ++ f x) (xs.filter fun y => !y == x),
      eraseDups_append_flatMap_filter (List.subset_append_right _ _)]
termination_by xs.length
decreasing_by exact Nat.lt_succ_of_le (List.length_filter_le _ _)

end RuleClasses
