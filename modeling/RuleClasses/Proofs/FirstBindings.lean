import RuleClasses.Grammar.Expr
import Mathlib.Data.List.Nodup

/-! One binding for each name. Bindings are gone through once, from the front; one whose name was
met before is left out. So of each name the first binding stays, single or list as it is, and
bindings that are put behind others take nothing away from those in front. -/

namespace RuleClasses

namespace Binding

variable {l : List Binding} {n : String}

/-! ## In one pass -/

/-- One pass over bindings, which leaves out those with a name that was met before. -/
def uniqueAfter (met : List String) : List Binding → List Binding
  | [] => []
  | d :: rest =>
    if d.name ∈ met then uniqueAfter met rest else d :: uniqueAfter (d.name :: met) rest

theorem uniqueAfter_eq (met : List String) (l : List Binding) :
    uniqueAfter met l = (unique l).filter fun e => e.name ∉ met := by
  induction l generalizing met with
  | nil => rfl
  | cons d rest ih =>
    rw [uniqueAfter, unique]
    split
    · rename_i hmet
      have hrest : ∀ e ∈ unique rest, (decide (e.name ∉ met)) =
          (decide (e.name ∉ met) && decide (e.name ≠ d.name)) := by
        intro e _
        by_cases he : e.name = d.name <;> simp [he, hmet]
      rw [List.filter_cons_of_neg (by simpa using hmet), List.filter_filter, ih]
      exact List.filter_congr hrest
    · rename_i hnew
      rw [List.filter_cons_of_pos (by simpa using hnew), List.filter_filter, ih]
      simp [not_or, Bool.and_comm]

theorem unique_eq_uniqueAfter (l : List Binding) : unique l = uniqueAfter [] l := by
  simp [uniqueAfter_eq]

theorem uniqueAfter_congr {met met' : List String} (h : ∀ m, m ∈ met ↔ m ∈ met')
    (l : List Binding) : uniqueAfter met l = uniqueAfter met' l := by
  simp only [uniqueAfter_eq, h]

/-- Names that are met in front count as met behind. -/
theorem uniqueAfter_append (met : List String) (a b : List Binding) :
    uniqueAfter met (a ++ b) = uniqueAfter met a ++ uniqueAfter (a.map name ++ met) b := by
  induction a generalizing met with
  | nil => rfl
  | cons d rest ih =>
    rw [List.cons_append, uniqueAfter, uniqueAfter]
    split
    · rename_i hmet
      have hsame : ∀ m, m ∈ rest.map name ++ met ↔ m ∈ (d :: rest).map name ++ met := by
        intro m
        by_cases hm : m = d.name <;> simp [hm, hmet]
      rw [ih, uniqueAfter_congr hsame]
    · have hsame : ∀ m, m ∈ rest.map name ++ d.name :: met ↔ m ∈ (d :: rest).map name ++ met := by
        simp [or_left_comm]
      rw [ih, uniqueAfter_congr hsame, List.cons_append]

theorem unique_append (a b : List Binding) :
    unique (a ++ b) = unique a ++ (unique b).filter fun e => e.name ∉ a.map name := by
  rw [unique_eq_uniqueAfter, uniqueAfter_append, ← unique_eq_uniqueAfter, List.append_nil,
    uniqueAfter_eq]

/-! ## What is kept -/

theorem unique_sublist (l : List Binding) : (unique l).Sublist l := by
  induction l with
  | nil => exact .slnil
  | cons d rest ih => exact (List.filter_sublist.trans ih).cons_cons d

theorem nodup_names_unique (l : List Binding) : ((unique l).map name).Nodup := by
  induction l with
  | nil => exact List.nodup_nil
  | cons d rest ih =>
    rw [unique, List.map_cons, List.nodup_cons]
    refine ⟨fun hmem => ?_, ih.sublist (List.filter_sublist.map name)⟩
    obtain ⟨e, he, hname⟩ := List.mem_map.mp hmem
    exact absurd hname (by simpa using (List.mem_filter.mp he).2)

/-- The first binding of each name stays the first. -/
theorem find?_unique (n : String) (l : List Binding) :
    (unique l).find? (fun d => d.name = n) = l.find? fun d => d.name = n := by
  induction l with
  | nil => rfl
  | cons d rest ih =>
    rw [unique, List.find?_cons, List.find?_cons]
    by_cases hd : d.name = n
    · simp [hd]
    · have hother : ((unique rest).filter fun e => e.name ≠ d.name).find? (fun e => e.name = n) =
          (unique rest).find? fun e => e.name = n := by
        rw [List.find?_filter]
        refine congrArg (List.find? · (unique rest)) (funext fun e => ?_)
        by_cases he : e.name = n <;> simp [he, Ne.symm hd]
      rw [decide_eq_false hd, hother, ih]

theorem mem_names_unique : n ∈ (unique l).map name ↔ n ∈ l.map name := by
  have hfound (m : List Binding) : n ∈ m.map name ↔ (m.find? fun d => d.name = n).isSome := by
    simp [List.find?_isSome]
  rw [hfound, hfound, find?_unique]

/-- Bindings with names of their own are all kept. -/
theorem unique_of_nodup (h : (l.map name).Nodup) : unique l = l := by
  induction l with
  | nil => rfl
  | cons d rest ih =>
    rw [List.map_cons, List.nodup_cons] at h
    rw [unique, ih h.2, List.filter_eq_self.mpr]
    intro e he
    exact decide_eq_true fun hname => h.1 (hname ▸ List.mem_map_of_mem he)

/-- One pass keeps the first binding of each name and no other, in their order. Done once more it
changes nothing, and what stands in front decides by its names alone what is kept behind. -/
theorem unique_keeps_first (l : List Binding) :
    unique l = uniqueAfter [] l ∧ (unique l).Sublist l ∧ ((unique l).map name).Nodup ∧
    (∀ n, n ∈ (unique l).map name ↔ n ∈ l.map name) ∧
    (∀ n, (unique l).find? (fun d => d.name = n) = l.find? fun d => d.name = n) ∧
    unique (unique l) = unique l ∧
    ∀ behind, unique (l ++ behind) =
      unique l ++ (unique behind).filter fun e => e.name ∉ l.map name :=
  ⟨unique_eq_uniqueAfter l, unique_sublist l, nodup_names_unique l, fun _ => mem_names_unique,
    fun n => find?_unique n l, unique_of_nodup (nodup_names_unique l), unique_append l⟩

/-- A list binding behind a single one of its name is not kept, and the other way round. -/
example : unique [⟨"a", false⟩, ⟨"b", true⟩, ⟨"a", true⟩, ⟨"b", false⟩] =
    [⟨"a", false⟩, ⟨"b", true⟩] := by decide

end Binding

end RuleClasses
