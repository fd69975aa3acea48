import RuleClasses.Proofs.Hierarchy
import RuleClasses.Proofs.Release

/-! When there is a class order. The names that are never released are those that lead
to a cycle: each of them waits for another of them, and a released name has all that
is above it released before. So the order is complete when there is no cycle, and the
error names all that lead to one. -/

namespace RuleClasses

/-- An order of all names: each of them once, and bases in front of the names that
extend them. -/
structure Orders (nodes : List String) (edges : List Edge) (order : List String) : Prop where
  nodup : order.Nodup
  mem_iff : ∀ n, n ∈ order ↔ n ∈ nodes ∨ ∃ e ∈ edges, n = e.base ∨ n = e.name
  base_before : ∀ e ∈ edges, Before order e.base e.name

namespace ClassOrder

variable {nodes : List String} {edges : List Edge} {s : Release}

/-- The state after the last release. -/
structure Finished (nodes : List String) (edges : List Edge) (s : Release) : Prop
    extends Sound nodes edges s where
  ready : s.ready = []

theorem finished_run (nodes : List String) (hd : edges.Nodup) :
    Finished nodes edges (run edges (start nodes edges)) :=
  ⟨(run_sound hd).1, (run_sound hd).2⟩

namespace Finished

theorem line_eq (h : Finished nodes edges s) : s.line = s.order := by
  simp [Release.line, h.ready]

theorem nodup_order (h : Finished nodes edges s) : s.order.Nodup := h.line_eq ▸ h.nodup

theorem mem_order (h : Finished nodes edges s) (n : String) :
    n ∈ s.order ↔ n ∈ names nodes edges ∧ waiting edges s.order n = 0 := by
  rw [← h.mem_line, h.line_eq]

theorem not_leadsToCycle (h : Finished nodes edges s) {n : String} (hn : n ∈ s.order) :
    ¬ LeadsToCycle edges n := by
  refine not_leadsToCycle_of_rank s.order.idxOf (fun name hname base he => ?_) hn
  have hbefore : Before s.order base name := h.base_before _ he hname
  exact ⟨hbefore.mem, hbefore⟩

theorem leadsToCycle (h : Finished nodes edges s) {n : String} (hn : n ∈ names nodes edges)
    (hleft : n ∉ s.order) : LeadsToCycle edges n := by
  -- a name that was not released waits for a base that was not released either
  refine leadsToCycle_of_closed (l := (names nodes edges).filter (· ∉ s.order)) ?_
    (by simp [hn, hleft])
  intro name hname
  obtain ⟨hname, hout⟩ : name ∈ names nodes edges ∧ name ∉ s.order := by simpa using hname
  have hwait : waiting edges s.order name ≠ 0 := fun h0 => hout ((h.mem_order name).mpr ⟨hname, h0⟩)
  rw [Ne, waiting_eq_zero] at hwait
  push Not at hwait
  obtain ⟨base, he, hbase⟩ := hwait
  have hmem : base ∈ names nodes edges := mem_names.mpr (.inr ⟨_, he, .inl rfl⟩)
  exact ⟨base, by simp [hmem, hbase], he⟩

theorem mem_order_iff (h : Finished nodes edges s) (n : String) :
    n ∈ s.order ↔ n ∈ names nodes edges ∧ ¬ LeadsToCycle edges n := by
  constructor
  · intro hn; exact ⟨((h.mem_order n).mp hn).1, h.not_leadsToCycle hn⟩
  · rintro ⟨hn, hc⟩
    by_contra hout
    exact hc (h.leadsToCycle hn hout)

/-- Whether all names were released shows in how many they are. -/
theorem length_lt_iff (h : Finished nodes edges s) :
    s.order.length < s.counts.length ↔ ∃ n ∈ names nodes edges, n ∉ s.order := by
  have hlen : s.counts.length = (names nodes edges).length := by
    rw [← h.keys, Keyed.keys, List.length_map]
  rw [hlen]
  constructor
  · intro hlt
    by_contra hall
    push Not at hall
    have := nodup_names.length_le_of_subset hall
    omega
  · rintro ⟨n, hn, hout⟩
    have hsub : n :: s.order ⊆ names nodes edges := by
      intro m hm
      rcases List.mem_cons.mp hm with rfl | hm
      · exact hn
      · exact ((h.mem_order m).mp hm).1
    have := (List.nodup_cons.mpr ⟨hout, h.nodup_order⟩).length_le_of_subset hsub
    simp only [List.length_cons] at this
    omega

theorem orders (h : Finished nodes edges s) (hall : ∀ n ∈ names nodes edges, n ∈ s.order) :
    Orders nodes edges s.order := by
  refine ⟨h.nodup_order, fun n => ?_, fun e he => ?_⟩
  · rw [← mem_names]
    exact ⟨fun hn => ((h.mem_order n).mp hn).1, hall n⟩
  · exact h.base_before e he (hall _ (mem_names.mpr (.inr ⟨e, he, .inr rfl⟩)))

end Finished

theorem count_of_mem {counts : List (String × Nat)} (h : (Keyed.keys counts).Nodup)
    {c : String × Nat} (hc : c ∈ counts) : count counts c.1 = c.2 := by
  rw [count, Keyed.get?_of_mem h hc, Option.getD_some]

theorem Finished.mem_leftOver (h : Finished nodes edges s) (n : String) :
    n ∈ leftOver s ↔ n ∈ names nodes edges ∧ n ∉ s.order := by
  have hkeys : (Keyed.keys s.counts).Nodup := h.keys ▸ nodup_names
  have hleft : n ∈ leftOver s ↔ n ∈ Keyed.keys s.counts ∧ 0 < count s.counts n := by
    simp only [leftOver, Text.mem_sortNames, Keyed.keys, List.mem_map, List.mem_filter,
      decide_eq_true_eq]
    constructor
    · rintro ⟨c, ⟨hc, hpos⟩, rfl⟩
      exact ⟨⟨c, hc, rfl⟩, by rwa [count_of_mem hkeys hc]⟩
    · rintro ⟨⟨c, hc, rfl⟩, hpos⟩
      exact ⟨c, ⟨hc, by rwa [count_of_mem hkeys hc] at hpos⟩, rfl⟩
  rw [hleft, h.keys, h.mem_order, h.count, Nat.pos_iff_ne_zero]
  exact and_congr_right fun hn => by simp [hn]

end ClassOrder

/-! ## The order or the cycle -/

open ClassOrder

variable {nodes : List String} {edges : List Edge}

theorem leadsToCycle_eraseDups {n : String} :
    LeadsToCycle edges.eraseDups n ↔ LeadsToCycle edges n := by
  simp only [LeadsToCycle, OnCycle, extends_eraseDups]

theorem mem_names_eraseDups {n : String} :
    n ∈ names nodes edges.eraseDups ↔ n ∈ names nodes edges := by
  simp only [mem_names, List.mem_eraseDups]

/-- A name that leads to a cycle is the name of an edge. -/
theorem LeadsToCycle.mem_names {n : String} (h : LeadsToCycle edges n) :
    n ∈ names nodes edges := by
  obtain ⟨base, he⟩ := h.exists_base
  exact ClassOrder.mem_names.mpr (.inr ⟨_, he, .inr rfl⟩)

/-- Both outcomes at once: a complete order, or all names that lead to a cycle. -/
theorem classOrder_outcome (nodes : List String) (edges : List Edge) :
    (∃ order, classOrder nodes edges = .ok order ∧ Acyclic edges ∧ Orders nodes edges order) ∨
    ∃ left, classOrder nodes edges = .error left ∧ ¬ Acyclic edges ∧
      left.Pairwise (· < ·) ∧ ∀ n, n ∈ left ↔ LeadsToCycle edges n := by
  have h := finished_run nodes (nodup_eraseDups edges)
  set s := run edges.eraseDups (start nodes edges.eraseDups) with hs
  have hout : ∀ n, n ∈ names nodes edges.eraseDups ∧ n ∉ s.order ↔ LeadsToCycle edges n := by
    intro n
    rw [h.mem_order_iff, leadsToCycle_eraseDups, mem_names_eraseDups]
    constructor
    · rintro ⟨hn, hc⟩; simpa [hn] using hc
    · intro hc; exact ⟨hc.mem_names, fun hn => hn.2 hc⟩
  by_cases hlt : s.order.length < s.counts.length
  · right
    obtain ⟨n, hn⟩ := h.length_lt_iff.mp hlt
    refine ⟨leftOver s, by simp [classOrder, ← hs, hlt], ?_, Text.pairwise_sortNames _, ?_⟩
    · rw [acyclic_iff]
      exact fun hnone => hnone n ((hout n).mp hn)
    · intro n
      rw [h.mem_leftOver, hout]
  · left
    have hall : ∀ n ∈ names nodes edges.eraseDups, n ∈ s.order := by
      by_contra hex
      push Not at hex
      exact hlt (h.length_lt_iff.mpr hex)
    have ho := h.orders hall
    refine ⟨s.order, by simp [classOrder, ← hs, hlt], ?_, ho.nodup, ?_, ?_⟩
    · rw [acyclic_iff]
      intro n hc
      have hn := (hout n).mpr hc
      exact hn.2 (hall n hn.1)
    · simpa only [List.mem_eraseDups] using ho.mem_iff
    · simpa only [List.mem_eraseDups] using ho.base_before

theorem orders_of_classOrder {order : List String} (h : classOrder nodes edges = .ok order) :
    Orders nodes edges order := by
  rcases classOrder_outcome nodes edges with ⟨_, ho, _, hord⟩ | ⟨_, he, _⟩
  · rw [h] at ho; cases ho; exact hord
  · rw [h] at he; cases he

theorem acyclic_of_classOrder {order : List String} (h : classOrder nodes edges = .ok order) :
    Acyclic edges := by
  rcases classOrder_outcome nodes edges with ⟨_, _, ha, _⟩ | ⟨_, he, _⟩
  · exact ha
  · rw [h] at he; cases he

theorem exists_classOrder (h : Acyclic edges) (nodes : List String) :
    ∃ order, classOrder nodes edges = .ok order := by
  rcases classOrder_outcome nodes edges with ⟨order, ho, _⟩ | ⟨_, _, hc, _⟩
  · exact ⟨order, ho⟩
  · exact absurd h hc

theorem mem_of_classOrder_error {left : List String} (h : classOrder nodes edges = .error left) :
    left.Pairwise (· < ·) ∧ ∀ n, n ∈ left ↔ LeadsToCycle edges n := by
  rcases classOrder_outcome nodes edges with ⟨_, ho, _⟩ | ⟨_, he, _, hleft⟩
  · rw [h] at ho; cases ho
  · rw [h] at he; cases he; exact hleft

/-- **There is an order exactly when there is no cycle.** It holds all names once, with
every base in front of what extends it. Without an order, the error holds exactly the
names that lead to a cycle, sorted. -/
theorem order_or_cycle (nodes : List String) (edges : List Edge) :
    ((∃ order, classOrder nodes edges = .ok order) ↔ Acyclic edges) ∧
    match classOrder nodes edges with
    | .ok order => Orders nodes edges order
    | .error left => left.Pairwise (· < ·) ∧ ∀ n, n ∈ left ↔ LeadsToCycle edges n := by
  constructor
  · constructor
    · intro h
      obtain ⟨order, ho⟩ := h
      exact acyclic_of_classOrder ho
    · intro h
      exact exists_classOrder h nodes
  · cases h : classOrder nodes edges with
    | ok order => exact orders_of_classOrder h
    | error left => exact mem_of_classOrder_error h

/-- `C` is not on the cycle, but there is no place for it before `A` has one. -/
example : classOrder ["E"] [⟨"A", "B"⟩, ⟨"B", "A"⟩, ⟨"C", "A"⟩, ⟨"D", "E"⟩] =
    .error ["A", "B", "C"] := by cbv

end RuleClasses
