import RuleClasses.Proofs.OrderOrCycle
import Mathlib.Data.Finset.Max
import Mathlib.Data.Finset.Dedup

/-! Who stands in front of whom in the line. Names without a base are in it from the
start, as they are first mentioned. All others join when the last of their bases is
released, so the place of that base decides, and among the names that one base lets in
the place of the edge. Nothing that happens later changes this. -/

namespace RuleClasses

/-- The names as they are given: the nodes, and then the base and the class of each
edge. -/
def mentions (nodes : List String) (edges : List Edge) : List String :=
  nodes ++ edges.flatMap fun e => [e.base, e.name]

/-- The base of a name that stands latest in an order. -/
structure IsLatest (edges : List Edge) (order : List String) (name base : String) : Prop where
  up : Extends edges name base
  latest : ∀ b, Extends edges name b → ¬ Before order base b

/-- Why `x` gets in line in front of `y`. -/
inductive JoinsBefore (nodes : List String) (edges : List Edge) (order : List String)
    (x y : String) : Prop
  /-- Both wait for nothing. -/
  | seen (hx : ∀ b, ¬ Extends edges x b) (hy : ∀ b, ¬ Extends edges y b)
      (h : Before (mentions nodes edges) x y)
  /-- Only `y` has to wait. -/
  | root (hx : ∀ b, ¬ Extends edges x b) (hy : ∃ c, Extends edges y c)
  /-- The last base of `x` comes first. -/
  | base {b c : String} (hb : IsLatest edges order x b) (hc : IsLatest edges order y c)
      (h : Before order b c)
  /-- Both wait for the same base. -/
  | edge {b : String} (hx : IsLatest edges order x b) (hy : IsLatest edges order y b)
      (h : Before edges ⟨x, b⟩ ⟨y, b⟩)

section
variable {nodes : List String} {edges : List Edge} {order : List String} {x y : String}

theorem exists_isLatest (order : List String) {b : String} (h : Extends edges x b) :
    ∃ base, IsLatest edges order x base := by
  have hb : b ∈ (basesOf edges x).toFinset := List.mem_toFinset.mpr (mem_basesOf.mpr h)
  obtain ⟨base, hbase, hmax⟩ := Finset.exists_max_image _ order.idxOf ⟨b, hb⟩
  refine ⟨base, mem_basesOf.mp (List.mem_toFinset.mp hbase), fun c hc => ?_⟩
  exact Nat.not_lt.mpr (hmax c (List.mem_toFinset.mpr (mem_basesOf.mpr hc)))

theorem IsLatest.unique {b c : String} (hb : IsLatest edges order x b)
    (hc : IsLatest edges order x c) (hmem : b ∈ order) : b = c := by
  by_contra hne
  rcases before_total hmem hne with h | h
  · exact hb.latest c hc.up h
  · exact hc.latest b hb.up h

/-- The latest base stays the latest when more names are released. -/
theorem IsLatest.append {b : String} (h : IsLatest edges order x b)
    (hall : ∀ c, Extends edges x c → c ∈ order) (r : List String) :
    IsLatest edges (order ++ r) x b := by
  refine ⟨h.up, fun c hc => ?_⟩
  rw [before_append (hall c hc)]
  exact h.latest c hc

theorem JoinsBefore.append (h : JoinsBefore nodes edges order x y)
    (hx : ∀ b, Extends edges x b → b ∈ order) (hy : ∀ b, Extends edges y b → b ∈ order)
    (r : List String) : JoinsBefore nodes edges (order ++ r) x y := by
  cases h with
  | seen hxn hyn h => exact .seen hxn hyn h
  | root hxn hyb => exact .root hxn hyb
  | base hb hc h =>
    exact .base (hb.append hx r) (hc.append hy r) ((before_append (hy _ hc.up)).mpr h)
  | edge hxb hyb h => exact .edge (hxb.append hx r) (hyb.append hy r) h

end

/-! ## The line while names are released -/

namespace ClassOrder

variable {nodes : List String} {edges : List Edge} {s t : Release}

/-- Everybody in line joined before those behind. -/
def Lined (nodes : List String) (edges : List Edge) (s : Release) : Prop :=
  s.line.Pairwise (JoinsBefore nodes edges s.order)

theorem lined_start : Lined nodes edges (start nodes edges) := by
  have hline : (start nodes edges).line =
      (names nodes edges).filter fun n => edges.countP (fun e => e.name = n) = 0 := by
    simp [Release.line, start, List.filter_map, Function.comp_def]
  rw [Lined, hline]
  refine ((pairwise_before nodup_names).filter _).imp_of_mem fun {x y} hx hy h => ?_
  have hroot : ∀ n, edges.countP (fun e => e.name = n) = 0 → ∀ b, ¬ Extends edges n b := by
    intro n hn b he
    simp only [List.countP_eq_zero, decide_eq_true_eq] at hn
    exact hn _ he rfl
  simp only [List.mem_filter, decide_eq_true_eq] at hx hy
  exact .seen (hroot x hx.2) (hroot y hy.2) ((before_eraseDups _ x y).mp h)

/-- The released name is the latest base of all that join with its release. -/
theorem isLatest_of_joins {n y : String} (h : Sound nodes edges s) (ht : Sound nodes edges t)
    (hst : Releases edges n s t) (he : Extends edges y n) (hy : y ∈ t.line) :
    IsLatest edges t.order y n := by
  refine ⟨he, fun c hc hbefore => ?_⟩
  have hc : c ∈ t.order := ht.base_mem_order hy hc
  have hn : n ∉ s.order := h.notMem_order hst.mem_ready
  rw [hst.order] at hc hbefore
  rcases List.mem_append.mp hc with hc | hc
  · exact hbefore.asymm (before_append_of_notMem hc hn)
  · rw [List.mem_singleton.mp hc] at hbefore
    exact hbefore.irrefl

theorem pairwise_derived (hd : edges.Nodup) (n : String) :
    (derived edges n).Pairwise fun x y => Before edges ⟨x, n⟩ ⟨y, n⟩ := by
  refine List.pairwise_map.mpr (((pairwise_before hd).filter _).imp_of_mem fun {e f} he hf h => ?_)
  obtain ⟨name, base⟩ := e
  obtain ⟨name', base'⟩ := f
  simp only [List.mem_filter, decide_eq_true_eq] at he hf
  rwa [he.2, hf.2] at h

theorem Lined.step (hd : edges.Nodup) {n : String} (hl : Lined nodes edges s)
    (h : Sound nodes edges s) (hst : Releases edges n s t) : Lined nodes edges t := by
  have ht : Sound nodes edges t := h.step hd hst
  -- those who join have the released name for their latest base
  have hjoin : ∀ y ∈ (derived edges n).filter fun m => count s.counts m = 1,
      IsLatest edges t.order y n := by
    intro y hy
    have hline : y ∈ t.line := by rw [hst.line]; exact List.mem_append_right _ hy
    exact isLatest_of_joins h ht hst (mem_derived.mp (List.mem_filter.mp hy).1) hline
  rw [Lined, hst.line, List.pairwise_append]
  refine ⟨?_, ?_, ?_⟩
  · rw [hst.order]
    refine List.Pairwise.imp_of_mem (fun {x y} hx hy hxy => ?_) hl
    exact hxy.append (fun _ => h.base_mem_order hx) (fun _ => h.base_mem_order hy) [n]
  · refine ((pairwise_derived hd n).filter _).imp_of_mem fun {x y} hx hy hxy => ?_
    exact .edge (hjoin x hx) (hjoin y hy) hxy
  · intro x hx y hy
    by_cases hbase : ∃ b, Extends edges x b
    · obtain ⟨b, hb⟩ := hbase
      obtain ⟨b, hb⟩ := exists_isLatest s.order hb
      have hlatest := hb.append (fun _ => h.base_mem_order hx) [n]
      have hbefore : Before (s.order ++ [n]) b n :=
        before_append_of_notMem (h.base_mem_order hx hb.up) (h.notMem_order hst.mem_ready)
      rw [← hst.order] at hlatest hbefore
      exact .base hlatest (hjoin y hy) hbefore
    · push Not at hbase
      exact .root hbase ⟨n, (hjoin y hy).up⟩

theorem lined_run (nodes : List String) (hd : edges.Nodup) :
    Lined nodes edges (run edges (start nodes edges)) := by
  have h : (Sound nodes edges _ ∧ Lined nodes edges _) ∧ _ :=
    run_induction (P := fun s => Sound nodes edges s ∧ Lined nodes edges s) hd
      ⟨sound_start, lined_start⟩ fun n s t hs hst => ⟨hs.1.step hd hst, hs.2.step hd hs.1 hst⟩
  exact h.1.2

end ClassOrder

/-! ## The order as it comes out -/

open ClassOrder

variable {nodes : List String} {edges : List Edge}

/-- An edge that is given again changes nothing. -/
theorem JoinsBefore.of_eraseDups {order : List String} {x y : String}
    (h : JoinsBefore nodes edges.eraseDups order x y) : JoinsBefore nodes edges order x y := by
  have hlatest : ∀ {n b}, IsLatest edges.eraseDups order n b → IsLatest edges order n b := by
    intro n b hb
    obtain ⟨hup, hlast⟩ := hb
    rw [extends_eraseDups] at hup hlast
    exact ⟨hup, hlast⟩
  cases h with
  | seen hx hy h =>
    rw [extends_eraseDups] at hx hy
    rw [← before_eraseDups, mentions, eraseDups_append_flatMap, before_eraseDups] at h
    exact .seen hx hy h
  | root hx hy =>
    rw [extends_eraseDups] at hx hy
    exact .root hx hy
  | base hb hc h => exact .base (hlatest hb) (hlatest hc) h
  | edge hx hy h => exact .edge (hlatest hx) (hlatest hy) ((before_eraseDups _ _ _).mp h)

theorem pairwise_joinsBefore {order : List String} (h : classOrder nodes edges = .ok order) :
    order.Pairwise (JoinsBefore nodes edges order) := by
  have hl := lined_run nodes (nodup_eraseDups edges)
  have hf := finished_run nodes (nodup_eraseDups edges)
  unfold classOrder at h
  simp only at h
  split at h
  · cases h
  · cases h
    rw [Lined, hf.line_eq] at hl
    exact hl.imp JoinsBefore.of_eraseDups

end RuleClasses
