import RuleClasses.Proofs.OrderOrCycle

/-! The release of names, one name after the other. Whenever a name is about to be
released, each count is the number of edges that still wait, and no count is zero when
one is taken off it. A name gets in line once at most, so the release ends after as
many steps as there are names, at the latest. -/

namespace RuleClasses.ClassOrder

variable {nodes : List String} {edges : List Edge} {s t : Release} {k : Nat}

/-- The states of the release, each with the number of steps that lead to it. -/
inductive Reached (nodes : List String) (edges : List Edge) : Nat → Release → Prop where
  | start : Reached nodes edges 0 (start nodes edges)
  | step {k : Nat} {s t : Release} : Reached nodes edges k s → step edges s = some t →
      Reached nodes edges (k + 1) t

/-- Classes are settled one after the other, and the count of none of them is zero when
its turn comes. -/
def CountsSuffice (s : Release) : List String → Prop
  | [] => True
  | n :: rest => 0 < count s.counts n ∧ CountsSuffice (settle s n) rest

/-- What holds whenever a name is about to be released. -/
structure BeforeRelease (nodes : List String) (edges : List Edge) (s : Release) : Prop where
  counts : s.counts = (names nodes edges).map fun n => (n, waiting edges s.order n)
  suffice : ∀ n rest, s.ready = n :: rest →
    CountsSuffice { s with ready := rest, order := s.order ++ [n] } (derived edges n)
  nodup : s.line.Nodup
  zero : ∀ n ∈ s.line, (n, 0) ∈ s.counts

/-! ## One step -/

/-- Settling one class leaves the counts of the others, so it is enough that all counts
are positive before. -/
theorem countsSuffice_of_pos {l : List String} (hl : l.Nodup)
    (hpos : ∀ n ∈ l, 0 < count s.counts n) : CountsSuffice s l := by
  induction l generalizing s with
  | nil => trivial
  | cons n rest ih =>
    obtain ⟨hn, hrest⟩ := List.nodup_cons.mp hl
    refine ⟨hpos n List.mem_cons_self, ih hrest fun m hm => ?_⟩
    have hne : m ≠ n := by rintro rfl; exact hn hm
    have hcounts : (settle s n).counts = oneLess n s.counts := rfl
    rw [hcounts, count_oneLess, if_neg hne]
    exact hpos m (List.mem_cons_of_mem n hm)

theorem Sound.counts_eq (h : Sound nodes edges s) :
    s.counts = (names nodes edges).map fun n => (n, waiting edges s.order n) := by
  have hkeys : (Keyed.keys s.counts).Nodup := h.keys ▸ nodup_names
  have hself : s.counts = (Keyed.keys s.counts).map fun n => (n, ClassOrder.count s.counts n) := by
    rw [Keyed.keys, List.map_map]
    refine (List.map_id s.counts).symm.trans (List.map_congr_left fun c hc => ?_)
    simp only [Function.comp_apply, count_of_mem hkeys hc, id_eq]
  rw [h.keys] at hself
  simpa only [h.count] using hself

theorem Sound.beforeRelease (hd : edges.Nodup) (h : Sound nodes edges s) :
    BeforeRelease nodes edges s := by
  refine ⟨h.counts_eq, fun n rest hready => ?_, h.nodup, fun n hn => ?_⟩
  · refine countsSuffice_of_pos (nodup_derived hd n) fun m hm => ?_
    have hn : n ∉ s.order := h.notMem_order (hready ▸ List.mem_cons_self)
    have hwait : waiting edges s.order m ≠ 0 := fun hzero =>
      hn (waiting_eq_zero.mp hzero n (mem_derived.mp hm))
    change 0 < ClassOrder.count s.counts m
    rw [h.count]
    exact Nat.pos_of_ne_zero hwait
  · obtain ⟨hmem, hzero⟩ := (h.mem_line n).mp hn
    rw [h.counts_eq]
    exact List.mem_map.mpr ⟨n, hmem, by rw [hzero]⟩

/-! ## All steps -/

theorem Reached.sound (hd : edges.Nodup) (h : Reached nodes edges k s) :
    Sound nodes edges s ∧ s.order.length = k := by
  induction h with
  | start => exact ⟨sound_start, rfl⟩
  | step _ hstep ih =>
    obtain ⟨n, hreleases⟩ := step_releases hd hstep
    refine ⟨ih.1.step hd hreleases, ?_⟩
    rw [hreleases.order, List.length_append, ih.2, List.length_singleton]

/-- Each step releases a name, and none is released twice. -/
theorem Reached.le_length (hd : edges.Nodup) (h : Reached nodes edges k s) :
    k ≤ (names nodes edges).length := by
  obtain ⟨hsound, rfl⟩ := h.sound hd
  have hnodup : s.order.Nodup := (List.nodup_append.mp hsound.nodup).1
  refine hnodup.length_le_of_subset fun n hn => ?_
  exact ((hsound.mem_line n).mp (List.mem_append_left _ hn)).1

/-- The release goes on from any of its states to the last one. -/
theorem Reached.run (h : Reached nodes edges k s) :
    ∃ l, Reached nodes edges l (ClassOrder.run edges s) ∧
      ClassOrder.step edges (ClassOrder.run edges s) = none := by
  fun_induction ClassOrder.run edges s generalizing k with
  | case1 s hnone => exact ⟨k, h, hnone⟩
  | case2 s t hstep ih => exact ih (h.step hstep)

/-- **What every step of the release keeps, and why the release ends.** Each count is the number
of edges of its name whose base was not released, so nothing is taken off a count of zero; the
names released and in line are names without such an edge, each of them once. -/
theorem release_keeps_and_ends (nodes : List String) (edges : List Edge) :
    (∀ k s, Reached nodes edges.eraseDups k s →
      BeforeRelease nodes edges.eraseDups s ∧ s.order.length = k ∧
        k ≤ (names nodes edges.eraseDups).length) ∧
    ∃ k ≤ (names nodes edges.eraseDups).length,
      Reached nodes edges.eraseDups k
        (run edges.eraseDups (start nodes edges.eraseDups)) ∧
      step edges.eraseDups (run edges.eraseDups (start nodes edges.eraseDups)) = none := by
  have hd : edges.eraseDups.Nodup := nodup_eraseDups edges
  constructor
  · intro k s h
    obtain ⟨hsound, hlength⟩ := h.sound hd
    exact ⟨hsound.beforeRelease hd, hlength, h.le_length hd⟩
  · have hstart : Reached nodes edges.eraseDups 0 (start nodes edges.eraseDups) := .start
    obtain ⟨k, hreached, hnone⟩ := hstart.run
    exact ⟨k, hreached.le_length hd, hreached, hnone⟩

end RuleClasses.ClassOrder
