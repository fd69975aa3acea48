import RuleClasses.ClassOrder
import RuleClasses.Proofs.Places

/-! What the release of names keeps. Each count tells how many edges of its name lead
to a base that was not released, and the names released or in line, each of them
once, are those with nothing left to wait for. One step puts all names in line for
which the released name was the last base. -/

namespace RuleClasses.ClassOrder

variable {nodes : List String} {edges : List Edge}

theorem mem_names {n : String} :
    n ∈ names nodes edges ↔ n ∈ nodes ∨ ∃ e ∈ edges, n = e.base ∨ n = e.name := by
  simp [names, List.mem_eraseDups]

theorem nodup_names : (names nodes edges).Nodup := nodup_eraseDups _

theorem mem_derived {n base : String} : n ∈ derived edges base ↔ ⟨n, base⟩ ∈ edges := by
  simp only [derived, List.mem_map, List.mem_filter, decide_eq_true_eq]
  constructor
  · rintro ⟨e, ⟨he, rfl⟩, rfl⟩; exact he
  · intro h; exact ⟨_, ⟨h, rfl⟩, rfl⟩

theorem nodup_derived (hd : edges.Nodup) (base : String) : (derived edges base).Nodup := by
  refine List.Nodup.map_on ?_ (hd.filter _)
  rintro ⟨n, b⟩ hb ⟨n', b'⟩ hb' (rfl : n = n')
  simp only [List.mem_filter, decide_eq_true_eq] at hb hb'
  rw [hb.2, hb'.2]

/-! ## Counts -/

@[simp] theorem keys_oneLess (n : String) (counts : List (String × Nat)) :
    Keyed.keys (oneLess n counts) = Keyed.keys counts := by
  simp only [oneLess, Keyed.keys, List.map_map]
  refine List.map_congr_left fun c _ => ?_
  simp only [Function.comp_apply]
  split <;> rfl

theorem count_cons (c : String × Nat) (counts : List (String × Nat)) (m : String) :
    count (c :: counts) m = if c.1 = m then c.2 else count counts m := by
  by_cases h : c.1 = m <;> simp [count, Keyed.get?, h]

theorem count_oneLess (n m : String) (counts : List (String × Nat)) :
    count (oneLess n counts) m =
      if m = n then count counts m - 1 else count counts m := by
  induction counts with
  | nil => simp [oneLess, count, Keyed.get?]
  | cons c rest ih =>
    have hcons : oneLess n (c :: rest) =
        (if c.1 = n then (c.1, c.2 - 1) else c) :: oneLess n rest := rfl
    rw [hcons, count_cons, count_cons, ih]
    by_cases hc : c.1 = n
    · by_cases hm : m = n
      · simp [hc, hm]
      · simp [hc, hm, Ne.symm hm]
    · by_cases hm : m = n
      · simp [hc, hm]
      · simp [hc, hm]

theorem count_map (f : String → Nat) (l : List String) (m : String) :
    count (l.map fun n => (n, f n)) m = if m ∈ l then f m else 0 := by
  induction l with
  | nil => simp [count, Keyed.get?]
  | cons n rest ih =>
    rw [List.map_cons, count_cons, ih]
    by_cases h : n = m
    · simp [h]
    · simp [h, Ne.symm h]

/-! ## One release -/

theorem order_foldl_settle (l : List String) (s : Release) :
    (l.foldl settle s).order = s.order := by
  induction l generalizing s with
  | nil => rfl
  | cons n rest ih => exact ih (settle s n)

theorem keys_foldl_settle (l : List String) (s : Release) :
    Keyed.keys (l.foldl settle s).counts = Keyed.keys s.counts := by
  induction l generalizing s with
  | nil => rfl
  | cons n rest ih => exact (ih (settle s n)).trans (keys_oneLess n s.counts)

theorem count_foldl_settle {l : List String} (hl : l.Nodup) (s : Release) (m : String) :
    count (l.foldl settle s).counts m =
      if m ∈ l then count s.counts m - 1 else count s.counts m := by
  induction l generalizing s with
  | nil => rfl
  | cons n rest ih =>
    obtain ⟨hn, hrest⟩ := List.nodup_cons.mp hl
    have hsettle : (settle s n).counts = oneLess n s.counts := rfl
    rw [List.foldl_cons, ih hrest, hsettle, count_oneLess]
    by_cases hm : m = n
    · subst hm; simp [hn]
    · simp [hm]

/-- Those with one edge left get in line, in the order in which they are settled. -/
theorem ready_foldl_settle {l : List String} (hl : l.Nodup) (s : Release) :
    (l.foldl settle s).ready = s.ready ++ l.filter fun m => count s.counts m = 1 := by
  induction l generalizing s with
  | nil => simp
  | cons n rest ih =>
    obtain ⟨hn, hrest⟩ := List.nodup_cons.mp hl
    have hsame : rest.filter (fun m => count (settle s n).counts m = 1) =
        rest.filter fun m => count s.counts m = 1 := by
      refine List.filter_congr fun m hm => ?_
      have hne : m ≠ n := by rintro rfl; exact hn hm
      have hcount : count (settle s n).counts m = count s.counts m := by
        rw [show (settle s n).counts = oneLess n s.counts from rfl, count_oneLess, if_neg hne]
      rw [hcount]
    rw [List.foldl_cons, ih hrest, hsame]
    by_cases hc : count s.counts n = 1 <;> simp [settle, hc]

/-- The step that releases `n`. -/
structure Releases (edges : List Edge) (n : String) (s t : Release) : Prop where
  ready : ∃ rest, s.ready = n :: rest ∧
    t.ready = rest ++ (derived edges n).filter fun m => count s.counts m = 1
  order : t.order = s.order ++ [n]
  keys : Keyed.keys t.counts = Keyed.keys s.counts
  count : ∀ m, count t.counts m =
    if ⟨m, n⟩ ∈ edges then count s.counts m - 1 else count s.counts m

theorem step_releases (hd : edges.Nodup) {s t : Release} (h : step edges s = some t) :
    ∃ n, Releases edges n s t := by
  unfold step at h
  split at h
  · cases h
  · rename_i n rest hr
    cases h
    refine ⟨n, ⟨⟨rest, hr, ready_foldl_settle (nodup_derived hd n) _⟩,
      order_foldl_settle _ _, keys_foldl_settle _ _, fun m => ?_⟩⟩
    rw [count_foldl_settle (nodup_derived hd n)]
    simp only [mem_derived]

theorem step_eq_none {s : Release} : step edges s = none ↔ s.ready = [] := by
  unfold step
  split <;> simp_all

/-- The names released so far, and then those in line. -/
def Release.line (s : Release) : List String := s.order ++ s.ready

/-- Nobody leaves the line, and who comes joins at its end. -/
theorem Releases.line {n : String} {s t : Release} (h : Releases edges n s t) :
    t.line = s.line ++ (derived edges n).filter fun m => ClassOrder.count s.counts m = 1 := by
  obtain ⟨rest, hs, ht⟩ := h.ready
  simp [Release.line, h.order, hs, ht]

theorem Releases.mem_ready {n : String} {s t : Release} (h : Releases edges n s t) :
    n ∈ s.ready := by
  obtain ⟨rest, hs, -⟩ := h.ready
  simp [hs]

/-! ## What all steps keep -/

/-- The edges of a name that lead to a base which is not in the list. -/
def waiting (edges : List Edge) (released : List String) (n : String) : Nat :=
  edges.countP fun e => e.name = n ∧ e.base ∉ released

theorem waiting_eq_zero {released : List String} {n : String} :
    waiting edges released n = 0 ↔ ∀ base, ⟨n, base⟩ ∈ edges → base ∈ released := by
  simp only [waiting, List.countP_eq_zero, decide_eq_true_eq, not_and, not_not]
  constructor
  · intro h base he; exact h _ he rfl
  · rintro h ⟨m, base⟩ he (rfl : m = n); exact h base he

/-- Of all edges of `m`, a release of `n` takes away the one between the two. -/
theorem waiting_append {released : List String} {n : String} (hn : n ∉ released) (m : String) :
    waiting edges released m = waiting edges (released ++ [n]) m + edges.count ⟨m, n⟩ := by
  unfold waiting
  induction edges with
  | nil => rfl
  | cons e rest ih =>
    obtain ⟨name, base⟩ := e
    rw [List.countP_cons, List.countP_cons, List.count_cons, ih]
    by_cases hname : name = m
    · by_cases hbase : base = n
      · subst hname hbase; simp [hn]; omega
      · simp [hname, hbase]; omega
    · simp [hname]

structure Sound (nodes : List String) (edges : List Edge) (s : Release) : Prop where
  keys : Keyed.keys s.counts = names nodes edges
  count : ∀ n, count s.counts n = waiting edges s.order n
  mem_line : ∀ n, n ∈ s.line ↔ n ∈ names nodes edges ∧ waiting edges s.order n = 0
  nodup : s.line.Nodup
  base_before : ∀ e ∈ edges, e.name ∈ s.order → Before s.order e.base e.name

theorem sound_start : Sound nodes edges (start nodes edges) := by
  have hcount : ∀ n, ClassOrder.count (start nodes edges).counts n = waiting edges [] n := by
    intro n
    rw [start, count_map (fun n => edges.countP fun e => e.name = n)]
    split
    · simp [waiting]
    · rename_i hn
      refine (waiting_eq_zero.mpr fun base he => ?_).symm
      exact absurd (mem_names.mpr (.inr ⟨_, he, .inr rfl⟩)) hn
  have hline : (start nodes edges).line =
      (names nodes edges).filter fun n => waiting edges [] n = 0 := by
    simp [Release.line, start, waiting, List.filter_map, Function.comp_def]
  refine ⟨?_, hcount, ?_, ?_, ?_⟩
  · simp [start, Keyed.keys, Function.comp_def]
  · intro n
    rw [hline, List.mem_filter]
    exact and_congr_right fun _ => by simp [start]
  · rw [hline]
    exact nodup_names.filter _
  · intro e _ he
    cases he

theorem Sound.notMem_order {s : Release} (h : Sound nodes edges s) {n : String}
    (hn : n ∈ s.ready) : n ∉ s.order := by
  intro ho
  exact (List.nodup_append.mp h.nodup).2.2 n ho n hn rfl

/-- Who is in line waits for nothing any more. -/
theorem Sound.base_mem_order {s : Release} (h : Sound nodes edges s) {n base : String}
    (hn : n ∈ s.line) (he : ⟨n, base⟩ ∈ edges) : base ∈ s.order :=
  waiting_eq_zero.mp ((h.mem_line n).mp hn).2 base he

theorem Sound.step (hd : edges.Nodup) {n : String} {s t : Release} (h : Sound nodes edges s)
    (hst : Releases edges n s t) : Sound nodes edges t := by
  have hwait : ∀ m, waiting edges s.order m =
      waiting edges t.order m + if ⟨m, n⟩ ∈ edges then 1 else 0 := by
    intro m
    rw [hst.order, waiting_append (h.notMem_order hst.mem_ready), List.Nodup.count hd]
  refine ⟨hst.keys.trans h.keys, fun m => ?_, fun m => ?_, ?_, ?_⟩
  · rw [hst.count, h.count, hwait m]
    split <;> omega
  · rw [hst.line, List.mem_append, h.mem_line, List.mem_filter, mem_derived, h.count, hwait m]
    simp only [decide_eq_true_eq]
    by_cases he : ⟨m, n⟩ ∈ edges
    · have hm : m ∈ names nodes edges := mem_names.mpr (.inr ⟨_, he, .inr rfl⟩)
      simp [he, hm]
    · simp [he]
  · rw [hst.line, List.nodup_append]
    refine ⟨h.nodup, (nodup_derived hd n).filter _, ?_⟩
    -- who is in line already waits for nothing, and who joins waits for one name
    rintro m hm _ hj rfl
    have hzero := ((h.mem_line m).mp hm).2
    simp only [List.mem_filter, decide_eq_true_eq, h.count] at hj
    omega
  · rintro ⟨name, base⟩ he hname
    rw [hst.order] at hname ⊢
    by_cases ho : name ∈ s.order
    · exact (before_append ho).mpr (h.base_before _ he ho)
    · obtain rfl : name = n := by simpa [ho] using hname
      have hline : name ∈ s.line := List.mem_append_right _ hst.mem_ready
      exact before_append_of_notMem (h.base_mem_order hline he) ho

/-- What one release keeps holds when no name is in line any more. -/
theorem run_induction {P : Release → Prop} (hd : edges.Nodup) {s : Release} (hs : P s)
    (hstep : ∀ n s t, P s → Releases edges n s t → P t) :
    P (run edges s) ∧ (run edges s).ready = [] := by
  fun_induction run edges s with
  | case1 s h => exact ⟨hs, step_eq_none.mp h⟩
  | case2 s t h ih =>
    obtain ⟨n, hr⟩ := step_releases hd h
    exact ih (hstep n s t hs hr)

theorem run_sound (hd : edges.Nodup) :
    Sound nodes edges (run edges (start nodes edges)) ∧
      (run edges (start nodes edges)).ready = [] :=
  run_induction hd sound_start fun _ _ _ hs hr => hs.step hd hr

end RuleClasses.ClassOrder
