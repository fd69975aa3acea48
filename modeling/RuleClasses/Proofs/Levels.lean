import RuleClasses.Proofs.Line

/-! The order told without the line. Names without a base are at depth 0, and all others
one below the deepest of their bases. The order goes down level by level. Inside a level,
names stand as their latest bases do, and at depth 0 as they are first mentioned. There
is one order of that kind only. -/

namespace RuleClasses

variable {nodes : List String} {edges : List Edge} {order : List String} {x y : String}

/-- The length of the longest way up that takes at most `k` edges. -/
def climb (edges : List Edge) : Nat → String → Nat
  | 0, _ => 0
  | k + 1, name => ((basesOf edges name).map fun b => climb edges k b + 1).max?.getD 0

/-- The length of the longest way up. Without a cycle no way takes more edges than there
are names in the edges. -/
def depth (edges : List Edge) (name : String) : Nat :=
  climb edges (mentions [] edges).length name

/-- Which of two names comes first. -/
inductive Precedes (nodes : List String) (edges : List Edge) (order : List String)
    (x y : String) : Prop
  | level (h : depth edges x < depth edges y)
  | seen (hx : depth edges x = 0) (hy : depth edges y = 0)
      (h : Before (mentions nodes edges) x y)
  | base {b c : String} (he : depth edges x = depth edges y) (hpos : 0 < depth edges x)
      (hb : IsLatest edges order x b) (hc : IsLatest edges order y c) (h : Before order b c)
  | edge {b : String} (he : depth edges x = depth edges y) (hpos : 0 < depth edges x)
      (hx : IsLatest edges order x b) (hy : IsLatest edges order y b)
      (h : Before edges ⟨x, b⟩ ⟨y, b⟩)

/-- All names, each of them once, and any two of them as `Precedes` says. -/
structure ByLevels (nodes : List String) (edges : List Edge) (order : List String) : Prop where
  nodup : order.Nodup
  mem_iff : ∀ n, n ∈ order ↔ n ∈ mentions nodes edges
  before_iff : ∀ x ∈ order, ∀ y ∈ order,
    (Before order x y ↔ Precedes nodes edges order x y)

theorem Orders.mem_base (ho : Orders nodes edges order) {b : String} (h : Extends edges x b) :
    b ∈ order := (ho.mem_iff b).mpr (.inr ⟨_, h, .inl rfl⟩)

/-! ## Depth -/

/-- In front of a name there is no room for a longer way. -/
theorem climb_succ (ho : Orders nodes edges order) {k : Nat} {n : String}
    (hk : order.idxOf n ≤ k) : climb edges (k + 1) n = climb edges k n := by
  induction k generalizing n with
  | zero =>
    have hnone : basesOf edges n = [] := by
      refine List.eq_nil_iff_forall_not_mem.mpr fun b hb => ?_
      have hlt : Before order b n := ho.base_before _ (mem_basesOf.mp hb)
      unfold Before at hlt
      omega
    simp [climb, hnone]
  | succ k ih =>
    have hsame : (basesOf edges n).map (fun b => climb edges (k + 1) b + 1) =
        (basesOf edges n).map fun b => climb edges k b + 1 := by
      refine List.map_congr_left fun b hb => ?_
      have hlt : Before order b n := ho.base_before _ (mem_basesOf.mp hb)
      unfold Before at hlt
      rw [ih (by omega)]
    rw [climb, hsame]
    rfl

/-- One below the deepest base, if there is a base. -/
theorem depth_eq (h : Acyclic edges) (n : String) :
    depth edges n = ((basesOf edges n).map fun b => depth edges b + 1).max?.getD 0 := by
  obtain ⟨order, hord⟩ := exists_classOrder h []
  have ho := orders_of_classOrder hord
  have hsub : order ⊆ mentions [] edges := by
    intro m hm
    obtain hm | ⟨e, he, hm⟩ := (ho.mem_iff m).mp hm
    · cases hm
    · exact List.mem_flatMap.mpr ⟨e, he, by simpa using hm⟩
  have hidx : order.idxOf n ≤ (mentions [] edges).length :=
    Nat.le_trans List.idxOf_le_length (ho.nodup.length_le_of_subset hsub)
  exact (climb_succ ho hidx).symm

theorem depth_lt (h : Acyclic edges) {b : String} (he : Extends edges x b) :
    depth edges b < depth edges x := by
  rw [depth_eq h x]
  exact List.le_max?_getD_of_mem (List.mem_map.mpr ⟨b, mem_basesOf.mpr he, rfl⟩)

theorem exists_depth_eq (h : Acyclic edges) {b : String} (he : Extends edges x b) :
    ∃ c, Extends edges x c ∧ depth edges x = depth edges c + 1 := by
  cases hm : ((basesOf edges x).map fun b => depth edges b + 1).max? with
  | none =>
    simp only [List.max?_eq_none_iff, List.map_eq_nil_iff] at hm
    exact absurd (mem_basesOf.mpr he) (by simp [hm])
  | some m =>
    obtain ⟨c, hc, hd⟩ := List.mem_map.mp (List.max?_mem hm)
    exact ⟨c, mem_basesOf.mp hc, by rw [depth_eq h x, hm, hd, Option.getD_some]⟩

theorem depth_eq_zero (h : Acyclic edges) :
    depth edges x = 0 ↔ ∀ b, ¬ Extends edges x b := by
  constructor
  · intro h0 b he
    have := depth_lt h he
    omega
  · intro hnone
    have hnil : basesOf edges x = [] :=
      List.eq_nil_iff_forall_not_mem.mpr fun b hb => hnone b (mem_basesOf.mp hb)
    rw [depth_eq h x, hnil]
    rfl

/-! ## Levels of the line -/

/-- The latest base is the deepest, if those in front of it are not deeper. -/
theorem IsLatest.depth_eq (ha : Acyclic edges) (ho : Orders nodes edges order) {b : String}
    (hb : IsLatest edges order x b)
    (hle : ∀ c, Before order c b → depth edges c ≤ depth edges b) :
    depth edges x = depth edges b + 1 := by
  obtain ⟨c, hc, hd⟩ := exists_depth_eq ha hb.up
  have hlt := depth_lt ha hb.up
  have hcb : depth edges c ≤ depth edges b := by
    by_cases he : c = b
    · rw [he]
    · rcases before_total (ho.mem_base hc) he with h | h
      · exact hle c h
      · exact absurd h (hb.latest c hc)
  omega

/-- Nobody stands in front of a name that is less deep. -/
theorem depth_le_of_before (ha : Acyclic edges) (ho : Orders nodes edges order)
    (hl : order.Pairwise (JoinsBefore nodes edges order)) (hy : y ∈ order)
    (h : Before order x y) : depth edges x ≤ depth edges y := by
  -- by induction on the place of the name behind: the latest bases of both stand before it
  induction hk : order.idxOf y using Nat.strong_induction_on generalizing x y with
  | _ k ih =>
    subst hk
    have hlatest : ∀ b, IsLatest edges order x b → depth edges x = depth edges b + 1 := by
      intro b hb
      have hbx : Before order b x := ho.base_before _ hb.up
      exact hb.depth_eq ha ho fun c hc => ih _ (hbx.trans h) (ho.mem_base hb.up) hc rfl
    cases h.of_pairwise hl hy with
    | seen hx _ _ => rw [(depth_eq_zero ha).mpr hx]; exact Nat.zero_le _
    | root hx _ => rw [(depth_eq_zero ha).mpr hx]; exact Nat.zero_le _
    | @base b c hb hc hbc =>
      have hcy : Before order c y := ho.base_before _ hc.up
      have hle := ih _ hcy (ho.mem_base hc.up) hbc rfl
      have hlt := depth_lt ha hc.up
      rw [hlatest b hb]
      omega
    | @edge b hb hc _ =>
      rw [hlatest b hb]
      exact depth_lt ha hc.up

theorem Precedes.of_before (ha : Acyclic edges) (ho : Orders nodes edges order)
    (hl : order.Pairwise (JoinsBefore nodes edges order)) (hy : y ∈ order)
    (h : Before order x y) : Precedes nodes edges order x y := by
  have hle := depth_le_of_before ha ho hl hy h
  by_cases he : depth edges x = depth edges y
  · cases h.of_pairwise hl hy with
    | seen hx hyn h => exact .seen ((depth_eq_zero ha).mpr hx) ((depth_eq_zero ha).mpr hyn) h
    | root hx hyb =>
      obtain ⟨c, hc⟩ := hyb
      have h0 := (depth_eq_zero ha).mpr hx
      have hlt := depth_lt ha hc
      omega
    | base hb hc h => exact .base he (Nat.zero_lt_of_lt (depth_lt ha hb.up)) hb hc h
    | edge hb hc h => exact .edge he (Nat.zero_lt_of_lt (depth_lt ha hb.up)) hb hc h
  · exact .level (by omega)

/-- Of two names at most one comes first. -/
theorem Precedes.asymm (ho : Orders nodes edges order) (h : Precedes nodes edges order x y) :
    ¬ Precedes nodes edges order y x := by
  intro h'
  cases h with
  | level h => cases h' <;> omega
  | seen hx hy h =>
    cases h' with
    | seen _ _ h' => exact h.asymm h'
    | _ => omega
  | base he hpos hb hc h =>
    cases h' with
    | base _ _ hc' hb' h' =>
      rw [hc.unique hc' (ho.mem_base hc.up), hb.unique hb' (ho.mem_base hb.up)] at h
      exact h.asymm h'
    | edge _ _ hc' hb' _ =>
      rw [hc.unique hc' (ho.mem_base hc.up), hb.unique hb' (ho.mem_base hb.up)] at h
      exact h.irrefl
    | _ => omega
  | edge he hpos hb hc h =>
    cases h' with
    | base _ _ hc' hb' h' =>
      rw [← hc.unique hc' (ho.mem_base hc.up), ← hb.unique hb' (ho.mem_base hb.up)] at h'
      exact h'.irrefl
    | edge _ _ hc' _ h' =>
      rw [← hc.unique hc' (ho.mem_base hc.up)] at h'
      exact h.asymm h'
    | _ => omega

theorem byLevels_of_orders (ha : Acyclic edges) (ho : Orders nodes edges order)
    (hl : order.Pairwise (JoinsBefore nodes edges order)) : ByLevels nodes edges order := by
  refine ⟨ho.nodup, fun n => ?_, fun x hx y hy => ⟨Precedes.of_before ha ho hl hy, fun h => ?_⟩⟩
  · rw [ho.mem_iff]
    simp [mentions]
  · by_cases he : x = y
    · subst he
      exact absurd h (h.asymm ho)
    · rcases before_total hx he with hxy | hyx
      · exact hxy
      · exact absurd (Precedes.of_before ha ho hl hx hyx) (h.asymm ho)

/-! ## No other order goes by levels -/

theorem IsLatest.transfer {other : List String} {b : String} (h : IsLatest edges order x b)
    (hsame : ∀ c, Extends edges x c → (Before order b c ↔ Before other b c)) :
    IsLatest edges other x b :=
  ⟨h.up, fun c hc hbc => h.latest c hc ((hsame c hc).mpr hbc)⟩

/-- What `Precedes` asks about an order is how the names above stand in it. -/
theorem Precedes.transfer (ha : Acyclic edges) {other : List String}
    (h : Precedes nodes edges order x y)
    (hsame : ∀ b c, depth edges b < depth edges x → b ∈ mentions nodes edges →
      c ∈ mentions nodes edges → (Before order b c ↔ Before other b c)) :
    Precedes nodes edges other x y := by
  have hup : ∀ {n b}, Extends edges n b → b ∈ mentions nodes edges := by
    intro n b he
    refine List.mem_append_right _ (List.mem_flatMap.mpr ⟨_, he, ?_⟩)
    simp
  have hlatest : ∀ {n b}, depth edges n = depth edges x → IsLatest edges order n b →
      IsLatest edges other n b := by
    intro n b hn hb
    have hlt := depth_lt ha hb.up
    exact hb.transfer fun c hc => hsame b c (by omega) (hup hb.up) (hup hc)
  cases h with
  | level h => exact .level h
  | seen hx hy h => exact .seen hx hy h
  | base he hpos hb hc h =>
    have hbc := (hsame _ _ (depth_lt ha hb.up) (hup hb.up) (hup hc.up)).mp h
    exact .base he hpos (hlatest rfl hb) (hlatest he.symm hc) hbc
  | edge he hpos hx hy h => exact .edge he hpos (hlatest rfl hx) (hlatest he.symm hy) h

theorem ByLevels.before_congr (ha : Acyclic edges) {other : List String}
    (h : ByLevels nodes edges order) (h' : ByLevels nodes edges other)
    (hx : x ∈ mentions nodes edges) (hy : y ∈ mentions nodes edges) :
    Before order x y ↔ Before other x y := by
  -- by induction on the depth: names above stand in both orders alike
  induction hk : depth edges x using Nat.strong_induction_on generalizing x y with
  | _ k ih =>
    subst hk
    have hsame : ∀ b c, depth edges b < depth edges x → b ∈ mentions nodes edges →
        c ∈ mentions nodes edges → (Before order b c ↔ Before other b c) :=
      fun b c hlt hb hc => ih _ hlt hb hc rfl
    rw [h.before_iff x ((h.mem_iff x).mpr hx) y ((h.mem_iff y).mpr hy),
      h'.before_iff x ((h'.mem_iff x).mpr hx) y ((h'.mem_iff y).mpr hy)]
    constructor
    · intro hp
      exact hp.transfer ha hsame
    · intro hp
      exact hp.transfer ha fun b c hlt hb hc => (hsame b c hlt hb hc).symm

theorem ByLevels.unique (ha : Acyclic edges) {other : List String}
    (h : ByLevels nodes edges order) (h' : ByLevels nodes edges other) : other = order := by
  refine eq_of_before_iff h'.nodup h.nodup (fun n => ?_) fun x hx y hy => ?_
  · rw [h.mem_iff, h'.mem_iff]
  · exact h'.before_congr ha h ((h'.mem_iff x).mp hx) ((h'.mem_iff y).mp hy)

/-- **Levels and first mentions determine the order.** Whenever there is no cycle, the
order goes by levels, and it is the only list that does. -/
theorem order_by_levels (nodes : List String) {edges : List Edge} (h : Acyclic edges) :
    (∀ n, depth edges n = ((basesOf edges n).map fun b => depth edges b + 1).max?.getD 0) ∧
    ∃ order, classOrder nodes edges = .ok order ∧ ByLevels nodes edges order ∧
      ∀ other, ByLevels nodes edges other → other = order := by
  obtain ⟨order, hord⟩ := exists_classOrder h nodes
  have hl : ByLevels nodes edges order :=
    byLevels_of_orders h (orders_of_classOrder hord) (pairwise_joinsBefore hord)
  exact ⟨depth_eq h, order, hord, hl, fun other ho => hl.unique h ho⟩

/-- `D` stands behind `E`, whose base joins the line before `B` does. -/
theorem order_by_levels_of_two_bases :
    Acyclic [⟨"D", "A"⟩, ⟨"C", "A"⟩, ⟨"B", "A"⟩, ⟨"D", "B"⟩, ⟨"E", "C"⟩] ∧
    ByLevels ["A"] [⟨"D", "A"⟩, ⟨"C", "A"⟩, ⟨"B", "A"⟩, ⟨"D", "B"⟩, ⟨"E", "C"⟩]
      ["A", "C", "B", "E", "D"] := by
  have hc : classOrder ["A"] [⟨"D", "A"⟩, ⟨"C", "A"⟩, ⟨"B", "A"⟩, ⟨"D", "B"⟩, ⟨"E", "C"⟩] =
      .ok ["A", "C", "B", "E", "D"] := by decide +kernel
  have ha := acyclic_of_classOrder hc
  obtain ⟨-, order, hord, hl, -⟩ := order_by_levels ["A"] ha
  rw [hc] at hord
  cases hord
  exact ⟨ha, hl⟩

end RuleClasses
