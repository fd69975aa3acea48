import RuleClasses.ClassChain
import RuleClasses.Text.NameSet

/-! An order in which every base stands before the classes that extend it.

Names wait until all their bases are released. Those without a base are ready from
the start, in the order in which they are first seen. A released name is taken off
the count of every class that extends it, and a class whose count comes to zero
gets in line. Names on a cycle of edges, and names that only lead to one, are left
over at the end. -/

namespace RuleClasses

namespace ClassOrder

/-- The state of the release: how many edges of each name lead to a base that was
not released yet, the names in line, and the names released so far. -/
structure Release where
  counts : List (String × Nat)
  ready : List String
  order : List String
  deriving DecidableEq, Repr

/-- All names in the order in which they are first seen: the given ones, then
those of the edges, the base before the class. -/
def names (nodes : List String) (edges : List Edge) : List String :=
  (nodes ++ edges.flatMap fun e => [e.base, e.name]).eraseDups

/-- Nothing is released, and the names without a base are in line. -/
def start (nodes : List String) (edges : List Edge) : Release :=
  let counts := (names nodes edges).map fun n => (n, edges.countP fun e => e.name = n)
  ⟨counts, (counts.filter fun c => c.2 = 0).map Prod.fst, []⟩

def count (counts : List (String × Nat)) (n : String) : Nat := (Keyed.get? n counts).getD 0

/-- One edge less to wait for. -/
def oneLess (n : String) (counts : List (String × Nat)) : List (String × Nat) :=
  counts.map fun c => if c.1 = n then (c.1, c.2 - 1) else c

/-- Take one edge off the count of a class, which gets in line with its last
edge. -/
def settle (s : Release) (n : String) : Release :=
  { s with
    counts := oneLess n s.counts
    ready := if count s.counts n = 1 then s.ready ++ [n] else s.ready }

/-- The classes that extend a name, in the order of the edges. -/
def derived (edges : List Edge) (base : String) : List String :=
  (edges.filter fun e => e.base = base).map Edge.name

/-- Release the first name in line, if there is one. -/
def step (edges : List Edge) (s : Release) : Option Release :=
  match s.ready with
  | [] => none
  | n :: rest =>
    some ((derived edges n).foldl settle { s with ready := rest, order := s.order ++ [n] })

/-- Names that are in line or wait for a base. -/
def pending (s : Release) : Nat := s.counts.countP (fun c => 0 < c.2) + s.ready.length

theorem countP_oneLess_le (n : String) (counts : List (String × Nat)) :
    (oneLess n counts).countP (fun c => 0 < c.2) ≤ counts.countP fun c => 0 < c.2 := by
  rw [oneLess, List.countP_map]
  refine List.countP_mono_left fun c _ h => ?_
  simp only [Function.comp_apply, decide_eq_true_eq] at h ⊢
  split at h
  · exact Nat.lt_of_lt_of_le h (Nat.sub_le _ _)
  · exact h

theorem countP_oneLess_lt {n : String} {counts : List (String × Nat)} (h : count counts n = 1) :
    (oneLess n counts).countP (fun c => 0 < c.2) < counts.countP fun c => 0 < c.2 := by
  induction counts with
  | nil => simp [count, Keyed.get?] at h
  | cons c rest ih =>
    by_cases hc : c.1 = n
    · have h1 : c.2 = 1 := by simpa [count, Keyed.get?, hc] using h
      have := countP_oneLess_le n rest
      simp only [oneLess] at this
      simp only [oneLess, List.map_cons, hc, if_true, h1, List.countP_cons]
      simp only [Nat.sub_self, Nat.lt_irrefl, decide_false, Nat.zero_lt_one, decide_true,
        if_true, Bool.false_eq_true, if_false]
      omega
    · have h' : count rest n = 1 := by simpa [count, Keyed.get?, hc] using h
      have := ih h'
      simp only [oneLess] at this
      simp only [oneLess, List.map_cons, hc, if_false, List.countP_cons]
      omega

/-- A class that gets in line waits no longer. -/
theorem pending_settle_le (s : Release) (n : String) : pending (settle s n) ≤ pending s := by
  simp only [pending, settle]
  split
  · rename_i h
    have := countP_oneLess_lt h
    simp only [List.length_append, List.length_singleton]; omega
  · have := countP_oneLess_le n s.counts
    omega

theorem pending_foldl_settle_le (s : Release) (l : List String) :
    pending (l.foldl settle s) ≤ pending s := by
  induction l generalizing s with
  | nil => exact Nat.le_refl _
  | cons n rest ih => exact Nat.le_trans (ih _) (pending_settle_le s n)

theorem pending_step_lt {edges : List Edge} {s t : Release} (h : step edges s = some t) :
    pending t < pending s := by
  unfold step at h
  split at h
  · cases h
  · rename_i n rest hr
    cases h
    refine Nat.lt_of_le_of_lt (pending_foldl_settle_le _ _) ?_
    simp [pending, hr]

/-- Release names until none is in line. -/
def run (edges : List Edge) (s : Release) : Release :=
  match _h : step edges s with
  | none => s
  | some t => run edges t
termination_by pending s
decreasing_by exact pending_step_lt _h

/-- Names that still wait for a base, sorted. -/
def leftOver (s : Release) : List String :=
  Text.sortNames ((s.counts.filter fun c => 0 < c.2).map Prod.fst)

end ClassOrder

/-- The names of the nodes and the edges, bases first; an edge that is given twice
counts once. The error holds the names that cannot be ordered. -/
def classOrder (nodes : List String) (edges : List Edge) : Except (List String) (List String) :=
  let edges := edges.eraseDups
  let s := ClassOrder.run edges (ClassOrder.start nodes edges)
  if s.order.length < s.counts.length then .error (ClassOrder.leftOver s) else .ok s.order

end RuleClasses
