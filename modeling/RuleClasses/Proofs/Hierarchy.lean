import RuleClasses.ClassChain
import Mathlib.Data.Set.Finite.List
import Mathlib.Data.Fintype.Pigeonhole
import Mathlib.Logic.Relation

/-! Ways up a class hierarchy. A name extends its bases, and theirs, and so on. A name
is on a cycle when it comes to itself again. Names from which a cycle can be reached
have no order, whatever the others do. -/

namespace RuleClasses

open Relation (ReflTransGen TransGen)

/-- One of the edges leads from the name to the base. -/
def Extends (edges : List Edge) (name base : String) : Prop := ⟨name, base⟩ ∈ edges

instance (edges : List Edge) (name base : String) : Decidable (Extends edges name base) :=
  inferInstanceAs (Decidable (_ ∈ edges))

/-- The bases of a name, in the order of the edges. -/
def basesOf (edges : List Edge) (name : String) : List String :=
  (edges.filter fun e => e.name = name).map Edge.base

theorem mem_basesOf {edges : List Edge} {name base : String} :
    base ∈ basesOf edges name ↔ Extends edges name base := by
  simp only [basesOf, List.mem_map, List.mem_filter, decide_eq_true_eq]
  constructor
  · rintro ⟨e, ⟨he, rfl⟩, rfl⟩; exact he
  · intro he; exact ⟨_, ⟨he, rfl⟩, rfl⟩

/-- The name is among its own bases, some steps up. An edge from a name to itself is
such a way. -/
def OnCycle (edges : List Edge) (name : String) : Prop := TransGen (Extends edges) name name

def Acyclic (edges : List Edge) : Prop := ∀ name, ¬ OnCycle edges name

/-- The name is on a cycle, or one of the bases above it is. -/
def LeadsToCycle (edges : List Edge) (name : String) : Prop :=
  ∃ top, ReflTransGen (Extends edges) name top ∧ OnCycle edges top

theorem extends_eraseDups (edges : List Edge) : Extends edges.eraseDups = Extends edges := by
  funext name base
  exact propext List.mem_eraseDups

theorem OnCycle.exists_base {edges : List Edge} {name : String} (h : OnCycle edges name) :
    ∃ base, Extends edges name base := by
  obtain ⟨base, he, -⟩ := TransGen.head'_iff.mp h
  exact ⟨base, he⟩

theorem LeadsToCycle.exists_base {edges : List Edge} {name : String}
    (h : LeadsToCycle edges name) : ∃ base, Extends edges name base := by
  obtain ⟨top, hway, hcycle⟩ := h
  rcases ReflTransGen.cases_head hway with rfl | ⟨base, he, -⟩
  · exact hcycle.exists_base
  · exact ⟨base, he⟩

theorem acyclic_iff {edges : List Edge} :
    Acyclic edges ↔ ∀ name, ¬ LeadsToCycle edges name := by
  constructor
  · rintro h name ⟨top, -, hcycle⟩
    exact h top hcycle
  · intro h name hcycle
    exact h name ⟨name, .refl, hcycle⟩

/-- More edges keep every way up. -/
theorem LeadsToCycle.mono {edges more : List Edge} (hsub : edges ⊆ more) {name : String}
    (h : LeadsToCycle edges name) : LeadsToCycle more name := by
  have hup : ∀ n b, Extends edges n b → Extends more n b := fun n b he => hsub he
  obtain ⟨top, hway, hcycle⟩ := h
  exact ⟨top, ReflTransGen.mono hup _ _ hway, TransGen.mono hup _ _ hcycle⟩

theorem Acyclic.anti {edges more : List Edge} (hsub : edges ⊆ more) (h : Acyclic more) :
    Acyclic edges := by
  rw [acyclic_iff] at h ⊢
  intro name hname
  exact h name (hname.mono hsub)

/-- Going up through a finite list of names without ever leaving it ends on a cycle. -/
theorem leadsToCycle_of_closed {edges : List Edge} {l : List String}
    (h : ∀ name ∈ l, ∃ base ∈ l, Extends edges name base) {name : String} (hn : name ∈ l) :
    LeadsToCycle edges name := by
  -- one base of each name, and the way from base to base
  choose! up hmem hup using h
  have hstay : ∀ k, up^[k] name ∈ l := by
    intro k
    induction k with
    | zero => exact hn
    | succ k ih => rw [Function.iterate_succ_apply']; exact hmem _ ih
  have hstep : ∀ k, Extends edges (up^[k] name) (up^[k + 1] name) := by
    intro k
    rw [Function.iterate_succ_apply']
    exact hup _ (hstay k)
  have hway : ∀ i k, ReflTransGen (Extends edges) (up^[i] name) (up^[i + k] name) := by
    intro i k
    induction k with
    | zero => exact .refl
    | succ k ih => exact ih.tail (hstep (i + k))
  have hback : ∀ i j, i < j → up^[i] name = up^[j] name → LeadsToCycle edges name := by
    intro i j hij he
    have hi : ReflTransGen (Extends edges) name (up^[i] name) := by simpa using hway 0 i
    have hj := hway (i + 1) (j - (i + 1))
    rw [Nat.add_sub_cancel' hij, ← he] at hj
    exact ⟨_, hi, TransGen.head' (hstep i) hj⟩
  have : Finite {m // m ∈ l} := l.finite_toSet.to_subtype
  obtain ⟨i, j, hne, he⟩ := Finite.exists_ne_map_eq_of_infinite
    fun k : ℕ => (⟨up^[k] name, hstay k⟩ : {m // m ∈ l})
  have he : up^[i] name = up^[j] name := congrArg Subtype.val he
  rcases Nat.lt_or_gt_of_ne hne with hlt | hlt
  · exact hback i j hlt he
  · exact hback j i hlt he.symm

/-- A list of names in which bases stand before the names that extend them is closed
upwards, and nothing in it leads to a cycle. -/
theorem not_leadsToCycle_of_rank {edges : List Edge} {l : List String} (rank : String → Nat)
    (h : ∀ name ∈ l, ∀ base, Extends edges name base → base ∈ l ∧ rank base < rank name)
    {name : String} (hn : name ∈ l) : ¬ LeadsToCycle edges name := by
  have hup : ∀ m top, m ∈ l → TransGen (Extends edges) m top → top ∈ l ∧ rank top < rank m := by
    intro m top hm hway
    induction hway with
    | single he => exact h m hm _ he
    | tail _ he ih =>
      obtain ⟨hb, hlt⟩ := h _ ih.1 _ he
      exact ⟨hb, Nat.lt_trans hlt ih.2⟩
  rintro ⟨top, hway, hcycle⟩
  have ht : top ∈ l := by
    rcases Relation.reflTransGen_iff_eq_or_transGen.mp hway with rfl | hway
    · exact hn
    · exact (hup _ _ hn hway).1
  exact Nat.lt_irrefl _ (hup _ _ ht hcycle).2

end RuleClasses
