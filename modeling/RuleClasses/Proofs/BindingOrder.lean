import RuleClasses.Proofs.Bindings
import Mathlib.Data.List.Forall2

/-! Where a body binds its names. A place in an expression is the way down to it, told by the
numbers of the parts that are entered. In the order of a dictionary these ways come as the body
is read: an expression before its parts, and its parts from left to right. The bindings of a
body stand in this order, one for each place where a name is bound, unless an override or a
negative lookahead is somewhere above that place. -/

namespace RuleClasses

namespace Expr

/-! ## Places -/

/-- The expressions that one is put together from. -/
def parts : Expr → List Expr
  | .atom _ => []
  | .bind _ _ body => [body]
  | .wrap _ body => [body]
  | .sequence items => items
  | .choice options => options

/-- What stands at a place. -/
def at? : Expr → List Nat → Option Expr
  | e, [] => some e
  | e, i :: place => e.parts[i]?.bind fun part => part.at? place

/-- The first place comes before the second when the body is read. -/
abbrev ReadBefore : List Nat → List Nat → Prop := List.Lex (· < ·)

/-- What is below binds nothing. -/
inductive Hides : Expr → Prop
  | override (body : Expr) : Hides (.wrap .override body)
  | negativeLookahead (body : Expr) : Hides (.wrap .negativeLookahead body)

/-- A binding is made at the place, and nothing above the place hides it. -/
structure BindsAt (e : Expr) (place : List Nat) (d : Binding) : Prop where
  here : ∃ body, e.at? place = some (.bind d.isList d.name body)
  visible : ∀ above x, above <+: place → above ≠ place → e.at? above = some x → ¬ x.Hides

variable {e : Expr} {place : List Nat} {d : Binding}

theorem at?_cons {i : Nat} {x : Expr} :
    e.at? (i :: place) = some x ↔ ∃ part, e.parts[i]? = some part ∧ part.at? place = some x :=
  Option.bind_eq_some_iff

theorem bindsAt_nil : e.BindsAt [] d ↔ ∃ body, e = .bind d.isList d.name body := by
  constructor
  · rintro ⟨⟨body, hbody⟩, -⟩
    exact ⟨body, Option.some.inj hbody⟩
  · rintro ⟨body, rfl⟩
    exact ⟨⟨body, rfl⟩, fun above _ habove hne => absurd (List.prefix_nil.mp habove) hne⟩

/-- One step down. -/
theorem bindsAt_cons {i : Nat} : e.BindsAt (i :: place) d ↔
    ¬ e.Hides ∧ ∃ part, e.parts[i]? = some part ∧ part.BindsAt place d := by
  constructor
  · rintro ⟨⟨body, hbody⟩, hvisible⟩
    obtain ⟨part, hpart, hbody⟩ := at?_cons.mp hbody
    refine ⟨hvisible [] e (List.nil_prefix) (List.cons_ne_nil _ _).symm rfl, part, hpart,
      ⟨body, hbody⟩, fun above x habove hne hx => ?_⟩
    exact hvisible (i :: above) x ((List.prefix_cons_inj i).mpr habove)
      (fun h => hne (List.cons.inj h).2) (at?_cons.mpr ⟨part, hpart, hx⟩)
  · rintro ⟨hopen, part, hpart, ⟨body, hbody⟩, hvisible⟩
    refine ⟨⟨body, at?_cons.mpr ⟨part, hpart, hbody⟩⟩, fun above x habove hne hx => ?_⟩
    cases above with
    | nil => exact Option.some.inj hx ▸ hopen
    | cons j above =>
      obtain ⟨rfl, hbelow⟩ := List.cons_prefix_cons.mp habove
      obtain ⟨part', hpart', hx⟩ := at?_cons.mp hx
      obtain rfl := Option.some.inj (hpart'.symm.trans hpart)
      exact hvisible above x hbelow (fun h => hne (congrArg _ h)) hx

theorem BindsAt.unique {d' : Binding} (h : e.BindsAt place d) (h' : e.BindsAt place d') :
    d = d' := by
  obtain ⟨⟨body, hbody⟩, -⟩ := h
  obtain ⟨⟨body', hbody'⟩, -⟩ := h'
  obtain ⟨hlist, hname, -⟩ := Expr.bind.inj (Option.some.inj (hbody.symm.trans hbody'))
  cases d
  cases d'
  exact congrArg₂ Binding.mk hname hlist

/-! ## Bindings in the order of their places -/

/-- The list holds what `V` says of places, place by place in the order of reading. -/
def Listed (V : List Nat → Binding → Prop) (l : List Binding) : Prop :=
  ∃ places : List (List Nat), places.Pairwise ReadBefore ∧
    (∀ place, place ∈ places ↔ ∃ d, V place d) ∧ List.Forall₂ V places l

namespace Listed

variable {V W : List Nat → Binding → Prop} {l m : List Binding}

theorem of_iff (hl : Listed V l) (h : ∀ place d, W place d ↔ V place d) : Listed W l := by
  obtain rfl : W = V := funext fun place => funext fun d => propext (h place d)
  exact hl

theorem nil (h : ∀ place d, ¬ V place d) : Listed V [] :=
  ⟨[], .nil, fun place => ⟨nofun, fun ⟨d, hd⟩ => absurd hd (h place d)⟩, .nil⟩

/-- What is below a part is read in the same order from above. -/
theorem below (hl : Listed V l) (i : Nat) :
    Listed (fun place d => ∃ rest, place = i :: rest ∧ V rest d) l := by
  obtain ⟨places, hordered, hmem, hl⟩ := hl
  refine ⟨places.map (i :: ·), ?_, fun place => ?_, ?_⟩
  · exact List.pairwise_map.mpr (hordered.imp .cons)
  · rw [List.mem_map]
    constructor
    · rintro ⟨rest, hrest, rfl⟩
      obtain ⟨d, hd⟩ := (hmem rest).mp hrest
      exact ⟨d, rest, rfl, hd⟩
    · rintro ⟨d, rest, rfl, hd⟩
      exact ⟨rest, (hmem rest).mpr ⟨d, hd⟩, rfl⟩
  · exact List.forall₂_map_left_iff.mpr (hl.imp fun rest _ hd => ⟨rest, rfl, hd⟩)

theorem append (hl : Listed V l) (hm : Listed W m)
    (h : ∀ p q d d', V p d → W q d' → ReadBefore p q) :
    Listed (fun place d => V place d ∨ W place d) (l ++ m) := by
  obtain ⟨ps, hps, hmemp, hl⟩ := hl
  obtain ⟨qs, hqs, hmemq, hm⟩ := hm
  refine ⟨ps ++ qs, List.pairwise_append.mpr ⟨hps, hqs, fun p hp q hq => ?_⟩, fun place => ?_, ?_⟩
  · obtain ⟨d, hd⟩ := (hmemp p).mp hp
    obtain ⟨d', hd'⟩ := (hmemq q).mp hq
    exact h p q d d' hd hd'
  · rw [List.mem_append, hmemp, hmemq, exists_or]
  · exact List.rel_append (hl.imp fun _ _ => .inl) (hm.imp fun _ _ => .inr)

/-- The binding of the whole expression is read first. -/
theorem cons (hl : Listed V l) (d : Binding) (h : ∀ p d', V p d' → p ≠ []) :
    Listed (fun place d' => (place = [] ∧ d' = d) ∨ V place d') (d :: l) := by
  have hroot : Listed (fun place d' => place = [] ∧ d' = d) [d] :=
    ⟨[[]], List.pairwise_singleton _ _, by simp, .cons ⟨rfl, rfl⟩ .nil⟩
  refine hroot.append hl fun p q d' d'' hp hq => ?_
  obtain ⟨i, rest, rfl⟩ := List.exists_cons_of_ne_nil (h q d'' hq)
  exact hp.1 ▸ .nil

end Listed

/-- The bindings in some parts of an expression, numbered from `i` on. -/
def BindsIn (i : Nat) (parts : List Expr) (place : List Nat) (d : Binding) : Prop :=
  ∃ j part rest, parts[j]? = some part ∧ place = (i + j) :: rest ∧ part.BindsAt rest d

theorem bindsIn_nil {i : Nat} : ¬ BindsIn i [] place d := by
  rintro ⟨j, part, rest, hpart, -, -⟩
  cases hpart

theorem bindsIn_cons {i : Nat} {part : Expr} {others : List Expr} :
    BindsIn i (part :: others) place d ↔
      (∃ rest, place = i :: rest ∧ part.BindsAt rest d) ∨ BindsIn (i + 1) others place d := by
  constructor
  · rintro ⟨j, x, rest, hx, rfl, h⟩
    cases j with
    | zero =>
      obtain rfl := Option.some.inj hx
      exact .inl ⟨rest, rfl, h⟩
    | succ j => exact .inr ⟨j, x, rest, hx, by rw [Nat.add_right_comm, Nat.add_assoc], h⟩
  · rintro (⟨rest, rfl, h⟩ | ⟨j, x, rest, hx, rfl, h⟩)
    · exact ⟨0, part, rest, rfl, rfl, h⟩
    · exact ⟨j + 1, x, rest, hx, by rw [Nat.add_right_comm, Nat.add_assoc], h⟩

/-- An expression that hides nothing binds what its parts bind, and perhaps a name of its
own. -/
theorem bindsAt_iff (h : ¬ e.Hides) : e.BindsAt place d ↔
    (place = [] ∧ ∃ body, e = .bind d.isList d.name body) ∨ BindsIn 0 e.parts place d := by
  cases place with
  | nil => simp [bindsAt_nil, BindsIn]
  | cons i place =>
    rw [bindsAt_cons, BindsIn]
    constructor
    · rintro ⟨-, part, hpart, hd⟩
      exact .inr ⟨i, part, place, hpart, by rw [Nat.zero_add], hd⟩
    · rintro (⟨hnil, -⟩ | ⟨j, part, rest, hpart, hplace, hd⟩)
      · cases hnil
      · obtain ⟨rfl, rfl⟩ := List.cons.inj hplace
        exact ⟨h, part, by rwa [Nat.zero_add], hd⟩

theorem not_bindsAt_of_hides (h : e.Hides) : ¬ e.BindsAt place d := by
  cases place with
  | nil =>
    rw [bindsAt_nil]
    cases h <;> nofun
  | cons i place => exact fun hd => (bindsAt_cons.mp hd).1 h

theorem hides_wrap {w : Wrapper} {body : Expr} : (Expr.wrap w body).Hides ↔ w.hides = true := by
  constructor
  · intro h
    cases h <;> rfl
  · intro h
    cases w <;> first | exact .override _ | exact .negativeLookahead _ | cases h

mutual

theorem listed_bindings (e : Expr) : Listed e.BindsAt e.bindings := by
  match e with
  | .atom a =>
    have hopen : ¬ (Expr.atom a).Hides := nofun
    refine .nil fun place d hd => ?_
    rcases (bindsAt_iff hopen).mp hd with ⟨-, body, hbody⟩ | hd
    · cases hbody
    · exact bindsIn_nil hd
  | .bind isList n body =>
    have hopen : ¬ (Expr.bind isList n body).Hides := nofun
    refine (((listed_bindings body).below 0).cons ⟨n, isList⟩ ?_).of_iff fun place d => ?_
    · rintro p d ⟨rest, rfl, -⟩
      exact List.cons_ne_nil _ _
    · rw [bindsAt_iff hopen, parts, bindsIn_cons]
      simp only [bindsIn_nil, or_false]
      refine or_congr_left (and_congr_right fun _ => ?_)
      constructor
      · rintro ⟨_, h⟩
        cases h
        rfl
      · rintro rfl
        exact ⟨body, rfl⟩
  | .wrap w body =>
    rw [bindings]
    split
    · rename_i hw
      exact .nil fun place d => not_bindsAt_of_hides (hides_wrap.mpr hw)
    · rename_i hw
      refine ((listed_bindings body).below 0).of_iff fun place d => ?_
      rw [bindsAt_iff (mt hides_wrap.mp hw), parts, bindsIn_cons]
      simp [bindsIn_nil]
  | .sequence items =>
    have hopen : ¬ (Expr.sequence items).Hides := nofun
    refine (listed_bindingsAll 0 items).of_iff fun place d => ?_
    rw [bindsAt_iff hopen, parts]
    simp
  | .choice options =>
    have hopen : ¬ (Expr.choice options).Hides := nofun
    refine (listed_bindingsAll 0 options).of_iff fun place d => ?_
    rw [bindsAt_iff hopen, parts]
    simp

theorem listed_bindingsAll (i : Nat) (l : List Expr) : Listed (BindsIn i l) (bindingsAll l) := by
  match l with
  | [] => exact .nil fun _ _ => bindsIn_nil
  | part :: others =>
    refine (((listed_bindings part).below i).append (listed_bindingsAll (i + 1) others) ?_).of_iff
      fun place d => bindsIn_cons
    -- the number of a part decides before anything that is below
    rintro p q d d' ⟨rest, rfl, -⟩ ⟨j, x, rest', -, rfl, -⟩
    exact .rel (Nat.lt_of_lt_of_le (Nat.lt_succ_self i) (Nat.le_add_right _ j))

end

/-- **The bindings of a body stand in the order in which it is read.** There is one for each
place where a name is bound with no override and no negative lookahead above it, and no other.
The number of a binding is that of its place in this order, and it tells which name is bound
there and whether as a list. -/
theorem bindings_inOrder (e : Expr) :
    ∃ places : List (List Nat), places.Pairwise ReadBefore ∧
      (∀ place, place ∈ places ↔ ∃ d, e.BindsAt place d) ∧
      ∀ (k : Nat) (d : Binding),
        e.bindings[k]? = some d ↔ ∃ place, places[k]? = some place ∧ e.BindsAt place d := by
  obtain ⟨places, hordered, hmem, hlisted⟩ := listed_bindings e
  have hlength := hlisted.length_eq
  have hat : ∀ (k : Nat) (place : List Nat) (d : Binding), places[k]? = some place →
      e.bindings[k]? = some d → e.BindsAt place d := by
    intro k place d hplace hd
    obtain ⟨hlt, rfl⟩ := List.getElem?_eq_some_iff.mp hplace
    obtain ⟨hlt', rfl⟩ := List.getElem?_eq_some_iff.mp hd
    exact hlisted.get hlt hlt'
  refine ⟨places, hordered, hmem, fun k d => ⟨fun hd => ?_, ?_⟩⟩
  · obtain ⟨hlt, -⟩ := List.getElem?_eq_some_iff.mp hd
    have hplace := List.getElem?_eq_getElem (hlength ▸ hlt)
    exact ⟨_, hplace, hat k _ d hplace hd⟩
  · rintro ⟨place, hplace, hd⟩
    obtain ⟨hlt, -⟩ := List.getElem?_eq_some_iff.mp hplace
    have hfound := List.getElem?_eq_getElem (hlength ▸ hlt)
    rw [hfound, (hat k place _ hplace hfound).unique hd]

example : (sequence [.wrap .override (.wrap .group (.bind false "hidden" .void)),
    .bind true "items" (.choice [.atom .cut, .bind false "item" .void]),
    .wrap .lookahead (.bind false "items" .void)]).bindings =
    [⟨"items", true⟩, ⟨"item", false⟩, ⟨"items", false⟩] := rfl

end Expr

end RuleClasses
