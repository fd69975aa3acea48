import RuleClasses.Plan
import RuleClasses.Proofs.Chains
import RuleClasses.Proofs.OrderOrCycle

/-! What a plan declares. The declared names are those of the class order without the
names that are taken already, in that order, so a base is declared before every class
that extends it, or it is not declared at all. What is said of each name is settled by
the last rule that has it for its own class, and else by the last edge of any rule. -/

namespace RuleClasses

/-- The name means something already: a built-in, or the root type, which is imported
by that name. -/
def Taken (o : Options) (name : String) : Prop :=
  o.target.isBuiltin name = true ∨ o.rootType.module ≠ "" ∧ name = o.rootType.name

instance (o : Options) (name : String) : Decidable (Taken o name) :=
  inferInstanceAs (Decidable (_ ∨ _))

/-- A class that is not declared since its name is taken. A strict run leaves none
out. -/
structure LeftOut (o : Options) (rules : List ClassRule) (name : String) : Prop where
  taken : Taken o name
  lax : o.strict = false
  isClass : IsClass rules name

/-- A plan as a map: the declaration of a name. -/
def Plan.decl? (p : Plan) (name : String) : Option Decl := p.decls.find? fun d => d.name = name

namespace Plan

variable {o : Options} {g : Grammar} {p : Plan} {rules : List ClassRule}

/-- What a plan should declare under a name. The last rule with that class counts, and
where there is none the last edge. -/
def expected? (o : Options) (rules : List ClassRule) (name : String) : Option Decl :=
  if Taken o name then none
  else match rules.findRev? fun c => c.leaf.name = name with
    | some c => some (.rule name c.leaf.base c.rule.name (c.rule.attributes o.target.identifier))
    | none =>
      if name = modelBase then some (.base name (some o.rootType.name))
      else ((edgesOf rules).findRev? fun e => e.name = name).map fun e => .base name (some e.base)

/-- What a strict run says of a class whose name is taken. That it is the root type's name
counts first, also where a built-in has that name. -/
def refusal (o : Options) (name : String) : Error :=
  if o.rootType.module ≠ "" ∧ name = o.rootType.name then
    .hidesRootType name o.rootType.name
  else .reserved name o.target

theorem obstacle?_eq (o : Options) (name : String) :
    obstacle? o name = if Taken o name then some (refusal o name) else none := by
  unfold obstacle? refusal Taken
  by_cases hroot : o.rootType.module ≠ "" ∧ name = o.rootType.name
  · simp [hroot]
  · simp [hroot]

theorem declarable_lax (h : o.strict = false) (order : List String) :
    declarable o order = .ok (order.filter fun n => ¬ Taken o n) := by
  induction order with
  | nil => rfl
  | cons n rest ih =>
    rw [declarable, obstacle?_eq, ih]
    by_cases htaken : Taken o n
    · simp [htaken, h]
    · simp [htaken, Except.map]

theorem declarable_strict (h : o.strict = true) (order : List String) :
    declarable o order = match order.find? fun n => Taken o n with
      | none => .ok order
      | some n => .error (refusal o n) := by
  induction order with
  | nil => rfl
  | cons n rest ih =>
    rw [declarable, obstacle?_eq, ih, List.find?_cons]
    by_cases htaken : Taken o n
    · simp [htaken, h]
    · simp only [htaken, if_false, decide_false]
      cases rest.find? fun n => Taken o n <;> rfl

/-- In a strict run nothing is left out. -/
theorem declarable_eq_ok {order names : List String} (h : declarable o order = .ok names) :
    names = (order.filter fun n => ¬ Taken o n) ∧ (o.strict → ∀ n ∈ order, ¬ Taken o n) := by
  cases hs : o.strict with
  | false =>
    rw [declarable_lax hs] at h
    cases h
    exact ⟨rfl, nofun⟩
  | true =>
    rw [declarable_strict hs] at h
    cases hf : order.find? fun n => Taken o n with
    | some n => rw [hf] at h; cases h
    | none =>
      rw [hf] at h
      cases h
      have hfree : ∀ n ∈ order, ¬ Taken o n := by simpa using List.find?_eq_none.mp hf
      exact ⟨(List.filter_eq_self.mpr (by simpa using hfree)).symm, fun _ => hfree⟩

theorem name_declare (safe : String → String) (bases : List (String × String))
    (leaves : List (String × ClassRule)) (n : String) : (declare safe bases leaves n).name = n := by
  unfold declare
  split <;> rfl

theorem mem_keys_bases {root n : String} : n ∈ Keyed.keys (bases root rules) ↔ IsClass rules n := by
  rw [bases, Keyed.mem_keys_put, Keyed.mem_keys_ofList]
  simp only [IsClass, Keyed.keys, List.map_map, List.mem_map, Function.comp_apply]

theorem get?_bases (root n : String) :
    Keyed.get? n (bases root rules) = if n = modelBase then some root
      else ((edgesOf rules).findRev? fun e => e.name = n).map Edge.base := by
  rw [bases, Keyed.get?_put, Keyed.get?_ofList_map Edge.name Edge.base]

theorem get?_leaves (n : String) :
    Keyed.get? n (leaves rules) = rules.findRev? fun c => c.leaf.name = n := by
  rw [leaves, Keyed.get?_ofList_map (fun c : ClassRule => c.leaf.name) (fun c => c)]
  exact Option.map_id'

/-- The order of all classes of the rules, or the names that cannot be ordered. -/
abbrev orderOf (root : String) (rules : List ClassRule) : Except (List String) (List String) :=
  classOrder (Keyed.keys (bases root rules)) (edgesOf rules)

theorem mem_of_orderOf {root : String} {order : List String} (hc : Chained rules)
    (h : orderOf root rules = .ok order) (n : String) : n ∈ order ↔ IsClass rules n := by
  rw [(orders_of_classOrder h).mem_iff, mem_keys_bases]
  constructor
  · rintro (hn | ⟨e, he, rfl | rfl⟩)
    · exact hn
    · exact hc.isClass_base he
    · exact .inr ⟨e, he, rfl⟩
  · exact .inl

/-- The plan that declares the given classes of a grammar. -/
def declaring (o : Options) (g : Grammar) (names : List String) : Plan :=
  let rules := g.classRules o.target.identifier
  ⟨o.name.getD g.name, o.rootType,
    names.map (declare o.target.identifier (bases o.rootType.name rules) (leaves rules))⟩

theorem classNames_declaring (o : Options) (g : Grammar) (names : List String) :
    (declaring o g names).classNames = names := by
  rw [classNames, declaring, List.map_map]
  refine (List.map_congr_left fun n _ => ?_).trans (List.map_id _)
  exact name_declare _ _ _ n

theorem ofGrammar_of_cycle {left : List String}
    (h : orderOf o.rootType.name (g.classRules o.target.identifier) = .error left) :
    ofGrammar o g = .error (.cycle left) := by
  unfold ofGrammar declsOf
  simp only [h]
  rfl

theorem ofGrammar_of_order {order : List String}
    (h : orderOf o.rootType.name (g.classRules o.target.identifier) = .ok order) :
    ofGrammar o g = (declarable o order).map (declaring o g) := by
  unfold ofGrammar declsOf
  simp only [h, bind, Except.bind, Except.mapError]
  cases declarable o order <;> rfl

/-- A plan and the class order from which it is made. -/
structure Made (o : Options) (rules : List ClassRule) (order : List String) (p : Plan) :
    Prop where
  ordered : classOrder (Keyed.keys (bases o.rootType.name rules)) (edgesOf rules) = .ok order
  decls : p.decls = (order.filter fun n => ¬ Taken o n).map
    (declare o.target.identifier (bases o.rootType.name rules) (leaves rules))
  strict : o.strict → ∀ n ∈ order, ¬ Taken o n

theorem made_of_ofGrammar (h : ofGrammar o g = .ok p) :
    ∃ order, Made o (g.classRules o.target.identifier) order p := by
  cases ho : orderOf o.rootType.name (g.classRules o.target.identifier) with
  | error left => rw [ofGrammar_of_cycle ho] at h; cases h
  | ok order =>
    rw [ofGrammar_of_order ho] at h
    cases hd : declarable o order with
    | error e => rw [hd] at h; cases h
    | ok names =>
      rw [hd] at h
      cases h
      obtain ⟨rfl, hstrict⟩ := declarable_eq_ok hd
      exact ⟨order, ho, rfl, hstrict⟩

theorem rootType_of_ofGrammar (h : ofGrammar o g = .ok p) : p.rootType = o.rootType := by
  unfold ofGrammar at h
  cases hd : declsOf o (g.classRules o.target.identifier) with
  | error e => rw [hd] at h; cases h
  | ok decls => rw [hd] at h; cases h; rfl

theorem name_of_ofGrammar (h : ofGrammar o g = .ok p) : p.name = o.name.getD g.name := by
  unfold ofGrammar at h
  cases hd : declsOf o (g.classRules o.target.identifier) with
  | error e => rw [hd] at h; cases h
  | ok decls => rw [hd] at h; cases h; rfl

namespace Made

variable {order : List String}

theorem orders (h : Made o rules order p) :
    Orders (Keyed.keys (bases o.rootType.name rules)) (edgesOf rules) order :=
  orders_of_classOrder h.ordered

theorem classNames (h : Made o rules order p) :
    p.classNames = order.filter fun n => ¬ Taken o n := by
  rw [Plan.classNames, h.decls, List.map_map]
  refine (List.map_congr_left fun n _ => ?_).trans (List.map_id _)
  exact name_declare _ _ _ n

theorem nodup_classNames (h : Made o rules order p) : p.classNames.Nodup :=
  h.classNames ▸ h.orders.nodup.filter _

theorem mem_order (h : Made o rules order p) (hc : Chained rules) (n : String) :
    n ∈ order ↔ IsClass rules n :=
  mem_of_orderOf hc h.ordered n

theorem mem_classNames (h : Made o rules order p) (hc : Chained rules) (n : String) :
    n ∈ p.classNames ↔ IsClass rules n ∧ ¬ Taken o n := by
  simp [h.classNames, h.mem_order hc]

/-- The base that is written for a class is the root type or in an edge of that class. -/
theorem base_of_mem (h : Made o rules order p) (hc : Chained rules) {d : Decl}
    (hd : d ∈ p.decls) : ∃ b, d.base? = some b ∧
      (d.name = modelBase ∧ b = o.rootType.name ∨ Extends (edgesOf rules) d.name b) := by
  rw [h.decls] at hd
  obtain ⟨n, hn, rfl⟩ := List.mem_map.mp hd
  have hclass : IsClass rules n := (h.mem_order hc n).mp (List.mem_filter.mp hn).1
  rw [name_declare]
  unfold declare
  split
  · rename_i c hleaf
    rw [get?_leaves] at hleaf
    obtain ⟨hmem, hname⟩ := mem_of_findRev? hleaf
    obtain rfl : c.leaf.name = n := by simpa using hname
    exact ⟨_, rfl, .inr (leaf_mem_edgesOf hmem)⟩
  · rw [Decl.base?, get?_bases]
    split
    · rename_i hroot
      exact ⟨_, rfl, .inl ⟨hroot, rfl⟩⟩
    · rename_i hroot
      obtain ⟨e, he, hname⟩ := hclass.resolve_left hroot
      cases hlast : (edgesOf rules).findRev? fun e => e.name = n with
      | none => exact absurd hname (by simpa using findRev?_eq_none.mp hlast e he)
      | some f =>
        obtain ⟨hmem, hname⟩ := mem_of_findRev? hlast
        obtain rfl : f.name = n := by simpa using hname
        exact ⟨_, rfl, .inr hmem⟩

theorem decl?_eq_declare (h : Made o rules order p) (n : String) :
    p.decl? n = if n ∈ p.classNames then
      some (declare o.target.identifier (bases o.rootType.name rules) (leaves rules) n)
      else none := by
  have hname : ∀ m, (declare o.target.identifier (bases o.rootType.name rules) (leaves rules)
      m).name = m := name_declare _ _ _
  rw [decl?, h.classNames, h.decls, List.find?_map]
  simp only [Function.comp_def, hname]
  rw [find?_eq_ite_mem]
  split <;> rfl

theorem decl?_eq_expected? (h : Made o rules order p) (hc : Chained rules) (n : String) :
    p.decl? n = expected? o rules n := by
  rw [h.decl?_eq_declare, expected?]
  simp only [h.mem_classNames hc]
  by_cases htaken : Taken o n
  · simp [htaken]
  · unfold declare
    rw [get?_leaves, get?_bases, if_neg htaken]
    cases hleaf : rules.findRev? fun c => c.leaf.name = n with
    | some c =>
      obtain ⟨hmem, hname⟩ := mem_of_findRev? hleaf
      have hclass : IsClass rules n := .inr ⟨_, leaf_mem_edgesOf hmem, by simpa using hname⟩
      simp [hclass, htaken]
    | none =>
      by_cases hroot : n = modelBase
      · simp [IsClass, hroot, hroot ▸ htaken]
      · cases hlast : (edgesOf rules).findRev? fun e => e.name = n with
        | some e =>
          obtain ⟨hmem, hname⟩ := mem_of_findRev? hlast
          have hclass : IsClass rules n := .inr ⟨e, hmem, by simpa using hname⟩
          simp [hclass, htaken, hroot]
        | none =>
          have hclass : ¬ IsClass rules n := by
            rintro (he | ⟨e, he, hname⟩)
            · exact hroot he
            · exact findRev?_eq_none.mp hlast e he (by simpa using hname)
          simp [hclass, hroot]

/-- A base that a class extends is declared before it, unless its name is taken. -/
theorem before_classNames (h : Made o rules order p) {n b : String} (hn : n ∈ p.classNames)
    (he : Extends (edgesOf rules) n b) (hfree : ¬ Taken o b) : Before p.classNames b n := by
  rw [h.classNames] at hn ⊢
  obtain ⟨-, hn⟩ := List.mem_filter.mp hn
  refine (before_filter ?_ ?_).mpr (h.orders.base_before _ he)
  · exact decide_eq_true hfree
  · exact hn

theorem leftOut_of_taken (h : Made o rules order p) (hc : Chained rules) {n b : String}
    (he : Extends (edgesOf rules) n b) (htaken : Taken o b) : LeftOut o rules b := by
  have hclass := hc.isClass_base he
  refine ⟨htaken, ?_, hclass⟩
  rw [← Bool.not_eq_true]
  intro hstrict
  exact h.strict hstrict b ((h.mem_order hc b).mpr hclass) htaken

end Made

/-! ## Main results -/

/-- **Bases are declared first.** Nothing is declared twice, and the base of every class
but the one above all chains is declared before it. Only a base whose name is taken is
left out. -/
theorem bases_declared_first (h : ofGrammar o g = .ok p) :
    p.classNames.Nodup ∧
    ∀ (i : Nat) (d : Decl), p.decls[i]? = some d → d.name ≠ modelBase →
      ∃ b, d.base? = some b ∧ ((∃ j, j < i ∧ p.classNames[j]? = some b) ∨
        LeftOut o (g.classRules o.target.identifier) b) := by
  obtain ⟨order, hm⟩ := made_of_ofGrammar h
  have hc := chained_classRules o.target.identifier g
  refine ⟨hm.nodup_classNames, ?_⟩
  intro i d hi hne
  have hd : d ∈ p.decls := List.mem_of_getElem? hi
  have hname : p.classNames[i]? = some d.name := by rw [classNames, List.getElem?_map, hi]; rfl
  obtain ⟨b, hb, hroot | he⟩ := hm.base_of_mem hc hd
  · exact absurd hroot.1 hne
  · refine ⟨b, hb, ?_⟩
    by_cases htaken : Taken o b
    · exact .inr (hm.leftOut_of_taken hc he htaken)
    · have hbefore := hm.before_classNames (List.mem_of_getElem? hname) he htaken
      exact .inl (hbefore.exists_getElem? hname)

/-- `Items` extends a built-in in its own rule, and another class in the next one. -/
theorem bases_declared_first_of_builtin :
    ∃ p, ofGrammar ⟨.python, ⟨"ast", "Node"⟩, none, false⟩
        ⟨"calc", [⟨"items", [.string "Items::list::Node"], .void⟩,
          ⟨"add", [.string "Sum"], .void⟩, ⟨"add", [.string "Add::Items::Op"], .void⟩]⟩ = .ok p ∧
      p.classNames.Nodup ∧ p.decls[2]? = some (.rule "Items" "list" "items" []) ∧
      Taken ⟨.python, ⟨"ast", "Node"⟩, none, false⟩ "list" ∧
      p.decls[3]? = some (.rule "Add" "Items" "add" []) ∧
      ∃ j, j < 3 ∧ p.classNames[j]? = some "Items" := by
  have h : ofGrammar ⟨.python, ⟨"ast", "Node"⟩, none, false⟩
      ⟨"calc", [⟨"items", [.string "Items::list::Node"], .void⟩,
        ⟨"add", [.string "Sum"], .void⟩, ⟨"add", [.string "Add::Items::Op"], .void⟩]⟩ =
      .ok ⟨"calc", ⟨"ast", "Node"⟩, [.base "ModelBase" (some "Node"),
        .base "Op" (some "ModelBase"), .rule "Items" "list" "items" [],
        .rule "Add" "Items" "add" []]⟩ := by decide +kernel
  obtain ⟨hnodup, hbase⟩ := bases_declared_first h
  obtain ⟨b, hb, hlist⟩ := hbase 2 _ rfl (by decide)
  cases hb
  obtain ⟨b, hb, hitems⟩ := hbase 3 _ rfl (by decide)
  cases hb
  refine ⟨_, h, hnodup, rfl, (hlist.resolve_left ?_).taken, rfl, hitems.resolve_right ?_⟩
  · decide
  · intro hleft
    exact absurd hleft.taken (by decide)

/-- **A plan declares what it should.** The names are the classes of the chains that are
not taken, each once, and each of them has the declaration that is expected. Every
class has a base. -/
theorem declares_expected (h : ofGrammar o g = .ok p) :
    p.classNames.Nodup ∧
    (∀ n, n ∈ p.classNames ↔ IsClass (g.classRules o.target.identifier) n ∧ ¬ Taken o n) ∧
    (∀ n, p.decl? n = expected? o (g.classRules o.target.identifier) n) ∧
    ∀ n, Decl.base n none ∉ p.decls := by
  obtain ⟨order, hm⟩ := made_of_ofGrammar h
  have hc := chained_classRules o.target.identifier g
  refine ⟨hm.nodup_classNames, hm.mem_classNames hc, hm.decl?_eq_expected? hc, ?_⟩
  intro n hn
  obtain ⟨b, hb, -⟩ := hm.base_of_mem hc hn
  cases hb

/-- Two rules have the class `Num`, and `Op` is given two bases. -/
theorem declares_expected_of_two_rules :
    ∃ p, ofGrammar ⟨.python, ⟨"ast", "Node"⟩, none, false⟩
        ⟨"calc", [⟨"num", [.string "Num::Left"], .void⟩,
          ⟨"add", [.string "Add::Op::Left"], .void⟩, ⟨"sub", [.string "Sub::Op::list"], .void⟩,
          ⟨"int", [.string "Num::Op"], .bind false "value" .void⟩]⟩ = .ok p ∧
      p.classNames.Nodup ∧ "Left" ∈ p.classNames ∧ p.decl? "list" = none ∧
      p.decl? "Num" = some (.rule "Num" "Op" "int" ["value"]) ∧
      p.decl? "Op" = some (.base "Op" (some "ModelBase")) ∧ .base "Op" none ∉ p.decls := by
  have h : ofGrammar ⟨.python, ⟨"ast", "Node"⟩, none, false⟩
      ⟨"calc", [⟨"num", [.string "Num::Left"], .void⟩,
        ⟨"add", [.string "Add::Op::Left"], .void⟩, ⟨"sub", [.string "Sub::Op::list"], .void⟩,
        ⟨"int", [.string "Num::Op"], .bind false "value" .void⟩]⟩ =
      .ok ⟨"calc", ⟨"ast", "Node"⟩, [.base "ModelBase" (some "Node"),
        .base "Left" (some "ModelBase"), .base "Op" (some "ModelBase"),
        .rule "Add" "Op" "add" [], .rule "Sub" "Op" "sub" [],
        .rule "Num" "Op" "int" ["value"]]⟩ := by decide +kernel
  obtain ⟨hnodup, hmem, hdecl, hbase⟩ := declares_expected h
  refine ⟨_, h, hnodup, (hmem "Left").mpr (by decide +kernel), ?_, ?_, ?_, hbase "Op"⟩
  · exact (hdecl "list").trans (by decide +kernel)
  · exact (hdecl "Num").trans (by decide +kernel)
  · exact (hdecl "Op").trans (by decide +kernel)

end Plan

end RuleClasses
