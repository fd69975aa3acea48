import RuleClasses.Files.Path
import Mathlib.Data.List.Infix
import Mathlib.Data.List.TakeWhile

/-! The parts of a path, of the path around it, and of a name joined to it. -/

namespace RuleClasses.Files.Path

/-- The parts of a path that is given by its characters. -/
def partsOf (s : List Char) : List String :=
  ((Text.splitOnChar '/' s).map String.ofList).filter (· ≠ "")

theorem parts_eq (p : String) : parts p = partsOf p.toList := rfl

theorem partsOf_append (a b : List Char) : partsOf (a ++ '/' :: b) = partsOf a ++ partsOf b := by
  rw [partsOf, Text.splitOnChar_append, List.map_append, List.filter_append]
  rfl

theorem partsOf_name {s : List Char} (hs : s ≠ []) (h : '/' ∉ s) :
    partsOf s = [String.ofList s] := by
  have hne : String.ofList s ≠ "" := by simpa using hs
  rw [partsOf, Text.splitOnChar_of_notMem h]
  simp [hne]

theorem partsOf_slash (a : List Char) : partsOf (a ++ ['/']) = partsOf a := by
  rw [partsOf_append]
  exact List.append_nil _

/-! ## The path around a path -/

theorem trimEnd_suffix (s : List Char) : trimEnd s <:+ s := by
  fun_induction trimEnd s with
  | case1 => exact List.suffix_refl _
  | case2 rest _ ih => exact ih.trans (List.suffix_cons _ _)
  | case3 rest ih => exact ih.trans (List.suffix_cons _ _)
  | case4 => exact List.suffix_refl _

/-- Nothing but slashes and dots goes when a path, read from its end, is trimmed. -/
theorem partsOf_trimEnd (s : List Char) :
    ∃ dots, partsOf s.reverse = partsOf (trimEnd s).reverse ++ dots := by
  fun_induction trimEnd s with
  | case1 => exact ⟨[], (List.append_nil _).symm⟩
  | case2 rest _ ih =>
    obtain ⟨dots, hdots⟩ := ih
    exact ⟨dots, by rw [List.reverse_cons, partsOf_slash, hdots]⟩
  | case3 rest ih =>
    obtain ⟨dots, hdots⟩ := ih
    refine ⟨dots ++ ["."], ?_⟩
    rw [List.reverse_cons, partsOf_slash] at hdots
    rw [List.reverse_cons, List.reverse_cons, List.append_assoc, List.singleton_append,
      partsOf_append, hdots, List.append_assoc]
    rfl
  | case4 => exact ⟨[], (List.append_nil _).symm⟩

theorem dropWhile_of_notMem {s : List Char} (h : '/' ∉ s) : s.dropWhile (· ≠ '/') = [] :=
  List.dropWhile_eq_nil_iff.mpr fun c hc => by
    simpa using fun he : c = '/' => h (he ▸ hc)

theorem dropWhile_append_slash {s : List Char} (h : '/' ∉ s) (u : List Char) :
    (s ++ '/' :: u).dropWhile (· ≠ '/') = '/' :: u := by
  rw [List.dropWhile_append, dropWhile_of_notMem h]
  simp

theorem partsOf_dropPart {s : List Char} (hhead : s.head? ≠ some '/') :
    partsOf (dropPart s).reverse <+: (partsOf s.reverse).dropLast := by
  by_cases hslash : '/' ∈ s
  · obtain ⟨name, u, rfl, hname⟩ := List.eq_append_cons_of_mem hslash
    have hne : name ≠ [] := by
      rintro rfl
      exact hhead rfl
    have hlast : partsOf name.reverse = [String.ofList name.reverse] :=
      partsOf_name (by simpa using hne) (by simpa using hname)
    obtain ⟨dots, hdots⟩ := partsOf_trimEnd ('/' :: u)
    rw [List.reverse_cons, partsOf_slash] at hdots
    rw [dropPart, dropWhile_append_slash hname, List.reverse_append, List.reverse_cons,
      List.append_assoc, List.singleton_append, partsOf_append, hlast, List.dropLast_concat, hdots]
    exact List.prefix_append _ _
  · rw [dropPart, dropWhile_of_notMem hslash]
    exact List.nil_prefix

/-- The path around a path, by its characters read from the end. -/
theorem parent?_eq_some {p q : String} (h : parent? p = some q) :
    trimEnd p.toList.reverse ≠ [] ∧ (trimEnd p.toList.reverse).head? ≠ some '/' ∧
      q = String.ofList (dropPart (trimEnd p.toList.reverse)).reverse := by
  unfold parent? at h
  split at h
  · cases h
  · cases h
  · rename_i hne hroot
    refine ⟨hne, fun hhead => ?_, (Option.some.inj h).symm⟩
    cases hs : trimEnd p.toList.reverse with
    | nil => exact hne hs
    | cons c rest =>
      rw [hs] at hhead
      obtain rfl : c = '/' := Option.some.inj hhead
      rw [trimEnd_head hs] at hs
      exact hroot hs

theorem parts_parent? {p q : String} (h : parent? p = some q) :
    parts q <+: (parts p).dropLast := by
  obtain ⟨-, hhead, rfl⟩ := parent?_eq_some h
  obtain ⟨dots, hdots⟩ := partsOf_trimEnd p.toList.reverse
  rw [List.reverse_reverse] at hdots
  rw [parts_eq, parts_eq, hdots, String.toList_ofList]
  refine (partsOf_dropPart hhead).trans ?_
  cases dots with
  | nil => rw [List.append_nil]
  | cons dot dots =>
    rw [List.dropLast_append_cons]
    exact (List.dropLast_prefix _).trans (List.prefix_append _ _)

theorem isAbsolute_parent? {p q : String} (h : parent? p = some q) (hq : q ≠ "") :
    isAbsolute q = isAbsolute p := by
  obtain ⟨-, -, rfl⟩ := parent?_eq_some h
  have hsuffix : dropPart (trimEnd p.toList.reverse) <:+ p.toList.reverse :=
    (trimEnd_suffix _).trans ((List.dropWhile_suffix _).trans (trimEnd_suffix _))
  have hprefix := List.reverse_prefix.mpr hsuffix
  rw [List.reverse_reverse] at hprefix
  obtain ⟨rest, hrest⟩ := hprefix
  have hne : (dropPart (trimEnd p.toList.reverse)).reverse ≠ [] := fun he => hq (by rw [he])
  have hhead : p.toList.head? = (dropPart (trimEnd p.toList.reverse)).reverse.head? := by
    conv_lhs => rw [← hrest, List.head?_append_of_ne_nil _ hne]
  rw [isAbsolute, isAbsolute, String.toList_ofList, hhead]

/-! ## A name in a directory -/

/-- What can be the name of a file, and is not the end of a longer path. -/
structure IsName (name : String) : Prop where
  slash : '/' ∉ name.toList
  last : ∃ c ∈ name.toList.getLast?, c ≠ '.'

theorem IsName.ne_nil {name : String} (h : IsName name) : name.toList ≠ [] := by
  obtain ⟨c, hc, -⟩ := h.last
  intro he
  rw [he] at hc
  cases hc

theorem IsName.ne_here {name : String} (h : IsName name) : name ≠ "." := by
  obtain ⟨c, hc, hdot⟩ := h.last
  rintro rfl
  exact hdot (Option.some.inj hc).symm

theorem IsName.ne_up {name : String} (h : IsName name) : name ≠ ".." := by
  obtain ⟨c, hc, hdot⟩ := h.last
  rintro rfl
  exact hdot (Option.some.inj hc).symm

/-- What stands in front of a name that is joined to a path. -/
def joinFront (base : String) : List Char :=
  if base = "" ∨ endsInSlash base then base.toList else base.toList ++ ['/']

theorem isAbsolute_eq_false {name : String} (h : '/' ∉ name.toList) : isAbsolute name = false :=
  decide_eq_false fun he => h (List.mem_of_head? he)

theorem toList_join {name : String} (h : isAbsolute name = false) (base : String) :
    (join base name).toList = joinFront base ++ name.toList := by
  by_cases hbase : base = ""
  · simp [join, joinFront, hbase]
  · by_cases hslash : endsInSlash base <;> simp [join, joinFront, h, hbase, hslash]

theorem joinFront_eq (base : String) :
    joinFront base = [] ∨ ∃ front, joinFront base = front ++ ['/'] := by
  unfold joinFront
  split
  · rename_i h
    rcases h with rfl | h
    · exact .inl rfl
    · unfold endsInSlash at h
      exact .inr ⟨_, (List.dropLast_append_getLast? '/' (by simpa using h)).symm⟩
  · exact .inr ⟨_, rfl⟩

theorem partsOf_joinFront (base : String) : partsOf (joinFront base) = parts base := by
  unfold joinFront
  split
  · rfl
  · exact partsOf_slash base.toList

/-- What is joined to a path comes behind its parts. -/
theorem parts_join_append {name : String} (h : isAbsolute name = false) (base : String) :
    parts (join base name) = parts base ++ partsOf name.toList := by
  rw [parts_eq, toList_join h, ← partsOf_joinFront]
  rcases joinFront_eq base with hfront | ⟨front, hfront⟩
  · rw [hfront, List.nil_append]
    rfl
  · rw [hfront, List.append_assoc, List.singleton_append, partsOf_append, partsOf_slash]

/-- Two names with one ending are told apart by their parts, also where the ending is cut. -/
theorem partsOf_append_inj {a b s : List Char} (ha : '/' ∉ a) (hb : '/' ∉ b)
    (hs : ∃ c ∈ s.head?, c ≠ '/') (h : partsOf (a ++ s) = partsOf (b ++ s)) : a = b := by
  obtain ⟨c, hc, hne⟩ := hs
  obtain ⟨rest, rfl⟩ := List.head?_eq_some_iff.mp hc
  have hfirst {a t : List Char} (ha : '/' ∉ a) (ht : '/' ∉ c :: t) :
      partsOf (a ++ c :: t) = [String.ofList (a ++ c :: t)] :=
    partsOf_name (by simp) (fun hmem => (List.mem_append.mp hmem).elim ha ht)
  have hcut {t : List Char} (h : String.ofList (a ++ c :: t) = String.ofList (b ++ c :: t)) :
      a = b := List.append_cancel_right (String.ofList_injective h)
  by_cases hslash : '/' ∈ rest
  · obtain ⟨t, behind, rfl, ht⟩ := List.eq_append_cons_of_mem hslash
    have ht' : '/' ∉ c :: t := by simp [Ne.symm hne, ht]
    rw [← List.cons_append, ← List.append_assoc, ← List.append_assoc, partsOf_append,
      partsOf_append, hfirst ha ht', hfirst hb ht'] at h
    exact hcut (List.cons.inj h).1
  · have hrest : '/' ∉ c :: rest := by simp [Ne.symm hne, hslash]
    rw [hfirst ha hrest, hfirst hb hrest] at h
    exact hcut (List.cons.inj h).1

variable {name : String}

theorem parts_join (h : IsName name) (base : String) :
    parts (join base name) = parts base ++ [name] := by
  have hname := partsOf_name h.ne_nil h.slash
  rw [parts_join_append (isAbsolute_eq_false h.slash), hname, String.ofList_toList]

theorem endsInSlash_join (h : IsName name) (base : String) :
    endsInSlash (join base name) = false := by
  rw [endsInSlash, toList_join (isAbsolute_eq_false h.slash),
    List.getLast?_append_of_ne_nil _ h.ne_nil]
  have hne : name.toList.getLast? ≠ some '/' := fun he => h.slash (List.mem_of_getLast? he)
  simpa using hne

theorem trimEnd_name {c : Char} (hslash : c ≠ '/') (hdot : c ≠ '.') (s : List Char) :
    trimEnd (c :: s) = c :: s := by
  unfold trimEnd
  split <;> simp_all

/-- The path around a joined name does not depend on the name. -/
theorem parent?_join (h : IsName name) (base : String) :
    parent? (join base name) = some (String.ofList (trimEnd (joinFront base).reverse).reverse) := by
  obtain ⟨c, hc, hdot⟩ := h.last
  obtain ⟨init, hinit⟩ := List.getLast?_eq_some_iff.mp hc
  have hslash : '/' ∉ name.toList.reverse := by simpa using h.slash
  have hne : c ≠ '/' := fun he => h.slash (by rw [hinit, he]; simp)
  have hpath : (join base name).toList.reverse =
      name.toList.reverse ++ (joinFront base).reverse := by
    rw [toList_join (isAbsolute_eq_false h.slash), List.reverse_append]
  have htrim : trimEnd (name.toList.reverse ++ (joinFront base).reverse) =
      name.toList.reverse ++ (joinFront base).reverse := by
    rw [hinit, List.reverse_append, List.reverse_singleton, List.singleton_append, List.cons_append]
    exact trimEnd_name hne hdot _
  have hdrop : (name.toList.reverse ++ (joinFront base).reverse).dropWhile (· ≠ '/') =
      (joinFront base).reverse := by
    rcases joinFront_eq base with hfront | ⟨front, hfront⟩
    · rw [hfront, List.reverse_nil, List.append_nil, dropWhile_of_notMem hslash]
    · rw [hfront, List.reverse_append, List.reverse_singleton, List.singleton_append,
        dropWhile_append_slash hslash]
  rw [parent?, hpath, htrim]
  split
  · rename_i hnil
    simp [h.ne_nil] at hnil
  · rename_i hroot
    rw [hinit] at hroot
    simp [hne] at hroot
  · rw [dropPart, hdrop]

theorem isAbsolute_join (h : IsName name) (base : String) :
    isAbsolute (join base name) = isAbsolute base := by
  have hhead : (joinFront base ++ name.toList).head? = some '/' ↔ base.toList.head? = some '/' := by
    unfold joinFront
    cases hbase : base.toList with
    | nil =>
      have hempty : base = "" := by simpa using hbase
      have hname : name.toList.head? ≠ some '/' := fun he => h.slash (List.mem_of_head? he)
      simp [hempty, hname]
    | cons c rest => split <;> rfl
  rw [isAbsolute, isAbsolute, toList_join (isAbsolute_eq_false h.slash), decide_eq_decide]
  exact hhead

end RuleClasses.Files.Path
