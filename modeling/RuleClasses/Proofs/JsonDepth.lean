import RuleClasses.Json.Printer
import RuleClasses.Json.Reading
import RuleClasses.Proofs.JsonTexts

/-! How deep a value is nested. A tree is read where there is room for its depth, and what the
printer writes is one of the texts of a value. -/

namespace RuleClasses.Json

mutual

/-- How many lists and objects stand inside one another. -/
def depth : Json → Nat
  | .list items => itemsDepth items + 1
  | .object entries => entriesDepth entries + 1
  | _ => 0

def itemsDepth : List Json → Nat
  | [] => 0
  | j :: rest => max (depth j) (itemsDepth rest)

def entriesDepth : List (String × Json) → Nat
  | [] => 0
  | (_, j) :: rest => max (depth j) (entriesDepth rest)

end

theorem itemsDepth_le {items : List Json} {n : Nat} :
    itemsDepth items ≤ n ↔ ∀ j ∈ items, j.depth ≤ n := by
  induction items with
  | nil => simp [itemsDepth]
  | cons j rest ih => rw [itemsDepth, Nat.max_le, ih, List.forall_mem_cons]

theorem entriesDepth_le {entries : List (String × Json)} {n : Nat} :
    entriesDepth entries ≤ n ↔ ∀ x ∈ entries, x.2.depth ≤ n := by
  induction entries with
  | nil => simp [entriesDepth]
  | cons x rest ih => rw [entriesDepth, Nat.max_le, ih, List.forall_mem_cons]

/-! ## Trees without faults are read -/

mutual

theorem pass_tree (j : Json) : j.tree.pass = .ok () := by
  match j with
  | .null | .bool _ | .number _ | .string _ => rfl
  | .list items => rw [tree, Tree.pass, pass_itemTrees items]; rfl
  | .object entries => rw [tree, Tree.pass, pass_entryTrees entries]; rfl

theorem pass_itemTrees (items : List Json) : passItems (itemTrees items) = .ok () := by
  match items with
  | [] => rfl
  | j :: rest => rw [itemTrees, passItems, pass_tree j]; exact pass_itemTrees rest

theorem pass_entryTrees (entries : List (String × Json)) :
    passEntries (entryTrees entries) = .ok () := by
  match entries with
  | [] => rfl
  | (k, j) :: rest => rw [entryTrees, passEntries, pass_tree j]; exact pass_entryTrees rest

end

mutual

theorem read_tree {room : Nat} (j : Json) (h : j.depth ≤ room) : j.tree.read room = .ok j := by
  match j, room with
  | .null, _ | .bool _, _ | .number _, _ | .string _, _ => rfl
  | .list items, room + 1 =>
    rw [tree, Tree.read, readItems_itemTrees 0 items (Nat.le_of_succ_le_succ h)]
    rfl
  | .object entries, room + 1 =>
    rw [tree, Tree.read, readEntries_entryTrees entries (Nat.le_of_succ_le_succ h)]
    rfl

theorem readItems_itemTrees {room : Nat} (index : Nat) (items : List Json)
    (h : itemsDepth items ≤ room) : readItems room index (itemTrees items) = .ok items := by
  match items with
  | [] => rfl
  | j :: rest =>
    rw [itemsDepth, Nat.max_le] at h
    rw [itemTrees, readItems, read_tree j h.1, readItems_itemTrees (index + 1) rest h.2]
    rfl

theorem readEntries_entryTrees {room : Nat} (entries : List (String × Json))
    (h : entriesDepth entries ≤ room) :
    readEntries room (entryTrees entries) = .ok entries := by
  match entries with
  | [] => rfl
  | (k, j) :: rest =>
    rw [entriesDepth, Nat.max_le] at h
    rw [entryTrees, readEntries, read_tree j h.1, readEntries_entryTrees rest h.2]
    rfl

end

/-! ## Printed values are texts of them -/

mutual

/-- What holds of every number in a value. -/
def EachNumber (P : Number → Prop) : Json → Prop
  | .number n => P n
  | .list items => EachNumberOfItems P items
  | .object entries => EachNumberOfEntries P entries
  | _ => True

def EachNumberOfItems (P : Number → Prop) : List Json → Prop
  | [] => True
  | j :: rest => EachNumber P j ∧ EachNumberOfItems P rest

def EachNumberOfEntries (P : Number → Prop) : List (String × Json) → Prop
  | [] => True
  | (_, j) :: rest => EachNumber P j ∧ EachNumberOfEntries P rest

end

theorem eachNumberOfItems_iff {P : Number → Prop} {items : List Json} :
    EachNumberOfItems P items ↔ ∀ j ∈ items, j.EachNumber P := by
  induction items with
  | nil => simp [EachNumberOfItems]
  | cons j rest ih => rw [EachNumberOfItems, ih, List.forall_mem_cons]

theorem eachNumberOfEntries_iff {P : Number → Prop} {entries : List (String × Json)} :
    EachNumberOfEntries P entries ↔ ∀ x ∈ entries, x.2.EachNumber P := by
  induction entries with
  | nil => simp [EachNumberOfEntries]
  | cons x rest ih => rw [EachNumberOfEntries, ih, List.forall_mem_cons]

def Number.IsInt : Number → Prop
  | .int _ => True
  | .double _ => False

/-- An integer is one that is not read as a double. -/
def Number.InRange : Number → Prop
  | .int n => Fits n
  | .double _ => True

theorem hexValue?_digitChar : ∀ d < 16, hexValue? (Nat.digitChar d) = some d := by decide

theorem charSpelling_stringChar (c : Char) : CharSpelling c (stringChar c) := by
  unfold stringChar
  split
  case h_8 =>
    split
    · rename_i h
      have hlt : c.toNat < 32 := h
      have hdigits := HexDigits.four (a := '0') (b := '0') rfl rfl
        (hexValue?_digitChar (c.toNat / 16) (by omega))
        (hexValue?_digitChar (c.toNat % 16) (by omega))
      have hn : ((('0'.toNat - '0'.toNat) * 16 + ('0'.toNat - '0'.toNat)) * 16 + c.toNat / 16) * 16
          + c.toNat % 16 = c.toNat := by omega
      rw [hn] at hdigits
      exact .unit hdigits
    · exact .plain ‹_› ‹_› ‹_›
  all_goals exact .short (by decide)

theorem charsSpelling_flatMap (v : List Char) : CharsSpelling v (v.flatMap stringChar) := by
  induction v with
  | nil => exact .nil
  | cons c v ih => exact .cons (charSpelling_stringChar c) ih

theorem stringSpelling_stringChars (v : String) : StringSpelling v (stringChars v) :=
  .quoted (charsSpelling_flatMap v.toList)

theorem space_nil : Space [] := nofun

mutual

theorem spelling_chars (j : Json) (hrange : j.EachNumber Number.InRange)
    (hint : j.EachNumber Number.IsInt) : Spelling j j.chars := by
  match j with
  | .null => exact .null
  | .bool true => exact .true
  | .bool false => exact .false
  | .number (.int n) => exact .int hrange
  | .number (.double x) => exact hint.elim
  | .string s => exact .string (stringSpelling_stringChars s)
  | .list items =>
    by_cases hne : items = []
    · subst hne; exact .noItems space_nil
    · exact .list (itemsSpelling_itemsChars items hne hrange hint)
  | .object entries =>
    by_cases hne : entries = []
    · subst hne; exact .noEntries space_nil
    · exact .object (entriesSpelling_entriesChars entries hne hrange hint)

theorem itemsSpelling_itemsChars (items : List Json) (hne : items ≠ [])
    (hrange : EachNumberOfItems Number.InRange items)
    (hint : EachNumberOfItems Number.IsInt items) :
    ItemsSpelling items (itemsChars items) := by
  match items with
  | [j] =>
    have hlast := ItemsSpelling.last space_nil (spelling_chars j hrange.1 hint.1) space_nil
    rwa [List.nil_append, List.append_nil] at hlast
  | j :: i :: rest =>
    exact .more space_nil (spelling_chars j hrange.1 hint.1) space_nil
      (itemsSpelling_itemsChars (i :: rest) (List.cons_ne_nil i rest) hrange.2 hint.2)

theorem entriesSpelling_entriesChars (entries : List (String × Json)) (hne : entries ≠ [])
    (hrange : EachNumberOfEntries Number.InRange entries)
    (hint : EachNumberOfEntries Number.IsInt entries) :
    EntriesSpelling entries (entriesChars entries) := by
  match entries with
  | [(k, j)] =>
    have hlast := EntriesSpelling.last space_nil (stringSpelling_stringChars k) space_nil space_nil
      (spelling_chars j hrange.1 hint.1) space_nil
    simpa [entriesChars] using hlast
  | (k, j) :: e :: rest =>
    have hmore := EntriesSpelling.more space_nil (stringSpelling_stringChars k) space_nil space_nil
      (spelling_chars j hrange.1 hint.1) space_nil
      (entriesSpelling_entriesChars (e :: rest) (List.cons_ne_nil e rest) hrange.2 hint.2)
    simpa [entriesChars] using hmore

end

theorem isText_text {j : Json} (hrange : j.EachNumber Number.InRange)
    (hint : j.EachNumber Number.IsInt) : j.IsText j.text :=
  ⟨[], j.chars, [], space_nil, spelling_chars j hrange hint, space_nil, by simp [text]⟩

end RuleClasses.Json
