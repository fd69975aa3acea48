import RuleClasses.Proofs.JsonDepth

/-! Values on many lines. What the printer writes is a text of the value, with white space where
a line ends, and no text has two values. -/

namespace RuleClasses.Json

/-! ## Many lines -/

theorem space_lineBreak (level : Nat) : Space (lineBreak level) := by
  refine List.forall_mem_cons.mpr ⟨by decide, fun c hc => ?_⟩
  rw [List.eq_of_mem_replicate hc]
  decide

theorem space_blank : Space [' '] := List.forall_mem_singleton.mpr (by decide)

mutual

theorem spelling_prettyChars (level : Nat) (j : Json) (hrange : j.EachNumber Number.InRange)
    (hint : j.EachNumber Number.IsInt) : Spelling j (prettyChars level j) := by
  match j with
  | .null => exact .null
  | .bool true => exact .true
  | .bool false => exact .false
  | .number (.int n) => exact .int hrange
  | .number (.double x) => exact hint.elim
  | .string s => exact .string (stringSpelling_stringChars s)
  | .list [] => exact .noItems space_nil
  | .list (j :: rest) =>
    exact .list (itemsSpelling_prettyItems (level + 1) (j :: rest) (List.cons_ne_nil j rest)
      hrange hint (space_lineBreak level))
  | .object [] => exact .noEntries space_nil
  | .object (e :: rest) =>
    exact .object (entriesSpelling_prettyEntries (level + 1) (e :: rest) (List.cons_ne_nil e rest)
      hrange hint (space_lineBreak level))

/-- The line that ends behind the last item belongs to the text of the items. -/
theorem itemsSpelling_prettyItems (level : Nat) (items : List Json) (hne : items ≠ [])
    (hrange : EachNumberOfItems Number.InRange items)
    (hint : EachNumberOfItems Number.IsInt items) {b : List Char} (hb : Space b) :
    ItemsSpelling items (prettyItems level items ++ b) := by
  match items with
  | [j] =>
    have hlast := ItemsSpelling.last (space_lineBreak level)
      (spelling_prettyChars level j hrange.1 hint.1) hb
    rwa [← List.append_assoc] at hlast
  | j :: i :: rest =>
    have hmore := ItemsSpelling.more (space_lineBreak level)
      (spelling_prettyChars level j hrange.1 hint.1) space_nil
      (itemsSpelling_prettyItems level (i :: rest) (List.cons_ne_nil i rest) hrange.2 hint.2 hb)
    simpa [prettyItems] using hmore

theorem entriesSpelling_prettyEntries (level : Nat) (entries : List (String × Json))
    (hne : entries ≠ []) (hrange : EachNumberOfEntries Number.InRange entries)
    (hint : EachNumberOfEntries Number.IsInt entries) {d : List Char} (hd : Space d) :
    EntriesSpelling entries (prettyEntries level entries ++ d) := by
  match entries with
  | [(k, j)] =>
    have hlast := EntriesSpelling.last (space_lineBreak level) (stringSpelling_stringChars k)
      space_nil space_blank (spelling_prettyChars level j hrange.1 hint.1) hd
    simpa [prettyEntries] using hlast
  | (k, j) :: e :: rest =>
    have hmore := EntriesSpelling.more (space_lineBreak level) (stringSpelling_stringChars k)
      space_nil space_blank (spelling_prettyChars level j hrange.1 hint.1) space_nil
      (entriesSpelling_prettyEntries level (e :: rest) (List.cons_ne_nil e rest) hrange.2 hint.2 hd)
    simpa [prettyEntries] using hmore

end

variable {j k : Json} {t : String}

theorem isText_pretty (hrange : j.EachNumber Number.InRange) (hint : j.EachNumber Number.IsInt) :
    j.IsText j.pretty :=
  ⟨[], prettyChars 0 j, [], space_nil, spelling_prettyChars 0 j hrange hint, space_nil,
    by simp [pretty]⟩

theorem IsText.append_space (h : j.IsText t) {s : String} (hs : Space s.toList) :
    j.IsText (t ++ s) := by
  obtain ⟨a, u, b, ha, hu, hb, ht⟩ := h
  exact ⟨a, u, b ++ s.toList, ha, hu, fun c hc => (List.mem_append.mp hc).elim (hb c) (hs c),
    by simp [ht]⟩

/-! ## One value for a text -/

theorem tree_injective : Function.Injective tree := by
  intro j k h
  have hj := read_tree j (Nat.le_max_left j.depth k.depth)
  have hk := read_tree k (Nat.le_max_right j.depth k.depth)
  rw [h, hk] at hj
  exact (Except.ok.inj hj).symm

theorem IsText.unique (hj : j.IsText t) (hk : k.IsText t) : j = k :=
  tree_injective (hj.ofChars.symm.trans hk.ofChars)

/-- A value can be read back from its text, as no other value has this text. -/
theorem IsText.iff_eq (h : j.IsText t) : k.IsText t ↔ k = j :=
  ⟨fun hk => hk.unique h, fun hk => hk ▸ h⟩

theorem space_newline : Space "\n".toList := by
  change Space ['\n']
  exact List.forall_mem_singleton.mpr (by decide)

theorem IsText.line_iff_eq (h : j.IsText t) : k.IsText (t ++ "\n") ↔ k = j :=
  (h.append_space space_newline).iff_eq

end RuleClasses.Json
