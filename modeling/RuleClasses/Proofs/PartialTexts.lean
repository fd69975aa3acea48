import RuleClasses.Proofs.JsonTexts

/-! Texts up to a place inside lists and objects. Such a text tells what stands in front of the
place. Whatever follows behind a value there, well written or not, the tree of the whole text
holds the value at that place, behind all that stands in front of it. -/

namespace RuleClasses.Json

/-! ## Texts up to a place -/

/-- A text of a value with this tree: wherever a value may stand, it is read as the tree, if nothing
follows that would make a number at its end longer. -/
def Tree.HasText (t : Tree) (s : List Char) : Prop :=
  ∀ rest, EndsNumber rest → ∃ tok ts, tokens (s ++ rest) = tok :: ts ∧ tok.Opens ∧
    ∀ around, (State.start tok around).run ts = (State.give t around).run (tokens rest)

theorem Spelling.hasText {j : Json} {s : List Char} (h : Spelling j s) : j.tree.HasText s :=
  fun _ hrest => h.leads hrest

/-- Items with a comma behind each of them. -/
inductive ItemsUpTo : List Tree → List Char → Prop where
  | nil : ItemsUpTo [] []
  | cons {t : Tree} {items : List Tree} {a s b r : List Char} : Space a → t.HasText s → Space b →
      ItemsUpTo items r → ItemsUpTo (t :: items) (a ++ (s ++ (b ++ ',' :: r)))

/-- Entries with a comma behind each of them. -/
inductive EntriesUpTo : List (Key × Tree) → List Char → Prop where
  | nil : EntriesUpTo [] []
  | cons {k : String} {t : Tree} {entries : List (Key × Tree)} {a u b c s d r : List Char} :
      Space a → StringSpelling k u → Space b → Space c → t.HasText s → Space d →
      EntriesUpTo entries r →
      EntriesUpTo ((.ok k, t) :: entries)
        (a ++ (u ++ (b ++ ':' :: (c ++ (s ++ (d ++ ',' :: r))))))

/-- A text up to a value, with the lists and objects that are open there. -/
inductive TextUpTo : List Frame → List Char → Prop where
  | start {a : List Char} : Space a → TextUpTo [] a
  | item {around : List Frame} {items : List Tree} {s r a : List Char} : TextUpTo around s →
      ItemsUpTo items r → Space a →
      TextUpTo (.item items.reverse :: around) (s ++ '[' :: (r ++ a))
  | member {around : List Frame} {entries : List (Key × Tree)} {k : String}
      {s r a u b c : List Char} : TextUpTo around s → EntriesUpTo entries r → Space a →
      StringSpelling k u → Space b → Space c →
      TextUpTo (.member entries.reverse (.ok k) :: around)
        (s ++ '\x7b' :: (r ++ (a ++ (u ++ (b ++ ':' :: c)))))

theorem ItemsUpTo.run {items : List Tree} {s : List Char} (h : ItemsUpTo items s) (first : Bool)
    (before : List Tree) (around : List Frame) (rest : List Char) :
    ∃ first', (State.item first before around).run (tokens (s ++ rest)) =
      (State.item first' (items.reverse ++ before) around).run (tokens rest) := by
  induction h generalizing first before with
  | nil => exact ⟨first, rfl⟩
  | @cons t items a s b r ha hs hb _ ih =>
    have hend : EndsNumber (b ++ ',' :: (r ++ rest)) := .space hb (.of_cons (.inl rfl))
    obtain ⟨tok, ts, htokens, hopens, hrun⟩ := hs _ hend
    obtain ⟨first', hrest⟩ := ih false (t :: before)
    refine ⟨first', ?_⟩
    simp only [List.append_assoc, List.cons_append]
    rw [tokens_space ha, htokens, run_cons, hopens, hrun, tokens_space hb, tokens_comma, run_cons]
    exact hrest.trans (by simp)

theorem EntriesUpTo.run {entries : List (Key × Tree)} {s : List Char} (h : EntriesUpTo entries s)
    (first : Bool) (before : List (Key × Tree)) (around : List Frame) (rest : List Char) :
    ∃ first', (State.key first before around).run (tokens (s ++ rest)) =
      (State.key first' (entries.reverse ++ before) around).run (tokens rest) := by
  induction h generalizing first before with
  | nil => exact ⟨first, rfl⟩
  | @cons k t entries a u b c s d r ha hu hb hc hs hd _ ih =>
    have hend : EndsNumber (d ++ ',' :: (r ++ rest)) := .space hd (.of_cons (.inl rfl))
    obtain ⟨tok, ts, htokens, -, hrun⟩ := hs _ hend
    obtain ⟨first', hrest⟩ := ih false ((.ok k, t) :: before)
    refine ⟨first', ?_⟩
    simp only [List.append_assoc, List.cons_append]
    rw [tokens_space ha, hu.tokens, run_cons, tokens_space hb, tokens_colon, run_cons,
      tokens_space hc, htokens, run_cons]
    refine (hrun (.member before (.ok k) :: around)).trans ?_
    rw [tokens_space hd, tokens_comma]
    exact hrest.trans (by simp)

/-- From the front of a text to the place inside it. -/
theorem TextUpTo.run {around : List Frame} {s rest : List Char} {tok : Token} {ts : List Token}
    (h : TextUpTo around s) (hrest : tokens rest = tok :: ts) (hopens : tok.Opens) :
    (State.value []).run (tokens (s ++ rest)) = (State.start tok around).run ts := by
  induction h generalizing rest tok ts with
  | start ha => rw [tokens_space ha, hrest]; rfl
  | @item around items s r a _ hr ha ih =>
    obtain ⟨first, hrun⟩ := hr.run true [] around (a ++ rest)
    simp only [List.append_assoc, List.cons_append]
    rw [ih (tokens_openList _) fun _ _ _ => rfl]
    refine hrun.trans ?_
    rw [tokens_space ha, hrest, run_cons, hopens, List.append_nil]
  | @member around entries k s r a u b c _ hr ha hu hb hc ih =>
    obtain ⟨first, hrun⟩ := hr.run true [] around (a ++ (u ++ (b ++ ':' :: (c ++ rest))))
    simp only [List.append_assoc, List.cons_append]
    rw [ih (tokens_openObject _) fun _ _ _ => rfl]
    refine hrun.trans ?_
    rw [tokens_space ha, hu.tokens, run_cons, tokens_space hb, tokens_colon, run_cons,
      tokens_space hc, hrest, List.append_nil]
    rfl

/-! ## What was read stays -/

/-- A tree with a part that stands inside the given lists and objects, behind what was read of
them. -/
inductive Fills : List Frame → Tree → Tree → Prop where
  | here {t : Tree} : Fills [] t t
  | item {around : List Frame} {items more : List Tree} {close : Close} {t whole : Tree} :
      Fills around (.list (items.reverse ++ t :: more) close) whole →
      Fills (.item items :: around) t whole
  | member {around : List Frame} {entries more : List (Key × Tree)} {k : Key} {close : Close}
      {t whole : Tree} : Fills around (.object (entries.reverse ++ (k, t) :: more) close) whole →
      Fills (.member entries k :: around) t whole

/-- The tree holds what was read up to a place. -/
def State.Leaves (whole : Tree) : State → Prop
  | .done t => whole = t
  | .value around => ∃ t, Fills around t whole
  | .item _ items around | .afterItem items around =>
    ∃ more close, Fills around (.list (items.reverse ++ more) close) whole
  | .key _ entries around | .colon entries _ around | .afterMember entries around =>
    ∃ more close, Fills around (.object (entries.reverse ++ more) close) whole

section

variable {around : List Frame} {t whole : Tree} {st : State}

theorem Fills.of_items {items more : List Tree} {close : Close}
    (h : Fills around (.list ((t :: items).reverse ++ more) close) whole) :
    Fills (.item items :: around) t whole := by
  rw [List.reverse_cons, List.append_assoc] at h
  exact .item h

theorem Fills.of_entries {entries more : List (Key × Tree)} {k : Key} {close : Close}
    (h : Fills around (.object (((k, t) :: entries).reverse ++ more) close) whole) :
    Fills (.member entries k :: around) t whole := by
  rw [List.reverse_cons, List.append_assoc] at h
  exact .member h

theorem fills_cutOff (t : Tree) (around : List Frame) : Fills around t (cutOff t around) := by
  induction around generalizing t with
  | nil => exact .here
  | cons frame around ih =>
    cases frame with
    | item items =>
      have h : Fills around (.list ((t :: items).reverse ++ []) .ended)
          (cutOff (.list (t :: items).reverse .ended) around) := by
        rw [List.append_nil]
        exact ih _
      exact h.of_items
    | member entries k =>
      have h : Fills around (.object (((k, t) :: entries).reverse ++ []) .ended)
          (cutOff (.object ((k, t) :: entries).reverse .ended) around) := by
        rw [List.append_nil]
        exact ih _
      exact h.of_entries

theorem Fills.exists_more_items {items : List Tree} {close : Close}
    (h : Fills around (listOf items close) whole) :
    ∃ more close', Fills around (.list (items.reverse ++ more) close') whole :=
  ⟨[], close, by rwa [List.append_nil]⟩

theorem Fills.exists_more_entries {entries : List (Key × Tree)} {close : Close}
    (h : Fills around (objectOf entries close) whole) :
    ∃ more close', Fills around (.object (entries.reverse ++ more) close') whole :=
  ⟨[], close, by rwa [List.append_nil]⟩

theorem leaves_finish (st : State) : st.Leaves st.finish := by
  cases st with
  | done => rfl
  | value around => exact ⟨.absent, fills_cutOff _ around⟩
  | item first => cases first <;> exact (fills_cutOff _ _).exists_more_items
  | afterItem => exact (fills_cutOff _ _).exists_more_items
  | key first => cases first <;> exact (fills_cutOff _ _).exists_more_entries
  | colon | afterMember => exact (fills_cutOff _ _).exists_more_entries

theorem fills_of_leaves_give (h : (State.give t around).Leaves whole) : Fills around t whole := by
  match around, h with
  | [], h => cases h; exact .here
  | .item items :: around, ⟨more, close, h⟩ => exact h.of_items
  | .member entries k :: around, ⟨more, close, h⟩ => exact h.of_entries

theorem fills_of_leaves_start {tok : Token} (h : (State.start tok around).Leaves whole) :
    ∃ t, Fills around t whole := by
  cases tok with
  | openList | openObject =>
    obtain ⟨more, close, h⟩ := h
    exact ⟨_, h⟩
  | null | bool | number | string => exact ⟨_, fills_of_leaves_give h⟩
  | closeList | closeObject | comma | colon | broken | brokenString =>
    cases h
    exact ⟨_, fills_cutOff _ around⟩

theorem step_item {tok : Token} (h : tok ≠ .closeList) (first : Bool) (items : List Tree)
    (around : List Frame) :
    (State.item first items around).step tok = State.start tok (.item items :: around) := by
  cases tok with
  | closeList => exact absurd rfl h
  | _ => rfl

/-- Nothing that was read before a token is lost behind it. -/
theorem leaves_of_leaves_step {tok : Token} (h : (st.step tok).Leaves whole) : st.Leaves whole := by
  cases st with
  | done => exact h
  | value around => exact fills_of_leaves_start h
  | item first items around =>
    by_cases htok : tok = .closeList
    · subst htok
      cases first with
      | true => exact (fills_of_leaves_give h).exists_more_items
      | false => cases h; exact (fills_cutOff _ around).exists_more_items
    · rw [step_item htok] at h
      obtain ⟨t, hfills⟩ := fills_of_leaves_start h
      cases hfills with
      | item h => exact ⟨_, _, h⟩
  | afterItem items around =>
    cases tok with
    | comma => exact h
    | closeList => exact (fills_of_leaves_give h).exists_more_items
    | _ => cases h; exact (fills_cutOff _ around).exists_more_items
  | key first entries around =>
    cases tok with
    | closeObject =>
      cases first with
      | true => exact (fills_of_leaves_give h).exists_more_entries
      | false => cases h; exact (fills_cutOff _ around).exists_more_entries
    | string => exact h
    | _ => cases h; exact (fills_cutOff _ around).exists_more_entries
  | colon entries k around =>
    cases tok with
    | colon =>
      obtain ⟨t, hfills⟩ := h
      cases hfills with
      | member h => exact ⟨_, _, h⟩
    | _ => cases h; exact (fills_cutOff _ around).exists_more_entries
  | afterMember entries around =>
    cases tok with
    | comma => exact h
    | closeObject => exact (fills_of_leaves_give h).exists_more_entries
    | _ => cases h; exact (fills_cutOff _ around).exists_more_entries

theorem leaves_run (st : State) (ts : List Token) : st.Leaves (st.run ts).finish := by
  induction ts generalizing st with
  | nil => exact leaves_finish st
  | cons tok ts ih => exact leaves_of_leaves_step (ih (st.step tok))

end

/-- Whatever follows behind an object, it stays where it stands in the text. -/
theorem TextUpTo.fills {around : List Frame} {head body : List Char}
    {entries : List (String × Json)} (h : TextUpTo around head)
    (hbody : EntriesSpelling entries body) (tail : List Char) :
    Fills around (tree (.object entries))
      (Tree.ofChars (head ++ '\x7b' :: (body ++ '\x7d' :: tail))) := by
  have hstart := h.run (tokens_openObject (body ++ '\x7d' :: tail)) fun _ _ _ => rfl
  have hgive := hbody.run tail true [] around
  rw [List.append_nil, objectOf, List.reverse_reverse] at hgive
  rw [Tree.ofChars, hstart, State.start, hgive]
  exact fills_of_leaves_give (leaves_run _ (tokens tail))

end RuleClasses.Json
