import RuleClasses.Proofs.Spellings

/-! The texts of a JSON value: its parts in any spelling, with white space around them. All of
them have the same tree. -/

namespace RuleClasses.Json

/-- Only white space. -/
def Space (s : List Char) : Prop := ∀ c ∈ s, isSpace c = true

mutual

/-- The texts of a value, without white space around them. -/
inductive Spelling : Json → List Char → Prop where
  | null : Spelling .null ['n', 'u', 'l', 'l']
  | true : Spelling (.bool true) ['t', 'r', 'u', 'e']
  | false : Spelling (.bool false) ['f', 'a', 'l', 's', 'e']
  | int {n : Int} : Fits n → Spelling (.number (.int n)) (toString n).toList
  | double {n : NumberParts} {x : Decimal.Binary64} {s : List Char} : PartsSpelling n s →
      n.value = .ok (.double x) → Spelling (.number (.double x)) s
  | string {v : String} {s : List Char} : StringSpelling v s → Spelling (.string v) s
  | noItems {a : List Char} : Space a → Spelling (.list []) ('[' :: a ++ [']'])
  | list {items : List Json} {s : List Char} : ItemsSpelling items s →
      Spelling (.list items) ('[' :: s ++ [']'])
  | noEntries {a : List Char} : Space a → Spelling (.object []) ('\x7b' :: a ++ ['\x7d'])
  | object {entries : List (String × Json)} {s : List Char} : EntriesSpelling entries s →
      Spelling (.object entries) ('\x7b' :: s ++ ['\x7d'])

/-- The texts of items between the brackets, when there are any. -/
inductive ItemsSpelling : List Json → List Char → Prop where
  | last {j : Json} {a s b : List Char} : Space a → Spelling j s → Space b →
      ItemsSpelling [j] (a ++ (s ++ b))
  | more {j : Json} {items : List Json} {a s b t : List Char} : Space a → Spelling j s →
      Space b → ItemsSpelling items t → ItemsSpelling (j :: items) (a ++ (s ++ (b ++ ',' :: t)))

/-- The texts of entries between the braces, when there are any. -/
inductive EntriesSpelling : List (String × Json) → List Char → Prop where
  | last {k : String} {j : Json} {a u b c s d : List Char} : Space a → StringSpelling k u →
      Space b → Space c → Spelling j s → Space d →
      EntriesSpelling [(k, j)] (a ++ (u ++ (b ++ ':' :: (c ++ (s ++ d)))))
  | more {k : String} {j : Json} {entries : List (String × Json)} {a u b c s d t : List Char} :
      Space a → StringSpelling k u → Space b → Space c → Spelling j s → Space d →
      EntriesSpelling entries t →
      EntriesSpelling ((k, j) :: entries)
        (a ++ (u ++ (b ++ ':' :: (c ++ (s ++ (d ++ ',' :: t))))))

end

/-- A whole text of a value. -/
def IsText (j : Json) (text : String) : Prop :=
  ∃ a s b, Space a ∧ Spelling j s ∧ Space b ∧ text.toList = a ++ (s ++ b)

/-! ## Trees without faults -/

mutual

/-- The tree of a value in a text without faults. -/
def tree : Json → Tree
  | .null => .null
  | .bool b => .bool b
  | .number n => .number (.ok n)
  | .string s => .string (.ok s)
  | .list items => .list (itemTrees items) .closed
  | .object entries => .object (entryTrees entries) .closed

def itemTrees : List Json → List Tree
  | [] => []
  | j :: rest => tree j :: itemTrees rest

def entryTrees : List (String × Json) → List (Key × Tree)
  | [] => []
  | (k, j) :: rest => (.ok k, tree j) :: entryTrees rest

end

/-! ## From texts to tokens -/

theorem tokens_space {a : List Char} (h : Space a) (s : List Char) :
    tokens (a ++ s) = tokens s := by
  induction a with
  | nil => rfl
  | cons c a ih =>
    rw [List.cons_append, tokens, if_pos (h c List.mem_cons_self)]
    exact ih fun d hd => h d (List.mem_cons_of_mem c hd)

theorem tokens_openList (s : List Char) : tokens ('[' :: s) = .openList :: tokens s :=
  tokens_cons rfl s

theorem tokens_closeList (s : List Char) : tokens (']' :: s) = .closeList :: tokens s :=
  tokens_cons rfl s

theorem tokens_openObject (s : List Char) : tokens ('\x7b' :: s) = .openObject :: tokens s :=
  tokens_cons rfl s

theorem tokens_closeObject (s : List Char) : tokens ('\x7d' :: s) = .closeObject :: tokens s :=
  tokens_cons rfl s

theorem tokens_comma (s : List Char) : tokens (',' :: s) = .comma :: tokens s :=
  tokens_cons rfl s

theorem tokens_colon (s : List Char) : tokens (':' :: s) = .colon :: tokens s :=
  tokens_cons rfl s

theorem StringSpelling.tokens {v : String} {u : List Char} (h : StringSpelling v u)
    (rest : List Char) : Json.tokens (u ++ rest) = .string (.ok v) :: Json.tokens rest := by
  cases h with
  | quoted h =>
    simp [tokens_cons (c := '"') rfl, token, h.scanString, StringScan.token, Except.map]

theorem EndsNumber.of_cons {c : Char} {s : List Char} (h : c = ',' ∨ c = ']' ∨ c = '\x7d') :
    EndsNumber (c :: s) := by
  intro d hd
  cases hd
  rcases h with rfl | rfl | rfl <;> decide

theorem EndsNumber.space {a s : List Char} (ha : Space a) (hs : EndsNumber s) :
    EndsNumber (a ++ s) := by
  cases a with
  | nil => exact hs
  | cons c a =>
    intro d hd
    cases hd
    have hc := ha c List.mem_cons_self
    simp only [isSpace, Bool.or_eq_true, decide_eq_true_eq] at hc
    rcases hc with ((rfl | rfl) | rfl) | rfl <;> decide

/-- A token with which a value begins. -/
def Token.Opens (t : Token) : Prop :=
  ∀ first items around,
    (State.item first items around).step t = State.start t (.item items :: around)

/-- From each place where it may stand, the tokens of a value lead to the place behind it. -/
def Leads (tokens : List Token) (j : Json) (behind : List Token) : Prop :=
  ∃ t rest, tokens = t :: rest ∧ t.Opens ∧
    ∀ around, (State.start t around).run rest = (State.give (tree j) around).run behind

theorem run_cons (s : State) (t : Token) (rest : List Token) :
    s.run (t :: rest) = (s.step t).run rest := rfl

theorem Leads.value {ts behind : List Token} {j : Json} (h : Leads ts j behind)
    (around : List Frame) :
    (State.value around).run ts = (State.give (tree j) around).run behind := by
  obtain ⟨t, rest, rfl, -, hrun⟩ := h
  exact hrun around

theorem Leads.item {ts behind : List Token} {j : Json} (h : Leads ts j behind) (first : Bool)
    (items : List Tree) (around : List Frame) :
    (State.item first items around).run ts =
      (State.afterItem (tree j :: items) around).run behind := by
  obtain ⟨t, rest, rfl, hopens, hrun⟩ := h
  rw [run_cons, hopens]
  exact hrun _

/-- A value that is one token. -/
theorem Leads.single {t : Token} {j : Json} {behind : List Token} (hopens : t.Opens)
    (hstart : ∀ around, State.start t around = State.give (tree j) around) :
    Leads (t :: behind) j behind :=
  ⟨t, behind, rfl, hopens, fun around => by rw [hstart]⟩

mutual

theorem Spelling.leads {j : Json} {s rest : List Char} (h : Spelling j s)
    (hrest : EndsNumber rest) : Leads (tokens (s ++ rest)) j (tokens rest) := by
  match h with
  | .null =>
    rw [List.cons_append, tokens_cons rfl]
    exact .single (fun _ _ _ => rfl) fun _ => rfl
  | .true =>
    rw [List.cons_append, tokens_cons rfl]
    exact .single (fun _ _ _ => rfl) fun _ => rfl
  | .false =>
    rw [List.cons_append, tokens_cons rfl]
    exact .single (fun _ _ _ => rfl) fun _ => rfl
  | .int hn =>
    rw [(partsSpelling_int _).tokens hrest, value_int hn]
    exact .single (fun _ _ _ => rfl) fun _ => rfl
  | .double hs hn =>
    rw [hs.tokens hrest, hn]
    exact .single (fun _ _ _ => rfl) fun _ => rfl
  | .string hs =>
    rw [hs.tokens rest]
    exact .single (fun _ _ _ => rfl) fun _ => rfl
  | .noItems ha =>
    rw [List.append_assoc, List.cons_append, tokens_openList]
    refine ⟨.openList, _, rfl, fun _ _ _ => rfl, fun around => ?_⟩
    rw [tokens_space ha, List.singleton_append, tokens_closeList]
    rfl
  | .list hs =>
    rw [List.append_assoc, List.cons_append, tokens_openList]
    refine ⟨.openList, _, rfl, fun _ _ _ => rfl, fun around => ?_⟩
    exact (hs.run rest true [] around).trans (by simp [listOf, tree])
  | .noEntries ha =>
    rw [List.append_assoc, List.cons_append, tokens_openObject]
    refine ⟨.openObject, _, rfl, fun _ _ _ => rfl, fun around => ?_⟩
    rw [tokens_space ha, List.singleton_append, tokens_closeObject]
    rfl
  | .object hs =>
    rw [List.append_assoc, List.cons_append, tokens_openObject]
    refine ⟨.openObject, _, rfl, fun _ _ _ => rfl, fun around => ?_⟩
    exact (hs.run rest true [] around).trans (by simp [objectOf, tree])

theorem ItemsSpelling.run {items : List Json} {s : List Char} (h : ItemsSpelling items s)
    (rest : List Char) (first : Bool) (before : List Tree) (around : List Frame) :
    (State.item first before around).run (tokens (s ++ ']' :: rest)) =
      (State.give (listOf ((itemTrees items).reverse ++ before) .closed) around).run
        (tokens rest) := by
  match h with
  | @ItemsSpelling.last j a s b ha hs hb =>
    have hend : EndsNumber (b ++ ']' :: rest) := .space hb (.of_cons (.inr (.inl rfl)))
    simp only [List.append_assoc]
    rw [tokens_space ha, (hs.leads hend).item, tokens_space hb, tokens_closeList]
    rfl
  | @ItemsSpelling.more j items a s b t ha hs hb ht =>
    have hend : EndsNumber (b ++ ',' :: (t ++ ']' :: rest)) := .space hb (.of_cons (.inl rfl))
    simp only [List.append_assoc, List.cons_append]
    rw [tokens_space ha, (hs.leads hend).item, tokens_space hb, tokens_comma, run_cons]
    exact (ht.run rest false (tree j :: before) around).trans (by simp [itemTrees])

theorem EntriesSpelling.run {entries : List (String × Json)} {s : List Char}
    (h : EntriesSpelling entries s) (rest : List Char) (first : Bool)
    (before : List (Key × Tree)) (around : List Frame) :
    (State.key first before around).run (tokens (s ++ '\x7d' :: rest)) =
      (State.give (objectOf ((entryTrees entries).reverse ++ before) .closed) around).run
        (tokens rest) := by
  match h with
  | @EntriesSpelling.last k j a u b c s d ha hu hb hc hs hd =>
    have hend : EndsNumber (d ++ '\x7d' :: rest) := .space hd (.of_cons (.inr (.inr rfl)))
    simp only [List.append_assoc, List.cons_append]
    rw [tokens_space ha, hu.tokens, run_cons, tokens_space hb, tokens_colon, run_cons,
      tokens_space hc]
    refine ((hs.leads hend).value (.member before (.ok k) :: around)).trans ?_
    rw [tokens_space hd, tokens_closeObject]
    rfl
  | @EntriesSpelling.more k j entries a u b c s d t ha hu hb hc hs hd ht =>
    have hend : EndsNumber (d ++ ',' :: (t ++ '\x7d' :: rest)) := .space hd (.of_cons (.inl rfl))
    simp only [List.append_assoc, List.cons_append]
    rw [tokens_space ha, hu.tokens, run_cons, tokens_space hb, tokens_colon, run_cons,
      tokens_space hc]
    refine ((hs.leads hend).value (.member before (.ok k) :: around)).trans ?_
    rw [tokens_space hd, tokens_comma]
    exact (ht.run rest false ((.ok k, tree j) :: before) around).trans (by simp [entryTrees])

end

theorem run_done (tree : Tree) (ts : List Token) : (State.done tree).run ts = .done tree := by
  induction ts with
  | nil => rfl
  | cons t ts ih => exact ih

/-- The tree of a text is that of the value which the text spells. -/
theorem IsText.ofChars {j : Json} {text : String} (h : j.IsText text) :
    Tree.ofChars text.toList = j.tree := by
  obtain ⟨a, s, b, ha, hs, hb, htext⟩ := h
  have hend : EndsNumber b := by
    have hspace := EndsNumber.space hb (s := []) nofun
    rwa [List.append_nil] at hspace
  rw [htext, Tree.ofChars, tokens_space ha, (hs.leads hend).value]
  exact congrArg State.finish (run_done j.tree (tokens b))

end RuleClasses.Json
