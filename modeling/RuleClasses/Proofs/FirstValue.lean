import RuleClasses.Proofs.Scans
import RuleClasses.Proofs.ConfigForms

/-! The first value of a text, from its opening bracket up to the bracket that closes it. When
records are read from a text, nothing behind that bracket plays a part, and no part of the text
that ends before it is read as a record. -/

namespace RuleClasses.Json

/-! ## The first value -/

/-- The text from a place where `n` brackets are open up to the bracket that closes the
outermost of them. Brackets in strings do not count. -/
inductive Closes : Nat → List Char → Prop where
  | last {c : Char} : closesBracket c = true → Closes 1 [c]
  | close {n : Nat} {c : Char} {s : List Char} : closesBracket c = true → Closes (n + 1) s →
      Closes (n + 2) (c :: s)
  | open {n : Nat} {c : Char} {s : List Char} : opensBracket c = true → Closes (n + 2) s →
      Closes (n + 1) (c :: s)
  | string {n : Nat} {u s : List Char} : StringEnd u → Closes n s → Closes n ('"' :: (u ++ s))
  | plain {n : Nat} {c : Char} {s : List Char} : Plain c → Closes n s → Closes n (c :: s)

/-- A list or an object in brackets, with white space in front of it. -/
inductive FirstValue : List Char → Prop where
  | space {c : Char} {s : List Char} : isSpace c = true → FirstValue s → FirstValue (c :: s)
  | opened {c : Char} {s : List Char} : opensBracket c = true → Closes 1 s → FirstValue (c :: s)

theorem closesBracket_of_opensBracket {c : Char} (h : opensBracket c = true) :
    closesBracket c = false := by
  simp only [opensBracket, Bool.or_eq_true, decide_eq_true_eq] at h
  rcases h with rfl | rfl <;> rfl

theorem Closes.behind_closing {n : Nat} {c : Char} {s : List Char} (h : Closes n (c :: s))
    (hc : closesBracket c = true) : n = 1 ∧ s = [] ∨ ∃ m, n = m + 2 ∧ Closes (m + 1) s := by
  cases h with
  | last => exact .inl ⟨rfl, rfl⟩
  | close _ h => exact .inr ⟨_, rfl, h⟩
  | «open» ho => rw [closesBracket_of_opensBracket ho] at hc; cases hc
  | string => cases hc
  | plain hp => rw [hp.2.1] at hc; cases hc

theorem Closes.behind_opening {n : Nat} {c : Char} {s : List Char} (h : Closes n (c :: s))
    (hc : opensBracket c = true) : Closes (n + 1) s := by
  have hclose := closesBracket_of_opensBracket hc
  cases h with
  | last h | close h => rw [hclose] at h; cases h
  | «open» _ h => exact h
  | string => cases hc
  | plain hp => rw [hp.1] at hc; cases hc

theorem Closes.behind_quote {n : Nat} {s : List Char} (h : Closes n ('"' :: s)) :
    ∃ u t, s = u ++ t ∧ StringEnd u ∧ Closes n t := by
  cases h with
  | last h | close h | «open» h => cases h
  | string hu h => exact ⟨_, _, rfl, hu, h⟩
  | plain hp => exact absurd rfl hp.2.2

theorem Closes.behind_plain {n : Nat} {c : Char} {s : List Char} (h : Closes n (c :: s))
    (hc : Plain c) : Closes n s := by
  cases h with
  | last h | close h => rw [hc.2.1] at h; cases h
  | «open» h => rw [hc.1] at h; cases h
  | string => exact absurd rfl hc.2.2
  | plain _ h => exact h

theorem Closes.pos {n : Nat} {s : List Char} (h : Closes n s) : 0 < n := by
  induction h with
  | last | close | «open» => exact Nat.succ_pos _
  | string _ _ ih | plain _ _ ih => exact ih

theorem Closes.ne_nil {n : Nat} {s : List Char} (h : Closes n s) : s ≠ [] := by
  cases h <;> exact List.cons_ne_nil _ _

theorem Closes.head?_append {n : Nat} {s : List Char} (h : Closes n s) (a b : List Char) :
    (s ++ a).head? = (s ++ b).head? := by
  rw [List.head?_append_of_ne_nil _ h.ne_nil, List.head?_append_of_ne_nil _ h.ne_nil]

/-- Two texts up to the closing bracket, at the front of one text, are the same. -/
theorem Closes.eq_of_append {n : Nat} {s t a b : List Char} (hs : Closes n s) (ht : Closes n t)
    (h : s ++ a = t ++ b) : s = t := by
  induction hs generalizing t with
  | last hc =>
    obtain ⟨d, t, rfl⟩ := List.exists_cons_of_ne_nil ht.ne_nil
    obtain ⟨rfl, htail⟩ := List.cons.inj h
    obtain ⟨-, rfl⟩ | ⟨m, hm, -⟩ := ht.behind_closing hc
    · rfl
    · cases hm
  | close hc hs ih =>
    obtain ⟨d, t, rfl⟩ := List.exists_cons_of_ne_nil ht.ne_nil
    obtain ⟨rfl, htail⟩ := List.cons.inj h
    obtain ⟨hn, -⟩ | ⟨m, hm, ht⟩ := ht.behind_closing hc
    · cases hn
    · cases hm
      rw [ih ht htail]
  | «open» hc hs ih =>
    obtain ⟨d, t, rfl⟩ := List.exists_cons_of_ne_nil ht.ne_nil
    obtain ⟨rfl, htail⟩ := List.cons.inj h
    rw [ih (ht.behind_opening hc) htail]
  | string hu hs ih =>
    obtain ⟨d, t, rfl⟩ := List.exists_cons_of_ne_nil ht.ne_nil
    obtain ⟨rfl, htail⟩ := List.cons_eq_cons.mp h
    obtain ⟨v, t, rfl, hv, hbehind⟩ := ht.behind_quote
    rw [List.append_eq, List.append_eq, List.append_assoc, List.append_assoc] at htail
    obtain rfl := hu.eq_of_append hv htail
    rw [ih hbehind (List.append_cancel_left htail)]
  | plain hc hs ih =>
    obtain ⟨d, t, rfl⟩ := List.exists_cons_of_ne_nil ht.ne_nil
    obtain ⟨rfl, htail⟩ := List.cons.inj h
    rw [ih (ht.behind_plain hc) htail]

theorem not_isSpace_of_opensBracket {c : Char} (h : opensBracket c = true) : isSpace c = false := by
  simp only [opensBracket, Bool.or_eq_true, decide_eq_true_eq] at h
  rcases h with rfl | rfl <;> rfl

theorem FirstValue.eq_of_append {s t a b : List Char} (hs : FirstValue s) (ht : FirstValue t)
    (h : s ++ a = t ++ b) : s = t := by
  induction hs generalizing t with
  | space hc hs ih =>
    cases ht with
    | space hd ht =>
      obtain ⟨rfl, htail⟩ := List.cons.inj h
      rw [ih ht htail]
    | opened hd =>
      obtain ⟨rfl, -⟩ := List.cons.inj h
      rw [not_isSpace_of_opensBracket hd] at hc; cases hc
  | opened hc hs =>
    cases ht with
    | space hd =>
      obtain ⟨rfl, -⟩ := List.cons.inj h
      rw [not_isSpace_of_opensBracket hc] at hd; cases hd
    | opened hd ht =>
      obtain ⟨rfl, htail⟩ := List.cons.inj h
      rw [hs.eq_of_append ht htail]

theorem Closes.append_plain {n : Nat} {s t : List Char} (ht : Closes n t) (hs : ∀ c ∈ s, Plain c) :
    Closes n (s ++ t) := by
  induction s with
  | nil => exact ht
  | cons c s ih =>
    obtain ⟨hc, hs⟩ := List.forall_mem_cons.mp hs
    exact .plain hc (ih hs)

/-- The text of a token in front of a text up to the closing bracket. -/
theorem Token.Text.closes {t : Token} {n : Nat} {s u : List Char} (h : t.Text s)
    (hu : Closes (t.depth (n + 1)) u) : Closes (n + 1) (s ++ u) := by
  cases h with
  | opening hc hd => rw [hd] at hu; exact .open hc hu
  | closing hc hd =>
    rw [hd] at hu
    cases n with
    | zero => exact absurd hu.pos (Nat.lt_irrefl 0)
    | succ n => exact .close hc hu
  | string hs => exact .string hs hu
  | plain hne hs hd =>
    rw [hd] at hu
    exact hu.append_plain hs

/-! ## From a closed tree back to the text -/

/-- A list or an object that ends with its bracket. -/
def Tree.IsClosed : Tree → Prop
  | .list _ .closed | .object _ .closed => True
  | _ => False

/-- How many brackets are open at a place. -/
def State.openBrackets : State → Nat
  | .done _ => 0
  | .value around => around.length
  | .item _ _ around | .afterItem _ around => around.length + 1
  | .key _ _ around | .colon _ _ around | .afterMember _ around => around.length + 1

theorem isClosed_cutOff {t : Tree} {around : List Frame} (h : (cutOff t around).IsClosed) :
    t.IsClosed := by
  induction around generalizing t with
  | nil => exact h
  | cons frame around ih =>
    cases frame with
    | item | member => exact absurd (ih h) id

theorem not_isClosed_finish {st : State} (h : 0 < st.openBrackets) : ¬ st.finish.IsClosed := by
  intro hclosed
  cases st with
  | done => cases h
  | item first | key first => cases first <;> exact isClosed_cutOff hclosed
  | value | afterItem | colon | afterMember => exact isClosed_cutOff hclosed

/-- The place behind a token, where `n` brackets were open before it. -/
inductive GoesOn (tok : Token) (n : Nat) : State → Prop where
  /-- The tree ends without its bracket. -/
  | fails {t : Tree} : ¬ t.IsClosed → GoesOn tok n (.done t)
  | ends (t : Tree) : tok.isBroken = false → tok.depth n = 0 → GoesOn tok n (.done t)
  | inside {st : State} : tok.isBroken = false → 0 < st.openBrackets →
      st.openBrackets = tok.depth n → GoesOn tok n st

theorem GoesOn.cutOff (tok : Token) (n : Nat) (around : List Frame) {t : Tree}
    (h : ¬ t.IsClosed) : GoesOn tok n (.done (cutOff t around)) :=
  .fails fun hclosed => h (isClosed_cutOff hclosed)

theorem GoesOn.give (t : Tree) {tok : Token} {n : Nat} {around : List Frame}
    (htok : tok.isBroken = false) (hdepth : tok.depth n = around.length) :
    GoesOn tok n (.give t around) := by
  match around with
  | [] => exact .ends t htok hdepth
  | .item _ :: _ | .member _ _ :: _ => exact .inside htok (Nat.succ_pos _) hdepth.symm

theorem start_goesOn (tok : Token) (around : List Frame) :
    GoesOn tok around.length (.start tok around) := by
  cases tok with
  | openList | openObject => exact .inside rfl (Nat.succ_pos _) rfl
  | null | bool | number | string => exact .give _ rfl rfl
  | closeList | closeObject | comma | colon | broken | brokenString =>
    exact .cutOff _ _ around id

/-- Inside a list or an object every token ends the tree too early or counts the brackets on. -/
theorem step_goesOn {st : State} (h : 0 < st.openBrackets) (tok : Token) :
    GoesOn tok st.openBrackets (st.step tok) := by
  cases st with
  | done => cases h
  | value around => exact start_goesOn tok around
  | item first items around =>
    cases tok with
    | closeList =>
      cases first with
      | true => exact .give _ rfl rfl
      | false => exact .cutOff _ _ around id
    | _ => exact start_goesOn _ (.item items :: around)
  | afterItem items around =>
    cases tok with
    | comma => exact .inside rfl (Nat.succ_pos _) rfl
    | closeList => exact .give _ rfl rfl
    | _ => exact .cutOff _ _ around id
  | key first entries around =>
    cases tok with
    | closeObject =>
      cases first with
      | true => exact .give _ rfl rfl
      | false => exact .cutOff _ _ around id
    | string => exact .inside rfl (Nat.succ_pos _) rfl
    | _ => exact .cutOff _ _ around id
  | colon entries k around =>
    cases tok with
    | colon => exact .inside rfl (Nat.succ_pos _) rfl
    | _ => exact .cutOff _ _ around id
  | afterMember entries around =>
    cases tok with
    | comma => exact .inside rfl (Nat.succ_pos _) rfl
    | closeObject => exact .give _ rfl rfl
    | _ => exact .cutOff _ _ around id

theorem plain_of_isSpace {c : Char} (h : isSpace c = true) : Plain c := by
  simp only [isSpace, Bool.or_eq_true, decide_eq_true_eq] at h
  rcases h with ((rfl | rfl) | rfl) | rfl <;> decide

theorem token_of_closesBracket {c : Char} (h : closesBracket c = true) :
    ∃ t, ∀ s, token c s = (t, s) := by
  simp only [closesBracket, Bool.or_eq_true, decide_eq_true_eq] at h
  rcases h with rfl | rfl
  · exact ⟨.closeList, fun _ => rfl⟩
  · exact ⟨.closeObject, fun _ => rfl⟩

/-- A token behind which no bracket is open any more is the closing bracket. -/
theorem Token.Text.of_depth_eq_zero {t : Token} {n : Nat} {s : List Char} (h : t.Text s)
    (hn : 0 < n) (hdepth : t.depth n = 0) : n = 1 ∧ ∃ c, s = [c] ∧ closesBracket c = true := by
  cases h with
  | opening _ hd => rw [hd] at hdepth; cases hdepth
  | closing hc hd =>
    rw [hd] at hdepth
    exact ⟨by omega, _, rfl, hc⟩
  | string => exact absurd hdepth (Nat.ne_of_gt hn)
  | plain _ _ hd => rw [hd] at hdepth; omega

theorem Token.Text.of_depth_eq_one {t : Token} {s : List Char} (h : t.Text s)
    (hdepth : t.depth 0 = 1) : ∃ c, s = [c] ∧ opensBracket c = true := by
  cases h with
  | opening hc => exact ⟨_, rfl, hc⟩
  | closing _ hd | plain _ _ hd => rw [hd] at hdepth; cases hdepth
  | string => cases hdepth

/-- When the tree that is read from a place ends with its bracket, it comes from the text up to the
bracket that closes it. -/
theorem exists_closes {s : List Char} {st : State} (hopen : 0 < st.openBrackets)
    (h : (st.run (tokens s)).finish.IsClosed) :
    ∃ value rest, s = value ++ rest ∧ Closes st.openBrackets value ∧
      ∀ rest', (st.run (tokens (value ++ rest'))).finish = (st.run (tokens s)).finish := by
  fun_induction tokens s generalizing st with
  | case1 => exact absurd h (not_isClosed_finish hopen)
  | case2 c s hc ih =>
    obtain ⟨value, rest, rfl, hvalue, hagain⟩ := ih hopen h
    refine ⟨c :: value, rest, rfl, .plain (plain_of_isSpace hc) hvalue, fun rest' => ?_⟩
    rw [List.cons_append, tokens, if_pos hc]
    exact hagain rest'
  | case3 c s hc ih =>
    have hspace : isSpace c = false := by simpa using hc
    cases htoken : token c s with
    | mk tok behind =>
    simp only [htoken] at h ih ⊢
    have hnext := step_goesOn hopen tok
    rw [run_cons] at h ⊢
    generalize hst : st.step tok = next at h hnext ⊢
    cases hnext with
    | fails hfails => exact absurd h (by rwa [run_done])
    | ends t htok hdepth =>
      -- the token is the bracket itself, and no text behind it can change that
      obtain ⟨taken, rfl, htext, -⟩ := takesToken htoken htok
      obtain ⟨hone, d, hd, hclose⟩ := htext.of_depth_eq_zero hopen hdepth
      obtain ⟨rfl, rfl⟩ := List.cons.inj hd
      obtain ⟨closing, hclosing⟩ := token_of_closesBracket hclose
      rw [List.nil_append, hclosing] at htoken
      obtain ⟨rfl, -⟩ := Prod.mk.inj htoken
      refine ⟨[c], behind, rfl, hone ▸ .last hclose, fun rest' => ?_⟩
      rw [List.singleton_append, tokens_cons hspace, hclosing, run_cons, hst, run_done, run_done]
    | inside htok hinside hdepth =>
      -- the token ends where the text of the rest begins, which is not empty
      obtain ⟨taken, rfl, htext, hsame⟩ := takesToken htoken htok
      obtain ⟨value, rest, rfl, hvalue, hagain⟩ := ih hinside h
      obtain ⟨n, hn⟩ := Nat.exists_eq_succ_of_ne_zero (Nat.ne_of_gt hopen)
      rw [hdepth, hn] at hvalue
      refine ⟨c :: (taken ++ value), rest, by simp, hn ▸ htext.closes hvalue, fun rest' => ?_⟩
      rw [List.cons_append, List.append_assoc, tokens_cons hspace,
        hsame _ (hvalue.head?_append rest' rest), run_cons, hst]
      exact hagain rest'

/-- A tree that ends with its bracket begins with one. -/
theorem opens_of_isClosed {tok : Token} {ts : List Token}
    (h : ((State.start tok []).run ts).finish.IsClosed) :
    tok.isBroken = false ∧ tok.depth 0 = 1 ∧ (State.start tok []).openBrackets = 1 := by
  cases tok with
  | openList | openObject => exact ⟨rfl, rfl, rfl⟩
  | _ =>
    rw [State.start] at h
    exact absurd h (by simp only [State.give, run_done]; exact id)

/-- A tree that ends with its bracket comes from the first value of the text. -/
theorem exists_firstValue {s : List Char} (h : (Tree.ofChars s).IsClosed) :
    ∃ value rest, s = value ++ rest ∧ FirstValue value ∧
      ∀ rest', Tree.ofChars (value ++ rest') = Tree.ofChars s := by
  induction s with
  | nil =>
    rw [Tree.ofChars, tokens] at h
    exact absurd h id
  | cons c s ih =>
    unfold Tree.ofChars at h ih ⊢
    by_cases hspace : isSpace c = true
    · rw [tokens, if_pos hspace] at h ⊢
      obtain ⟨value, rest, rfl, hvalue, hagain⟩ := ih h
      refine ⟨c :: value, rest, rfl, .space hspace hvalue, fun rest' => ?_⟩
      rw [List.cons_append, tokens, if_pos hspace]
      exact hagain rest'
    · rw [Bool.not_eq_true] at hspace
      rw [tokens_cons hspace, run_cons] at h ⊢
      cases htoken : token c s with
      | mk tok behind =>
      simp only [htoken, State.step] at h ⊢
      obtain ⟨hbroken, hdepth, hone⟩ := opens_of_isClosed h
      obtain ⟨taken, rfl, htext, hsame⟩ := takesToken htoken hbroken
      obtain ⟨d, hd, hopening⟩ := htext.of_depth_eq_one hdepth
      obtain ⟨rfl, rfl⟩ := List.cons.inj hd
      obtain ⟨value, rest, rfl, hvalue, hagain⟩ := exists_closes (hone ▸ Nat.one_pos) h
      rw [hone] at hvalue
      refine ⟨c :: value, rest, rfl, .opened hopening hvalue, fun rest' => ?_⟩
      have htoken' := hsame _ (hvalue.head?_append rest' rest)
      rw [List.nil_append] at htoken'
      rw [List.cons_append, tokens_cons hspace, htoken']
      exact hagain rest'

/-! ## Records -/

theorem eq_closed_of_endList {close : Close} (h : close.endList = .ok ()) : close = .closed := by
  cases close with
  | closed => rfl
  | _ => cases h

theorem eq_closed_of_endEntries {close : Close} (h : endEntries close = .ok ()) :
    close = .closed := by
  cases close with
  | closed => rfl
  | noColon key => cases key <;> cases h
  | _ => cases h

section

variable {σ : Type} {d d' : σ} {close : Close}

theorem eq_closed_of_endFields {use : σ → String → KeyUse σ}
    (h : endFields use d close = .ok ()) : close = .closed := by
  cases close with
  | noColon key =>
    cases key with
    | error => exact eq_closed_of_endEntries h
    | ok k =>
      simp only [endFields] at h
      split at h
      · cases h
      · exact eq_closed_of_endEntries h
  | _ => exact eq_closed_of_endEntries h

theorem eq_closed_of_readPositions {fields : List (σ → Tree → Except Issue σ)} {index : Nat}
    {items : List Tree} (h : readPositions index d fields items close = .ok d') :
    close = .closed := by
  fun_induction readPositions index d fields items close with
  | case1 => rfl
  | case2 => cases h
  | case3 => cases h
  | case4 => cases h
  | case5 => cases h
  | case6 index d field fields close =>
    obtain ⟨_, hend, -⟩ := bind_eq_ok.mp h
    exact eq_closed_of_endList (faulty_eq_ok.mp (here_eq_ok.mp hend))
  | case7 index d close field fields t rest ih =>
    obtain ⟨d₁, -, h⟩ := bind_eq_ok.mp h
    exact ih d₁ h

/-- A record is read from nothing but a whole list or object. -/
theorem RecordReader.isClosed_of_read {α : Type} {r : RecordReader σ α} {t : Tree} {a : α}
    (h : r.read t = .ok a) : t.IsClosed := by
  match t with
  | .object entries close =>
    obtain ⟨d, hd, -⟩ := bind_eq_ok.mp h
    obtain ⟨d₁, -, hend⟩ := bind_eq_ok.mp hd
    obtain ⟨_, hend, -⟩ := bind_eq_ok.mp hend
    rw [eq_closed_of_endFields hend]
    exact trivial
  | .list items close =>
    obtain ⟨d, hd, -⟩ := bind_eq_ok.mp h
    rw [eq_closed_of_readPositions hd]
    exact trivial
  | .null | .bool _ | .absent | .broken _ _ | .brokenString _ _ => cases h
  | .number n => cases n <;> cases h
  | .string s => cases s <;> cases h

/-- What a text is read as is decided by its first value alone. -/
structure DecidedByFirst {α : Type} (read : String → Except Issue α) (text : String) (a : α) :
    Prop where
  longer : ∀ more, read (text ++ more) = .ok a
  first : ∃ value, value <+: text.toList ∧ FirstValue value ∧
    (∀ more, read (.ofList (value ++ more)) = .ok a) ∧
    ∀ short, short <+: text.toList → short.length < value.length →
      ∃ issue, read (.ofList short) = .error issue

theorem RecordReader.decidedByFirst {α : Type} {r : RecordReader σ α} {text : String} {a : α}
    (h : r.read (.ofChars text.toList) = .ok a) :
    DecidedByFirst (fun text => r.read (.ofChars text.toList)) text a := by
  obtain ⟨value, rest, htext, hvalue, hagain⟩ := exists_firstValue (isClosed_of_read h)
  have hread (more : List Char) : r.read (.ofChars (value ++ more)) = .ok a := by
    rw [hagain, h]
  refine ⟨fun more => ?_, value, ⟨rest, htext.symm⟩, hvalue, fun more => ?_,
    fun short hshort hlength => ?_⟩
  · simp only [String.toList_append, htext, List.append_assoc, hread]
  · simp only [String.toList_ofList, hread]
  · cases hanswer : r.read (.ofChars (String.ofList short).toList) with
    | error issue => exact ⟨issue, rfl⟩
    | ok b =>
      -- the text read here would hold the first value of the whole text
      rw [String.toList_ofList] at hanswer
      obtain ⟨value', rest', rfl, hvalue', -⟩ := exists_firstValue (isClosed_of_read hanswer)
      obtain ⟨behind, hbehind⟩ := hshort
      rw [List.append_assoc, htext] at hbehind
      rw [hvalue'.eq_of_append hvalue hbehind, List.length_append] at hlength
      omega

end

end RuleClasses.Json

namespace RuleClasses

open Json (DecidedByFirst)

/-- A grammar or a configuration that is read from a text is read from every text that begins with
the same first value, and from no text that is cut off inside it. -/
theorem first_value_decides :
    (∀ text g, Grammar.ofText text = .ok g → DecidedByFirst Grammar.ofText text g) ∧
      ∀ text c, Config.ofText text = .ok c → DecidedByFirst Config.ofText text c :=
  ⟨fun _ _ h => Json.RecordReader.decidedByFirst h,
   fun _ _ h => Json.RecordReader.decidedByFirst h⟩

/-- A grammar in mixed notation, and the default configuration. -/
theorem first_value_decides_mixed :
    DecidedByFirst Grammar.ofText (" " ++ Grammar.mixedJson.text ++ "\n") Grammar.mixedGrammar ∧
      DecidedByFirst Config.ofText ({} : Config).toJson.text {} :=
  ⟨first_value_decides.1 _ _ (Grammar.ofText_form Grammar.mixed_form Grammar.mixed_isText
    (by decide)),
   first_value_decides.2 _ _ (Config.ofText_toJson (Config.isText_toJson {}))⟩

end RuleClasses
