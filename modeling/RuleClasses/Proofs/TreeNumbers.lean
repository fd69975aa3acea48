import RuleClasses.Proofs.JsonDepth
import RuleClasses.Proofs.Answers

/-! The integers of a text lie between `-2 ^ 63` and `2 ^ 64`: a number outside is read as a
double. So the numbers of every tree that comes from a text are in range, whatever is wrong
with the text. -/

namespace RuleClasses.Json

/-! ## Numbers -/

theorem takeDigits_lt (ds : List Char) {n : Nat} (h : n < Nat.pow 2 64) :
    (takeDigits n ds).1 < Nat.pow 2 64 := by
  induction ds generalizing n with
  | nil => exact h
  | cons d rest ih =>
    rw [takeDigits]
    split
    · exact ih ‹_›
    · exact h

theorem double_inRange {parts : NumberParts} {digits : Nat} {e : Int} {n : Number}
    (h : parts.double digits e = .ok n) : n.InRange := by
  unfold NumberParts.double at h
  split at h
  · obtain ⟨_, _, rfl⟩ := map_eq_ok.mp h
    trivial
  · split at h
    · obtain ⟨_, _, rfl⟩ := map_eq_ok.mp h
      trivial
    · split at h
      · cases h
      · cases h
        trivial

theorem value_inRange {parts : NumberParts} {n : Number} (h : parts.value = .ok n) :
    n.InRange := by
  have hlt : (takeDigits 0 parts.whole).1 < 2 ^ 64 := takeDigits_lt parts.whole (by decide)
  rw [NumberParts.value] at h
  generalize takeDigits 0 parts.whole = taken at h hlt
  obtain ⟨digits, dropped⟩ := taken
  cases hfraction : parts.fraction with
  | some fraction => rw [hfraction] at h; exact double_inRange h
  | none =>
    simp only [hfraction] at h
    split at h
    · split at h
      · cases h
        change Fits digits
        unfold Fits
        omega
      · split at h
        · rename_i hle
          simp only [Bool.and_eq_true, decide_eq_true_eq] at hle
          obtain ⟨-, hle⟩ := hle
          change digits ≤ 2 ^ 63 at hle
          cases h
          change Fits (-digits)
          unfold Fits
          omega
        · cases h
          trivial
    · exact double_inRange h

/-! ## Trees -/

/-- Every number of the tree is one that a text can hold. -/
inductive Tree.InRange : Tree → Prop where
  | null : InRange .null
  | bool {b : Bool} : InRange (.bool b)
  | number {n : Except Fault Number} : (∀ m, n = .ok m → m.InRange) → InRange (.number n)
  | string {s : Key} : InRange (.string s)
  | list {items : List Tree} {close : Close} : (∀ t ∈ items, InRange t) →
      InRange (.list items close)
  | object {entries : List (Key × Tree)} {close : Close} : (∀ x ∈ entries, InRange x.2) →
      InRange (.object entries close)
  | absent : InRange .absent
  | broken {wanted passed : Fault} : InRange (.broken wanted passed)
  | brokenString {wanted passed : Fault} : InRange (.brokenString wanted passed)

def Token.InRange : Token → Prop
  | .number n => ∀ m, n = .ok m → m.InRange
  | _ => True

def Frame.InRange : Frame → Prop
  | .item items => ∀ t ∈ items, t.InRange
  | .member entries _ => ∀ x ∈ entries, x.2.InRange

def State.InRange : State → Prop
  | .done t => t.InRange
  | .value around => ∀ f ∈ around, f.InRange
  | .item _ items around | .afterItem items around =>
    (∀ t ∈ items, t.InRange) ∧ ∀ f ∈ around, f.InRange
  | .key _ entries around | .colon entries _ around | .afterMember entries around =>
    (∀ x ∈ entries, x.2.InRange) ∧ ∀ f ∈ around, f.InRange

theorem scanWord_inRange {token : Token} (h : token.InRange) (expected s : List Char) :
    (scanWord token expected s).1.InRange := by
  fun_induction scanWord token expected s with
  | case1 => exact h
  | case2 | case4 => trivial
  | case3 _ _ _ ih => exact ih

theorem numberToken_inRange (scan : NumberScan) : scan.token.1.InRange := by
  match scan with
  | .closed parts rest => exact fun m hm => value_inRange hm
  | .broken true | .broken false => trivial

theorem token_inRange (c : Char) (s : List Char) : (token c s).1.InRange := by
  unfold token
  split
  case h_7 | h_8 | h_9 => exact scanWord_inRange (by trivial) _ s
  case h_10 => cases scanString s <;> trivial
  case h_11 =>
    unfold negativeToken
    split
    · trivial
    · exact numberToken_inRange _
  case h_12 =>
    split
    · exact numberToken_inRange _
    · trivial
  all_goals trivial

theorem tokens_inRange (s : List Char) : ∀ t ∈ tokens s, t.InRange := by
  fun_induction tokens s with
  | case1 => nofun
  | case2 c s _ ih => exact ih
  | case3 c s _ ih =>
    intro t ht
    rcases List.mem_cons.mp ht with rfl | ht
    · exact token_inRange c s
    · exact ih t ht

theorem listOf_inRange {items : List Tree} (h : ∀ t ∈ items, t.InRange) (close : Close) :
    (listOf items close).InRange :=
  .list fun t ht => h t (List.mem_reverse.mp ht)

theorem objectOf_inRange {entries : List (Key × Tree)} (h : ∀ x ∈ entries, x.2.InRange)
    (close : Close) : (objectOf entries close).InRange :=
  .object fun x hx => h x (List.mem_reverse.mp hx)

theorem cutOff_inRange {t : Tree} {around : List Frame} (ht : t.InRange)
    (h : ∀ f ∈ around, f.InRange) : (cutOff t around).InRange := by
  induction around generalizing t with
  | nil => exact ht
  | cons frame around ih =>
    obtain ⟨hframe, hrest⟩ := List.forall_mem_cons.mp h
    cases frame with
    | item items => exact ih (listOf_inRange (List.forall_mem_cons.mpr ⟨ht, hframe⟩) _) hrest
    | member entries k =>
      have hentries : ∀ x ∈ (k, t) :: entries, x.2.InRange :=
        List.forall_mem_cons.mpr ⟨ht, hframe⟩
      exact ih (objectOf_inRange hentries _) hrest

theorem give_inRange {t : Tree} {around : List Frame} (ht : t.InRange)
    (h : ∀ f ∈ around, f.InRange) : (State.give t around).InRange := by
  match around, h with
  | [], _ => exact ht
  | .item items :: around, h =>
    obtain ⟨hframe, hrest⟩ := List.forall_mem_cons.mp h
    exact ⟨List.forall_mem_cons.mpr ⟨ht, hframe⟩, hrest⟩
  | .member entries k :: around, h =>
    obtain ⟨hframe, hrest⟩ := List.forall_mem_cons.mp h
    exact ⟨List.forall_mem_cons.mpr ⟨ht, hframe⟩, hrest⟩

theorem start_inRange {token : Token} {around : List Frame} (ht : token.InRange)
    (h : ∀ f ∈ around, f.InRange) : (State.start token around).InRange := by
  cases token with
  | null => exact give_inRange .null h
  | bool b => exact give_inRange .bool h
  | number n => exact give_inRange (.number ht) h
  | string s => exact give_inRange .string h
  | openList | openObject => exact ⟨nofun, h⟩
  | broken | closeList | closeObject | comma | colon => exact cutOff_inRange .broken h
  | brokenString => exact cutOff_inRange .brokenString h

theorem step_inRange {state : State} {token : Token} (hs : state.InRange) (ht : token.InRange) :
    (state.step token).InRange := by
  cases state with
  | done t => exact hs
  | value around => exact start_inRange ht hs
  | item first items around =>
    have hframes : ∀ f ∈ .item items :: around, Frame.InRange f := List.forall_mem_cons.mpr hs
    unfold State.step
    dsimp only
    split
    · split
      · exact give_inRange (listOf_inRange hs.1 _) hs.2
      · exact cutOff_inRange (listOf_inRange hs.1 _) hs.2
    · exact start_inRange ht hframes
  | afterItem items around =>
    unfold State.step
    dsimp only
    split
    · exact hs
    · exact give_inRange (listOf_inRange hs.1 _) hs.2
    · exact cutOff_inRange (listOf_inRange hs.1 _) hs.2
  | key first entries around =>
    unfold State.step
    dsimp only
    split
    · split
      · exact give_inRange (objectOf_inRange hs.1 _) hs.2
      · exact cutOff_inRange (objectOf_inRange hs.1 _) hs.2
    · exact hs
    · exact cutOff_inRange (objectOf_inRange hs.1 _) hs.2
    · exact cutOff_inRange (objectOf_inRange hs.1 _) hs.2
  | colon entries k around =>
    unfold State.step
    dsimp only
    split
    · have hframes : ∀ f ∈ .member entries k :: around, Frame.InRange f :=
        List.forall_mem_cons.mpr hs
      exact hframes
    · exact cutOff_inRange (objectOf_inRange hs.1 _) hs.2
  | afterMember entries around =>
    unfold State.step
    dsimp only
    split
    · exact hs
    · exact give_inRange (objectOf_inRange hs.1 _) hs.2
    · exact cutOff_inRange (objectOf_inRange hs.1 _) hs.2

theorem run_inRange {state : State} {ts : List Token} (hs : state.InRange)
    (ht : ∀ t ∈ ts, t.InRange) : (state.run ts).InRange := by
  induction ts generalizing state with
  | nil => exact hs
  | cons t ts ih =>
    obtain ⟨hfirst, hrest⟩ := List.forall_mem_cons.mp ht
    exact ih (step_inRange hs hfirst) hrest

theorem finish_inRange {state : State} (hs : state.InRange) : state.finish.InRange := by
  match state, hs with
  | .done t, hs => exact hs
  | .value around, hs => exact cutOff_inRange .absent hs
  | .item true items around, hs | .item false items around, hs | .afterItem items around, hs =>
    exact cutOff_inRange (listOf_inRange hs.1 _) hs.2
  | .key true entries around, hs | .key false entries around, hs | .colon entries _ around, hs
  | .afterMember entries around, hs => exact cutOff_inRange (objectOf_inRange hs.1 _) hs.2

/-- Whatever a text holds, its numbers are in range. -/
theorem ofChars_inRange (s : List Char) : (Tree.ofChars s).InRange :=
  have hstart : (State.value []).InRange := nofun
  finish_inRange (run_inRange hstart (tokens_inRange s))

end RuleClasses.Json
