import RuleClasses.Proofs.Spellings

/-! What a token takes off the front of a text. Of the text behind a string nothing counts for
it, and of the text behind a number only whether the first character would make it longer. So a
token that ended inside a text is there in every text that begins in the same way. -/

namespace RuleClasses.Json

/-! ## Strings -/

/-- The text from behind an opening quote up to the quote that closes it. -/
inductive StringEnd : List Char → Prop where
  | quote : StringEnd ['"']
  | escape {c : Char} {s : List Char} : StringEnd s → StringEnd ('\\' :: c :: s)
  | char {c : Char} {s : List Char} : c ≠ '"' → c ≠ '\\' → StringEnd s → StringEnd (c :: s)

theorem StringEnd.eq_of_append {u v a b : List Char} (hu : StringEnd u) (hv : StringEnd v)
    (h : u ++ a = v ++ b) : u = v := by
  induction hu generalizing v with
  | quote =>
    cases hv with
    | quote => rfl
    | escape => simp at h
    | char hne => simp only [List.cons_append, List.cons.injEq] at h; exact absurd h.1.symm hne
  | escape _ ih =>
    cases hv with
    | quote => simp at h
    | escape hv =>
      simp only [List.cons_append, List.cons.injEq, true_and] at h
      obtain ⟨rfl, h⟩ := h
      rw [ih hv h]
    | char _ hne => simp only [List.cons_append, List.cons.injEq] at h; exact absurd h.1.symm hne
  | char hq hne _ ih =>
    cases hv with
    | quote => simp only [List.cons_append, List.cons.injEq] at h; exact absurd h.1 hq
    | escape => simp only [List.cons_append, List.cons.injEq] at h; exact absurd h.1 hne
    | char _ _ hv =>
      simp only [List.cons_append, List.cons.injEq] at h
      obtain ⟨rfl, h⟩ := h
      rw [ih hv h]

theorem fourDigits_eq_ok {s rest : List Char} {n : Nat} (h : fourDigits s = .ok (n, rest)) :
    ∃ digits, HexDigits n digits ∧ s = digits ++ rest := by
  unfold fourDigits at h
  split at h
  · split at h
    · rename_i ha hb hc hd
      cases h
      exact ⟨_, .four ha hb hc hd, rfl⟩
    · cases h
  · split at h <;> cases h

theorem HexDigits.stringEnd {n : Nat} {digits u : List Char} (h : HexDigits n digits)
    (hu : StringEnd u) : StringEnd (digits ++ u) := by
  have hhex {c : Char} {v : Nat} (hc : hexValue? c = some v) : c ≠ '"' ∧ c ≠ '\\' := by
    constructor <;> (rintro rfl; exact absurd hc (by simp [hexValue?]))
  cases h with
  | four ha hb hc hd =>
    exact .char (hhex ha).1 (hhex ha).2 (.char (hhex hb).1 (hhex hb).2
      (.char (hhex hc).1 (hhex hc).2 (.char (hhex hd).1 (hhex hd).2 hu)))

theorem lowHalf_eq_char {high : Nat} {s t : List Char} {c : Char}
    (h : lowHalf high s = .char c t) : ∃ low digits, HexDigits low digits ∧
      isLowSurrogate low = true ∧ s = '\\' :: 'u' :: digits ++ t ∧
      c = Char.ofNat ((high - 0xD800) * 0x400 + (low - 0xDC00) + 0x10000) := by
  unfold lowHalf at h
  split at h
  · split at h
    · rename_i low rest hfour
      split at h
      · rename_i hlow
        obtain ⟨digits, hdigits, rfl⟩ := fourDigits_eq_ok hfour
        obtain ⟨hc, rfl⟩ := Escape.char.injEq .. ▸ h
        exact ⟨low, digits, hdigits, hlow, rfl, hc.symm⟩
      · cases h
    · cases h
  all_goals cases h

/-- What an escape takes is always the same, and never a quote. -/
theorem escape_eq_char {s t : List Char} {c : Char} (h : escape s = .char c t) :
    ∃ taken, s = taken ++ t ∧ (∀ u, StringEnd u → StringEnd ('\\' :: (taken ++ u))) ∧
      ∀ t', escape (taken ++ t') = .char c t' := by
  unfold escape at h
  split at h
  case h_10 s =>
    split at h
    · rename_i n rest hfour
      obtain ⟨digits, hdigits, rfl⟩ := fourDigits_eq_ok hfour
      split at h
      · rename_i hhigh
        obtain ⟨low, lowDigits, hlowDigits, hlow, rfl, hc⟩ := lowHalf_eq_char h
        refine ⟨'u' :: (digits ++ '\\' :: 'u' :: lowDigits), by simp, fun u hu => ?_, fun t' => ?_⟩
        · have hend := StringEnd.escape (c := 'u') (hdigits.stringEnd (.escape (c := 'u')
            (hlowDigits.stringEnd hu)))
          simpa using hend
        · simp [escape, hdigits.fourDigits, hhigh, lowHalf, hlowDigits.fourDigits, hlow, hc]
      · rename_i hhigh
        split at h
        · cases h
        · rename_i hlow
          cases h
          refine ⟨'u' :: digits, rfl, fun u hu => .escape (hdigits.stringEnd hu), fun t' => ?_⟩
          simp [escape, hdigits.fourDigits, hhigh, hlow]
    · cases h
  all_goals cases h
  all_goals exact ⟨[_], rfl, fun u hu => .escape hu, fun _ => rfl⟩

theorem lowHalf_eq_half {high : Nat} {s t : List Char} {fault : Fault}
    (h : lowHalf high s = .half fault t) : s = t := by
  unfold lowHalf at h
  split at h
  · split at h
    · split at h <;> cases h; rfl
    · cases h; rfl
  all_goals cases h; rfl

theorem escape_eq_half {s t : List Char} {fault : Fault} (h : escape s = .half fault t) :
    ∃ n digits, HexDigits n digits ∧ s = 'u' :: digits ++ t ∧
      (isHighSurrogate n = true ∧ lowHalf n t = .half fault t ∨
        isHighSurrogate n = false ∧ isLowSurrogate n = true ∧ fault = .loneSurrogate) := by
  unfold escape at h
  split at h
  case h_10 s =>
    split at h
    · rename_i n rest hfour
      obtain ⟨digits, hdigits, rfl⟩ := fourDigits_eq_ok hfour
      split at h
      · rename_i hhigh
        obtain rfl := lowHalf_eq_half h
        exact ⟨n, digits, hdigits, rfl, .inl ⟨hhigh, h⟩⟩
      · rename_i hhigh
        split at h
        · rename_i hlow
          cases h
          exact ⟨n, digits, hdigits, rfl, .inr ⟨by simpa using hhigh, hlow, rfl⟩⟩
        · cases h
    · cases h
  all_goals cases h

theorem lowHalf_cutOff {high : Nat} {s : List Char} (hpair : ∀ t, s ≠ '\\' :: 'u' :: t)
    (hlong : s ≠ [] ∧ s ≠ ['\\']) : lowHalf high s = .half .surrogateCutOff s := by
  unfold lowHalf
  split
  · exact absurd rfl (hpair _)
  · exact absurd rfl hlong.1
  · exact absurd rfl hlong.2
  · rfl

theorem scanString_half {s t : List Char} {fault : Fault} (h : escape s = .half fault t) :
    scanString ('\\' :: s) = (scanString t).spoil fault := by
  rw [scanString, if_neg (by decide), if_pos rfl]
  split <;> simp_all

theorem scanString_wrong {s : List Char} {fault : Fault} (h : escape s = .wrong fault) :
    scanString ('\\' :: s) = .broken fault fault := by
  rw [scanString, if_neg (by decide), if_pos rfl]
  split <;> simp_all

/-- A half that misses its other half misses it in front of every text that begins with the same
string. -/
theorem lowHalf_append {high : Nat} {taken rest : List Char} {fault : Fault}
    {value : Except Fault (List Char)}
    (h : lowHalf high (taken ++ rest) = .half fault (taken ++ rest))
    (hclosed : scanString taken = .closed value []) (rest' : List Char) :
    lowHalf high (taken ++ rest') = .half fault (taken ++ rest') := by
  by_cases hpair : ∃ u, taken = '\\' :: 'u' :: u
  · obtain ⟨u, rfl⟩ := hpair
    -- without the digits the string would be broken
    cases hfour : fourDigits u with
    | error fault =>
      have hwrong : escape ('u' :: u) = .wrong fault := by simp [escape, hfour]
      rw [scanString_wrong hwrong] at hclosed
      cases hclosed
    | ok x =>
      obtain ⟨low, behind⟩ := x
      obtain ⟨digits, hdigits, rfl⟩ := fourDigits_eq_ok hfour
      simp only [lowHalf, List.cons_append, List.append_assoc, hdigits.fourDigits] at h ⊢
      by_cases hlow : isLowSurrogate low
      · rw [if_pos hlow] at h; cases h
      · rw [if_neg hlow] at h ⊢
        rw [(Escape.half.inj h).1]
  · have hlong : taken ≠ [] ∧ taken ≠ ['\\'] := by
      constructor <;> rintro rfl
      · simp [scanString] at hclosed
      · rw [scanString_wrong rfl] at hclosed
        cases hclosed
    have hcut (rest : List Char) :
        lowHalf high (taken ++ rest) = .half .surrogateCutOff (taken ++ rest) := by
      obtain ⟨c, u, rfl⟩ := List.exists_cons_of_ne_nil hlong.1
      cases u with
      | nil =>
        have hc : c ≠ '\\' := fun hc => hlong.2 (hc ▸ rfl)
        exact lowHalf_cutOff (fun t ht => hc (List.cons.inj ht).1)
          ⟨List.cons_ne_nil _ _, fun ht => hc (List.cons.inj ht).1⟩
      | cons d u =>
        refine lowHalf_cutOff (fun t ht => hpair ⟨u, ?_⟩) ⟨List.cons_ne_nil _ _, by simp⟩
        simp only [List.cons_append, List.cons.injEq] at ht
        rw [ht.1, ht.2.1]
    rw [hcut] at h
    rw [hcut, (Escape.half.inj h).1]

theorem StringScan.of_cons_eq_closed {c : Char} {s : StringScan}
    {value : Except Fault (List Char)} {rest : List Char} (h : s.cons c = .closed value rest) :
    ∃ inner, s = .closed inner rest ∧ inner.map (c :: ·) = value := by
  cases s with
  | broken => cases h
  | closed inner => cases h; exact ⟨inner, rfl, rfl⟩

theorem StringScan.of_spoil_eq_closed {fault : Fault} {s : StringScan}
    {value : Except Fault (List Char)} {rest : List Char} (h : s.spoil fault = .closed value rest) :
    ∃ inner, s = .closed inner rest ∧ .error fault = value := by
  cases s with
  | broken => cases h
  | closed inner => cases h; exact ⟨inner, rfl, rfl⟩

/-- A string that ended is the same string in front of any other text. -/
theorem scanString_eq_closed {s rest : List Char} {value : Except Fault (List Char)}
    (h : scanString s = .closed value rest) :
    ∃ taken, s = taken ++ rest ∧ StringEnd taken ∧
      ∀ rest', scanString (taken ++ rest') = .closed value rest' := by
  fun_induction scanString s generalizing value with
  | case1 => cases h
  | case2 rest =>
    cases h
    exact ⟨['"'], rfl, .quote, fun _ => by rw [List.singleton_append, scanString, if_pos rfl]⟩
  | case3 s d t hescape _ ih =>
    obtain ⟨inner, hinner, rfl⟩ := StringScan.of_cons_eq_closed h
    obtain ⟨behind, rfl, hbehind, hagain⟩ := ih hinner
    obtain ⟨taken, rfl, htaken, hsame⟩ := escape_eq_char hescape
    refine ⟨'\\' :: (taken ++ behind), by simp, htaken behind hbehind, fun rest' => ?_⟩
    rw [List.cons_append, List.append_assoc, scanString_escape (hsame (behind ++ rest')), hagain]
    rfl
  | case4 s fault t hescape _ ih =>
    obtain ⟨inner, hinner, rfl⟩ := StringScan.of_spoil_eq_closed h
    obtain ⟨behind, rfl, hbehind, hagain⟩ := ih hinner
    obtain ⟨n, digits, hdigits, rfl, hhalf⟩ := escape_eq_half hescape
    refine ⟨'\\' :: 'u' :: digits ++ behind, by simp, .escape (hdigits.stringEnd hbehind),
      fun rest' => ?_⟩
    have hescape' : escape ('u' :: digits ++ (behind ++ rest')) =
        .half fault (behind ++ rest') := by
      have hclosed := hagain []
      rw [List.append_nil] at hclosed
      rcases hhalf with ⟨hhigh, hlow⟩ | ⟨hhigh, hlow, rfl⟩
      · simp [escape, hdigits.fourDigits, hhigh, lowHalf_append hlow hclosed rest']
      · simp [escape, hdigits.fourDigits, hhigh, hlow]
    have hspoil := scanString_half hescape'
    rw [hagain] at hspoil
    simpa [StringScan.spoil] using hspoil
  | case5 => cases h
  | case6 => cases h
  | case7 c s hq hb hc ih =>
    obtain ⟨inner, hinner, rfl⟩ := StringScan.of_cons_eq_closed h
    obtain ⟨behind, rfl, hbehind, hagain⟩ := ih hinner
    refine ⟨c :: behind, rfl, .char hq hb hbehind, fun rest' => ?_⟩
    rw [List.cons_append, scanString, if_neg hq, if_neg hb, if_neg hc, hagain]
    rfl

/-! ## Numbers -/

def opensBracket (c : Char) : Bool := c = '[' || c = '\x7b'

def closesBracket (c : Char) : Bool := c = ']' || c = '\x7d'

/-- Neither a bracket nor the quote of a string. -/
def Plain (c : Char) : Prop := opensBracket c = false ∧ closesBracket c = false ∧ c ≠ '"'

instance (c : Char) : Decidable (Plain c) := inferInstanceAs (Decidable (_ ∧ _ ∧ _))

theorem plain_of_isDigit {c : Char} (h : c.isDigit = true) : Plain c := by
  simp only [Plain, opensBracket, closesBracket, Bool.or_eq_false_iff, decide_eq_false_iff_not]
  refine ⟨⟨?_, ?_⟩, ⟨?_, ?_⟩, ?_⟩ <;> (rintro rfl; exact absurd h (by decide))

theorem head?_append_congr {rest rest' : List Char} (taken : List Char)
    (h : rest'.head? = rest.head?) : (taken ++ rest').head? = (taken ++ rest).head? := by
  cases taken with
  | nil => exact h
  | cons => rfl

/-- Of the text behind what it takes, a scanner looks at the first character only. -/
def Stops {α : Type} (scan : List Char → Except Bool (α × List Char)) : Prop :=
  ∀ s a rest, scan s = .ok (a, rest) →
    ∃ taken, s = taken ++ rest ∧ (∀ c ∈ taken, Plain c) ∧
      ∀ rest', rest'.head? = rest.head? → scan (taken ++ rest') = .ok (a, rest')

theorem Stops.bind {α β : Type} {scan : List Char → Except Bool (α × List Char)}
    {next : α → List Char → Except Bool (β × List Char)} (h : Stops scan)
    (hnext : ∀ a, Stops (next a)) : Stops fun s => scan s >>= fun d => next d.1 d.2 := by
  intro s b rest hs
  beta_reduce at hs
  cases hscan : scan s with
  | error => rw [hscan] at hs; cases hs
  | ok d =>
    obtain ⟨a, middle⟩ := d
    rw [hscan] at hs
    obtain ⟨first, rfl, hfirst, hagain⟩ := h s a middle hscan
    obtain ⟨second, rfl, hsecond, hagain'⟩ := hnext a middle b rest hs
    refine ⟨first ++ second, by simp, fun c hc => ?_, fun rest' hhead => ?_⟩
    · exact (List.mem_append.mp hc).elim (hfirst c) (hsecond c)
    · have hstart := hagain (second ++ rest') (head?_append_congr second hhead)
      simp only [List.append_assoc, hstart]
      exact hagain' rest' hhead

theorem Stops.pure {α : Type} (a : α) : Stops fun s => .ok (a, s) := by
  intro s b rest h
  cases h
  exact ⟨[], rfl, nofun, fun _ _ => rfl⟩

theorem Stops.map {α β : Type} {scan : List Char → Except Bool (α × List Char)} (h : Stops scan)
    (f : α → β) : Stops fun s => (scan s).map fun d => (f d.1, d.2) := by
  have hbind := h.bind fun a => Stops.pure (f a)
  have heq : (fun s => scan s >>= fun d => .ok (f d.1, d.2)) =
      fun s => (scan s).map fun d => (f d.1, d.2) := by
    funext s
    cases scan s <;> rfl
  rwa [heq] at hbind

theorem someDigits_eq_ok {s ds rest : List Char} (h : someDigits s = .ok (ds, rest)) :
    s = ds ++ rest ∧ Digits ds ∧ NoDigit rest := by
  unfold someDigits at h
  split at h
  · cases h
  · rename_i hne
    cases h
    refine ⟨List.takeWhile_append_dropWhile.symm, ⟨hne, fun c hc => ?_⟩, fun c hc => ?_⟩
    · exact List.all_eq_true.mp List.all_takeWhile c hc
    · have hnot := List.head?_dropWhile_not Char.isDigit s
      rw [Option.mem_def.mp hc] at hnot
      simpa using hnot

theorem stops_someDigits : Stops someDigits := by
  intro s ds rest h
  obtain ⟨rfl, hds, hrest⟩ := someDigits_eq_ok h
  refine ⟨ds, rfl, fun c hc => plain_of_isDigit (hds.2 c hc), fun rest' hhead => ?_⟩
  exact someDigits_append hds fun c hc => hrest c (hhead ▸ hc)

theorem stops_wholeDigits : Stops wholeDigits := by
  intro s w rest h
  have hsome : someDigits s = .ok (w, rest) := by
    unfold wholeDigits at h
    split at h
    · cases h
    · exact h
  obtain ⟨rfl, hw, hrest⟩ := someDigits_eq_ok hsome
  refine ⟨w, rfl, fun c hc => plain_of_isDigit (hw.2 c hc), fun rest' hhead => ?_⟩
  have hsome' := someDigits_append hw fun c hc => hrest c (hhead ▸ hc)
  unfold wholeDigits at h ⊢
  rw [hsome] at h
  rw [hsome']
  split at h
  · cases h
  · split
    · simp_all
    · rfl

theorem stops_fractionDigits : Stops fractionDigits := by
  intro s f rest h
  unfold fractionDigits at h
  split at h
  · obtain ⟨taken, rfl, htaken, hagain⟩ := (stops_someDigits.map some) _ f rest h
    refine ⟨'.' :: taken, rfl, fun c hc => ?_, fun rest' hhead => ?_⟩
    · rcases List.mem_cons.mp hc with rfl | hc
      · decide
      · exact htaken c hc
    · exact hagain rest' hhead
  · rename_i hpoint
    cases h
    refine ⟨[], rfl, nofun, fun rest' hhead => ?_⟩
    cases rest' with
    | nil => rfl
    | cons c rest' =>
      rw [List.nil_append, fractionDigits]
      rintro t ⟨⟩
      cases hs : s with
      | nil => simp [hs] at hhead
      | cons d s =>
        simp only [hs, List.head?_cons, Option.some.injEq] at hhead
        exact hpoint s (hs.trans (by rw [hhead]))

/-- The digits of an exponent, with the sign in front of them. -/
def signedDigits : List Char → Except Bool (Option (Bool × List Char) × List Char)
  | '-' :: s => (someDigits s).map fun d => (some (true, d.1), d.2)
  | '+' :: s => (someDigits s).map fun d => (some (false, d.1), d.2)
  | s => (someDigits s).map fun d => (some (false, d.1), d.2)

theorem exponentDigits_of_mark {e : Char} (he : e = 'e' ∨ e = 'E') (s : List Char) :
    exponentDigits (e :: s) = signedDigits s := by
  refine (if_pos he).trans ?_
  split
  · rfl
  · rfl
  · rename_i hminus hplus
    rw [signedDigits]
    · exact hminus
    · exact hplus

theorem exponentDigits_of_not_mark {e : Char} (he : ¬ (e = 'e' ∨ e = 'E')) (s : List Char) :
    exponentDigits (e :: s) = .ok (none, e :: s) := if_neg he

theorem stops_signedDigits : Stops signedDigits := by
  intro s x rest h
  unfold signedDigits at h
  split at h
  · obtain ⟨taken, rfl, htaken, hagain⟩ :=
      stops_someDigits.map (fun ds => some (true, ds)) _ x rest h
    exact ⟨'-' :: taken, rfl, List.forall_mem_cons.mpr ⟨by decide, htaken⟩, hagain⟩
  · obtain ⟨taken, rfl, htaken, hagain⟩ :=
      stops_someDigits.map (fun ds => some (false, ds)) _ x rest h
    exact ⟨'+' :: taken, rfl, List.forall_mem_cons.mpr ⟨by decide, htaken⟩, hagain⟩
  · rename_i hminus hplus
    obtain ⟨taken, rfl, htaken, hagain⟩ :=
      stops_someDigits.map (fun ds => some (false, ds)) _ x rest h
    refine ⟨taken, rfl, htaken, fun rest' hhead => ?_⟩
    have hsame := head?_append_congr taken hhead
    have hsign {c : Char} {s : List Char} (hc : taken ++ rest' = c :: s) :
        ∃ s', taken ++ rest = c :: s' := by
      rw [hc] at hsame
      exact List.head?_eq_some_iff.mp hsame.symm
    unfold signedDigits
    split
    · rename_i heq
      obtain ⟨s, hs⟩ := hsign heq
      exact absurd hs (hminus s)
    · rename_i heq
      obtain ⟨s, hs⟩ := hsign heq
      exact absurd hs (hplus s)
    · exact hagain rest' hhead

theorem stops_exponentDigits : Stops exponentDigits := by
  intro s x rest h
  cases s with
  | nil =>
    cases h
    refine ⟨[], rfl, nofun, fun rest' hhead => ?_⟩
    rw [List.head?_eq_none_iff.mp hhead]
    rfl
  | cons e s =>
    by_cases he : e = 'e' ∨ e = 'E'
    · rw [exponentDigits_of_mark he] at h
      obtain ⟨taken, rfl, htaken, hagain⟩ := stops_signedDigits s x rest h
      have hplain : Plain e := by rcases he with rfl | rfl <;> decide
      refine ⟨e :: taken, rfl, List.forall_mem_cons.mpr ⟨hplain, htaken⟩, fun rest' hhead => ?_⟩
      rw [List.cons_append, exponentDigits_of_mark he]
      exact hagain rest' hhead
    · rw [exponentDigits_of_not_mark he] at h
      cases h
      refine ⟨[], rfl, nofun, fun rest' hhead => ?_⟩
      obtain ⟨s', rfl⟩ := List.head?_eq_some_iff.mp hhead
      exact exponentDigits_of_not_mark he s'

theorem scanNumber_eq_closed_iff {negative : Bool} {s rest : List Char} {parts : NumberParts} :
    scanNumber negative s = .closed parts rest ↔
      (wholeDigits s >>= fun w => fractionDigits w.2 >>= fun f => exponentDigits f.2 >>= fun x =>
        .ok (NumberParts.mk negative w.1 f.1 x.1, x.2)) = .ok (parts, rest) := by
  unfold scanNumber
  dsimp only [Bind.bind, Except.bind]
  cases wholeDigits s with
  | error => simp
  | ok w =>
    dsimp only
    cases fractionDigits w.2 with
    | error => simp
    | ok f =>
      dsimp only
      cases exponentDigits f.2 with
      | error => simp
      | ok x => simp [Pure.pure, Except.pure]

/-- A number that ended is the same number in front of any other text that begins with the same
character. -/
theorem scanNumber_eq_closed {negative : Bool} {s rest : List Char} {parts : NumberParts}
    (h : scanNumber negative s = .closed parts rest) :
    ∃ taken, s = taken ++ rest ∧ (∀ c ∈ taken, Plain c) ∧
      ∀ rest', rest'.head? = rest.head? →
        scanNumber negative (taken ++ rest') = .closed parts rest' := by
  have hstops := stops_wholeDigits.bind fun whole => stops_fractionDigits.bind fun fraction =>
    stops_exponentDigits.bind fun exponent =>
      Stops.pure (NumberParts.mk negative whole fraction exponent)
  obtain ⟨taken, hs, htaken, hagain⟩ := hstops s parts rest (scanNumber_eq_closed_iff.mp h)
  exact ⟨taken, hs, htaken, fun rest' hhead => scanNumber_eq_closed_iff.mpr (hagain rest' hhead)⟩

/-! ## Tokens -/

def Token.isBroken : Token → Bool
  | .broken _ _ | .brokenString _ _ => true
  | _ => false

/-- How many brackets are open behind a token. -/
def Token.depth : Token → Nat → Nat
  | .openList, n | .openObject, n => n + 1
  | .closeList, n | .closeObject, n => n - 1
  | _, n => n

/-- The texts of tokens, as far as brackets and quotes go. -/
inductive Token.Text : Token → List Char → Prop where
  | opening {t : Token} {c : Char} : opensBracket c = true → (∀ n, t.depth n = n + 1) → Text t [c]
  | closing {t : Token} {c : Char} : closesBracket c = true → (∀ n, t.depth n = n - 1) → Text t [c]
  | string {k : Key} {s : List Char} : StringEnd s → Text (.string k) ('"' :: s)
  | plain {t : Token} {s : List Char} : s ≠ [] → (∀ c ∈ s, Plain c) → (∀ n, t.depth n = n) →
      Text t s

theorem scanWord_eq {t tok : Token} {word s rest : List Char} (h : scanWord t word s = (tok, rest))
    (htok : tok.isBroken = false) : tok = t ∧ s = word ++ rest := by
  fun_induction scanWord t word s with
  | case1 s => cases h; exact ⟨rfl, rfl⟩
  | case2 => cases h; cases htok
  | case3 word c s ih => exact ⟨(ih h).1, congrArg (c :: ·) (ih h).2⟩
  | case4 => cases h; cases htok

theorem scanWord_append (t : Token) (word rest : List Char) :
    scanWord t word (word ++ rest) = (t, rest) := by
  induction word with
  | nil => rfl
  | cons c word ih => rw [List.cons_append, scanWord, if_pos rfl, ih]

/-- Whatever begins with the text of a token and goes on with the same character behind it begins
with the same token. -/
def TakesToken (c : Char) (s : List Char) (tok : Token) (rest : List Char) : Prop :=
  ∃ taken, s = taken ++ rest ∧ tok.Text (c :: taken) ∧
    ∀ rest', rest'.head? = rest.head? → token c (taken ++ rest') = (tok, rest')

theorem TakesToken.word {c : Char} {t tok : Token} {word s rest : List Char}
    (h : scanWord t word s = (tok, rest)) (htok : tok.isBroken = false)
    (hc : ∀ s, token c s = scanWord t word s) (hplain : ∀ d ∈ c :: word, Plain d)
    (hdepth : ∀ n, t.depth n = n) : TakesToken c s tok rest := by
  obtain ⟨rfl, rfl⟩ := scanWord_eq h htok
  refine ⟨word, rfl, .plain (List.cons_ne_nil c word) hplain hdepth, fun rest' _ => ?_⟩
  rw [hc, scanWord_append]

theorem NumberScan.token_eq {negative : Bool} {s rest : List Char} {tok : Token}
    (h : (scanNumber negative s).token = (tok, rest)) (htok : tok.isBroken = false) :
    ∃ taken, s = taken ++ rest ∧ (∀ c ∈ taken, Plain c) ∧ (∀ n, tok.depth n = n) ∧
      ∀ rest', rest'.head? = rest.head? →
        (scanNumber negative (taken ++ rest')).token = (tok, rest') := by
  cases hscan : scanNumber negative s with
  | broken atEnd =>
    rw [hscan] at h
    cases atEnd <;> (cases h; cases htok)
  | closed parts behind =>
    rw [hscan] at h
    cases h
    obtain ⟨taken, hs, htaken, hagain⟩ := scanNumber_eq_closed hscan
    exact ⟨taken, hs, htaken, fun _ => rfl, fun rest' hhead => by rw [hagain rest' hhead]; rfl⟩

theorem negativeToken_eq (s : List Char) : negativeToken s = (scanNumber true s).token := by
  cases s <;> rfl

theorem TakesToken.negative {s rest : List Char} {tok : Token}
    (h : negativeToken s = (tok, rest)) (htok : tok.isBroken = false) :
    TakesToken '-' s tok rest := by
  rw [negativeToken_eq] at h
  obtain ⟨taken, rfl, htaken, hdepth, hagain⟩ := NumberScan.token_eq h htok
  refine ⟨taken, rfl, .plain nofun (List.forall_mem_cons.mpr ⟨by decide, htaken⟩) hdepth,
    fun rest' hhead => ?_⟩
  exact (negativeToken_eq _).trans (hagain rest' hhead)

theorem TakesToken.digit {c : Char} {s rest : List Char} {tok : Token} (hc : c.isDigit = true)
    (h : (scanNumber false (c :: s)).token = (tok, rest)) (htok : tok.isBroken = false) :
    TakesToken c s tok rest := by
  obtain ⟨taken, hs, htaken, hdepth, hagain⟩ := NumberScan.token_eq h htok
  match taken, hs with
  | [], hs =>
    -- a number takes its first digit
    have hlength := NumberScan.token_length (scanNumber false (c :: s))
    have hle := scanNumber_length false c s
    rw [h] at hlength
    have hs := congrArg List.length hs
    simp only [List.nil_append, List.length_cons] at hlength hs
    omega
  | d :: taken, hs =>
    obtain ⟨rfl, rfl⟩ := List.cons.inj hs
    refine ⟨taken, rfl, .plain nofun htaken hdepth, fun rest' hhead => ?_⟩
    rw [token_digit hc]
    exact hagain rest' hhead

theorem takesToken {c : Char} {s rest : List Char} {tok : Token} (h : token c s = (tok, rest))
    (htok : tok.isBroken = false) : TakesToken c s tok rest := by
  unfold token at h
  split at h
  case h_7 | h_8 | h_9 =>
    refine .word h htok (fun _ => rfl) ?_ fun _ => rfl
    simp [Plain, opensBracket, closesBracket]
  case h_10 =>
    cases hscan : scanString s with
    | broken => rw [hscan] at h; cases h; cases htok
    | closed value behind =>
      rw [hscan] at h
      cases h
      obtain ⟨taken, rfl, htaken, hagain⟩ := scanString_eq_closed hscan
      exact ⟨taken, rfl, .string htaken, fun rest' _ => by simp [token, hagain, StringScan.token]⟩
  case h_11 => exact .negative h htok
  case h_12 =>
    split at h
    · rename_i hc
      exact .digit hc h htok
    · cases h; cases htok
  case h_1 | h_3 => cases h; exact ⟨[], rfl, .opening rfl fun _ => rfl, fun _ _ => rfl⟩
  case h_2 | h_4 => cases h; exact ⟨[], rfl, .closing rfl fun _ => rfl, fun _ _ => rfl⟩
  case h_5 | h_6 =>
    cases h
    have hplain {c : Char} (hc : Plain c) : ∀ d ∈ [c], Plain d := by simpa using hc
    exact ⟨[], rfl, .plain (List.cons_ne_nil _ _) (hplain (by decide)) fun _ => rfl, fun _ _ => rfl⟩

end RuleClasses.Json
