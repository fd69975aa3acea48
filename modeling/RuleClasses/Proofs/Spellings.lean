import RuleClasses.Json.Tree
import Mathlib.Data.List.Basic

/-! The ways to write a string or a number of JSON. The scanners read all of them as the same
value, and stop behind it. -/

namespace RuleClasses.Json

/-! ## Strings -/

/-- Four hexadecimal digits, in small or capital letters, for a number. -/
inductive HexDigits : Nat → List Char → Prop where
  | four {a b c d : Char} {w x y z : Nat} : hexValue? a = some w → hexValue? b = some x →
      hexValue? c = some y → hexValue? d = some z →
      HexDigits (((w * 16 + x) * 16 + y) * 16 + z) [a, b, c, d]

/-- Letters behind a backslash, each with the character it stands for. -/
def shortEscapes : List (Char × Char) :=
  [('"', '"'), ('\\', '\\'), ('/', '/'), ('b', '\x08'), ('f', '\x0c'), ('n', '\n'), ('r', '\r'),
   ('t', '\t')]

/-- The ways to write one character of a string. -/
inductive CharSpelling : Char → List Char → Prop where
  | plain {c : Char} : c ≠ '"' → c ≠ '\\' → ¬ c < ' ' → CharSpelling c [c]
  | short {letter c : Char} : (letter, c) ∈ shortEscapes → CharSpelling c ['\\', letter]
  | unit {c : Char} {s : List Char} : HexDigits c.toNat s → CharSpelling c ('\\' :: 'u' :: s)
  /-- A character beyond the first plane, as a pair of surrogates. -/
  | pair {c : Char} {high low : Nat} {s t : List Char} : HexDigits high s → HexDigits low t →
      isHighSurrogate high = true → isLowSurrogate low = true →
      c.toNat = (high - 0xD800) * 0x400 + (low - 0xDC00) + 0x10000 →
      CharSpelling c ('\\' :: 'u' :: s ++ '\\' :: 'u' :: t)

/-- The ways to write the characters between the quotes. -/
inductive CharsSpelling : List Char → List Char → Prop where
  | nil : CharsSpelling [] []
  | cons {c : Char} {v s t : List Char} : CharSpelling c s → CharsSpelling v t →
      CharsSpelling (c :: v) (s ++ t)

/-- The ways to write a string. -/
inductive StringSpelling (v : String) : List Char → Prop where
  | quoted {s : List Char} : CharsSpelling v.toList s → StringSpelling v ('"' :: s ++ ['"'])

theorem HexDigits.fourDigits {n : Nat} {s : List Char} (h : HexDigits n s) (rest : List Char) :
    Json.fourDigits (s ++ rest) = .ok (n, rest) := by
  cases h with
  | four ha hb hc hd => simp [Json.fourDigits, ha, hb, hc, hd]

theorem not_isHighSurrogate (c : Char) : isHighSurrogate c.toNat = false := by
  have h := c.valid
  simp only [isHighSurrogate, Bool.and_eq_false_iff, decide_eq_false_iff_not]
  simp only [UInt32.isValidChar, Nat.isValidChar] at h
  change ¬ 0xD800 ≤ c.val.toNat ∨ ¬ c.val.toNat ≤ 0xDBFF
  omega

theorem not_isLowSurrogate (c : Char) : isLowSurrogate c.toNat = false := by
  have h := c.valid
  simp only [isLowSurrogate, Bool.and_eq_false_iff, decide_eq_false_iff_not]
  simp only [UInt32.isValidChar, Nat.isValidChar] at h
  change ¬ 0xDC00 ≤ c.val.toNat ∨ ¬ c.val.toNat ≤ 0xDFFF
  omega

theorem escape_short {letter c : Char} (h : (letter, c) ∈ shortEscapes) (rest : List Char) :
    escape (letter :: rest) = .char c rest := by
  simp only [shortEscapes, List.mem_cons, Prod.mk.injEq, List.not_mem_nil, or_false] at h
  rcases h with ⟨rfl, rfl⟩ | ⟨rfl, rfl⟩ | ⟨rfl, rfl⟩ | ⟨rfl, rfl⟩ | ⟨rfl, rfl⟩ | ⟨rfl, rfl⟩ |
    ⟨rfl, rfl⟩ | ⟨rfl, rfl⟩ <;> rfl

theorem escape_unit {c : Char} {s : List Char} (h : HexDigits c.toNat s) (rest : List Char) :
    escape ('u' :: s ++ rest) = .char c rest := by
  simp [escape, h.fourDigits, not_isHighSurrogate, not_isLowSurrogate]

theorem escape_pair {c : Char} {high low : Nat} {s t : List Char} (hs : HexDigits high s)
    (ht : HexDigits low t) (hhigh : isHighSurrogate high = true)
    (hlow : isLowSurrogate low = true)
    (hc : c.toNat = (high - 0xD800) * 0x400 + (low - 0xDC00) + 0x10000) (rest : List Char) :
    escape ('u' :: s ++ '\\' :: 'u' :: t ++ rest) = .char c rest := by
  simp [escape, hs.fourDigits, hhigh, lowHalf, ht.fourDigits, hlow, ← hc]

theorem scanString_escape {s t : List Char} {c : Char} (h : escape s = .char c t) :
    scanString ('\\' :: s) = (scanString t).cons c := by
  rw [scanString, if_neg (by decide), if_pos rfl]
  split <;> simp_all

theorem CharSpelling.scanString {c : Char} {s : List Char} (h : CharSpelling c s)
    (rest : List Char) : Json.scanString (s ++ rest) = (Json.scanString rest).cons c := by
  cases h with
  | plain hq hb hc =>
    rw [List.singleton_append, Json.scanString, if_neg hq, if_neg hb, if_neg hc]
  | short h => exact scanString_escape (escape_short h rest)
  | unit h => exact scanString_escape (escape_unit h rest)
  | pair hs ht hhigh hlow hc =>
    have hpair := scanString_escape (escape_pair hs ht hhigh hlow hc rest)
    simpa using hpair

theorem CharsSpelling.scanString {v s : List Char} (h : CharsSpelling v s) (rest : List Char) :
    Json.scanString (s ++ '"' :: rest) = .closed (.ok v) rest := by
  induction h with
  | nil => rw [List.nil_append, Json.scanString, if_pos rfl]
  | cons hc _ ih => rw [List.append_assoc, hc.scanString, ih]; rfl

/-! ## Numbers -/

/-- At least one digit. -/
def Digits (s : List Char) : Prop := s ≠ [] ∧ ∀ c ∈ s, c.isDigit = true

/-- The digits in front of a point: a zero stands alone. -/
def WholeDigits (s : List Char) : Prop := Digits s ∧ (s.head? = some '0' → s = ['0'])

inductive FractionSpelling : Option (List Char) → List Char → Prop where
  | none : FractionSpelling none []
  | some {ds : List Char} : Digits ds → FractionSpelling (some ds) ('.' :: ds)

inductive ExponentSpelling : Option (Bool × List Char) → List Char → Prop where
  | none : ExponentSpelling none []
  | bare {e : Char} {ds : List Char} : e = 'e' ∨ e = 'E' → Digits ds →
      ExponentSpelling (some (false, ds)) (e :: ds)
  | plus {e : Char} {ds : List Char} : e = 'e' ∨ e = 'E' → Digits ds →
      ExponentSpelling (some (false, ds)) (e :: '+' :: ds)
  | minus {e : Char} {ds : List Char} : e = 'e' ∨ e = 'E' → Digits ds →
      ExponentSpelling (some (true, ds)) (e :: '-' :: ds)

/-- Parts of a number put together again. -/
inductive PartsSpelling : NumberParts → List Char → Prop where
  | mk (negative : Bool) {w f x : List Char} {fraction : Option (List Char)}
      {exponent : Option (Bool × List Char)} : WholeDigits w → FractionSpelling fraction f →
      ExponentSpelling exponent x →
      PartsSpelling ⟨negative, w, fraction, exponent⟩
        ((if negative then ['-'] else []) ++ (w ++ (f ++ x)))

/-- Nothing that would make a number in front of it longer. -/
def EndsNumber (rest : List Char) : Prop :=
  ∀ c ∈ rest.head?, c.isDigit = false ∧ c ≠ '.' ∧ c ≠ 'e' ∧ c ≠ 'E'

def NoDigit (rest : List Char) : Prop := ∀ c ∈ rest.head?, c.isDigit = false

theorem someDigits_append {ds rest : List Char} (h : Digits ds) (hrest : NoDigit rest) :
    someDigits (ds ++ rest) = .ok (ds, rest) := by
  have hstop : rest.takeWhile Char.isDigit = [] ∧ rest.dropWhile Char.isDigit = rest := by
    cases rest with
    | nil => exact ⟨rfl, rfl⟩
    | cons c rest => simp [hrest c rfl]
  rw [someDigits, List.takeWhile_append_of_pos h.2, List.dropWhile_append_of_pos h.2, hstop.1,
    hstop.2, List.append_nil]
  cases ds with
  | nil => exact absurd rfl h.1
  | cons d ds => rfl

theorem wholeDigits_append {w rest : List Char} (h : WholeDigits w) (hrest : NoDigit rest) :
    wholeDigits (w ++ rest) = .ok (w, rest) := by
  rw [wholeDigits, someDigits_append h.1 hrest]
  split
  · rename_i heq
    cases heq
    exact absurd (h.2 rfl) (by simp)
  · rfl

theorem noDigit_cons {c : Char} {s : List Char} (h : c.isDigit = false) :
    NoDigit (c :: s) := by
  intro d hd
  cases hd
  exact h

theorem FractionSpelling.scan {f : Option (List Char)} {s rest : List Char}
    (h : FractionSpelling f s) (hrest : NoDigit rest) (hpoint : ∀ c ∈ rest.head?, c ≠ '.') :
    fractionDigits (s ++ rest) = .ok (f, rest) := by
  cases h with
  | none =>
    match rest with
    | [] => rfl
    | c :: rest =>
      rw [List.nil_append, fractionDigits]
      intro s heq
      cases heq
      exact hpoint _ rfl rfl
  | some hd => simp [fractionDigits, someDigits_append hd hrest, Except.map]

theorem ExponentSpelling.scan {x : Option (Bool × List Char)} {s rest : List Char}
    (h : ExponentSpelling x s) (hrest : EndsNumber rest) :
    exponentDigits (s ++ rest) = .ok (x, rest) := by
  have hno : NoDigit rest := fun c hc => (hrest c hc).1
  cases h with
  | none =>
    match rest with
    | [] => rfl
    | c :: rest =>
      obtain ⟨-, -, he, hE⟩ := hrest c rfl
      simp [exponentDigits, he, hE]
  | @bare e ds he hd =>
    match ds, hd with
    | [], hd => exact absurd rfl hd.1
    | d :: ds, hd =>
      have hminus : d ≠ '-' := by rintro rfl; exact absurd (hd.2 _ List.mem_cons_self) (by decide)
      have hplus : d ≠ '+' := by rintro rfl; exact absurd (hd.2 _ List.mem_cons_self) (by decide)
      have hscan := someDigits_append hd hno
      simp only [List.cons_append] at hscan
      simp [exponentDigits, he, hminus, hplus, hscan, Except.map]
  | plus he hd => simp [exponentDigits, he, someDigits_append hd hno, Except.map]
  | minus he hd => simp [exponentDigits, he, someDigits_append hd hno, Except.map]

theorem EndsNumber.exponent {x : Option (Bool × List Char)} {s rest : List Char}
    (h : ExponentSpelling x s) (hrest : EndsNumber rest) :
    ∀ c ∈ (s ++ rest).head?, c.isDigit = false ∧ c ≠ '.' := by
  have hmark : ∀ {e : Char}, e = 'e' ∨ e = 'E' → e.isDigit = false ∧ e ≠ '.' := by
    rintro e (rfl | rfl) <;> decide
  intro c hc
  cases h with
  | none => exact ⟨(hrest c hc).1, (hrest c hc).2.1⟩
  | bare he | plus he | minus he =>
    cases hc
    exact hmark he

theorem PartsSpelling.scan {n : NumberParts} {s rest : List Char} (h : PartsSpelling n s)
    (hrest : EndsNumber rest) :
    ∃ c t, c.isDigit = true ∧ s = (if n.negative then ['-'] else []) ++ c :: t ∧
      scanNumber n.negative (c :: (t ++ rest)) = .closed n rest := by
  cases h with
  | @mk negative w f x fraction exponent hw hf hx =>
    have hbehind := EndsNumber.exponent hx hrest
    have hwhole : NoDigit (f ++ (x ++ rest)) := by
      cases hf with
      | none => exact fun c hc => (hbehind c hc).1
      | some => exact noDigit_cons rfl
    have hfraction := hf.scan (fun c hc => (hbehind c hc).1) (fun c hc => (hbehind c hc).2)
    have hscan : scanNumber negative (w ++ (f ++ (x ++ rest))) =
        .closed ⟨negative, w, fraction, exponent⟩ rest := by
      simp [scanNumber, bind, Except.bind, wholeDigits_append hw hwhole, hfraction, hx.scan hrest,
        pure, Except.pure]
    match w, hw with
    | [], hw => exact absurd rfl hw.1.1
    | c :: t, hw =>
      refine ⟨c, t ++ (f ++ x), hw.1.2 c List.mem_cons_self, rfl, ?_⟩
      simpa using hscan

theorem token_digit {c : Char} (h : c.isDigit = true) (s : List Char) :
    token c s = (scanNumber false (c :: s)).token := by
  unfold token
  split
  case h_12 => exact if_pos h
  all_goals exact absurd h (by decide)

theorem tokens_cons {c : Char} (h : isSpace c = false) (s : List Char) :
    tokens (c :: s) = (token c s).1 :: tokens (token c s).2 := by
  rw [tokens, if_neg (by simp [h])]

theorem isSpace_of_isDigit {c : Char} (h : c.isDigit = true) : isSpace c = false := by
  simp only [isSpace, Bool.or_eq_false_iff, decide_eq_false_iff_not]
  refine ⟨⟨⟨?_, ?_⟩, ?_⟩, ?_⟩ <;> (rintro rfl; exact absurd h (by decide))

theorem PartsSpelling.tokens {n : NumberParts} {s rest : List Char} (h : PartsSpelling n s)
    (hrest : EndsNumber rest) :
    Json.tokens (s ++ rest) = .number n.value :: Json.tokens rest := by
  obtain ⟨c, t, hc, rfl, hscan⟩ := h.scan hrest
  cases hn : n.negative with
  | true =>
    rw [hn] at hscan
    simp [tokens_cons (c := '-') rfl, token, negativeToken, hscan, NumberScan.token]
  | false =>
    rw [hn] at hscan
    simp [tokens_cons (isSpace_of_isDigit hc), token_digit hc, hscan, NumberScan.token]

/-! ### Integers -/

theorem takeDigits_of_lt {ds : List Char} {n : Nat}
    (h : ds.foldl (fun n d => n * 10 + digitValue d) n < Nat.pow 2 64) :
    takeDigits n ds = (ds.foldl (fun n d => n * 10 + digitValue d) n, 0) := by
  have hle : ∀ (ds : List Char) (n : Nat), n ≤ ds.foldl (fun n d => n * 10 + digitValue d) n := by
    intro ds
    induction ds with
    | nil => exact fun n => Nat.le_refl n
    | cons d ds ih => exact fun n => Nat.le_trans (by omega) (ih (n * 10 + digitValue d))
  induction ds generalizing n with
  | nil => rfl
  | cons d ds ih =>
    rw [takeDigits, if_pos (Nat.lt_of_le_of_lt (hle ds _) h)]
    exact ih h

theorem foldl_toDigits (n : Nat) :
    (Nat.toDigits 10 n).foldl (fun n d => n * 10 + digitValue d) 0 = n := by
  have h := Nat.ofDigitChars_toDigits (b := 10) (n := n) (by decide) (by decide)
  rw [Nat.ofDigitChars_eq_foldl] at h
  simpa only [digitValue, Nat.mul_comm] using h

theorem head?_toDigits {n : Nat} (h : n ≠ 0) : (Nat.toDigits 10 n).head? ≠ some '0' := by
  induction n using Nat.strongRecOn with
  | ind n ih =>
    by_cases hn : n < 10
    · have hall : ∀ d < 10, d ≠ 0 → [Nat.digitChar d].head? ≠ some '0' := by decide
      rw [Nat.toDigits_of_lt_base hn]
      exact hall n hn h
    · rw [Nat.toDigits_of_base_le (by decide) (by omega), List.head?_append_of_ne_nil _
        Nat.toDigits_ne_nil]
      exact ih (n / 10) (by omega) (by omega)

theorem wholeDigits_toDigits (n : Nat) : WholeDigits (Nat.toDigits 10 n) := by
  refine ⟨⟨Nat.toDigits_ne_nil, fun c hc => Nat.isDigit_of_mem_toDigits (by decide) (by decide) hc⟩,
    fun h => ?_⟩
  by_cases hn : n = 0
  · rw [hn]; rfl
  · exact absurd h (head?_toDigits hn)

/-- Integers of 64 bits, with a sign or without one. No others are read as integers. -/
def Fits (n : Int) : Prop := -9223372036854775808 ≤ n ∧ n < 18446744073709551616

theorem partsSpelling_int (n : Int) :
    PartsSpelling ⟨decide (n < 0), Nat.toDigits 10 n.natAbs, none, none⟩ (toString n).toList := by
  have h := PartsSpelling.mk (decide (n < 0)) (wholeDigits_toDigits n.natAbs) .none .none
  have htext : (toString n).toList =
      (if decide (n < 0) then ['-'] else []) ++ (Nat.toDigits 10 n.natAbs ++ ([] ++ [])) := by
    cases n with
    | ofNat m =>
      change (toString m).toList = _
      simp
    | negSucc m =>
      change ("-" ++ toString (m + 1)).toList = _
      simp [Int.negSucc_lt_zero]
  rwa [htext]

theorem value_int {n : Int} (h : Fits n) :
    NumberParts.value ⟨decide (n < 0), Nat.toDigits 10 n.natAbs, none, none⟩ = .ok (.int n) := by
  obtain ⟨hlow, hhigh⟩ := h
  have hdigits : takeDigits 0 (Nat.toDigits 10 n.natAbs) = (n.natAbs, 0) := by
    have hlt : (Nat.toDigits 10 n.natAbs).foldl (fun n d => n * 10 + digitValue d) 0 <
        Nat.pow 2 64 := by
      rw [foldl_toDigits]
      change n.natAbs < 2 ^ 64
      omega
    rw [takeDigits_of_lt hlt, foldl_toDigits]
  simp only [NumberParts.value, hdigits]
  by_cases hn : n < 0
  · have hpos : 0 < n.natAbs := by omega
    have hle : n.natAbs ≤ Nat.pow 2 63 := by change n.natAbs ≤ 2 ^ 63; omega
    have hneg : -(n.natAbs : Int) = n := by omega
    simp only [hn, hpos, hle, hneg, decide_true, Bool.and_self, Bool.not_true, Bool.false_eq_true,
      if_true, if_false]
  · have hnonneg : (n.natAbs : Int) = n := by omega
    simp [hn, hnonneg]

end RuleClasses.Json
