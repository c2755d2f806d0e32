import Mathlib.Data.List.Nodup
import TradingOS.Lib.JsonLoads

namespace TradingOS.Lib.JsonLoads

theorem codePoints_append (l r : List Char) : codePoints (l ++ r) = codePoints l ++ codePoints r :=
  List.map_append

/-- What may follow a value: nothing, or a character that ends it. -/
def Ends (rest : Text) : Prop := ∀ c ∈ rest.head?, c ∈ [.char ',', .char ']', .char '}']

/-- The digits before it end here. -/
def EndsDigits (rest : Text) : Prop := ∀ c ∈ rest.head?, isDigit c = false

theorem endsDigits_cons {c : Char} {rest : Text} (h : c.isDigit = false) :
    EndsDigits (.char c :: rest) := by
  intro d hd
  obtain rfl := Option.some.inj hd
  exact h

section Numbers

variable {rest : Text}

theorem Ends.endsDigits (h : Ends rest) : EndsDigits rest := by
  intro c hc
  have hmem := h c hc
  simp only [List.mem_cons, List.not_mem_nil, or_false] at hmem
  rcases hmem with rfl | rfl | rfl <;> rfl

theorem Ends.head?_ne (h : Ends rest) {c : Char} (hc : c ∉ [',', ']', '}']) :
    rest.head? ≠ some (.char c) := by
  intro hhead
  refine hc ?_
  simpa using h _ hhead

theorem scanDigits_append {ds : List Char} (hds : ∀ c ∈ ds, c.isDigit) (h : EndsDigits rest) :
    scanDigits (codePoints ds ++ rest) = (ds, rest) := by
  have hdigits : ∀ c ∈ codePoints ds, isDigit c := by
    intro c hc
    obtain ⟨d, hd, rfl⟩ := List.mem_map.mp hc
    exact hds d hd
  have hchars : (codePoints ds).filterMap CodePoint.char? = ds := by
    rw [codePoints, List.filterMap_map]
    exact List.filterMap_some
  rw [scanDigits, List.takeWhile_append_of_pos hdigits, List.dropWhile_append_of_pos hdigits]
  cases rest with
  | nil => simp [hchars]
  | cons c rest =>
    have hc : isDigit c = false := h c rfl
    simp [hc, hchars]

theorem head?_toDigits {n : ℕ} (h : 0 < n) : (Nat.toDigits 10 n).head? ≠ some '0' := by
  induction n using Nat.strong_induction_on with
  | _ n ih =>
    rcases lt_or_ge n 10 with hlt | hge
    · rw [Nat.toDigits_of_lt_base hlt]
      have hdigit : ∀ m < 10, 0 < m → [m.digitChar].head? ≠ some '0' := by decide
      exact hdigit n hlt h
    · rw [Nat.toDigits_of_base_le (by decide) hge, List.head?_append_of_ne_nil _ Nat.toDigits_ne_nil]
      exact ih (n / 10) (by omega) (by omega)

theorem scanWhole_of_head? {text : Text} (h : text.head? ≠ some (.char '0')) :
    scanWhole text = scanDigits text := by
  rw [scanWhole]
  rintro rest rfl
  exact h rfl

theorem scanWhole_toDigits (n : ℕ) (h : EndsDigits rest) :
    scanWhole (codePoints (Nat.toDigits 10 n) ++ rest) = (Nat.toDigits 10 n, rest) := by
  rcases Nat.eq_zero_or_pos n with rfl | hpos
  · rw [Nat.toDigits_zero]
    rfl
  · have hhead : (codePoints (Nat.toDigits 10 n) ++ rest).head? ≠ some (.char '0') := by
      rw [codePoints, List.head?_append_of_ne_nil _ (by simp),
        List.head?_map]
      intro hzero
      obtain ⟨c, hc, hzero⟩ := Option.map_eq_some_iff.mp hzero
      rw [CodePoint.char.injEq] at hzero
      exact head?_toDigits hpos (hzero ▸ hc)
    rw [scanWhole_of_head? hhead]
    exact scanDigits_append (fun c hc ↦ isDigit_of_mem_toDigits hc) h

theorem scanFraction_of_head? (h : rest.head? ≠ some (.char '.')) :
    scanFraction rest = ([], rest) := by
  rw [scanFraction]
  rintro rest rfl
  exact h rfl

theorem scanFraction_digitText {ds : List (Fin 10)} (hne : ds ≠ []) (h : EndsDigits rest) :
    scanFraction (.char '.' :: (codePoints (digitText ds) ++ rest)) = (digitText ds, rest) := by
  have hdigits := @scanDigits_append _ (digitText ds) (fun c hc ↦ isDigit_of_mem_digitText hc) h
  rw [scanFraction, hdigits, if_neg]
  simpa [digitText] using hne

/-- A digit by itself, which may be a zero. -/
theorem scanWhole_digitChar (d : Fin 10) (h : EndsDigits rest) :
    scanWhole (.char (Nat.digitChar d) :: rest) = ([Nat.digitChar d], rest) := by
  have hdigits := scanWhole_toDigits d h
  rwa [Nat.toDigits_of_lt_base d.isLt] at hdigits

theorem scanFraction_fractionText (ds : List (Fin 10)) (h : EndsDigits rest)
    (hpoint : rest.head? ≠ some (.char '.')) :
    scanFraction (codePoints (PyFloat.fractionText ds) ++ rest) = (digitText ds, rest) := by
  rw [PyFloat.fractionText]
  split_ifs with hds
  · rw [hds]
    exact scanFraction_of_head? hpoint
  · exact scanFraction_digitText hds h

theorem scanExponent_of_ends (h : Ends rest) : scanExponent rest = (none, rest) := by
  cases rest with
  | nil => rfl
  | cons c rest =>
    have hne : ¬ (c = .char 'e' ∨ c = .char 'E') := by
      rintro (rfl | rfl)
      · exact h.head?_ne (by decide) rfl
      · exact h.head?_ne (by decide) rfl
    rw [scanExponent, if_neg hne]

theorem scanExponent_exponentText (e : ℤ) (h : EndsDigits rest) :
    scanExponent (.char 'e' :: (codePoints (PyFloat.exponentText e) ++ rest)) = (some e, rest) := by
  let digits := (if e.natAbs < 10 then ['0'] else []) ++ Nat.toDigits 10 e.natAbs
  have hdigits : ∀ c ∈ digits, c.isDigit := by
    intro c hc
    rcases List.mem_append.mp hc with hc | hc
    · split_ifs at hc
      · rw [List.mem_singleton.mp hc]
        rfl
      · cases hc
    · exact isDigit_of_mem_toDigits hc
  have hne : digits ≠ [] := fun hnil ↦ Nat.toDigits_ne_nil (List.append_eq_nil_iff.mp hnil).2
  have hvalue : Nat.ofDigitChars 10 digits 0 = e.natAbs := by
    rw [Nat.ofDigitChars_append]
    split_ifs
    · exact Nat.ofDigitChars_ten_toDigits
    · exact Nat.ofDigitChars_ten_toDigits
  have hscan := scanDigits_append hdigits h
  have htext : codePoints (PyFloat.exponentText e) =
      .char (if e < 0 then '-' else '+') :: codePoints digits := rfl
  rw [htext, List.cons_append, scanExponent, if_pos (.inl rfl)]
  split_ifs with hneg
  · have he : -(e.natAbs : ℤ) = e := by omega
    simp only [scanSign, hscan, if_neg hne, hvalue, he, if_true]
  · have he : (e.natAbs : ℤ) = e := by omega
    simp only [scanSign, hscan, if_neg hne, hvalue, he, Bool.false_eq_true, if_false]

theorem ofDigitChars_digitText (ds : List (Fin 10)) (init : ℕ) :
    Nat.ofDigitChars 10 (digitText ds) init = (ds.map Fin.val).foldl (fun n d ↦ 10 * n + d) init := by
  induction ds generalizing init with
  | nil => rfl
  | cons d ds ih =>
    rw [digitText, List.map_cons, Nat.ofDigitChars_cons_digitChar_of_lt_ten d.isLt, List.map_cons,
      List.foldl_cons]
    exact ih _

theorem significand_fixed (negative : Bool) (whole : ℕ) (fraction : List (Fin 10)) :
    (PyFloat.fixed negative whole fraction).significand =
      Nat.ofDigitChars 10 (Nat.toDigits 10 whole ++ digitText fraction) 0 := by
  rw [Nat.ofDigitChars_append, Nat.ofDigitChars_ten_toDigits, ofDigitChars_digitText]
  exact congrArg (List.foldl _ whole) (List.flatMap_pure_eq_map _ _)

theorem significand_scientific (negative : Bool) (lead : Fin 10) (fraction : List (Fin 10))
    (exponent : ℤ) : (PyFloat.scientific negative lead fraction exponent).significand =
      Nat.ofDigitChars 10 (Nat.digitChar lead :: digitText fraction) 0 := by
  rw [Nat.ofDigitChars_cons_digitChar_of_lt_ten lead.isLt, ofDigitChars_digitText, mul_zero,
    zero_add]
  exact congrArg (List.foldl _ lead.val) (List.flatMap_pure_eq_map _ _)

/-- The double that a float's text is read as. -/
def floatValue (x : PyFloat) : Number := doubleOf x.negative x.significand x.shift

/-- A float's text has a digit after its point. -/
def IsRepr : PyFloat → Prop
  | .fixed _ _ fraction => fraction ≠ []
  | .scientific .. => True

theorem scanUnsigned_int (negative : Bool) {n : ℕ} (hn : (Nat.toDigits 10 n).length ≤ 4300)
    (h : Ends rest) :
    scanUnsigned negative (codePoints (Nat.toDigits 10 n) ++ rest) =
      .ok (.int (if negative then -n else n), rest) := by
  have hlength : ¬ intMaxStrDigits < (Nat.toDigits 10 n).length := not_lt.mpr hn
  rw [scanUnsigned, scanWhole_toDigits n h.endsDigits]
  simp only [scanFraction_of_head? (h.head?_ne (by decide : '.' ∉ _)), scanExponent_of_ends h,
    if_neg Nat.toDigits_ne_nil, if_neg hlength, Nat.ofDigitChars_ten_toDigits, and_self, if_true]

theorem scanUnsigned_float {x : PyFloat} (hx : IsRepr x) (h : Ends rest) :
    scanUnsigned x.negative (codePoints x.abs.repr ++ rest) = .ok (.float (floatValue x), rest) := by
  cases x with
  | fixed negative whole fraction =>
    have hfraction : fraction ≠ [] := hx
    have hne : digitText fraction ≠ [] := by simpa [digitText] using hfraction
    have htext : codePoints (PyFloat.fixed false whole fraction).repr ++ rest =
        codePoints (Nat.toDigits 10 whole) ++
          (.char '.' :: (codePoints (digitText fraction) ++ rest)) := by
      simp [PyFloat.repr, signText, codePoints]
    have hshift : (none : Option ℤ).getD 0 - (digitText fraction).length =
        (PyFloat.fixed negative whole fraction).shift := by
      simp [PyFloat.shift, digitText]
    rw [PyFloat.abs, htext, scanUnsigned, scanWhole_toDigits whole (endsDigits_cons rfl)]
    simp only [scanFraction_digitText hfraction h.endsDigits, scanExponent_of_ends h,
      if_neg Nat.toDigits_ne_nil, hne, false_and, if_false, ← significand_fixed negative, hshift]
    rfl
  | scientific negative lead fraction exponent =>
    have htext : codePoints (PyFloat.scientific false lead fraction exponent).repr ++ rest =
        .char (Nat.digitChar lead) :: (codePoints (PyFloat.fractionText fraction) ++
          (.char 'e' :: (codePoints (PyFloat.exponentText exponent) ++ rest))) := by
      simp [PyFloat.repr, signText, codePoints]
    have hshift : (some exponent).getD 0 - (digitText fraction).length =
        (PyFloat.scientific negative lead fraction exponent).shift := by
      simp [PyFloat.shift, digitText]
    have hlead : EndsDigits (codePoints (PyFloat.fractionText fraction) ++
        (.char 'e' :: (codePoints (PyFloat.exponentText exponent) ++ rest))) := by
      rw [PyFloat.fractionText]
      split_ifs
      · exact endsDigits_cons rfl
      · exact endsDigits_cons rfl
    have hfraction := @scanFraction_fractionText
      (.char 'e' :: (codePoints (PyFloat.exponentText exponent) ++ rest)) fraction
      (endsDigits_cons rfl) (by simp)
    rw [PyFloat.abs, htext, scanUnsigned, scanWhole_digitChar lead hlead]
    simp only [hfraction, scanExponent_exponentText exponent h.endsDigits, List.cons_ne_nil,
      reduceCtorEq, and_false, if_false, hshift, List.singleton_append,
      ← significand_scientific negative lead fraction exponent]
    rfl

theorem scanNumber_of_head? {text : Text} (h : text.head? ≠ some (.char '-')) :
    scanNumber text = scanUnsigned false text := by
  rw [scanNumber]
  rintro rest rfl
  exact h rfl

/-- No constant starts with a digit, or with a minus that a digit follows. -/
theorem scanConstant_eq_none {c : Char} (hc : c.isDigit) (negative : Bool) (text : Text) :
    scanConstant (codePoints (signText negative) ++ .char c :: text) = none := by
  have hall : ['n', 't', 'f', 'N', 'I'].all (!·.isDigit) = true := rfl
  have hne : ∀ d ∈ ['n', 't', 'f', 'N', 'I'], CodePoint.char d ≠ .char c := by
    intro d hd heq
    rw [CodePoint.char.injEq] at heq
    have hdigit := List.all_eq_true.mp hall d hd
    rw [heq, hc] at hdigit
    cases hdigit
  simp only [List.forall_mem_cons, List.not_mem_nil, false_imp_iff, implies_true, and_true] at hne
  obtain ⟨hn, ht, hf, hN, hI⟩ := hne
  have hminus : CodePoint.char '-' ≠ .char c := by
    rw [ne_eq, CodePoint.char.injEq]
    rintro rfl
    cases hc
  cases negative <;>
    simp [scanConstant, constants, codePoints, signText, *]

end Numbers

section Strings

variable {rest : Text}

theorem hexDigit_digitChar {d : ℕ} (h : d < 16) : hexDigit (.char d.digitChar) = some d := by
  revert d
  decide

theorem scanHex4_hex4 {n : ℕ} (h : n < 65536) :
    scanHex4 (codePoints (hex4 n) ++ rest) = some (n, rest) := by
  have hdigit (m : ℕ) : hexDigit (.char (m % 16).digitChar) = some (m % 16) :=
    hexDigit_digitChar (Nat.mod_lt m (by decide))
  have hvalue : ((n / 4096 % 16 * 16 + n / 256 % 16) * 16 + n / 16 % 16) * 16 + n % 16 = n := by
    omega
  simp only [hex4, codePoints, List.map_cons, List.map_nil, List.cons_append, List.nil_append,
    scanHex4, hdigit, hvalue]

theorem scanEscape_unicode (text : Text) : scanEscape (.char 'u' :: text) = scanUnicode text := rfl

theorem scanChar_backslash (text : Text) : scanChar (.char '\\' :: text) = scanEscape text := rfl

/-- A character that is written as it is. -/
theorem scanChar_plain {c : Char} (hne : c ≠ '\\') (hc : 0x20 ≤ c.toNat) :
    scanChar (.char c :: rest) = some (.char c, rest) := by
  rw [scanChar, if_neg hne, if_neg (not_lt.mpr hc)]

theorem scanChar_escape (c : Char) :
    scanChar (codePoints (escape c) ++ rest) = some (.char c, rest) := by
  have hvalid : c.toNat < 0xd800 ∨ 0xdfff < c.toNat ∧ c.toNat < 0x110000 := c.valid
  by_cases hshort : c ∈ shortEscaped
  · simp only [shortEscaped, List.mem_cons, List.not_mem_nil, or_false] at hshort
    rcases hshort with rfl | rfl | rfl | rfl | rfl | rfl | rfl <;> rfl
  rw [escape_of_notMem hshort]
  split_ifs with hplain hbmp
  · have hne : c ≠ '\\' := by
      rintro rfl
      exact hshort (by decide)
    exact scanChar_plain hne hplain.1
  · have hhigh : isHighSurrogate c.toNat = false := by
      simp only [isHighSurrogate, Bool.and_eq_false_iff, decide_eq_false_iff_not]
      omega
    have hread := @scanHex4_hex4 rest _ hbmp
    show scanUnicode (codePoints (hex4 c.toNat) ++ rest) = _
    rw [scanUnicode, hread]
    simp only [hhigh, Bool.false_eq_true, if_false, CodePoint.ofNat_toNat]
  · obtain ⟨high, hhigh⟩ : ∃ high, high = 0xd800 + (c.toNat - 0x10000) / 0x400 := ⟨_, rfl⟩
    obtain ⟨low, hlow⟩ : ∃ low, low = 0xdc00 + (c.toNat - 0x10000) % 0x400 := ⟨_, rfl⟩
    have hisHigh : isHighSurrogate high := by
      simp only [isHighSurrogate, Bool.and_eq_true, decide_eq_true_eq]
      omega
    have hisLow : isLowSurrogate low := by
      simp only [isLowSurrogate, Bool.and_eq_true, decide_eq_true_eq]
      omega
    have hvalue : 0x10000 + (high - 0xd800) * 0x400 + (low - 0xdc00) = c.toNat := by omega
    have hjoin : joinSurrogates high low = c.toNat := hvalue
    rw [← hhigh, ← hlow]
    have hlowLt : low < 65536 := by omega
    have hhighLt : high < 65536 := by omega
    have hread : scanHex4 (codePoints (hex4 low) ++ rest) = some (low, rest) := scanHex4_hex4 hlowLt
    have hreadHigh : scanHex4 (codePoints (hex4 high) ++
        .char '\\' :: .char 'u' :: (codePoints (hex4 low) ++ rest)) =
        some (high, .char '\\' :: .char 'u' :: (codePoints (hex4 low) ++ rest)) :=
      scanHex4_hex4 hhighLt
    have htext : codePoints ('\\' :: 'u' :: hex4 high ++ '\\' :: 'u' :: hex4 low) ++ rest =
        .char '\\' :: .char 'u' :: (codePoints (hex4 high) ++
          .char '\\' :: .char 'u' :: (codePoints (hex4 low) ++ rest)) := by
      simp [codePoints]
    rw [htext, scanChar_backslash, scanEscape_unicode, scanUnicode, hreadHigh]
    simp only [hisHigh, hread, hisLow, if_true, hjoin, CodePoint.ofNat_toNat]

/-- The characters of a string are read back, if the fuel is enough for them and the quote. -/
theorem scanString_escape {s : List Char} {fuel : ℕ} (h : s.length < fuel) :
    scanString fuel (codePoints (s.flatMap escape) ++ .char '"' :: rest) =
      some (codePoints s, rest) := by
  induction s generalizing fuel with
  | nil =>
    obtain ⟨fuel, rfl⟩ := Nat.exists_eq_succ_of_ne_zero (Nat.ne_of_gt h)
    rfl
  | cons c s ih =>
    obtain ⟨fuel, rfl⟩ := Nat.exists_eq_succ_of_ne_zero (Nat.ne_of_gt (Nat.zero_lt_of_lt h))
    have hopen : (codePoints (escape c) ++
        (codePoints (s.flatMap escape) ++ .char '"' :: rest)).head? ≠ some (.char '"') := by
      rcases escape_cases c with ⟨u, hu⟩ | ⟨hc, hne⟩
      · rw [hu]
        simp [codePoints]
      · rw [hc]
        simpa [codePoints] using hne
    rw [List.flatMap_cons, codePoints_append, List.append_assoc, scanString, if_neg hopen,
      scanChar_escape, Option.bind_some]
    simp only [ih (Nat.lt_of_succ_lt_succ h)]
    rfl

theorem length_le_flatMap_escape (s : List Char) : s.length ≤ (s.flatMap escape).length := by
  induction s with
  | nil => exact le_rfl
  | cons c s ih =>
    have hpos : 1 ≤ (escape c).length := by
      rcases escape_cases c with ⟨u, hu⟩ | ⟨hc, -⟩
      · rw [hu]
        exact Nat.succ_le_succ u.length.zero_le
      · rw [hc]
        exact le_rfl
    rw [List.flatMap_cons, List.length_append, List.length_cons]
    omega

theorem codePoints_quote (s : String) :
    codePoints (quote s) ++ rest =
      .char '"' :: (codePoints (s.toList.flatMap escape) ++ .char '"' :: rest) := by
  simp [quote, escapeAll, codePoints]

/-- A quoted string after its opening quote, with all of the text for fuel. -/
theorem scanString_quote (s : String) :
    scanString (codePoints (s.toList.flatMap escape) ++ .char '"' :: rest).length
      (codePoints (s.toList.flatMap escape) ++ .char '"' :: rest) =
      some (codePoints s.toList, rest) := by
  refine scanString_escape ?_
  have hle := length_le_flatMap_escape s.toList
  rw [List.length_append, codePoints, List.length_map, List.length_cons]
  omega

end Strings

section Containers

variable {α β : Type} {rest : Text}

/-- A text that no space and no closing bracket is at the start of. -/
def Opens (text : List Char) : Prop :=
  ∃ c l, text = c :: l ∧ c ∉ [' ', '\t', '\n', '\r', ']', '}']

theorem skipSpace_of_head? {c : CodePoint} {text : Text} (h : isSpace c = false) :
    skipSpace (c :: text) = c :: text :=
  List.dropWhile_cons_of_neg (by simp [h])

theorem Opens.skipSpace {text : List Char} (h : Opens text) :
    skipSpace (codePoints text ++ rest) = codePoints text ++ rest := by
  obtain ⟨c, l, rfl, hc⟩ := h
  refine skipSpace_of_head? ?_
  simp only [isSpace, decide_eq_false_iff_not]
  intro hmem
  refine hc ?_
  simp only [List.mem_cons, CodePoint.char.injEq, List.not_mem_nil, or_false] at hmem ⊢
  rcases hmem with h | h | h | h <;> simp [h]

theorem Opens.head?_ne {text : List Char} (h : Opens text) {close : Char}
    (hclose : close ∈ [']', '}']) :
    (codePoints text ++ rest).head? ≠ some (.char close) := by
  obtain ⟨c, l, rfl, hc⟩ := h
  intro hhead
  rw [codePoints, List.map_cons, List.cons_append, List.head?_cons, Option.some.injEq,
    CodePoint.char.injEq] at hhead
  subst hhead
  refine hc ?_
  simp only [List.mem_cons, List.not_mem_nil, or_false] at hclose ⊢
  rcases hclose with h | h <;> simp [h]

theorem Opens.append {text : List Char} (h : Opens text) (l : List Char) : Opens (text ++ l) := by
  obtain ⟨c, l', rfl, hc⟩ := h
  exact ⟨c, l' ++ l, rfl, hc⟩

theorem Opens.joinText {text : List Char} (h : Opens text) (texts : List (List Char)) :
    Opens (joinText (text :: texts)) := by
  cases texts with
  | nil => exact h
  | cons text' texts => exact h.append _

theorem skipSpace_comma (text : Text) :
    skipSpace (.char ',' :: text) = .char ',' :: text := skipSpace_of_head? rfl

theorem skipSpace_space (text : Text) : skipSpace (.char ' ' :: text) = skipSpace text := rfl

theorem skipSpace_close {close : Char} (hclose : close ∈ [']', '}']) (text : Text) :
    skipSpace (.char close :: text) = .char close :: text := by
  simp only [List.mem_cons, List.not_mem_nil, or_false] at hclose
  rcases hclose with rfl | rfl <;> exact skipSpace_of_head? rfl

theorem ends_close {close : Char} (hclose : close ∈ [']', '}']) : Ends (.char close :: rest) := by
  intro c hc
  obtain rfl := Option.some.inj hc
  simp only [List.mem_cons, List.not_mem_nil, or_false] at hclose ⊢
  rcases hclose with rfl | rfl <;> simp

/-- Each of the items is scanned as it reads, wherever it stands. -/
structure Reads (scan : Scanner α) (write : β → List Char) (read : β → Except LoadError α)
    (b : β) : Prop where
  opens : Opens (write b)
  scans : ∀ rest, Ends rest → scan (codePoints (write b) ++ rest) = (read b).map (·, rest)

variable {scan : Scanner α} {write : β → List Char} {read : β → Except LoadError α} {close : Char}

/-- Items joined by commas are scanned one by one: the first that fails fails them all. -/
theorem scanItems_joinText (hclose : close ∈ [']', '}']) {items : List β} (hne : items ≠ [])
    (hreads : ∀ b ∈ items, Reads scan write read b) {fuel : ℕ} (hfuel : items.length ≤ fuel) :
    scanItems scan close fuel (codePoints (joinText (items.map write)) ++ .char close :: rest) =
      (items.mapM read).map (·, rest) := by
  have hcomma : CodePoint.char ',' ≠ .char close := by
    rintro heq
    rw [CodePoint.char.injEq] at heq
    subst heq
    revert hclose
    decide
  induction items generalizing fuel with
  | nil => exact absurd rfl hne
  | cons b items ih =>
    obtain ⟨fuel, rfl⟩ := Nat.exists_eq_succ_of_ne_zero (Nat.ne_of_gt (Nat.zero_lt_of_lt hfuel))
    obtain ⟨hb, hitems⟩ := List.forall_mem_cons.mp hreads
    rw [scanItems]
    cases items with
    | nil =>
      rw [List.map_cons, List.map_nil, joinText, hb.scans _ (ends_close hclose)]
      cases hread : read b with
      | error e => simp [hread, Except.map]
      | ok a => simp [hread, Except.map, skipSpace_close hclose]
    | cons b' items =>
      have hends : Ends (.char ',' :: .char ' ' ::
          (codePoints (joinText ((b' :: items).map write)) ++ .char close :: rest)) := by
        intro c hc
        obtain rfl := Option.some.inj hc
        decide
      have htext : codePoints (joinText ((b :: b' :: items).map write)) ++ .char close :: rest =
          codePoints (write b) ++ .char ',' :: .char ' ' ::
            (codePoints (joinText ((b' :: items).map write)) ++ .char close :: rest) := by
        simp [joinText, codePoints]
      rw [htext, hb.scans _ hends, List.mapM_cons]
      cases hread : read b with
      | error e => rfl
      | ok a =>
        have hopens : Opens (joinText ((b' :: items).map write)) :=
          (hitems b' List.mem_cons_self).opens.joinText _
        simp only [Except.map, skipSpace_comma, if_neg hcomma, if_true, skipSpace_space,
          hopens.skipSpace]
        rw [ih (List.cons_ne_nil b' items) hitems (Nat.le_of_succ_le_succ hfuel)]
        cases (b' :: items).mapM read <;> rfl

theorem length_le_joinText {texts : List (List Char)} (h : ∀ text ∈ texts, Opens text) :
    texts.length ≤ (joinText texts).length := by
  induction texts with
  | nil => exact le_rfl
  | cons text texts ih =>
    obtain ⟨⟨c, l, rfl, -⟩, htexts⟩ := List.forall_mem_cons.mp h
    have hle := ih htexts
    cases texts with
    | nil => simp [joinText]
    | cons text' texts =>
      simp only [joinText, List.length_append, List.length_cons] at hle ⊢
      omega

/-- What stands between brackets. -/
theorem scanBody_joinText (hclose : close ∈ [']', '}']) {items : List β}
    (hreads : ∀ b ∈ items, Reads scan write read b) :
    scanBody scan close (codePoints (joinText (items.map write)) ++ .char close :: rest) =
      (items.mapM read).map (·, rest) := by
  have hopens : ∀ text ∈ items.map write, Opens text := by
    intro text htext
    obtain ⟨b, hb, rfl⟩ := List.mem_map.mp htext
    exact (hreads b hb).opens
  cases items with
  | nil =>
    rw [scanBody, List.map_nil, joinText, codePoints, List.map_nil, List.nil_append,
      skipSpace_close hclose]
    simp only [List.head?_cons, if_true, List.tail_cons]
    rfl
  | cons b items =>
    have hfirst : Opens (joinText ((b :: items).map write)) :=
      (hreads b List.mem_cons_self).opens.joinText _
    rw [scanBody]
    simp only [hfirst.skipSpace, hfirst.head?_ne hclose, if_false]
    refine scanItems_joinText hclose (List.cons_ne_nil b items) hreads ?_
    have hle := length_le_joinText hopens
    rw [List.length_map] at hle
    rw [List.length_append, codePoints, List.length_map]
    omega

/-- A member of a mapping: its key, and its value as it reads. -/
theorem reads_memberText {write : β → List Char} {read : β → Except LoadError α} {key : String}
    {b : β} (h : Reads scan write read b) :
    Reads (scanMember scan) (fun m : String × β ↦ memberText (m.1, write m.2))
      (fun m ↦ (read m.2).map fun a ↦ (codePoints m.1.toList, a)) (key, b) where
  opens := ⟨'"', _, rfl, by decide⟩
  scans rest hrest := by
    have htext : codePoints (memberText (key, write b)) ++ rest =
        .char '"' :: (codePoints (key.toList.flatMap escape) ++ .char '"' ::
          .char ':' :: .char ' ' :: (codePoints (write b) ++ rest)) := by
      simp [memberText, quote, escapeAll, codePoints]
    have hcolon : skipSpace (.char ':' :: .char ' ' :: (codePoints (write b) ++ rest)) =
        .char ':' :: .char ' ' :: (codePoints (write b) ++ rest) := skipSpace_of_head? rfl
    rw [htext, scanMember, scanString_quote]
    simp only [hcolon, skipSpace_space, h.opens.skipSpace, h.scans rest hrest]
    cases read b <;> rfl

end Containers

section Values

def leafValue : Leaf → Value
  | .null => .null
  | .bool b => .bool b
  | .int n => .int n
  | .float x => .float (floatValue x)
  | .str s => .str (codePoints s.toList)

/-- What the text of a value is read as. -/
def ofJson : Json String → Value :=
  Json.fold leafValue .list fun members ↦
    .dict (members.map fun m ↦ (codePoints m.1.toList, m.2))

theorem ofJson_list (items : List (Json String)) :
    ofJson (.list items) = .list (items.map ofJson) := Json.fold_list _ _ _ items

theorem ofJson_dict (members : List (String × Json String)) :
    ofJson (.dict members) = .dict (members.map fun m ↦ (codePoints m.1.toList, ofJson m.2)) := by
  rw [ofJson, Json.fold_dict, List.map_map]
  rfl

instance : DecidablePred IsRepr
  | .fixed .. => inferInstanceAs (Decidable (_ ≠ _))
  | .scientific .. => inferInstanceAs (Decidable True)

def LeafWritable : Leaf → Bool
  | .int n => (Nat.toDigits 10 n.natAbs).length ≤ intMaxStrDigits
  | .float x => IsRepr x
  | _ => true

/-- What `json.dumps` writes: no integer is longer than Python writes out, and a key stands once. -/
def Writable : Json String → Bool :=
  Json.fold LeafWritable (fun items ↦ items.all id) fun members ↦
    (members.map Prod.fst).Nodup ∧ members.all Prod.snd

theorem writable_list {items : List (Json String)} :
    Writable (.list items) ↔ ∀ d ∈ items, Writable d := by
  rw [Writable, Json.fold_list, List.all_map, List.all_eq_true]
  rfl

theorem writable_dict {members : List (String × Json String)} :
    Writable (.dict members) ↔
      (members.map Prod.fst).Nodup ∧ ∀ m ∈ members, Writable m.2 := by
  rw [Writable, Json.fold_dict, List.map_map, List.all_map, decide_eq_true_iff, List.all_eq_true]
  rfl

/-- The lists and mappings that a value is within, and itself, if it is one. -/
def depth : Json String → ℕ :=
  Json.fold (fun _ ↦ 0) (fun depths ↦ depths.foldr max 0 + 1) fun members ↦
    (members.map Prod.snd).foldr max 0 + 1

theorem foldr_max_le {l : List ℕ} {n : ℕ} : l.foldr max 0 ≤ n ↔ ∀ m ∈ l, m ≤ n := by
  induction l with
  | nil => simp
  | cons m l ih => simp [ih]

theorem depth_list_le {items : List (Json String)} {n : ℕ} :
    depth (.list items) ≤ n + 1 ↔ ∀ d ∈ items, depth d ≤ n := by
  rw [depth, Json.fold_list, Nat.add_le_add_iff_right, foldr_max_le, List.forall_mem_map]

theorem depth_dict_le {members : List (String × Json String)} {n : ℕ} :
    depth (.dict members) ≤ n + 1 ↔ ∀ m ∈ members, depth m.2 ≤ n := by
  rw [depth, Json.fold_dict, Nat.add_le_add_iff_right, foldr_max_le, List.map_map,
    List.forall_mem_map]
  rfl

/-- What reading a value's text gives, when so many levels may be entered. -/
def readAs (limit : ℕ) (d : Json String) : Except LoadError Value :=
  if depth d ≤ limit then .ok (ofJson d) else .error .recursionError

/-- Items that read unless they are too deep read together unless one of them is. -/
theorem mapM_eq_ite {β γ : Type} {read : β → Except LoadError γ} {fits : β → Prop}
    [DecidablePred fits] {value : β → γ}
    (h : ∀ b, read b = if fits b then .ok (value b) else .error .recursionError) (items : List β) :
    items.mapM read =
      if ∀ b ∈ items, fits b then .ok (items.map value) else .error .recursionError := by
  induction items with
  | nil => simp [pure, Except.pure]
  | cons b items ih =>
    have hall : (∀ b' ∈ b :: items, fits b') ↔ fits b ∧ ∀ b' ∈ items, fits b' :=
      List.forall_mem_cons
    rw [List.mapM_cons, ih, h]
    by_cases hb : fits b
    · by_cases hitems : ∀ b' ∈ items, fits b'
      · rw [if_pos hb, if_pos hitems, if_pos (hall.mpr ⟨hb, hitems⟩)]
        rfl
      · rw [if_pos hb, if_neg hitems, if_neg fun h ↦ hitems (hall.mp h).2]
        rfl
    · rw [if_neg hb, if_neg fun h ↦ hb (hall.mp h).1]
      rfl

/-- Nothing is assigned twice, so the members stay as they stand. -/
theorem foldl_assign {entries : List (Text × Value)} (h : (entries.map Prod.fst).Nodup) :
    entries.foldl assign [] = entries := by
  have happend : ∀ l : List (Text × Value), ∀ acc : List (Text × Value),
      (acc.map Prod.fst ++ l.map Prod.fst).Nodup → l.foldl assign acc = acc ++ l := by
    intro l
    induction l with
    | nil => intro acc _; simp
    | cons e l ih =>
      intro acc hnodup
      have hnew : e.1 ∉ acc.map Prod.fst := by
        intro hmem
        exact (List.nodup_append.mp hnodup).2.2 _ hmem _ List.mem_cons_self rfl
      rw [List.foldl_cons, assign, if_neg hnew, ih]
      · simp
      · simpa using hnodup
  exact happend entries [] h

theorem codePoints_injective : Function.Injective codePoints :=
  List.map_injective_iff.mpr fun _ _ ↦ CodePoint.char.inj

theorem opens_of_numeric {c : Char} {l : List Char} (h : isNumeric c) : Opens (c :: l) := by
  have hall : [' ', '\t', '\n', '\r', ']', '}'].all (!isNumeric ·) = true := rfl
  refine ⟨c, l, rfl, fun hmem ↦ ?_⟩
  have hnumeric := List.all_eq_true.mp hall c hmem
  rw [h] at hnumeric
  cases hnumeric

theorem opens_text (d : Json String) : Opens d.text := by
  cases d with
  | list items =>
    rw [Json.text_list]
    exact ⟨'[', _, rfl, by decide⟩
  | dict members =>
    rw [Json.text_dict]
    exact ⟨'{', _, rfl, by decide⟩
  | leaf a =>
    rw [Json.text_leaf]
    have hnumber (ha : a.isNumber) : Opens a.text := by
      obtain ⟨c, l, hcl⟩ := List.exists_cons_of_ne_nil a.text_ne_nil
      rw [hcl]
      exact opens_of_numeric (Leaf.isNumeric_of_mem_text ha (by rw [hcl]; exact List.mem_cons_self))
    cases a with
    | null => exact ⟨'n', _, rfl, by decide⟩
    | bool b => cases b <;> exact ⟨_, _, rfl, by decide⟩
    | int n => exact hnumber rfl
    | float x => exact hnumber rfl
    | str s => exact ⟨'"', _, rfl, by decide⟩

section Leaves

variable (nested : Option (Scanner Value)) {rest : Text}

theorem scanValue_number {digits : List Char} (hdigits : ∃ c l, digits = c :: l ∧ c.isDigit)
    (negative : Bool) :
    scanValue nested (codePoints (signText negative ++ digits) ++ rest) =
      scanUnsigned negative (codePoints digits ++ rest) := by
  obtain ⟨c, l, rfl, hc⟩ := hdigits
  have hne {d : Char} (hd : d.isDigit = false) : CodePoint.char c ≠ .char d := by
    rw [ne_eq, CodePoint.char.injEq]
    rintro rfl
    rw [hd] at hc
    cases hc
  have hnone := scanConstant_eq_none hc negative (codePoints l ++ rest)
  cases negative with
  | true =>
    have htext : codePoints (signText true ++ c :: l) ++ rest =
        codePoints (signText true) ++ .char c :: (codePoints l ++ rest) := rfl
    rw [htext, scanValue, hnone]
    · rfl
    all_goals
      intro _ heq
      cases (List.cons.inj heq).1
  | false =>
    have htext : codePoints (signText false ++ c :: l) ++ rest =
        codePoints (signText false) ++ .char c :: (codePoints l ++ rest) := rfl
    rw [htext, scanValue, hnone]
    · exact scanNumber_of_head? fun hhead ↦ hne rfl (Option.some.inj hhead)
    all_goals
      intro _ heq
      exact hne rfl (List.cons.inj heq).1

theorem exists_toDigits_eq_cons (n : ℕ) : ∃ c l, Nat.toDigits 10 n = c :: l ∧ c.isDigit := by
  obtain ⟨c, l, hcl⟩ := List.exists_cons_of_ne_nil (@Nat.toDigits_ne_nil n 10)
  exact ⟨c, l, hcl, isDigit_of_mem_toDigits (by rw [hcl]; exact List.mem_cons_self)⟩

theorem repr_eq_signText (x : PyFloat) : x.repr = signText x.negative ++ x.abs.repr := by
  cases x with
  | fixed negative whole fraction => cases negative <;> rfl
  | scientific negative lead fraction exponent => cases negative <;> rfl

theorem exists_repr_abs_eq_cons (x : PyFloat) : ∃ c l, x.abs.repr = c :: l ∧ c.isDigit := by
  cases x with
  | fixed negative whole fraction =>
    obtain ⟨c, l, hcl, hc⟩ := exists_toDigits_eq_cons whole
    exact ⟨c, _, by simp [PyFloat.abs, PyFloat.repr, signText, hcl]; rfl, hc⟩
  | scientific negative lead fraction exponent =>
    exact ⟨Nat.digitChar lead, _, rfl, digitChar_isDigit lead⟩

theorem scanValue_leaf {a : Leaf} (ha : LeafWritable a) (h : Ends rest) :
    scanValue nested (codePoints a.text ++ rest) = .ok (leafValue a, rest) := by
  cases a with
  | null => rfl
  | bool b => cases b <;> rfl
  | int n =>
    rw [Leaf.text, intText, scanValue_number nested (exists_toDigits_eq_cons _),
      scanUnsigned_int _ (of_decide_eq_true ha) h, leafValue]
    congr 3
    split_ifs with hneg
    · have hlt := of_decide_eq_true hneg
      omega
    · have hge := of_decide_eq_false (Bool.eq_false_iff.mpr hneg)
      omega
  | float x =>
    rw [Leaf.text, repr_eq_signText, scanValue_number nested (exists_repr_abs_eq_cons x),
      scanUnsigned_float (of_decide_eq_true ha) h, leafValue]
  | str s =>
    rw [Leaf.text, codePoints_quote, scanValue, scanString_quote]
    rfl

end Leaves

theorem scans_list {limit : ℕ} {items : List (Json String)}
    (ih : ∀ d ∈ items, Reads (scanOnce limit) Json.text (readAs limit) d) (rest : Text) :
    scanOnce (limit + 1) (codePoints (Json.list items).text ++ rest) =
      (readAs (limit + 1) (.list items)).map (·, rest) := by
  have htext : codePoints (Json.list items).text ++ rest =
      .char '[' :: (codePoints (joinText (items.map Json.text)) ++ .char ']' :: rest) := by
    rw [Json.text_list]
    simp [codePoints]
  have hread (d : Json String) : readAs limit d =
      if depth d ≤ limit then .ok (ofJson d) else .error .recursionError := rfl
  rw [htext, scanOnce, scanValue, scanBody_joinText (by decide) ih, mapM_eq_ite hread, readAs,
    ofJson_list]
  simp only [depth_list_le]
  split_ifs <;> rfl

theorem scans_dict {limit : ℕ} {members : List (String × Json String)}
    (hkeys : (members.map Prod.fst).Nodup)
    (ih : ∀ m ∈ members, Reads (scanOnce limit) Json.text (readAs limit) m.2) (rest : Text) :
    scanOnce (limit + 1) (codePoints (Json.dict members).text ++ rest) =
      (readAs (limit + 1) (.dict members)).map (·, rest) := by
  have htext : codePoints (Json.dict members).text ++ rest =
      .char '{' :: (codePoints (joinText (members.map fun m ↦ memberText (m.1, m.2.text))) ++
        .char '}' :: rest) := by
    rw [Json.text_dict]
    simp [codePoints]
  have hread (m : String × Json String) :
      (readAs limit m.2).map (fun a ↦ (codePoints m.1.toList, a)) =
        if depth m.2 ≤ limit then .ok (codePoints m.1.toList, ofJson m.2)
        else .error .recursionError := by
    rw [readAs]
    split_ifs <;> rfl
  have hkeys' : ((members.map fun m ↦ (codePoints m.1.toList, ofJson m.2)).map Prod.fst).Nodup := by
    have hmap : (members.map fun m ↦ (codePoints m.1.toList, ofJson m.2)).map Prod.fst =
        (members.map Prod.fst).map fun key ↦ codePoints key.toList := by
      simp only [List.map_map, Function.comp_def]
    rw [hmap]
    exact List.Nodup.map (fun _ _ h ↦ String.toList_inj.mp (codePoints_injective h)) hkeys
  rw [htext, scanOnce, scanValue, scanBody_joinText (by decide) fun m hm ↦ reads_memberText (ih m hm),
    mapM_eq_ite hread, readAs, ofJson_dict]
  simp only [depth_dict_le]
  split_ifs
  · simp only [Except.map, foldl_assign hkeys']
  · rfl

theorem not_depth_list_le_zero {items : List (Json String)} : ¬ depth (.list items) ≤ 0 := by
  rw [depth, Json.fold_list]
  omega

theorem not_depth_dict_le_zero {members : List (String × Json String)} :
    ¬ depth (.dict members) ≤ 0 := by
  rw [depth, Json.fold_dict]
  omega

/-- A written value is read back, unless it is too deep. -/
theorem reads_text (d : Json String) (hd : Writable d) (limit : ℕ) :
    Reads (scanOnce limit) Json.text (readAs limit) d := by
  refine ⟨opens_text d, ?_⟩
  induction d using Json.ind generalizing limit with
  | hleaf a =>
    intro rest hrest
    have hscan (nested : Option (Scanner Value)) :
        scanValue nested (codePoints a.text ++ rest) = .ok (leafValue a, rest) :=
      scanValue_leaf nested hd hrest
    rw [Json.text_leaf]
    cases limit <;> exact hscan _
  | hlist items ih =>
    intro rest _
    have hitems := writable_list.mp hd
    cases limit with
    | zero =>
      rw [readAs, if_neg not_depth_list_le_zero, Json.text_list]
      rfl
    | succ limit => exact scans_list (fun d hd ↦ ⟨opens_text d, ih d hd (hitems d hd) limit⟩) rest
  | hdict members ih =>
    intro rest _
    obtain ⟨hkeys, hmembers⟩ := writable_dict.mp hd
    cases limit with
    | zero =>
      rw [readAs, if_neg not_depth_dict_le_zero, Json.text_dict]
      rfl
    | succ limit =>
      exact scans_dict hkeys (fun m hm ↦ ⟨opens_text m.2, ih m hm (hmembers m hm) limit⟩) rest

end Values

section Ascii

/-- Printable, and no DEL. -/
def IsPlain (c : Char) : Prop := 0x20 ≤ c.toNat ∧ c.toNat < 0x7f

instance : DecidablePred IsPlain := fun _ ↦ inferInstanceAs (Decidable (_ ∧ _))

theorem isPlain_of_isNumeric {c : Char} (h : isNumeric c) : IsPlain c := by
  obtain ⟨hlow, hhigh⟩ := toNat_of_isNumeric h
  exact ⟨by omega, hhigh⟩

theorem isPlain_of_mem_hex4 {n : ℕ} {c : Char} (h : c ∈ hex4 n) : IsPlain c := by
  have hdigit : ∀ d < 16, IsPlain d.digitChar := by decide
  simp only [hex4, List.mem_cons, List.not_mem_nil, or_false] at h
  rcases h with rfl | rfl | rfl | rfl <;> exact hdigit _ (Nat.mod_lt _ (by decide))

theorem isPlain_of_mem_unicode {n : ℕ} {c : Char} (h : c ∈ '\\' :: 'u' :: hex4 n) : IsPlain c := by
  rcases List.mem_cons.mp h with rfl | h
  · decide
  · rcases List.mem_cons.mp h with rfl | h
    · decide
    · exact isPlain_of_mem_hex4 h

theorem isPlain_of_mem_escape {c d : Char} (h : d ∈ escape c) : IsPlain d := by
  by_cases hshort : c ∈ shortEscaped
  · have hall : shortEscaped.all (fun c ↦ (escape c).all fun d ↦ IsPlain d) = true := rfl
    exact of_decide_eq_true (List.all_eq_true.mp (List.all_eq_true.mp hall c hshort) d h)
  rw [escape_of_notMem hshort] at h
  split_ifs at h with hplain hbmp
  · rw [List.mem_singleton.mp h]
    exact hplain
  · exact isPlain_of_mem_unicode h
  · rcases List.mem_append.mp h with h | h
    · exact isPlain_of_mem_unicode h
    · exact isPlain_of_mem_unicode h

theorem isPlain_of_mem_quote {s : String} {c : Char} (h : c ∈ quote s) : IsPlain c := by
  rcases List.mem_cons.mp h with rfl | h
  · decide
  rcases List.mem_append.mp h with h | h
  · obtain ⟨d, -, hd⟩ := List.mem_flatMap.mp h
    exact isPlain_of_mem_escape hd
  · rw [List.mem_singleton.mp h]
    decide

theorem isPlain_of_mem_leaf {a : Leaf} {c : Char} (h : c ∈ a.text) : IsPlain c := by
  have hplain {text : List Char} (hall : text.all (fun c ↦ IsPlain c) = true) (hc : c ∈ text) :
      IsPlain c := of_decide_eq_true (List.all_eq_true.mp hall c hc)
  cases a with
  | null => exact hplain rfl h
  | bool b => cases b <;> exact hplain rfl h
  | int n => exact isPlain_of_isNumeric (Leaf.isNumeric_of_mem_text rfl h)
  | float x => exact isPlain_of_isNumeric (Leaf.isNumeric_of_mem_text rfl h)
  | str s => exact isPlain_of_mem_quote h

theorem isPlain_of_mem_joinText {texts : List (List Char)}
    (htexts : ∀ text ∈ texts, ∀ c ∈ text, IsPlain c) : ∀ c ∈ joinText texts, IsPlain c := by
  induction texts with
  | nil => exact nofun
  | cons text texts ih =>
    obtain ⟨htext, htexts⟩ := List.forall_mem_cons.mp htexts
    cases texts with
    | nil => exact htext
    | cons text' texts =>
      intro c hc
      rcases List.mem_append.mp hc with hc | hc
      · exact htext c hc
      rcases List.mem_cons.mp hc with rfl | hc
      · decide
      rcases List.mem_cons.mp hc with rfl | hc
      · decide
      · exact ih htexts c hc

theorem isPlain_of_mem_brackets {l r : Char} (hl : IsPlain l) (hr : IsPlain r)
    {text : List Char} (htext : ∀ c ∈ text, IsPlain c) : ∀ c ∈ l :: (text ++ [r]), IsPlain c := by
  intro c hc
  rcases List.mem_cons.mp hc with rfl | hc
  · exact hl
  rcases List.mem_append.mp hc with hc | hc
  · exact htext c hc
  · rw [List.mem_singleton.mp hc]
    exact hr

theorem isPlain_of_mem_text (d : Json String) : ∀ c ∈ d.text, IsPlain c := by
  induction d using Json.ind with
  | hleaf a =>
    rw [Json.text_leaf]
    exact fun c ↦ isPlain_of_mem_leaf
  | hlist items ih =>
    rw [Json.text_list]
    refine isPlain_of_mem_brackets (by decide) (by decide) (isPlain_of_mem_joinText ?_)
    exact List.forall_mem_map.mpr ih
  | hdict members ih =>
    rw [Json.text_dict]
    refine isPlain_of_mem_brackets (by decide) (by decide) (isPlain_of_mem_joinText ?_)
    refine List.forall_mem_map.mpr fun m hm c hc ↦ ?_
    rcases List.mem_append.mp hc with hc | hc
    · exact isPlain_of_mem_quote hc
    rcases List.mem_cons.mp hc with rfl | hc
    · decide
    rcases List.mem_cons.mp hc with rfl | hc
    · decide
    · exact ih m hm c hc

end Ascii

/-- `json.loads` of what `json.dumps` writes. -/
theorem loads_text {d : Json String} (hd : Writable d) (limit : ℕ) :
    loads limit (encodeUtf8 d.text) = readAs limit d := by
  have hbytes : decodeJsonBytes (encodeUtf8 d.text) = some (codePoints d.text) := by
    refine decodeJsonBytes_encodeUtf8 fun c hc ↦ ?_
    obtain ⟨hlow, hhigh⟩ := isPlain_of_mem_text d c hc
    omega
  have hscan := (reads_text d hd limit).scans [] nofun
  have hskip := @Opens.skipSpace [] _ (opens_text d)
  rw [List.append_nil] at hscan hskip
  simp only [loads, hbytes, decode, hskip, hscan]
  cases readAs limit d <;> rfl

end TradingOS.Lib.JsonLoads
