import TradingOS.Lib.Json
import TradingOS.Lib.Lists

namespace TradingOS.Lib

def signText (negative : Bool) : List Char := if negative then ['-'] else []

def digitText (digits : List (Fin 10)) : List Char := digits.map fun d ↦ Nat.digitChar d.val

def intText (n : ℤ) : List Char := signText (n < 0) ++ Nat.toDigits 10 n.natAbs

namespace PyFloat

def fractionText (fraction : List (Fin 10)) : List Char :=
  if fraction = [] then [] else '.' :: digitText fraction

/-- At least two digits. -/
def exponentText (e : ℤ) : List Char :=
  (if e < 0 then '-' else '+') ::
    (if e.natAbs < 10 then ['0'] else []) ++ Nat.toDigits 10 e.natAbs

/-- `float.__repr__`. -/
def repr : PyFloat → List Char
  | fixed negative whole fraction =>
    signText negative ++ Nat.toDigits 10 whole ++ '.' :: digitText fraction
  | scientific negative lead fraction exponent =>
    signText negative ++ Nat.digitChar lead :: fractionText fraction ++
      'e' :: exponentText exponent

end PyFloat

def hex4 (n : ℕ) : List Char :=
  [(n / 4096 % 16).digitChar, (n / 256 % 16).digitChar, (n / 16 % 16).digitChar,
    (n % 16).digitChar]

/-- The escapes of `json.dumps`, which leaves only printable ASCII as it is. -/
def escape (c : Char) : List Char :=
  if c = '"' then ['\\', '"']
  else if c = '\\' then ['\\', '\\']
  else if c = '\n' then ['\\', 'n']
  else if c = '\r' then ['\\', 'r']
  else if c = '\t' then ['\\', 't']
  else if c = '\x08' then ['\\', 'b']
  else if c = '\x0c' then ['\\', 'f']
  else if 0x20 ≤ c.toNat ∧ c.toNat < 0x7f then [c]
  else if c.toNat < 0x10000 then '\\' :: 'u' :: hex4 c.toNat
  else
    '\\' :: 'u' :: hex4 (0xd800 + (c.toNat - 0x10000) / 0x400) ++
      '\\' :: 'u' :: hex4 (0xdc00 + (c.toNat - 0x10000) % 0x400)

def escapeAll (s : String) : List Char := s.toList.flatMap escape

def quote (s : String) : List Char := '"' :: (escapeAll s ++ ['"'])

def Leaf.text : Leaf → List Char
  | null => ['n', 'u', 'l', 'l']
  | bool true => ['t', 'r', 'u', 'e']
  | bool false => ['f', 'a', 'l', 's', 'e']
  | int n => intText n
  | float x => x.repr
  | str s => quote s

def joinText : List (List Char) → List Char
  | [] => []
  | [t] => t
  | t :: ts => t ++ ',' :: ' ' :: joinText ts

def memberText (m : String × List Char) : List Char := quote m.1 ++ ':' :: ' ' :: m.2

/-- The text of a value, with the separators of `json.dumps`. -/
def Json.text : Json String → List Char :=
  fold Leaf.text (fun items ↦ '[' :: (joinText items ++ [']']))
    fun members ↦ '{' :: (joinText (members.map memberText) ++ ['}'])

section Numbers

theorem toDigits_injective {m n : ℕ} (h : Nat.toDigits 10 m = Nat.toDigits 10 n) : m = n := by
  rw [← Nat.ofDigitChars_ten_toDigits (n := m), h, Nat.ofDigitChars_ten_toDigits]

theorem isDigit_of_mem_toDigits {n : ℕ} {c : Char} (h : c ∈ Nat.toDigits 10 n) : c.isDigit :=
  Nat.isDigit_of_mem_toDigits (by decide) (by decide) h

theorem digitChar_isDigit (d : Fin 10) : (Nat.digitChar d.val).isDigit := by
  revert d
  decide

theorem digitChar_injective {d e : Fin 10} (h : Nat.digitChar d.val = Nat.digitChar e.val) : d = e := by
  revert d e
  decide

theorem isDigit_of_mem_digitText {ds : List (Fin 10)} {c : Char} (h : c ∈ digitText ds) :
    c.isDigit := by
  obtain ⟨d, -, rfl⟩ := List.mem_map.mp h
  exact digitChar_isDigit d

theorem digitText_injective {ds es : List (Fin 10)} (h : digitText ds = digitText es) : ds = es :=
  List.map_injective_iff.mpr (fun _ _ ↦ digitChar_injective) h

/-- A sign can be told from the digits it stands before. -/
theorem signText_append {b b' : Bool} {l l' : List Char} (hl : '-' ∉ l.head?) (hl' : '-' ∉ l'.head?)
    (h : signText b ++ l = signText b' ++ l') : b = b' ∧ l = l' := by
  cases b <;> cases b'
  · exact ⟨rfl, h⟩
  · have hhead : l = '-' :: l' := h
    simp [hhead] at hl
  · have hhead : '-' :: l = l' := h
    simp [← hhead] at hl'
  · exact ⟨rfl, (List.cons.inj h).2⟩

theorem head?_toDigits_ne (n : ℕ) (l : List Char) : '-' ∉ (Nat.toDigits 10 n ++ l).head? := by
  intro h
  cases ht : Nat.toDigits 10 n with
  | nil => exact Nat.toDigits_ne_nil ht
  | cons c cs =>
    rw [ht] at h
    obtain rfl : c = '-' := by simpa using h
    have hd : '-'.isDigit := isDigit_of_mem_toDigits (n := n) (by rw [ht]; exact List.mem_cons_self)
    revert hd
    decide

theorem intText_injective {m n : ℤ} (h : intText m = intText n) : m = n := by
  have hm := head?_toDigits_ne m.natAbs []
  have hn := head?_toDigits_ne n.natAbs []
  rw [List.append_nil] at hm hn
  obtain ⟨hsign, habs⟩ := signText_append hm hn h
  have habs := toDigits_injective habs
  simp only [decide_eq_decide] at hsign
  omega

def isNumeric (c : Char) : Bool := c.isDigit ∨ c ∈ ['-', '+', '.', 'e']

theorem isNumeric_of_isDigit {c : Char} (h : c.isDigit) : isNumeric c := by
  simp [isNumeric, h]

theorem toNat_of_isNumeric {c : Char} (h : isNumeric c) : 33 ≤ c.toNat ∧ c.toNat < 127 := by
  rcases of_decide_eq_true h with h | h
  · obtain ⟨hlow, hhigh⟩ := Bool.and_eq_true_iff.mp h
    have hlow : 48 ≤ c.toNat := of_decide_eq_true hlow
    have hhigh : c.toNat ≤ 57 := of_decide_eq_true hhigh
    exact ⟨by omega, by omega⟩
  · have hall : ['-', '+', '.', 'e'].all (fun c ↦ 33 ≤ c.toNat ∧ c.toNat < 127) = true := rfl
    exact of_decide_eq_true (List.all_eq_true.mp hall c h)

theorem isNumeric_of_mem_signText {b : Bool} {c : Char} (h : c ∈ signText b) : isNumeric c := by
  cases b <;> simp [signText] at h
  subst h
  rfl

theorem isNumeric_of_mem_intText {n : ℤ} {c : Char} (h : c ∈ intText n) : isNumeric c := by
  rcases List.mem_append.mp h with h | h
  · exact isNumeric_of_mem_signText h
  · exact isNumeric_of_isDigit (isDigit_of_mem_toDigits h)

theorem not_mem_intText {n : ℤ} {c : Char} (hdigit : c.isDigit = false) (hminus : c ≠ '-') :
    c ∉ intText n := by
  intro h
  rcases List.mem_append.mp h with h | h
  · simp only [signText] at h
    split at h
    · exact hminus (List.mem_singleton.mp h)
    · cases h
  · rw [isDigit_of_mem_toDigits h] at hdigit
    cases hdigit

end Numbers

namespace PyFloat

theorem not_mem_toDigits {c : Char} (h : c.isDigit = false) (n : ℕ) : c ∉ Nat.toDigits 10 n := by
  intro hc
  rw [isDigit_of_mem_toDigits hc] at h
  cases h

theorem not_mem_digitText {c : Char} (h : c.isDigit = false) (ds : List (Fin 10)) :
    c ∉ digitText ds := by
  intro hc
  rw [isDigit_of_mem_digitText hc] at h
  cases h

theorem not_mem_signText {b : Bool} {c : Char} (h : c ≠ '-') : c ∉ signText b := by
  cases b <;> simp [signText, h]

theorem e_not_mem_fractionText (ds : List (Fin 10)) : 'e' ∉ fractionText ds := by
  simp only [fractionText]
  split
  · exact List.not_mem_nil
  · simp [not_mem_digitText]

theorem e_not_mem_repr_fixed (negative : Bool) (whole : ℕ) (fraction : List (Fin 10)) :
    'e' ∉ (fixed negative whole fraction).repr := by
  simp [repr, not_mem_toDigits, not_mem_digitText, not_mem_signText]

theorem e_mem_repr_scientific (negative : Bool) (lead : Fin 10) (fraction : List (Fin 10))
    (exponent : ℤ) : 'e' ∈ (scientific negative lead fraction exponent).repr := by
  simp [repr]

theorem fractionText_injective {ds es : List (Fin 10)} (h : fractionText ds = fractionText es) :
    ds = es := by
  simp only [fractionText] at h
  split_ifs at h with hd he he
  · rw [hd, he]
  · exact digitText_injective (List.cons.inj h).2

theorem exponentText_injective {m n : ℤ} (h : exponentText m = exponentText n) : m = n := by
  have hpad {k : ℕ} : Nat.ofDigitChars 10 ((if k < 10 then ['0'] else []) ++ Nat.toDigits 10 k) 0 =
      k := by
    split
    · rw [List.singleton_append, Nat.ofDigitChars_cons]
      exact Nat.ofDigitChars_ten_toDigits
    · exact Nat.ofDigitChars_ten_toDigits
  obtain ⟨hsign, htext⟩ := List.cons.inj h
  have habs : m.natAbs = n.natAbs := by
    rw [← @hpad m.natAbs, ← @hpad n.natAbs]
    exact congrArg (Nat.ofDigitChars 10 · 0) htext
  split_ifs at hsign <;> first | omega | cases hsign

theorem repr_injective {x y : PyFloat} (h : x.repr = y.repr) : x = y := by
  cases x with
  | fixed b w f =>
    cases y with
    | fixed b' w' f' =>
      simp only [repr, List.append_assoc] at h
      obtain ⟨hb, htext⟩ := signText_append (head?_toDigits_ne _ _) (head?_toDigits_ne _ _) h
      have hdot : '.'.isDigit = false := rfl
      obtain ⟨hw, hf⟩ :=
        append_cons_inj (not_mem_toDigits hdot w) (not_mem_toDigits hdot w') htext
      rw [hb, toDigits_injective hw, digitText_injective hf]
    | scientific b' l' f' e' =>
      exact absurd (h ▸ e_mem_repr_scientific b' l' f' e') (e_not_mem_repr_fixed b w f)
  | scientific b l f e =>
    cases y with
    | fixed b' w' f' =>
      exact absurd (h ▸ e_mem_repr_scientific b l f e) (e_not_mem_repr_fixed b' w' f')
    | scientific b' l' f' e' =>
      have hlead (d : Fin 10) (t : List Char) : '-' ∉ (Nat.digitChar d.val :: t).head? := by
        simp only [List.head?_cons, Option.mem_def, Option.some.injEq]
        revert d
        decide
      simp only [repr, List.append_assoc, List.cons_append] at h
      obtain ⟨hb, htext⟩ := signText_append (hlead _ _) (hlead _ _) h
      obtain ⟨hl, hrest⟩ := List.cons.inj htext
      obtain ⟨hf, he⟩ :=
        append_cons_inj (e_not_mem_fractionText f) (e_not_mem_fractionText f') hrest
      rw [hb, digitChar_injective hl, fractionText_injective hf, exponentText_injective he]

theorem isNumeric_of_mem_repr {x : PyFloat} {c : Char} (h : c ∈ x.repr) : isNumeric c := by
  have hsign {b : Bool} (h : c ∈ signText b) : isNumeric c := isNumeric_of_mem_signText h
  have hdigits {n : ℕ} (h : c ∈ Nat.toDigits 10 n) : isNumeric c :=
    isNumeric_of_isDigit (isDigit_of_mem_toDigits h)
  have htext {ds : List (Fin 10)} (h : c ∈ digitText ds) : isNumeric c :=
    isNumeric_of_isDigit (isDigit_of_mem_digitText h)
  cases x with
  | fixed b w f =>
    simp only [repr, List.mem_append, List.mem_cons] at h
    rcases h with (h | h) | rfl | h
    · exact hsign h
    · exact hdigits h
    · rfl
    · exact htext h
  | scientific b l f e =>
    have hfraction (h : c ∈ fractionText f) : isNumeric c := by
      simp only [fractionText] at h
      split at h
      · cases h
      · rcases List.mem_cons.mp h with rfl | h
        · rfl
        · exact htext h
    have hexponent (h : c ∈ exponentText e) : isNumeric c := by
      simp only [exponentText, List.cons_append, List.mem_cons, List.mem_append] at h
      rcases h with h | h | h
      · split at h <;> subst h <;> rfl
      · split at h
        · rw [List.mem_singleton.mp h]
          rfl
        · cases h
      · exact hdigits h
    simp only [repr, List.mem_append, List.mem_cons] at h
    rcases h with (h | rfl | h) | rfl | h
    · exact hsign h
    · exact isNumeric_of_isDigit (digitChar_isDigit l)
    · exact hfraction h
    · rfl
    · exact hexponent h

theorem repr_ne_intText (x : PyFloat) (n : ℤ) : x.repr ≠ intText n := by
  intro h
  cases x with
  | fixed b w f =>
    refine not_mem_intText (n := n) (c := '.') rfl (by decide) ?_
    rw [← h]
    simp [repr]
  | scientific b l f e =>
    refine not_mem_intText (n := n) (c := 'e') rfl (by decide) ?_
    rw [← h]
    exact e_mem_repr_scientific b l f e

end PyFloat

section Strings

def hexValue (c : Char) : ℕ := if c.isDigit then c.toNat - 48 else c.toNat - 87

def hex4Value (a b c d : Char) : ℕ :=
  ((hexValue a * 16 + hexValue b) * 16 + hexValue c) * 16 + hexValue d

theorem hexValue_digitChar {d : ℕ} (h : d < 16) : hexValue d.digitChar = d := by
  revert d
  decide

theorem hex4Value_hex4 {n : ℕ} (h : n < 65536) :
    hex4Value (n / 4096 % 16).digitChar (n / 256 % 16).digitChar (n / 16 % 16).digitChar
      (n % 16).digitChar = n := by
  simp only [hex4Value, hexValue_digitChar (Nat.mod_lt _ (by decide : 0 < 16))]
  omega

/-- The first character an escaped text stands for, and what is left of the text. -/
def unescape : List Char → Option (Char × List Char)
  | '\\' :: 'u' :: a :: b :: c :: d :: rest =>
    let unit := hex4Value a b c d
    if 0xd800 ≤ unit ∧ unit < 0xdc00 then
      match rest with
      | '\\' :: 'u' :: a' :: b' :: c' :: d' :: rest' =>
        some (.ofNat (0x10000 + (unit - 0xd800) * 0x400 + (hex4Value a' b' c' d' - 0xdc00)), rest')
      | _ => none
    else some (.ofNat unit, rest)
  | '\\' :: 'n' :: rest => some ('\n', rest)
  | '\\' :: 'r' :: rest => some ('\r', rest)
  | '\\' :: 't' :: rest => some ('\t', rest)
  | '\\' :: 'b' :: rest => some ('\x08', rest)
  | '\\' :: 'f' :: rest => some ('\x0c', rest)
  | '\\' :: c :: rest => some (c, rest)
  | c :: rest => some (c, rest)
  | [] => none

theorem unescape_unit {a b c d : Char} (h : ¬ (0xd800 ≤ hex4Value a b c d ∧ hex4Value a b c d < 0xdc00))
    (rest : List Char) : unescape ('\\' :: 'u' :: a :: b :: c :: d :: rest) =
      some (.ofNat (hex4Value a b c d), rest) := if_neg h

theorem unescape_pair {a b c d a' b' c' d' : Char}
    (h : 0xd800 ≤ hex4Value a b c d ∧ hex4Value a b c d < 0xdc00) (rest : List Char) :
    unescape ('\\' :: 'u' :: a :: b :: c :: d :: '\\' :: 'u' :: a' :: b' :: c' :: d' :: rest) =
      some (.ofNat (0x10000 + (hex4Value a b c d - 0xd800) * 0x400 + (hex4Value a' b' c' d' - 0xdc00)),
        rest) := if_pos h

/-- The characters with an escape of their own. -/
def shortEscaped : List Char := ['"', '\\', '\n', '\r', '\t', '\x08', '\x0c']

theorem unescape_short {c : Char} (h : c ∈ shortEscaped) (rest : List Char) :
    (∃ u, escape c = '\\' :: u) ∧ unescape (escape c ++ rest) = some (c, rest) := by
  simp only [shortEscaped, List.mem_cons, List.not_mem_nil, or_false] at h
  rcases h with rfl | rfl | rfl | rfl | rfl | rfl | rfl <;> exact ⟨⟨_, rfl⟩, rfl⟩

theorem escape_of_notMem {c : Char} (h : c ∉ shortEscaped) :
    escape c = if 0x20 ≤ c.toNat ∧ c.toNat < 0x7f then [c]
      else if c.toNat < 0x10000 then '\\' :: 'u' :: hex4 c.toNat
      else
        '\\' :: 'u' :: hex4 (0xd800 + (c.toNat - 0x10000) / 0x400) ++
          '\\' :: 'u' :: hex4 (0xdc00 + (c.toNat - 0x10000) % 0x400) := by
  simp only [shortEscaped, List.mem_cons, List.not_mem_nil, or_false, not_or] at h
  obtain ⟨h₁, h₂, h₃, h₄, h₅, h₆, h₇⟩ := h
  rw [escape, if_neg h₁, if_neg h₂, if_neg h₃, if_neg h₄, if_neg h₅, if_neg h₆, if_neg h₇]

theorem unescape_escape (c : Char) (rest : List Char) :
    unescape (escape c ++ rest) = some (c, rest) := by
  have hvalid : c.toNat < 0xd800 ∨ 0xdfff < c.toNat ∧ c.toNat < 0x110000 := c.valid
  by_cases hshort : c ∈ shortEscaped
  · exact (unescape_short hshort rest).2
  rw [escape_of_notMem hshort]
  split_ifs with hplain hbmp
  · have hne : c ≠ '\\' := by
      rintro rfl
      exact hshort (by decide)
    simp [unescape, hne]
  · have hlow : ¬ (0xd800 ≤ c.toNat ∧ c.toNat < 0xdc00) := by
      rcases hvalid with h | h <;> omega
    rw [← hex4Value_hex4 hbmp] at hlow
    refine (unescape_unit hlow rest).trans ?_
    rw [hex4Value_hex4 hbmp, Char.ofNat_toNat]
  · have hhigh : 0xd800 + (c.toNat - 0x10000) / 0x400 < 0xdc00 := by
      rcases hvalid with h | h <;> omega
    have hvalue : 0x10000 + (0xd800 + (c.toNat - 0x10000) / 0x400 - 0xd800) * 0x400 +
        (0xdc00 + (c.toNat - 0x10000) % 0x400 - 0xdc00) = c.toNat := by
      omega
    have hlead := hex4Value_hex4 (by omega : 0xd800 + (c.toNat - 0x10000) / 0x400 < 65536)
    have htrail := hex4Value_hex4 (by omega : 0xdc00 + (c.toNat - 0x10000) % 0x400 < 65536)
    refine (unescape_pair ?_ rest).trans ?_
    · rw [hlead]
      exact ⟨Nat.le_add_right _ _, hhigh⟩
    · rw [hlead, htrail, hvalue, Char.ofNat_toNat]

theorem escape_append_inj {c d : Char} {r r' : List Char}
    (h : escape c ++ r = escape d ++ r') : c = d ∧ r = r' := by
  have hread := congrArg unescape h
  rw [unescape_escape, unescape_escape] at hread
  exact Prod.mk.inj (Option.some.inj hread)

/-- An escape starts with a backslash, and leaves what is not one as it is. -/
theorem escape_cases (c : Char) : (∃ u, escape c = '\\' :: u) ∨ escape c = [c] ∧ c ≠ '"' := by
  by_cases hshort : c ∈ shortEscaped
  · exact .inl (unescape_short hshort []).1
  rw [escape_of_notMem hshort]
  split_ifs
  · refine .inr ⟨rfl, ?_⟩
    rintro rfl
    exact hshort (by decide)
  · exact .inl ⟨_, rfl⟩
  · exact .inl ⟨_, rfl⟩

theorem escape_append_ne_quote (c : Char) (r r' : List Char) : escape c ++ r ≠ '"' :: r' := by
  intro h
  rcases escape_cases c with ⟨u, hu⟩ | ⟨hc, hne⟩
  · rw [hu] at h
    cases h
  · rw [hc] at h
    exact hne (List.cons.inj h).1

/-- A closing quote is not part of the text before it. -/
theorem escapeAll_append_inj {s t : List Char} {r r' : List Char}
    (h : s.flatMap escape ++ '"' :: r = t.flatMap escape ++ '"' :: r') : s = t ∧ r = r' := by
  induction s generalizing t with
  | nil =>
    cases t with
    | nil => exact ⟨rfl, (List.cons.inj h).2⟩
    | cons d t =>
      rw [List.flatMap_cons, List.append_assoc] at h
      exact absurd h.symm (escape_append_ne_quote d _ _)
  | cons c s ih =>
    cases t with
    | nil =>
      rw [List.flatMap_cons, List.append_assoc] at h
      exact absurd h (escape_append_ne_quote c _ _)
    | cons d t =>
      simp only [List.flatMap_cons, List.append_assoc] at h
      obtain ⟨rfl, hrest⟩ := escape_append_inj h
      obtain ⟨rfl, hr⟩ := ih hrest
      exact ⟨rfl, hr⟩

theorem quote_append_inj {s t : String} {r r' : List Char} (h : quote s ++ r = quote t ++ r') :
    s = t ∧ r = r' := by
  simp only [quote, escapeAll, List.cons_append, List.append_assoc, List.nil_append] at h
  obtain ⟨hst, hr⟩ := escapeAll_append_inj (List.cons.inj h).2
  exact ⟨String.toList_inj.mp hst, hr⟩

theorem quote_append_ne {c : Char} (hc : c ≠ '"') {s : String} (r u : List Char) :
    quote s ++ r ≠ c :: u :=
  fun h ↦ hc (List.cons.inj h).1.symm

end Strings

/-- What may follow a value: nothing, or the character that ends it. -/
def Stop (r : List Char) : Prop := ∀ c ∈ r.head?, c ∈ [',', ']', '}']

theorem stop_nil : Stop [] := nofun

theorem stop_cons {c : Char} {r : List Char} (h : c ∈ [',', ']', '}']) : Stop (c :: r) := by
  intro d hd
  obtain rfl : c = d := by simpa using hd
  exact h

/-- Numbers end where a stop begins. -/
theorem numeric_append_inj {s t r r' : List Char} (hs : ∀ c ∈ s, isNumeric c)
    (ht : ∀ c ∈ t, isNumeric c) (hr : Stop r) (hr' : Stop r') (h : s ++ r = t ++ r') :
    s = t ∧ r = r' := by
  have hno {c : Char} {u : List Char} (hc : isNumeric c) (hstop : Stop (c :: u)) : False := by
    have hmem := hstop c rfl
    simp only [List.mem_cons, List.not_mem_nil, or_false] at hmem
    rcases hmem with rfl | rfl | rfl <;> cases hc
  induction s generalizing t with
  | nil =>
    cases t with
    | nil => exact ⟨rfl, h⟩
    | cons d t =>
      rw [show r = d :: (t ++ r') from h] at hr
      exact (hno (ht d List.mem_cons_self) hr).elim
  | cons c s ih =>
    cases t with
    | nil =>
      rw [show r' = c :: (s ++ r) from h.symm] at hr'
      exact (hno (hs c List.mem_cons_self) hr').elim
    | cons d t =>
      obtain ⟨rfl, hrest⟩ := List.cons.inj h
      obtain ⟨rfl, he⟩ := ih (fun c hc ↦ hs c (List.mem_cons_of_mem _ hc))
        (fun c hc ↦ ht c (List.mem_cons_of_mem _ hc)) hrest
      exact ⟨rfl, he⟩

namespace Leaf

def isNumber : Leaf → Bool
  | int _ | float _ => true
  | _ => false

theorem isNumeric_of_mem_text {a : Leaf} (ha : a.isNumber) {c : Char} (h : c ∈ a.text) :
    isNumeric c := by
  cases a with
  | int n => exact isNumeric_of_mem_intText h
  | float x => exact PyFloat.isNumeric_of_mem_repr h
  | _ => cases ha

theorem number_text_injective {a b : Leaf} (ha : a.isNumber) (hb : b.isNumber)
    (h : a.text = b.text) : a = b := by
  cases a with
  | int m =>
    cases b with
    | int n => rw [intText_injective h]
    | float y => exact absurd h.symm (PyFloat.repr_ne_intText y m)
    | _ => cases hb
  | float x =>
    cases b with
    | int n => exact absurd h (PyFloat.repr_ne_intText x n)
    | float y => rw [PyFloat.repr_injective h]
    | _ => cases hb
  | _ => cases ha

theorem text_ne_nil (a : Leaf) : a.text ≠ [] := by
  cases a with
  | bool b => cases b <;> exact List.cons_ne_nil _ _
  | int n =>
    intro h
    exact Nat.toDigits_ne_nil (List.append_eq_nil_iff.mp h).2
  | float x =>
    cases x <;> simp [text, PyFloat.repr]
  | _ => exact List.cons_ne_nil _ _

theorem number_text_append_ne {a : Leaf} (ha : a.isNumber) {c : Char} (hc : isNumeric c = false)
    (r u : List Char) : a.text ++ r ≠ c :: u := by
  intro h
  cases ht : a.text with
  | nil => exact a.text_ne_nil ht
  | cons d t =>
    rw [ht] at h
    obtain rfl := (List.cons.inj h).1
    rw [isNumeric_of_mem_text ha (by rw [ht]; exact List.mem_cons_self)] at hc
    cases hc

theorem text_append_ne (a : Leaf) {c : Char} (hc : c ∈ ['[', '{', ']', '}']) (r u : List Char) :
    a.text ++ r ≠ c :: u := by
  have hnumeric : isNumeric c = false := by
    simp only [List.mem_cons, List.not_mem_nil, or_false] at hc
    rcases hc with rfl | rfl | rfl | rfl <;> rfl
  cases hnum : a.isNumber with
  | true => exact number_text_append_ne hnum hnumeric r u
  | false =>
    intro h
    -- the texts of the other leaves start with a letter or a quote
    rcases a with _ | (_ | _) | n | x | s
    case int => cases hnum
    case float => cases hnum
    all_goals
      obtain rfl := (List.cons.inj h).1
      revert hc
      decide

theorem text_append_inj {a b : Leaf} {r r' : List Char} (hr : Stop r) (hr' : Stop r')
    (h : a.text ++ r = b.text ++ r') : a = b ∧ r = r' := by
  cases ha : a.isNumber with
  | true =>
    cases hb : b.isNumber with
    | true =>
      obtain ⟨htext, he⟩ := numeric_append_inj (fun c ↦ isNumeric_of_mem_text ha)
        (fun c ↦ isNumeric_of_mem_text hb) hr hr' h
      exact ⟨number_text_injective ha hb htext, he⟩
    | false =>
      rcases b with _ | (_ | _) | _ | _ | s <;> try cases hb
      all_goals exact absurd h (number_text_append_ne ha rfl r _)
  | false =>
    cases hb : b.isNumber with
    | true =>
      rcases a with _ | (_ | _) | _ | _ | s <;> try cases ha
      all_goals exact absurd h.symm (number_text_append_ne hb rfl r' _)
    | false =>
      rcases a with _ | (_ | _) | _ | _ | s <;> rcases b with _ | (_ | _) | _ | _ | t <;>
        simp_all [text, isNumber]
      all_goals
        first
        | exact quote_append_inj h
        | exact quote_append_ne (by decide) _ _ h
        | exact quote_append_ne (by decide) _ _ h.symm

end Leaf

/-- Lists of texts that tell where they end are told apart by the separators. -/
theorem joinText_append_inj {α : Type*} {f : α → List Char} {c : Char} (hc : c ∈ [']', '}'])
    (hstart : ∀ (a : α) (r u : List Char), f a ++ r ≠ c :: u) {l l' : List α} {r r' : List Char}
    (hl : ∀ a ∈ l, ∀ (b : α) (r r' : List Char), Stop r → Stop r' → f a ++ r = f b ++ r' →
      a = b ∧ r = r')
    (h : joinText (l.map f) ++ c :: r = joinText (l'.map f) ++ c :: r') : l = l' ∧ r = r' := by
  have hstop (r : List Char) : Stop (c :: r) := stop_cons (List.mem_cons_of_mem _ hc)
  have hcomma : c ≠ ',' := by
    rintro rfl
    revert hc
    decide
  induction l generalizing l' with
  | nil =>
    cases l' with
    | nil => exact ⟨rfl, (List.cons.inj h).2⟩
    | cons b l' =>
      cases l' with
      | nil => exact absurd h.symm (hstart b _ _)
      | cons b' l' =>
        simp only [List.map_cons, joinText, List.append_assoc] at h
        exact absurd h.symm (hstart b _ _)
  | cons a l ih =>
    cases l' with
    | nil =>
      cases l with
      | nil => exact absurd h (hstart a _ _)
      | cons a' l =>
        simp only [List.map_cons, joinText, List.append_assoc] at h
        exact absurd h (hstart a _ _)
    | cons b l' =>
      have ha := hl a List.mem_cons_self b
      cases l with
      | nil =>
        cases l' with
        | nil =>
          obtain ⟨rfl, hr⟩ := ha _ _ (hstop r) (hstop r') h
          exact ⟨rfl, (List.cons.inj hr).2⟩
        | cons b' l' =>
          simp only [List.map_cons, List.map_nil, joinText, List.append_assoc,
            List.cons_append] at h
          obtain ⟨-, hr⟩ := ha _ _ (hstop r) (stop_cons (by decide)) h
          exact absurd (List.cons.inj hr).1 hcomma
      | cons a' l =>
        cases l' with
        | nil =>
          simp only [List.map_cons, List.map_nil, joinText, List.append_assoc,
            List.cons_append] at h
          obtain ⟨-, hr⟩ := ha _ _ (stop_cons (by decide)) (hstop r') h
          exact absurd (List.cons.inj hr).1.symm hcomma
        | cons b' l' =>
          simp only [List.map_cons, joinText, List.append_assoc, List.cons_append] at h
          obtain ⟨rfl, hr⟩ := ha _ _ (stop_cons (by decide)) (stop_cons (by decide)) h
          have hrest : joinText ((a' :: l).map f) ++ c :: r =
              joinText ((b' :: l').map f) ++ c :: r' := (List.cons.inj (List.cons.inj hr).2).2
          obtain ⟨he, hr⟩ := ih (fun a ha ↦ hl a (List.mem_cons_of_mem _ ha)) hrest
          exact ⟨by rw [he], hr⟩

namespace Json

theorem text_leaf (a : Leaf) : text (.leaf a) = a.text := fold_leaf _ _ _ a

theorem text_list (items : List (Json String)) :
    text (.list items) = '[' :: (joinText (items.map text) ++ [']']) := fold_list _ _ _ items

theorem text_dict (members : List (String × Json String)) :
    text (.dict members) =
      '{' :: (joinText (members.map fun m ↦ memberText (m.1, m.2.text)) ++ ['}']) := by
  rw [text, fold_dict, List.map_map]
  rfl

theorem text_append_ne_closing {c : Char} (hc : c ∈ [']', '}']) (d : Json String)
    (r u : List Char) : d.text ++ r ≠ c :: u := by
  cases d with
  | leaf a => exact a.text_append_ne (List.mem_cons_of_mem _ (List.mem_cons_of_mem _ hc)) r u
  | list items =>
    intro h
    obtain rfl := (List.cons.inj h).1
    revert hc
    decide
  | dict members =>
    intro h
    obtain rfl := (List.cons.inj h).1
    revert hc
    decide

theorem memberText_append_inj {m : String × Json String} {r r' : List Char} (hr : Stop r)
    (hr' : Stop r') (ih : ∀ (d' : Json String) (r r' : List Char),
      Stop r → Stop r' → m.2.text ++ r = d'.text ++ r' → m.2 = d' ∧ r = r')
    {m' : String × Json String}
    (h : memberText (m.1, m.2.text) ++ r = memberText (m'.1, m'.2.text) ++ r') :
    m = m' ∧ r = r' := by
  simp only [memberText, List.append_assoc, List.cons_append] at h
  obtain ⟨hkey, hrest⟩ := quote_append_inj h
  obtain ⟨hvalue, he⟩ := ih _ _ _ hr hr' (List.cons.inj (List.cons.inj hrest).2).2
  exact ⟨Prod.ext hkey hvalue, he⟩

/-- A mapping tells where it ends, whatever follows. -/
theorem dict_append_inj {members members' : List (String × Json String)} {r r' : List Char}
    (ih : ∀ m ∈ members, ∀ (d' : Json String) (r r' : List Char),
      Stop r → Stop r' → m.2.text ++ r = d'.text ++ r' → m.2 = d' ∧ r = r')
    (h : (dict members).text ++ r = (dict members').text ++ r') : members = members' ∧ r = r' := by
  have hstart {c : Char} (hc : c ∈ [']', '}']) (m : String × Json String) (r u : List Char) :
      memberText (m.1, m.2.text) ++ r ≠ c :: u := by
    intro h
    obtain rfl := (List.cons.inj h).1
    revert hc
    decide
  simp only [text_dict, List.cons_append, List.append_assoc, List.nil_append] at h
  exact joinText_append_inj (by decide) (hstart (by decide))
    (fun m hm m' r r' hr hr' ↦ memberText_append_inj hr hr' (ih m hm)) (List.cons.inj h).2

/-- The text of a value tells where it ends. -/
theorem text_append_inj (d : Json String) : ∀ (d' : Json String) (r r' : List Char),
    Stop r → Stop r' → d.text ++ r = d'.text ++ r' → d = d' ∧ r = r' := by
  induction d using Json.ind with
  | hleaf a =>
    intro d' r r' hr hr' h
    cases d' with
    | leaf b =>
      obtain ⟨rfl, he⟩ := Leaf.text_append_inj hr hr' h
      exact ⟨rfl, he⟩
    | list items => exact absurd h (a.text_append_ne (by decide) _ _)
    | dict members => exact absurd h (a.text_append_ne (by decide) _ _)
  | hlist items ih =>
    intro d' r r' hr hr' h
    cases d' with
    | leaf b => exact absurd h.symm (b.text_append_ne (by decide) _ _)
    | list items' =>
      simp only [text_list, List.cons_append, List.append_assoc, List.nil_append] at h
      obtain ⟨rfl, he⟩ := joinText_append_inj (by decide) (text_append_ne_closing (by decide)) ih
        (List.cons.inj h).2
      exact ⟨rfl, he⟩
    | dict members => cases (List.cons.inj h).1
  | hdict members ih =>
    intro d' r r' hr hr' h
    cases d' with
    | leaf b => exact absurd h.symm (b.text_append_ne (by decide) _ _)
    | list items => cases (List.cons.inj h).1
    | dict members' =>
      obtain ⟨rfl, he⟩ := dict_append_inj ih h
      exact ⟨rfl, he⟩

theorem text_injective {d d' : Json String} (h : d.text = d'.text) : d = d' :=
  (text_append_inj d d' [] [] stop_nil stop_nil (by rw [h])).1

theorem dict_text_append_inj {members members' : List (String × Json String)} {r r' : List Char}
    (h : (dict members).text ++ r = (dict members').text ++ r') : members = members' ∧ r = r' :=
  dict_append_inj (fun m _ ↦ text_append_inj m.2) h

end Json

end TradingOS.Lib
