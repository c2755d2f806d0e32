import Mathlib.Data.Int.Log
import Mathlib.Data.Rat.Floor
import TradingOS.Lib.Document
import TradingOS.Lib.JsonText
import TradingOS.Lib.PyText

namespace TradingOS.Lib.JsonLoads

abbrev Text := List CodePoint

/-- What `json.loads` gives. -/
inductive Value
  | null
  | bool (b : Bool)
  | int (n : ℤ)
  | float (x : Number)
  | str (s : Text)
  | list (items : List Value)
  | dict (entries : List (Text × Value))

inductive LoadError
  | valueError
  | recursionError
  deriving DecidableEq

/-- Reads a value from the start of a text, and gives what is left. -/
abbrev Scanner (α : Type) := Text → Except LoadError (α × Text)

section Numbers

def roundHalfEven (x : ℚ) : ℤ :=
  let below := ⌊x⌋
  let rest := x - below
  if rest < 1 / 2 ∨ rest = 1 / 2 ∧ below % 2 = 0 then below else below + 1

/-- The nearest double of a number that is not negative, with the given sign. -/
def nearestDouble (negative : Bool) (x : ℚ) : Number :=
  if 2 ^ 1024 - 2 ^ 970 ≤ x then .infinite negative
  else
    let quantum : ℚ := 2 ^ max (Int.log 2 x - 52) (-1074)
    let rounded := roundHalfEven (x / quantum) * quantum
    .finite (if negative then -rounded else rounded)

def doubleOf (negative : Bool) (significand : ℕ) (exponent : ℤ) : Number :=
  nearestDouble negative (significand * 10 ^ exponent)

def isDigit : CodePoint → Bool
  | .char c => c.isDigit
  | .surrogate _ => false

/-- The digits at the start of a text, and the rest. -/
def scanDigits (text : Text) : List Char × Text :=
  ((text.takeWhile isDigit).filterMap CodePoint.char?, text.dropWhile isDigit)

/-- `(0|[1-9][0-9]*)`. -/
def scanWhole (text : Text) : List Char × Text :=
  match text with
  | .char '0' :: rest => (['0'], rest)
  | _ => scanDigits text

/-- `(\.[0-9]+)?`. -/
def scanFraction (text : Text) : List Char × Text :=
  match text with
  | .char '.' :: rest => if (scanDigits rest).1 = [] then ([], text) else scanDigits rest
  | _ => ([], text)

def scanSign (text : Text) : Bool × Text :=
  match text with
  | .char '-' :: rest => (true, rest)
  | .char '+' :: rest => (false, rest)
  | _ => (false, text)

/-- `([eE][-+]?[0-9]+)?`. -/
def scanExponent (text : Text) : Option ℤ × Text :=
  match text with
  | [] => (none, text)
  | c :: rest =>
    if c = .char 'e' ∨ c = .char 'E' then
      let (negative, rest) := scanSign rest
      let (digits, rest) := scanDigits rest
      if digits = [] then (none, text)
      else
        let n : ℤ := Nat.ofDigitChars 10 digits 0
        (some (if negative then -n else n), rest)
    else (none, text)

def scanUnsigned (negative : Bool) (text : Text) : Except LoadError (Value × Text) :=
  let (whole, rest) := scanWhole text
  let (fraction, rest) := scanFraction rest
  let (exponent, rest) := scanExponent rest
  if whole = [] then .error .valueError
  else if fraction = [] ∧ exponent = none then
    if intMaxStrDigits < whole.length then .error .valueError
    else
      let n : ℤ := Nat.ofDigitChars 10 whole 0
      .ok (.int (if negative then -n else n), rest)
  else
    .ok (.float (doubleOf negative (Nat.ofDigitChars 10 (whole ++ fraction) 0)
      (exponent.getD 0 - fraction.length)), rest)

def scanNumber : Scanner Value
  | .char '-' :: rest => scanUnsigned true rest
  | text => scanUnsigned false text

end Numbers

section Strings

def hexDigit (c : CodePoint) : Option ℕ :=
  match c with
  | .surrogate _ => none
  | .char c =>
    if c.isDigit then some (c.toNat - 48)
    else if 'a' ≤ c ∧ c ≤ 'f' then some (c.toNat - 87)
    else if 'A' ≤ c ∧ c ≤ 'F' then some (c.toNat - 55)
    else none

def scanHex4 : Text → Option (ℕ × Text)
  | a :: b :: c :: d :: rest =>
    match hexDigit a, hexDigit b, hexDigit c, hexDigit d with
    | some a, some b, some c, some d => some (((a * 16 + b) * 16 + c) * 16 + d, rest)
    | _, _, _, _ => none
  | _ => none

def shortEscape (c : Char) : Option Char :=
  [('"', '"'), ('\\', '\\'), ('/', '/'), ('b', '\x08'), ('f', '\x0c'), ('n', '\n'), ('r', '\r'),
    ('t', '\t')].lookup c

/-- What follows `\u`: a half of a pair is joined with the other, if that comes next. -/
def scanUnicode (text : Text) : Option (CodePoint × Text) :=
  match scanHex4 text with
  | none => none
  | some (unit, rest) =>
    if isHighSurrogate unit then
      match rest with
      | .char '\\' :: .char 'u' :: rest' =>
        match scanHex4 rest' with
        | none => none
        | some (low, rest') =>
          if isLowSurrogate low then some (.ofNat (joinSurrogates unit low), rest')
          else some (.ofNat unit, rest)
      | _ => some (.ofNat unit, rest)
    else some (.ofNat unit, rest)

def scanEscape (text : Text) : Option (CodePoint × Text) :=
  match text with
  | .char c :: rest =>
    if c = 'u' then scanUnicode rest else (shortEscape c).map fun c ↦ (.char c, rest)
  | _ => none

/-- A character of a string; `none` is a `ValueError`. -/
def scanChar (text : Text) : Option (CodePoint × Text) :=
  match text with
  | [] => none
  | .surrogate n :: rest => some (.surrogate n, rest)
  | .char c :: rest =>
    if c = '\\' then scanEscape rest
    else if c.toNat < 0x20 then none
    else some (.char c, rest)

/-- A string after its opening quote, as far as the fuel goes. -/
def scanString : ℕ → Text → Option (Text × Text)
  | 0, _ => none
  | fuel + 1, text =>
    if text.head? = some (.char '"') then some ([], text.tail)
    else
      (scanChar text).bind fun (c, rest) ↦
        (scanString fuel rest).map fun (s, rest) ↦ (c :: s, rest)

end Strings

def isSpace (c : CodePoint) : Bool :=
  c ∈ [.char ' ', .char '\t', .char '\n', .char '\r']

def skipSpace (text : Text) : Text := text.dropWhile isSpace

section Containers

variable {α : Type}

/-- Items between commas up to the closing bracket, as far as the fuel goes. -/
def scanItems (scan : Scanner α) (close : Char) : ℕ → Scanner (List α)
  | 0, _ => .error .valueError
  | fuel + 1, text =>
    match scan text with
    | .error e => .error e
    | .ok (a, rest) =>
      match skipSpace rest with
      | [] => .error .valueError
      | c :: rest =>
        if c = .char close then .ok ([a], rest)
        else if c = .char ',' then
          (scanItems scan close fuel (skipSpace rest)).map fun (as, rest) ↦ (a :: as, rest)
        else .error .valueError

/-- What follows an opening bracket. -/
def scanBody (scan : Scanner α) (close : Char) : Scanner (List α) := fun text ↦
  let inner := skipSpace text
  if inner.head? = some (.char close) then .ok ([], inner.tail)
  else scanItems scan close inner.length inner

def scanMember (scan : Scanner α) : Scanner (Text × α)
  | .char '"' :: rest =>
    match scanString rest.length rest with
    | none => .error .valueError
    | some (key, rest) =>
      match skipSpace rest with
      | .char ':' :: rest => (scan (skipSpace rest)).map fun (a, rest) ↦ ((key, a), rest)
      | _ => .error .valueError
  | _ => .error .valueError

end Containers

/-- An assignment to a key, which keeps its place if it has one. -/
def assign (entries : List (Text × Value)) (entry : Text × Value) : List (Text × Value) :=
  if entry.1 ∈ entries.map Prod.fst then
    entries.map fun e ↦ if e.1 = entry.1 then entry else e
  else entries ++ [entry]

def constants : List (String × Value) :=
  [("null", .null), ("true", .bool true), ("false", .bool false), ("NaN", .float .nan),
    ("Infinity", .float (.infinite false)), ("-Infinity", .float (.infinite true))]

def scanConstant (text : Text) : Option (Value × Text) :=
  constants.findSome? fun (name, value) ↦
    if (codePoints name.toList).isPrefixOf text then some (value, text.drop name.length) else none

/-- A value, where `nested` reads those inside it, unless they are too deep. -/
def scanValue (nested : Option (Scanner Value)) : Scanner Value
  | .char '"' :: rest =>
    match scanString rest.length rest with
    | none => .error .valueError
    | some (s, rest) => .ok (.str s, rest)
  | .char '{' :: rest =>
    match nested with
    | none => .error .recursionError
    | some scan =>
      (scanBody (scanMember scan) '}' rest).map fun (pairs, rest) ↦
        (.dict (pairs.foldl assign []), rest)
  | .char '[' :: rest =>
    match nested with
    | none => .error .recursionError
    | some scan => (scanBody scan ']' rest).map fun (items, rest) ↦ (.list items, rest)
  | text =>
    match scanConstant text with
    | some result => .ok result
    | none => scanNumber text

/-- `scan_once`, with what is left of the recursion limit. -/
def scanOnce : ℕ → Scanner Value
  | 0 => scanValue none
  | limit + 1 => scanValue (some (scanOnce limit))

def decode (limit : ℕ) (text : Text) : Except LoadError Value :=
  match scanOnce limit (skipSpace text) with
  | .error e => .error e
  | .ok (value, rest) => if skipSpace rest = [] then .ok value else .error .valueError

/-- `json.loads` of bytes. -/
def loads (limit : ℕ) (bytes : List UInt8) : Except LoadError Value :=
  match decodeJsonBytes bytes with
  | none => .error .valueError
  | some text => decode limit text

end TradingOS.Lib.JsonLoads
