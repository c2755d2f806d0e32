import TradingOS.Lib.JsonRoundTrip
import TradingOS.Lib.PyInt
import TradingOS.Lib.Table

namespace TradingOS.Lib

/-- `<`, which nothing that is no number stands in. -/
def Number.lt (x y : Number) : Bool := x.le y && x ≠ y

namespace JsonLoads

/-- The exceptions that the built-in operations on a loaded value raise. -/
inductive Raised
  | builtin (e : BuiltinError)
  | recursionError
  deriving DecidableEq

def LoadError.raised : LoadError → Raised
  | valueError => .builtin .value
  | recursionError => .recursionError

def textOf (s : String) : Text := codePoints s.toList

theorem textOf_injective : Function.Injective textOf := fun _ _ h ↦
  String.toList_inj.mp (codePoints_injective h)

section Entries

variable {κ ρ : Type} [DecidableEq κ]

def entryAt (entries : List (κ × ρ)) (key : κ) : Option ρ := entries.lookup key

theorem entryAt_eq_some_iff_mem {entries : List (κ × ρ)} (h : (entries.map Prod.fst).Nodup) {key : κ}
    {value : ρ} : entryAt entries key = some value ↔ (key, value) ∈ entries :=
  Table.lookup_eq_some_iff_mem h

end Entries

namespace Value

/-- A subscript that is a text. -/
def item (v : Value) (key : String) : Except Raised Value :=
  match v with
  | dict entries =>
    match entryAt entries (textOf key) with
    | some v => .ok v
    | none => .error (.builtin .key)
  | _ => .error (.builtin .type)

/-- `get`, where a null is like a key that is missing. -/
def get (v : Value) (key : String) : Except Raised (Option Value) :=
  match v with
  | dict entries =>
    match entryAt entries (textOf key) with
    | some null | none => .ok none
    | some v => .ok (some v)
  | _ => .error (.builtin .missingAttribute)

/-- `int`. -/
def toInt : Value → Except Raised ℤ
  | bool b => .ok (if b then 1 else 0)
  | int n => .ok n
  | float (.finite x) => .ok (x.num.tdiv x.den)
  | float .nan => .error (.builtin .value)
  | float (.infinite _) => .error (.builtin .overflow)
  | str s =>
    match PyInt.intOfText s with
    | some n => .ok n
    | none => .error (.builtin .value)
  | _ => .error (.builtin .type)

/-- The number that a value is compared as. -/
def number : Value → Option Number
  | bool b => some (.finite (if b then 1 else 0))
  | int n => some (.finite n)
  | float x => some x
  | _ => none

/-- `>` of a number; without an answer it is a `TypeError`. -/
def exceededBy (v : Value) (x : Number) : Option Bool := v.number.map fun y ↦ y.lt x

def isText (s : String) : Value → Bool
  | str t => t = textOf s
  | _ => false

theorem toInt_str_intText {n : ℤ} (h : (Nat.toDigits 10 n.natAbs).length ≤ intMaxStrDigits) :
    (str (textOf (.ofList (intText n)))).toInt = .ok n := by
  rw [toInt, textOf, String.toList_ofList, PyInt.intOfText_intText h]

/-- The only values that no caught exception comes of are the infinite ones. -/
theorem toInt_eq_error {v : Value} {e : Raised} (h : v.toInt = .error e) :
    (∃ b, v = .float (.infinite b)) ∧ e = .builtin .overflow ∨
      e = .builtin .value ∨ e = .builtin .type := by
  cases v with
  | bool b => cases h
  | int n => cases h
  | float x =>
    cases x with
    | finite x => cases h
    | nan =>
      cases h
      exact .inr (.inl rfl)
    | infinite b =>
      cases h
      exact .inl ⟨⟨b, rfl⟩, rfl⟩
  | str s =>
    rw [toInt] at h
    split at h
    · cases h
    · cases h
      exact .inr (.inl rfl)
  | null =>
    cases h
    exact .inr (.inr rfl)
  | list items =>
    cases h
    exact .inr (.inr rfl)
  | dict entries =>
    cases h
    exact .inr (.inr rfl)

theorem item_eq_error {v : Value} {key : String} {e : Raised} (h : v.item key = .error e) :
    e = .builtin .key ∨ e = .builtin .type := by
  cases v with
  | dict entries =>
    rw [item] at h
    split at h
    · cases h
    · cases h
      exact .inl rfl
  | _ =>
    cases h
    exact .inr rfl

theorem exists_dict_of_item {v w : Value} {key : String} (h : v.item key = .ok w) :
    ∃ entries, v = .dict entries := by
  cases v with
  | dict entries => exact ⟨entries, rfl⟩
  | _ => cases h

end Value

section Members

variable {members : List (String × Json String)}

/-- A member of a mapping is found under its key in what the mapping reads as. -/
theorem entryAt_members (hkeys : (members.map Prod.fst).Nodup) {key : String} {d : Json String}
    (h : (key, d) ∈ members) :
    entryAt (members.map fun m ↦ (textOf m.1, ofJson m.2)) (textOf key) = some (ofJson d) := by
  have hmap : (members.map fun m ↦ (textOf m.1, ofJson m.2)).map Prod.fst =
      (members.map Prod.fst).map textOf := by
    simp only [List.map_map, Function.comp_def]
  have hnodup := hkeys.map textOf_injective
  rw [← hmap] at hnodup
  rw [entryAt_eq_some_iff_mem hnodup]
  exact List.mem_map_of_mem h

theorem ofJson_dict_eq (members : List (String × Json String)) :
    ofJson (.dict members) = .dict (members.map fun m ↦ (textOf m.1, ofJson m.2)) :=
  ofJson_dict members

theorem item_ofJson_dict (hkeys : (members.map Prod.fst).Nodup) {key : String} {d : Json String}
    (h : (key, d) ∈ members) : (ofJson (.dict members)).item key = .ok (ofJson d) := by
  rw [ofJson_dict_eq, Value.item, entryAt_members hkeys h]

theorem get_ofJson_dict (hkeys : (members.map Prod.fst).Nodup) {key : String} {a : Leaf}
    (ha : a ≠ .null) (h : (key, .leaf a) ∈ members) :
    (ofJson (.dict members)).get key = .ok (some (leafValue a)) := by
  have hleaf : ofJson (.leaf a) = leafValue a := rfl
  rw [ofJson_dict_eq, Value.get, entryAt_members hkeys h, hleaf]
  cases a with
  | null => exact absurd rfl ha
  | _ => rfl

end Members

end JsonLoads

end TradingOS.Lib
