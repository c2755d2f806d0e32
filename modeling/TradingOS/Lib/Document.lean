import Mathlib.Algebra.Order.Field.Rat

namespace TradingOS.Lib

/-- A float, with what is no number. -/
inductive Number
  | finite (x : ℚ)
  | nan
  | infinite (negative : Bool)
  deriving DecidableEq

/-- `<=`, which nothing that is no number stands in. -/
def Number.le : Number → Number → Bool
  | nan, _ | _, nan => false
  | infinite true, _ | _, infinite false => true
  | _, infinite true | infinite false, _ => false
  | finite x, finite y => x ≤ y

/-- A value that came from outside, as a JSON parser or a data frame hands it over. -/
inductive Document
  | null
  | bool (b : Bool)
  | int (n : ℤ)
  | float (x : Number)
  | str (s : String)
  | list (items : List Document)
  | dict (entries : List (String × Document))

/-- The exceptions of the built-in operations on values. -/
inductive BuiltinError
  | key
  | index
  | type
  | value
  | overflow
  | missingAttribute
  deriving DecidableEq

def BuiltinError.name : BuiltinError → String
  | key => "KeyError"
  | index => "IndexError"
  | type => "TypeError"
  | value => "ValueError"
  | overflow => "OverflowError"
  | missingAttribute => "AttributeError"

/-- How texts and integers are read as numbers; `none` is the exception. -/
structure Conversions where
  floatOfText : String → Option Number
  floatOfInt : ℤ → Option Number
  intOfText : String → Option ℤ

namespace Document

/-- A subscript that is a text. -/
def item (d : Document) (key : String) : Except BuiltinError Document :=
  match d with
  | dict entries =>
    match entries.lookup key with
    | some v => .ok v
    | none => .error .key
  | _ => .error .type

/-- A subscript that is a number, where a mapping has texts for keys. -/
def entry (d : Document) (i : ℕ) : Except BuiltinError Document :=
  match d with
  | list items =>
    match items[i]? with
    | some v => .ok v
    | none => .error .index
  | str s =>
    match s.toList[i]? with
    | some c => .ok (str (String.singleton c))
    | none => .error .index
  | dict _ => .error .key
  | _ => .error .type

def truthy : Document → Bool
  | null => false
  | bool b => b
  | int n => n ≠ 0
  | float x => x ≠ .finite 0
  | str s => s ≠ ""
  | list items => !items.isEmpty
  | dict entries => !entries.isEmpty

/-- What a loop over the value goes through. -/
def iterate : Document → Except BuiltinError (List Document)
  | list items => .ok items
  | str s => .ok (s.toList.map fun c ↦ str (String.singleton c))
  | dict entries => .ok (entries.map fun e ↦ str e.1)
  | _ => .error .type

def isNull : Document → Bool
  | null => true
  | _ => false

variable (conv : Conversions)

/-- `float`. -/
def toFloat : Document → Except BuiltinError Number
  | bool b => .ok (.finite (if b then 1 else 0))
  | int n =>
    match conv.floatOfInt n with
    | some x => .ok x
    | none => .error .overflow
  | float x => .ok x
  | str s =>
    match conv.floatOfText s with
    | some x => .ok x
    | none => .error .value
  | _ => .error .type

/-- `int`. -/
def toInt : Document → Except BuiltinError ℤ
  | bool b => .ok (if b then 1 else 0)
  | int n => .ok n
  | float (.finite x) => .ok (x.num.tdiv x.den)
  | float .nan => .error .value
  | float (.infinite _) => .error .overflow
  | str s =>
    match conv.intOfText s with
    | some n => .ok n
    | none => .error .value
  | _ => .error .type

end Document

end TradingOS.Lib
