import Mathlib.Data.List.Sort
import Mathlib.Data.String.Basic
import TradingOS.Lib.JsonText

namespace TradingOS.Core

open Lib

/-- The keys of the mappings a payload may hold. -/
inductive Key
  | str (s : String)
  | int (n : ℤ)
  deriving DecidableEq

namespace Key

def isStr : Key → Bool
  | str _ => true
  | int _ => false

def text : Key → String
  | str s => s
  | int n => .ofList (intText n)

/-- The order of `sort_keys`, which knows no order between strings and integers. -/
def le : Key → Key → Bool
  | str s, str t => s ≤ t
  | int m, int n => m ≤ n
  | str _, int _ => true
  | int _, str _ => false

theorem total (k l : Key) : k.le l ∨ l.le k := by
  cases k <;> cases l <;> simp [le, le_total]

theorem trans {k l m : Key} (hkl : k.le l) (hlm : l.le m) : k.le m := by
  cases k <;> cases l <;> cases m <;> simp_all only [le, decide_eq_true_eq, Bool.false_eq_true]
  all_goals exact le_trans hkl hlm

theorem antisymm {k l : Key} (hkl : k.le l) (hlk : l.le k) : k = l := by
  cases k <;> cases l <;> simp_all only [le, decide_eq_true_eq, Bool.false_eq_true]
  all_goals rw [le_antisymm hkl hlk]

theorem text_injective {k l : Key} (hkind : k.isStr = l.isStr) (h : k.text = l.text) : k = l := by
  cases k with
  | str s =>
    cases l with
    | str t => rw [show s = t from h]
    | int n => cases hkind
  | int m =>
    cases l with
    | str t => cases hkind
    | int n => rw [intText_injective (String.ofList_injective h)]

end Key

section Members

variable {β : Type}

def sortKeys (members : List (Key × β)) : List (Key × β) :=
  members.insertionSort fun a b ↦ a.1.le b.1

def sortTexts (members : List (String × β)) : List (String × β) :=
  members.insertionSort fun a b ↦ a.1 ≤ b.1

def keyTexts (members : List (Key × β)) : List (String × β) := members.map fun m ↦ (m.1.text, m.2)

end Members

/-- What `json.dumps` with `sort_keys` writes out. -/
def document : Json Key → Json String :=
  Json.fold .leaf .list fun members ↦ .dict (keyTexts (sortKeys members))

/-- Whether `json.dumps` takes the value: the keys of a mapping are distinct and of one kind. -/
def Accepted : Json Key → Bool :=
  Json.fold (fun _ ↦ true) (fun items ↦ items.all id) fun members ↦
    (members.map Prod.fst).Nodup ∧
      ((members.map Prod.fst).all Key.isStr ∨ !(members.map Prod.fst).any Key.isStr) ∧
      members.all Prod.snd

/-- A state that can be written to the log. -/
structure Payload where
  value : Json Key
  accepted : Accepted value

/-- The last `width` digits of `n`. -/
def padded (base : ℕ) : ℕ → ℕ → List Char
  | 0, _ => []
  | width + 1, n => padded base width (n / base) ++ [(n % base).digitChar]

/-- A `uuid.UUID`. -/
abbrev Uuid := Fin (2 ^ 128)

def Uuid.text (u : Uuid) : String :=
  .ofList (padded 16 8 (u / 16 ^ 24) ++ '-' :: padded 16 4 (u / 16 ^ 20) ++
    '-' :: padded 16 4 (u / 16 ^ 16) ++ '-' :: padded 16 4 (u / 16 ^ 12) ++ '-' :: padded 16 12 u)

/-- A `datetime` without a zone or in UTC: no other zone is ever written. -/
structure Datetime where
  (year month day hour minute second microsecond : ℕ)
  utc : Bool
  date_range : 1 ≤ year ∧ year < 10000 ∧ 1 ≤ month ∧ month ≤ 12 ∧ 1 ≤ day ∧ day ≤ 31
  time_range : hour < 24 ∧ minute < 60 ∧ second < 60 ∧ microsecond < 1000000
  deriving DecidableEq

namespace Datetime

/-- `replace(tzinfo=None)`, which leaves the clock reading of a UTC value. -/
def naive (t : Datetime) : Datetime := { t with utc := false }

def fractionText (t : Datetime) : List Char :=
  if t.microsecond = 0 then [] else '.' :: padded 10 6 t.microsecond

def clockText (t : Datetime) : List Char :=
  padded 10 4 t.year ++ '-' :: padded 10 2 t.month ++ '-' :: padded 10 2 t.day ++
    'T' :: padded 10 2 t.hour ++ ':' :: padded 10 2 t.minute ++ ':' :: padded 10 2 t.second ++
    t.fractionText

def isoformat (t : Datetime) : String :=
  .ofList (t.clockText ++ if t.utc then ['+', '0', '0', ':', '0', '0'] else [])

end Datetime

/-- The content columns of an entry, with states of type `σ`. -/
@[ext] structure Content (σ : Type) where
  actorType : String
  actorId : String
  action : String
  entityType : String
  entityId : Option Uuid
  beforeState : σ
  afterState : σ
  promptSnapshot : Option String
  ipAddress : Option String
  createdAt : Datetime
  deriving DecidableEq

def strValue (s : String) : Json Key := .leaf (.str s)

def optValue : Option String → Json Key
  | some s => strValue s
  | none => .leaf .null

namespace Content

def fields (c : Content Payload) : List (Key × Json Key) :=
  [(.str "actor_type", strValue c.actorType), (.str "actor_id", strValue c.actorId),
    (.str "action", strValue c.action), (.str "entity_type", strValue c.entityType),
    (.str "entity_id", optValue (c.entityId.map Uuid.text)),
    (.str "before_state", c.beforeState.value), (.str "after_state", c.afterState.value),
    (.str "prompt_snapshot", optValue c.promptSnapshot),
    (.str "ip_address", optValue c.ipAddress),
    (.str "created_at", strValue c.createdAt.naive.isoformat)]

def canonicalPayload (c : Content Payload) : String := .ofList (document (.dict c.fields)).text

end Content

section Document

theorem document_leaf (a : Leaf) : document (.leaf a) = .leaf a := Json.fold_leaf _ _ _ a

theorem document_list (items : List (Json Key)) :
    document (.list items) = .list (items.map document) := Json.fold_list _ _ _ items

theorem keyTexts_map {β γ : Type} (f : β → γ) (members : List (Key × β)) :
    keyTexts (members.map fun m ↦ (m.1, f m.2)) = (keyTexts members).map fun m ↦ (m.1, f m.2) := by
  simp only [keyTexts, List.map_map, Function.comp_def]

theorem sortKeys_map {β γ : Type} (f : β → γ) (members : List (Key × β)) :
    sortKeys (members.map fun m ↦ (m.1, f m.2)) = (sortKeys members).map fun m ↦ (m.1, f m.2) :=
  (List.map_insertionSort (fun a b : Key × β ↦ a.1.le b.1) (fun a b : Key × γ ↦ a.1.le b.1)
    (fun m ↦ (m.1, f m.2)) members fun _ _ _ _ ↦ Iff.rfl).symm

theorem document_dict (members : List (Key × Json Key)) :
    document (.dict members) =
      .dict ((keyTexts (sortKeys members)).map fun m ↦ (m.1, document m.2)) := by
  rw [document, Json.fold_dict, sortKeys_map, keyTexts_map]

/-- Sorted by key, with the values as they are written out. -/
theorem document_fields (c : Content Payload) :
    document (.dict c.fields) = .dict
      [("action", document (strValue c.action)), ("actor_id", document (strValue c.actorId)),
        ("actor_type", document (strValue c.actorType)),
        ("after_state", document c.afterState.value),
        ("before_state", document c.beforeState.value),
        ("created_at", document (strValue c.createdAt.naive.isoformat)),
        ("entity_id", document (optValue (c.entityId.map Uuid.text))),
        ("entity_type", document (strValue c.entityType)),
        ("ip_address", document (optValue c.ipAddress)),
        ("prompt_snapshot", document (optValue c.promptSnapshot))] := by
  rw [document_dict]
  rfl

end Document

section Texts

theorem padded_length (base width n : ℕ) : (padded base width n).length = width := by
  induction width generalizing n with
  | zero => rfl
  | succ width ih => rw [padded, List.length_append, ih, List.length_singleton]

theorem digitChar_injOn {d e : ℕ} (hd : d < 16) (he : e < 16) (h : d.digitChar = e.digitChar) :
    d = e := by
  have hall : ∀ d < 16, ∀ e < 16, d.digitChar = e.digitChar → d = e := by decide
  exact hall d hd e he h

theorem mod_eq_of_padded_eq {base width m n : ℕ} (hpos : 0 < base) (hbase : base ≤ 16)
    (h : padded base width m = padded base width n) : m % base ^ width = n % base ^ width := by
  have hlt (k : ℕ) : k % base < 16 := (Nat.mod_lt k hpos).trans_le hbase
  induction width generalizing m n with
  | zero => simp [Nat.mod_one]
  | succ width ih =>
    obtain ⟨hinit, hlast⟩ := List.append_inj' h rfl
    have hmod : m % base = n % base := digitChar_injOn (hlt m) (hlt n) (List.cons.inj hlast).1
    rw [pow_succ', Nat.mod_mul, Nat.mod_mul, hmod, ih hinit]

theorem decimals_injective {width m n : ℕ} (hm : m < 10 ^ width) (hn : n < 10 ^ width)
    (h : padded 10 width m = padded 10 width n) : m = n := by
  rw [← Nat.mod_eq_of_lt hm, mod_eq_of_padded_eq (by decide) (by decide) h, Nat.mod_eq_of_lt hn]

/-- Texts of fixed width before a mark. -/
theorem padded_append_inj {base width m n : ℕ} {c : Char} {r r' : List Char}
    (h : padded base width m ++ c :: r = padded base width n ++ c :: r') :
    padded base width m = padded base width n ∧ r = r' := by
  obtain ⟨hdigits, hrest⟩ := List.append_inj h (by rw [padded_length, padded_length])
  exact ⟨hdigits, (List.cons.inj hrest).2⟩

theorem Uuid.text_injective {u v : Uuid} (h : u.text = v.text) : u = v := by
  have htext := String.ofList_injective h
  simp only [List.append_assoc, List.cons_append] at htext
  obtain ⟨h₁, htext⟩ := padded_append_inj htext
  obtain ⟨h₂, htext⟩ := padded_append_inj htext
  obtain ⟨h₃, htext⟩ := padded_append_inj htext
  obtain ⟨h₄, h₅⟩ := padded_append_inj htext
  have hu := u.isLt
  have hv := v.isLt
  have hmod {width m n : ℕ} (h : padded 16 width m = padded 16 width n) :
      m % 16 ^ width = n % 16 ^ width := mod_eq_of_padded_eq (by decide) (by decide) h
  have h₁ := hmod h₁
  have h₂ := hmod h₂
  have h₃ := hmod h₃
  have h₄ := hmod h₄
  have h₅ := hmod h₅
  exact Fin.ext (by omega)

namespace Datetime

theorem fractionText_injective {t u : Datetime} (h : t.fractionText = u.fractionText) :
    t.microsecond = u.microsecond := by
  simp only [fractionText] at h
  split_ifs at h with ht hu hu
  · rw [ht, hu]
  · exact decimals_injective t.time_range.2.2.2 u.time_range.2.2.2 (List.cons.inj h).2

theorem clockText_injective {t u : Datetime} (h : t.clockText = u.clockText) :
    t.naive = u.naive := by
  simp only [clockText, List.append_assoc, List.cons_append] at h
  obtain ⟨hyear, h⟩ := padded_append_inj h
  obtain ⟨hmonth, h⟩ := padded_append_inj h
  obtain ⟨hday, h⟩ := padded_append_inj h
  obtain ⟨hhour, h⟩ := padded_append_inj h
  obtain ⟨hminute, h⟩ := padded_append_inj h
  obtain ⟨hsecond, h⟩ := List.append_inj h (by rw [padded_length, padded_length])
  have hfraction := fractionText_injective h
  obtain ⟨_, ht₁, _, ht₂, _, ht₃⟩ := t.date_range
  obtain ⟨_, hu₁, _, hu₂, _, hu₃⟩ := u.date_range
  obtain ⟨ht₄, ht₅, ht₆, _⟩ := t.time_range
  obtain ⟨hu₄, hu₅, hu₆, _⟩ := u.time_range
  have hyear := decimals_injective ht₁ hu₁ hyear
  have hmonth := decimals_injective (by omega) (by omega) hmonth
  have hday := decimals_injective (by omega) (by omega) hday
  have hhour := decimals_injective (by omega) (by omega) hhour
  have hminute := decimals_injective (by omega) (by omega) hminute
  have hsecond := decimals_injective (by omega) (by omega) hsecond
  cases t
  cases u
  simp_all [naive]

theorem isoformat_injective {t u : Datetime} (h : t.naive.isoformat = u.naive.isoformat) :
    t.naive = u.naive := by
  have htext := String.ofList_injective h
  exact clockText_injective (List.append_cancel_right htext)

end Datetime

end Texts

end TradingOS.Core
