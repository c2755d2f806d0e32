import Mathlib.Data.Fintype.Card
import Mathlib.Data.Set.Finite.Basic
import Mathlib.Logic.Relation
import Mathlib.Order.WellFounded

namespace TradingOS.Lib

open Relation

/-- Nothing leads back to itself. -/
def Acyclic {α : Type*} (r : α → α → Prop) : Prop := ∀ a, ¬ TransGen r a a

namespace Acyclic

variable {α β : Type*} {r s : α → α → Prop} {a b : α}

theorem of_empty (h : ∀ a b, ¬ r a b) : Acyclic r := by
  intro a hcycle
  obtain ⟨b, hab, -⟩ := TransGen.head'_iff.mp hcycle
  exact h a b hab

/-- A path of two relations that share no node stays in the one it starts in. -/
theorem transGen_or {old : Set α} (hr : ∀ a b, r a b → a ∈ old ∧ b ∈ old)
    (hs : ∀ a b, s a b → a ∉ old ∧ b ∉ old) (h : TransGen (fun a b ↦ r a b ∨ s a b) a b) :
    b ∈ old ∧ TransGen r a b ∨ b ∉ old ∧ TransGen s a b := by
  induction h with
  | single hab =>
    rcases hab with hab | hab
    · exact .inl ⟨(hr _ _ hab).2, .single hab⟩
    · exact .inr ⟨(hs _ _ hab).2, .single hab⟩
  | tail _ hbc ih =>
    rcases ih with ⟨hb, hpath⟩ | ⟨hb, hpath⟩
    · rcases hbc with hbc | hbc
      · exact .inl ⟨(hr _ _ hbc).2, hpath.tail hbc⟩
      · exact absurd hb (hs _ _ hbc).1
    · rcases hbc with hbc | hbc
      · exact absurd (hr _ _ hbc).1 hb
      · exact .inr ⟨(hs _ _ hbc).2, hpath.tail hbc⟩

theorem or {old : Set α} (hr : ∀ a b, r a b → a ∈ old ∧ b ∈ old)
    (hs : ∀ a b, s a b → a ∉ old ∧ b ∉ old) (hracyclic : Acyclic r) (hsacyclic : Acyclic s) :
    Acyclic fun a b ↦ r a b ∨ s a b := by
  intro a hcycle
  rcases transGen_or hr hs hcycle with ⟨-, hpath⟩ | ⟨-, hpath⟩
  · exact hracyclic a hpath
  · exact hsacyclic a hpath

/-- Among finitely many nodes one leads to no other. -/
theorem exists_last (h : Acyclic r) {nodes : Set α} (hfinite : nodes.Finite) (hne : nodes.Nonempty) :
    ∃ a ∈ nodes, ∀ b ∈ nodes, ¬ r a b := by
  let below (x y : nodes) : Prop := TransGen r y x
  have : Finite nodes := hfinite
  have : IsTrans nodes below := ⟨fun _ _ _ hxy hyz ↦ hyz.trans hxy⟩
  have : Std.Irrefl below := ⟨fun x ↦ h x⟩
  have hwf : WellFounded below := Finite.wellFounded_of_trans_of_irrefl below
  obtain ⟨⟨a, ha⟩, -, hlast⟩ := hwf.has_min Set.univ ⟨⟨hne.some, hne.some_mem⟩, trivial⟩
  exact ⟨a, ha, fun b hb hab ↦ hlast ⟨b, hb⟩ trivial (.single hab)⟩

variable {t : β → β → Prop} {name : β → α} {nodes : Set β}

/-- A path between names is a path between what they name. -/
theorem transGen_named (hinj : Set.InjOn name nodes)
    (hs : ∀ a b, s a b → ∃ x ∈ nodes, ∃ y ∈ nodes, t x y ∧ name x = a ∧ name y = b)
    (h : TransGen s a b) : ∃ x ∈ nodes, ∃ y ∈ nodes, TransGen t x y ∧ name x = a ∧ name y = b := by
  induction h with
  | single hab =>
    obtain ⟨x, hx, y, hy, hxy, hnames⟩ := hs _ _ hab
    exact ⟨x, hx, y, hy, .single hxy, hnames⟩
  | tail _ hbc ih =>
    obtain ⟨x, hx, y, hy, hxy, ha, hb⟩ := ih
    obtain ⟨y', hy', z, hz, hyz, hb', hc⟩ := hs _ _ hbc
    obtain rfl := hinj hy hy' (hb.trans hb'.symm)
    exact ⟨x, hx, z, hz, hxy.tail hyz, ha, hc⟩

theorem named (ht : Acyclic t) (hinj : Set.InjOn name nodes)
    (hs : ∀ a b, s a b → ∃ x ∈ nodes, ∃ y ∈ nodes, t x y ∧ name x = a ∧ name y = b) : Acyclic s := by
  intro a hcycle
  obtain ⟨x, hx, y, hy, hxy, ha, hb⟩ := transGen_named hinj hs hcycle
  obtain rfl := hinj hx hy (ha.trans hb.symm)
  exact ht x hxy

end Acyclic

end TradingOS.Lib
