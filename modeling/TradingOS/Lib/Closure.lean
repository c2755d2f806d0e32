import Mathlib.Data.Finset.Prod
import Mathlib.Data.Finset.Union
import Mathlib.Logic.Relation
import TradingOS.Lib.Table

namespace TradingOS.Lib.Closure

open Relation

section Order

variable {κ : Type*} {r : κ → κ → Prop} {l : List κ} {x y : κ}

/-- Each leads only to the ones after it. -/
def LeadsDown (r : κ → κ → Prop) : List κ → Prop
  | [] => True
  | x :: l => (∀ y, r x y → y ∈ l) ∧ LeadsDown r l

theorem LeadsDown.mem (h : LeadsDown r l) (hx : x ∈ l) (hxy : r x y) : y ∈ l := by
  induction l with
  | nil => cases hx
  | cons z l ih =>
    obtain ⟨hz, hl⟩ := h
    rcases List.mem_cons.mp hx with rfl | hx
    · exact List.mem_cons_of_mem _ (hz y hxy)
    · exact List.mem_cons_of_mem _ (ih hl hx)

theorem LeadsDown.mem_of_path (h : LeadsDown r l) (hx : x ∈ l) (hxy : TransGen r x y) : y ∈ l := by
  induction hxy with
  | single hxy => exact h.mem hx hxy
  | tail _ hyz ih => exact h.mem ih hyz

theorem LeadsDown.acyclic (h : LeadsDown r l) (hx : x ∈ l) : ¬ TransGen r x x := by
  induction l with
  | nil => cases hx
  | cons z l ih =>
    obtain ⟨hz, hl⟩ := h
    by_cases hxl : x ∈ l
    · exact ih hl hxl
    · obtain rfl : x = z := (List.mem_cons.mp hx).resolve_right hxl
      intro hcycle
      obtain ⟨y, hxy, hyx⟩ := TransGen.head'_iff.mp hcycle
      rcases reflTransGen_iff_eq_or_transGen.mp hyx with rfl | hyx
      · exact hxl (hz _ hxy)
      · exact hxl (hl.mem_of_path (hz y hxy) hyx)

end Order

section Bridge

variable {κ : Type*} {r : κ → κ → Prop} {A B : κ → Prop} {x y : κ}

/-- The relation, where each of some also leads to each of others. -/
def Bridge (r : κ → κ → Prop) (A B : κ → Prop) (x y : κ) : Prop := r x y ∨ A x ∧ B y

theorem reflTransGen_bridge : ReflTransGen (Bridge r A B) x y ↔
    ReflTransGen r x y ∨ (∃ a, A a ∧ ReflTransGen r x a) ∧ ∃ b, B b ∧ ReflTransGen r b y := by
  constructor
  · intro h
    induction h with
    | refl => exact .inl .refl
    | @tail y z _ hyz ih =>
      rcases hyz with hyz | ⟨hy, hz⟩
      · rcases ih with hxy | ⟨hA, b, hb, hby⟩
        · exact .inl (hxy.tail hyz)
        · exact .inr ⟨hA, b, hb, hby.tail hyz⟩
      · refine .inr ⟨?_, z, hz, .refl⟩
        rcases ih with hxy | ⟨hA, -⟩
        · exact ⟨y, hy, hxy⟩
        · exact hA
  · have hmono {u v : κ} (h : ReflTransGen r u v) : ReflTransGen (Bridge r A B) u v :=
      ReflTransGen.mono (fun _ _ ↦ .inl) _ _ h
    rintro (h | ⟨⟨a, ha, hxa⟩, b, hb, hby⟩)
    · exact hmono h
    · exact ((hmono hxa).tail (.inr ⟨ha, hb⟩)).trans (hmono hby)

/-- The new edges close no cycle exactly if none of their ends leads back to a start. -/
theorem acyclic_bridge : (∀ k, ¬ TransGen (Bridge r A B) k k) ↔
    (∀ k, ¬ TransGen r k k) ∧ ∀ a b, A a → B b → ¬ ReflTransGen r b a := by
  constructor
  · refine fun h ↦ ⟨fun k hk ↦ h k (TransGen.mono (fun _ _ ↦ .inl) _ _ hk), ?_⟩
    intro a b ha hb hba
    exact h a (TransGen.head' (.inr ⟨ha, hb⟩) (reflTransGen_bridge.mpr (.inl hba)))
  · rintro ⟨hr, hback⟩ k hk
    obtain ⟨z, hkz, hzk⟩ := TransGen.head'_iff.mp hk
    rcases hkz with hkz | ⟨hk, hz⟩ <;> rcases reflTransGen_bridge.mp hzk with hzk | ⟨⟨a, ha, hza⟩, b, hb, hbk⟩
    · exact hr k (.head' hkz hzk)
    · exact hback a b ha hb (hbk.trans (.head hkz hza))
    · exact hback k z hk hz hzk
    · exact hback a z ha hz hza

end Bridge

/-- The sets of what each key leads to. -/
abbrev Graph (κ : Type*) := Table κ (Finset κ)

variable {κ : Type*} [DecidableEq κ]

namespace Graph

def next (G : Graph κ) (k : κ) : Finset κ := (G.get? k).getD ∅

def Edge (G : Graph κ) (x y : κ) : Prop := y ∈ G.next x

/-- What a key leads to in one step or two. -/
def widened (G : Graph κ) (k : κ) : Finset κ := G.next k ∪ (G.next k).biUnion G.next

def widen (G : Graph κ) (k : κ) : Graph κ := G.modify k fun _ ↦ G.widened k

/-- One visit of every key, each with what the visits before it have found; and whether any has
found something. -/
def pass (G : Graph κ) : Graph κ × Bool :=
  G.keys.foldl (fun s k ↦ if s.1.widened k = s.1.next k then s else (s.1.widen k, true)) (G, false)

/-- Passes until one finds nothing. -/
def saturate : ℕ → Graph κ → Graph κ
  | 0, G => G
  | fuel + 1, G => if G.pass.2 then saturate fuel G.pass.1 else G.pass.1

/-- The same passes with no end set to them; nothing comes of a loop that the fuel does not last. -/
def loop : ℕ → Graph κ → Option (Graph κ)
  | 0, _ => none
  | fuel + 1, G => if G.pass.2 then loop fuel G.pass.1 else some G.pass.1

def targets (G : Graph κ) : Finset κ := G.keys.toFinset.biUnion G.next

/-- As many passes as there can be. -/
def closure (G : Graph κ) : Graph κ := saturate (G.keys.length * G.targets.card + 1) G

variable {G H : Graph κ} {k x y : κ}

theorem next_widen (G : Graph κ) (k x : κ) :
    (G.widen k).next x = if x = k ∧ k ∈ G.keys then G.widened k else G.next x := by
  simp only [next, widen, Table.get?_modify]
  by_cases hx : x = k
  · subst hx
    cases hget : G.get? x with
    | none => simp [G.get?_eq_none.mp hget]
    | some s =>
      have hmem : x ∈ G.keys := by
        by_contra h
        rw [G.get?_eq_none.mpr h] at hget
        cases hget
      simp [hmem]
  · simp [hx]

theorem mem_keys_of_edge (h : G.Edge x y) : x ∈ G.keys := by
  by_contra hx
  rw [Edge, next, G.get?_eq_none.mpr hx] at h
  exact absurd h (Finset.notMem_empty y)

theorem mem_widened : y ∈ G.widened x ↔ G.Edge x y ∨ ∃ z, G.Edge x z ∧ G.Edge z y := by
  simp [widened, Edge]

/-- What has been found, between the edges and the paths of the graph it started from. -/
structure Between (G H : Graph κ) : Prop where
  keys : H.keys = G.keys
  edge : ∀ x y, G.Edge x y → H.Edge x y
  path : ∀ x y, H.Edge x y → TransGen G.Edge x y

theorem Between.refl (G : Graph κ) : Between G G := ⟨rfl, fun _ _ h ↦ h, fun _ _ ↦ .single⟩

theorem edge_widen (h : G.Edge x y) (k : κ) : (G.widen k).Edge x y := by
  rw [Edge, next_widen]
  split
  · next hx => exact mem_widened.mpr (.inl (hx.1 ▸ h))
  · exact h

theorem Between.widen (h : Between G H) (k : κ) : Between G (H.widen k) where
  keys := (H.keys_modify k _).trans h.keys
  edge x y hxy := edge_widen (h.edge x y hxy) k
  path x y hxy := by
    rw [Edge, next_widen] at hxy
    split at hxy
    · next hx =>
      rcases mem_widened.mp hxy with hky | ⟨z, hkz, hzy⟩
      · exact hx.1 ▸ h.path k y hky
      · exact hx.1 ▸ (h.path k z hkz).trans (h.path z y hzy)
    · exact h.path x y hxy

/-- The pairs found. -/
def found (G H : Graph κ) : Finset (κ × κ) :=
  (G.keys.toFinset ×ˢ G.targets).filter fun p ↦ p.2 ∈ H.next p.1

theorem mem_found (h : Between G H) : (x, y) ∈ found G H ↔ H.Edge x y := by
  simp only [found, Finset.mem_filter, Finset.mem_product, List.mem_toFinset, Edge,
    and_iff_right_iff_imp]
  intro hxy
  refine ⟨h.keys ▸ mem_keys_of_edge hxy, ?_⟩
  obtain ⟨z, -, hzy⟩ := TransGen.tail'_iff.mp (h.path x y hxy)
  exact Finset.mem_biUnion.mpr ⟨z, List.mem_toFinset.mpr (mem_keys_of_edge hzy), hzy⟩

theorem card_found_le : (found G H).card ≤ G.keys.length * G.targets.card := by
  refine (Finset.card_filter_le _ _).trans ?_
  rw [Finset.card_product]
  exact Nat.mul_le_mul_right _ (List.toFinset_card_le _)

/-- A visit that finds something adds to the pairs. -/
theorem card_found_widen (h : Between G H) (hk : k ∈ H.keys) (hne : H.widened k ≠ H.next k) :
    (found G H).card < (found G (H.widen k)).card := by
  refine Finset.card_lt_card ⟨fun ⟨x, y⟩ hxy ↦ ?_, fun hsub ↦ hne ?_⟩
  · exact (mem_found (h.widen k)).mpr (edge_widen ((mem_found h).mp hxy) k)
  · refine Finset.Subset.antisymm (fun y hy ↦ ?_) Finset.subset_union_left
    have hedge : (H.widen k).Edge k y := by
      rw [Edge, next_widen, if_pos ⟨rfl, hk⟩]
      exact hy
    exact (mem_found h).mp (hsub ((mem_found (h.widen k)).mpr hedge))

def Closed (H : Graph κ) : Prop := ∀ k ∈ H.keys, H.widened k = H.next k

/-- Where a pass stands after some of the keys. -/
theorem pass_from (h : Between G H) (ks : List κ) (hks : ks ⊆ H.keys) (changed : Bool) :
    let s := ks.foldl
      (fun s k ↦ if s.1.widened k = s.1.next k then s else (s.1.widen k, true)) (H, changed)
    Between G s.1 ∧ (found G H).card ≤ (found G s.1).card ∧
      (s.2 = true → changed = true ∨ (found G H).card < (found G s.1).card) ∧
      (s.2 = false → changed = false ∧ s.1 = H ∧ ∀ k ∈ ks, H.widened k = H.next k) := by
  induction ks generalizing H changed with
  | nil => exact ⟨h, le_rfl, .inl, fun hs ↦ ⟨hs, rfl, fun k hk ↦ absurd hk List.not_mem_nil⟩⟩
  | cons k ks ih =>
    obtain ⟨hk, hks⟩ := List.cons_subset.mp hks
    simp only [List.foldl_cons]
    by_cases hsame : H.widened k = H.next k
    · rw [if_pos hsame]
      obtain ⟨hbetween, hle, htrue, hfalse⟩ := ih h hks changed
      refine ⟨hbetween, hle, htrue, fun hs ↦ ?_⟩
      obtain ⟨hchanged, heq, hrest⟩ := hfalse hs
      exact ⟨hchanged, heq, List.forall_mem_cons.mpr ⟨hsame, hrest⟩⟩
    · rw [if_neg hsame]
      have hlt := card_found_widen h hk hsame
      have hkeys : (H.widen k).keys = H.keys := H.keys_modify k _
      obtain ⟨hbetween, hle, -, hfalse⟩ := ih (h.widen k) (hkeys.symm ▸ hks) true
      have hlt' := hlt.trans_le hle
      exact ⟨hbetween, hlt'.le, fun _ ↦ .inr hlt', fun hs ↦ absurd (hfalse hs).1 (by decide)⟩

theorem Between.pass (h : Between G H) :
    Between G H.pass.1 ∧ (H.pass.2 = true → (found G H).card < (found G H.pass.1).card) ∧
      (H.pass.2 = false → H.pass.1 = H ∧ H.Closed) := by
  obtain ⟨hbetween, -, htrue, hfalse⟩ := pass_from h H.keys (List.Subset.refl _) false
  exact ⟨hbetween, fun hs ↦ (htrue hs).resolve_left (by decide), fun hs ↦ (hfalse hs).2⟩

/-- Every pass but the last finds a pair, so enough passes end with one that finds none. -/
theorem Between.saturate (h : Between G H) {fuel : ℕ}
    (hfuel : G.keys.length * G.targets.card < (found G H).card + fuel) :
    Between G (H.saturate fuel) ∧ (H.saturate fuel).Closed := by
  induction fuel generalizing H with
  | zero => exact absurd card_found_le (Nat.not_le.mpr hfuel)
  | succ fuel ih =>
    obtain ⟨hpass, htrue, hfalse⟩ := h.pass
    rw [Graph.saturate]
    split
    · next hs =>
      have hlt := htrue hs
      exact ih hpass (by omega)
    · next hs =>
      obtain ⟨heq, hclosed⟩ := hfalse (Bool.eq_false_iff.mpr hs)
      exact ⟨hpass, heq.symm ▸ hclosed⟩

theorem Between.loop (h : Between G H) {fuel : ℕ}
    (hfuel : G.keys.length * G.targets.card < (found G H).card + fuel) :
    Graph.loop fuel H = some (H.saturate fuel) := by
  induction fuel generalizing H with
  | zero => exact absurd card_found_le (Nat.not_le.mpr hfuel)
  | succ fuel ih =>
    obtain ⟨hpass, htrue, -⟩ := h.pass
    rw [Graph.loop, Graph.saturate]
    split
    · next hs =>
      have hlt := htrue hs
      exact ih hpass (by omega)
    · rfl

theorem loop_succ {fuel : ℕ} (h : loop fuel G = some H) : loop (fuel + 1) G = some H := by
  induction fuel generalizing G with
  | zero => cases h
  | succ fuel ih =>
    rw [loop] at h ⊢
    split at h
    · next hs =>
      rw [if_pos hs]
      exact ih h
    · next hs =>
      rw [if_neg hs]
      exact h

/-- The loop ends with the closure. -/
theorem loop_eq_closure (G : Graph κ) :
    ∃ bound, ∀ fuel, bound ≤ fuel → loop fuel G = some G.closure := by
  refine ⟨G.keys.length * G.targets.card + 1, fun fuel hfuel ↦ ?_⟩
  induction fuel, hfuel using Nat.le_induction with
  | base => exact (Between.refl G).loop (by omega)
  | succ fuel _ ih => exact loop_succ ih

/-- The closure holds the paths. -/
theorem edge_closure (G : Graph κ) (x y : κ) : G.closure.Edge x y ↔ TransGen G.Edge x y := by
  have hfuel : G.keys.length * G.targets.card <
      (found G G).card + (G.keys.length * G.targets.card + 1) := by omega
  obtain ⟨hbetween, hclosed⟩ : Between G G.closure ∧ G.closure.Closed :=
    (Between.refl G).saturate hfuel
  refine ⟨hbetween.path x y, fun h ↦ ?_⟩
  induction h with
  | single h => exact hbetween.edge _ _ h
  | tail _ hzy ih =>
    rw [Edge, ← hclosed x (mem_keys_of_edge ih)]
    exact mem_widened.mpr (.inr ⟨_, ih, hbetween.edge _ _ hzy⟩)

end Graph

end TradingOS.Lib.Closure
