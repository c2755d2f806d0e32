import Mathlib.Algebra.BigOperators.Group.List.Basic
import Mathlib.Logic.Basic

namespace TradingOS.Lib

/-- Leaving entries out of a sum is counting them zero. -/
theorem sum_filterMap_eq {α M : Type*} [AddMonoid M] {l : List α} {f : α → Option M} {g : α → M}
    (h : ∀ a ∈ l, (f a).getD 0 = g a) : (l.filterMap f).sum = (l.map g).sum := by
  induction l with
  | nil => rfl
  | cons a l ih =>
    have ha := h a List.mem_cons_self
    have hl := ih fun b hb ↦ h b (List.mem_cons_of_mem a hb)
    cases hf : f a with
    | none =>
      rw [hf, Option.getD_none] at ha
      rw [List.filterMap_cons_none hf, List.map_cons, List.sum_cons, hl, ← ha, zero_add]
    | some b =>
      rw [hf, Option.getD_some] at ha
      rw [List.filterMap_cons_some hf, List.map_cons, List.sum_cons, List.sum_cons, hl, ha]

theorem sum_map_filter_eq {α M : Type*} [AddMonoid M] {l : List α} {p : α → Bool} {f : α → M}
    (h : ∀ a ∈ l, p a = false → f a = 0) : ((l.filter p).map f).sum = (l.map f).sum := by
  induction l with
  | nil => rfl
  | cons a l ih =>
    have hl := ih fun b hb ↦ h b (List.mem_cons_of_mem a hb)
    rw [List.map_cons, List.sum_cons, ← hl]
    cases hp : p a with
    | true => rw [List.filter_cons_of_pos hp, List.map_cons, List.sum_cons]
    | false => rw [List.filter_cons_of_neg (by simp [hp]), h a List.mem_cons_self hp, zero_add]

/-- A mark that neither part before it contains is the same mark. -/
theorem append_cons_inj {α : Type*} {x : α} {a b r r' : List α} (ha : x ∉ a) (hb : x ∉ b)
    (h : a ++ x :: r = b ++ x :: r') : a = b ∧ r = r' := by
  induction a generalizing b with
  | nil =>
    cases b with
    | nil => exact ⟨rfl, (List.cons.inj h).2⟩
    | cons y b =>
      obtain rfl := (List.cons.inj h).1
      exact absurd List.mem_cons_self hb
  | cons z a ih =>
    cases b with
    | nil =>
      obtain rfl := (List.cons.inj h).1
      exact absurd List.mem_cons_self ha
    | cons y b =>
      obtain ⟨rfl, hrest⟩ := List.cons.inj h
      obtain ⟨rfl, hr⟩ := ih (fun hm ↦ ha (List.mem_cons_of_mem _ hm))
        (fun hm ↦ hb (List.mem_cons_of_mem _ hm)) hrest
      exact ⟨rfl, hr⟩

/-- Under distinct keys, the entries of a key are one. -/
theorem filter_key_eq_singleton {α κ : Type*} [DecidableEq κ] {l : List α} {key : α → κ}
    (h : (l.map key).Nodup) {a : α} (ha : a ∈ l) : l.filter (key · = key a) = [a] := by
  induction l with
  | nil => cases ha
  | cons b l ih =>
    obtain ⟨hb, hl⟩ := List.nodup_cons.mp h
    rcases List.mem_cons.mp ha with rfl | ha
    · have hrest : l.filter (key · = key a) = [] := by
        refine List.filter_eq_nil_iff.mpr fun c hc he ↦ hb ?_
        exact of_decide_eq_true he ▸ List.mem_map_of_mem hc
      rw [List.filter_cons_of_pos (by simp), hrest]
    · have hne : key b ≠ key a := fun he ↦ hb (he ▸ List.mem_map_of_mem ha)
      rw [List.filter_cons_of_neg (by simpa using hne), ih hl ha]

/-- Rows of other keys leave the rows of a key as they were. -/
theorem filter_append_of_forall_ne {α κ : Type*} [DecidableEq κ] {key : α → κ} {rows new : List α}
    {k : κ} (h : ∀ a ∈ new, key a ≠ k) :
    (rows ++ new).filter (key · = k) = rows.filter (key · = k) := by
  have hnew : new.filter (key · = k) = [] :=
    List.filter_eq_nil_iff.mpr fun a ha ↦ by simpa using h a ha
  rw [List.filter_append, hnew, List.append_nil]

/-- Where nothing is kept behind an entry that goes, what is kept is the beginning. -/
theorem filter_isPrefix_of_pairwise {α : Type*} {p : α → Bool} {l : List α}
    (h : l.Pairwise fun a b ↦ p b → p a) : l.filter p <+: l := by
  induction l with
  | nil => exact List.prefix_rfl
  | cons a l ih =>
    obtain ⟨ha, hl⟩ := List.pairwise_cons.mp h
    by_cases hp : p a = true
    · rw [List.filter_cons_of_pos hp]
      exact (List.prefix_cons_inj a).mpr (ih hl)
    · have hnone : l.filter p = [] := List.filter_eq_nil_iff.mpr fun b hb hpb ↦ hp (ha b hb hpb)
      rw [List.filter_cons_of_neg hp, hnone]
      exact List.nil_prefix

theorem modify_congr {α : Type*} {l : List α} {i : ℕ} {f g : α → α}
    (h : ∀ a, l[i]? = some a → f a = g a) : l.modify i f = l.modify i g := by
  apply List.ext_getElem?
  intro j
  rw [List.getElem?_modify, List.getElem?_modify]
  cases ha : l[j]? with
  | none => rfl
  | some a =>
    by_cases hij : i = j
    · subst hij
      simp [h a ha]
    · simp [hij]

theorem modify_eq_self {α : Type*} {l : List α} {i : ℕ} {f : α → α}
    (h : ∀ a, l[i]? = some a → f a = a) : l.modify i f = l := by
  have hid : l.modify i f = l.modify i id := modify_congr h
  rw [hid, List.modify_id]

theorem mem_of_mapM {α β : Type*} {f : α → Option β} {l : List α} {l' : List β}
    (h : l.mapM f = some l') {b : β} : b ∈ l' ↔ ∃ a ∈ l, f a = some b := by
  induction l generalizing l' with
  | nil =>
    obtain rfl := Option.some.inj h
    simp
  | cons a l ih =>
    rw [List.mapM_cons] at h
    obtain ⟨c, hc, h⟩ := Option.bind_eq_some_iff.mp h
    obtain ⟨cs, hcs, h⟩ := Option.bind_eq_some_iff.mp h
    obtain rfl := Option.some.inj h
    simp only [List.mem_cons, ih hcs, exists_eq_or_imp, hc, Option.some.injEq]
    exact or_congr_left eq_comm

theorem isSome_of_mapM {α β : Type*} {f : α → Option β} {l : List α} {l' : List β}
    (h : l.mapM f = some l') {a : α} (ha : a ∈ l) : ∃ b, f a = some b := by
  induction l generalizing l' with
  | nil => cases ha
  | cons c l ih =>
    rw [List.mapM_cons] at h
    obtain ⟨b, hb, h⟩ := Option.bind_eq_some_iff.mp h
    obtain ⟨bs, hbs, -⟩ := Option.bind_eq_some_iff.mp h
    rcases List.mem_cons.mp ha with rfl | ha
    · exact ⟨b, hb⟩
    · exact ih hbs ha

theorem exists_mapM_eq_some {α β : Type*} {f : α → Option β} {l : List α} :
    (∃ l', l.mapM f = some l') ↔ ∀ a ∈ l, ∃ b, f a = some b := by
  constructor
  · rintro ⟨l', h⟩ a ha
    exact isSome_of_mapM h ha
  · intro h
    induction l with
    | nil => exact ⟨[], rfl⟩
    | cons a l ih =>
      obtain ⟨⟨b, hb⟩, hl⟩ := List.forall_mem_cons.mp h
      obtain ⟨l', hl'⟩ := ih hl
      exact ⟨b :: l', by rw [List.mapM_cons, hb, hl']; rfl⟩

theorem findSome?_eq_bind_find? {α β : Type*} (f : α → Option β) (l : List α) :
    l.findSome? f = (l.find? fun a ↦ (f a).isSome).bind f := by
  induction l with
  | nil => rfl
  | cons a l ih =>
    rw [List.findSome?_cons, List.find?_cons]
    cases h : f a with
    | none => exact ih
    | some b => simp [h]

theorem forall_mem_zip_tail {α : Type*} {r : α → α → Prop} {l : List α} :
    (∀ p ∈ l.zip l.tail, r p.1 p.2) ↔ l.IsChain r := by
  induction l with
  | nil => simp
  | cons a l ih =>
    cases l with
    | nil => simp
    | cons b l => simpa using fun _ ↦ ih

theorem sublist_of_mem_zip_tail {α : Type*} {a b : α} {l : List α} (h : (a, b) ∈ l.zip l.tail) :
    [a, b].Sublist l := by
  induction l with
  | nil => simp at h
  | cons c l ih =>
    cases l with
    | nil => simp at h
    | cons d l =>
      rw [List.tail_cons, List.zip_cons_cons, List.mem_cons] at h
      rcases h with h | h
      · obtain ⟨rfl, rfl⟩ := Prod.mk.inj h
        exact ((List.nil_sublist l).cons_cons b).cons_cons a
      · exact (ih h).cons c

theorem map_fst_filterMap_sublist {α β : Type*} {f : α → Option (α × β)}
    (hf : ∀ a p, f a = some p → p.1 = a) (l : List α) :
    ((l.filterMap f).map Prod.fst).Sublist l := by
  induction l with
  | nil => exact List.Sublist.slnil
  | cons a l ih =>
    cases hfa : f a with
    | none => simpa only [List.filterMap_cons_none hfa] using ih.cons a
    | some p =>
      rw [List.filterMap_cons_some hfa, List.map_cons, hf a p hfa]
      exact ih.cons_cons a

/-- Any entry can come first of its key, with the first of every other key where it was. -/
theorem exists_perm_find? {α κ : Type*} [DecidableEq κ] (key : α → κ) {l : List α} {a : α}
    (h : a ∈ l) : ∃ l' : List α, l'.Perm l ∧ l'.find? (key · = key a) = some a ∧
      ∀ k, k ≠ key a → l'.find? (key · = k) = l.find? (key · = k) := by
  obtain ⟨l₁, l₂, rfl⟩ := List.append_of_mem h
  refine ⟨a :: (l₁ ++ l₂), List.perm_middle.symm, by simp, fun k hk ↦ ?_⟩
  have hne : decide (key a = k) = false := decide_eq_false (Ne.symm hk)
  rw [List.find?_cons_of_neg (by simp [hne]), List.find?_append, List.find?_append,
    List.find?_cons_of_neg (by simp [hne])]

/-- The first `n` entries meet `p` exactly if the run of entries that do is so long. -/
theorem le_length_takeWhile_iff {α : Type*} {p : α → Bool} {l : List α} {n : ℕ} :
    n ≤ (l.takeWhile p).length ↔ n ≤ l.length ∧ (l.take n).all p := by
  induction l generalizing n with
  | nil => simp
  | cons a l ih =>
    cases n with
    | zero => simp
    | succ n =>
      by_cases ha : p a = true
      · rw [List.takeWhile_cons_of_pos ha, List.length_cons, List.length_cons, List.take_succ_cons,
          List.all_cons, ha, Bool.true_and, Nat.succ_le_succ_iff, Nat.succ_le_succ_iff, ih]
      · simp [ha]

/-- The entries that meet `p` are those of the first run exactly if none comes after it. -/
theorem countP_le_length_takeWhile_iff {α : Type*} {p : α → Bool} {l : List α} :
    l.countP p ≤ (l.takeWhile p).length ↔ (l.dropWhile p).all (¬ p ·) := by
  have hsplit : l.countP p = (l.takeWhile p).length + (l.dropWhile p).countP p := by
    conv_lhs => rw [← List.takeWhile_append_dropWhile (p := p) (l := l), List.countP_append]
    rw [List.countP_eq_length.mpr fun a ha ↦ List.all_eq_true.mp List.all_takeWhile a ha]
  have hnone : (l.takeWhile p).length + (l.dropWhile p).countP p ≤ (l.takeWhile p).length ↔
      (l.dropWhile p).countP p = 0 := by omega
  rw [hsplit, hnone, List.countP_eq_zero]
  simp

end TradingOS.Lib
