import Mathlib.Logic.Basic

namespace TradingOS.Lib

variable {ε α β : Type}

theorem bind_eq_ok {x : Except ε α} {f : α → Except ε β} {b : β} :
    x >>= f = .ok b ↔ ∃ a, x = .ok a ∧ f a = .ok b := by
  cases x with
  | error e => exact iff_of_false (fun h ↦ by cases h) (fun ⟨_, h, _⟩ ↦ by cases h)
  | ok a => exact ⟨fun h ↦ ⟨a, rfl, h⟩, fun ⟨_, ha, h⟩ ↦ by cases ha; exact h⟩

theorem map_isOk_iff {x : Except ε α} {f : α → β} :
    (∃ b, x.map f = .ok b) ↔ ∃ a, x = .ok a := by
  cases x with
  | error e =>
    constructor
    · rintro ⟨b, hb⟩
      cases hb
    · rintro ⟨a, ha⟩
      cases ha
  | ok a => exact iff_of_true ⟨f a, rfl⟩ ⟨a, rfl⟩

theorem forM_eq_ok {l : List α} {f : α → Except ε Unit} :
    l.forM f = .ok () ↔ ∀ a ∈ l, f a = .ok () := by
  induction l with
  | nil => exact iff_of_true rfl fun a ha ↦ absurd ha List.not_mem_nil
  | cons a l ih =>
    have hcons : (a :: l).forM f = f a >>= fun _ ↦ l.forM f := rfl
    rw [hcons, bind_eq_ok, List.forall_mem_cons, ← ih]
    exact ⟨fun ⟨_, ha, hl⟩ ↦ ⟨ha, hl⟩, fun ⟨ha, hl⟩ ↦ ⟨_, ha, hl⟩⟩

theorem ite_error_eq_ok {p : Prop} [Decidable p] {e : ε} {x : Except ε α} {a : α} :
    (if p then .error e else x) = .ok a ↔ ¬ p ∧ x = .ok a := by
  split
  · next h => exact iff_of_false (fun h ↦ by cases h) fun ⟨hn, _⟩ ↦ hn h
  · next h => simp [h]

/-- What each turn of a loop keeps and gains, all of it keeps and gains. -/
theorem foldlM_ok {keeps : β → Prop} {gains : α → β → Prop} {f : β → α → Except ε β}
    (hf : ∀ {b a b'}, keeps b → f b a = .ok b' →
      keeps b' ∧ gains a b' ∧ ∀ a', gains a' b → gains a' b')
    {l : List α} {b b' : β} (hb : keeps b) (h : l.foldlM f b = .ok b') :
    keeps b' ∧ (∀ a ∈ l, gains a b') ∧ ∀ a, gains a b → gains a b' := by
  induction l generalizing b with
  | nil =>
    cases h
    exact ⟨hb, fun a ha ↦ absurd ha List.not_mem_nil, fun _ ↦ id⟩
  | cons a l ih =>
    obtain ⟨c, hc, hrest⟩ := bind_eq_ok.mp h
    obtain ⟨hkeeps, hgains, hmore⟩ := hf hb hc
    obtain ⟨hkeeps', hall, hmore'⟩ := ih hkeeps hrest
    exact ⟨hkeeps', List.forall_mem_cons.mpr ⟨hmore' a hgains, hall⟩,
      fun a' ha' ↦ hmore' a' (hmore a' ha')⟩

theorem mapM_eq_ok {f : α → Except ε β} {g : α → β} {l : List α} (h : ∀ a ∈ l, f a = .ok (g a)) :
    l.mapM f = .ok (l.map g) := by
  induction l with
  | nil => rfl
  | cons a l ih =>
    obtain ⟨ha, hl⟩ := List.forall_mem_cons.mp h
    rw [List.mapM_cons, ha, ih hl]
    rfl

theorem exists_of_mem_mapM {f : α → Except ε β} {l : List α} {l' : List β} (h : l.mapM f = .ok l')
    {b : β} (hb : b ∈ l') : ∃ a ∈ l, f a = .ok b := by
  induction l generalizing l' with
  | nil =>
    cases h
    cases hb
  | cons a l ih =>
    rw [List.mapM_cons] at h
    obtain ⟨c, hc, h⟩ := bind_eq_ok.mp h
    obtain ⟨rest, hrest, h⟩ := bind_eq_ok.mp h
    cases h
    rcases List.mem_cons.mp hb with rfl | hb
    · exact ⟨a, List.mem_cons_self, hc⟩
    · obtain ⟨a', ha', hfound⟩ := ih hrest hb
      exact ⟨a', List.mem_cons_of_mem a ha', hfound⟩

/-- A loop that collects what its turns return comes to an end if each of them does. -/
theorem exists_mapM_eq_ok {f : α → Except ε β} {l : List α} :
    (∃ l', l.mapM f = .ok l') ↔ ∀ a ∈ l, ∃ b, f a = .ok b := by
  induction l with
  | nil => exact iff_of_true ⟨[], rfl⟩ fun a ha ↦ absurd ha List.not_mem_nil
  | cons a l ih =>
    rw [List.mapM_cons, List.forall_mem_cons, ← ih]
    constructor
    · rintro ⟨l', h⟩
      obtain ⟨b, hb, h⟩ := bind_eq_ok.mp h
      obtain ⟨rest, hrest, -⟩ := bind_eq_ok.mp h
      exact ⟨⟨b, hb⟩, rest, hrest⟩
    · rintro ⟨⟨b, hb⟩, rest, hrest⟩
      exact ⟨b :: rest, bind_eq_ok.mpr ⟨b, hb, bind_eq_ok.mpr ⟨rest, hrest, rfl⟩⟩⟩

theorem exists_mem_of_mapM {f : α → Except ε β} {l : List α} {l' : List β}
    (h : l.mapM f = .ok l') {a : α} (ha : a ∈ l) : ∃ b ∈ l', f a = .ok b := by
  induction l generalizing l' with
  | nil => cases ha
  | cons c l ih =>
    rw [List.mapM_cons] at h
    obtain ⟨b, hb, h⟩ := bind_eq_ok.mp h
    obtain ⟨rest, hrest, h⟩ := bind_eq_ok.mp h
    cases h
    rcases List.mem_cons.mp ha with rfl | ha
    · exact ⟨b, List.mem_cons_self, hb⟩
    · obtain ⟨b', hb', hfound⟩ := ih hrest ha
      exact ⟨b', List.mem_cons_of_mem b hb', hfound⟩

theorem exists_mem_mapM_iff {f : α → Except ε β} {l : List α} {l' : List β} (h : l.mapM f = .ok l')
    {P : β → Prop} {Q : α → Prop} (hPQ : ∀ a b, f a = .ok b → (P b ↔ Q a)) :
    (∃ b ∈ l', P b) ↔ ∃ a ∈ l, Q a := by
  constructor
  · rintro ⟨b, hb, hP⟩
    obtain ⟨a, ha, hab⟩ := exists_of_mem_mapM h hb
    exact ⟨a, ha, (hPQ a b hab).mp hP⟩
  · rintro ⟨a, ha, hQ⟩
    obtain ⟨b, hb, hab⟩ := exists_mem_of_mapM h ha
    exact ⟨b, hb, (hPQ a b hab).mpr hQ⟩

theorem mapM_eq_some {f : α → Option β} {g : α → β} {l : List α} (h : ∀ a ∈ l, f a = some (g a)) :
    l.mapM f = some (l.map g) := by
  induction l with
  | nil => rfl
  | cons a l ih =>
    obtain ⟨ha, hl⟩ := List.forall_mem_cons.mp h
    rw [List.mapM_cons, ha, ih hl]
    rfl

/-- A loop that fails fails in one of its turns. -/
theorem exists_of_foldlM_eq_error {f : β → α → Except ε β} {l : List α} {b : β} {e : ε}
    (h : l.foldlM f b = .error e) : ∃ a ∈ l, ∃ b', f b' a = .error e := by
  induction l generalizing b with
  | nil => cases h
  | cons a l ih =>
    rw [List.foldlM_cons] at h
    cases hc : f b a with
    | error e' =>
      rw [hc] at h
      cases h
      exact ⟨a, List.mem_cons_self, b, hc⟩
    | ok c =>
      rw [hc] at h
      obtain ⟨a', ha', hfail⟩ := ih h
      exact ⟨a', List.mem_cons_of_mem _ ha', hfail⟩

end TradingOS.Lib
