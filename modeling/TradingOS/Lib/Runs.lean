import Mathlib.Data.Nat.Notation
import Mathlib.Logic.Basic

namespace TradingOS.Lib.Runs

variable {σ ι : Type*} {step : σ → ι → Option σ}

/-- A finite run of a labelled step function, from its first state to its last. -/
inductive Run (step : σ → ι → Option σ) : σ → List ι → σ → Prop
  | nil (s : σ) : Run step s [] s
  | cons {s t u : σ} {l : ι} {ls : List ι} :
      step s l = some t → Run step t ls u → Run step s (l :: ls) u

theorem Run.append {s t u : σ} {ls ls' : List ι} (h : Run step s ls t) (h' : Run step t ls' u) :
    Run step s (ls ++ ls') u := by
  induction h with
  | nil => exact h'
  | cons hs _ ih => exact .cons hs (ih h')

theorem run_append_iff {s u : σ} {ls ls' : List ι} :
    Run step s (ls ++ ls') u ↔ ∃ t, Run step s ls t ∧ Run step t ls' u := by
  constructor
  · intro h
    induction ls generalizing s with
    | nil => exact ⟨s, .nil s, h⟩
    | cons l ls ih =>
      cases h with
      | cons hs h =>
        obtain ⟨t, ht, hu⟩ := ih h
        exact ⟨t, .cons hs ht, hu⟩
  · rintro ⟨t, ht, hu⟩
    exact ht.append hu

theorem Run.eq {s t u : σ} {ls : List ι} (ht : Run step s ls t) (hu : Run step s ls u) : t = u := by
  induction ht with
  | nil s =>
    cases hu
    rfl
  | cons hs _ ih =>
    cases hu with
    | cons hs' hu =>
      obtain rfl := Option.some.inj (hs.symm.trans hs')
      exact ih hu

/-- A list of labels can be run if each of them can where the ones before it lead. -/
theorem exists_run_iff {s : σ} {ls : List ι} : (∃ t, Run step s ls t) ↔
    ∀ pre l post u, ls = pre ++ l :: post → Run step s pre u → step u l ≠ none := by
  constructor
  · rintro ⟨t, h⟩ pre l post u rfl hpre
    obtain ⟨u', hpre', hrest⟩ := run_append_iff.mp h
    obtain rfl := hpre.eq hpre'
    cases hrest with
    | cons hs _ => simp [hs]
  · intro h
    induction ls generalizing s with
    | nil => exact ⟨s, .nil s⟩
    | cons l ls ih =>
      obtain ⟨t, ht⟩ := Option.ne_none_iff_exists'.mp (h [] l ls s rfl (.nil s))
      obtain ⟨u, hu⟩ := ih fun pre l' post v hls hpre ↦
        h (l :: pre) l' post v (by rw [hls]; rfl) (.cons ht hpre)
      exact ⟨u, .cons ht hu⟩

theorem Run.eq_nil_or_snoc {s u : σ} {ls : List ι} (h : Run step s ls u) :
    ls = [] ∧ u = s ∨ ∃ ls' l t, ls = ls' ++ [l] ∧ Run step s ls' t ∧ step t l = some u := by
  induction h with
  | nil s => exact .inl ⟨rfl, rfl⟩
  | @cons s t u l ls hs h ih =>
    refine .inr ?_
    rcases ih with ⟨rfl, rfl⟩ | ⟨ls', l', t', rfl, h', ht'⟩
    · exact ⟨[], l, s, rfl, .nil s, hs⟩
    · exact ⟨l :: ls', l', t', rfl, .cons hs h', ht'⟩

/-- The state a list of labels leads to, when every one of them is enabled in turn. -/
def exec (step : σ → ι → Option σ) : σ → List ι → Option σ
  | s, [] => some s
  | s, l :: ls => (step s l).bind (exec step · ls)

theorem exec_eq_some {s u : σ} {ls : List ι} : exec step s ls = some u ↔ Run step s ls u := by
  constructor
  · intro h
    induction ls generalizing s with
    | nil =>
      obtain rfl := Option.some.inj h
      exact .nil _
    | cons l ls ih =>
      obtain ⟨t, ht, hu⟩ := Option.bind_eq_some_iff.mp h
      exact .cons ht (ih hu)
  · intro h
    induction h with
    | nil s => rfl
    | cons hs _ ih => simpa only [exec, hs, Option.bind_some] using ih

/-- `P` holds of every step the run takes: the state before, the label, the state after. -/
def Along (step : σ → ι → Option σ) (P : σ → ι → σ → Prop) : σ → List ι → Prop
  | _, [] => True
  | s, l :: ls =>
    match step s l with
    | none => True
    | some t => P s l t ∧ Along step P t ls

variable {P Q : σ → ι → σ → Prop} {Inv : σ → Prop}

theorem along_cons {s t : σ} {l : ι} {ls : List ι} (h : step s l = some t) :
    Along step P s (l :: ls) ↔ P s l t ∧ Along step P t ls := by
  simp only [Along, h]

theorem along_cons_none {s : σ} {l : ι} {ls : List ι} (h : step s l = none) :
    Along step P s (l :: ls) := by
  simp only [Along, h]

instance Along.decidable [∀ s l t, Decidable (P s l t)] :
    ∀ (s : σ) (ls : List ι), Decidable (Along step P s ls)
  | _, [] => isTrue trivial
  | s, l :: ls =>
    match h : step s l with
    | none => isTrue (along_cons_none h)
    | some t =>
      have _ : Decidable (Along step P t ls) := Along.decidable t ls
      decidable_of_iff _ (along_cons h).symm

theorem along_of_labels {ls : List ι} (h : ∀ l ∈ ls, ∀ s t, P s l t) (s : σ) :
    Along step P s ls := by
  induction ls generalizing s with
  | nil => trivial
  | cons l ls ih =>
    cases hs : step s l with
    | none => exact along_cons_none hs
    | some t =>
      exact (along_cons hs).mpr
        ⟨h l List.mem_cons_self s t, ih (fun l hl ↦ h l (List.mem_cons_of_mem _ hl)) t⟩

theorem Along.last {s u : σ} {ls : List ι} {l : ι} (h : Along step P s (ls ++ [l]))
    (hu : Run step s (ls ++ [l]) u) : ∃ t, P t l u := by
  induction ls generalizing s with
  | nil =>
    cases hu with
    | cons ht hu =>
      cases hu
      exact ⟨s, ((along_cons ht).mp h).1⟩
  | cons l' ls ih =>
    cases hu with
    | cons ht hu => exact ih ((along_cons ht).mp h).2 hu

/-- An invariant kept by the steps that meet `P` holds at the end of every run along `P`. -/
theorem Run.invariant_along (hstep : ∀ s l t, Inv s → P s l t → step s l = some t → Inv t)
    {s u : σ} {ls : List ι} (h : Run step s ls u) (hP : Along step P s ls) (hs : Inv s) :
    Inv u := by
  induction h with
  | nil => exact hs
  | cons hst _ ih =>
    obtain ⟨hp, hrest⟩ := (along_cons hst).mp hP
    exact ih hrest (hstep _ _ _ hs hp hst)

theorem Run.invariant (hstep : ∀ s l t, Inv s → step s l = some t → Inv t) {s u : σ}
    {ls : List ι} (h : Run step s ls u) (hs : Inv s) : Inv u := by
  induction h with
  | nil => exact hs
  | cons hst _ ih => exact ih (hstep _ _ _ hs hst)

/-- A run is no longer than a rank that each of its steps lowers. -/
theorem Run.length_le_rank {rank : σ → ℕ}
    (hstep : ∀ s l t, Inv s → step s l = some t → Inv t ∧ rank t < rank s) {s u : σ} {ls : List ι}
    (h : Run step s ls u) (hs : Inv s) : ls.length + rank u ≤ rank s := by
  induction h with
  | nil => exact Nat.le_of_eq (Nat.zero_add _)
  | cons hst _ ih =>
    obtain ⟨ht, hlt⟩ := hstep _ _ _ hs hst
    have hrest := ih ht
    rw [List.length_cons]
    omega

/-- While an invariant lasts, a condition on the steps can be read as any other that agrees
with it step by step. -/
theorem along_iff_of_invariant (hstep : ∀ s l t, Inv s → step s l = some t → Inv t)
    (hPQ : ∀ s l t, Inv s → step s l = some t → (P s l t ↔ Q s l t))
    {s : σ} {ls : List ι} (hs : Inv s) : Along step P s ls ↔ Along step Q s ls := by
  induction ls generalizing s with
  | nil => exact Iff.rfl
  | cons l ls ih =>
    cases h : step s l with
    | none => exact iff_of_true (along_cons_none h) (along_cons_none h)
    | some t =>
      rw [along_cons h, along_cons h]
      exact and_congr (hPQ s l t hs h) (ih (hstep s l t hs h))

theorem along_congr (hPQ : ∀ s l t, step s l = some t → (P s l t ↔ Q s l t)) {s : σ}
    {ls : List ι} : Along step P s ls ↔ Along step Q s ls :=
  along_iff_of_invariant (fun _ _ _ _ _ ↦ trivial) (fun s l t _ h ↦ hPQ s l t h)
    (trivial : (fun _ ↦ True) s)

/-- A run condition that already carries the invariant from state to state. -/
theorem along_of_invariant (hstep : ∀ s l t, Inv s → P s l t → step s l = some t → Inv t ∧ Q s l t)
    {s : σ} {ls : List ι} (hs : Inv s) (hP : Along step P s ls) : Along step Q s ls := by
  induction ls generalizing s with
  | nil => trivial
  | cons l ls ih =>
    cases h : step s l with
    | none => exact along_cons_none h
    | some t =>
      obtain ⟨hp, hrest⟩ := (along_cons h).mp hP
      obtain ⟨ht, hq⟩ := hstep s l t hs hp h
      exact (along_cons h).mpr ⟨hq, ih ht hrest⟩

theorem Along.imp (hPQ : ∀ s l t, step s l = some t → P s l t → Q s l t) {s : σ} {ls : List ι}
    (h : Along step P s ls) : Along step Q s ls := by
  induction ls generalizing s with
  | nil => trivial
  | cons l ls ih =>
    cases hs : step s l with
    | none => exact along_cons_none hs
    | some t =>
      obtain ⟨hp, hrest⟩ := (along_cons hs).mp h
      exact (along_cons hs).mpr ⟨hPQ s l t hs hp, ih hrest⟩

/-- A run meets `P` all along, or ends as the steps that break `P` and their successors do. -/
theorem Run.along_or (hbad : ∀ s l t, step s l = some t → ¬ P s l t → Inv t)
    (hkeep : ∀ s l t, Inv s → step s l = some t → Inv t) {s u : σ} {ls : List ι}
    (h : Run step s ls u) : Along step P s ls ∨ Inv u := by
  induction h with
  | nil => exact .inl trivial
  | @cons s t u l ls hst hrest ih =>
    by_cases hp : P s l t
    · exact ih.imp_left fun hrest ↦ (along_cons hst).mpr ⟨hp, hrest⟩
    · exact .inr (hrest.invariant hkeep (hbad s l t hst hp))

theorem along_of_step (hstep : ∀ s l t, Inv s → step s l = some t → Inv t ∧ Q s l t) {s : σ}
    {ls : List ι} (hs : Inv s) : Along step Q s ls := by
  induction ls generalizing s with
  | nil => trivial
  | cons l ls ih =>
    cases h : step s l with
    | none => exact along_cons_none h
    | some t =>
      obtain ⟨ht, hq⟩ := hstep s l t hs h
      exact (along_cons h).mpr ⟨hq, ih ht⟩

/-- When a step from a state with the property keeps it and meets `Q` exactly if it meets `P`, a
run does so all along exactly if all its steps meet `P`. -/
theorem along_step_iff (hstep : ∀ s l t, Inv s → step s l = some t → (Inv t ∧ Q s l t ↔ P s l t))
    {s : σ} {ls : List ι} (hs : Inv s) :
    Along step (fun s l t ↦ Inv t ∧ Q s l t) s ls ↔ Along step P s ls := by
  induction ls generalizing s with
  | nil => exact Iff.rfl
  | cons l ls ih =>
    cases h : step s l with
    | none => exact iff_of_true (along_cons_none h) (along_cons_none h)
    | some t =>
      rw [along_cons h, along_cons h]
      constructor
      · rintro ⟨ht, hrest⟩
        exact ⟨(hstep s l t hs h).mp ht, (ih ht.1).mp hrest⟩
      · rintro ⟨hp, hrest⟩
        have ht := (hstep s l t hs h).mpr hp
        exact ⟨ht, (ih ht.1).mpr hrest⟩

/-- When each step keeps the state property exactly if it meets `P`, the property holds in
every state of the run exactly if all its steps meet `P`. -/
theorem along_state_iff (hstep : ∀ s l t, Inv s → step s l = some t → (Inv t ↔ P s l t))
    {s : σ} {ls : List ι} (hs : Inv s) :
    Along step (fun _ _ t ↦ Inv t) s ls ↔ Along step P s ls := by
  have htrue : Along step (fun _ _ t ↦ Inv t) s ls ↔
      Along step (fun _ _ t ↦ Inv t ∧ True) s ls :=
    along_congr fun _ _ _ _ ↦ iff_of_eq (and_true _).symm
  rw [htrue]
  refine along_step_iff (Q := fun _ _ _ ↦ True) (fun s l t hs h ↦ ?_) hs
  rw [and_true]
  exact hstep s l t hs h

/-- The same where an invariant of its own lasts through the run. -/
theorem along_state_iff_of_invariant {J : σ → Prop}
    (hkeep : ∀ s l t, J s → step s l = some t → J t)
    (hstep : ∀ s l t, J s → Inv s → step s l = some t → (Inv t ↔ P s l t)) {s : σ} {ls : List ι}
    (hJ : J s) (hs : Inv s) : Along step (fun _ _ t ↦ Inv t) s ls ↔ Along step P s ls := by
  have hboth : Along step (fun _ _ t ↦ J t ∧ Inv t) s ls ↔ Along step P s ls :=
    along_state_iff (fun s l t hs h ↦
      (and_iff_right (hkeep s l t hs.1 h)).trans (hstep s l t hs.1 hs.2 h)) ⟨hJ, hs⟩
  rw [← hboth]
  exact along_iff_of_invariant hkeep
    (fun s l t hs h ↦ (and_iff_right (hkeep s l t hs h)).symm) hJ

/-- What a step can only end, and ends exactly if it breaks `P`, lasts through a run exactly if all
its steps meet `P`. -/
theorem Run.iff_and_along {Q : σ → Prop} (hkeep : ∀ s l t, Inv s → step s l = some t → Inv t)
    (hstep : ∀ s l t, Inv s → step s l = some t → (Q t ↔ Q s ∧ P s l t)) {s u : σ} {ls : List ι}
    (h : Run step s ls u) (hs : Inv s) : Q u ↔ Q s ∧ Along step P s ls := by
  induction h with
  | nil => exact (and_iff_left trivial).symm
  | cons hst _ ih =>
    rw [ih (hkeep _ _ _ hs hst), hstep _ _ _ hs hst, along_cons hst, and_assoc]

theorem along_and {s : σ} {ls : List ι} : Along step (fun s l t ↦ P s l t ∧ Q s l t) s ls ↔
    Along step P s ls ∧ Along step Q s ls := by
  induction ls generalizing s with
  | nil => exact (and_iff_left trivial).symm
  | cons l ls ih =>
    cases h : step s l with
    | none => exact iff_of_true (along_cons_none h) ⟨along_cons_none h, along_cons_none h⟩
    | some t =>
      rw [along_cons h, along_cons h, along_cons h, ih, and_and_and_comm]

/-- When the steps of one kind are counted by `I`, and `P` fails on the one after the `n`th of
them and on no step before, a run is along `P` exactly if it takes at most `n` of them. -/
theorem Run.along_iff_countP_le {I : ℕ → σ → Prop} {hit : ι → Bool} {n : ℕ}
    (hkeep : ∀ k s l t, k ≤ n → I k s → step s l = some t → ¬ (hit l ∧ k = n) →
      I (k + if hit l then 1 else 0) t)
    (hP : ∀ k s l t, k ≤ n → I k s → step s l = some t → (P s l t ↔ ¬ (hit l ∧ k = n)))
    {s u : σ} {ls : List ι} (h : Run step s ls u) (hs : I 0 s) :
    Along step P s ls ↔ ls.countP hit ≤ n := by
  have hcount : ∀ k ≤ n, I k s → (Along step P s ls ↔ k + ls.countP hit ≤ n) := by
    clear hs
    induction h with
    | nil => exact fun k hk _ ↦ iff_of_true trivial (by simpa using hk)
    | @cons s t u l ls hst _ ih =>
      intro k hk hs
      rw [along_cons hst, hP k s l t hk hs hst, List.countP_cons]
      by_cases hlast : hit l ∧ k = n
      · obtain ⟨hl, rfl⟩ := hlast
        simp [hl]
      · have ht := hkeep k s l t hk hs hst hlast
        cases hl : hit l with
        | true =>
          have hne : k ≠ n := fun he ↦ hlast ⟨hl, he⟩
          simp only [hl, if_true] at ht
          rw [ih (k + 1) (by omega) ht]
          simp only [hne, and_false, not_false_eq_true, true_and, if_true]
          omega
        | false =>
          simp only [hl, Bool.false_eq_true, if_false, Nat.add_zero] at ht
          simp [ih k hk ht]
  simpa using hcount 0 n.zero_le hs

section Observe

variable {γ : Type*} {note : γ → ι → γ}

/-- The machine with notes taken beside it, which no step reads. -/
def observe (step : σ → ι → Option σ) (note : γ → ι → γ) (x : σ × γ) (l : ι) : Option (σ × γ) :=
  (step x.1 l).map (·, note x.2 l)

theorem observe_eq_some {x y : σ × γ} {l : ι} :
    observe step note x l = some y ↔ step x.1 l = some y.1 ∧ y.2 = note x.2 l := by
  simp only [observe, Option.map_eq_some_iff]
  constructor
  · rintro ⟨t, ht, rfl⟩
    exact ⟨ht, rfl⟩
  · rintro ⟨ht, hy⟩
    exact ⟨y.1, ht, Prod.ext rfl hy.symm⟩

theorem Run.observed {s t : σ} {ls : List ι} (h : Run step s ls t) (c : γ) :
    Run (observe step note) (s, c) ls (t, ls.foldl note c) := by
  induction h generalizing c with
  | nil s => exact .nil (s, c)
  | cons hs _ ih => exact .cons (observe_eq_some.mpr ⟨hs, rfl⟩) (ih (note c _))

end Observe

end TradingOS.Lib.Runs
