import Mathlib.Order.Lattice
import Mathlib.Data.List.Chain

namespace TradingOS.Lib

variable {ω α : Type*} [LinearOrder α] {lo hi : ω → α} {b : α}

/-- Both ends are of the interval. -/
def Covers (lo hi : ω → α) (b : α) (w : ω) : Prop := lo w ≤ b ∧ b ≤ hi w

instance (lo hi : ω → α) (b : α) : DecidablePred (Covers lo hi b) := fun _ ↦
  inferInstanceAs (Decidable (_ ∧ _))

/-- The point is neither between an interval and the one that follows nor in both. -/
def Parts (lo hi : ω → α) (b : α) (u v : ω) : Prop :=
  ¬ (hi u < b ∧ b < lo v) ∧ ¬ (lo v ≤ b ∧ b ≤ hi u)

/-- Intervals none of whose ends comes before that of an earlier one. -/
structure Advancing (lo hi : ω → α) (l : List ω) : Prop where
  starts : l.Pairwise fun u v ↦ lo u ≤ lo v
  stops : l.Pairwise fun u v ↦ hi u ≤ hi v
  bounds : ∀ w ∈ l, lo w ≤ hi w

theorem Advancing.tail {w : ω} {l : List ω} (h : Advancing lo hi (w :: l)) : Advancing lo hi l where
  starts := h.starts.of_cons
  stops := h.stops.of_cons
  bounds v hv := h.bounds v (List.mem_cons_of_mem w hv)

theorem countP_covers_of_lt {l : List ω} (h : ∀ w ∈ l, b < lo w) :
    l.countP (Covers lo hi b ·) = 0 := by
  refine List.countP_eq_zero.mpr fun w hw ↦ ?_
  rw [decide_eq_true_eq]
  exact fun hcovers ↦ not_le.mpr (h w hw) hcovers.1

theorem isChain_parts_of_lt {l : List ω} (hbounds : ∀ w ∈ l, lo w ≤ hi w)
    (h : ∀ w ∈ l, b < lo w) : l.IsChain (Parts lo hi b) := by
  refine List.Pairwise.isChain (List.pairwise_of_forall_mem_list fun u hu v hv ↦ ?_)
  exact ⟨fun hgap ↦ not_lt.mpr (hbounds u hu) (hgap.1.trans (h u hu)),
    fun hboth ↦ not_le.mpr (h v hv) hboth.1⟩

theorem isChain_parts_of_gt {l : List ω} (hbounds : ∀ w ∈ l, lo w ≤ hi w)
    (h : ∀ w ∈ l, hi w < b) : l.IsChain (Parts lo hi b) := by
  refine List.Pairwise.isChain (List.pairwise_of_forall_mem_list fun u hu v hv ↦ ?_)
  exact ⟨fun hgap ↦ not_le.mpr (hgap.2.trans_le (hbounds v hv)) (h v hv).le,
    fun hboth ↦ not_le.mpr (h u hu) hboth.2⟩

/-- A point from the first start to the last stop is in exactly one interval as long as no two that
follow on each other leave it out or share it. -/
theorem countP_covers_eq_one_iff {w : ω} {l : List ω} (h : Advancing lo hi (w :: l))
    (hstart : lo w ≤ b) (hstop : ∀ v ∈ (w :: l).getLast?, b ≤ hi v) :
    (w :: l).countP (Covers lo hi b ·) = 1 ↔ (w :: l).IsChain (Parts lo hi b) := by
  induction l generalizing w with
  | nil =>
    have hcovers : Covers lo hi b w := ⟨hstart, hstop w rfl⟩
    simp [hcovers]
  | cons v l ih =>
    have hstop' : ∀ u ∈ (v :: l).getLast?, b ≤ hi u := by simpa using hstop
    have hle : hi w ≤ hi v := List.rel_of_pairwise_cons h.stops List.mem_cons_self
    rw [List.countP_cons, List.isChain_cons_cons]
    by_cases hnext : lo v ≤ b
    · rw [← ih h.tail hnext hstop']
      by_cases hw : b ≤ hi w
      · have hcovers : Covers lo hi b w := ⟨hstart, hw⟩
        have hcovers' : Covers lo hi b v := ⟨hnext, hw.trans hle⟩
        have hparts : ¬ Parts lo hi b w v := fun hparts ↦ hparts.2 ⟨hnext, hw⟩
        simp [hcovers, hcovers', hparts]
      · have hcovers : ¬ Covers lo hi b w := fun hcovers ↦ hw hcovers.2
        have hparts : Parts lo hi b w v :=
          ⟨fun hgap ↦ not_le.mpr hgap.2 hnext, fun hboth ↦ hw hboth.2⟩
        simp [hcovers, hparts]
    · have hlater : ∀ u ∈ v :: l, b < lo u := by
        have hv := not_le.mp hnext
        refine List.forall_mem_cons.mpr ⟨hv, fun u hu ↦ hv.trans_le ?_⟩
        exact List.rel_of_pairwise_cons h.tail.starts hu
      rw [countP_covers_of_lt hlater]
      have hchain := isChain_parts_of_lt h.tail.bounds hlater
      have hparts : Parts lo hi b w v ↔ Covers lo hi b w :=
        ⟨fun hparts ↦ ⟨hstart, not_lt.mp fun hgap ↦ hparts.1 ⟨hgap, not_le.mp hnext⟩⟩,
          fun hcovers ↦ ⟨fun hgap ↦ not_le.mpr hgap.1 hcovers.2, fun hboth ↦ hnext hboth.1⟩⟩
      simp [hchain, hparts]

/-- The same of a point wherever it is: outside the intervals there is nothing to part. -/
theorem Advancing.covered_once_iff {l : List ω} (h : Advancing lo hi l) :
    (∀ first ∈ l.head?, ∀ last ∈ l.getLast?, lo first ≤ b → b ≤ hi last →
      l.countP (Covers lo hi b ·) = 1) ↔ l.IsChain (Parts lo hi b) := by
  cases l with
  | nil => exact iff_of_true (fun _ hfirst ↦ by cases hfirst) List.isChain_nil
  | cons w l =>
    constructor
    · intro honce
      by_cases hstart : lo w ≤ b
      · have hlast := List.getLast?_eq_some_getLast (List.cons_ne_nil w l)
        by_cases hstop : b ≤ hi ((w :: l).getLast (List.cons_ne_nil w l))
        · refine (countP_covers_eq_one_iff h hstart fun v hv ↦ ?_).mp
            (honce w rfl _ hlast hstart hstop)
          rw [hlast] at hv
          exact Option.some.inj hv ▸ hstop
        · refine isChain_parts_of_gt h.bounds fun u hu ↦ ?_
          exact (h.stops.rel_getLast hu).trans_lt (not_le.mp hstop)
      · refine isChain_parts_of_lt h.bounds (List.forall_mem_cons.mpr ⟨not_le.mp hstart, ?_⟩)
        exact fun u hu ↦ (not_le.mp hstart).trans_le (List.rel_of_pairwise_cons h.starts hu)
    · rintro hchain first hfirst last hlast hstart hstop
      obtain rfl := Option.some.inj hfirst
      refine (countP_covers_eq_one_iff h hstart fun v hv ↦ ?_).mpr hchain
      exact Option.some.inj (hlast.symm.trans hv) ▸ hstop

end TradingOS.Lib
