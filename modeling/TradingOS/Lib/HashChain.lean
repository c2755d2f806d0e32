import Mathlib.Data.List.Induction

namespace TradingOS.Lib

/-- An entry of a chain, with the digest it names as the one before it and its own. -/
structure Block (β η : Type*) where
  content : β
  prev : η
  digest : η

namespace HashChain

variable {β η : Type*} {hash : β → η → η} {p : η}

def Chained (hash : β → η → η) : η → List (Block β η) → Prop
  | _, [] => True
  | p, b :: bs => b.prev = p ∧ hash b.content p = b.digest ∧ Chained hash b.digest bs

/-- The digest that the next block names. -/
def tip (p : η) : List (Block β η) → η
  | [] => p
  | b :: bs => tip b.digest bs

theorem tip_append_singleton (bs : List (Block β η)) (b : Block β η) :
    tip p (bs ++ [b]) = b.digest := by
  induction bs generalizing p with
  | nil => rfl
  | cons c cs ih => exact ih

theorem tip_eq_getLast? (bs : List (Block β η)) :
    tip p bs = (bs.getLast?.map Block.digest).getD p := by
  rcases List.eq_nil_or_concat bs with rfl | ⟨init, b, rfl⟩
  · rfl
  · rw [List.concat_eq_append, tip_append_singleton, List.getLast?_concat, Option.map_some,
      Option.getD_some]

theorem chained_append {bs cs : List (Block β η)} :
    Chained hash p (bs ++ cs) ↔ Chained hash p bs ∧ Chained hash (tip p bs) cs := by
  induction bs generalizing p with
  | nil => simp [Chained, tip]
  | cons b bs ih => simp only [List.cons_append, Chained, tip, ih, and_assoc]

theorem chained_append_singleton {bs : List (Block β η)} {b : Block β η} :
    Chained hash p (bs ++ [b]) ↔
      Chained hash p bs ∧ b.prev = tip p bs ∧ hash b.content (tip p bs) = b.digest := by
  simp only [chained_append, Chained, and_true]

theorem Chained.hash_eq {bs : List (Block β η)} (h : Chained hash p bs) {b : Block β η}
    (hb : b ∈ bs) : hash b.content b.prev = b.digest := by
  induction bs generalizing p with
  | nil => cases hb
  | cons c cs ih =>
    obtain ⟨hprev, hhash, hrest⟩ := h
    rcases List.mem_cons.mp hb with rfl | hb
    · rw [hprev]
      exact hhash
    · exact ih hrest hb

/-- The last digest commits to the chain, where no two blocks collide and no digest is the one the
chain starts from: read from the end, either chain determines the other. -/
theorem eq_of_tip_eq {bs cs : List (Block β η)}
    (hash_inj : ∀ b ∈ bs, ∀ c ∈ cs, hash b.content b.prev = hash c.content c.prev →
      b.content = c.content ∧ b.prev = c.prev)
    (hfresh : ∀ b ∈ bs ++ cs, b.digest ≠ p) (hbs : Chained hash p bs) (hcs : Chained hash p cs)
    (htip : tip p bs = tip p cs) : bs = cs := by
  induction bs using List.reverseRecOn generalizing cs with
  | nil =>
    rcases List.eq_nil_or_concat cs with rfl | ⟨init, c, rfl⟩
    · rfl
    · rw [List.concat_eq_append, tip_append_singleton] at htip
      exact absurd htip.symm (hfresh c (by simp))
  | append_singleton bs b ih =>
    rw [tip_append_singleton] at htip
    rcases List.eq_nil_or_concat cs with rfl | ⟨init, c, rfl⟩
    · exact absurd htip (hfresh b (by simp))
    · rw [List.concat_eq_append] at *
      rw [tip_append_singleton] at htip
      obtain ⟨hbs, hprev, hb⟩ := chained_append_singleton.mp hbs
      obtain ⟨hcs, hprev', hc⟩ := chained_append_singleton.mp hcs
      rw [← hprev] at hb
      rw [← hprev'] at hc
      obtain ⟨hcontent, hp⟩ := hash_inj b (by simp) c (by simp) (hb.trans (htip.trans hc.symm))
      have hinj (d) (hd : d ∈ bs) (e) (he : e ∈ init) := hash_inj d (List.mem_append_left _ hd) e
        (List.mem_append_left _ he)
      have hrest : ∀ d ∈ bs ++ init, d.digest ≠ p := by
        intro d hd
        refine hfresh d ?_
        rcases List.mem_append.mp hd with hd | hd <;> simp [hd]
      obtain rfl := ih hinj hrest hbs hcs (hprev.symm.trans (hp.trans hprev'))
      obtain ⟨content, prev, digest⟩ := b
      dsimp only at hcontent hp htip
      rw [hcontent, hp, htip]

/-- So does any digest to the chain up to its block. -/
theorem eq_of_digest_eq {bs bs' cs cs' : List (Block β η)} {b c : Block β η}
    (hash_inj : ∀ d ∈ bs ++ b :: bs', ∀ e ∈ cs ++ c :: cs',
      hash d.content d.prev = hash e.content e.prev → d.content = e.content ∧ d.prev = e.prev)
    (hfresh : ∀ d ∈ (bs ++ b :: bs') ++ (cs ++ c :: cs'), d.digest ≠ p)
    (hbs : Chained hash p (bs ++ b :: bs')) (hcs : Chained hash p (cs ++ c :: cs'))
    (h : b.digest = c.digest) : bs ++ [b] = cs ++ [c] := by
  have hb (d) (hd : d ∈ bs ++ [b]) : d ∈ bs ++ b :: bs' := by
    rw [List.append_cons]
    exact List.mem_append_left bs' hd
  have hc (d) (hd : d ∈ cs ++ [c]) : d ∈ cs ++ c :: cs' := by
    rw [List.append_cons]
    exact List.mem_append_left cs' hd
  rw [List.append_cons, chained_append] at hbs hcs
  refine eq_of_tip_eq (fun d hd e he ↦ hash_inj d (hb d hd) e (hc e he)) (fun d hd ↦ ?_) hbs.1
    hcs.1 ?_
  · rcases List.mem_append.mp hd with hd | hd
    · exact hfresh d (List.mem_append_left _ (hb d hd))
    · exact hfresh d (List.mem_append_right _ (hc d hd))
  · rw [tip_append_singleton, tip_append_singleton, h]

end HashChain

end TradingOS.Lib
