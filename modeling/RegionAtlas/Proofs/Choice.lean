/-
  Choice — which of several images the best proposal is for.

  The proposals are gone through once, in the order of their images.  The best so far gives way only
  to one that is better, so among equally good ones it is the first that stays; one that pairs
  nothing is passed over.

    1. Scores are ranked like words of two letters (`Score.Below`), and one that is at least another
       is one that is not below it (`Score.atLeast_iff`).
    2. After any number of images the best so far is for the first of those that score highest
       (`IsFirstBest`, `exists_isFirstBest`), and there is only one such index
       (`IsFirstBest.unique`).

  The second says what is chosen without the loop, and with that what images behind the chosen one
  and another order can change: nothing, unless there is a better one, and never the score.
-/
import RegionAtlas.Proofs.Enablement

namespace RegionAtlas

/-! ## 1. Scores -/

/-- **One score is below another**: fewer pairings, or as many that match less well. -/
def Score.Below (s t : Score) : Prop :=
  s.paired < t.paired ∨ s.paired = t.paired ∧ s.similarity < t.similarity

namespace Score

variable {s t u : Score}

theorem atLeast_iff : s.atLeast t = true ↔ ¬s.Below t := by
  simp only [atLeast, Below, Bool.or_eq_true, Bool.and_eq_true, decide_eq_true_eq, beq_iff_eq]
  omega

theorem Below.asymm (hst : s.Below t) : ¬t.Below s := by
  simp only [Below] at hst ⊢
  omega

/-- What a score is not below, is below what it is below. -/
theorem Below.of_not_below (hst : s.Below t) (hsu : ¬s.Below u) : u.Below t := by
  simp only [Below] at hst hsu ⊢
  omega

/-- Scores of which neither is below the other are equal. -/
theorem eq_of_not_below (hst : ¬s.Below t) (hts : ¬t.Below s) : s = t := by
  obtain ⟨paired, similarity⟩ := s
  obtain ⟨paired', similarity'⟩ := t
  simp only [Below] at hst hts
  have hpaired : paired = paired' := by omega
  have hsimilarity : similarity = similarity' := by omega
  rw [hpaired, hsimilarity]

/-- What pairs nothing is below what pairs something. -/
theorem below_of_paired (hs : s.paired = 0) (ht : t.paired ≠ 0) : s.Below t := by
  apply Or.inl
  omega

end Score

/-! ## 2. The first of the best -/

/-- **The first image whose proposal scores highest** stands at some index of a list. -/
structure IsFirstBest (regions : List Region) (images : List Image) (i : Nat) (image : Image) :
    Prop where
  listed : images[i]? = some image
  highest : ∀ other ∈ images, ¬(propose regions image).score.Below (propose regions other).score
  first : ∀ j other, j < i → images[j]? = some other →
    (propose regions other).score.Below (propose regions image).score

section Choice

variable {regions : List Region} {images : List Image} {image other : Image} {i j : Nat}

namespace IsFirstBest

/-- Only one image of a list is the first of the best. -/
theorem unique (hi : IsFirstBest regions images i image) (hj : IsFirstBest regions images j other) :
    image = other := by
  rcases Nat.lt_trichotomy i j with hlt | rfl | hgt
  · have hnot := hi.highest other (List.mem_of_getElem? hj.listed)
    exact absurd (hj.first i image hlt hi.listed) hnot
  · exact Option.some.inj (hi.listed.symm.trans hj.listed)
  · have hnot := hj.highest image (List.mem_of_getElem? hi.listed)
    exact absurd (hi.first j other hgt hj.listed) hnot

/-- It stays the first of the best where nothing better comes behind. -/
theorem append (h : IsFirstBest regions images i image) {more : List Image}
    (hmore : ∀ later ∈ more, ¬(propose regions image).score.Below (propose regions later).score) :
    IsFirstBest regions (images ++ more) i image := by
  obtain ⟨hi, -⟩ := List.getElem?_eq_some_iff.mp h.listed
  constructor
  · rw [List.getElem?_append_left hi]
    exact h.listed
  · intro other hother
    rcases List.mem_append.mp hother with hother | hother
    · exact h.highest other hother
    · exact hmore other hother
  · intro j other hj hlisted
    rw [List.getElem?_append_left (Nat.lt_trans hj hi)] at hlisted
    exact h.first j other hj hlisted

/-- What is better than all before it is the first of the best. -/
theorem concat (h : ∀ other ∈ images,
      (propose regions other).score.Below (propose regions image).score) :
    IsFirstBest regions (images ++ [image]) images.length image := by
  constructor
  · rw [List.getElem?_append_right (Nat.le_refl _), Nat.sub_self]
    rfl
  · intro other hother hbelow
    rcases List.mem_append.mp hother with hother | hother
    · exact (h other hother).asymm hbelow
    · obtain rfl := List.mem_singleton.mp hother
      exact hbelow.asymm hbelow
  · intro j other hj hlisted
    rw [List.getElem?_append_left hj] at hlisted
    exact h other (List.mem_of_getElem? hlisted)

end IsFirstBest

/-- **What the best is after one more proposal**: the one it was, which is not below the new one, or
the new one, which everything before is below. -/
theorem better_cases {best : Option Proposal} {p q : Proposal} (h : better best q = some p) :
    (best = some p ∧ (q.score.paired = 0 ∨ ¬p.score.Below q.score)) ∨
      (p = q ∧ q.score.paired ≠ 0 ∧ ∀ b, best = some b → b.score.Below q.score) := by
  unfold better at h
  split at h
  · next hnothing => exact .inl ⟨h, .inl hnothing⟩
  · next hpaired =>
    cases best with
    | none =>
      obtain rfl := Option.some.inj h
      exact .inr ⟨rfl, hpaired, fun b hb => nomatch hb⟩
    | some b =>
      dsimp only at h
      split at h
      · next hleast =>
        obtain rfl := Option.some.inj h
        exact .inl ⟨rfl, .inr (Score.atLeast_iff.mp hleast)⟩
      · next hless =>
        obtain rfl := Option.some.inj h
        refine .inr ⟨rfl, hpaired, fun b' hb' => ?_⟩
        obtain rfl := Option.some.inj hb'
        by_contra hnot
        exact hless (Score.atLeast_iff.mpr hnot)

/-- **The best proposal pairs something, and is for the first of the best images.**  By induction at
the end of the list, where the loop is. -/
theorem exists_isFirstBest {p : Proposal} (h : proposeBest regions images = some p) :
    p.score.paired ≠ 0 ∧ ∃ i image, IsFirstBest regions images i image ∧
      p = propose regions image := by
  induction images using List.reverseRecOn generalizing p with
  | nil => cases h
  | append_singleton images image ih =>
    have hlast : proposeBest regions (images ++ [image]) =
        better (proposeBest regions images) (propose regions image) := by
      simp only [proposeBest, List.map_append, List.map_cons, List.map_nil, List.foldl_append,
        List.foldl_cons, List.foldl_nil]
    rw [hlast] at h
    rcases better_cases h with ⟨hbest, hstays⟩ | ⟨rfl, hpaired, hbelow⟩
    · obtain ⟨hpaired, i, chosen, hfirst, rfl⟩ := ih hbest
      refine ⟨hpaired, i, chosen, hfirst.append fun later hlater => ?_, rfl⟩
      obtain rfl := List.mem_singleton.mp hlater
      rcases hstays with hnothing | hnot
      · exact (Score.below_of_paired hnothing hpaired).asymm
      · exact hnot
    · refine ⟨hpaired, images.length, image, .concat fun other hother => ?_, rfl⟩
      cases hbest : proposeBest regions images with
      | none =>
        have hnothing := (foldl_better_eq_none.mp hbest).2 other hother
        exact Score.below_of_paired hnothing hpaired
      | some b =>
        obtain ⟨-, i, chosen, hfirst, rfl⟩ := ih hbest
        -- the new one is above the best so far, and so above what that is not below
        exact (hbelow _ hbest).of_not_below (hfirst.highest other hother)

theorem proposeBest_eq_none_iff :
    proposeBest regions images = none ↔
      ∀ image ∈ images, (propose regions image).score.paired = 0 := by
  rw [proposeBest, foldl_better_eq_none]
  simp only [true_and]

/-- And the first of the best is chosen, if its proposal pairs something. -/
theorem proposeBest_of_isFirstBest (h : IsFirstBest regions images i image)
    (hpaired : (propose regions image).score.paired ≠ 0) :
    proposeBest regions images = some (propose regions image) := by
  cases hbest : proposeBest regions images with
  | none =>
    have hlisted := List.mem_of_getElem? h.listed
    exact absurd (proposeBest_eq_none_iff.mp hbest image hlisted) hpaired
  | some p =>
    obtain ⟨-, j, other, hj, rfl⟩ := exists_isFirstBest hbest
    rw [h.unique hj]

theorem proposeBest_eq_some_iff {p : Proposal} :
    proposeBest regions images = some p ↔
      (∃ e ∈ p.entries, ∃ b, e.block = some b) ∧
        ∃ i image, IsFirstBest regions images i image ∧ p = propose regions image := by
  constructor
  · intro hp
    obtain ⟨hpaired, i, image, hfirst, rfl⟩ := exists_isFirstBest hp
    refine ⟨?_, i, image, hfirst, rfl⟩
    by_contra hnone
    exact hpaired (paired_eq_zero_iff.mpr hnone)
  · rintro ⟨hsome, i, image, hfirst, rfl⟩
    apply proposeBest_of_isFirstBest hfirst
    intro hnothing
    exact paired_eq_zero_iff.mp hnothing hsome

/-! ## What the choice depends on -/

/-- **Images behind the others leave the choice as it is, unless one of them is better.** -/
theorem proposeBest_append_iff {p : Proposal} (hp : proposeBest regions images = some p)
    (more : List Image) :
    proposeBest regions (images ++ more) = some p ↔
      ∀ later ∈ more, ¬p.score.Below (propose regions later).score := by
  constructor
  · intro hstays later hlater
    obtain ⟨-, i, image, hfirst, rfl⟩ := exists_isFirstBest hstays
    exact hfirst.highest later (List.mem_append_right _ hlater)
  · intro hmore
    obtain ⟨hpaired, i, image, hfirst, rfl⟩ := exists_isFirstBest hp
    exact proposeBest_of_isFirstBest (hfirst.append hmore) hpaired

/-- **In another order something that scores the same is chosen**, or nothing again. -/
theorem score_proposeBest_perm {reordered : List Image} (hperm : images.Perm reordered) :
    (proposeBest regions reordered).map (·.score) = (proposeBest regions images).map (·.score) := by
  have hlisted : ∀ {chosen : Image}, chosen ∈ images ↔ chosen ∈ reordered := hperm.mem_iff
  cases hbest : proposeBest regions images with
  | none =>
    have hnone : proposeBest regions reordered = none := by
      rw [proposeBest_eq_none_iff] at hbest ⊢
      intro chosen hchosen
      exact hbest chosen (hlisted.mpr hchosen)
    rw [hnone]
  | some p =>
    obtain ⟨hpaired, i, image, hfirst, rfl⟩ := exists_isFirstBest hbest
    have himage : image ∈ reordered := hlisted.mp (List.mem_of_getElem? hfirst.listed)
    cases hbest' : proposeBest regions reordered with
    | none => exact absurd (proposeBest_eq_none_iff.mp hbest' image himage) hpaired
    | some q =>
      obtain ⟨-, j, other, hfirst', rfl⟩ := exists_isFirstBest hbest'
      have hother : other ∈ images := hlisted.mpr (List.mem_of_getElem? hfirst'.listed)
      -- each is listed where the other is highest
      exact congrArg some (Score.eq_of_not_below (hfirst'.highest image himage)
        (hfirst.highest other hother))

end Choice

/-- **The first of the best images is chosen.**  For whatever regions and images: there is no best
proposal exactly if none of the images has any region paired; and it is some proposal exactly if
that proposal pairs a region and is for the first image that scores highest.  Hence images listed
behind the others leave the choice as it is, unless one of them is better; and in another order
either nothing is chosen again or something that scores the same. -/
theorem first_best_image_chosen (regions : List Region) (images : List Image) :
    (proposeBest regions images = none ↔
      ∀ image ∈ images, ∀ e ∈ (propose regions image).entries, e.block = none) ∧
    (∀ p, proposeBest regions images = some p ↔
      (∃ e ∈ p.entries, ∃ b, e.block = some b) ∧
        ∃ i image, IsFirstBest regions images i image ∧ p = propose regions image) ∧
    (∀ p, proposeBest regions images = some p → ∀ more : List Image,
      (proposeBest regions (images ++ more) = some p ↔
        ∀ later ∈ more, ¬p.score.Below (propose regions later).score)) ∧
    ∀ reordered : List Image, images.Perm reordered →
      (proposeBest regions reordered).map (·.score) =
        (proposeBest regions images).map (·.score) := by
  refine ⟨?_, fun p => proposeBest_eq_some_iff, fun p hp more => proposeBest_append_iff hp more,
    fun reordered hperm => score_proposeBest_perm hperm⟩
  rw [proposeBest_eq_none_iff]
  refine forall₂_congr fun image _ => ?_
  rw [paired_eq_zero_iff]
  simp only [not_exists, not_and, Option.eq_none_iff_forall_ne_some]

end RegionAtlas
