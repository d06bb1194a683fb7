import Mathlib

/-! # Two-thirds quorums

A quorum of a committee of `n` members is a set of more than two thirds of them, at least
`2 * n / 3 + 1` in truncating arithmetic. Two quorums of one committee share at least
`(n - 1) / 3 + 1` members, so they share a member outside any set of at most `(n - 1) / 3`
faulty ones. The bound on the overlap is tight when `n % 3 = 1`, which is why it is checked
for every residue of `n`. -/

namespace Quorum

/-- Two quorums overlap by more than the faulty bound, in every residue of `n` modulo three. -/
theorem faulty_add_le_two_quorums (n : Nat) : (n - 1) / 3 + 1 + n ≤ 2 * (2 * n / 3 + 1) := by
  omega

variable {α ι : Type}

/-- Two quorums inside a committee `U` share more than `(|U| - 1) / 3` members. -/
theorem card_inter_of_quorums [DecidableEq ι] {U A B : Finset ι} (hA : A ⊆ U) (hB : B ⊆ U)
    (hqA : 2 * U.card / 3 + 1 ≤ A.card) (hqB : 2 * U.card / 3 + 1 ≤ B.card) :
    (U.card - 1) / 3 + 1 ≤ (A ∩ B).card := by
  have hunion : (A ∪ B).card ≤ U.card := Finset.card_le_card (Finset.union_subset hA hB)
  have hsum := Finset.card_union_add_card_inter A B
  have hres := faulty_add_le_two_quorums U.card
  omega

/-- More members than faulty names: one member's name, under a map that tells members
apart, is not faulty. -/
theorem exists_not_mem_of_card_lt {C : Finset ι} {name : ι → α} (hname : Set.InjOn name C)
    {faulty : Finset α} (hlt : faulty.card < C.card) : ∃ i ∈ C, name i ∉ faulty := by
  classical
  have himage : faulty.card < (C.image name).card := by
    rw [Finset.card_image_of_injOn hname]
    exact hlt
  obtain ⟨a, ha, hfaulty⟩ := Finset.exists_mem_notMem_of_card_lt_card himage
  obtain ⟨i, hi, rfl⟩ := Finset.mem_image.mp ha
  exact ⟨i, hi, hfaulty⟩

/-- Two quorums share a member whose name is outside any set of at most `(|U| - 1) / 3`
faulty names. -/
theorem exists_correct_of_quorums {U A B : Finset ι} [DecidableEq ι] {name : ι → α}
    (hname : Set.InjOn name U) (hA : A ⊆ U) (hB : B ⊆ U)
    (hqA : 2 * U.card / 3 + 1 ≤ A.card) (hqB : 2 * U.card / 3 + 1 ≤ B.card)
    {faulty : Finset α} (hfaulty : faulty.card ≤ (U.card - 1) / 3) :
    ∃ i ∈ A ∩ B, name i ∉ faulty := by
  have hinter := card_inter_of_quorums hA hB hqA hqB
  have hsub : A ∩ B ⊆ U := fun i hi => hA (Finset.mem_inter.mp hi).1
  exact exists_not_mem_of_card_lt (hname.mono hsub) (by omega)

end Quorum
