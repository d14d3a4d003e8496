/-
Quorums: two sets of voters that are large enough share a correct one. Nothing here names the program.

- `exists_correct_mem_inter`: in `n` voters with at most `b` faulty ones, two sets that count together more than `n + b`
  have a correct voter in common.
- `excludesConflicts_iff`: exactly when `q` votes are so many that no two values can collect them while each correct
  voter votes for one value at most.
- `exists_quorum_of_injOn`: a quorum counted under other names.
-/
import Mathlib.Tactic

namespace Plenum.Core

variable {α β : Type} [DecidableEq α]

theorem exists_correct_mem_inter {voters faulty S T : Finset α} {b : ℕ} (hS : S ⊆ voters) (hT : T ⊆ voters)
    (hfaulty : (voters ∩ faulty).card ≤ b) (hsum : voters.card + b < S.card + T.card) :
    ∃ i ∈ S, i ∈ T ∧ i ∉ faulty := by
  have hunion : (S ∪ T).card ≤ voters.card := Finset.card_le_card (Finset.union_subset hS hT)
  have hcount := Finset.card_union_add_card_inter S T
  have hinter : (voters ∩ faulty).card < (S ∩ T).card := by omega
  obtain ⟨i, hi, hni⟩ := Finset.exists_mem_notMem_of_card_lt_card hinter
  obtain ⟨hiS, hiT⟩ := Finset.mem_inter.1 hi
  exact ⟨i, hiS, hiT, fun hf => hni (Finset.mem_inter.2 ⟨hS hiS, hf⟩)⟩

/-- at most one value collects `q` votes of `voters`, however they vote, if only the faulty ones vote for several -/
def ExcludesConflicts (voters faulty : Finset α) (q : ℕ) : Prop :=
  ∀ (ν : Type) (votes : ν → Finset α), (∀ a, votes a ⊆ voters) →
    (∀ i, i ∉ faulty → ∀ a b, i ∈ votes a → i ∈ votes b → a = b) →
    ∀ a b, q ≤ (votes a).card → q ≤ (votes b).card → a = b

/-- **`q` votes exclude conflicts exactly if two quorums overlap in more voters than are faulty.** -/
theorem excludesConflicts_iff {voters faulty : Finset α} {q : ℕ} (hfaulty : faulty ⊆ voters) (hq : faulty.card ≤ q)
    (hn : q ≤ voters.card) : ExcludesConflicts voters faulty q ↔ voters.card + faulty.card < 2 * q := by
  constructor
  · intro h
    by_contra hlarge
    -- the faulty voters vote for both values, the correct ones are split between them
    have hcorrect := Finset.card_sdiff_add_card_eq_card hfaulty
    have hroom : q - faulty.card ≤ (voters \ faulty).card := by omega
    obtain ⟨A, hA, hcardA⟩ := Finset.exists_subset_card_eq hroom
    have hAv : A ⊆ voters := hA.trans Finset.sdiff_subset
    have hdisjoint : Disjoint faulty A := Finset.disjoint_of_subset_right hA Finset.disjoint_sdiff
    have hsplit := Finset.card_sdiff_add_card_eq_card hAv
    have htrue : (faulty ∪ A).card = q := by
      rw [Finset.card_union_of_disjoint hdisjoint]
      omega
    refine absurd (h Bool (fun b => if b then faulty ∪ A else voters \ A) ?_ ?_ true false ?_ ?_) (by simp)
    · intro b
      cases b with
      | true => exact Finset.union_subset hfaulty hAv
      | false => exact Finset.sdiff_subset
    · intro i hi a b ha hb
      cases a <;> cases b <;> simp_all
    · exact htrue.ge
    · have hfalse : q ≤ (voters \ A).card := by omega
      exact hfalse
  · intro h ν votes hsub honce a b ha hb
    have hinter : (voters ∩ faulty).card ≤ faulty.card := Finset.card_le_card Finset.inter_subset_right
    obtain ⟨i, hia, hib, hi⟩ := exists_correct_mem_inter (hsub a) (hsub b) hinter (by omega)
    exact honce i hi a b hia hib

/-- a quorum of names is a quorum of what the names stand for -/
theorem exists_quorum_of_injOn {q : ℕ} {S : Finset β} {g : β → α} {P : α → Prop} (hcard : q ≤ S.card)
    (hinj : Set.InjOn g S) (hP : ∀ r ∈ S, P (g r)) : ∃ Q : Finset α, q ≤ Q.card ∧ ∀ j ∈ Q, P j := by
  refine ⟨S.image g, ?_, fun j hj => ?_⟩
  · rw [Finset.card_image_of_injOn hinj]
    exact hcard
  · obtain ⟨r, hr, rfl⟩ := Finset.mem_image.1 hj
    exact hP r hr

end Plenum.Core
