/-
Intervals of one length, laid out from one on.

- `block c j`: the interval of the `c` numbers after `j * c`.
- `Within i n`: the number lies in the interval.
- `block_unique`: no number lies in two blocks; `disjoint_block` says it of the sets.
- `within_succ_or_dvd`: after a number of a block comes a number of the block, or the block is at its end.
-/
import Mathlib

namespace Plenum.Core

/-- the `c` numbers after `j * c` -/
def block (c j : ℕ) : ℤ × ℤ := (j * c + 1, (j + 1) * c)

def Within (i : ℤ × ℤ) (n : ℕ) : Prop := i.1 ≤ n ∧ (n : ℤ) ≤ i.2

instance (i : ℤ × ℤ) (n : ℕ) : Decidable (Within i n) := by unfold Within; infer_instance

variable {c i j n : ℕ}

theorem within_block : Within (block c j) n ↔ j * c < n ∧ n ≤ (j + 1) * c := by
  unfold Within block
  dsimp only
  constructor
  · rintro ⟨h1, h2⟩
    exact ⟨by exact_mod_cast h1, by exact_mod_cast h2⟩
  · rintro ⟨h1, h2⟩
    exact ⟨by exact_mod_cast h1, by exact_mod_cast h2⟩

/-- no number lies in two blocks -/
theorem block_unique (hi : Within (block c i) n) (hj : Within (block c j) n) : i = j := by
  rw [within_block] at hi hj
  have h1 : i * c < (j + 1) * c := hi.1.trans_le hj.2
  have h2 : j * c < (i + 1) * c := hj.1.trans_le hi.2
  have h3 := Nat.lt_of_mul_lt_mul_right h1
  have h4 := Nat.lt_of_mul_lt_mul_right h2
  omega

theorem block_start (c j : ℕ) : (block c j).1 ≡ 1 [ZMOD c] := by
  unfold block
  exact (Int.modEq_iff_dvd.2 ⟨-j, by ring⟩)

theorem block_end (c j : ℕ) : (block c j).2 = (block c j).1 + c - 1 := by
  unfold block
  ring

theorem block_dvd (h : ((n : ℤ)) = (block c j).2) : c ∣ n := by
  have : n = (j + 1) * c := by
    unfold block at h
    dsimp only at h
    exact_mod_cast h
  exact ⟨j + 1, by rw [this, Nat.mul_comm]⟩

/-- blocks in the order of their starts end in the same order -/
theorem block_end_mono (h : (block c i).1 ≤ (block c j).1) : (block c i).2 ≤ (block c j).2 := by
  rw [block_end, block_end]
  omega

theorem disjoint_block (h : block c i ≠ block c j) :
    Disjoint (Set.Icc (block c i).1 (block c i).2) (Set.Icc (block c j).1 (block c j).2) := by
  rw [Set.disjoint_left]
  rintro x ⟨h1, h2⟩ ⟨h3, h4⟩
  have hx : 0 ≤ x := by
    refine le_trans ?_ h1
    unfold block
    positivity
  obtain ⟨n, rfl⟩ := Int.eq_ofNat_of_zero_le hx
  exact h (congrArg (block c) (block_unique ⟨h1, h2⟩ ⟨h3, h4⟩))

/-- the next number lies in the block too, unless the block ends here -/
theorem within_succ_or_dvd (h : Within (block c j) n) : Within (block c j) (n + 1) ∨ c ∣ n := by
  rw [within_block] at h ⊢
  rcases Nat.lt_or_ge n ((j + 1) * c) with hlt | hge
  · exact Or.inl ⟨by omega, hlt⟩
  · have hn : n = (j + 1) * c := le_antisymm h.2 hge
    exact Or.inr ⟨j + 1, by rw [hn, Nat.mul_comm]⟩

/-- after a multiple of `c` a block begins -/
theorem block_of_dvd (h : c ∣ n) : (((n + 1 : ℕ) : ℤ), ((n + 1 : ℕ) : ℤ) + c - 1) = block c (n / c) := by
  obtain ⟨m, rfl⟩ := h
  rcases Nat.eq_zero_or_pos c with rfl | hc
  · simp [block]
  · rw [Nat.mul_div_cancel_left m hc]
    unfold block
    push_cast
    refine Prod.ext ?_ ?_ <;> dsimp only <;> ring

end Plenum.Core
