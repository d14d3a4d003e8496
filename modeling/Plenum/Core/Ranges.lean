/-
Ranges of consecutive integers, each given by its first and its last number.

- `Covers l n`: the number lies in one of the ranges.
- `Tiles a b l`: the ranges are not empty, the first one starts at `a`, each of the others right after the one before it,
  and the last one ends at `b`.
- `Tiles.covers_iff`: together they have exactly the numbers from `a` to `b`; `Tiles.pairwise`: no number lies in two.
- `batch_tiles`: a range cut into parts of one length, of which the last one may be shorter.
-/
import Mathlib.Tactic

namespace Plenum.Core

def Covers (l : List (ℤ × ℤ)) (n : ℤ) : Prop := ∃ r ∈ l, r.1 ≤ n ∧ n ≤ r.2

/-- no number lies in two of the ranges -/
def Apart (l : List (ℤ × ℤ)) : Prop := l.Pairwise fun r r' => ∀ n, ¬ ((r.1 ≤ n ∧ n ≤ r.2) ∧ (r'.1 ≤ n ∧ n ≤ r'.2))

def Tiles : ℤ → ℤ → List (ℤ × ℤ) → Prop
  | a, b, [] => a = b + 1
  | a, b, r :: l => r.1 = a ∧ a ≤ r.2 ∧ Tiles (r.2 + 1) b l

theorem covers_nil (n : ℤ) : ¬ Covers [] n := by
  rintro ⟨r, hr, -⟩
  cases hr

theorem covers_cons {r : ℤ × ℤ} {l : List (ℤ × ℤ)} {n : ℤ} :
    Covers (r :: l) n ↔ (r.1 ≤ n ∧ n ≤ r.2) ∨ Covers l n := by
  unfold Covers
  rw [List.exists_mem_cons_iff]

theorem covers_append {l l' : List (ℤ × ℤ)} {n : ℤ} : Covers (l ++ l') n ↔ Covers l n ∨ Covers l' n := by
  unfold Covers
  constructor
  · rintro ⟨r, hr, h⟩
    rcases List.mem_append.1 hr with hr | hr
    · exact Or.inl ⟨r, hr, h⟩
    · exact Or.inr ⟨r, hr, h⟩
  · rintro (⟨r, hr, h⟩ | ⟨r, hr, h⟩)
    · exact ⟨r, List.mem_append_left l' hr, h⟩
    · exact ⟨r, List.mem_append_right l hr, h⟩

theorem Apart.append {l l' : List (ℤ × ℤ)} (h : Apart l) (h' : Apart l') (hdisjoint : ∀ n, ¬ (Covers l n ∧ Covers l' n)) :
    Apart (l ++ l') := by
  refine List.pairwise_append.2 ⟨h, h', ?_⟩
  rintro r hr r' hr' n ⟨hn, hn'⟩
  exact hdisjoint n ⟨⟨r, hr, hn⟩, ⟨r', hr', hn'⟩⟩

namespace Tiles

variable {a b c : ℤ} {l l' : List (ℤ × ℤ)}

theorem le (h : Tiles a b l) : a ≤ b + 1 := by
  induction l generalizing a with
  | nil => exact le_of_eq h
  | cons r l ih =>
    obtain ⟨-, hr, hl⟩ := h
    have := ih hl
    omega

theorem covers_iff (h : Tiles a b l) (n : ℤ) : Covers l n ↔ a ≤ n ∧ n ≤ b := by
  induction l generalizing a with
  | nil =>
    have ha : a = b + 1 := h
    refine iff_of_false (covers_nil n) ?_
    omega
  | cons r l ih =>
    obtain ⟨hstart, hr, hl⟩ := h
    have hle := hl.le
    rw [covers_cons, ih hl, hstart]
    omega

theorem nonempty (h : Tiles a b l) : ∀ r ∈ l, r.1 ≤ r.2 := by
  induction l generalizing a with
  | nil =>
    intro r hr
    cases hr
  | cons r l ih =>
    obtain ⟨hstart, hr, hl⟩ := h
    intro x hx
    rcases List.mem_cons.1 hx with rfl | hx
    · rw [hstart]
      exact hr
    · exact ih hl x hx

/-- the ranges come in increasing order -/
theorem pairwise (h : Tiles a b l) : l.Pairwise fun r r' => r.2 < r'.1 := by
  induction l generalizing a with
  | nil => exact List.Pairwise.nil
  | cons r l ih =>
    obtain ⟨-, -, hl⟩ := h
    refine List.Pairwise.cons ?_ (ih hl)
    intro r' hr'
    have hcovers : Covers l r'.1 := ⟨r', hr', le_rfl, hl.nonempty r' hr'⟩
    have := (hl.covers_iff r'.1).1 hcovers
    omega

theorem apart (h : Tiles a b l) : Apart l := by
  refine h.pairwise.imp ?_
  intro r r' hlt n hn
  omega

/-- each range but the first starts right after the one before it -/
theorem isChain (h : Tiles a b l) : l.IsChain fun r r' => r'.1 = r.2 + 1 := by
  induction l generalizing a with
  | nil => exact List.IsChain.nil
  | cons r l ih =>
    obtain ⟨-, -, hl⟩ := h
    cases l with
    | nil => exact List.IsChain.singleton r
    | cons r' l => exact List.IsChain.cons_cons hl.1 (ih hl)

end Tiles

/-! ## Batches -/

/-- `n` ranges of `size` numbers from `first` on, none of which goes beyond `last` -/
def batches (size first last : ℤ) (n : ℕ) : List (ℤ × ℤ) :=
  (List.range n).map fun i : ℕ => (first + i * size, min last (first + (i + 1) * size - 1))

theorem batches_succ (size first last : ℤ) (n : ℕ) :
    batches size first last (n + 1) = (first, min last (first + size - 1)) :: batches size (first + size) last n := by
  have hnext : ∀ i : ℕ, first + (i + 1) * size = first + size + i * size := by
    intro i
    ring
  unfold batches
  rw [List.range_succ_eq_map, List.map_cons, List.map_map]
  congr 1
  · simp
  · refine List.map_congr_left ?_
    intro i _
    simp only [Function.comp_apply, Nat.succ_eq_add_one, Nat.cast_add, Nat.cast_one, hnext]

/-- so many batches that the last one is the first last reach the end -/
theorem tiles_batches {size first last : ℤ} (hsize : 1 ≤ size) {n : ℕ} (hle : first ≤ last + 1)
    (hbefore : n * size - size < last - first + 1) (hreach : last - first + 1 ≤ n * size) :
    Tiles first last (batches size first last n) := by
  induction n generalizing first with
  | zero =>
    have : first = last + 1 := by
      push_cast at hreach
      omega
    exact this
  | succ n ih =>
    rw [batches_succ]
    push_cast at hbefore hreach
    rw [add_mul, one_mul] at hbefore hreach
    rcases Nat.eq_zero_or_pos n with rfl | hn
    · push_cast at hbefore hreach
      rw [min_eq_left (by omega)]
      exact ⟨rfl, by omega, rfl⟩
    · have hone : size ≤ n * size := le_mul_of_one_le_left (by omega) (by exact_mod_cast hn)
      rw [min_eq_right (by omega)]
      refine ⟨rfl, by omega, ?_⟩
      have hnext : first + size - 1 + 1 = first + size := by ring
      rw [hnext]
      exact ih (by omega) (by omega) (by omega)

/-- the ceiling of a quotient; the divisor may be negative -/
def ceilDiv (a b : ℤ) : ℤ := -Int.fdiv (-a) b

theorem ceilDiv_spec {a b : ℤ} (hb : 0 < b) : ceilDiv a b * b - b < a ∧ a ≤ ceilDiv a b * b := by
  have hdiv := Int.mul_ediv_add_emod (-a) b
  have hnonneg := Int.emod_nonneg (-a) hb.ne'
  have hlt := Int.emod_lt_of_pos (-a) hb
  unfold ceilDiv
  rw [Int.fdiv_eq_ediv_of_nonneg _ hb.le]
  generalize (-a) / b = q at *
  have hcomm : -q * b = -(b * q) := by ring
  rw [hcomm]
  constructor <;> omega

theorem ceilDiv_nonneg {a b : ℤ} (hb : 0 < b) (ha : 0 ≤ a) : 0 ≤ ceilDiv a b := by
  have h := (ceilDiv_spec (a := a) hb).2
  exact nonneg_of_mul_nonneg_left (ha.trans h) hb

theorem ceilDiv_nonpos {a b : ℤ} (hb : 0 < b) (ha : a ≤ 0) : ceilDiv a b ≤ 0 := by
  have h := (ceilDiv_spec (a := a) hb).1
  have hlt : ceilDiv a b * b < 1 * b := by omega
  have := lt_of_mul_lt_mul_right hlt hb.le
  omega

theorem one_le_ceilDiv {a b : ℤ} (hb : 0 < b) (ha : 0 < a) : 1 ≤ ceilDiv a b := by
  have h := (ceilDiv_spec (a := a) hb).2
  by_contra hlt
  have : ceilDiv a b * b ≤ 0 := mul_nonpos_of_nonpos_of_nonneg (by omega) hb.le
  omega

theorem ceilDiv_neg {a b : ℤ} (hb : 0 < b) (ha : a ≤ -b) : ceilDiv a b ≤ -1 := by
  have h := (ceilDiv_spec (a := a) hb).1
  have hlt : ceilDiv a b * b < 0 * b := by omega
  have := lt_of_mul_lt_mul_right hlt hb.le
  omega

theorem ceilDiv_eq_zero {a b : ℤ} (hb : 0 < b) (hlt : -b < a) (ha : a ≤ 0) : ceilDiv a b = 0 := by
  have h := (ceilDiv_spec (a := a) hb).2
  have hgt : -1 * b < ceilDiv a b * b := by omega
  have := lt_of_mul_lt_mul_right hgt hb.le
  have := ceilDiv_nonpos hb ha
  omega

/-- a range cut into batches; there is none if the range is empty or reversed -/
theorem batch_tiles {size : ℤ} (hsize : 1 ≤ size) (first last : ℤ) :
    Tiles first (max last (first - 1)) (batches size first last (ceilDiv (last - first + 1) size).toNat) := by
  by_cases hle : first ≤ last + 1
  · have hspec := ceilDiv_spec (a := last - first + 1) (b := size) (by omega)
    have hnonneg := ceilDiv_nonneg (a := last - first + 1) (b := size) (by omega) (by omega)
    have hcast : ((ceilDiv (last - first + 1) size).toNat : ℤ) = ceilDiv (last - first + 1) size :=
      Int.toNat_of_nonneg hnonneg
    rw [max_eq_left (by omega)]
    refine tiles_batches hsize hle ?_ ?_ <;> rw [hcast]
    · exact hspec.1
    · exact hspec.2
  · have hnonpos := ceilDiv_nonpos (a := last - first + 1) (b := size) (by omega) (by omega)
    rw [Int.toNat_of_nonpos hnonpos, max_eq_right (by omega)]
    exact (sub_add_cancel first 1).symm

/-- with a negative length the batches are empty -/
theorem batches_reversed {size : ℤ} (hsize : size ≤ -1) (first last : ℤ) (n : ℕ) :
    ∀ r ∈ batches size first last n, r.2 < r.1 := by
  intro r hr
  obtain ⟨i, -, rfl⟩ := List.mem_map.1 hr
  have hend : first + (i + 1) * size - 1 = first + i * size + size - 1 := by ring
  dsimp only
  rw [hend]
  omega

end Plenum.Core
