/-
The counting helpers of the pool: how many failures it tolerates, the quorums, and votes on equal items.

- `checkIfMoreThanFSameItems` and `mostCommonElement` count equal items in a dictionary and take the first entry with
  the greatest count. `mostCommonElement_spec` and `checkIfMoreThanFSameItems_eq_some` say what they return.
-/
import Mathlib.Tactic
import Plenum.Core.Dict

namespace Plenum

open Plenum.Core

/-- the number of Byzantine failures that a pool of `nodeCount` nodes tolerates -/
def getMaxFailures (nodeCount : ℕ) : ℕ := if 4 ≤ nodeCount then (nodeCount - 1) / 3 else 0

theorem getMaxFailures_lt {n : ℕ} (h : 4 ≤ n) : 3 * getMaxFailures n < n := by
  unfold getMaxFailures
  rw [if_pos h]
  omega

/-- the strong quorum of a pool that tolerates `f` failures -/
def getStrongQuorum (f : ℕ) : ℕ := 2 * f + 1

theorem getStrongQuorum_getMaxFailures_le {n : ℕ} (h : 4 ≤ n) : getStrongQuorum (getMaxFailures n) ≤ n := by
  have := getMaxFailures_lt h
  unfold getStrongQuorum
  omega

/-! ## Votes on equal items -/

section Votes

variable {α : Type} [DecidableEq α]

/-- one more occurrence of `a` -/
def countItem (counts : Dict α ℕ) (a : α) : Dict α ℕ := counts.set a ((counts.get? a).getD 0 + 1)

/-- the distinct items with their numbers of occurrences, in the order of first occurrence -/
def itemCounts (items : List α) : Dict α ℕ := items.foldl countItem Dict.empty

omit [DecidableEq α] in
/-- the first entry with the greatest count -/
def maxEntry : List (α × ℕ) → Option (α × ℕ)
  | [] => none
  | e :: l =>
    match maxEntry l with
    | none => some e
    | some m => if e.2 < m.2 then some m else some e

/-- the item that occurs more than `maxF` times, if the most frequent one does -/
def checkIfMoreThanFSameItems (items : List α) (maxF : ℕ) : Option α :=
  match maxEntry (itemCounts items).entries with
  | some (a, c) => if maxF < c then some a else none
  | none => none

/-- the most frequent item, the first of them when there is a tie -/
def mostCommonElement (items : List α) : Option α := (maxEntry (itemCounts items).entries).map Prod.fst

theorem get?_foldl_countItem (items : List α) (counts : Dict α ℕ) (a : α) :
    ((items.foldl countItem counts).get? a).getD 0 = (counts.get? a).getD 0 + items.count a := by
  induction items generalizing counts with
  | nil => simp
  | cons b items ih =>
    rw [List.foldl_cons, ih, countItem, Dict.get?_set, List.count_cons]
    by_cases h : a = b
    · subst h; simp; omega
    · simp [h, Ne.symm h]

theorem mem_keys_foldl_countItem (items : List α) (counts : Dict α ℕ) (a : α) :
    a ∈ (items.foldl countItem counts).keys ↔ a ∈ counts.keys ∨ a ∈ items := by
  induction items generalizing counts with
  | nil => simp
  | cons b items ih =>
    rw [List.foldl_cons, ih, ← Dict.contains_iff, ← Dict.contains_iff, countItem, Dict.contains, Dict.contains,
      Dict.get?_set, List.mem_cons]
    by_cases h : a = b <;> simp [h]

/-- an entry of the count is an item with its number of occurrences -/
theorem mem_itemCounts {items : List α} {a : α} {c : ℕ} :
    (a, c) ∈ (itemCounts items).entries ↔ a ∈ items ∧ c = items.count a := by
  have hk := mem_keys_foldl_countItem items Dict.empty a
  have hc := get?_foldl_countItem items Dict.empty a
  rw [← itemCounts] at hk hc
  simp only [Dict.get?_empty, Option.getD_none, zero_add] at hc
  have hk' : a ∈ (itemCounts items).keys ↔ a ∈ items := by simpa [Dict.keys, Dict.empty] using hk
  rw [← Dict.get?_eq_some]
  constructor
  · intro h
    rw [h, Option.getD_some] at hc
    refine ⟨hk'.1 (Dict.contains_iff.1 ?_), hc⟩
    rw [Dict.contains, h, Option.isSome_some]
  · rintro ⟨ha, rfl⟩
    have hs : ((itemCounts items).get? a).isSome := Dict.contains_iff.2 (hk'.2 ha)
    obtain ⟨v, hv⟩ := Option.isSome_iff_exists.1 hs
    rw [hv, Option.getD_some] at hc
    rw [hv, hc]

omit [DecidableEq α] in
theorem maxEntry_eq_none {l : List (α × ℕ)} : maxEntry l = none ↔ l = [] := by
  cases l with
  | nil => simp [maxEntry]
  | cons e l =>
    rw [maxEntry]
    cases maxEntry l with
    | none => simp
    | some m => by_cases h : e.2 < m.2 <;> simp [h]

omit [DecidableEq α] in
/-- the greatest entry is one of the list and no other is greater -/
theorem maxEntry_spec {l : List (α × ℕ)} {m : α × ℕ} (h : maxEntry l = some m) : m ∈ l ∧ ∀ e ∈ l, e.2 ≤ m.2 := by
  induction l generalizing m with
  | nil => cases h
  | cons e l ih =>
    rw [maxEntry] at h
    cases hl : maxEntry l with
    | none =>
      rw [hl, Option.some.injEq] at h
      rw [maxEntry_eq_none.1 hl]
      subst h
      exact ⟨by simp, by simp⟩
    | some x =>
      rw [hl] at h
      obtain ⟨hx, hmax⟩ := ih hl
      dsimp only at h
      split_ifs at h with hlt
      · cases h
        refine ⟨List.mem_cons_of_mem e hx, fun y hy => ?_⟩
        rcases List.mem_cons.1 hy with rfl | hy
        · exact hlt.le
        · exact hmax y hy
      · cases h
        refine ⟨List.mem_cons_self, fun y hy => ?_⟩
        rcases List.mem_cons.1 hy with rfl | hy
        · exact le_rfl
        · exact (hmax y hy).trans (not_lt.1 hlt)

/-- the most frequent item occurs, and no item occurs more often -/
theorem mostCommonElement_spec {items : List α} {a : α} (h : mostCommonElement items = some a) :
    a ∈ items ∧ ∀ b, items.count b ≤ items.count a := by
  obtain ⟨⟨a', c⟩, hm, rfl⟩ := Option.map_eq_some_iff.1 h
  obtain ⟨hmem, hmax⟩ := maxEntry_spec hm
  obtain ⟨ha, rfl⟩ := mem_itemCounts.1 hmem
  refine ⟨ha, fun b => ?_⟩
  by_cases hb : b ∈ items
  · exact hmax (b, items.count b) (mem_itemCounts.2 ⟨hb, rfl⟩)
  · rw [List.count_eq_zero_of_not_mem hb]; exact Nat.zero_le _

/-- what is returned occurs more than `maxF` times -/
theorem checkIfMoreThanFSameItems_eq_some {items : List α} {maxF : ℕ} {a : α}
    (h : checkIfMoreThanFSameItems items maxF = some a) : a ∈ items ∧ maxF < items.count a := by
  unfold checkIfMoreThanFSameItems at h
  cases hm : maxEntry (itemCounts items).entries with
  | none => rw [hm] at h; cases h
  | some m =>
    obtain ⟨b, c⟩ := m
    rw [hm] at h
    dsimp only at h
    split_ifs at h with hlt
    cases h
    obtain ⟨ha, rfl⟩ := mem_itemCounts.1 (maxEntry_spec hm).1
    exact ⟨ha, hlt⟩

/-- if nothing is returned, nothing occurs more than `maxF` times -/
theorem checkIfMoreThanFSameItems_eq_none {items : List α} {maxF : ℕ} (h : checkIfMoreThanFSameItems items maxF = none)
    (a : α) : items.count a ≤ maxF := by
  unfold checkIfMoreThanFSameItems at h
  by_cases ha : a ∈ items
  · cases hm : maxEntry (itemCounts items).entries with
    | none =>
      have hmem := mem_itemCounts.2 ⟨ha, rfl⟩
      rw [maxEntry_eq_none.1 hm] at hmem
      cases hmem
    | some m =>
      rw [hm] at h
      dsimp only at h
      split_ifs at h with hlt
      exact ((maxEntry_spec hm).2 _ (mem_itemCounts.2 ⟨ha, rfl⟩)).trans (not_lt.1 hlt)
  · rw [List.count_eq_zero_of_not_mem ha]
    exact Nat.zero_le _

end Votes

end Plenum
