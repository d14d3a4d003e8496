/-
A ledger with uncommitted transactions, and the head of a state.

- The Merkle tree of a ledger is the list of its leaves, so the committed tree is `txns`; `root` is the root hash of a
  tree. `uncommittedTree` and `uncommittedRootHash` are `none` when nothing is uncommitted (`Ledger.Consistent`), and
  every operation keeps it so (`appendTxns_consistent`, `commitTxns_consistent`, `discardTxns_consistent`).
- `discardTxns_appendTxns`: discarding as many transactions as were appended restores the ledger, if that number is
  positive. `discardTxns 0` takes the slice `[:-0]`, which is empty, and so drops every uncommitted transaction
  (`discardTxns_zero`).
- A state is known here by its versions only: the head and the committed head.
-/
import Mathlib.Tactic
import Plenum.Common.Types

namespace Plenum

structure Ledger (τ : Type) where
  txns : List τ
  uncommittedTxns : List τ
  uncommittedRootHash : Option String
  uncommittedTree : Option (List τ)
deriving DecidableEq, Repr

/-- the slice `l[:-count]` -/
def dropLastSlice {α : Type} (l : List α) (count : ℕ) : List α := if count = 0 then [] else l.take (l.length - count)

namespace Ledger

variable {τ : Type} (root : List τ → String)

def empty : Ledger τ := ⟨[], [], none, none⟩

def uncommittedSize (l : Ledger τ) : ℕ := l.txns.length + l.uncommittedTxns.length

def treeWithAppliedTxns (l : Ledger τ) (txns : List τ) (currentTree : Option (List τ)) : List τ :=
  currentTree.getD l.txns ++ txns

def appendTxns (l : Ledger τ) (txns : List τ) : Ledger τ :=
  let tree := l.treeWithAppliedTxns txns l.uncommittedTree
  { l with uncommittedTree := some tree, uncommittedRootHash := some (root tree),
           uncommittedTxns := l.uncommittedTxns ++ txns }

/-- the first `count` uncommitted transactions become committed ones; they are returned too -/
def commitTxns (l : Ledger τ) (count : ℕ) : Ledger τ × List τ :=
  let committedTxns := l.uncommittedTxns.take count
  let rest := l.uncommittedTxns.drop count
  ({ txns := l.txns ++ committedTxns, uncommittedTxns := rest,
     uncommittedTree := if rest = [] then none else l.uncommittedTree,
     uncommittedRootHash := if rest = [] then none else l.uncommittedRootHash }, committedTxns)

def appendCommittedTxns (l : Ledger τ) (txns : List τ) : Ledger τ := { l with txns := l.txns ++ txns }

def discardTxns (l : Ledger τ) (count : ℕ) : Ledger τ :=
  let kept := dropLastSlice l.uncommittedTxns count
  if kept = [] then { l with uncommittedTxns := kept, uncommittedTree := none, uncommittedRootHash := none }
  else
    let tree := l.treeWithAppliedTxns kept none
    { l with uncommittedTxns := kept, uncommittedTree := some tree, uncommittedRootHash := some (root tree) }

/-- the root hash with the uncommitted transactions applied -/
def uncommittedRoot (l : Ledger τ) : String := l.uncommittedRootHash.getD (root l.txns)

/-! ## What every operation keeps -/

/-- the uncommitted tree and root are those of the committed tree with the uncommitted transactions applied -/
structure Consistent (l : Ledger τ) : Prop where
  tree : l.uncommittedTree = if l.uncommittedTxns = [] then none else some (l.txns ++ l.uncommittedTxns)
  rootHash : l.uncommittedRootHash = l.uncommittedTree.map root

variable {root} {l : Ledger τ}

/-- a consistent ledger is determined by its transactions -/
theorem Consistent.eq_of_txns {l' : Ledger τ} (h : Consistent root l) (h' : Consistent root l')
    (ht : l.txns = l'.txns) (hu : l.uncommittedTxns = l'.uncommittedTxns) : l = l' := by
  obtain ⟨h1, h2⟩ := h
  obtain ⟨h1', h2'⟩ := h'
  cases l; cases l'
  simp only at *
  subst ht hu
  rw [h2, h2', h1, h1']

theorem empty_consistent : Consistent root (empty : Ledger τ) := ⟨by simp [empty], by simp [empty]⟩

theorem Consistent.getD_tree (h : Consistent root l) : l.uncommittedTree.getD l.txns = l.txns ++ l.uncommittedTxns := by
  rw [h.tree]
  split_ifs with hu
  · rw [hu, List.append_nil]; rfl
  · rfl

@[simp] theorem appendTxns_txns (txns : List τ) : (l.appendTxns root txns).txns = l.txns := rfl

@[simp] theorem appendTxns_uncommittedTxns (txns : List τ) :
    (l.appendTxns root txns).uncommittedTxns = l.uncommittedTxns ++ txns := rfl

theorem appendTxns_consistent (h : Consistent root l) {txns : List τ} (hne : txns ≠ []) :
    Consistent root (l.appendTxns root txns) := by
  have hne' : l.uncommittedTxns ++ txns ≠ [] := fun hh => hne (List.append_eq_nil_iff.1 hh).2
  refine ⟨?_, rfl⟩
  rw [appendTxns_uncommittedTxns, if_neg hne', appendTxns_txns, ← List.append_assoc, ← h.getD_tree]
  rfl

theorem commitTxns_consistent (h : Consistent root l) (count : ℕ) : Consistent root (l.commitTxns count).1 := by
  have hsplit : l.uncommittedTxns.take count ++ l.uncommittedTxns.drop count = l.uncommittedTxns :=
    List.take_append_drop _ _
  by_cases hr : l.uncommittedTxns.drop count = []
  · exact ⟨by simp [commitTxns, hr], by simp [commitTxns, hr]⟩
  · have hu : l.uncommittedTxns ≠ [] := fun hu => hr (by rw [hu, List.drop_nil])
    refine ⟨?_, by simp only [commitTxns, hr, if_false]; exact h.rootHash⟩
    simp only [commitTxns, hr, if_false]
    rw [h.tree, if_neg hu, List.append_assoc, hsplit]

@[simp] theorem discardTxns_txns (count : ℕ) : (l.discardTxns root count).txns = l.txns := by
  unfold discardTxns; dsimp only; split_ifs <;> rfl

@[simp] theorem discardTxns_uncommittedTxns (count : ℕ) :
    (l.discardTxns root count).uncommittedTxns = dropLastSlice l.uncommittedTxns count := by
  unfold discardTxns; dsimp only; split_ifs <;> rfl

theorem discardTxns_consistent (l : Ledger τ) (count : ℕ) : Consistent root (l.discardTxns root count) := by
  unfold discardTxns
  dsimp only
  split_ifs with h
  · exact ⟨by simp only [h, if_true], rfl⟩
  · exact ⟨by simp only [h, if_false]; rfl, rfl⟩

/-- **`discardTxns 0` drops every uncommitted transaction.** -/
theorem discardTxns_zero (l : Ledger τ) :
    l.discardTxns root 0 = { l with uncommittedTxns := [], uncommittedTree := none, uncommittedRootHash := none } := by
  simp [discardTxns, dropLastSlice]

/-- **Discarding a positive number of transactions undoes appending as many.** -/
theorem discardTxns_appendTxns (h : Consistent root l) {l' : Ledger τ} {txns : List τ} (hne : txns ≠ [])
    (ht : l'.txns = l.txns) (hu : l'.uncommittedTxns = l.uncommittedTxns ++ txns) :
    l'.discardTxns root txns.length = l := by
  refine (discardTxns_consistent l' _).eq_of_txns h (by rw [discardTxns_txns, ht]) ?_
  have hpos : txns.length ≠ 0 := fun h0 => hne (List.length_eq_zero_iff.1 h0)
  rw [discardTxns_uncommittedTxns, dropLastSlice, if_neg hpos, hu, List.length_append, Nat.add_sub_cancel,
    List.take_left]

end Ledger

/-! ## States by their versions -/

/-- the head of a state and its committed head -/
structure State (σ : Type) where
  headHash : σ
  committedHeadHash : σ
deriving DecidableEq, Repr

namespace State

variable {σ : Type}

def revertToHead (s : State σ) (headHash : σ) : State σ := { s with headHash := headHash }

def commit (s : State σ) (rootHash : σ) : State σ := { s with committedHeadHash := rootHash }

end State

end Plenum
