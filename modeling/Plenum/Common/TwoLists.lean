/-
A ledger as two lists: the transactions that are committed, and those that are applied and may still be taken back.

- `TwoLists`: what a ledger is for. Appending adds at the end of the second list, committing moves a prefix of it to the
  end of the first one, discarding drops a suffix.
- `LedgerOp`: the three operations, on a `Ledger` and on the lists.
- `Refines`: a ledger shows the lists; its uncommitted root is the root of both lists together, and is missing when the
  second one is empty.
- `refines_iff`: after every operation of a sequence the ledger shows the lists, if and only if no empty list is appended
  while nothing is uncommitted, and no count of zero is discarded while something is.
- `discard_none`: a count of zero drops what was appended.
-/
import Mathlib.Tactic
import Plenum.Common.Ledger

namespace Plenum

variable {τ : Type}

/-! ## The lists -/

structure TwoLists (τ : Type) where
  committed : List τ
  uncommitted : List τ

namespace TwoLists

def append (m : TwoLists τ) (txns : List τ) : TwoLists τ := { m with uncommitted := m.uncommitted ++ txns }

def commit (m : TwoLists τ) (count : ℕ) : TwoLists τ :=
  ⟨m.committed ++ m.uncommitted.take count, m.uncommitted.drop count⟩

def discard (m : TwoLists τ) (count : ℕ) : TwoLists τ :=
  { m with uncommitted := m.uncommitted.take (m.uncommitted.length - count) }

end TwoLists

/-! ## The operations -/

inductive LedgerOp (τ : Type) where
  | appendTxns (txns : List τ)
  | commitTxns (count : ℕ)
  | discardTxns (count : ℕ)
deriving DecidableEq

namespace LedgerOp

variable (root : List τ → String)

def onLedger (l : Ledger τ) : LedgerOp τ → Ledger τ
  | .appendTxns txns => l.appendTxns root txns
  | .commitTxns count => (l.commitTxns count).1
  | .discardTxns count => l.discardTxns root count

def onLists (m : TwoLists τ) : LedgerOp τ → TwoLists τ
  | .appendTxns txns => m.append txns
  | .commitTxns count => m.commit count
  | .discardTxns count => m.discard count

/-- no more is committed or discarded than there is -/
def Enabled (l : Ledger τ) : LedgerOp τ → Prop
  | .appendTxns _ => True
  | .commitTxns count => count ≤ l.uncommittedTxns.length
  | .discardTxns count => count ≤ l.uncommittedTxns.length

/-- something is appended, or uncommitted already; something is discarded, or there is nothing to discard -/
def Proper (l : Ledger τ) : LedgerOp τ → Prop
  | .appendTxns txns => l.uncommittedTxns = [] → txns ≠ []
  | .commitTxns _ => True
  | .discardTxns count => l.uncommittedTxns ≠ [] → count ≠ 0

end LedgerOp

open LedgerOp

/-- a ledger with committed transactions only -/
def Ledger.ofTxns (txns : List τ) : Ledger τ := { (Ledger.empty : Ledger τ) with txns := txns }

def ledgerAfter (root : List τ → String) (txns : List τ) (ops : List (LedgerOp τ)) : Ledger τ :=
  ops.foldl (onLedger root) (Ledger.ofTxns txns)

def listsAfter (txns : List τ) (ops : List (LedgerOp τ)) : TwoLists τ := ops.foldl onLists ⟨txns, []⟩

/-! ## The refinement -/

/-- the ledger shows the two lists -/
structure Refines (root : List τ → String) (l : Ledger τ) (m : TwoLists τ) : Prop where
  committed : l.txns = m.committed
  uncommitted : l.uncommittedTxns = m.uncommitted
  rootHash : l.uncommittedRootHash = if m.uncommitted = [] then none else some (root (m.committed ++ m.uncommitted))

variable {root : List τ → String} {l : Ledger τ} {m : TwoLists τ}

/-- a consistent ledger shows its own lists -/
theorem Ledger.Consistent.refines (h : Ledger.Consistent root l) (hc : l.txns = m.committed)
    (hu : l.uncommittedTxns = m.uncommitted) : Refines root l m := by
  refine ⟨hc, hu, ?_⟩
  rw [h.rootHash, h.tree, hc, hu]
  split_ifs <;> rfl

/-- a proper operation keeps the ledger consistent -/
theorem LedgerOp.Proper.consistent {op : LedgerOp τ} (hop : op.Proper l) (h : Ledger.Consistent root l) :
    Ledger.Consistent root (op.onLedger root l) := by
  cases op with
  | appendTxns txns =>
    by_cases htxns : txns = []
    · -- nothing is appended to the uncommitted tree, which is there
      have hu : l.uncommittedTxns ≠ [] := fun hu => hop hu htxns
      have htree : l.treeWithAppliedTxns txns l.uncommittedTree = l.txns ++ l.uncommittedTxns := by
        rw [Ledger.treeWithAppliedTxns, h.getD_tree, htxns, List.append_nil]
      refine ⟨?_, rfl⟩
      change some (l.treeWithAppliedTxns txns l.uncommittedTree) =
        if l.uncommittedTxns ++ txns = [] then none else some (l.txns ++ (l.uncommittedTxns ++ txns))
      rw [htree, htxns, List.append_nil, if_neg hu]
    · exact Ledger.appendTxns_consistent h htxns
  | commitTxns count => exact Ledger.commitTxns_consistent h count
  | discardTxns count => exact Ledger.discardTxns_consistent l count

/-- a proper operation does the same to the lists -/
theorem LedgerOp.Proper.lists {op : LedgerOp τ} (hop : op.Proper l) (hc : l.txns = m.committed)
    (hu : l.uncommittedTxns = m.uncommitted) :
    (op.onLedger root l).txns = (op.onLists m).committed ∧
      (op.onLedger root l).uncommittedTxns = (op.onLists m).uncommitted := by
  cases op with
  | appendTxns txns => exact ⟨hc, congrArg (· ++ txns) hu⟩
  | commitTxns count =>
    refine ⟨?_, congrArg (List.drop count) hu⟩
    change l.txns ++ l.uncommittedTxns.take count = _
    rw [hc, hu]
    rfl
  | discardTxns count =>
    refine ⟨?_, ?_⟩
    · exact (Ledger.discardTxns_txns count).trans hc
    · refine (Ledger.discardTxns_uncommittedTxns count).trans ?_
      change dropLastSlice l.uncommittedTxns count = m.uncommitted.take (m.uncommitted.length - count)
      rw [dropLastSlice, hu]
      split_ifs with hcount
      · have hnil : m.uncommitted = [] := by
          by_contra hne
          exact hop (hu ▸ hne) hcount
        simp [hnil]
      · rfl

/-- an operation that is not proper loses the lists, or the root -/
theorem not_refines_of_not_proper {op : LedgerOp τ} (hop : ¬ op.Proper l) (h : Refines root l m) :
    ¬ Refines root (op.onLedger root l) (op.onLists m) := by
  intro h'
  cases op with
  | appendTxns txns =>
    have hop' : l.uncommittedTxns = [] ∧ txns = [] := by simpa [LedgerOp.Proper] using hop
    obtain ⟨hu, htxns⟩ := hop'
    have hnone : m.uncommitted ++ txns = [] := by rw [← h.uncommitted, hu, htxns]; rfl
    have hroot := h'.rootHash
    rw [show (onLists m (.appendTxns txns)).uncommitted = m.uncommitted ++ txns from rfl, if_pos hnone] at hroot
    cases hroot
  | commitTxns count => exact hop trivial
  | discardTxns count =>
    have hop' : l.uncommittedTxns ≠ [] ∧ count = 0 := by simpa [LedgerOp.Proper] using hop
    obtain ⟨hu, hcount⟩ := hop'
    have hnil : (onLedger root l (.discardTxns count)).uncommittedTxns = [] := by
      change (l.discardTxns root count).uncommittedTxns = []
      rw [hcount, Ledger.discardTxns_zero]
    have hall : (onLists m (.discardTxns count)).uncommitted = m.uncommitted := by
      change m.uncommitted.take (m.uncommitted.length - count) = _
      rw [hcount, Nat.sub_zero, List.take_length]
    rw [h'.uncommitted, hall, ← h.uncommitted] at hnil
    exact hu hnil

/-! ## Sequences of operations -/

theorem ledgerAfter_concat (txns : List τ) (ops : List (LedgerOp τ)) (op : LedgerOp τ) :
    ledgerAfter root txns (ops ++ [op]) = op.onLedger root (ledgerAfter root txns ops) := by
  simp [ledgerAfter]

theorem listsAfter_concat (txns : List τ) (ops : List (LedgerOp τ)) (op : LedgerOp τ) :
    listsAfter txns (ops ++ [op]) = op.onLists (listsAfter txns ops) := by
  simp [listsAfter]

theorem ofTxns_consistent (txns : List τ) : Ledger.Consistent root (Ledger.ofTxns txns) := ⟨rfl, rfl⟩

/-- proper operations keep the ledger consistent and the lists in step -/
theorem inStep_of_proper {txns : List τ} {ops : List (LedgerOp τ)}
    (h : ∀ ops' op, ops' ++ [op] <+: ops → op.Proper (ledgerAfter root txns ops')) :
    Ledger.Consistent root (ledgerAfter root txns ops) ∧
      (ledgerAfter root txns ops).txns = (listsAfter txns ops).committed ∧
      (ledgerAfter root txns ops).uncommittedTxns = (listsAfter txns ops).uncommitted := by
  induction ops using List.reverseRecOn with
  | nil => exact ⟨ofTxns_consistent txns, rfl, rfl⟩
  | append_singleton ops op ih =>
    obtain ⟨hc, hcommitted, huncommitted⟩ := ih fun ops' op' hpre => h ops' op' (hpre.trans (List.prefix_append ops [op]))
    have hop : op.Proper (ledgerAfter root txns ops) := h ops op List.prefix_rfl
    rw [ledgerAfter_concat, listsAfter_concat]
    exact ⟨hop.consistent hc, hop.lists hcommitted huncommitted⟩

/-- **A ledger refines two lists, but for appending and discarding nothing.** For every sequence of operations, whatever
their counts, on a ledger with nothing uncommitted: the ledger shows the two lists after each of them, if and only if no
empty list is appended while nothing is uncommitted, and no count of zero is discarded while something is. -/
theorem refines_iff (root : List τ → String) (txns : List τ) (ops : List (LedgerOp τ)) :
    (∀ ops', ops' <+: ops → Refines root (ledgerAfter root txns ops') (listsAfter txns ops')) ↔
      ∀ ops' op, ops' ++ [op] <+: ops → op.Proper (ledgerAfter root txns ops') := by
  constructor
  · intro h ops' op hpre
    by_contra hop
    have hbefore := h ops' ((List.prefix_append ops' [op]).trans hpre)
    have hafter := h (ops' ++ [op]) hpre
    rw [ledgerAfter_concat, listsAfter_concat] at hafter
    exact not_refines_of_not_proper hop hbefore hafter
  · intro h ops' hpre
    have hproper : ∀ ops'' op, ops'' ++ [op] <+: ops' → op.Proper (ledgerAfter root txns ops'') :=
      fun ops'' op hpre' => h ops'' op (hpre'.trans hpre)
    obtain ⟨hc, hcommitted, huncommitted⟩ := inStep_of_proper hproper
    exact hc.refines hcommitted huncommitted

/-- one transaction is appended; discarding none of the uncommitted ones drops it -/
theorem discard_none : ¬ ∀ ops : List (LedgerOp ℕ),
    (∀ ops' op, ops' ++ [op] <+: ops → op.Enabled (ledgerAfter toString [] ops')) →
      Refines toString (ledgerAfter toString [] ops) (listsAfter [] ops) := by
  intro h
  have hrefines := h [.appendTxns [7], .discardTxns 0] fun ops' op hpre => ?_
  · exact absurd hrefines.uncommitted (by decide)
  · cases op with
    | appendTxns txns => trivial
    | commitTxns count =>
      have hmem : LedgerOp.commitTxns count ∈ [LedgerOp.appendTxns [7], LedgerOp.discardTxns 0] :=
        hpre.subset (List.mem_append_right ops' (List.mem_singleton_self _))
      simp at hmem
    | discardTxns count =>
      have hmem : LedgerOp.discardTxns count ∈ [LedgerOp.appendTxns [7], LedgerOp.discardTxns 0] :=
        hpre.subset (List.mem_append_right ops' (List.mem_singleton_self _))
      have hcount : count = 0 := by simpa using hmem
      rw [hcount]
      exact Nat.zero_le _

end Plenum
