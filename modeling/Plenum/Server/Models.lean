/-
The votes of the 3-phase messages, for each key `(viewNo, ppSeqNo)` the replicas that voted, and those of the instance
changes, for each view number the nodes.
-/
import Mathlib.Tactic
import Plenum.Core.Dict
import Plenum.Common.Types

namespace Plenum

open Plenum.Core

/-- votes of `ν`s, by the key of what they are for -/
abbrev TrackedMsgs (κ : Type := TPCKey) (ν : Type := RepName) := Dict κ (Finset ν)

namespace TrackedMsgs

variable {κ ν : Type} [DecidableEq κ] [DecidableEq ν]

def addMsg (t : TrackedMsgs κ ν) (key : κ) (voter : ν) : TrackedMsgs κ ν :=
  t.set key (insert voter ((t.get? key).getD ∅))

/-- who voted for `key` -/
def voters (t : TrackedMsgs κ ν) (key : κ) : Finset ν := (t.get? key).getD ∅

def hasMsg (t : TrackedMsgs κ ν) (key : κ) : Bool := t.contains key

def hasVote (t : TrackedMsgs κ ν) (key : κ) (voter : ν) : Bool := voter ∈ t.voters key

def hasEnoughVotes (t : TrackedMsgs κ ν) (key : κ) (count : ℕ) : Bool :=
  t.hasMsg key && decide (count ≤ (t.voters key).card)

theorem voters_addMsg (t : TrackedMsgs κ ν) (key key' : κ) (voter : ν) :
    (t.addMsg key voter).voters key' = if key' = key then insert voter (t.voters key) else t.voters key' := by
  unfold addMsg voters
  rw [Dict.get?_set]
  split_ifs <;> rfl

theorem mem_voters_addMsg {t : TrackedMsgs κ ν} {key key' : κ} {voter w : ν} :
    w ∈ (t.addMsg key voter).voters key' ↔ (key' = key ∧ w = voter) ∨ w ∈ t.voters key' := by
  rw [voters_addMsg]
  split_ifs with h
  · rw [Finset.mem_insert, h]; simp
  · simp [h]

omit [DecidableEq ν] in
theorem voters_eraseAll (t : TrackedMsgs κ ν) (ks : List κ) (key : κ) :
    voters (Dict.eraseAll t ks) key = if key ∈ ks then ∅ else t.voters key := by
  unfold voters
  rw [Dict.get?_eraseAll]
  split_ifs <;> rfl

omit [DecidableEq ν] in
theorem card_of_hasEnoughVotes {t : TrackedMsgs κ ν} {key : κ} {count : ℕ} (h : t.hasEnoughVotes key count) :
    count ≤ (t.voters key).card := by
  unfold hasEnoughVotes at h
  rw [Bool.and_eq_true, decide_eq_true_eq] at h
  exact h.2

omit [DecidableEq ν] in
/-- a positive count of votes is reached by the votes alone -/
theorem hasEnoughVotes_iff {t : TrackedMsgs κ ν} {key : κ} {count : ℕ} (hpos : 0 < count) :
    t.hasEnoughVotes key count = true ↔ count ≤ (t.voters key).card := by
  refine ⟨card_of_hasEnoughVotes, fun h => ?_⟩
  have hmsg : t.hasMsg key = true := by
    unfold hasMsg Dict.contains
    unfold voters at h
    cases hk : t.get? key with
    | none =>
      rw [hk, Option.getD_none, Finset.card_empty] at h
      omega
    | some S => rfl
  unfold hasEnoughVotes
  rw [hmsg, decide_eq_true h]
  rfl

/-- the votes of a list of voters, counted one after the other -/
theorem voters_foldl_addMsg (t : TrackedMsgs κ ν) (key : κ) (l : List ν) :
    voters (l.foldl (fun t i => t.addMsg key i) t) key = t.voters key ∪ l.toFinset := by
  induction l generalizing t with
  | nil => simp
  | cons i l ih =>
    rw [List.foldl_cons, ih, voters_addMsg, if_pos rfl, List.toFinset_cons, Finset.insert_union, Finset.union_insert]

end TrackedMsgs

/-! ## The quorums of the three votes -/

namespace Prepares

def hasPrepareFrom (t : TrackedMsgs) (prepare : Prepare) (voter : RepName) : Bool := t.hasVote prepare.key voter

def hasQuorum (t : TrackedMsgs) (prepare : Prepare) (f : ℕ) : Bool := t.hasEnoughVotes prepare.key (2 * f)

end Prepares

namespace Commits

def hasCommitFrom (t : TrackedMsgs) (commit : Commit) (voter : RepName) : Bool := t.hasVote commit.key voter

def hasQuorum (t : TrackedMsgs) (commit : Commit) (f : ℕ) : Bool := t.hasEnoughVotes commit.key (2 * f + 1)

end Commits

namespace InstanceChanges

def addVote (t : TrackedMsgs ℕ NodeName) (viewNo : ℕ) (voter : NodeName) : TrackedMsgs ℕ NodeName :=
  t.addMsg viewNo voter

def hasView (t : TrackedMsgs ℕ NodeName) (viewNo : ℕ) : Bool := t.hasMsg viewNo

def hasInstChngFrom (t : TrackedMsgs ℕ NodeName) (viewNo : ℕ) (voter : NodeName) : Bool := t.hasVote viewNo voter

def hasQuorum (t : TrackedMsgs ℕ NodeName) (viewNo f : ℕ) : Bool := t.hasEnoughVotes viewNo (2 * f + 1)

end InstanceChanges

end Plenum
