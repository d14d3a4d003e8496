/-
The elector of a node: its state, the messages of an election, and the quorums it counts.

- A candidate is a replica together with the last batch it says it has ordered.
- The dictionaries are keyed by the protocol instance; each holds at most one entry a replica, so counting the entries
  counts replicas.
- The clock and the random draws that the code reads are fields, set from outside. `duplicateMsgs`, which nothing reads,
  is left out.
- `restarts`, `sent`, `formerMasterPrimary` and `masterPrimaries` are histories, which no handler reads: how often the
  election of an instance has started anew, every message sent with the number of restarts before it, the primary that
  the master instance had when the view last changed, and each primary that it was given with the former one then.
-/
import Mathlib.Tactic
import Plenum.Core.Exec
import Plenum.Common.Util
import Plenum.Common.Types
import Plenum.Server.HasActionQueue

namespace Plenum

open Plenum.Core

/-! ## Messages -/

/-- a replica and the last batch it has ordered -/
abbrev Candidate := RepName × ℕ

structure Nomination where
  name : RepName
  instId : ℕ
  viewNo : ℕ
  ordSeqNo : ℕ
deriving DecidableEq, Repr

structure Primary where
  name : RepName
  instId : ℕ
  viewNo : ℕ
  ordSeqNo : ℕ
deriving DecidableEq, Repr

structure Reelection where
  instId : ℕ
  round : ℕ
  tieAmong : List Candidate
  viewNo : ℕ
deriving DecidableEq, Repr

inductive ElectionMsg where
  | nomination (m : Nomination)
  | primary (m : Primary)
  | reelection (m : Reelection)
deriving DecidableEq, Repr

namespace ElectionMsg

def instId : ElectionMsg → ℕ
  | nomination m => m.instId
  | primary m => m.instId
  | reelection m => m.instId

def viewNo : ElectionMsg → ℕ
  | nomination m => m.viewNo
  | primary m => m.viewNo
  | reelection m => m.viewNo

end ElectionMsg

/-! ## The state -/

inductive ElectorAction where
  | startElection
  | nominateItself
  | nominateReplica (instId : ℕ)
  | decidePrimary (instId : ℕ)
deriving DecidableEq, Repr

/-- what the elector reads and writes of a replica -/
structure ElectedReplica where
  name : RepName
  primaryName : Option RepName
  lastOrderedPPSeqNo : ℕ
deriving DecidableEq, Repr

structure PrimaryElector where
  name : NodeName
  f : ℕ
  viewNo : ℕ
  nodeCount : ℕ
  isParticipating : Bool
  replicas : List ElectedReplica
  replicaNominatedForItself : Option ℕ
  nominations : Dict ℕ (Dict RepName Candidate)
  primaryDeclarations : Dict ℕ (Dict RepName Candidate)
  scheduledPrimaryDecisions : Dict ℕ (Option ℕ)
  reElectionProposals : Dict ℕ (Dict RepName (List Candidate))
  reElectionRounds : Dict ℕ ℕ
  previousMasterPrimary : Option NodeName
  inBox : List (ElectionMsg × NodeName)
  outBox : List ElectionMsg
  actions : ActionQueue ElectorAction
  perfCounter : ℕ
  /-- the place that `random.choice` picks -/
  randomChoice : ℕ
  /-- the seconds that a random wait takes -/
  randomWait : ℕ
  restarts : Dict ℕ ℕ
  sent : List (ElectionMsg × ℕ)
  formerMasterPrimary : Option NodeName
  masterPrimaries : List (Option NodeName × NodeName)

namespace PrimaryElector

/-! ## Quorums -/

variable (s : PrimaryElector)

def quorum : ℕ := getStrongQuorum s.f

def nominationsOf (instId : ℕ) : Dict RepName Candidate := (s.nominations.get? instId).getD Dict.empty

def primaryDeclarationsOf (instId : ℕ) : Dict RepName Candidate :=
  (s.primaryDeclarations.get? instId).getD Dict.empty

def reElectionProposalsOf (instId : ℕ) : Dict RepName (List Candidate) :=
  (s.reElectionProposals.get? instId).getD Dict.empty

def hasReelectionQuorum (instId : ℕ) : Bool := decide (s.quorum ≤ (s.reElectionProposalsOf instId).size)

def hasNominationQuorum (instId : ℕ) : Bool := decide (s.quorum ≤ (s.nominationsOf instId).size)

def hasPrimaryQuorum (instId : ℕ) : Bool := decide (s.quorum ≤ (s.primaryDeclarationsOf instId).size)

def hasNominationsFromAll (instId : ℕ) : Bool := decide ((s.nominationsOf instId).size = s.nodeCount)

/-- `primaryDeclarations[instId][sender] = candidate` -/
def setPrimaryDeclaration (instId : ℕ) (sender : RepName) (candidate : Candidate) : PrimaryElector :=
  { s with primaryDeclarations :=
      s.primaryDeclarations.set instId ((s.primaryDeclarationsOf instId).set sender candidate) }

@[simp] theorem setPrimaryDeclaration_f (instId : ℕ) (sender : RepName) (candidate : Candidate) :
    (s.setPrimaryDeclaration instId sender candidate).f = s.f := rfl

@[simp] theorem primaryDeclarationsOf_setPrimaryDeclaration (instId : ℕ) (sender : RepName) (candidate : Candidate) :
    (s.setPrimaryDeclaration instId sender candidate).primaryDeclarationsOf instId =
      (s.primaryDeclarationsOf instId).set sender candidate := by
  simp [setPrimaryDeclaration, primaryDeclarationsOf]

/-- a node declares one primary only: later declarations of the same sender are ignored -/
def recordPrimaryDeclaration (instId : ℕ) (sender : RepName) (candidate : Candidate) : PrimaryElector :=
  if (s.primaryDeclarationsOf instId).contains sender then s else s.setPrimaryDeclaration instId sender candidate

@[simp] theorem recordPrimaryDeclaration_f (instId : ℕ) (sender : RepName) (candidate : Candidate) :
    (s.recordPrimaryDeclaration instId sender candidate).f = s.f := by
  unfold recordPrimaryDeclaration
  split_ifs <;> rfl

theorem mem_keys_recordPrimaryDeclaration (instId : ℕ) (sender : RepName) (candidate : Candidate) (r : RepName) :
    r ∈ ((s.recordPrimaryDeclaration instId sender candidate).primaryDeclarationsOf instId).keys ↔
      r = sender ∨ r ∈ (s.primaryDeclarationsOf instId).keys := by
  unfold recordPrimaryDeclaration
  split_ifs with h
  · rw [Dict.contains_iff] at h
    refine ⟨Or.inr, ?_⟩
    rintro (rfl | hr)
    · exact h
    · exact hr
  · rw [primaryDeclarationsOf_setPrimaryDeclaration, Dict.mem_keys_set]

end PrimaryElector

end Plenum
