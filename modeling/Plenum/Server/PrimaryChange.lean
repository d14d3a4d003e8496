/-
How a replica learns of a new view and its primary.

- `Replica.removeObsoletePpReqs`: the former primary forgets the PRE-PREPAREs of the last view that have too few votes.
- `setPrimaryName`, `primaryChanged`: the setter of `primaryName`, which also takes the messages that waited for the
  election, and the method that the elector calls.
- `processPostElectionMsgs_writes`: taking these messages is a run of the writes of `ReplicaWrite`.
-/
import Mathlib.Tactic
import Plenum.Server.ReplicaRefinement

namespace Plenum.Replica

open Plenum.Core Plenum.Core.Exec
open Relation (ReflTransGen)

variable {ω σ τ : Type} (env : Env ω σ τ)

/-! ## The methods -/

/-- the PRE-PREPAREs that the replica sent as primary of the last view and that have fewer than `f` PREPAREs, those
with the greatest `ppSeqNo` first -/
def obsoletePpReqs (s : Replica ω σ τ) : List TPCKey :=
  match s.primaryNames.keys.dropLast.getLast? with
  | none => []
  | some lastViewNo =>
    if s.primaryNames.get? lastViewNo = some (some s.name) then
      ((s.sentPrePrepares.entries.filter fun e =>
        e.2.viewNo = lastViewNo ∧ ! s.prepares.hasEnoughVotes e.1 s.node.f).map Prod.fst).reverse
    else []

/-- the loop of `removeObsoletePpReqs` -/
def removePpReqs : List TPCKey → ReplicaM ω σ τ Unit
  | [] => pure ()
  | key :: keys => do
    let s ← get
    match s.sentPrePrepares.get? key, s.batches.get? key.2 with
    | some pp, some (count, _, prevStateRoot) => do
      modify fun s => { s with batches := s.batches.erase key.2 }
      revertBatch env pp prevStateRoot count
      modify fun s => { s with sentPrePrepares := s.sentPrePrepares.eraseAll [key], prepares := s.prepares.erase key }
      removePpReqs keys
    | _, _ => throw .keyError

def removeObsoletePpReqs : ReplicaM ω σ τ Unit := do
  let s ← get
  removePpReqs env s.obsoletePpReqs

/-- the first `n` messages that waited for the election -/
def takePostElectionMsgs (fuel : ℕ) : ℕ → ReplicaM ω σ τ Unit
  | 0 => pure ()
  | n + 1 => do
    let s ← get
    match s.postElectionMsgs with
    | [] => pure ()
    | (m, sender) :: rest => do
      modify fun s => { s with postElectionMsgs := rest }
      dispatchThreePhaseMsg env fuel fuel m sender
      takePostElectionMsgs fuel n

/-- no dispatch adds to the messages that wait, so their number bounds the rounds -/
def processPostElectionMsgs (fuel : ℕ) : ReplicaM ω σ τ Unit := do
  let s ← get
  takePostElectionMsgs env fuel s.postElectionMsgs.length

/-- the setter of `primaryName` -/
def setPrimaryName (fuel : ℕ) (value : Option RepName) : ReplicaM ω σ τ Unit := do
  let s ← get
  modify fun s => { s with primaryNames := s.primaryNames.set s.node.viewNo value }
  if value = s.primaryName then pure ()
  else do
    modify fun s => { s with primaryName := value }
    if s.isMaster then removeObsoletePpReqs env else pure ()
    if value = none then pure () else processPostElectionMsgs env fuel

def primaryChanged (fuel : ℕ) (primaryName : RepName) (lastOrderedPPSeqNo : ℕ) : ReplicaM ω σ τ Unit := do
  modify fun s => { s with lastOrderedPPSeqNo := max s.lastOrderedPPSeqNo lastOrderedPPSeqNo }
  setPrimaryName env fuel (some primaryName)
  modify fun s => if primaryName = s.name then { s with lastPrePrepareSeqNo := s.lastOrderedPPSeqNo } else s

/-! ## The messages that waited -/

variable {env} {D : InMsg → Prop} {s : Replica ω σ τ}

theorem takePostElectionMsgs_writes (hready : Ready D s) (fuel n : ℕ) :
    Follows (ReplicaWrite env D) (takePostElectionMsgs env fuel n) s fun _ _ => True := by
  induction n generalizing s with
  | zero => exact Follows.ret trivial
  | succ n ih =>
    unfold takePostElectionMsgs
    refine Follows.get_seq ?_
    cases hpost : s.postElectionMsgs with
    | nil => exact Follows.ret trivial
    | cons e rest =>
      obtain ⟨m, sender⟩ := e
      have hwaiting := hready.held.postElectionMsgs
      simp only [queues, hpost] at hwaiting
      refine Follows.seq (write_queues rfl fun h =>
        { h with postElectionMsgs := fun e he => hwaiting e (List.mem_cons_of_mem _ he) }) fun _ s1 h1 _ => ?_
      have hready1 := hready.steps h1
      refine Follows.seq (dispatchThreePhaseMsg_follows fuel fuel s1 m sender hready1 (hwaiting _ List.mem_cons_self))
        fun _ s2 h2 _ => ih (hready1.steps h2)

theorem processPostElectionMsgs_writes (env : Env ω σ τ) (hready : Ready D s) (fuel : ℕ) :
    Follows (ReplicaWrite env D) (processPostElectionMsgs env fuel) s fun _ _ => True :=
  Follows.get_seq (takePostElectionMsgs_writes hready fuel _)

end Plenum.Replica
