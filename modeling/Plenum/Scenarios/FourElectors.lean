/-
The electors of the pool of four nodes, Alpha, Beta, Gamma and Delta, with two instances. Traces of the elections run on
them. A second is one tick.
-/
import Mathlib.Tactic
import Plenum.Server.Election

namespace Plenum.FourElectors

open Plenum.Core PrimaryElector

/-- an elector before its first election, in view 0 -/
def elector (name : NodeName) : PrimaryElector where
  name := name
  f := 1
  viewNo := 0
  nodeCount := 4
  isParticipating := true
  replicas := [⟨generateName name 0, none, 0⟩, ⟨generateName name 1, none, 0⟩]
  replicaNominatedForItself := none
  nominations := Dict.empty
  primaryDeclarations := Dict.empty
  scheduledPrimaryDecisions := Dict.empty
  reElectionProposals := Dict.empty
  reElectionRounds := Dict.empty
  previousMasterPrimary := none
  inBox := []
  outBox := []
  actions := ActionQueue.empty
  perfCounter := 0
  randomChoice := 0
  randomWait := 1
  restarts := Dict.empty
  sent := []
  formerMasterPrimary := none
  masterPrimaries := []

/-- the sender nominates the replica of a node -/
def nominate (sender candidate : NodeName) (instId viewNo : ℕ) : ElectorEvent :=
  .message (.nomination ⟨generateName candidate instId, instId, viewNo, 0⟩) sender

/-- the sender declares the replica of a node -/
def declare (sender candidate : NodeName) (instId viewNo : ℕ) : ElectorEvent :=
  .message (.primary ⟨generateName candidate instId, instId, viewNo, 0⟩) sender

end Plenum.FourElectors
