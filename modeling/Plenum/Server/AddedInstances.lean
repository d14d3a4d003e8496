/-
The elections of the instances that a node gets when the pool grows.

- `newNodeJoined_elections`: the loop that starts them is never entered, since the count that guards it is that of a
  second adjustment (`adjustReplicas_again`).
- `newNodeJoined_elects_iff`: so the added instances get their elections if and only if there are none.
-/
import Mathlib.Tactic
import Plenum.Server.NodeRouting

namespace Plenum

open Plenum.Core

namespace RoutingNode

/-! ## The guard -/

theorem iterate_addAndService_elections (k : ℕ) (s : RoutingNode) : (addAndService^[k] s).elections = s.elections := by
  induction k with
  | zero => rfl
  | succ k ih =>
    rw [Function.iterate_succ_apply']
    refine Eq.trans ?_ ih
    exact (processStashed_routed _ _ _).elections

theorem iterate_removeReplica_elections (k : ℕ) (s : RoutingNode) :
    (removeReplica^[k] s).elections = s.elections := by
  induction k with
  | zero => rfl
  | succ k ih =>
    rw [Function.iterate_succ_apply']
    exact ih

theorem adjustReplicas_elections (s : RoutingNode) : s.adjustReplicas.2.elections = s.elections :=
  (iterate_removeReplica_elections _ _).trans (iterate_addAndService_elections _ _)

/-- the second adjustment adds nothing -/
theorem adjustReplicas_again (s : RoutingNode) : s.adjustReplicas.2.adjustReplicas.1 = 0 := by
  have hfirst := adjustReplicas_resized s
  have hneeded : s.adjustReplicas.2.requiredNumberOfInstances = s.requiredNumberOfInstances :=
    congrArg PoolSize.requiredNumberOfInstances hfirst.size
  have hagain := (adjustReplicas_resized s.adjustReplicas.2).replicas
  rw [adjustReplicas_fst, hagain, hneeded, hfirst.replicas, sub_self]

/-- no election is started -/
theorem newNodeJoined_elections (s : RoutingNode) : s.newNodeJoined.elections = s.elections := by
  unfold newNodeJoined
  dsimp only
  rw [adjustReplicas_again, if_neg (lt_irrefl _), adjustReplicas_elections, adjustReplicas_elections]
  rfl

/-! ## The result -/

/-- one election for each instance from the `n`-th to the `f`-th was started, and no other one -/
def ElectsFrom (s s' : RoutingNode) (n f : ℕ) : Prop :=
  ∃ l, s'.elections = s.elections ++ l ∧ ∀ i, l.count i = if n ≤ i ∧ i ≤ f then 1 else 0

/-- **Added instances get an election** if and only if there are none. -/
theorem newNodeJoined_elects_iff (s : RoutingNode) (nodeReg : Dict NodeName (String × ℤ)) :
    ElectsFrom s (s.setNodeReg nodeReg).newNodeJoined s.replicas.length (Plenum.setF nodeReg s.name).f ↔
      (Plenum.setF nodeReg s.name).f + 1 ≤ s.replicas.length := by
  have hsame : (s.setNodeReg nodeReg).newNodeJoined.elections = s.elections := newNodeJoined_elections _
  unfold ElectsFrom
  rw [hsame]
  constructor
  · rintro ⟨l, hl, hcount⟩
    have hnil : l = [] := List.append_right_eq_self.1 hl.symm
    have h := hcount s.replicas.length
    rw [hnil, List.count_nil] at h
    by_contra hlt
    rw [if_pos ⟨le_rfl, by omega⟩] at h
    cases h
  · intro h
    refine ⟨[], (List.append_nil _).symm, fun i => ?_⟩
    rw [List.count_nil, if_neg (by omega)]

/-! ## Witness -/

/-- the pool of four becomes one of seven: the third instance gets no election -/
theorem alpha_elects_none : ¬ (∀ (s : RoutingNode) (nodeReg : Dict NodeName (String × ℤ)),
    ElectsFrom s (s.setNodeReg nodeReg).newNodeJoined s.replicas.length (Plenum.setF nodeReg s.name).f) ∧
    alpha.replicas.length = 2 ∧ ((alpha.setNodeReg seven).newNodeJoined).replicas.length = 3 ∧
    ((alpha.setNodeReg seven).newNodeJoined).elections = alpha.elections := by
  refine ⟨fun h => ?_, by decide +kernel, by decide +kernel, by decide +kernel⟩
  obtain ⟨l, hl, hcount⟩ := h alpha seven
  rw [show ((alpha.setNodeReg seven).newNodeJoined).elections = alpha.elections by decide +kernel] at hl
  have hnil : l = [] := List.append_right_eq_self.1 hl.symm
  have h2 := hcount 2
  rw [hnil] at h2
  exact absurd h2 (by decide +kernel)

end RoutingNode

end Plenum
