/-
Whether a quorum rules out a conflicting one.

The code asks for `2f + 1` votes in three places: COMMITs, instance changes and declarations of a primary. `Tally` is
such a count, `Tally.reached_iff` says that it counts the distinct voters. Pools of every size are allowed, with
`f` computed by `setF` from the size.

- `quorumsExcludeConflicts_iff`: two conflicting values can never both collect a quorum exactly if the pool
  and its faulty nodes together are at most `4f + 1`.
- `conflicting_quorums`: in a pool of five nodes one faulty node can vote for two values that both collect a quorum.
-/
import Mathlib.Tactic
import Plenum.Core.Quorum
import Plenum.Server.Models
import Plenum.Server.PrimaryElector

namespace Plenum

open Plenum.Core

/-! ## The size of a pool -/

/-- what `setF` computes from the registry -/
structure PoolSize where
  allNodeNames : Finset NodeName
  totalNodes : ℕ
  f : ℕ
  requiredNumberOfInstances : ℕ
  minimumNodes : ℕ
deriving DecidableEq

/-- `Node.setF`, for the node `name` -/
def setF {α : Type} (nodeReg : Dict NodeName α) (name : NodeName) : PoolSize :=
  let allNodeNames := insert name nodeReg.keys.toFinset
  let totalNodes := allNodeNames.card
  let f := getMaxFailures totalNodes
  { allNodeNames := allNodeNames, totalNodes := totalNodes, f := f, requiredNumberOfInstances := f + 1,
    minimumNodes := 2 * f + 1 }

/-! ## Counting votes -/

/-- a count of votes for one value -/
inductive Tally where
  | commits (c : Commit)
  | instanceChanges (viewNo : ℕ)
  | primaryDeclarations (elector : PrimaryElector) (instId : ℕ) (declared : Candidate)

namespace Tally

/-- whether the votes of the given nodes, in the order of their arrival, reach the quorum of a pool with `f` failures -/
def reached (f : ℕ) (votes : List NodeName) : Tally → Bool
  | commits c =>
    Commits.hasQuorum ((votes.map (generateName · c.instId)).foldl (fun t i => t.addMsg c.key i) Dict.empty) c f
  | instanceChanges viewNo =>
    InstanceChanges.hasQuorum (votes.foldl (fun t i => InstanceChanges.addVote t viewNo i) Dict.empty) viewNo f
  | primaryDeclarations elector instId declared =>
    PrimaryElector.hasPrimaryQuorum
      (votes.foldl (fun s i => s.recordPrimaryDeclaration instId (generateName i instId) declared)
        { elector with f := f, primaryDeclarations := Dict.empty }) instId

theorem generateName_injective (instId : ℕ) : Function.Injective (generateName · instId) := by
  intro i j h
  exact congrArg RepName.node h

/-- votes under the names of replicas are as many as the nodes that cast them -/
theorem card_map_generateName (votes : List NodeName) (instId : ℕ) :
    (votes.map (generateName · instId)).toFinset.card = votes.toFinset.card := by
  have himage : (votes.map (generateName · instId)).toFinset = votes.toFinset.image (generateName · instId) := by
    ext r
    simp
  rw [himage, Finset.card_image_of_injective _ (generateName_injective instId)]

theorem mem_keys_foldl_record (votes : List NodeName) (instId : ℕ) (declared : Candidate) (s : PrimaryElector)
    (r : RepName) :
    r ∈ ((votes.foldl (fun s i => s.recordPrimaryDeclaration instId (generateName i instId) declared)
        s).primaryDeclarationsOf instId).keys ↔
      r ∈ (s.primaryDeclarationsOf instId).keys ∨ r ∈ votes.map (generateName · instId) := by
  induction votes generalizing s with
  | nil => simp
  | cons i votes ih =>
    rw [List.foldl_cons, ih, PrimaryElector.mem_keys_recordPrimaryDeclaration, List.map_cons, List.mem_cons]
    tauto

theorem foldl_record_f (votes : List NodeName) (instId : ℕ) (declared : Candidate) (s : PrimaryElector) :
    (votes.foldl (fun s i => s.recordPrimaryDeclaration instId (generateName i instId) declared) s).f = s.f := by
  induction votes generalizing s with
  | nil => rfl
  | cons i votes ih => rw [List.foldl_cons, ih, PrimaryElector.recordPrimaryDeclaration_f]

/-- **Every tally counts the distinct voters and asks for `2f + 1` of them.** -/
theorem reached_iff (f : ℕ) (votes : List NodeName) (t : Tally) :
    t.reached f votes = true ↔ 2 * f + 1 ≤ votes.toFinset.card := by
  cases t with
  | commits c =>
    unfold reached Commits.hasQuorum
    rw [TrackedMsgs.hasEnoughVotes_iff (by omega), TrackedMsgs.voters_foldl_addMsg]
    simp only [TrackedMsgs.voters, Dict.get?_empty, Option.getD_none, Finset.empty_union, card_map_generateName]
  | instanceChanges viewNo =>
    unfold reached InstanceChanges.hasQuorum InstanceChanges.addVote
    rw [TrackedMsgs.hasEnoughVotes_iff (by omega), TrackedMsgs.voters_foldl_addMsg]
    simp only [TrackedMsgs.voters, Dict.get?_empty, Option.getD_none, Finset.empty_union]
  | primaryDeclarations elector instId declared =>
    have hkeys : ∀ l : List RepName, (∀ r, r ∈ l ↔ r ∈ votes.map (generateName · instId)) →
        l.toFinset.card = votes.toFinset.card := by
      intro l hl
      rw [← card_map_generateName votes instId]
      congr 1
      ext r
      rw [List.mem_toFinset, List.mem_toFinset, hl]
    unfold reached PrimaryElector.hasPrimaryQuorum PrimaryElector.quorum getStrongQuorum
    rw [decide_eq_true_eq, foldl_record_f, Dict.size_eq_card, hkeys]
    intro r
    have hnone : (PrimaryElector.primaryDeclarationsOf
        { elector with f := f, primaryDeclarations := Dict.empty } instId).keys = [] := rfl
    rw [mem_keys_foldl_record, hnone]
    simp

end Tally

/-! ## Conflicting values -/

/-- at most one of the values that the nodes of the pool vote for can reach its quorum, when a node that is not faulty
votes for one value at most -/
def QuorumsExcludeConflicts (p : PoolSize) (faulty : Finset NodeName) : Prop :=
  ∀ (ν : Type) (tally : ν → Tally) (votes : ν → List NodeName), (∀ a, ∀ i ∈ votes a, i ∈ p.allNodeNames) →
    (∀ i, i ∉ faulty → ∀ a b, i ∈ votes a → i ∈ votes b → a = b) →
    ∀ a b, (tally a).reached p.f (votes a) = true → (tally b).reached p.f (votes b) = true → a = b

theorem excludesConflicts_of_quorums {p : PoolSize} {faulty : Finset NodeName} :
    QuorumsExcludeConflicts p faulty ↔ ExcludesConflicts p.allNodeNames faulty (2 * p.f + 1) := by
  constructor
  · intro h ν votes hsub honce a b ha hb
    refine h ν (fun _ => .instanceChanges 0) (fun a => (votes a).toList) ?_ ?_ a b ?_ ?_
    · intro a i hi
      exact hsub a (Finset.mem_toList.1 hi)
    · intro i hi a b hia hib
      exact honce i hi a b (Finset.mem_toList.1 hia) (Finset.mem_toList.1 hib)
    · rw [Tally.reached_iff, Finset.toList_toFinset]
      exact ha
    · rw [Tally.reached_iff, Finset.toList_toFinset]
      exact hb
  · intro h ν tally votes hsub honce a b ha hb
    refine h ν (fun a => (votes a).toFinset) ?_ ?_ a b ((Tally.reached_iff _ _ _).1 ha)
      ((Tally.reached_iff _ _ _).1 hb)
    · intro a i hi
      exact hsub a i (List.mem_toFinset.1 hi)
    · intro i hi a b hia hib
      exact honce i hi a b (List.mem_toFinset.1 hia) (List.mem_toFinset.1 hib)

/-- **When quorums exclude conflicts.** In a pool of at least four nodes with at most `f` faulty ones, they do exactly if
the pool and its faulty nodes together are at most `4f + 1`. -/
theorem quorumsExcludeConflicts_iff {α : Type} (nodeReg : Dict NodeName α) (name : NodeName)
    (hsize : 4 ≤ (setF nodeReg name).totalNodes) {faulty : Finset NodeName}
    (hfaulty : faulty ⊆ (setF nodeReg name).allNodeNames) (hf : faulty.card ≤ (setF nodeReg name).f) :
    QuorumsExcludeConflicts (setF nodeReg name) faulty ↔
      (setF nodeReg name).totalNodes + faulty.card ≤ 4 * (setF nodeReg name).f + 1 := by
  have hroom := getStrongQuorum_getMaxFailures_le hsize
  have htotal : (setF nodeReg name).totalNodes = (setF nodeReg name).allNodeNames.card := rfl
  have hbound : (setF nodeReg name).f = getMaxFailures (setF nodeReg name).totalNodes := rfl
  rw [← hbound, getStrongQuorum] at hroom
  rw [excludesConflicts_of_quorums, excludesConflicts_iff hfaulty (by omega) (by omega), ← htotal]
  omega

/-! ## Witnesses -/

namespace FiveNodes

/-- a registry of five nodes, with one kind of entry for all -/
def nodeReg : Dict NodeName Unit :=
  ["Alpha", "Beta", "Gamma", "Delta", "Epsilon"].foldl (fun d i => d.set i ()) Dict.empty

/-- Gamma votes for both values, the others for one -/
def votes : Bool → List NodeName
  | true => ["Alpha", "Beta", "Gamma"]
  | false => ["Gamma", "Delta", "Epsilon"]

end FiveNodes

open FiveNodes in
theorem quorumsExcludeConflicts_fourNodes :
    (4 ≤ (setF (nodeReg.erase "Epsilon") "Alpha").totalNodes ∧
      {"Delta"} ⊆ (setF (nodeReg.erase "Epsilon") "Alpha").allNodeNames ∧
      Finset.card {"Delta"} ≤ (setF (nodeReg.erase "Epsilon") "Alpha").f) ∧
    (QuorumsExcludeConflicts (setF (nodeReg.erase "Epsilon") "Alpha") {"Delta"} ↔
      (setF (nodeReg.erase "Epsilon") "Alpha").totalNodes + Finset.card {"Delta"} ≤
        4 * (setF (nodeReg.erase "Epsilon") "Alpha").f + 1) :=
  ⟨⟨by decide +kernel, by decide +kernel, by decide +kernel⟩,
    quorumsExcludeConflicts_iff (nodeReg.erase "Epsilon") "Alpha" (by decide +kernel) (by decide +kernel)
      (by decide +kernel)⟩

open FiveNodes in
/-- **Five nodes, one of them faulty: two conflicting values both collect a quorum of COMMITs.** -/
theorem conflicting_quorums :
    4 ≤ (setF nodeReg "Alpha").totalNodes ∧ {"Gamma"} ⊆ (setF nodeReg "Alpha").allNodeNames ∧
      Finset.card {"Gamma"} ≤ (setF nodeReg "Alpha").f ∧
      ¬ QuorumsExcludeConflicts (setF nodeReg "Alpha") {"Gamma"} := by
  refine ⟨by decide +kernel, by decide +kernel, by decide +kernel, fun h => ?_⟩
  have honce : ∀ i, i ∉ ({"Gamma"} : Finset NodeName) → ∀ a b, i ∈ votes a → i ∈ votes b → a = b := by
    intro i hi a b
    cases a <;> cases b <;> simp_all [votes] <;> rintro (rfl | rfl) <;> decide
  have hmember : ∀ a, ∀ i ∈ votes a, i ∈ (setF nodeReg "Alpha").allNodeNames := by decide +kernel
  have hsame := h Bool (fun _ => .commits ⟨0, 0, 1⟩) votes hmember honce true false (by decide +kernel)
    (by decide +kernel)
  cases hsame

end Plenum
