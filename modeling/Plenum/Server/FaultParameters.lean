/-
The numbers that a node derives from its registry, while NODE transactions change the registry.

- `PoolMember`: the pool manager of a node together with what `setF` last computed. `newNodeJoined` and `nodeLeft`
  compute it anew; the handlers are those of `PoolManager` with these two calls (`onPoolMembershipChange_manager`).
- `Recounts`: the transaction makes the node count again. `writtenNames`: the names whose addresses it writes otherwise.
- `followsRegistry_iff`: the numbers follow the registry in those sequences of transactions only in which each one makes
  the node count again, or writes addresses of counted nodes alone (`Counted`).
- `servicesGiven_not_counted`: a node that was added without services and gets them later.
-/
import Mathlib.Tactic
import Plenum.Core.Run
import Plenum.Server.PoolManager
import Plenum.Server.Quorums

namespace Plenum

open Plenum.Core

/-! ## Model -/

/-- the pool manager of a node, and the numbers the node works with -/
structure PoolMember where
  manager : PoolManager
  size : PoolSize

namespace PoolMember

/-- `node.newNodeJoined`, `node.nodeLeft`: what they compute from the registry -/
def setF (m : PoolMember) : PoolMember :=
  { m with size := Plenum.setF m.manager.registry.nodeReg m.manager.name }

def withManager (m : PoolMember) (manager : PoolManager) : PoolMember := { m with manager := manager }

def setAddresses (m : PoolMember) (nodeName : NodeName) (has : Option (HA × HA)) : Option PoolMember :=
  (m.manager.setAddresses nodeName has).map m.withManager

def addNewNodeAndConnect (m : PoolMember) (t : NodeTxn) : Option PoolMember :=
  if t.nodeAlias = m.manager.name then some m else (m.setAddresses t.nodeAlias t.has).map setF

def nodeHaChanged (ledger : List NodeTxn) (m : PoolMember) (t : NodeTxn) : Option PoolMember :=
  (m.manager.nodeHaChanged ledger t).map m.withManager

/-- a node that enters service is not counted -/
def changeServices (m : PoolMember) (nodeName : NodeName) (nodeInfo : NodeInfo) (t : NodeTxn)
    (oldServices newServices : Finset String) : Option PoolMember :=
  if VALIDATOR ∈ newServices \ oldServices then m.setAddresses nodeName (updateNodeTxns nodeInfo t).has
  else if VALIDATOR ∈ oldServices \ newServices then
    ((m.manager.deleteNode nodeName).map m.withManager).map setF
  else some m

def nodeServicesChanged (ledger : List NodeTxn) (m : PoolMember) (t : NodeTxn) : Option PoolMember :=
  let nodeInfo := (getNodeInfoFromLedger ledger t.dest).2
  let oldServices := (nodeInfo.services.getD []).toFinset
  let newServices := (t.services.getD []).toFinset
  match nodeInfo.nodeAlias with
  | none => none
  | some nodeName =>
    if oldServices = newServices then some m
    else if m.manager.name ≠ nodeName then m.changeServices nodeName nodeInfo t oldServices newServices
    else some m

/-- `_updateNode` -/
def updateNode (ledger : List NodeTxn) (m : PoolMember) (t : NodeTxn) : Option PoolMember :=
  (if t.has.isSome then m.nodeHaChanged ledger t else some m).bind fun m =>
    if t.services.isSome then m.nodeServicesChanged ledger t else some m

/-- the ledger has the transaction already -/
def onPoolMembershipChange (ledger : List NodeTxn) (m : PoolMember) (t : NodeTxn) : Option PoolMember :=
  if m.manager.registry.nodeReg.contains t.nodeAlias then m.updateNode ledger t
  else
    let info := getNodeInfoFromLedger ledger t.dest
    if info.1 = 1 then if t.isValidator then m.addNewNodeAndConnect t else some m
    else (m.setAddresses t.nodeAlias info.2.has).bind fun m => m.updateNode ledger t

/-- transactions one after the other, each with the ledger as it is then; `none` if one of them raises -/
def run (m : PoolMember) (txns : List (List NodeTxn × NodeTxn)) : Option PoolMember :=
  txns.foldlM (fun m e => m.onPoolMembershipChange e.1 e.2) m

/-! ## The registry is that of the pool manager -/

variable {m m' : PoolMember} {ledger : List NodeTxn} {t : NodeTxn}

theorem setAddresses_manager (m : PoolMember) (n : NodeName) (has : Option (HA × HA)) :
    (m.setAddresses n has).map manager = m.manager.setAddresses n has := by
  unfold setAddresses
  rw [Option.map_map]
  exact congrFun Option.map_id _

theorem nodeHaChanged_manager (ledger : List NodeTxn) (m : PoolMember) (t : NodeTxn) :
    (m.nodeHaChanged ledger t).map manager = m.manager.nodeHaChanged ledger t := by
  unfold nodeHaChanged
  rw [Option.map_map]
  exact congrFun Option.map_id _

theorem nodeServicesChanged_manager (ledger : List NodeTxn) (m : PoolMember) (t : NodeTxn) :
    (m.nodeServicesChanged ledger t).map manager = m.manager.nodeServicesChanged ledger t := by
  unfold nodeServicesChanged PoolManager.nodeServicesChanged
  dsimp only
  cases (getNodeInfoFromLedger ledger t.dest).2.nodeAlias with
  | none => rfl
  | some nodeName =>
    dsimp only
    split_ifs
    · rfl
    · unfold changeServices PoolManager.changeServices
      split_ifs
      · exact setAddresses_manager _ _ _
      · rw [Option.map_map, Option.map_map]
        exact congrFun Option.map_id _
      · rfl
    · rfl

theorem updateNode_manager (ledger : List NodeTxn) (m : PoolMember) (t : NodeTxn) :
    (m.updateNode ledger t).map manager = m.manager.updateNode ledger t := by
  have hservices (m : PoolMember) : (if t.services.isSome then m.nodeServicesChanged ledger t else some m).map manager =
      if t.services.isSome then m.manager.nodeServicesChanged ledger t else some m.manager := by
    split_ifs
    · exact nodeServicesChanged_manager ledger m t
    · rfl
  have hha : (if t.has.isSome then m.nodeHaChanged ledger t else some m).map manager =
      if t.has.isSome then m.manager.nodeHaChanged ledger t else some m.manager := by
    split_ifs
    · exact nodeHaChanged_manager ledger m t
    · rfl
  unfold updateNode PoolManager.updateNode
  rw [← hha, Option.map_bind, Option.bind_map]
  exact congrArg _ (funext hservices)

/-- **The same registry.** The handler changes the registry as the one of the pool manager does. -/
theorem onPoolMembershipChange_manager (ledger : List NodeTxn) (m : PoolMember) (t : NodeTxn) :
    (m.onPoolMembershipChange ledger t).map manager = m.manager.onPoolMembershipChange ledger t := by
  unfold onPoolMembershipChange PoolManager.onPoolMembershipChange
  dsimp only
  split_ifs
  · exact updateNode_manager ledger m t
  · unfold addNewNodeAndConnect PoolManager.addNewNodeAndConnect
    split_ifs
    · rfl
    · rw [Option.map_map]
      exact setAddresses_manager m _ _
  · rfl
  · rw [← setAddresses_manager, Option.map_bind, Option.bind_map]
    exact congrArg _ (funext fun m => updateNode_manager ledger m t)

/-! ## The names that are counted -/

/-- the names in the registry, with that of the node itself -/
def countedNames (m : PoolMember) : Finset NodeName :=
  insert m.manager.name m.manager.registry.nodeReg.keys.toFinset

/-- **The numbers follow the registry.** -/
structure FollowsRegistry (m : PoolMember) : Prop where
  totalNodes : m.size.totalNodes = m.countedNames.card
  f : m.size.f = getMaxFailures m.size.totalNodes
  requiredNumberOfInstances : m.size.requiredNumberOfInstances = m.size.f + 1

/-- the services of the node of the transaction before it, and those it gives -/
def oldServices (ledger : List NodeTxn) (t : NodeTxn) : Finset String :=
  ((getNodeInfoFromLedger ledger t.dest).2.services.getD []).toFinset

def newServices (t : NodeTxn) : Finset String := (t.services.getD []).toFinset

/-- another node stops validating -/
def LeavesService (ledger : List NodeTxn) (m : PoolMember) (t : NodeTxn) : Prop :=
  t.services.isSome ∧ (getNodeInfoFromLedger ledger t.dest).2.nodeAlias ≠ some m.manager.name ∧
    VALIDATOR ∈ oldServices ledger t \ newServices t

/-- another node starts validating again -/
def EntersService (ledger : List NodeTxn) (m : PoolMember) (t : NodeTxn) : Prop :=
  t.services.isSome ∧ (getNodeInfoFromLedger ledger t.dest).2.nodeAlias ≠ some m.manager.name ∧
    VALIDATOR ∈ newServices t \ oldServices ledger t

/-- whether the first transaction of a node is handled -/
def IsNew (ledger : List NodeTxn) (m : PoolMember) (t : NodeTxn) : Prop :=
  m.manager.registry.nodeReg.contains t.nodeAlias = false ∧ (getNodeInfoFromLedger ledger t.dest).1 = 1

instance (ledger : List NodeTxn) (m : PoolMember) (t : NodeTxn) : Decidable (LeavesService ledger m t) := by
  unfold LeavesService
  infer_instance

instance (ledger : List NodeTxn) (m : PoolMember) (t : NodeTxn) : Decidable (EntersService ledger m t) := by
  unfold EntersService
  infer_instance

instance (ledger : List NodeTxn) (m : PoolMember) (t : NodeTxn) : Decidable (IsNew ledger m t) := by
  unfold IsNew
  infer_instance

/-- the node counts again: a validator is new, or a node stops validating -/
def Recounts (ledger : List NodeTxn) (m : PoolMember) (t : NodeTxn) : Prop :=
  if IsNew ledger m t then t.isValidator = true ∧ t.nodeAlias ≠ m.manager.name else LeavesService ledger m t

/-- the names whose addresses an update writes -/
def updatedNames (ledger : List NodeTxn) (m : PoolMember) (t : NodeTxn) : Finset NodeName :=
  if t.has.isSome ∨ EntersService ledger m t then (getNodeInfoFromLedger ledger t.dest).2.nodeAlias.toFinset else ∅

/-- the names whose addresses the transaction writes without counting -/
def writtenNames (ledger : List NodeTxn) (m : PoolMember) (t : NodeTxn) : Finset NodeName :=
  if IsNew ledger m t then ∅
  else if m.manager.registry.nodeReg.contains t.nodeAlias then updatedNames ledger m t
  else insert t.nodeAlias (updatedNames ledger m t)

/-- **Counted.** The node counts again, or only writes addresses of nodes that it has counted. -/
def Counted (ledger : List NodeTxn) (m : PoolMember) (t : NodeTxn) : Prop :=
  Recounts ledger m t ∨ writtenNames ledger m t ⊆ m.countedNames

instance (ledger : List NodeTxn) (m : PoolMember) (t : NodeTxn) : Decidable (Counted ledger m t) := by
  unfold Counted Recounts
  infer_instance

/-! ## What a transaction does to the names -/

/-- addresses are written, and the numbers stay what they were -/
structure Writes (m m' : PoolMember) (names : Finset NodeName) : Prop where
  name : m'.manager.name = m.manager.name
  size : m'.size = m.size
  names : m'.countedNames = m.countedNames ∪ names

/-- the node has counted its registry -/
structure Recounted (m m' : PoolMember) : Prop where
  name : m'.manager.name = m.manager.name
  size : m'.size = Plenum.setF m'.manager.registry.nodeReg m'.manager.name

theorem Writes.refl (m : PoolMember) : Writes m m ∅ := ⟨rfl, rfl, (Finset.union_empty _).symm⟩

theorem Writes.trans {m m' m'' : PoolMember} {names names' : Finset NodeName} (h : Writes m m' names)
    (h' : Writes m' m'' names') : Writes m m'' (names ∪ names') :=
  ⟨h'.name.trans h.name, h'.size.trans h.size, by rw [h'.names, h.names, Finset.union_assoc]⟩

/-- the node itself is counted already -/
theorem Writes.self (m : PoolMember) : Writes m m {m.manager.name} := by
  refine ⟨rfl, rfl, (Finset.union_eq_left.2 ?_).symm⟩
  rw [Finset.singleton_subset_iff]
  exact Finset.mem_insert_self _ _

theorem setAddresses_writes {n : NodeName} {has : Option (HA × HA)} (h : m.setAddresses n has = some m') :
    Writes m m' {n} := by
  unfold setAddresses PoolManager.setAddresses at h
  cases has with
  | none => cases h
  | some has =>
    cases h
    refine ⟨rfl, rfl, ?_⟩
    ext n'
    simp only [countedNames, withManager, Registry.set, Finset.mem_insert, Finset.mem_union, List.mem_toFinset,
      Dict.mem_keys_set, Finset.mem_singleton]
    tauto

theorem nodeHaChanged_writes (h : m.nodeHaChanged ledger t = some m') :
    Writes m m' (getNodeInfoFromLedger ledger t.dest).2.nodeAlias.toFinset := by
  unfold nodeHaChanged PoolManager.nodeHaChanged at h
  cases halias : (getNodeInfoFromLedger ledger t.dest).2.nodeAlias with
  | none =>
    rw [halias] at h
    cases h
  | some nodeName =>
    rw [halias] at h
    dsimp only at h
    rw [Option.toFinset_some]
    split_ifs at h with hself
    · cases h
      rw [hself]
      exact Writes.self m
    · exact setAddresses_writes h

/-- the services: the node counts if another one leaves, and writes its addresses if it enters -/
theorem nodeServicesChanged_spec (hgiven : t.services.isSome) (h : m.nodeServicesChanged ledger t = some m') :
    (LeavesService ledger m t ∧ Recounted m m') ∨
      (¬ LeavesService ledger m t ∧ Writes m m'
        (if EntersService ledger m t then (getNodeInfoFromLedger ledger t.dest).2.nodeAlias.toFinset else ∅)) := by
  unfold nodeServicesChanged at h
  dsimp only at h
  cases halias : (getNodeInfoFromLedger ledger t.dest).2.nodeAlias with
  | none =>
    rw [halias] at h
    cases h
  | some nodeName =>
    rw [halias] at h
    dsimp only at h
    have hleaves : LeavesService ledger m t ↔
        nodeName ≠ m.manager.name ∧ VALIDATOR ∈ oldServices ledger t \ newServices t := by
      unfold LeavesService
      rw [halias]
      simp [hgiven]
    have henters : EntersService ledger m t ↔
        nodeName ≠ m.manager.name ∧ VALIDATOR ∈ newServices t \ oldServices ledger t := by
      unfold EntersService
      rw [halias]
      simp [hgiven]
    simp only [hleaves, henters]
    change (if oldServices ledger t = newServices t then some m else if m.manager.name ≠ nodeName then
      m.changeServices nodeName _ t (oldServices ledger t) (newServices t) else some m) = some m' at h
    split_ifs at h with hsame hother
    · cases h
      rw [hsame, sdiff_self]
      refine Or.inr ⟨fun h => Finset.notMem_empty _ h.2, ?_⟩
      rw [if_neg fun h => Finset.notMem_empty _ h.2]
      exact Writes.refl m
    · unfold changeServices at h
      split_ifs at h with hin hout
      · have hnot : VALIDATOR ∉ oldServices ledger t \ newServices t := fun hout =>
          (Finset.mem_sdiff.1 hout).2 (Finset.mem_sdiff.1 hin).1
        refine Or.inr ⟨fun h => hnot h.2, ?_⟩
        rw [if_pos ⟨hother.symm, hin⟩, Option.toFinset_some]
        exact setAddresses_writes h
      · refine Or.inl ⟨⟨hother.symm, hout⟩, ?_⟩
        obtain ⟨m₁, hm₁, rfl⟩ := Option.map_eq_some_iff.1 h
        obtain ⟨manager, hmanager, rfl⟩ := Option.map_eq_some_iff.1 hm₁
        unfold PoolManager.deleteNode at hmanager
        split_ifs at hmanager
        cases hmanager
        exact ⟨rfl, rfl⟩
      · cases h
        refine Or.inr ⟨fun h => hout h.2, ?_⟩
        rw [if_neg fun h => hin h.2]
        exact Writes.refl m
    · cases h
      refine Or.inr ⟨fun h => hother h.1.symm, ?_⟩
      rw [if_neg fun h => hother h.1.symm]
      exact Writes.refl m

/-- an update: the node counts if another one leaves, and writes addresses otherwise -/
theorem updateNode_spec (h : m.updateNode ledger t = some m') :
    (LeavesService ledger m t ∧ Recounted m m') ∨
      (¬ LeavesService ledger m t ∧ Writes m m' (updatedNames ledger m t)) := by
  obtain ⟨m₁, hha, hservices⟩ := Option.bind_eq_some_iff.1 h
  have hwrites : Writes m m₁
      (if t.has.isSome then (getNodeInfoFromLedger ledger t.dest).2.nodeAlias.toFinset else ∅) := by
    split_ifs at hha ⊢ with hgiven
    · exact nodeHaChanged_writes hha
    · cases hha
      exact Writes.refl m
  have hleaves : LeavesService ledger m₁ t ↔ LeavesService ledger m t := by
    unfold LeavesService
    rw [hwrites.name]
  have henters : EntersService ledger m₁ t ↔ EntersService ledger m t := by
    unfold EntersService
    rw [hwrites.name]
  -- the names written before and by the services
  have hupdated : updatedNames ledger m t =
      (if t.has.isSome then (getNodeInfoFromLedger ledger t.dest).2.nodeAlias.toFinset else ∅) ∪
        if EntersService ledger m t then (getNodeInfoFromLedger ledger t.dest).2.nodeAlias.toFinset else ∅ := by
    unfold updatedNames
    by_cases hgiven : t.has.isSome = true <;> by_cases he : EntersService ledger m t <;> simp [hgiven, he]
  rw [hupdated]
  by_cases hgiven : t.services.isSome = true
  · rw [if_pos hgiven] at hservices
    rcases nodeServicesChanged_spec hgiven hservices with ⟨hl, hrecounted⟩ | ⟨hl, hwrites'⟩
    · exact Or.inl ⟨hleaves.1 hl, hrecounted.name.trans hwrites.name, hrecounted.size⟩
    · simp only [henters] at hwrites'
      exact Or.inr ⟨fun h => hl (hleaves.2 h), hwrites.trans hwrites'⟩
  · rw [if_neg hgiven] at hservices
    cases hservices
    refine Or.inr ⟨fun h => hgiven h.1, ?_⟩
    rw [if_neg (show ¬ EntersService ledger m t from fun h => hgiven h.1), Finset.union_empty]
    exact hwrites

/-- **One transaction**: the node counts, or writes the addresses of `writtenNames`. -/
theorem onPoolMembershipChange_spec (h : m.onPoolMembershipChange ledger t = some m') :
    (Recounts ledger m t ∧ Recounted m m') ∨
      (¬ Recounts ledger m t ∧ Writes m m' (writtenNames ledger m t)) := by
  unfold onPoolMembershipChange at h
  dsimp only at h
  by_cases hin : m.manager.registry.nodeReg.contains t.nodeAlias = true
  · -- it is in the registry
    rw [if_pos hin] at h
    have hold : ¬ IsNew ledger m t := fun hnew => by
      rw [IsNew, hin] at hnew
      cases hnew.1
    unfold Recounts writtenNames
    rw [if_neg hold, if_neg hold, if_pos hin]
    exact updateNode_spec h
  · rw [if_neg hin] at h
    by_cases hcount : (getNodeInfoFromLedger ledger t.dest).1 = 1
    · -- its first transaction
      have hnew : IsNew ledger m t := ⟨Bool.not_eq_true _ ▸ hin, hcount⟩
      rw [if_pos hcount] at h
      unfold Recounts writtenNames
      rw [if_pos hnew, if_pos hnew]
      unfold addNewNodeAndConnect at h
      split_ifs at h with hvalidator hself
      · cases h
        exact Or.inr ⟨fun h => h.2 hself, Writes.refl m⟩
      · obtain ⟨m₁, hm₁, rfl⟩ := Option.map_eq_some_iff.1 h
        have hwrites := setAddresses_writes hm₁
        exact Or.inl ⟨⟨hvalidator, hself⟩, hwrites.name, rfl⟩
      · cases h
        exact Or.inr ⟨fun h => hvalidator h.1, Writes.refl m⟩
    · -- its last known addresses are entered first
      rw [if_neg hcount] at h
      have hold : ¬ IsNew ledger m t := fun hnew => hcount hnew.2
      obtain ⟨m₁, hset, hupdate⟩ := Option.bind_eq_some_iff.1 h
      have hwrites := setAddresses_writes hset
      have hleaves : LeavesService ledger m₁ t ↔ LeavesService ledger m t := by
        unfold LeavesService
        rw [hwrites.name]
      have henters : EntersService ledger m₁ t ↔ EntersService ledger m t := by
        unfold EntersService
        rw [hwrites.name]
      have hupdated : updatedNames ledger m₁ t = updatedNames ledger m t := by
        unfold updatedNames
        simp only [henters]
      unfold Recounts writtenNames
      rw [if_neg hold, if_neg hold, if_neg hin]
      rcases updateNode_spec hupdate with ⟨hl, hrecounted⟩ | ⟨hl, hwrites'⟩
      · exact Or.inl ⟨hleaves.1 hl, hrecounted.name.trans hwrites.name, hrecounted.size⟩
      · rw [hupdated] at hwrites'
        exact Or.inr ⟨fun h => hl (hleaves.2 h), hwrites.trans hwrites'⟩

/-! ## Following the registry -/

theorem Recounted.followsRegistry (h : Recounted m m') : m'.FollowsRegistry := by
  refine ⟨?_, ?_, ?_⟩
  · rw [h.size]
    rfl
  · rw [h.size]
    rfl
  · rw [h.size]
    rfl

/-- without counting, the numbers are right as long as no new name is written -/
theorem Writes.follows_iff_subset {names : Finset NodeName} (h : Writes m m' names) (hm : m.FollowsRegistry) :
    m'.FollowsRegistry ↔ names ⊆ m.countedNames := by
  constructor
  · intro hm'
    have hcard : (m.countedNames ∪ names).card = m.countedNames.card := by
      rw [← h.names, ← hm'.totalNodes, h.size, hm.totalNodes]
    have hsame := Finset.eq_of_subset_of_card_le Finset.subset_union_left hcard.le
    rw [hsame]
    exact Finset.subset_union_right
  · intro hsub
    have hsame : m'.countedNames = m.countedNames := h.names.trans (Finset.union_eq_left.2 hsub)
    refine ⟨?_, ?_, ?_⟩
    · rw [h.size, hsame, hm.totalNodes]
    · rw [h.size, hm.f]
    · rw [h.size, hm.requiredNumberOfInstances]

/-- one transaction keeps the numbers right exactly if it is counted -/
theorem onPoolMembershipChange_followsRegistry_iff (hm : m.FollowsRegistry)
    (h : m.onPoolMembershipChange ledger t = some m') : m'.FollowsRegistry ↔ Counted ledger m t := by
  rcases onPoolMembershipChange_spec h with ⟨hr, hrecounted⟩ | ⟨hr, hwrites⟩
  · exact iff_of_true hrecounted.followsRegistry (Or.inl hr)
  · rw [hwrites.follows_iff_subset hm]
    exact ⟨Or.inr, fun h => h.resolve_left hr⟩

theorem run_concat (m : PoolMember) (txns : List (List NodeTxn × NodeTxn)) (e : List NodeTxn × NodeTxn) :
    m.run (txns ++ [e]) = (m.run txns).bind fun m => m.onPoolMembershipChange e.1 e.2 := by
  unfold run
  rw [List.foldlM_append]
  simp only [List.foldlM_cons, List.foldlM_nil, bind_pure]
  rfl

/-- **The numbers follow the registry.** From a node that has counted its registry, they do so after each transaction in
those sequences only in which every transaction is counted: the node counts when a new validator is added and when a
node stops validating, and not when a node out of service comes back or changes its addresses. -/
theorem followsRegistry_iff (m : PoolMember) (hm : m.FollowsRegistry) (txns : List (List NodeTxn × NodeTxn)) :
    (∀ before e after, txns = before ++ e :: after → ∀ m', m.run (before ++ [e]) = some m' → m'.FollowsRegistry) ↔
      ∀ before e after, txns = before ++ e :: after → ∀ m₀, m.run before = some m₀ →
        (m₀.onPoolMembershipChange e.1 e.2).isSome → Counted e.1 m₀ e.2 := by
  constructor
  · intro h before e after hsplit m₀ hm₀ hsome
    obtain ⟨m', hm'⟩ := Option.isSome_iff_exists.1 hsome
    have hbefore : m₀.FollowsRegistry := by
      rcases List.eq_nil_or_concat' before with rfl | ⟨before', e', rfl⟩
      · cases hm₀
        exact hm
      · exact h before' e' (e :: after) (by rw [hsplit, List.append_assoc, List.singleton_append]) m₀ hm₀
    refine (onPoolMembershipChange_followsRegistry_iff hbefore hm').1 (h before e after hsplit m' ?_)
    rw [run_concat, hm₀]
    exact hm'
  · intro h
    have hrun : ∀ before after, txns = before ++ after → ∀ m', m.run before = some m' → m'.FollowsRegistry := by
      intro before
      induction before using List.reverseRecOn with
      | nil =>
        intro _ _ m' hm'
        cases hm'
        exact hm
      | append_singleton before e ih =>
        intro after hsplit m' hm'
        have hsplit' : txns = before ++ e :: after := by rw [hsplit, List.append_assoc, List.singleton_append]
        rw [run_concat] at hm'
        obtain ⟨m₀, hm₀, hstep⟩ := Option.bind_eq_some_iff.1 hm'
        refine (onPoolMembershipChange_followsRegistry_iff (ih _ hsplit' m₀ hm₀) hstep).2 ?_
        exact h before e after hsplit' m₀ hm₀ (by rw [hstep]; rfl)
    intro before e after hsplit m' hm'
    exact hrun (before ++ [e]) after (by rw [hsplit, List.append_assoc, List.singleton_append]) m' hm'

/-! ## Witness -/

/-- a node transaction of Epsilon, with addresses if they are asked for -/
def epsilonTxn (addressed : Bool) (services : Option (List String)) : NodeTxn :=
  ⟨"n5", "Epsilon", if addressed then some (("10.0.0.5", 9701), ("10.0.0.5", 9702)) else none, services⟩

/-- the transactions that a pool of four starts with -/
def genesis : List NodeTxn :=
  [("n1", "Alpha"), ("n2", "Beta"), ("n3", "Gamma"), ("n4", "Delta")].map fun n =>
    ⟨n.1, n.2, some ((n.2, 9701), (n.2, 9702)), some [VALIDATOR]⟩

/-- Beta when it starts -/
def beta : PoolMember := setF ⟨⟨"Beta", parseLedgerForHaAndKeys genesis⟩, ⟨∅, 0, 0, 0, 0⟩⟩

theorem beta_followsRegistry : beta.FollowsRegistry := ⟨rfl, rfl, rfl⟩

/-- transactions with the ledger that each one is handled with -/
def withLedgers (ledger : List NodeTxn) (txns : List NodeTxn) : List (List NodeTxn × NodeTxn) :=
  txns.mapIdx fun i t => (ledger ++ txns.take (i + 1), t)

theorem followsRegistry_added : ∃ m', beta.run (withLedgers genesis [epsilonTxn true (some [VALIDATOR])]) = some m' ∧
    m'.FollowsRegistry := by
  obtain ⟨m', hm'⟩ := Option.isSome_iff_exists.1
    (show (beta.run (withLedgers genesis [epsilonTxn true (some [VALIDATOR])])).isSome by decide +kernel)
  refine ⟨m', hm', (followsRegistry_iff beta beta_followsRegistry
    (withLedgers genesis [epsilonTxn true (some [VALIDATOR])])).2 ?_ [] _ [] rfl m' hm'⟩
  refine forall_split_cons.2 ⟨fun m₀ hm₀ _ => ?_, by simp⟩
  cases hm₀
  decide +kernel

/-- Epsilon is added without services and gets them later -/
def servicesGiven : List (List NodeTxn × NodeTxn) :=
  withLedgers genesis [epsilonTxn true none, epsilonTxn false (some [VALIDATOR])]

/-- **A validator that is not counted.** The registry has five nodes then, and Beta works with four. -/
theorem servicesGiven_not_counted : beta.FollowsRegistry ∧
    ¬ ∀ before e after, servicesGiven = before ++ e :: after → ∀ m', beta.run (before ++ [e]) = some m' →
      m'.FollowsRegistry := by
  refine ⟨⟨rfl, rfl, rfl⟩, fun h => ?_⟩
  have hcounts : (beta.run servicesGiven).map (fun m => (m.size.totalNodes, m.countedNames.card)) = some (4, 5) := by
    decide +kernel
  obtain ⟨m', hm', hpair⟩ := Option.map_eq_some_iff.1 hcounts
  have htotal := (h [(genesis ++ [epsilonTxn true none], epsilonTxn true none)] _ [] rfl m' hm').totalNodes
  have hfour := congrArg Prod.fst hpair
  have hfive := congrArg Prod.snd hpair
  dsimp only at hfour hfive
  omega

end PoolMember

end Plenum
