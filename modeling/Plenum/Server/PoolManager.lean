/-
The registry of nodes that a node keeps, against the one that it reads from the pool ledger when it starts.

- `parseLedgerForHaAndKeys` goes through the whole ledger: a node is in the registry if the last services given for it
  include validating, with the last address given.
- `onPoolMembershipChange` changes the registry after each committed transaction.
- `PoolNode`: the pool handler that accepts requests, the committed ledger, and the pool manager. A batch of requests is
  accepted one by one, committed together and then handled one by one.
- `registry_survives`: the two registries agree after every batch, as long as no new node takes an alias that is in use
  and every update of a node out of service puts it into service (`BatchOk`).
- `address_of_inactive`: a node out of service that changes its address comes into the registry.
- In the middle of a batch the ledger has the later transactions of a node already (`Handling`): only the last one of
  them settles what the registry shows.
-/
import Mathlib.Tactic
import Plenum.Server.PoolReqHandler

namespace Plenum

open Plenum.Core

/-! ## Transactions -/

/-- an address: ip and port -/
abbrev HA := String × ℤ

def VALIDATOR : String := "VALIDATOR"

def CLIENT_STACK_SUFFIX : String := "C"

/-- a NODE transaction: the alias, the addresses of the node and of its client side if they are given, and the services
if they are given. Keys of a node are not part of the registry. -/
structure NodeTxn where
  dest : String
  nodeAlias : NodeName
  has : Option (HA × HA)
  services : Option (List String)
deriving DecidableEq

namespace NodeTxn

def isValidator (t : NodeTxn) : Bool := (t.services.getD []).contains VALIDATOR

/-- with the addresses, if there are any -/
def addHas (d : Dict String DataValue) : Option (HA × HA) → Dict String DataValue
  | none => d
  | some (ha, cliHa) => (((d.set NODE_IP (.str ha.1)).set NODE_PORT (.int ha.2)).set CLIENT_IP (.str cliHa.1)).set
      CLIENT_PORT (.int cliHa.2)

def addServices (d : Dict String DataValue) : Option (List String) → Dict String DataValue
  | none => d
  | some services => d.set SERVICES (.strs services)

/-- the `DATA` of the transaction -/
def data (t : NodeTxn) : Dict String DataValue :=
  addServices (addHas (Dict.empty.set ALIAS (.str t.nodeAlias)) t.has) t.services

end NodeTxn

/-! ## Reading the ledger -/

/-- what is known of a node; nothing, before any transaction -/
structure NodeInfo where
  nodeAlias : Option NodeName
  has : Option (HA × HA)
  services : Option (List String)
deriving DecidableEq

def NodeInfo.empty : NodeInfo := ⟨none, none, none⟩

def updateNodeTxns (oldTxn : NodeInfo) (newTxn : NodeTxn) : NodeInfo where
  nodeAlias := some newTxn.nodeAlias
  has := newTxn.has.or oldTxn.has
  services := newTxn.services.or oldTxn.services

/-- the transactions of a node -/
def nodeTxnsOf (nym : String) (ledger : List NodeTxn) : List NodeTxn := ledger.filter fun t => t.dest = nym

/-- how many transactions the node has, and what is known of it without the last one, unless it is the only one -/
def getNodeInfoFromLedger (ledger : List NodeTxn) (nym : String) : ℕ × NodeInfo :=
  let txns := nodeTxnsOf nym ledger
  (txns.length, (if 1 < txns.length then txns.dropLast else txns).foldl updateNodeTxns NodeInfo.empty)

def clientStackName (nodeName : NodeName) : String := nodeName ++ CLIENT_STACK_SUFFIX

/-- the registries of the nodes and of their client sides -/
structure Registry where
  nodeReg : Dict NodeName HA
  cliNodeReg : Dict String HA

namespace Registry

def set (r : Registry) (nodeName : NodeName) (has : HA × HA) : Registry where
  nodeReg := r.nodeReg.set nodeName has.1
  cliNodeReg := r.cliNodeReg.set (clientStackName nodeName) has.2

def erase (r : Registry) (nodeName : NodeName) : Registry where
  nodeReg := r.nodeReg.erase nodeName
  cliNodeReg := r.cliNodeReg.erase (clientStackName nodeName)

/-- both addresses of a node -/
def get? (r : Registry) (nodeName : NodeName) : Option HA × Option HA :=
  (r.nodeReg.get? nodeName, r.cliNodeReg.get? (clientStackName nodeName))

end Registry

/-- one transaction of the ledger -/
def parseTxn (acc : Registry × Finset NodeName) (t : NodeTxn) : Registry × Finset NodeName :=
  (match t.has with
    | some has => acc.1.set t.nodeAlias has
    | none => acc.1,
   match t.services with
    | some services => if services.contains VALIDATOR then insert t.nodeAlias acc.2 else acc.2.erase t.nodeAlias
    | none => acc.2)

/-- the registry of the nodes that are in service -/
def parseLedgerForHaAndKeys (ledger : List NodeTxn) : Registry :=
  let parsed := ledger.foldl parseTxn (⟨Dict.empty, Dict.empty⟩, ∅)
  parsed.1.nodeReg.keys.foldl (fun r nodeName => if nodeName ∉ parsed.2 then r.erase nodeName else r) parsed.1

/-! ## Handling a transaction -/

/-- the manager of a node of the given name; a method that raises a `KeyError` has no result -/
structure PoolManager where
  name : NodeName
  registry : Registry

namespace PoolManager

/-- `connectNewRemote`, `stackHaChanged`: the addresses have to be there -/
def setAddresses (m : PoolManager) (nodeName : NodeName) : Option (HA × HA) → Option PoolManager
  | some has => some { m with registry := m.registry.set nodeName has }
  | none => none

def addNewNodeAndConnect (m : PoolManager) (t : NodeTxn) : Option PoolManager :=
  if t.nodeAlias = m.name then some m else m.setAddresses t.nodeAlias t.has

def nodeHaChanged (ledger : List NodeTxn) (m : PoolManager) (t : NodeTxn) : Option PoolManager :=
  match (getNodeInfoFromLedger ledger t.dest).2.nodeAlias with
  | none => none
  | some nodeName => if nodeName = m.name then some m else m.setAddresses nodeName t.has

/-- `del nodeReg[nodeName]`, `del cliNodeReg[...]` -/
def deleteNode (m : PoolManager) (nodeName : NodeName) : Option PoolManager :=
  if m.registry.nodeReg.contains nodeName ∧ m.registry.cliNodeReg.contains (clientStackName nodeName) then
    some { m with registry := m.registry.erase nodeName }
  else none

/-- a node that enters or leaves service -/
def changeServices (m : PoolManager) (nodeName : NodeName) (nodeInfo : NodeInfo) (t : NodeTxn)
    (oldServices newServices : Finset String) : Option PoolManager :=
  if VALIDATOR ∈ newServices \ oldServices then m.setAddresses nodeName (updateNodeTxns nodeInfo t).has
  else if VALIDATOR ∈ oldServices \ newServices then m.deleteNode nodeName
  else some m

def nodeServicesChanged (ledger : List NodeTxn) (m : PoolManager) (t : NodeTxn) : Option PoolManager :=
  let nodeInfo := (getNodeInfoFromLedger ledger t.dest).2
  let oldServices := (nodeInfo.services.getD []).toFinset
  let newServices := (t.services.getD []).toFinset
  match nodeInfo.nodeAlias with
  | none => none
  | some nodeName =>
    if oldServices = newServices then some m
    else if m.name ≠ nodeName then m.changeServices nodeName nodeInfo t oldServices newServices
    else some m

/-- `_updateNode` -/
def updateNode (ledger : List NodeTxn) (m : PoolManager) (t : NodeTxn) : Option PoolManager :=
  (if t.has.isSome then m.nodeHaChanged ledger t else some m).bind fun m =>
    if t.services.isSome then m.nodeServicesChanged ledger t else some m

/-- the ledger has the transaction already -/
def onPoolMembershipChange (ledger : List NodeTxn) (m : PoolManager) (t : NodeTxn) : Option PoolManager :=
  if m.registry.nodeReg.contains t.nodeAlias then m.updateNode ledger t
  else
    let info := getNodeInfoFromLedger ledger t.dest
    if info.1 = 1 then if t.isValidator then m.addNewNodeAndConnect t else some m
    else (m.setAddresses t.nodeAlias info.2.has).bind fun m => m.updateNode ledger t

end PoolManager

/-! ## What the registries show -/

theorem clientStackName_injective {n n' : NodeName} (h : clientStackName n = clientStackName n') : n = n' := by
  have hlist := congrArg String.toList h
  unfold clientStackName at hlist
  rw [String.toList_append, String.toList_append] at hlist
  exact String.toList_inj.1 (List.append_cancel_right hlist)

namespace Registry

variable {r : Registry} {n n' : NodeName}

/-- the entries of a node: both addresses, or none -/
def Shows (r : Registry) (nodeName : NodeName) (v : Option (HA × HA)) : Prop :=
  r.get? nodeName = (v.map Prod.fst, v.map Prod.snd)

theorem shows_set (r : Registry) (n : NodeName) (has : HA × HA) : (r.set n has).Shows n (some has) :=
  Prod.ext (Dict.get?_set_self _ _ _) (Dict.get?_set_self _ _ _)

theorem get?_set_ne (r : Registry) (has : HA × HA) (h : n' ≠ n) : (r.set n has).get? n' = r.get? n' :=
  Prod.ext (Dict.get?_set_ne _ _ h) (Dict.get?_set_ne _ _ fun he => h (clientStackName_injective he))

theorem shows_erase (r : Registry) (n : NodeName) : (r.erase n).Shows n none :=
  Prod.ext ((Dict.get?_erase _ _ _).trans (if_pos rfl)) ((Dict.get?_erase _ _ _).trans (if_pos rfl))

theorem get?_erase_ne (r : Registry) (h : n' ≠ n) : (r.erase n).get? n' = r.get? n' :=
  Prod.ext ((Dict.get?_erase _ _ _).trans (if_neg h))
    ((Dict.get?_erase _ _ _).trans (if_neg fun he => h (clientStackName_injective he)))

theorem Shows.nodeReg {v : Option (HA × HA)} (h : r.Shows n v) : r.nodeReg.get? n = v.map Prod.fst :=
  congrArg Prod.fst h

theorem Shows.cliNodeReg {v : Option (HA × HA)} (h : r.Shows n v) :
    r.cliNodeReg.get? (clientStackName n) = v.map Prod.snd := congrArg Prod.snd h

theorem Shows.contains_iff {v : Option (HA × HA)} (h : r.Shows n v) : r.nodeReg.contains n = true ↔ v.isSome := by
  unfold Dict.contains
  rw [h.nodeReg, Option.isSome_map]

end Registry

theorem lastGiven_append_isSome {ρ α : Type} {field : ρ → Option α} {txns : List ρ} (h : (lastGiven field txns).isSome)
    (more : List ρ) : (lastGiven field (txns ++ more)).isSome := by
  induction more using List.reverseRecOn with
  | nil => rwa [List.append_nil]
  | append_singleton more t ih =>
    rw [← List.append_assoc, lastGiven_concat]
    simp [ih]

/-- whether the last services given include validating -/
def inService (txns : List NodeTxn) : Bool := ((lastGiven NodeTxn.services txns).getD []).contains VALIDATOR

/-- what the registry of a node with these transactions shows -/
def shown (txns : List NodeTxn) : Option (HA × HA) := if inService txns then lastGiven NodeTxn.has txns else none

theorem inService_concat (txns : List NodeTxn) (t : NodeTxn) :
    inService (txns ++ [t]) = if t.services.isSome then t.isValidator else inService txns := by
  unfold inService NodeTxn.isValidator
  rw [lastGiven_concat]
  cases t.services <;> rfl

/-! ## What is read from the ledger -/

theorem filter_concat {α : Type} (p : α → Bool) (l : List α) (a : α) :
    (l ++ [a]).filter p = if p a then l.filter p ++ [a] else l.filter p := by
  rw [List.filter_append]
  by_cases h : p a = true
  · rw [List.filter_cons_of_pos h, if_pos h, List.filter_nil]
  · rw [List.filter_cons_of_neg h, if_neg h, List.filter_nil, List.append_nil]

/-- the transactions with an alias -/
def txnsNamed (nodeName : NodeName) (ledger : List NodeTxn) : List NodeTxn :=
  ledger.filter fun t => t.nodeAlias = nodeName

/-- a transaction of the node -/
theorem parseTxn_own {acc : Registry × Finset NodeName} {t : NodeTxn} {txns : List NodeTxn}
    (hshows : acc.1.Shows t.nodeAlias (lastGiven NodeTxn.has txns))
    (hservice : t.nodeAlias ∈ acc.2 ↔ inService txns = true) :
    (parseTxn acc t).1.Shows t.nodeAlias (lastGiven NodeTxn.has (txns ++ [t])) ∧
      (t.nodeAlias ∈ (parseTxn acc t).2 ↔ inService (txns ++ [t]) = true) := by
  rw [lastGiven_concat, inService_concat]
  unfold parseTxn NodeTxn.isValidator
  constructor
  · cases t.has with
    | none => exact hshows
    | some has => exact Registry.shows_set _ _ _
  · cases t.services with
    | none => exact hservice
    | some services =>
      by_cases hv : VALIDATOR ∈ services
      · simp [hv]
      · simp [hv]

/-- a transaction of another node -/
theorem parseTxn_other (acc : Registry × Finset NodeName) {t : NodeTxn} {n : NodeName} (hn : n ≠ t.nodeAlias) :
    (parseTxn acc t).1.get? n = acc.1.get? n ∧ (n ∈ (parseTxn acc t).2 ↔ n ∈ acc.2) := by
  unfold parseTxn
  constructor
  · cases t.has with
    | none => rfl
    | some has => exact Registry.get?_set_ne _ has hn
  · cases t.services with
    | none => rfl
    | some services =>
      by_cases hv : VALIDATOR ∈ services
      · simp [hv, hn]
      · simp [hv, hn]

/-- before the nodes out of service are left out -/
theorem parse_all (ledger : List NodeTxn) (n : NodeName) :
    (ledger.foldl parseTxn (⟨Dict.empty, Dict.empty⟩, ∅)).1.Shows n (lastGiven NodeTxn.has (txnsNamed n ledger)) ∧
      (n ∈ (ledger.foldl parseTxn (⟨Dict.empty, Dict.empty⟩, ∅)).2 ↔ inService (txnsNamed n ledger) = true) := by
  induction ledger using List.reverseRecOn with
  | nil => exact ⟨rfl, by simp [txnsNamed, inService, lastGiven]⟩
  | append_singleton ledger t ih =>
    obtain ⟨hshows, hservice⟩ := ih
    rw [List.foldl_append, List.foldl_cons, List.foldl_nil]
    by_cases hn : t.nodeAlias = n
    · subst hn
      have hnamed : txnsNamed t.nodeAlias (ledger ++ [t]) = txnsNamed t.nodeAlias ledger ++ [t] :=
        (filter_concat _ _ _).trans (if_pos (by simp))
      rw [hnamed]
      exact parseTxn_own hshows hservice
    · have hnamed : txnsNamed n (ledger ++ [t]) = txnsNamed n ledger :=
        (filter_concat _ _ _).trans (if_neg (by simpa using hn))
      obtain ⟨hget, hmem⟩ := parseTxn_other (ledger.foldl parseTxn (⟨Dict.empty, Dict.empty⟩, ∅)) (Ne.symm hn)
      rw [hnamed]
      exact ⟨hget.trans hshows, hmem.trans hservice⟩

/-- leaving out one node if it is not in service -/
theorem get?_popOne (active : Finset NodeName) (n nodeName : NodeName) (r : Registry) :
    (if nodeName ∉ active then r.erase nodeName else r).get? n =
      if n = nodeName ∧ n ∉ active then (none, none) else r.get? n := by
  by_cases hactive : nodeName ∈ active
  · rw [if_neg (not_not.2 hactive), if_neg]
    rintro ⟨rfl, h⟩
    exact h hactive
  · rw [if_pos hactive]
    by_cases hn : n = nodeName
    · subst hn
      rw [if_pos ⟨rfl, hactive⟩]
      exact Registry.shows_erase _ _
    · rw [if_neg fun h => hn h.1]
      exact Registry.get?_erase_ne _ hn

theorem get?_popInactive (active : Finset NodeName) (n : NodeName) (names : List NodeName) (r : Registry) :
    (names.foldl (fun r nodeName => if nodeName ∉ active then r.erase nodeName else r) r).get? n =
      if n ∈ names ∧ n ∉ active then (none, none) else r.get? n := by
  induction names generalizing r with
  | nil => simp
  | cons name names ih =>
    rw [List.foldl_cons, ih, get?_popOne]
    split_ifs <;> grind

/-- **What a restart reads.** The last address of a node in service. -/
theorem parse_shows (ledger : List NodeTxn) (n : NodeName) :
    (parseLedgerForHaAndKeys ledger).Shows n (shown (txnsNamed n ledger)) := by
  obtain ⟨hshows, hservice⟩ := parse_all ledger n
  unfold parseLedgerForHaAndKeys Registry.Shows shown
  dsimp only
  rw [get?_popInactive]
  by_cases hactive : inService (txnsNamed n ledger) = true
  · rw [if_neg fun h => h.2 (hservice.2 hactive), if_pos hactive]
    exact hshows
  · rw [if_neg hactive]
    by_cases hmem : n ∈ (ledger.foldl parseTxn (⟨Dict.empty, Dict.empty⟩, ∅)).1.nodeReg.keys
    · rw [if_pos ⟨hmem, fun h => hactive (hservice.1 h)⟩]
      rfl
    · rw [if_neg fun h => hmem h.1]
      have hnone := hshows.nodeReg.symm.trans (Dict.get?_eq_none.2 hmem)
      rw [Option.map_eq_none_iff] at hnone
      rw [hnone] at hshows
      exact hshows

theorem foldl_updateNodeTxns (txns : List NodeTxn) : txns.foldl updateNodeTxns NodeInfo.empty =
    ⟨txns.getLast?.map NodeTxn.nodeAlias, lastGiven NodeTxn.has txns, lastGiven NodeTxn.services txns⟩ := by
  induction txns using List.reverseRecOn with
  | nil => rfl
  | append_singleton txns t ih =>
    rw [List.foldl_append, ih, lastGiven_concat, lastGiven_concat, List.getLast?_concat]
    rfl

/-- what is known of a node that has had transactions before the last one -/
theorem getNodeInfoFromLedger_of_update {ledger txns : List NodeTxn} {last : NodeTxn} {nym : String} {n : NodeName}
    (h : nodeTxnsOf nym ledger = txns ++ [last]) (hne : txns ≠ []) (hsame : ∀ p ∈ txns, p.nodeAlias = n) :
    getNodeInfoFromLedger ledger nym =
      (txns.length + 1, ⟨some n, lastGiven NodeTxn.has txns, lastGiven NodeTxn.services txns⟩) := by
  have hlen : 0 < txns.length := List.length_pos_of_ne_nil hne
  have hlast : txns.getLast?.map NodeTxn.nodeAlias = some n := by
    rw [List.getLast?_eq_some_getLast hne, Option.map_some, hsame _ (List.getLast_mem hne)]
  unfold getNodeInfoFromLedger
  dsimp only
  rw [h, List.length_append, if_pos (by simpa using hlen), List.dropLast_concat, foldl_updateNodeTxns, hlast]
  rfl

/-! ## One transaction -/

/-- the entries of other nodes are left alone -/
structure Handled (m m' : PoolManager) (n : NodeName) : Prop where
  name : m'.name = m.name
  others : ∀ n', n' ≠ n → m'.registry.get? n' = m.registry.get? n'

theorem Handled.refl (m : PoolManager) (n : NodeName) : Handled m m n := ⟨rfl, fun _ _ => rfl⟩

theorem Handled.trans {m m' m'' : PoolManager} {n : NodeName} (h : Handled m m' n) (h' : Handled m' m'' n) :
    Handled m m'' n :=
  ⟨h'.name.trans h.name, fun n' hn => (h'.others n' hn).trans (h.others n' hn)⟩

section Handling

variable {ledger txns : List NodeTxn} {t : NodeTxn} {m : PoolManager} {k : ℕ}

theorem setAddresses_spec (m : PoolManager) (n : NodeName) (has : HA × HA) :
    ∃ m', m.setAddresses n (some has) = some m' ∧ Handled m m' n ∧ m'.registry.Shows n (some has) :=
  ⟨_, rfl, ⟨rfl, fun _ hn => Registry.get?_set_ne _ has hn⟩, Registry.shows_set _ _ _⟩

theorem deleteNode_spec {n : NodeName} {has : HA × HA} (hshows : m.registry.Shows n (some has)) :
    ∃ m', m.deleteNode n = some m' ∧ Handled m m' n ∧ m'.registry.Shows n none := by
  have hcli : m.registry.cliNodeReg.contains (clientStackName n) = true := by
    unfold Dict.contains
    rw [hshows.cliNodeReg]
    rfl
  refine ⟨_, if_pos ⟨hshows.contains_iff.2 rfl, hcli⟩, ⟨rfl, fun _ hn => Registry.get?_erase_ne _ hn⟩, ?_⟩
  exact Registry.shows_erase _ _

/-- the addresses of an update, if it gives any -/
theorem haPart_spec
    (hinfo : getNodeInfoFromLedger ledger t.dest =
      (k, ⟨some t.nodeAlias, lastGiven NodeTxn.has txns, lastGiven NodeTxn.services txns⟩))
    (hname : t.nodeAlias ≠ m.name) (hshows : m.registry.Shows t.nodeAlias (lastGiven NodeTxn.has txns)) :
    ∃ m', (if t.has.isSome then m.nodeHaChanged ledger t else some m) = some m' ∧ Handled m m' t.nodeAlias ∧
      m'.registry.Shows t.nodeAlias (lastGiven NodeTxn.has (txns ++ [t])) := by
  rw [lastGiven_concat]
  unfold PoolManager.nodeHaChanged
  rw [hinfo]
  cases hhas : t.has with
  | none => exact ⟨m, rfl, Handled.refl _ _, hshows⟩
  | some has =>
    simp only [Option.isSome_some, if_true, if_neg hname]
    exact setAddresses_spec m t.nodeAlias has

/-- its services, if it gives any: the node is in service afterwards, or leaves it -/
theorem servicesPart_spec
    (hinfo : getNodeInfoFromLedger ledger t.dest =
      (k, ⟨some t.nodeAlias, lastGiven NodeTxn.has txns, lastGiven NodeTxn.services txns⟩))
    (hname : t.nodeAlias ≠ m.name) (hhas : (lastGiven NodeTxn.has (txns ++ [t])).isSome)
    (hshows : m.registry.Shows t.nodeAlias (lastGiven NodeTxn.has (txns ++ [t])))
    (hservice : inService txns = true ∨ t.isValidator = true) :
    ∃ m', (if t.services.isSome then m.nodeServicesChanged ledger t else some m) = some m' ∧
      Handled m m' t.nodeAlias ∧ m'.registry.Shows t.nodeAlias (shown (txns ++ [t])) := by
  obtain ⟨has, hsome⟩ := Option.isSome_iff_exists.1 hhas
  have hold : inService txns = true ↔ VALIDATOR ∈ ((lastGiven NodeTxn.services txns).getD []).toFinset := by
    simp [inService]
  -- nothing changes, and the node is in service
  have hsame : inService (txns ++ [t]) = true → m.registry.Shows t.nodeAlias (shown (txns ++ [t])) := by
    intro h
    rw [shown, if_pos h]
    exact hshows
  unfold PoolManager.nodeServicesChanged
  rw [hinfo]
  cases hs : t.services with
  | none =>
    have hnot : t.isValidator = false := by simp [NodeTxn.isValidator, hs]
    refine ⟨m, rfl, Handled.refl _ _, hsame ?_⟩
    rw [inService_concat, hs]
    simpa [hnot] using hservice
  | some services =>
    have hnew : inService (txns ++ [t]) = true ↔ VALIDATOR ∈ services.toFinset := by
      rw [inService_concat, hs]
      simp [NodeTxn.isValidator, hs]
    have hvalidator : t.isValidator = true ↔ VALIDATOR ∈ services.toFinset := by
      simp [NodeTxn.isValidator, hs]
    simp only [Option.isSome_some, if_true, Option.getD_some]
    split_ifs with heq hself
    · refine ⟨m, rfl, Handled.refl _ _, hsame (hnew.2 ?_)⟩
      rcases hservice with h | h
      · exact heq ▸ hold.1 h
      · exact hvalidator.1 h
    · unfold PoolManager.changeServices
      split_ifs with henters hleaves
      · -- it enters service with what is known of it
        have hmerged : (updateNodeTxns ⟨some t.nodeAlias, lastGiven NodeTxn.has txns, lastGiven NodeTxn.services txns⟩
            t).has = some has := by
          rw [← hsome, lastGiven_concat]
          rfl
        rw [hmerged, shown, if_pos (hnew.2 (Finset.mem_sdiff.1 henters).1), hsome]
        exact setAddresses_spec m t.nodeAlias has
      · have hout : ¬ inService (txns ++ [t]) = true := fun h => (Finset.mem_sdiff.1 hleaves).2 (hnew.1 h)
        rw [shown, if_neg hout]
        exact deleteNode_spec (hsome ▸ hshows)
      · refine ⟨m, rfl, Handled.refl _ _, hsame (hnew.2 ?_)⟩
        rcases hservice with h | h
        · by_contra hnot
          exact hleaves (Finset.mem_sdiff.2 ⟨hold.1 h, hnot⟩)
        · exact hvalidator.1 h
    · exact absurd (not_not.1 hself) (Ne.symm hname)

/-- **An update** of a node that is in service, or comes into service by it. -/
theorem updateNode_spec
    (hinfo : getNodeInfoFromLedger ledger t.dest =
      (k, ⟨some t.nodeAlias, lastGiven NodeTxn.has txns, lastGiven NodeTxn.services txns⟩))
    (hname : t.nodeAlias ≠ m.name) (hhas : (lastGiven NodeTxn.has txns).isSome)
    (hshows : m.registry.Shows t.nodeAlias (lastGiven NodeTxn.has txns))
    (hservice : inService txns = true ∨ t.isValidator = true) :
    ∃ m', m.updateNode ledger t = some m' ∧ Handled m m' t.nodeAlias ∧
      m'.registry.Shows t.nodeAlias (shown (txns ++ [t])) := by
  obtain ⟨m₁, h₁, hhandled₁, hshows₁⟩ := haPart_spec hinfo hname hshows
  have hhas' : (lastGiven NodeTxn.has (txns ++ [t])).isSome := by
    rw [lastGiven_concat]
    simp [hhas]
  obtain ⟨m₂, h₂, hhandled₂, hshows₂⟩ := servicesPart_spec hinfo (hhandled₁.name ▸ hname) hhas' hshows₁ hservice
  refine ⟨m₂, ?_, hhandled₁.trans hhandled₂, hshows₂⟩
  unfold PoolManager.updateNode
  rw [h₁]
  exact h₂

/-- **The last transaction of a node**, when its earlier ones are `txns`. The registry may still show the node although
it is out of service. -/
theorem onPoolMembershipChange_last (hledger : nodeTxnsOf t.dest ledger = txns ++ [t])
    (hsame : ∀ p ∈ txns, p.nodeAlias = t.nodeAlias) (hname : t.nodeAlias ≠ m.name)
    (hold : txns ≠ [] → (lastGiven NodeTxn.has txns).isSome) (hnew : txns = [] → t.has.isSome)
    (hshows : m.registry.Shows t.nodeAlias none ∨ m.registry.Shows t.nodeAlias (lastGiven NodeTxn.has txns))
    (hservice : txns ≠ [] → inService txns = true ∨ t.isValidator = true) :
    ∃ m', m.onPoolMembershipChange ledger t = some m' ∧ Handled m m' t.nodeAlias ∧
      m'.registry.Shows t.nodeAlias (shown (txns ++ [t])) := by
  unfold PoolManager.onPoolMembershipChange
  by_cases hne : txns = []
  · -- a new node
    subst hne
    obtain ⟨has, hhas⟩ := Option.isSome_iff_exists.1 (hnew rfl)
    have hnone : m.registry.Shows t.nodeAlias none := hshows.elim id id
    have hout : ¬ m.registry.nodeReg.contains t.nodeAlias = true := by
      rw [hnone.contains_iff]
      simp
    have hcount : (getNodeInfoFromLedger ledger t.dest).1 = 1 := by
      unfold getNodeInfoFromLedger
      rw [hledger]
      rfl
    have hlast : lastGiven NodeTxn.has ([] ++ [t]) = some has := by
      rw [lastGiven_concat, hhas]
      rfl
    have hin : inService ([] ++ [t]) = t.isValidator := by
      rw [inService_concat]
      unfold NodeTxn.isValidator
      cases t.services <;> simp [inService, lastGiven]
    rw [if_neg hout]
    dsimp only
    rw [if_pos hcount, shown, hin]
    split_ifs with hvalidator
    · unfold PoolManager.addNewNodeAndConnect
      rw [if_neg hname, hhas, hlast]
      exact setAddresses_spec m t.nodeAlias has
    · exact ⟨m, rfl, Handled.refl _ _, hnone⟩
  · have hinfo := getNodeInfoFromLedger_of_update hledger hne hsame
    obtain ⟨has, hhas⟩ := Option.isSome_iff_exists.1 (hold hne)
    rcases hshows with hnone | hshows
    · -- its last known addresses are entered first
      have hout : ¬ m.registry.nodeReg.contains t.nodeAlias = true := by
        rw [hnone.contains_iff]
        simp
      have hcount : txns.length + 1 ≠ 1 := fun h => hne (List.length_eq_zero_iff.1 (Nat.succ_injective h))
      rw [if_neg hout, hinfo]
      dsimp only
      rw [if_neg hcount, hhas]
      obtain ⟨m₁, h₁, hhandled₁, hshows₁⟩ := setAddresses_spec m t.nodeAlias has
      rw [h₁]
      obtain ⟨m₂, h₂, hhandled₂, hshows₂⟩ := updateNode_spec hinfo (hhandled₁.name ▸ hname) (hold hne)
        (hhas ▸ hshows₁) (hservice hne)
      exact ⟨m₂, h₂, hhandled₁.trans hhandled₂, hshows₂⟩
    · rw [if_pos (hshows.contains_iff.2 (hold hne))]
      exact updateNode_spec hinfo hname (hold hne) hshows (hservice hne)

/-- what the registry may show of a node in the middle of a batch: nothing, the address given last so far, or the one
known from the ledger -/
def Near (m : PoolManager) (n : NodeName) (soFar known : Option (HA × HA)) : Prop :=
  m.registry.Shows n none ∨ m.registry.Shows n soFar ∨ m.registry.Shows n known

/-- **An earlier transaction of a node**, which has later ones in the same batch: they are in the ledger already. -/
theorem onPoolMembershipChange_early {has : HA × HA} {services : Option (List String)} {soFar : Option (HA × HA)}
    (hinfo : getNodeInfoFromLedger ledger t.dest = (k, ⟨some t.nodeAlias, some has, services⟩)) (hk : k ≠ 1)
    (hname : t.nodeAlias ≠ m.name) (hnear : Near m t.nodeAlias soFar (some has)) :
    ∃ m', m.onPoolMembershipChange ledger t = some m' ∧ Handled m m' t.nodeAlias ∧
      Near m' t.nodeAlias (t.has.or soFar) (some has) := by
  -- the node is in the registry when it is updated
  obtain ⟨m₁, hname₁, hchange, hhandled₁, ⟨v, hv⟩, hnear₁⟩ : ∃ m₁, t.nodeAlias ≠ PoolManager.name m₁ ∧
      m.onPoolMembershipChange ledger t = m₁.updateNode ledger t ∧ Handled m m₁ t.nodeAlias ∧
      (∃ v, m₁.registry.Shows t.nodeAlias (some v)) ∧
      (m₁.registry.Shows t.nodeAlias soFar ∨ m₁.registry.Shows t.nodeAlias (some has)) := by
    unfold PoolManager.onPoolMembershipChange
    by_cases hin : m.registry.nodeReg.contains t.nodeAlias = true
    · rw [if_pos hin]
      rcases hnear with hnone | hnear
      · rw [hnone.contains_iff] at hin
        cases hin
      · refine ⟨m, hname, rfl, Handled.refl _ _, ?_, hnear⟩
        rcases hnear with h | h
        · obtain ⟨v, rfl⟩ := Option.isSome_iff_exists.1 (h.contains_iff.1 hin)
          exact ⟨v, h⟩
        · exact ⟨has, h⟩
    · obtain ⟨m₁, h₁, hhandled₁, hshows₁⟩ := setAddresses_spec m t.nodeAlias has
      rw [if_neg hin, hinfo]
      dsimp only
      rw [if_neg hk, h₁]
      exact ⟨m₁, hhandled₁.name ▸ hname, rfl, hhandled₁, ⟨has, hshows₁⟩, Or.inr hshows₁⟩
  -- its addresses
  obtain ⟨m₂, hha, hhandled₂, ⟨w, hw⟩, hnear₂⟩ : ∃ m₂,
      (if t.has.isSome then m₁.nodeHaChanged ledger t else some m₁) = some m₂ ∧ Handled m₁ m₂ t.nodeAlias ∧
      (∃ w, m₂.registry.Shows t.nodeAlias (some w)) ∧
      (m₂.registry.Shows t.nodeAlias (t.has.or soFar) ∨ t.has = none ∧ m₂.registry.Shows t.nodeAlias (some has)) := by
    unfold PoolManager.nodeHaChanged
    rw [hinfo]
    cases hhas : t.has with
    | none => exact ⟨m₁, rfl, Handled.refl _ _, ⟨v, hv⟩, hnear₁.imp id fun h => ⟨rfl, h⟩⟩
    | some has' =>
      simp only [Option.isSome_some, if_true, if_neg hname₁]
      obtain ⟨m₂, h₂, hhandled₂, hshows₂⟩ := setAddresses_spec m₁ t.nodeAlias has'
      exact ⟨m₂, h₂, hhandled₂, ⟨has', hshows₂⟩, Or.inl hshows₂⟩
  have hname₂ : t.nodeAlias ≠ m₂.name := hhandled₂.name ▸ hname₁
  have hnear₂' : Near m₂ t.nodeAlias (t.has.or soFar) (some has) := Or.inr (hnear₂.imp id fun h => h.2)
  -- its services
  obtain ⟨m₃, hservices, hhandled₃, hnear₃⟩ : ∃ m₃,
      (if t.services.isSome then m₂.nodeServicesChanged ledger t else some m₂) = some m₃ ∧
      Handled m₂ m₃ t.nodeAlias ∧ Near m₃ t.nodeAlias (t.has.or soFar) (some has) := by
    unfold PoolManager.nodeServicesChanged PoolManager.changeServices
    rw [hinfo]
    dsimp only
    split_ifs with hgiven heq hself henters hleaves
    · exact ⟨m₂, rfl, Handled.refl _ _, hnear₂'⟩
    · cases hhas : t.has with
      | none =>
        obtain ⟨m₃, h₃, hhandled₃, hshows₃⟩ := setAddresses_spec m₂ t.nodeAlias has
        refine ⟨m₃, ?_, hhandled₃, Or.inr (Or.inr hshows₃)⟩
        unfold updateNodeTxns
        rw [hhas]
        exact h₃
      | some has' =>
        obtain ⟨m₃, h₃, hhandled₃, hshows₃⟩ := setAddresses_spec m₂ t.nodeAlias has'
        refine ⟨m₃, ?_, hhandled₃, Or.inr (Or.inl hshows₃)⟩
        unfold updateNodeTxns
        rw [hhas]
        exact h₃
    · obtain ⟨m₃, h₃, hhandled₃, hshows₃⟩ := deleteNode_spec hw
      exact ⟨m₃, h₃, hhandled₃, Or.inl hshows₃⟩
    · exact ⟨m₂, rfl, Handled.refl _ _, hnear₂'⟩
    · exact absurd (not_not.1 hself) (Ne.symm hname₂)
    · exact ⟨m₂, rfl, Handled.refl _ _, hnear₂'⟩
  refine ⟨m₃, ?_, (hhandled₁.trans hhandled₂).trans hhandled₃, hnear₃⟩
  rw [hchange]
  unfold PoolManager.updateNode
  rw [hha]
  exact hservices

end Handling

/-! ## The ledger and the registry -/

/-- every node has one alias and an address, and no two nodes have one alias -/
structure LedgerOk (ledger : List NodeTxn) : Prop where
  sameAlias : ∀ p ∈ ledger, ∀ q ∈ ledger, p.dest = q.dest → p.nodeAlias = q.nodeAlias
  sameNode : ∀ p ∈ ledger, ∀ q ∈ ledger, p.nodeAlias = q.nodeAlias → p.dest = q.dest
  addressed : ∀ p ∈ ledger, (lastGiven NodeTxn.has (nodeTxnsOf p.dest ledger)).isSome

/-- what validation ensures of the next transaction -/
structure Validated (ledger : List NodeTxn) (t : NodeTxn) : Prop where
  sameAlias : ∀ p ∈ ledger, p.dest = t.dest → p.nodeAlias = t.nodeAlias
  addressed : nodeTxnsOf t.dest ledger = [] → t.has.isSome

/-- a new node's alias is not in use; an update of a node out of service puts it into service -/
structure TxnOk (ledger : List NodeTxn) (t : NodeTxn) : Prop where
  unused : nodeTxnsOf t.dest ledger = [] → ∀ p ∈ ledger, p.nodeAlias ≠ t.nodeAlias
  service : nodeTxnsOf t.dest ledger ≠ [] → inService (nodeTxnsOf t.dest ledger) = true ∨ t.isValidator = true

theorem txnOk_iff {ledger : List NodeTxn} {t : NodeTxn} : TxnOk ledger t ↔
    (nodeTxnsOf t.dest ledger = [] → ∀ p ∈ ledger, p.nodeAlias ≠ t.nodeAlias) ∧
      (nodeTxnsOf t.dest ledger ≠ [] → inService (nodeTxnsOf t.dest ledger) = true ∨ t.isValidator = true) :=
  ⟨fun h => ⟨h.unused, h.service⟩, fun h => ⟨h.1, h.2⟩⟩

instance (ledger : List NodeTxn) (t : NodeTxn) : Decidable (TxnOk ledger t) := decidable_of_iff _ txnOk_iff.symm

/-- the registry is that of a restart, as far as other nodes are concerned -/
def Agrees (m : PoolManager) (ledger : List NodeTxn) : Prop :=
  ∀ n, n ≠ m.name → m.registry.get? n = (parseLedgerForHaAndKeys ledger).get? n

section Ledgers

variable {ledger : List NodeTxn} {t : NodeTxn} {m : PoolManager}

theorem mem_nodeTxnsOf {p : NodeTxn} {nym : String} : p ∈ nodeTxnsOf nym ledger ↔ p ∈ ledger ∧ p.dest = nym := by
  unfold nodeTxnsOf
  rw [List.mem_filter, decide_eq_true_eq]

theorem nodeTxnsOf_concat (nym : String) (ledger : List NodeTxn) (t : NodeTxn) :
    nodeTxnsOf nym (ledger ++ [t]) = if t.dest = nym then nodeTxnsOf nym ledger ++ [t] else nodeTxnsOf nym ledger := by
  unfold nodeTxnsOf
  rw [filter_concat]
  simp only [decide_eq_true_eq]

theorem txnsNamed_concat (n : NodeName) (ledger : List NodeTxn) (t : NodeTxn) :
    txnsNamed n (ledger ++ [t]) = if t.nodeAlias = n then txnsNamed n ledger ++ [t] else txnsNamed n ledger := by
  unfold txnsNamed
  rw [filter_concat]
  simp only [decide_eq_true_eq]

/-- the transactions with the alias of a node are its own -/
theorem txnsNamed_eq (hl : LedgerOk ledger) (hv : Validated ledger t) (hok : TxnOk ledger t) :
    txnsNamed t.nodeAlias ledger = nodeTxnsOf t.dest ledger := by
  refine List.filter_congr fun p hp => ?_
  simp only [decide_eq_decide]
  refine ⟨fun halias => ?_, hv.sameAlias p hp⟩
  by_cases hnew : nodeTxnsOf t.dest ledger = []
  · exact absurd halias (hok.unused hnew p hp)
  · obtain ⟨q, hq⟩ := List.exists_mem_of_ne_nil _ hnew
    obtain ⟨hmem, hdest⟩ := mem_nodeTxnsOf.1 hq
    rw [← hdest]
    exact hl.sameNode p hp q hmem (halias.trans (hv.sameAlias q hmem hdest).symm)

theorem LedgerOk.concat (hl : LedgerOk ledger) (hv : Validated ledger t) (hok : TxnOk ledger t) :
    LedgerOk (ledger ++ [t]) := by
  have hnamed := txnsNamed_eq hl hv hok
  -- an earlier transaction has the alias of `t` exactly if it is of the node of `t`
  have hiff : ∀ p ∈ ledger, p.nodeAlias = t.nodeAlias → p.dest = t.dest := by
    intro p hp halias
    have hmem : p ∈ txnsNamed t.nodeAlias ledger := List.mem_filter.2 ⟨hp, by simpa using halias⟩
    rw [hnamed] at hmem
    exact (mem_nodeTxnsOf.1 hmem).2
  constructor
  · intro p hp q hq hdest
    rcases List.mem_append.1 hp with hp' | hp' <;> rcases List.mem_append.1 hq with hq' | hq'
    · exact hl.sameAlias p hp' q hq' hdest
    · obtain rfl := List.mem_singleton.1 hq'
      exact hv.sameAlias p hp' hdest
    · obtain rfl := List.mem_singleton.1 hp'
      exact (hv.sameAlias q hq' hdest.symm).symm
    · rw [List.mem_singleton.1 hp', List.mem_singleton.1 hq']
  · intro p hp q hq halias
    rcases List.mem_append.1 hp with hp' | hp' <;> rcases List.mem_append.1 hq with hq' | hq'
    · exact hl.sameNode p hp' q hq' halias
    · obtain rfl := List.mem_singleton.1 hq'
      exact hiff p hp' halias
    · obtain rfl := List.mem_singleton.1 hp'
      exact (hiff q hq' halias.symm).symm
    · rw [List.mem_singleton.1 hp', List.mem_singleton.1 hq']
  · intro p hp
    rw [nodeTxnsOf_concat]
    split_ifs with hdest
    · rw [lastGiven_concat, ← hdest]
      by_cases hnew : nodeTxnsOf t.dest ledger = []
      · simp [hv.addressed hnew]
      · obtain ⟨q, hq⟩ := List.exists_mem_of_ne_nil _ hnew
        obtain ⟨hmem, hq⟩ := mem_nodeTxnsOf.1 hq
        have := hl.addressed q hmem
        rw [hq] at this
        simp [this]
    · rcases List.mem_append.1 hp with hp | hp
      · exact hl.addressed p hp
      · exact absurd (congrArg NodeTxn.dest (List.mem_singleton.1 hp)).symm hdest

/-- what each transaction of a batch meets, given the ledger before it -/
def EachOk (ok : List NodeTxn → NodeTxn → Prop) : List NodeTxn → List NodeTxn → Prop
  | _, [] => True
  | ledger, t :: rest => ok ledger t ∧ EachOk ok (ledger ++ [t]) rest

instance decidableEachOk {ok : List NodeTxn → NodeTxn → Prop} [∀ ledger t, Decidable (ok ledger t)] :
    (ledger txns : List NodeTxn) → Decidable (EachOk ok ledger txns)
  | _, [] => .isTrue trivial
  | ledger, t :: rest =>
    have := @decidableEachOk ok _ (ledger ++ [t]) rest
    inferInstanceAs (Decidable (ok ledger t ∧ EachOk ok (ledger ++ [t]) rest))

theorem eachOk_concat {ok : List NodeTxn → NodeTxn → Prop} {txns : List NodeTxn} :
    EachOk ok ledger (txns ++ [t]) ↔ EachOk ok ledger txns ∧ ok (ledger ++ txns) t := by
  induction txns generalizing ledger with
  | nil => simp [EachOk]
  | cons p rest ih =>
    rw [List.cons_append, EachOk, EachOk, ih, and_assoc]
    simp

theorem LedgerOk.append {txns : List NodeTxn} (hl : LedgerOk ledger) (hv : EachOk Validated ledger txns)
    (hok : EachOk TxnOk ledger txns) : LedgerOk (ledger ++ txns) := by
  induction txns generalizing ledger with
  | nil => rwa [List.append_nil]
  | cons t rest ih =>
    have h := ih (hl.concat hv.1 hok.1) hv.2 hok.2
    rwa [List.append_assoc] at h

/-- the transactions of a node are those with its alias -/
theorem LedgerOk.txnsNamed_eq (hl : LedgerOk ledger) (ht : t ∈ ledger) :
    txnsNamed t.nodeAlias ledger = nodeTxnsOf t.dest ledger := by
  refine List.filter_congr fun p hp => ?_
  simp only [decide_eq_decide]
  exact ⟨fun h => hl.sameNode p hp t ht h, fun h => hl.sameAlias p hp t ht h⟩

/-- a node with transactions has an address -/
theorem LedgerOk.has_isSome (hl : LedgerOk ledger) {nym : String} (hne : nodeTxnsOf nym ledger ≠ []) :
    (lastGiven NodeTxn.has (nodeTxnsOf nym ledger)).isSome := by
  obtain ⟨q, hq⟩ := List.exists_mem_of_ne_nil _ hne
  obtain ⟨hmem, rfl⟩ := mem_nodeTxnsOf.1 hq
  exact hl.addressed q hmem

/-- in the middle of a batch, of which the transactions in `done` are handled and those in `rest` are not: what the
registry shows of a node is final if it has no transaction left -/
def Handling (m : PoolManager) (done rest : List NodeTxn) : Prop :=
  ∀ n, n ≠ m.name →
    (txnsNamed n rest = [] → m.registry.Shows n (shown (txnsNamed n done))) ∧
      (txnsNamed n rest ≠ [] → Near m n (lastGiven NodeTxn.has (txnsNamed n done))
        (lastGiven NodeTxn.has (txnsNamed n (done ++ rest)).dropLast))

theorem Handling.start (rest : List NodeTxn) (hm : Agrees m ledger) : Handling m ledger rest := by
  intro n hn
  have hshows : m.registry.Shows n (shown (txnsNamed n ledger)) := (hm n hn).trans (parse_shows ledger n)
  refine ⟨fun _ => hshows, fun _ => ?_⟩
  by_cases hin : inService (txnsNamed n ledger) = true
  · rw [shown, if_pos hin] at hshows
    exact Or.inr (Or.inl hshows)
  · rw [shown, if_neg hin] at hshows
    exact Or.inl hshows

theorem Handling.finish (hm : Handling m ledger []) : Agrees m ledger :=
  fun n hn => ((hm n hn).1 rfl).trans (parse_shows ledger n).symm

theorem txnsNamed_append (n : NodeName) (ledger txns : List NodeTxn) :
    txnsNamed n (ledger ++ txns) = txnsNamed n ledger ++ txnsNamed n txns := List.filter_append _ _

/-- the other nodes, when a transaction has been handled -/
theorem Handling.others {done rest : List NodeTxn} {m' : PoolManager} (hm : Handling m done (t :: rest))
    (hhandled : Handled m m' t.nodeAlias) {n : NodeName} (hn : n ≠ m.name) (ht : n ≠ t.nodeAlias) :
    (txnsNamed n rest = [] → m'.registry.Shows n (shown (txnsNamed n (done ++ [t])))) ∧
      (txnsNamed n rest ≠ [] → Near m' n (lastGiven NodeTxn.has (txnsNamed n (done ++ [t])))
        (lastGiven NodeTxn.has (txnsNamed n (done ++ [t] ++ rest)).dropLast)) := by
  have hdone : txnsNamed n (done ++ [t]) = txnsNamed n done :=
    (txnsNamed_concat n done t).trans (if_neg (Ne.symm ht))
  have hrest : txnsNamed n (t :: rest) = txnsNamed n rest := List.filter_cons_of_neg (by simpa using Ne.symm ht)
  have hget := hhandled.others n ht
  have hall : done ++ t :: rest = done ++ [t] ++ rest := by simp
  have h := hm n hn
  unfold Near Registry.Shows at h ⊢
  rw [hget, hdone, ← hall]
  rwa [hrest] at h

/-- **The step lemma.** The next transaction of a batch, all of which is in the ledger. -/
theorem Handling.step {done rest : List NodeTxn} (hcommitted : LedgerOk (done ++ [t] ++ rest)) (hl : LedgerOk done)
    (hv : Validated done t) (hok : TxnOk done t) (hname : t.nodeAlias ≠ m.name) (hm : Handling m done (t :: rest)) :
    ∃ m', m.onPoolMembershipChange (done ++ [t] ++ rest) t = some m' ∧ m'.name = m.name ∧
      Handling m' (done ++ [t]) rest := by
  have hmem : t ∈ done ++ [t] ++ rest := by simp
  have hall : done ++ t :: rest = done ++ [t] ++ rest := by simp
  have hnamed := txnsNamed_eq hl hv hok
  have hown : nodeTxnsOf t.dest (done ++ [t] ++ rest) =
      (nodeTxnsOf t.dest done ++ [t]) ++ txnsNamed t.nodeAlias rest := by
    rw [← hcommitted.txnsNamed_eq hmem, txnsNamed_append, txnsNamed_concat, if_pos rfl, hnamed]
  have hdone : txnsNamed t.nodeAlias (done ++ [t]) = nodeTxnsOf t.dest done ++ [t] := by
    rw [txnsNamed_concat, if_pos rfl, hnamed]
  have hsame : ∀ p ∈ nodeTxnsOf t.dest done, p.nodeAlias = t.nodeAlias :=
    fun p hp => hv.sameAlias p (mem_nodeTxnsOf.1 hp).1 (mem_nodeTxnsOf.1 hp).2
  have hnear : Near m t.nodeAlias (lastGiven NodeTxn.has (nodeTxnsOf t.dest done))
      (lastGiven NodeTxn.has (nodeTxnsOf t.dest (done ++ [t] ++ rest)).dropLast) := by
    have h := (hm t.nodeAlias hname).2 (by simp [txnsNamed])
    rwa [hall, hcommitted.txnsNamed_eq hmem, hnamed] at h
  by_cases hlater : txnsNamed t.nodeAlias rest = []
  · -- no later transaction of the node
    rw [hlater, List.append_nil] at hown
    rw [hown, List.dropLast_concat] at hnear
    obtain ⟨m', hm', hhandled, hshows⟩ := onPoolMembershipChange_last hown hsame hname hl.has_isSome hv.addressed
      (hnear.imp id fun h => h.elim id id) hok.service
    refine ⟨m', hm', hhandled.name, fun n hn => ?_⟩
    rw [hhandled.name] at hn
    by_cases ht : n = t.nodeAlias
    · subst ht
      exact ⟨fun _ => hdone ▸ hshows, fun hne => absurd hlater hne⟩
    · exact hm.others hhandled hn ht
  · -- the transactions of the node up to this one give an address
    have hdrop : (nodeTxnsOf t.dest (done ++ [t] ++ rest)).dropLast =
        nodeTxnsOf t.dest done ++ [t] ++ (txnsNamed t.nodeAlias rest).dropLast := by
      rw [hown, List.dropLast_append_of_ne_nil hlater]
    have hfirst : (lastGiven NodeTxn.has (nodeTxnsOf t.dest done ++ [t])).isSome := by
      rw [lastGiven_concat]
      by_cases hnew : nodeTxnsOf t.dest done = []
      · simp [hv.addressed hnew]
      · simp [hl.has_isSome hnew]
    obtain ⟨has, hhas⟩ := Option.isSome_iff_exists.1
      (lastGiven_append_isSome hfirst (txnsNamed t.nodeAlias rest).dropLast)
    rw [← hdrop] at hhas
    -- all of them but the last one are known from the ledger
    have hknown : nodeTxnsOf t.dest (done ++ [t] ++ rest) ≠ [] := List.ne_nil_of_mem (mem_nodeTxnsOf.2 ⟨hmem, rfl⟩)
    have hne : (nodeTxnsOf t.dest (done ++ [t] ++ rest)).dropLast ≠ [] := by
      intro hnil
      rw [hnil] at hdrop
      simp at hdrop
    have hinfo := getNodeInfoFromLedger_of_update (n := t.nodeAlias)
      (List.dropLast_append_getLast hknown).symm hne fun p hp =>
        have hp' := mem_nodeTxnsOf.1 (List.dropLast_subset _ hp)
        hcommitted.sameAlias p hp'.1 t hmem hp'.2
    have hcount : (nodeTxnsOf t.dest (done ++ [t] ++ rest)).dropLast.length + 1 ≠ 1 := by
      intro hone
      exact hne (List.length_eq_zero_iff.1 (Nat.succ_injective hone))
    rw [hhas] at hinfo hnear
    obtain ⟨m', hm', hhandled, hnear'⟩ := onPoolMembershipChange_early hinfo hcount hname hnear
    refine ⟨m', hm', hhandled.name, fun n hn => ?_⟩
    rw [hhandled.name] at hn
    by_cases ht : n = t.nodeAlias
    · subst ht
      refine ⟨fun hnone => absurd hnone hlater, fun _ => ?_⟩
      rw [hcommitted.txnsNamed_eq hmem, hhas, hdone, lastGiven_concat]
      exact hnear'
    · exact hm.others hhandled hn ht

/-- **A batch**, handled transaction by transaction after all of it is in the ledger. -/
theorem agrees_batch {txns : List NodeTxn} (hl : LedgerOk ledger) (hv : EachOk Validated ledger txns)
    (hok : EachOk TxnOk ledger txns) (hnames : ∀ t ∈ txns, t.nodeAlias ≠ m.name) (hm : Agrees m ledger) :
    ∃ m', txns.foldlM (PoolManager.onPoolMembershipChange (ledger ++ txns)) m = some m' ∧ m'.name = m.name ∧
      Agrees m' (ledger ++ txns) ∧ LedgerOk (ledger ++ txns) := by
  have hcommitted := hl.append hv hok
  have hstart : Handling m ledger txns := .start txns hm
  generalize hall : ledger ++ txns = committed at hcommitted
  -- by induction on the transactions left
  have hrun : ∃ m', txns.foldlM (PoolManager.onPoolMembershipChange committed) m = some m' ∧ m'.name = m.name ∧
      Handling m' committed [] := by
    clear hm
    induction txns generalizing ledger m with
    | nil => exact ⟨m, rfl, rfl, by rwa [← hall, List.append_nil]⟩
    | cons t rest ih =>
      obtain ⟨hv, hvs⟩ := hv
      obtain ⟨ht, hok⟩ := hok
      have hsplit : ledger ++ [t] ++ rest = committed := by simpa using hall
      obtain ⟨m₁, h₁, hname₁, hm₁⟩ :=
        Handling.step (hsplit ▸ hcommitted) hl hv ht (hnames t List.mem_cons_self) hstart
      obtain ⟨m₂, h₂, hname₂, hm₂⟩ := ih (hl.concat hv ht) hvs hok
        (fun p hp => hname₁ ▸ hnames p (List.mem_cons_of_mem _ hp)) hm₁ hsplit
      refine ⟨m₂, ?_, hname₂.trans hname₁, hm₂⟩
      rw [hsplit] at h₁
      rw [List.foldlM_cons, h₁]
      exact h₂
  obtain ⟨m', hm', hname', hfinal⟩ := hrun
  exact ⟨m', hm', hname', hfinal.finish, hcommitted⟩

end Ledgers

/-! ## A node and its pool ledger -/

namespace NodeTxn

theorem get?_data_alias (t : NodeTxn) : t.data.get? ALIAS = some (.str t.nodeAlias) := by
  obtain ⟨dest, nodeAlias, has, services⟩ := t
  cases has <;> cases services <;> rfl

theorem mem_keys_data {t : NodeTxn} {k : String} : k ∈ t.data.keys ↔
    k = ALIAS ∨ (t.has.isSome ∧ k ∈ haFields) ∨ (t.services.isSome ∧ k = SERVICES) := by
  obtain ⟨dest, nodeAlias, has, services⟩ := t
  have hempty : (Dict.empty : Dict String DataValue).keys = [] := rfl
  cases has <;> cases services <;>
    simp only [data, addHas, addServices, Dict.mem_keys_set, hempty, haFields, List.mem_cons, List.not_mem_nil,
      Option.isSome_none, Option.isSome_some, Bool.false_eq_true, false_and, true_and, or_false] <;> tauto

/-- the data meets the schema -/
def checked (t : NodeTxn) : ClientNodeOperationData where
  data := t.data
  known k hk := by
    rcases mem_keys_data.1 hk with rfl | ⟨-, hk⟩ | ⟨-, rfl⟩
    · decide
    · exact List.mem_append_left _ hk
    · decide
  hasAlias := by
    rw [get?_data_alias]
    rfl
  addresses := by
    by_cases h : t.has.isSome
    · exact Or.inl fun k hk => mem_keys_data.2 (Or.inr (Or.inl ⟨h, hk⟩))
    · right
      have hfields : ∀ k ∈ haFields, k ≠ ALIAS ∧ k ≠ SERVICES := by decide
      intro k hk hmem
      rcases mem_keys_data.1 hmem with rfl | ⟨h', -⟩ | ⟨-, rfl⟩
      · exact (hfields _ hk).1 rfl
      · exact h h'
      · exact (hfields _ hk).2 rfl

end NodeTxn

/-- the request as the handler gets it -/
def toOperation (req : Request NodeTxn) : Request NodeOperation :=
  ⟨req.identifier, req.reqId, ⟨req.operation.dest, req.operation.checked⟩, req.digest, req.signature⟩

/-- the pool handler, the committed pool ledger, and the manager with the registry -/
structure PoolNode where
  handler : PoolHandler
  ledger : List NodeTxn
  manager : PoolManager

namespace PoolNode

variable (root : List (PoolTxn DataValue) → String)

/-- a request of a batch: it is applied if it is accepted -/
def acceptRequest (acc : PoolHandler × List NodeTxn) (r : DomainState × Request NodeTxn) :
    PoolHandler × List NodeTxn :=
  (acc.1.request root (r.1, toOperation r.2),
    if (acc.1.validate r.1 (toOperation r.2)).1 = none then acc.2 ++ [r.2.operation] else acc.2)

/-- the handler after the requests, and the transactions of those that were accepted -/
def createBatch (h : PoolHandler) (rs : List (DomainState × Request NodeTxn)) : PoolHandler × List NodeTxn :=
  rs.foldl (acceptRequest root) (h, [])

/-- `executePoolTxnBatch`: all transactions are committed, then each is handled -/
def executePoolTxnBatch (n : PoolNode) (rs : List (DomainState × Request NodeTxn)) : Option PoolNode :=
  let batch := createBatch root n.handler rs
  let ledger := n.ledger ++ batch.2
  (batch.2.foldlM (PoolManager.onPoolMembershipChange ledger) n.manager).map fun manager => ⟨batch.1, ledger, manager⟩

def executeBatches (n : PoolNode) (batches : List (List (DomainState × Request NodeTxn))) : Option PoolNode :=
  batches.foldlM (executePoolTxnBatch root) n

end PoolNode

/-- the state of the handler is that of the ledger: it has the nodes of the ledger, with their aliases -/
structure Linked (h : PoolHandler) (ledger : List NodeTxn) : Prop where
  owned : Owned h.head
  cache : h.CacheOk
  recorded : ∀ p ∈ ledger, ∃ d, h.head.get? p.dest = some d ∧ d.get? ALIAS = some (.str p.nodeAlias)
  listed : ∀ nym, (h.head.get? nym).isSome → nodeTxnsOf nym ledger ≠ []

section Accept

variable {h : PoolHandler} {ledger : List NodeTxn} {root : List (PoolTxn DataValue) → String}

/-- a node of which nothing is recorded has no transaction -/
theorem Linked.get?_isSome_iff (hl : Linked h ledger) (nym : String) :
    (h.head.get? nym).isSome ↔ nodeTxnsOf nym ledger ≠ [] := by
  refine ⟨hl.listed nym, fun hne => ?_⟩
  obtain ⟨p, hp⟩ := List.exists_mem_of_ne_nil _ hne
  obtain ⟨hmem, rfl⟩ := mem_nodeTxnsOf.1 hp
  obtain ⟨d, hd, -⟩ := hl.recorded p hmem
  rw [hd]
  rfl

/-- an accepted transaction -/
theorem Linked.accepted (hl : Linked h ledger) {h' : PoolHandler} {t : NodeTxn} (ho : Owned h'.head) (hc : h'.CacheOk)
    (hkept : Kept h.head h'.head) (hdest : ∃ d, h'.head.get? t.dest = some d ∧ d.get? ALIAS = some (.str t.nodeAlias))
    (hothers : ∀ n, n ≠ t.dest → h'.head.get? n = h.head.get? n) : Linked h' (ledger ++ [t]) := by
  refine ⟨ho, hc, fun p hp => ?_, fun nym hnym => ?_⟩
  · rcases List.mem_append.1 hp with hp | hp
    · obtain ⟨d, hd, halias⟩ := hl.recorded p hp
      obtain ⟨d', hd', -, halias'⟩ := hkept _ d hd
      exact ⟨d', hd', halias'.trans halias⟩
    · obtain rfl := List.mem_singleton.1 hp
      exact hdest
  · rw [nodeTxnsOf_concat]
    split_ifs with hn
    · simp
    · rw [hothers nym (Ne.symm hn)] at hnym
      exact hl.listed nym hnym

/-- **What acceptance ensures.** A new node gives its addresses, and an update repeats the alias. -/
theorem Linked.request (root : List (PoolTxn DataValue) → String) (hl : Linked h ledger) (domainState : DomainState)
    (req : Request NodeTxn) :
    ((h.validate domainState (toOperation req)).1 = none →
        Validated ledger req.operation ∧
          Linked (h.request root (domainState, toOperation req)) (ledger ++ [req.operation])) ∧
      ((h.validate domainState (toOperation req)).1 ≠ none →
        Linked (h.request root (domainState, toOperation req)) ledger) := by
  obtain ⟨ho, hc, hkept, -⟩ := request_step root domainState (toOperation req) hl.owned hl.cache
  have halias : (toOperation req).operation.data.data.get? ALIAS = some (.str req.operation.nodeAlias) :=
    req.operation.get?_data_alias
  obtain ⟨h₁, hdb, -, ⟨hrefused, heq⟩ | ⟨haccepted, heq, hnew | ⟨d, hupdate⟩⟩⟩ :=
    @request_cases h (toOperation req) domainState root hl.owned hl.cache
  · have hhead : (h.request root (domainState, toOperation req)).head = h.head := by
      rw [heq]
      exact congrArg (fun db => db.state.headHash) hdb
    exact ⟨fun hnone => absurd hnone hrefused, fun _ => ⟨ho, hc, hhead ▸ hl.recorded, hhead ▸ hl.listed⟩⟩
  · refine ⟨fun _ => ⟨⟨fun p hp hdest => ?_, fun _ => ?_⟩, ?_⟩, fun hne => absurd haccepted hne⟩
    · obtain ⟨d, hd, -⟩ := hl.recorded p hp
      have hnone : h.head.get? p.dest = none := hdest ▸ hnew.new
      rw [hd] at hnone
      cases hnone
    · have hmem : NODE_IP ∈ req.operation.data.keys := hnew.complete NODE_IP (by decide)
      rcases NodeTxn.mem_keys_data.1 hmem with h | ⟨h, -⟩ | ⟨-, h⟩
      · exact absurd h (by decide)
      · exact h
      · exact absurd h (by decide)
    · have hhead := (congrArg PoolHandler.head heq).trans (head_applyNew hdb hnew)
      refine hl.accepted ho hc hkept ⟨_, hhead ▸ Dict.get?_set_self _ _ _, ?_⟩ fun n hn => ?_
      · rw [newNode_identities _ ALIAS (by decide), halias]
      · rw [hhead]
        exact Dict.get?_set_ne _ _ hn
  · have hsame := hupdate.sameAlias.trans halias
    refine ⟨fun _ => ⟨⟨fun p hp hdest => ?_, fun hnone => ?_⟩, ?_⟩, fun hne => absurd haccepted hne⟩
    · obtain ⟨d', hd', halias'⟩ := hl.recorded p hp
      have hd : h.head.get? p.dest = some d := hdest ▸ hupdate.old
      rw [hd'] at hd
      cases hd
      exact DataValue.str.inj (Option.some.inj (halias'.symm.trans hsame))
    · refine absurd hnone ((hl.get?_isSome_iff _).1 ?_)
      have hold : h.head.get? req.operation.dest = some d := hupdate.old
      rw [hold]
      rfl
    · have hhead := (congrArg PoolHandler.head heq).trans (head_applyUpdate hdb hupdate)
      refine hl.accepted ho hc hkept ⟨_, hhead ▸ Dict.get?_set_self _ _ _, ?_⟩ fun n hn => ?_
      · rw [(updated_same hl.owned hupdate).2, hsame]
      · rw [hhead]
        exact Dict.get?_set_ne _ _ hn

/-- the transactions of a batch are validated one after the other -/
theorem Linked.createBatch (root : List (PoolTxn DataValue) → String) (hl : Linked h ledger)
    (rs : List (DomainState × Request NodeTxn)) :
    EachOk Validated ledger (PoolNode.createBatch root h rs).2 ∧
      Linked (PoolNode.createBatch root h rs).1 (ledger ++ (PoolNode.createBatch root h rs).2) := by
  induction rs using List.reverseRecOn with
  | nil => exact ⟨trivial, by simpa [PoolNode.createBatch] using hl⟩
  | append_singleton rs r ih =>
    obtain ⟨hvs, hl'⟩ := ih
    have hconcat : PoolNode.createBatch root h (rs ++ [r]) =
        PoolNode.acceptRequest root (PoolNode.createBatch root h rs) r := by
      unfold PoolNode.createBatch
      rw [List.foldl_append]
      rfl
    obtain ⟨haccepted, hrefused⟩ := hl'.request root r.1 r.2
    rw [hconcat]
    unfold PoolNode.acceptRequest
    dsimp only
    split_ifs with hnone
    · obtain ⟨hv, hl''⟩ := haccepted hnone
      exact ⟨eachOk_concat.2 ⟨hvs, hv⟩, by simpa using hl''⟩
    · exact ⟨hvs, hrefused hnone⟩

end Accept

/-! ## Every run -/

/-- a node that has started from its ledger -/
structure PoolNode.Started (n : PoolNode) : Prop where
  linked : Linked n.handler n.ledger
  ledgerOk : LedgerOk n.ledger
  agrees : Agrees n.manager n.ledger

/-- the accepted transactions of a batch are of nodes other than this one; no new node takes an alias that is in use, and
every update of a node out of service puts it into service -/
structure BatchOk (root : List (PoolTxn DataValue) → String) (n : PoolNode)
    (rs : List (DomainState × Request NodeTxn)) : Prop where
  others : ∀ t ∈ (PoolNode.createBatch root n.handler rs).2, t.nodeAlias ≠ n.manager.name
  each : EachOk TxnOk n.ledger (PoolNode.createBatch root n.handler rs).2

theorem batchOk_iff {root : List (PoolTxn DataValue) → String} {n : PoolNode}
    {rs : List (DomainState × Request NodeTxn)} : BatchOk root n rs ↔
      (∀ t ∈ (PoolNode.createBatch root n.handler rs).2, t.nodeAlias ≠ n.manager.name) ∧
        EachOk TxnOk n.ledger (PoolNode.createBatch root n.handler rs).2 :=
  ⟨fun h => ⟨h.others, h.each⟩, fun h => ⟨h.1, h.2⟩⟩

instance (root : List (PoolTxn DataValue) → String) (n : PoolNode) (rs : List (DomainState × Request NodeTxn)) :
    Decidable (BatchOk root n rs) := decidable_of_iff _ batchOk_iff.symm

theorem executePoolTxnBatch_spec {root : List (PoolTxn DataValue) → String} {n : PoolNode} (hn : n.Started)
    {rs : List (DomainState × Request NodeTxn)} (hok : BatchOk root n rs) :
    ∃ n', n.executePoolTxnBatch root rs = some n' ∧ n'.Started := by
  obtain ⟨hv, hlinked⟩ := hn.linked.createBatch root rs
  obtain ⟨m', hm', -, hagrees, hledger⟩ := agrees_batch hn.ledgerOk hv hok.each hok.others hn.agrees
  unfold PoolNode.executePoolTxnBatch
  dsimp only
  rw [hm']
  exact ⟨_, rfl, hlinked, hledger, hagrees⟩

/-- **The registry survives a restart.** If every batch meets the condition, no batch raises, and after each of them the
registry shows of every other node what a restart would read from the ledger. -/
theorem registry_survives (root : List (PoolTxn DataValue) → String) {n : PoolNode} (hn : n.Started)
    (batches : List (List (DomainState × Request NodeTxn)))
    (hok : ∀ before rs n', before ++ [rs] <+: batches → n.executeBatches root before = some n' → BatchOk root n' rs) :
    ∀ before, before <+: batches → ∃ n', n.executeBatches root before = some n' ∧ Agrees n'.manager n'.ledger := by
  have hrun : ∀ before, before <+: batches → ∃ n', n.executeBatches root before = some n' ∧ n'.Started := by
    -- by induction on the batches executed before
    intro before
    induction before using List.reverseRecOn with
    | nil => exact fun _ => ⟨n, rfl, hn⟩
    | append_singleton before rs ih =>
      intro hbefore
      obtain ⟨n₁, h₁, hn₁⟩ := ih ((List.prefix_append _ _).trans hbefore)
      obtain ⟨n₂, h₂, hn₂⟩ := executePoolTxnBatch_spec hn₁ (hok before rs n₁ hbefore h₁)
      refine ⟨n₂, ?_, hn₂⟩
      unfold PoolNode.executeBatches at h₁ ⊢
      rw [List.foldlM_append, h₁]
      simpa using h₂
  intro before hbefore
  obtain ⟨n', hn', hstarted⟩ := hrun before hbefore
  exact ⟨n', hn', hstarted.agrees⟩

/-! ## Witnesses -/

namespace OneStranger

open TwoStewards

/-- Beta, with an empty ledger -/
def beta : PoolNode := ⟨⟨⟨Ledger.empty, State.empty⟩, []⟩, [], ⟨"Beta", ⟨Dict.empty, Dict.empty⟩⟩⟩

/-- the addresses of Alpha, at the given ip -/
def alphaAt (ip : String) : Option (HA × HA) := some ((ip, 9701), (ip, 9702))

/-- a request of Alpha's steward -/
def alphaRequest (reqId : ℕ) (has : Option (HA × HA)) (services : Option (List String)) :
    DomainState × Request NodeTxn :=
  (stewards, ⟨"s1", reqId, ⟨"n1", "Alpha", has, services⟩, "", ""⟩)

/-- Alpha is added with the given services, then it changes its addresses -/
def addAndMove (services : Option (List String)) : List (List (DomainState × Request NodeTxn)) :=
  [[alphaRequest 1 (alphaAt "10.0.0.1") services], [alphaRequest 2 (alphaAt "10.0.0.2") none]]

/-- it leaves service and comes back at another address, in one batch -/
def leaveAndReturn : List (DomainState × Request NodeTxn) :=
  [alphaRequest 3 none (some []), alphaRequest 4 (alphaAt "10.0.0.3") (some [VALIDATOR])]

theorem started : beta.Started := by
  have hnone : ∀ nym, beta.handler.head.get? nym = none := fun _ => rfl
  refine ⟨⟨⟨?_, ?_⟩, ?_, ?_, ?_⟩, ⟨?_, ?_, ?_⟩, ?_⟩
  · intro nym d hd
    cases (hnone nym).symm.trans hd
  · intro nym _ d _ hd
    cases (hnone nym).symm.trans hd
  · intro e he
    cases he
  · intro p hp
    cases hp
  · intro nym hnym
    rw [hnone] at hnym
    cases hnym
  · intro p hp
    cases hp
  · intro p hp
    cases hp
  · intro p hp
    cases hp
  · intro n _
    rfl

end OneStranger

open OneStranger in
/-- **An address of a node out of service.** Alpha is added without services and then changes its addresses: Beta has it
in its registry, and a restart does not. -/
theorem address_of_inactive : beta.Started ∧ ∃ n, beta.executeBatches TwoStewards.poolRoot (addAndMove none) = some n ∧
    n.ledger.length = 2 ∧ (∀ t ∈ n.ledger, t.nodeAlias ≠ n.manager.name) ∧ ¬ Agrees n.manager n.ledger := by
  obtain ⟨n, hn⟩ := Option.isSome_iff_exists.1
    (show (beta.executeBatches TwoStewards.poolRoot (addAndMove none)).isSome by decide +kernel)
  have hall : (beta.executeBatches TwoStewards.poolRoot (addAndMove none)).all (fun n =>
      n.ledger.length = 2 ∧ (∀ t ∈ n.ledger, t.nodeAlias ≠ n.manager.name) ∧ "Alpha" ≠ n.manager.name ∧
        n.manager.registry.get? "Alpha" ≠ (parseLedgerForHaAndKeys n.ledger).get? "Alpha") = true := by decide +kernel
  rw [hn, Option.all_some, decide_eq_true_eq] at hall
  obtain ⟨hlen, hothers, hname, hne⟩ := hall
  exact ⟨started, n, hn, hlen, hothers, fun h => hne (h "Alpha" hname)⟩

open OneStranger in
theorem registry_survives_leaveAndReturn : beta.Started ∧
    ∃ n, beta.executeBatches TwoStewards.poolRoot (addAndMove (some [VALIDATOR]) ++ [leaveAndReturn]) = some n ∧
      n.ledger.length = 4 ∧ Agrees n.manager n.ledger := by
  have hbatches : ∀ i < 3, (beta.executeBatches TwoStewards.poolRoot
      ((addAndMove (some [VALIDATOR]) ++ [leaveAndReturn]).take i)).all (fun n =>
        BatchOk TwoStewards.poolRoot n ((addAndMove (some [VALIDATOR]) ++ [leaveAndReturn]).getD i [])) = true := by
    decide +kernel
  obtain ⟨n, hn, hagrees⟩ := registry_survives TwoStewards.poolRoot started
    (addAndMove (some [VALIDATOR]) ++ [leaveAndReturn]) (fun before rs n' hbefore hrun => by
      obtain ⟨rest, hrest⟩ := hbefore
      have hlt : before.length < 3 := by
        have := congrArg List.length hrest
        simp [addAndMove] at this
        omega
      have h := hbatches before.length hlt
      rw [← hrest, List.append_assoc, List.take_left, hrun, Option.all_some, decide_eq_true_eq] at h
      simpa using h) _ (List.prefix_refl _)
  have hlen : (beta.executeBatches TwoStewards.poolRoot (addAndMove (some [VALIDATOR]) ++ [leaveAndReturn])).all
      (fun n => n.ledger.length = 4) = true := by decide +kernel
  rw [hn, Option.all_some, decide_eq_true_eq] at hlen
  exact ⟨started, n, hn, hlen, hagrees⟩

end Plenum
