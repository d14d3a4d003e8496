/-
Which NODE requests the pool handler accepts, and what stays consistent in the pool state.

- `NodeOperation`: the operation of a NODE request, as its schema admits it.
- `validate`, `apply`: the checks for adding and for updating a node, with the cache of `isStewardOfNode`, and the
  update of the state. `as_dict` is taken to show the head of the state.
- `Membership`: aliases differ, no address of a node is one of another node, no steward owns two nodes. `Kept`: the owner
  and the alias recorded for a node are never changed.
- `membership_iff`: owners and aliases are kept in every run; the membership is consistent after every request if and only
  if no accepted new node has an alias or an address that is taken (`Unused`). Adding a node is not checked for that.
- `alias_taken_twice`: a second steward adds a node with the alias and the addresses of the first one.
-/
import Mathlib.Tactic
import Plenum.Server.CatchupState

namespace Plenum

open Plenum.Core

/-! ## Requests -/

/-- the values of a node's data -/
inductive DataValue where
  | str (s : String)
  | int (n : ℤ)
  | strs (items : List String)
deriving DecidableEq, Repr

def ALIAS : String := "alias"

def NODE_IP : String := "node_ip"

def NODE_PORT : String := "node_port"

def CLIENT_IP : String := "client_ip"

def CLIENT_PORT : String := "client_port"

def SERVICES : String := "services"

def haFields : List String := [NODE_IP, NODE_PORT, CLIENT_IP, CLIENT_PORT]

/-- the data of a NODE operation: known fields only, an alias, and the addresses complete or not at all -/
structure ClientNodeOperationData where
  data : Dict String DataValue
  known : ∀ k ∈ data.keys, k ∈ haFields ++ [ALIAS, SERVICES]
  hasAlias : (data.get? ALIAS).isSome
  addresses : (∀ k ∈ haFields, k ∈ data.keys) ∨ ∀ k ∈ haFields, k ∉ data.keys

structure NodeOperation where
  dest : String
  data : ClientNodeOperationData

/-- the text of the `UnauthorizedClientRequest`, with what it names -/
inductive PoolAuthError where
  /-- "Missing some of {}" -/
  | missingKeys
  /-- "node and client ha cannot be same" -/
  | sameHa
  /-- "{} is not a steward so cannot add a new node" -/
  | cannotAdd (origin : String)
  /-- "{} already has a node" -/
  | hasNode (origin : String)
  /-- "existing data has conflicts with request data {}" -/
  | conflicting (data : Dict String DataValue)
  /-- "{} is not a steward so cannot update a node" -/
  | cannotUpdate (origin : String)
  /-- "{} is not a steward of node {}" -/
  | notStewardOf (origin nodeNym : String)
  /-- "node already has the same data as requested" -/
  | sameData
deriving DecidableEq

/-! ## The handler -/

/-- the pool ledger and state, and the cached answers of `isStewardOfNode`, the latest first -/
structure PoolHandler where
  db : LedgerAndState (PoolTxn DataValue) (NodeData DataValue)
  stewardOfNode : List ((String × String) × Bool)

/-- what is known of a node by which it is told from others -/
inductive Identity where
  | alias (a : Option DataValue)
  | ha (ip port : Option DataValue)
deriving DecidableEq

/-- an answer of a function with an `lru_cache` of the given size, and the cache after it -/
def lruCache {κ β : Type} [DecidableEq κ] (maxsize : ℕ) (cache : List (κ × β)) (key : κ) (compute : β) :
    β × List (κ × β) :=
  match cache.find? fun e => e.1 = key with
  | some e => (e.2, e :: cache.filter fun e => e.1 ≠ key)
  | none => (compute, ((key, compute) :: cache).take maxsize)

namespace PoolHandler

/-- the pool state shows the head -/
def asDict (h : PoolHandler) : List (String × NodeData DataValue) := h.db.state.headHash.entries

def getNodeData (h : PoolHandler) (nym : String) : NodeData DataValue :=
  PoolRequestHandler.getNodeData h.db.state nym false

/-- the address of the node itself -/
def nodeHa (d : NodeData DataValue) : Identity := .ha (d.get? NODE_IP) (d.get? NODE_PORT)

def clientHa (d : NodeData DataValue) : Identity := .ha (d.get? CLIENT_IP) (d.get? CLIENT_PORT)

def identities (d : NodeData DataValue) : Finset Identity := {.alias (d.get? ALIAS), nodeHa d, clientHa d}

/-- what is known of two nodes -/
def bag (d e : NodeData DataValue) : Finset Identity :=
  ((identities d ∪ identities e).erase (.alias none)).erase (.ha none none)

def isStewardOfNode (h : PoolHandler) (stewardNym nodeNym : String) : Bool × PoolHandler :=
  let nodeData := h.getNodeData nodeNym
  let answer := lruCache 64 h.stewardOfNode (stewardNym, nodeNym)
    (nodeData.size ≠ 0 ∧ nodeData.get? IDENTIFIER = some (.str stewardNym) : Bool)
  (answer.1, { h with stewardOfNode := answer.2 })

def stewardHasNode (h : PoolHandler) (stewardNym : String) : Bool :=
  h.asDict.any fun e => e.2.get? IDENTIFIER = some (.str stewardNym)

def dataErrorWhileValidating (data : Dict String DataValue) (skipKeys : Bool) : Option PoolAuthError :=
  if !skipKeys ∧ ¬ ∀ k ∈ ALIAS :: haFields, k ∈ data.keys then some .missingKeys
  else if ((data.get? NODE_IP).getD (.str "nip"), (data.get? NODE_PORT).getD (.str "np")) =
      ((data.get? CLIENT_IP).getD (.str "cip"), (data.get? CLIENT_PORT).getD (.str "cp")) then some .sameHa
  else none

/-- the data of the node as it would be after the update -/
def updatedData (h : PoolHandler) (data : Dict String DataValue) (nodeNym : String) : NodeData DataValue :=
  (((h.getNodeData nodeNym).erase IDENTIFIER).erase SERVICES).update data

/-- whether a node's identities, or one's own data with them, are not all different -/
def conflictsWith (nodeData otherNodeData : NodeData DataValue) : Bool :=
  let otherNodeData := (otherNodeData.erase IDENTIFIER).erase SERVICES
  if nodeData.size = 0 then (bag nodeData otherNodeData).card ≠ 3 else (bag nodeData otherNodeData).card ≠ 6

/-- for a new node nothing is known of the node itself -/
def isNodeDataConflicting (h : PoolHandler) (data : Dict String DataValue) : Option String → Bool
  | none => h.asDict.any fun e => conflictsWith Dict.empty e.2
  | some nodeNym =>
    if (h.getNodeData nodeNym).get? ALIAS ≠ data.get? ALIAS then true
    else h.asDict.any fun e => e.1 ≠ nodeNym && conflictsWith (h.updatedData data nodeNym) e.2

/-- `==` of dictionaries -/
def sameDict (d e : Dict String DataValue) : Bool := d.size = e.size ∧ ∀ x ∈ d.entries, e.get? x.1 = some x.2

def isNodeDataSame (h : PoolHandler) (nodeNym : String) (newData : Dict String DataValue) : Bool :=
  sameDict ((h.getNodeData nodeNym).erase IDENTIFIER) newData

def authErrorWhileAddingNode (h : PoolHandler) (domainState : DomainState) (req : Request NodeOperation) :
    Option PoolAuthError :=
  let origin := req.identifier
  let data := req.operation.data.data
  match dataErrorWhileValidating data false with
  | some error => some error
  | none =>
    if !DomainRequestHandler.isSteward domainState origin false then some (.cannotAdd origin)
    else if h.stewardHasNode origin then some (.hasNode origin)
    else if h.isNodeDataConflicting data none then some (.conflicting data)
    else none

def dataErrorWhileValidatingUpdate (h : PoolHandler) (data : Dict String DataValue) (nodeNym : String) :
    Option PoolAuthError :=
  match dataErrorWhileValidating data true with
  | some error => some error
  | none =>
    if h.isNodeDataSame nodeNym data then some .sameData
    else if h.isNodeDataConflicting data (some nodeNym) then some (.conflicting data)
    else none

def authErrorWhileUpdatingNode (h : PoolHandler) (domainState : DomainState) (req : Request NodeOperation) :
    Option PoolAuthError × PoolHandler :=
  let origin := req.identifier
  let nodeNym := req.operation.dest
  if !DomainRequestHandler.isSteward domainState origin false then (some (.cannotUpdate origin), h)
  else
    let answer := h.isStewardOfNode origin nodeNym
    if !answer.1 then (some (.notStewardOf origin nodeNym), answer.2)
    else (answer.2.dataErrorWhileValidatingUpdate req.operation.data.data nodeNym, answer.2)

/-- the error, if the request is refused; the cache may have changed -/
def validate (h : PoolHandler) (domainState : DomainState) (req : Request NodeOperation) :
    Option PoolAuthError × PoolHandler :=
  if (h.getNodeData req.operation.dest).size ≠ 0 then h.authErrorWhileUpdatingNode domainState req
  else (h.authErrorWhileAddingNode domainState req, h)

def reqToTxn (req : Request NodeOperation) : PoolTxn DataValue :=
  ⟨.str req.identifier, req.operation.dest, req.operation.data.data⟩

def apply (root : List (PoolTxn DataValue) → String) (h : PoolHandler) (req : Request NodeOperation) : PoolHandler :=
  { h with db := h.db.applyTxn PoolRequestHandler.updateState PoolRequestHandler.withSeqNo root (reqToTxn req) }

/-- a request is applied only if it is accepted; the domain state is that at the time -/
def request (root : List (PoolTxn DataValue) → String) (h : PoolHandler) (r : DomainState × Request NodeOperation) :
    PoolHandler :=
  let res := h.validate r.1 r.2
  match res.1 with
  | some _ => res.2
  | none => res.2.apply root r.2

def requests (root : List (PoolTxn DataValue) → String) (h : PoolHandler)
    (rs : List (DomainState × Request NodeOperation)) : PoolHandler := rs.foldl (request root) h

def head (h : PoolHandler) : Dict String (NodeData DataValue) := h.db.state.headHash

/-- the addresses that a node has -/
def addresses (d : NodeData DataValue) : Finset Identity := ({nodeHa d, clientHa d} : Finset Identity).erase (.ha none none)

end PoolHandler

open PoolHandler

/-! ## Consistent membership -/

/-- every node has an owner and an alias, and no steward owns two nodes -/
structure Owned (s : Dict String (NodeData DataValue)) : Prop where
  recorded : ∀ n d, s.get? n = some d → (d.get? IDENTIFIER).isSome ∧ (d.get? ALIAS).isSome
  owners : ∀ n m d e, s.get? n = some d → s.get? m = some e → d.get? IDENTIFIER = e.get? IDENTIFIER → n = m

/-- no alias and no address is that of two nodes -/
structure Apart (s : Dict String (NodeData DataValue)) : Prop where
  aliases : ∀ n m d e, s.get? n = some d → s.get? m = some e → n ≠ m → d.get? ALIAS ≠ e.get? ALIAS
  addresses : ∀ n m d e, s.get? n = some d → s.get? m = some e → n ≠ m → Disjoint (addresses d) (addresses e)

structure Membership (s : Dict String (NodeData DataValue)) : Prop extends Owned s, Apart s

/-- the owner and the alias of no node have changed -/
def Kept (s s' : Dict String (NodeData DataValue)) : Prop :=
  ∀ n d, s.get? n = some d → ∃ d', s'.get? n = some d' ∧ d'.get? IDENTIFIER = d.get? IDENTIFIER ∧
    d'.get? ALIAS = d.get? ALIAS

/-- no node has the alias or an address of the data -/
def Unused (s : Dict String (NodeData DataValue)) (data : Dict String DataValue) : Prop :=
  ∀ n d, s.get? n = some d → d.get? ALIAS ≠ data.get? ALIAS ∧ Disjoint (addresses d) (addresses data)

theorem Kept.refl (s : Dict String (NodeData DataValue)) : Kept s s := fun _ d h => ⟨d, h, rfl, rfl⟩

theorem Kept.trans {s s' s'' : Dict String (NodeData DataValue)} (h : Kept s s') (h' : Kept s' s'') : Kept s s'' := by
  intro n d hd
  obtain ⟨d', hd', hid, halias⟩ := h n d hd
  obtain ⟨d'', hd'', hid', halias'⟩ := h' n d' hd'
  exact ⟨d'', hd'', hid'.trans hid, halias'.trans halias⟩

/-- what is cached are answers, to questions about nodes of the pool -/
def PoolHandler.CacheOk (h : PoolHandler) : Prop :=
  ∀ e ∈ h.stewardOfNode, ∃ d, h.head.get? e.1.2 = some d ∧ e.2 = decide (d.get? IDENTIFIER = some (.str e.1.1))

/-! ## The identities of a node -/

/-- the fields by which nodes are told apart -/
def identityFields : List String := ALIAS :: haFields

theorem identities_congr {d e : NodeData DataValue} (h : ∀ k ∈ identityFields, d.get? k = e.get? k) :
    identities d = identities e := by
  unfold identities nodeHa clientHa
  rw [h ALIAS (by decide), h NODE_IP (by decide), h NODE_PORT (by decide), h CLIENT_IP (by decide),
    h CLIENT_PORT (by decide)]

theorem addresses_congr {d e : NodeData DataValue} (h : ∀ k ∈ identityFields, d.get? k = e.get? k) :
    addresses d = addresses e := by
  unfold addresses nodeHa clientHa
  rw [h NODE_IP (by decide), h NODE_PORT (by decide), h CLIENT_IP (by decide), h CLIENT_PORT (by decide)]

theorem addresses_subset (d : NodeData DataValue) : addresses d ⊆ identities d := by
  intro a ha
  exact Finset.mem_insert_of_mem (Finset.mem_of_mem_erase ha)

/-- six different identities are three of each -/
theorem disjoint_of_card_bag {d e : NodeData DataValue} (h : (bag d e).card = 6) :
    Disjoint (identities d) (identities e) := by
  have hunion : 6 ≤ (identities d ∪ identities e).card := by
    rw [← h]
    exact Finset.card_le_card ((Finset.erase_subset _ _).trans (Finset.erase_subset _ _))
  have hd : (identities d).card ≤ 3 := Finset.card_le_three
  have he : (identities e).card ≤ 3 := Finset.card_le_three
  have hinter := Finset.card_union_add_card_inter (identities d) (identities e)
  rw [Finset.disjoint_iff_inter_eq_empty, ← Finset.card_eq_zero]
  omega

theorem apart_of_disjoint {d e : NodeData DataValue} (h : Disjoint (identities d) (identities e)) :
    d.get? ALIAS ≠ e.get? ALIAS ∧ Disjoint (addresses d) (addresses e) := by
  refine ⟨fun halias => ?_, h.mono (addresses_subset d) (addresses_subset e)⟩
  have hd : Identity.alias (d.get? ALIAS) ∈ identities d := Finset.mem_insert_self _ _
  have he : Identity.alias (e.get? ALIAS) ∈ identities e := Finset.mem_insert_self _ _
  exact Finset.disjoint_left.1 h hd (halias ▸ he)

/-- the data of an accepted update is apart from every other node's -/
theorem apart_of_not_conflictsWith {d e : NodeData DataValue} (hsize : d.size ≠ 0) (h : conflictsWith d e = false) :
    d.get? ALIAS ≠ e.get? ALIAS ∧ Disjoint (addresses d) (addresses e) := by
  unfold conflictsWith at h
  simp only [if_neg hsize, decide_eq_false_iff_not, not_not] at h
  have hsame : ∀ k ∈ identityFields, ((e.erase IDENTIFIER).erase SERVICES).get? k = e.get? k := by
    intro k hk
    have hfield : k ≠ SERVICES ∧ k ≠ IDENTIFIER := by
      revert k
      decide
    rw [Dict.get?_erase, if_neg hfield.1, Dict.get?_erase, if_neg hfield.2]
  have hdisjoint := disjoint_of_card_bag h
  rw [identities_congr hsame] at hdisjoint
  exact apart_of_disjoint hdisjoint

/-! ## What is recorded for a node -/

section Record

variable {h : PoolHandler} {req : Request NodeOperation} {root : List (PoolTxn DataValue) → String}

theorem getNodeData_eq (h : PoolHandler) (nym : String) : h.getNodeData nym = (h.head.get? nym).getD Dict.empty := rfl

theorem size_ne_zero {α : Type} {d : Dict String α} {k : String} (h : (d.get? k).isSome) : d.size ≠ 0 := by
  intro h0
  obtain ⟨v, hv⟩ := Option.isSome_iff_exists.1 h
  have hmem := Dict.get?_eq_some.1 hv
  rw [List.length_eq_zero_iff.1 h0] at hmem
  cases hmem

/-- a node has data exactly if there is a record of it -/
theorem getNodeData_size_iff (ho : Owned h.head) (nym : String) :
    (h.getNodeData nym).size ≠ 0 ↔ (h.head.get? nym).isSome := by
  rw [getNodeData_eq]
  cases hd : h.head.get? nym with
  | none => simp [Dict.size, Dict.empty]
  | some d => simpa using size_ne_zero (ho.recorded nym d hd).1

/-- the owner is not among the fields of a request -/
theorem ClientNodeOperationData.get?_identifier (data : ClientNodeOperationData) : data.data.get? IDENTIFIER = none := by
  rw [Dict.get?_eq_none]
  intro hmem
  exact absurd (data.known _ hmem) (by decide)

/-- the record of the node after a request is applied -/
theorem head_apply (h : PoolHandler) (req : Request NodeOperation) : (h.apply root req).head =
    h.head.set req.operation.dest (PoolRequestHandler.nodeAfter (h.getNodeData req.operation.dest) (reqToTxn req)) := rfl

/-- the record of a new node -/
theorem get?_newNode (req : Request NodeOperation) (key : String) :
    (PoolRequestHandler.nodeAfter Dict.empty (reqToTxn req)).get? key =
      if key = IDENTIFIER then some (.str req.identifier) else req.operation.data.data.get? key := by
  rw [PoolRequestHandler.get?_nodeAfter_empty]
  unfold PoolRequestHandler.authorAt
  split_ifs with hkey
  · rw [hkey]
    exact congrArg (Option.or · _) (req.operation.data.get?_identifier)
  · exact Option.or_none

theorem newNode_identities (req : Request NodeOperation) : ∀ k ∈ identityFields,
    (PoolRequestHandler.nodeAfter Dict.empty (reqToTxn req)).get? k = req.operation.data.data.get? k := by
  intro k hk
  have hne : k ≠ IDENTIFIER := by
    revert k
    decide
  rw [get?_newNode, if_neg hne]

/-- the data that an update is checked with is that of the node after it -/
theorem updatedData_identities {d : NodeData DataValue} (hd : h.head.get? req.operation.dest = some d)
    (hsize : d.size ≠ 0) : ∀ k ∈ identityFields,
    (PoolRequestHandler.nodeAfter d (reqToTxn req)).get? k =
      (h.updatedData req.operation.data.data req.operation.dest).get? k := by
  intro k hk
  have hfield : k ≠ SERVICES ∧ k ≠ IDENTIFIER := by
    revert k
    decide
  rw [PoolRequestHandler.get?_nodeAfter hsize]
  unfold updatedData
  rw [Dict.get?_update, Dict.get?_erase, if_neg hfield.1, Dict.get?_erase, if_neg hfield.2, getNodeData_eq, hd]
  rfl

end Record

/-! ## What a request does -/

section Step

variable {h : PoolHandler} {req : Request NodeOperation} {root : List (PoolTxn DataValue) → String}
  {domainState : DomainState}

theorem lruCache_mem {κ β : Type} [DecidableEq κ] {maxsize : ℕ} {cache : List (κ × β)} {key : κ} {compute : β}
    {e : κ × β} (he : e ∈ (lruCache maxsize cache key compute).2) : e ∈ cache ∨ e = (key, compute) := by
  unfold lruCache at he
  split at he
  · rename_i e' hfind
    rcases List.mem_cons.1 he with rfl | he
    · exact Or.inl (List.mem_of_find?_eq_some hfind)
    · exact Or.inl (List.mem_of_mem_filter he)
  · rcases List.mem_cons.1 (List.mem_of_mem_take he) with rfl | he
    · exact Or.inr rfl
    · exact Or.inl he

theorem lruCache_answer {κ β : Type} [DecidableEq κ] (maxsize : ℕ) (cache : List (κ × β)) (key : κ) (compute : β) :
    (key, (lruCache maxsize cache key compute).1) ∈ cache ∨ (lruCache maxsize cache key compute).1 = compute := by
  unfold lruCache
  split
  · rename_i e hfind
    have hkey : e.1 = key := by simpa using List.find?_some hfind
    exact Or.inl (hkey ▸ List.mem_of_find?_eq_some hfind)
  · exact Or.inr rfl

/-- the cache does not hide a change of owner, since there is none -/
theorem isStewardOfNode_spec (hc : h.CacheOk) (stewardNym : String) {nodeNym : String} {d : NodeData DataValue}
    (hd : h.head.get? nodeNym = some d) (hsize : d.size ≠ 0) :
    (h.isStewardOfNode stewardNym nodeNym).1 = decide (d.get? IDENTIFIER = some (.str stewardNym)) ∧
      (h.isStewardOfNode stewardNym nodeNym).2.CacheOk ∧ (h.isStewardOfNode stewardNym nodeNym).2.db = h.db := by
  have hcompute : decide ((h.getNodeData nodeNym).size ≠ 0 ∧
      (h.getNodeData nodeNym).get? IDENTIFIER = some (.str stewardNym)) =
        decide (d.get? IDENTIFIER = some (.str stewardNym)) := by
    rw [getNodeData_eq, hd]
    simp [hsize]
  refine ⟨?_, ?_, rfl⟩
  · unfold isStewardOfNode
    rcases lruCache_answer 64 h.stewardOfNode (stewardNym, nodeNym) (decide ((h.getNodeData nodeNym).size ≠ 0 ∧
        (h.getNodeData nodeNym).get? IDENTIFIER = some (.str stewardNym))) with hmem | heq
    · obtain ⟨d', hd', hanswer⟩ := hc _ hmem
      rw [hd] at hd'
      cases hd'
      exact hanswer
    · exact heq.trans hcompute
  · intro e he
    rcases lruCache_mem he with hmem | rfl
    · exact hc e hmem
    · exact ⟨d, hd, hcompute⟩

/-- what an accepted new node is -/
structure AcceptedNew (h : PoolHandler) (req : Request NodeOperation) : Prop where
  new : h.head.get? req.operation.dest = none
  complete : ∀ k ∈ identityFields, k ∈ req.operation.data.data.keys
  owner : ∀ n d, h.head.get? n = some d → d.get? IDENTIFIER ≠ some (.str req.identifier)

/-- what an accepted update of a node with the record `d` is -/
structure AcceptedUpdate (h : PoolHandler) (req : Request NodeOperation) (d : NodeData DataValue) : Prop where
  old : h.head.get? req.operation.dest = some d
  owner : d.get? IDENTIFIER = some (.str req.identifier)
  sameAlias : d.get? ALIAS = req.operation.data.data.get? ALIAS
  apart : ∀ m e, m ≠ req.operation.dest → h.head.get? m = some e →
    conflictsWith (h.updatedData req.operation.data.data req.operation.dest) e = false

theorem acceptedNew_of_validate (hnew : h.head.get? req.operation.dest = none)
    (hv : h.authErrorWhileAddingNode domainState req = none) : AcceptedNew h req := by
  unfold authErrorWhileAddingNode at hv
  dsimp only at hv
  split at hv
  · cases hv
  · rename_i hdata
    split_ifs at hv with hsteward howner hconflict
    refine ⟨hnew, ?_, ?_⟩
    · unfold dataErrorWhileValidating at hdata
      split_ifs at hdata with hkeys
      simpa [identityFields] using hkeys
    · intro n d hd hid
      apply howner
      unfold stewardHasNode
      rw [List.any_eq_true]
      exact ⟨(n, d), Dict.get?_eq_some.1 hd, by simpa using hid⟩

theorem acceptedUpdate_of_validate {d : NodeData DataValue} (hd : h.head.get? req.operation.dest = some d)
    (howner : d.get? IDENTIFIER = some (.str req.identifier))
    (hv : h.dataErrorWhileValidatingUpdate req.operation.data.data req.operation.dest = none) :
    AcceptedUpdate h req d := by
  unfold dataErrorWhileValidatingUpdate at hv
  split at hv
  · cases hv
  · split_ifs at hv with hsame hconflict
    simp only [isNodeDataConflicting, getNodeData_eq, hd, Option.getD_some] at hconflict
    split_ifs at hconflict with halias
    · exact absurd rfl hconflict
    · refine ⟨hd, howner, not_not.1 halias, ?_⟩
      intro m e hm he
      apply Bool.eq_false_iff.2
      intro htrue
      apply hconflict
      rw [List.any_eq_true]
      exact ⟨(m, e), Dict.get?_eq_some.1 he, by simp [hm, htrue]⟩

/-- **What a request can do.** It is refused, adds a node or updates one; the cache stays a cache. -/
theorem request_cases (root : List (PoolTxn DataValue) → String) (ho : Owned h.head) (hc : h.CacheOk) :
    ∃ h₁ : PoolHandler, h₁.db = h.db ∧ h₁.CacheOk ∧
      (((h.validate domainState req).1 ≠ none ∧ h.request root (domainState, req) = h₁) ∨
      ((h.validate domainState req).1 = none ∧ h.request root (domainState, req) = h₁.apply root req ∧
        (AcceptedNew h req ∨ ∃ d, AcceptedUpdate h req d))) := by
  by_cases hsize : (h.getNodeData req.operation.dest).size ≠ 0
  · obtain ⟨d, hd⟩ := Option.isSome_iff_exists.1 ((getNodeData_size_iff ho _).1 hsize)
    have hvalidate : h.validate domainState req = h.authErrorWhileUpdatingNode domainState req := if_pos hsize
    obtain ⟨hanswer, hcache, hdb⟩ := isStewardOfNode_spec hc req.identifier hd
      (size_ne_zero (ho.recorded _ d hd).1)
    unfold PoolHandler.request
    rw [hvalidate]
    unfold authErrorWhileUpdatingNode
    dsimp only
    split_ifs with hsteward howner
    · exact ⟨h, rfl, hc, Or.inl ⟨by simp, rfl⟩⟩
    · exact ⟨_, hdb, hcache, Or.inl ⟨by simp, rfl⟩⟩
    · have hid : d.get? IDENTIFIER = some (.str req.identifier) := by simpa [hanswer] using howner
      cases herror : (h.isStewardOfNode req.identifier req.operation.dest).2.dataErrorWhileValidatingUpdate
          req.operation.data.data req.operation.dest with
      | some error => exact ⟨_, hdb, hcache, Or.inl ⟨by simp, rfl⟩⟩
      | none => exact ⟨_, hdb, hcache, Or.inr ⟨rfl, rfl, Or.inr ⟨d, acceptedUpdate_of_validate hd hid herror⟩⟩⟩
  · have hnew : h.head.get? req.operation.dest = none := by
      rw [← Option.not_isSome_iff_eq_none]
      exact fun hsome => hsize ((getNodeData_size_iff ho _).2 hsome)
    have hvalidate : h.validate domainState req = (h.authErrorWhileAddingNode domainState req, h) := if_neg hsize
    unfold PoolHandler.request
    rw [hvalidate]
    cases herror : h.authErrorWhileAddingNode domainState req with
    | some error => exact ⟨h, rfl, hc, Or.inl ⟨by simp, rfl⟩⟩
    | none => exact ⟨h, rfl, hc, Or.inr ⟨rfl, rfl, Or.inl (acceptedNew_of_validate hnew herror)⟩⟩

/-- a request to a node of which nothing is recorded is applied to an empty record -/
theorem head_applyNew {h₁ : PoolHandler} (hdb : h₁.db = h.db) (hnew : AcceptedNew h req) :
    (h₁.apply root req).head =
      h.head.set req.operation.dest (PoolRequestHandler.nodeAfter Dict.empty (reqToTxn req)) := by
  have hhead : h₁.head = h.head := congrArg (fun db => db.state.headHash) hdb
  rw [head_apply, getNodeData_eq, hhead, hnew.new]
  rfl

theorem head_applyUpdate {h₁ : PoolHandler} (hdb : h₁.db = h.db) {d : NodeData DataValue}
    (hupdate : AcceptedUpdate h req d) : (h₁.apply root req).head =
      h.head.set req.operation.dest (PoolRequestHandler.nodeAfter d (reqToTxn req)) := by
  have hhead : h₁.head = h.head := congrArg (fun db => db.state.headHash) hdb
  rw [head_apply, getNodeData_eq, hhead, hupdate.old]
  rfl

end Step

/-! ## Owners and aliases -/

/-- a record in a state with one record written -/
theorem get?_set_cases {s : Dict String (NodeData DataValue)} {n m : String} {d e : NodeData DataValue}
    (h : (s.set n d).get? m = some e) : (m = n ∧ e = d) ∨ (m ≠ n ∧ s.get? m = some e) := by
  rw [Dict.get?_set] at h
  split_ifs at h with hm
  · exact Or.inl ⟨hm, (Option.some.inj h).symm⟩
  · exact Or.inr ⟨hm, h⟩

section Owners

variable {h : PoolHandler} {req : Request NodeOperation}

theorem owned_new (ho : Owned h.head) (hnew : AcceptedNew h req) :
    Owned (h.head.set req.operation.dest (PoolRequestHandler.nodeAfter Dict.empty (reqToTxn req))) := by
  have hid := get?_newNode req IDENTIFIER
  rw [if_pos rfl] at hid
  constructor
  · intro n d hd
    rcases get?_set_cases hd with ⟨-, rfl⟩ | ⟨-, hd⟩
    · rw [hid, newNode_identities req ALIAS (by decide)]
      exact ⟨rfl, req.operation.data.hasAlias⟩
    · exact ho.recorded n d hd
  · intro n m d e hd he hsame
    rcases get?_set_cases hd with ⟨rfl, rfl⟩ | ⟨-, hd⟩ <;> rcases get?_set_cases he with ⟨rfl, rfl⟩ | ⟨-, he⟩
    · rfl
    · exact absurd (hsame.symm.trans hid) (hnew.owner m e he)
    · exact absurd (hsame.trans hid) (hnew.owner n d hd)
    · exact ho.owners n m d e hd he hsame

theorem kept_new (hnew : AcceptedNew h req) (d : NodeData DataValue) :
    Kept h.head (h.head.set req.operation.dest d) := by
  intro n d' hd'
  have hne : n ≠ req.operation.dest := by
    rintro rfl
    rw [hnew.new] at hd'
    cases hd'
  exact ⟨d', (Dict.get?_set_ne h.head d hne).trans hd', rfl, rfl⟩

/-- what an update leaves as it was -/
theorem updated_same {d : NodeData DataValue} (ho : Owned h.head) (hupdate : AcceptedUpdate h req d) :
    (PoolRequestHandler.nodeAfter d (reqToTxn req)).get? IDENTIFIER = d.get? IDENTIFIER ∧
      (PoolRequestHandler.nodeAfter d (reqToTxn req)).get? ALIAS = d.get? ALIAS := by
  have hsize := size_ne_zero (ho.recorded _ d hupdate.old).1
  rw [PoolRequestHandler.get?_nodeAfter hsize, PoolRequestHandler.get?_nodeAfter hsize]
  constructor
  · exact congrArg (Option.or · _) req.operation.data.get?_identifier
  · rw [hupdate.sameAlias]
    exact Option.or_self

theorem kept_update {d : NodeData DataValue} (ho : Owned h.head) (hupdate : AcceptedUpdate h req d) :
    Kept h.head (h.head.set req.operation.dest (PoolRequestHandler.nodeAfter d (reqToTxn req))) := by
  intro n d' hd'
  by_cases hn : n = req.operation.dest
  · subst hn
    rw [hupdate.old] at hd'
    cases hd'
    exact ⟨_, Dict.get?_set_self _ _ _, updated_same ho hupdate⟩
  · exact ⟨d', (Dict.get?_set_ne h.head _ hn).trans hd', rfl, rfl⟩

theorem owned_update {d : NodeData DataValue} (ho : Owned h.head) (hupdate : AcceptedUpdate h req d) :
    Owned (h.head.set req.operation.dest (PoolRequestHandler.nodeAfter d (reqToTxn req))) := by
  obtain ⟨hid, halias⟩ := updated_same ho hupdate
  -- every record of the new state has an owner and an alias as before
  have hbefore : ∀ n e, (h.head.set req.operation.dest (PoolRequestHandler.nodeAfter d (reqToTxn req))).get? n = some e →
      ∃ e', h.head.get? n = some e' ∧ e.get? IDENTIFIER = e'.get? IDENTIFIER ∧ e.get? ALIAS = e'.get? ALIAS := by
    intro n e he
    rcases get?_set_cases he with ⟨rfl, rfl⟩ | ⟨-, he⟩
    · exact ⟨d, hupdate.old, hid, halias⟩
    · exact ⟨e, he, rfl, rfl⟩
  constructor
  · intro n e he
    obtain ⟨e', he', hid', halias'⟩ := hbefore n e he
    rw [hid', halias']
    exact ho.recorded n e' he'
  · intro n m e₁ e₂ he₁ he₂ hsame
    obtain ⟨e₁', he₁', hid₁, -⟩ := hbefore n e₁ he₁
    obtain ⟨e₂', he₂', hid₂, -⟩ := hbefore m e₂ he₂
    exact ho.owners n m e₁' e₂' he₁' he₂' (hid₁.symm.trans (hsame.trans hid₂))

end Owners

/-! ## Aliases and addresses -/

section Addresses

variable {h : PoolHandler} {req : Request NodeOperation}

/-- one node's data is written: the others stay apart, and it has to be apart from them -/
theorem apart_set_iff {s : Dict String (NodeData DataValue)} (ha : Apart s) (n : String) (d : NodeData DataValue) :
    Apart (s.set n d) ↔ ∀ m e, m ≠ n → s.get? m = some e →
      d.get? ALIAS ≠ e.get? ALIAS ∧ Disjoint (addresses d) (addresses e) := by
  constructor
  · intro hset m e hm he
    have hd := Dict.get?_set_self s n d
    have he' := (Dict.get?_set_ne s d hm).trans he
    exact ⟨hset.aliases n m d e hd he' hm.symm, hset.addresses n m d e hd he' hm.symm⟩
  · intro hd
    constructor
    · intro m m' e e' he he' hne
      rcases get?_set_cases he with ⟨rfl, rfl⟩ | ⟨hm, hs⟩ <;> rcases get?_set_cases he' with ⟨rfl, rfl⟩ | ⟨hm', hs'⟩
      · exact absurd rfl hne
      · exact (hd m' e' hm' hs').1
      · exact (hd m e hm hs).1.symm
      · exact ha.aliases m m' e e' hs hs' hne
    · intro m m' e e' he he' hne
      rcases get?_set_cases he with ⟨rfl, rfl⟩ | ⟨hm, hs⟩ <;> rcases get?_set_cases he' with ⟨rfl, rfl⟩ | ⟨hm', hs'⟩
      · exact absurd rfl hne
      · exact (hd m' e' hm' hs').2
      · exact (hd m e hm hs).2.symm
      · exact ha.addresses m m' e e' hs hs' hne

theorem apart_update {d : NodeData DataValue} (ho : Owned h.head) (ha : Apart h.head) (hupdate : AcceptedUpdate h req d) :
    Apart (h.head.set req.operation.dest (PoolRequestHandler.nodeAfter d (reqToTxn req))) := by
  have hsame := updatedData_identities hupdate.old (size_ne_zero (ho.recorded _ d hupdate.old).1)
  refine (apart_set_iff ha _ _).2 fun m e hm he => ?_
  rw [hsame ALIAS (by decide), addresses_congr hsame]
  refine apart_of_not_conflictsWith (size_ne_zero (k := ALIAS) ?_) (hupdate.apart m e hm he)
  rw [← hsame ALIAS (by decide), (updated_same ho hupdate).2]
  exact (ho.recorded _ d hupdate.old).2

/-- a new node is apart from the others exactly if its data is unused -/
theorem apart_new_iff (ha : Apart h.head) (hnew : AcceptedNew h req) :
    Apart (h.head.set req.operation.dest (PoolRequestHandler.nodeAfter Dict.empty (reqToTxn req))) ↔
      Unused h.head req.operation.data.data := by
  have hsame := newNode_identities req
  rw [apart_set_iff ha]
  unfold Unused
  constructor
  · intro hapart n d hd
    have hn : n ≠ req.operation.dest := by
      rintro rfl
      rw [hnew.new] at hd
      cases hd
    obtain ⟨halias, haddresses⟩ := hapart n d hn hd
    rw [hsame ALIAS (by decide)] at halias
    rw [addresses_congr hsame] at haddresses
    exact ⟨halias.symm, haddresses.symm⟩
  · intro hunused m e _ he
    obtain ⟨halias, haddresses⟩ := hunused m e he
    rw [hsame ALIAS (by decide), addresses_congr hsame]
    exact ⟨halias.symm, haddresses.symm⟩

end Addresses

/-! ## Every sequence of requests -/

section Run

variable {h : PoolHandler} {req : Request NodeOperation} {root : List (PoolTxn DataValue) → String}
  {domainState : DomainState}

theorem CacheOk.kept {h' : PoolHandler} (hc : h.CacheOk) (hcache : h'.stewardOfNode = h.stewardOfNode)
    (hkept : Kept h.head h'.head) : h'.CacheOk := by
  intro e he
  obtain ⟨d, hd, hanswer⟩ := hc e (hcache ▸ he)
  obtain ⟨d', hd', hid, -⟩ := hkept _ d hd
  exact ⟨d', hd', by rw [hanswer, hid]⟩

/-- **The step lemma.** Owners and aliases are kept; the nodes stay apart unless a new one is not. -/
theorem request_step (root : List (PoolTxn DataValue) → String) (domainState : DomainState)
    (req : Request NodeOperation) (ho : Owned h.head) (hc : h.CacheOk) :
    Owned (h.request root (domainState, req)).head ∧ (h.request root (domainState, req)).CacheOk ∧
      Kept h.head (h.request root (domainState, req)).head ∧
      (Apart h.head → (Apart (h.request root (domainState, req)).head ↔
        (h.head.get? req.operation.dest = none → (h.validate domainState req).1 = none →
          Unused h.head req.operation.data.data))) := by
  obtain ⟨h₁, hdb, hcache, ⟨hrefused, heq⟩ | ⟨haccepted, heq, hnew | ⟨d, hupdate⟩⟩⟩ :=
    @request_cases h req domainState root ho hc
  · have hhead : h₁.head = h.head := congrArg (fun db => db.state.headHash) hdb
    rw [heq, hhead]
    exact ⟨ho, hcache, Kept.refl _, fun ha => ⟨fun _ _ h => absurd h hrefused, fun _ => ha⟩⟩
  · have hkept := kept_new hnew (PoolRequestHandler.nodeAfter Dict.empty (reqToTxn req))
    have hhead : h₁.head = h.head := congrArg (fun db => db.state.headHash) hdb
    have hcache' : (h₁.apply root req).CacheOk := CacheOk.kept hcache rfl (by rwa [head_applyNew hdb hnew, hhead])
    rw [heq, head_applyNew hdb hnew]
    exact ⟨owned_new ho hnew, hcache', hkept, fun ha => (apart_new_iff ha hnew).trans
      ⟨fun hunused _ _ => hunused, fun hunused => hunused hnew.new haccepted⟩⟩
  · have hkept := kept_update ho hupdate
    have hhead : h₁.head = h.head := congrArg (fun db => db.state.headHash) hdb
    have hcache' : (h₁.apply root req).CacheOk :=
      CacheOk.kept hcache rfl (by rwa [head_applyUpdate hdb hupdate, hhead])
    rw [heq, head_applyUpdate hdb hupdate]
    refine ⟨owned_update ho hupdate, hcache', hkept, fun ha => ⟨fun _ hnone => ?_, fun _ => apart_update ho ha hupdate⟩⟩
    rw [hupdate.old] at hnone
    cases hnone

/-- what does not depend on how nodes are added -/
theorem requests_owned (root : List (PoolTxn DataValue) → String) (ho : Owned h.head) (hc : h.CacheOk)
    (rs : List (DomainState × Request NodeOperation)) :
    Owned (h.requests root rs).head ∧ (h.requests root rs).CacheOk ∧ Kept h.head (h.requests root rs).head := by
  induction rs generalizing h with
  | nil => exact ⟨ho, hc, Kept.refl _⟩
  | cons r rs ih =>
    obtain ⟨domainState, req⟩ := r
    obtain ⟨ho', hc', hkept, -⟩ := request_step root domainState req ho hc
    obtain ⟨ho'', hc'', hkept'⟩ := ih ho' hc'
    exact ⟨ho'', hc'', hkept.trans hkept'⟩

/-- every accepted new node has an alias and addresses that no node has -/
def NewNodesUnused (root : List (PoolTxn DataValue) → String) (h : PoolHandler)
    (rs : List (DomainState × Request NodeOperation)) : Prop :=
  ∀ before domainState req, before ++ [(domainState, req)] <+: rs →
    (h.requests root before).head.get? req.operation.dest = none →
    ((h.requests root before).validate domainState req).1 = none →
      Unused (h.requests root before).head req.operation.data.data

theorem requests_concat (root : List (PoolTxn DataValue) → String) (h : PoolHandler)
    (rs : List (DomainState × Request NodeOperation)) (r : DomainState × Request NodeOperation) :
    h.requests root (rs ++ [r]) = (h.requests root rs).request root r := by
  unfold requests
  rw [List.foldl_append]
  rfl

/-- **When the membership of the pool stays consistent.** In every sequence of requests the owners and aliases recorded
are kept and no steward comes to own two nodes. Aliases and addresses stay different after every request if and only if
no accepted new node has one that is taken. -/
theorem membership_iff (root : List (PoolTxn DataValue) → String) (hm : Membership h.head) (hc : h.CacheOk)
    (rs : List (DomainState × Request NodeOperation)) :
    (∀ before, before <+: rs → Owned (h.requests root before).head ∧ Kept h.head (h.requests root before).head) ∧
      ((∀ before, before <+: rs → Membership (h.requests root before).head) ↔ NewNodesUnused root h rs) := by
  refine ⟨fun before _ => ?_, ?_, ?_⟩
  · obtain ⟨ho, -, hkept⟩ := requests_owned root hm.toOwned hc before
    exact ⟨ho, hkept⟩
  · intro hall before domainState req hpre hnew haccepted
    obtain ⟨ho, hcache, -⟩ := requests_owned root hm.toOwned hc before
    have hbefore := hall before ((List.prefix_append _ _).trans hpre)
    have hafter := hall _ hpre
    rw [requests_concat] at hafter
    obtain ⟨-, -, -, hapart⟩ := request_step root domainState req ho hcache
    exact (hapart hbefore.toApart).1 hafter.toApart hnew haccepted
  · -- by induction on what was requested before
    intro hunused before
    induction before using List.reverseRecOn with
    | nil => exact fun _ => hm
    | append_singleton before r ih =>
      intro hpre
      obtain ⟨domainState, req⟩ := r
      obtain ⟨ho, hcache, -⟩ := requests_owned root hm.toOwned hc before
      have hbefore := ih ((List.prefix_append _ _).trans hpre)
      obtain ⟨ho', -, -, hapart⟩ := request_step root domainState req ho hcache
      rw [requests_concat]
      exact ⟨ho', (hapart hbefore.toApart).2 (hunused before domainState req hpre)⟩

end Run

/-! ## Witnesses -/

/-- a pool of one node -/
theorem membership_single {n : String} {d : NodeData DataValue} (howner : (d.get? IDENTIFIER).isSome)
    (halias : (d.get? ALIAS).isSome) : Membership ((Dict.empty : Dict String (NodeData DataValue)).set n d) := by
  have hget : ∀ m e, ((Dict.empty : Dict String (NodeData DataValue)).set n d).get? m = some e → m = n ∧ e = d := by
    intro m e he
    rcases get?_set_cases he with h | ⟨-, h⟩
    · exact h
    · cases h
  refine ⟨⟨?_, ?_⟩, ⟨?_, ?_⟩⟩
  · intro m e he
    obtain ⟨-, rfl⟩ := hget m e he
    exact ⟨howner, halias⟩
  · intro m m' e e' he he' _
    exact (hget m e he).1.trans (hget m' e' he').1.symm
  · intro m m' e e' he he' hne
    exact absurd ((hget m e he).1.trans (hget m' e' he').1.symm) hne
  · intro m m' e e' he he' hne
    exact absurd ((hget m e he).1.trans (hget m' e' he').1.symm) hne

namespace TwoStewards

/-- the data of a node with the given name and ports -/
def dataOf (name : String) (port cliPort : ℤ) : Dict String DataValue :=
  ((((Dict.empty.set ALIAS (.str name)).set NODE_IP (.str "10.0.0.1")).set NODE_PORT (.int port)).set CLIENT_IP
    (.str "10.0.0.1")).set CLIENT_PORT (.int cliPort)

def alpha : ClientNodeOperationData := ⟨dataOf "Alpha" 9701 9702, by decide, by decide, by decide⟩

def beta : ClientNodeOperationData := ⟨dataOf "Beta" 9703 9704, by decide, by decide, by decide⟩

def nodeRequest (steward dest : String) (data : ClientNodeOperationData) : Request NodeOperation :=
  ⟨steward, 1, ⟨dest, data⟩, "", ""⟩

def stewards : DomainState :=
  let record : NymData := ⟨"trustee", some STEWARD, none, none⟩
  ⟨(Dict.empty.set "s1" record).set "s2" record, (Dict.empty.set "s1" record).set "s2" record⟩

def poolRoot (txns : List (PoolTxn DataValue)) : String := String.ofList (txns.map fun _ => 'p')

/-- the first steward's node -/
def pool : PoolHandler := (⟨⟨Ledger.empty, State.empty⟩, []⟩ : PoolHandler).apply poolRoot (nodeRequest "s1" "n1" alpha)

theorem pool_membership : Membership pool.head :=
  @membership_single "n1" (PoolRequestHandler.nodeAfter Dict.empty (reqToTxn (nodeRequest "s1" "n1" alpha)))
    (by decide) (by decide)

theorem pool_cacheOk : pool.CacheOk := fun e he => by cases he

/-- the second steward's node, with the same alias and addresses -/
def alphaAgain : DomainState × Request NodeOperation := (stewards, nodeRequest "s2" "n2" alpha)

end TwoStewards

open TwoStewards in
/-- **An alias and addresses that are taken twice.** -/
theorem alias_taken_twice : Membership pool.head ∧ pool.CacheOk ∧
    (pool.validate alphaAgain.1 alphaAgain.2).1 = none ∧
    ¬ Membership (pool.requests poolRoot [alphaAgain]).head := by
  refine ⟨pool_membership, pool_cacheOk, by decide +kernel, fun h => ?_⟩
  obtain ⟨d, hd⟩ := Option.isSome_iff_exists.1
    (show ((pool.requests poolRoot [alphaAgain]).head.get? "n1").isSome by decide +kernel)
  obtain ⟨e, he⟩ := Option.isSome_iff_exists.1
    (show ((pool.requests poolRoot [alphaAgain]).head.get? "n2").isSome by decide +kernel)
  have halias : ((pool.requests poolRoot [alphaAgain]).head.get? "n1").map (fun d => d.get? ALIAS) =
      ((pool.requests poolRoot [alphaAgain]).head.get? "n2").map fun d => d.get? ALIAS := by decide +kernel
  rw [hd, he] at halias
  exact h.aliases "n1" "n2" d e hd he (by decide) (Option.some.inj halias)

open TwoStewards in
theorem membership_iff_twoStewards : Membership pool.head ∧ pool.CacheOk ∧
    ((∀ before, before <+: [(stewards, nodeRequest "s2" "n2" beta)] →
        Membership (pool.requests poolRoot before).head) ↔
      NewNodesUnused poolRoot pool [(stewards, nodeRequest "s2" "n2" beta)]) :=
  ⟨pool_membership, pool_cacheOk, (membership_iff poolRoot pool_membership pool_cacheOk _).2⟩

end Plenum
