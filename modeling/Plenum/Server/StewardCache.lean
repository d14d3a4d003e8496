/-
The cache of `isStewardOfNode` over validations, applications, commits and reverts of pool requests.

- `CachingHandler`: the pool handler with the whole cache, whose keys are the steward, the node and whether the committed
  state is asked for.
- `stewardOfNode`: the function that is cached, without the cache.
- `PoolOp`: what happens to the handler; `run` is what a history of it leaves.
- `cache_transparent_iff`: every call answers as the function without the cache does if and only if no application, commit
  or revert changes the answer to a question whose answer is cached. Then an update of a node is refused with the same error
  as without the cache.
- `keepsAnswers_of_onlyGrows`: the calls that validation makes are answered rightly as long as no batch is reverted.
- `former_steward_accepted`: a batch is reverted that added a node, another steward adds the node, and the first one may
  still update it.
-/
import Mathlib.Tactic
import Plenum.Core.LruCache
import Plenum.Server.PoolReqHandler

namespace Plenum

open Plenum.Core

/-! ## The handler with its cache -/

/-- a steward, a node, and `isCommitted` -/
abbrev StewardQuery := String × String × Bool

/-- the pool ledger and state, and the answers of `isStewardOfNode`; `none` is the empty record of a node that is not
there -/
structure CachingHandler where
  db : LedgerAndState (PoolTxn DataValue) (NodeData DataValue)
  cache : List (StewardQuery × Option Bool)

/-- `isStewardOfNode` without its cache -/
def stewardOfNode (state : PoolState DataValue) (query : StewardQuery) : Except Exn (Option Bool) :=
  let nodeData := PoolRequestHandler.getNodeData state query.2.1 query.2.2
  if nodeData.size = 0 then .ok none
  else match nodeData.get? IDENTIFIER with
    | some author => .ok (some (author = .str query.1))
    | none => .error .keyError

namespace CachingHandler

/-- what is not cached -/
def handler (h : CachingHandler) : PoolHandler := ⟨h.db, []⟩

def isStewardOfNode (h : CachingHandler) (stewardNym nodeNym : String) (isCommitted : Bool) :
    Except Exn (Option Bool) × CachingHandler :=
  let query := (stewardNym, nodeNym, isCommitted)
  let answer := cachedCall 64 h.cache query (stewardOfNode h.db.state query)
  (answer.1, { h with cache := answer.2 })

/-- the error of an update, given the answer of `isStewardOfNode` -/
def updateError (h : CachingHandler) (req : Request NodeOperation) (isStewardOfNode : Option Bool) : Option PoolAuthError :=
  if isStewardOfNode ≠ some true then some (.notStewardOf req.identifier req.operation.dest)
  else h.handler.dataErrorWhileValidatingUpdate req.operation.data.data req.operation.dest

def authErrorWhileUpdatingNode (h : CachingHandler) (domainState : DomainState) (req : Request NodeOperation) :
    Except Exn (Option PoolAuthError) × CachingHandler :=
  let origin := req.identifier
  if !DomainRequestHandler.isSteward domainState origin false then (.ok (some (.cannotUpdate origin)), h)
  else
    let answer := h.isStewardOfNode origin req.operation.dest false
    (answer.1.map (h.updateError req), answer.2)

/-- the same, had `isStewardOfNode` no cache -/
def authErrorUncached (h : CachingHandler) (domainState : DomainState) (req : Request NodeOperation) :
    Except Exn (Option PoolAuthError) :=
  let origin := req.identifier
  if !DomainRequestHandler.isSteward domainState origin false then .ok (some (.cannotUpdate origin))
  else (stewardOfNode h.db.state (origin, req.operation.dest, false)).map (h.updateError req)

/-- the error, if the request is refused; the cache may have changed -/
def validate (h : CachingHandler) (domainState : DomainState) (req : Request NodeOperation) :
    Except Exn (Option PoolAuthError) × CachingHandler :=
  if (h.handler.getNodeData req.operation.dest).size ≠ 0 then h.authErrorWhileUpdatingNode domainState req
  else (.ok (h.handler.authErrorWhileAddingNode domainState req), h)

variable (root : List (PoolTxn DataValue) → String)

def apply (h : CachingHandler) (req : Request NodeOperation) : CachingHandler :=
  let txn := PoolHandler.reqToTxn req
  { h with db := h.db.applyTxn PoolRequestHandler.updateState PoolRequestHandler.withSeqNo root txn }

/-- `commit`: if the root of the ledger is not the agreed one, an assertion fails before the state is committed -/
def commit (h : CachingHandler) (txnCount : ℕ) (stateRoot : Dict String (NodeData DataValue)) (txnRoot : String) :
    CachingHandler :=
  let ledger := (h.db.ledger.commitTxns txnCount).1
  if root ledger.txns ≠ txnRoot then { h with db := ⟨ledger, h.db.state⟩ }
  else { h with db := ⟨ledger, h.db.state.commit stateRoot⟩ }

/-- `revert` of the replica: the head of the state goes back, and the last transactions are discarded -/
def revert (h : CachingHandler) (stateRootHash : Dict String (NodeData DataValue)) (reqCount : ℕ) : CachingHandler :=
  { h with db := ⟨h.db.ledger.discardTxns root reqCount, h.db.state.revertToHead stateRootHash⟩ }

end CachingHandler

/-! ## Histories -/

/-- what happens to the handler -/
inductive PoolOp where
  | isStewardOfNode (stewardNym nodeNym : String) (isCommitted : Bool)
  | validate (domainState : DomainState) (req : Request NodeOperation)
  | apply (req : Request NodeOperation)
  | commit (txnCount : ℕ) (stateRoot : Dict String (NodeData DataValue)) (txnRoot : String)
  | revert (stateRootHash : Dict String (NodeData DataValue)) (reqCount : ℕ)

/-- what leaves the head of the state as it is or adds to it, and asks only what validation asks -/
def PoolOp.OnlyGrows : PoolOp → Prop
  | .isStewardOfNode _ _ _ => False
  | .validate _ _ => True
  | .apply _ => True
  | .commit _ _ _ => True
  | .revert _ _ => False

namespace CachingHandler

variable (root : List (PoolTxn DataValue) → String)

def perform (h : CachingHandler) : PoolOp → CachingHandler
  | .isStewardOfNode stewardNym nodeNym isCommitted => (h.isStewardOfNode stewardNym nodeNym isCommitted).2
  | .validate domainState req => (h.validate domainState req).2
  | .apply req => h.apply root req
  | .commit txnCount stateRoot txnRoot => h.commit root txnCount stateRoot txnRoot
  | .revert stateRootHash reqCount => h.revert root stateRootHash reqCount

/-- a history from a new handler, whose cache is empty -/
def run (db : LedgerAndState (PoolTxn DataValue) (NodeData DataValue)) (ops : List PoolOp) : CachingHandler :=
  ops.foldl (perform root) ⟨db, []⟩

/-- every call answers as it would without the cache -/
def CallsTransparent (h : CachingHandler) : Prop :=
  ∀ stewardNym nodeNym isCommitted,
    (h.isStewardOfNode stewardNym nodeNym isCommitted).1 = stewardOfNode h.db.state (stewardNym, nodeNym, isCommitted)

/-- an operation changes the answer to no question whose answer is cached -/
def KeepsAnswers (h : CachingHandler) (op : PoolOp) : Prop :=
  ∀ e ∈ h.cache, stewardOfNode (h.perform root op).db.state e.1 = stewardOfNode h.db.state e.1

/-- the state and the cache, as far as the calls depend on them -/
def cached (h : CachingHandler) : Cached (PoolState DataValue) StewardQuery (Option Bool) := ⟨h.db.state, h.cache⟩

variable {root}

theorem run_concat (db : LedgerAndState (PoolTxn DataValue) (NodeData DataValue)) (ops : List PoolOp) (op : PoolOp) :
    run root db (ops ++ [op]) = (run root db ops).perform root op := by
  unfold run
  rw [List.foldl_append]
  rfl

theorem authErrorWhileUpdatingNode_step (h : CachingHandler) (domainState : DomainState) (req : Request NodeOperation) :
    CachedStep stewardOfNode 64 h.cached (h.authErrorWhileUpdatingNode domainState req).2.cached := by
  unfold authErrorWhileUpdatingNode
  dsimp only
  split
  · exact .change h.db.state
  · exact .call (req.identifier, req.operation.dest, false)

/-- every operation is a call through the cache, or changes the state only -/
theorem perform_step (h : CachingHandler) (op : PoolOp) :
    CachedStep stewardOfNode 64 h.cached (h.perform root op).cached := by
  cases op with
  | isStewardOfNode stewardNym nodeNym isCommitted => exact .call (stewardNym, nodeNym, isCommitted)
  | validate domainState req =>
    unfold perform validate
    dsimp only
    split
    · exact authErrorWhileUpdatingNode_step h domainState req
    · exact .change h.db.state
  | apply req => exact .change _
  | commit txnCount stateRoot txnRoot =>
    unfold perform commit
    dsimp only
    split
    · exact .change h.db.state
    · exact .change _
  | revert stateRootHash reqCount => exact .change _

theorem callsTransparent_iff (h : CachingHandler) :
    h.CallsTransparent ↔ Transparent stewardOfNode 64 h.db.state h.cache :=
  ⟨fun hcalls key => hcalls key.1 key.2.1 key.2.2,
    fun hcalls stewardNym nodeNym isCommitted => hcalls (stewardNym, nodeNym, isCommitted)⟩

/-- a call that answers rightly leaves the decision on an update as it is without the cache -/
theorem authError_uncached {h : CachingHandler} (hcalls : h.CallsTransparent) (domainState : DomainState)
    (req : Request NodeOperation) :
    (h.authErrorWhileUpdatingNode domainState req).1 = h.authErrorUncached domainState req := by
  unfold authErrorWhileUpdatingNode authErrorUncached
  dsimp only
  split
  · rfl
  · rw [hcalls req.identifier req.operation.dest false]

/-- **When the cache of steward ownership is transparent.** In every history, every call that is made or could be made
after any part of it answers as the function without the cache, if and only if no operation changes the answer to a question
whose answer is cached when it happens. Then every update is decided as if there were no cache. -/
theorem cache_transparent_iff (root : List (PoolTxn DataValue) → String)
    (db : LedgerAndState (PoolTxn DataValue) (NodeData DataValue)) (ops : List PoolOp) :
    ((∀ before, before <+: ops → (run root db before).CallsTransparent) ↔
      ∀ before op, before ++ [op] <+: ops → (run root db before).KeepsAnswers root op) ∧
    ((∀ before op, before ++ [op] <+: ops → (run root db before).KeepsAnswers root op) →
      ∀ before, before <+: ops → ∀ domainState req,
        ((run root db before).authErrorWhileUpdatingNode domainState req).1 =
          (run root db before).authErrorUncached domainState req) := by
  have hiff : (∀ before, before <+: ops → (run root db before).CallsTransparent) ↔
      ∀ before op, before ++ [op] <+: ops → (run root db before).KeepsAnswers root op := by
    have hstep : ∀ before op, CachedStep stewardOfNode 64 (run root db before).cached
        (run root db (before ++ [op])).cached := by
      intro before op
      rw [run_concat]
      exact perform_step _ op
    have h := transparent_iff (fun before => (run root db before).cached) rfl hstep ops
    simp only [callsTransparent_iff]
    refine h.trans (forall_congr' fun before => forall_congr' fun op => imp_congr_right fun _ => ?_)
    rw [run_concat]
    rfl
  exact ⟨hiff, fun hkeeps before hpre domainState req => authError_uncached (hiff.2 hkeeps before hpre) domainState req⟩

/-! ## Histories without a revert -/

/-- an answer about a node that is there names its author -/
theorem stewardOfNode_some {state : PoolState DataValue} {stewardNym nodeNym : String} {b : Bool} :
    stewardOfNode state (stewardNym, nodeNym, false) = .ok (some b) ↔
      ∃ nodeData author, state.headHash.get? nodeNym = some nodeData ∧ nodeData.get? IDENTIFIER = some author ∧
        b = decide (author = .str stewardNym) := by
  have hdata : PoolRequestHandler.getNodeData state nodeNym false =
      (state.headHash.get? nodeNym).getD Dict.empty := rfl
  unfold stewardOfNode
  dsimp only
  rw [hdata]
  cases hn : state.headHash.get? nodeNym with
  | none => simp [Dict.size, Dict.empty]
  | some nodeData =>
    rw [Option.getD_some]
    cases ha : nodeData.get? IDENTIFIER with
    | none =>
      split_ifs with hsize
      · simp [ha]
      · simp [ha]
    | some author =>
      have hsize : nodeData.size ≠ 0 := size_ne_zero (k := IDENTIFIER) (by rw [ha]; rfl)
      rw [if_neg hsize]
      simp [ha, eq_comm]

/-- applying a request leaves the author of every node that is there -/
theorem stewardOfNode_apply {h : CachingHandler} {stewardNym nodeNym : String} {b : Bool}
    (hb : stewardOfNode h.db.state (stewardNym, nodeNym, false) = .ok (some b)) (req : Request NodeOperation) :
    stewardOfNode (h.apply root req).db.state (stewardNym, nodeNym, false) = .ok (some b) := by
  obtain ⟨nodeData, author, hn, ha, hb⟩ := stewardOfNode_some.1 hb
  have hhead : (h.apply root req).db.state.headHash = h.db.state.headHash.set req.operation.dest
      (PoolRequestHandler.nodeAfter ((h.db.state.headHash.get? req.operation.dest).getD Dict.empty)
        (PoolHandler.reqToTxn req)) := rfl
  refine stewardOfNode_some.2 ?_
  rw [hhead, Dict.get?_set]
  split_ifs with hdest
  · rw [← hdest, hn, Option.getD_some]
    have hsize : nodeData.size ≠ 0 := size_ne_zero (k := IDENTIFIER) (by rw [ha]; rfl)
    refine ⟨_, author, rfl, ?_, hb⟩
    rw [PoolRequestHandler.get?_nodeAfter hsize]
    exact (congrArg (Option.or · _) req.operation.data.get?_identifier).trans ha
  · exact ⟨nodeData, author, hn, ha, hb⟩

/-- what is cached are answers to what validation asks about nodes that are there -/
def ValidationAnswers (h : CachingHandler) : Prop :=
  ∀ e ∈ h.cache, ∃ stewardNym nodeNym b, e = ((stewardNym, nodeNym, false), some b) ∧
    stewardOfNode h.db.state (stewardNym, nodeNym, false) = .ok (some b)

theorem ValidationAnswers.isStewardOfNode {h : CachingHandler} (hanswers : h.ValidationAnswers) (stewardNym : String)
    {nodeNym : String} (hnode : (h.handler.getNodeData nodeNym).size ≠ 0) :
    (h.isStewardOfNode stewardNym nodeNym false).2.ValidationAnswers := by
  intro e he
  rcases mem_cachedCall he with he | ⟨hkey, hcompute⟩
  · exact hanswers e he
  · obtain ⟨⟨s, n, c⟩, answer⟩ := e
    cases hkey
    cases answer with
    | some b => exact ⟨stewardNym, nodeNym, b, rfl, hcompute⟩
    | none =>
      have hnone : (PoolRequestHandler.getNodeData h.db.state nodeNym false).size ≠ 0 := hnode
      unfold stewardOfNode at hcompute
      dsimp only at hcompute
      rw [if_neg hnone] at hcompute
      split at hcompute <;> cases hcompute

/-- **Step lemma.** A step that only adds to the head keeps the answers, and what is cached stays of the same kind. -/
theorem ValidationAnswers.perform {h : CachingHandler} (hanswers : h.ValidationAnswers) {op : PoolOp}
    (hop : op.OnlyGrows) : (h.perform root op).ValidationAnswers ∧ h.KeepsAnswers root op := by
  cases op with
  | isStewardOfNode stewardNym nodeNym isCommitted => cases hop
  | validate domainState req =>
    refine ⟨?_, fun e _ => ?_⟩
    · unfold CachingHandler.perform CachingHandler.validate
      dsimp only
      split_ifs with hnode
      · unfold authErrorWhileUpdatingNode
        dsimp only
        split
        · exact hanswers
        · exact hanswers.isStewardOfNode req.identifier hnode
      · exact hanswers
    · have hdb : (h.perform root (.validate domainState req)).db = h.db := by
        unfold CachingHandler.perform CachingHandler.validate authErrorWhileUpdatingNode
        dsimp only
        split_ifs <;> rfl
      rw [hdb]
  | apply req =>
    refine ⟨fun e he => ?_, fun e he => ?_⟩
    · obtain ⟨stewardNym, nodeNym, b, heq, hb⟩ := hanswers e he
      exact ⟨stewardNym, nodeNym, b, heq, stewardOfNode_apply hb req⟩
    · obtain ⟨stewardNym, nodeNym, b, rfl, hb⟩ := hanswers e he
      exact (stewardOfNode_apply hb req).trans hb.symm
  | commit txnCount stateRoot txnRoot =>
    have hhead : (h.commit root txnCount stateRoot txnRoot).db.state.headHash = h.db.state.headHash ∧
        (h.commit root txnCount stateRoot txnRoot).cache = h.cache := by
      unfold CachingHandler.commit
      dsimp only
      split_ifs <;> exact ⟨rfl, rfl⟩
    have hsame : ∀ stewardNym nodeNym, stewardOfNode (h.commit root txnCount stateRoot txnRoot).db.state
        (stewardNym, nodeNym, false) = stewardOfNode h.db.state (stewardNym, nodeNym, false) := by
      intro stewardNym nodeNym
      unfold stewardOfNode PoolRequestHandler.getNodeData State.get
      simp [hhead.1]
    refine ⟨fun e he => ?_, fun e he => ?_⟩
    · obtain ⟨stewardNym, nodeNym, b, heq, hb⟩ := hanswers e (hhead.2 ▸ he)
      exact ⟨stewardNym, nodeNym, b, heq, (hsame _ _).trans hb⟩
    · obtain ⟨stewardNym, nodeNym, b, rfl, -⟩ := hanswers e he
      exact hsame stewardNym nodeNym
  | revert stateRootHash reqCount => cases hop

/-- **Without a revert the cache is transparent** to validation: a node that is there keeps its author. -/
theorem keepsAnswers_of_onlyGrows (db : LedgerAndState (PoolTxn DataValue) (NodeData DataValue)) (ops : List PoolOp)
    (hops : ∀ op ∈ ops, op.OnlyGrows) :
    (run root db ops).ValidationAnswers ∧
      ∀ before op, before ++ [op] <+: ops → (run root db before).KeepsAnswers root op := by
  induction ops using List.reverseRecOn with
  | nil =>
    refine ⟨fun e he => absurd he List.not_mem_nil, fun before op hpre => ?_⟩
    have hlength := hpre.length_le
    simp at hlength
  | append_singleton ops op ih =>
    obtain ⟨hanswers, hkeeps⟩ := ih fun op' hop' => hops op' (List.mem_append_left _ hop')
    have hop := hops op (List.mem_append_right _ (List.mem_singleton_self op))
    obtain ⟨hanswers', hkeep⟩ := @ValidationAnswers.perform root _ hanswers op hop
    refine ⟨by rw [run_concat]; exact hanswers', fun before op' hpre => ?_⟩
    rcases List.prefix_concat_iff.1 hpre with heq | hpre
    · obtain ⟨rfl, hop⟩ := List.append_inj' heq rfl
      obtain rfl : op' = op := by simpa using hop
      exact hkeep
    · exact hkeeps before op' hpre

end CachingHandler

/-! ## Witnesses -/

namespace RevertedNode

open TwoStewards

def alphaMoved : ClientNodeOperationData := ⟨dataOf "Alpha" 9705 9706, by decide, by decide, by decide⟩

/-- the first steward adds a node and moves it, in a batch that is reverted; then the second steward adds the node -/
def history : List PoolOp :=
  [.validate stewards (nodeRequest "s1" "n1" alpha), .apply (nodeRequest "s1" "n1" alpha),
    .validate stewards (nodeRequest "s1" "n1" alphaMoved), .apply (nodeRequest "s1" "n1" alphaMoved),
    .revert Dict.empty 2, .validate stewards (nodeRequest "s2" "n1" alpha), .apply (nodeRequest "s2" "n1" alpha)]

def after : CachingHandler := CachingHandler.run poolRoot ⟨Ledger.empty, State.empty⟩ history

end RevertedNode

open RevertedNode TwoStewards in
/-- **The author of a reverted node.** The second steward's node is still the first one's for the cache, and the first
steward's update of it is accepted. -/
theorem former_steward_accepted :
    ((after.isStewardOfNode "s1" "n1" false).1 = .ok (some true) ∧
      stewardOfNode after.db.state ("s1", "n1", false) = .ok (some false)) ∧
    ((after.authErrorWhileUpdatingNode stewards (nodeRequest "s1" "n1" alphaMoved)).1 = .ok none ∧
      after.authErrorUncached stewards (nodeRequest "s1" "n1" alphaMoved) = .ok (some (.notStewardOf "s1" "n1"))) ∧
    ¬ after.CallsTransparent := by
  have hcall : (after.isStewardOfNode "s1" "n1" false).1 = .ok (some true) := by rfl
  have huncached : stewardOfNode after.db.state ("s1", "n1", false) = .ok (some false) := by rfl
  refine ⟨⟨hcall, huncached⟩, ⟨by rfl, by rfl⟩, fun h => ?_⟩
  have heq := h "s1" "n1" false
  rw [hcall, huncached] at heq
  cases heq

end Plenum
