/-
From the ledgers to the clients: what a client confirms is committed. The pool stays in one view, and no node catches up.

- `TxnForm`, `TxnForm.result`: a transaction as a dictionary, and the result of the REPLY that carries it.
- `ServedPool`, `ServedPool.step`: the pool of nodes and its clients. What a correct node has sent a client reaches it
  any number of times and in any order; a byzantine node tells a client what it likes.
- `confirmed_behind`: more than `f` nodes stand behind a result that `getReply` confirms.
- `confirmed_committed`: so it is that of a transaction, with the identifier and the request number asked for, that a
  correct node has committed, and that stays committed. The primary may be byzantine.
-/
import Mathlib.Tactic
import Plenum.Client.GetReply
import Plenum.Server.LedgerAgreement

namespace Plenum

open Plenum.Core Signing
open Relation (ReflTransGen)

variable {ω σ τ ν : Type}

/-! ## Replies -/

/-- how a transaction is written -/
structure TxnForm (τ ν : Type) (N : Numbers ν) (txnKey : τ → ReqKey) where
  dict : τ → Dict String (Value ν)
  valid : ∀ txn, Value.ValidEntries (dict txn).entries
  identifier_eq : ∀ txn, (dict txn).get? "identifier" = some (.str (txnKey txn).1)
  reqId_eq : ∀ txn, (dict txn).get? "reqId" = some (.num (N.ofInt (txnKey txn).2))

namespace TxnForm

variable {N : Numbers ν} {txnKey : τ → ReqKey} (F : TxnForm τ ν N txnKey)

/-- the transaction with its `seqNo`, the root hash and the audit path, and with the time it was ordered at -/
def resultDict (txn : τ) (seqNo : ℕ) (txnTime : Option ℕ) (rootHash : String) (auditPath : List String) :
    Dict String (Value ν) :=
  let d := (((F.dict txn).set "seqNo" (.num (N.ofInt seqNo))).set "rootHash" (.str rootHash)).set "auditPath"
    (.list (auditPath.map .str))
  match txnTime with
  | some ppTime => d.set "txnTime" (.num (N.ofInt ppTime))
  | none => d

variable (txn : τ) (seqNo : ℕ) (txnTime : Option ℕ) (rootHash : String) (auditPath : List String)

/-- the other keys keep what the transaction says -/
theorem get?_resultDict {key : String} (hkey : key ∉ ["seqNo", "rootHash", "auditPath", "txnTime"]) :
    (F.resultDict txn seqNo txnTime rootHash auditPath).get? key = (F.dict txn).get? key := by
  simp only [List.mem_cons, List.not_mem_nil, or_false, not_or] at hkey
  obtain ⟨hseqNo, hroot, hpath, htime⟩ := hkey
  unfold resultDict
  cases txnTime with
  | none => rw [Dict.get?_set_ne _ _ hpath, Dict.get?_set_ne _ _ hroot, Dict.get?_set_ne _ _ hseqNo]
  | some ppTime =>
    rw [Dict.get?_set_ne _ _ htime, Dict.get?_set_ne _ _ hpath, Dict.get?_set_ne _ _ hroot, Dict.get?_set_ne _ _ hseqNo]

/-- a valid value keeps the entries valid -/
theorem validEntries_set {d : Dict String (Value ν)} {key : String} {v : Value ν}
    (hd : Value.ValidEntries d.entries) (hv : v.Valid) : Value.ValidEntries (d.set key v).entries := by
  rw [Value.validEntries_iff] at hd ⊢
  intro e he
  rcases Dict.mem_set.1 he with rfl | ⟨he, -⟩
  · exact hv
  · exact hd e he

theorem valid_strings (ss : List String) : (Value.list (ss.map .str) : Value ν).Valid := by
  simp only [Value.Valid]
  induction ss with
  | nil => simp [Value.ValidAll]
  | cons s ss ih => simpa [Value.ValidAll, Value.Valid] using ih

theorem valid_resultDict :
    (Value.dict (F.resultDict txn seqNo txnTime rootHash auditPath).entries).Valid := by
  simp only [Value.Valid]
  refine ⟨(F.resultDict txn seqNo txnTime rootHash auditPath).nodup, ?_⟩
  have hnum : ∀ x : ν, (Value.num x).Valid := fun x => by simp [Value.Valid]
  have hbase : Value.ValidEntries ((((F.dict txn).set "seqNo" (.num (N.ofInt seqNo))).set "rootHash"
      (.str rootHash)).set "auditPath" (.list (auditPath.map .str))).entries :=
    validEntries_set (validEntries_set (validEntries_set (F.valid txn) (hnum _)) (by simp [Value.Valid]))
      (valid_strings auditPath)
  unfold resultDict
  cases txnTime with
  | none => exact hbase
  | some ppTime => exact validEntries_set hbase (hnum _)

theorem lookup_eq_get? {α : Type} (d : Dict String α) (key : String) : d.entries.lookup key = d.get? key := by
  unfold Dict.get?
  induction d.entries with
  | nil => rfl
  | cons e es ih =>
    rw [List.lookup_cons, List.find?_cons]
    by_cases he : e.1 = key
    · simp [he]
    · have hne : (key == e.1) = false := by simpa using fun h => he h.symm
      simpa [he, hne] using ih

theorem lookup_identifier : (F.resultDict txn seqNo txnTime rootHash auditPath).entries.lookup "identifier" =
    some (.str (txnKey txn).1) := by
  rw [lookup_eq_get?, get?_resultDict _ _ _ _ _ _ (by decide)]
  exact F.identifier_eq txn

theorem lookup_reqId : (F.resultDict txn seqNo txnTime rootHash auditPath).entries.lookup "reqId" =
    some (.num (N.ofInt (txnKey txn).2)) := by
  rw [lookup_eq_get?, get?_resultDict _ _ _ _ _ _ (by decide)]
  exact F.reqId_eq txn

theorem isSome_identifier :
    ((F.resultDict txn seqNo txnTime rootHash auditPath).entries.lookup "identifier").isSome := by
  rw [lookup_identifier]; rfl

theorem isSome_reqId : ((F.resultDict txn seqNo txnTime rootHash auditPath).entries.lookup "reqId").isSome := by
  rw [lookup_reqId]; rfl

/-- the result of the REPLY -/
def result : Client.Result ν where
  entries := (F.resultDict txn seqNo txnTime rootHash auditPath).entries
  valid := valid_resultDict F txn seqNo txnTime rootHash auditPath
  hasIdentifier := isSome_identifier F txn seqNo txnTime rootHash auditPath
  hasReqId := isSome_reqId F txn seqNo txnTime rootHash auditPath

/-- what a node sends a client, as the client gets it -/
def msg (rootHash : String) (auditPath : List String) : ClientMsg τ → Client.NodeMsg ν
  | .reply txn seqNo txnTime => .reply (F.result txn seqNo txnTime rootHash auditPath)
  | .requestAck _ => .other "REQACK"
  | .reject _ => .other "REJECT"

/-- a reply for a key is of a transaction with this key -/
theorem txnKey_eq (hN : ∀ a b, N.eq (N.ofInt a) (N.ofInt b) = true → a = b) {identifier : String} {reqId : ℤ}
    (h : (Client.replyFor N identifier reqId (.reply (F.result txn seqNo txnTime rootHash auditPath))).isSome) :
    (txnKey txn).1 = identifier ∧ ((txnKey txn).2 : ℤ) = reqId := by
  unfold Client.replyFor result at h
  dsimp only at h
  rw [lookup_identifier, lookup_reqId] at h
  split_ifs at h with hkey
  · rw [Option.any_some, Option.any_some, Bool.and_eq_true] at hkey
    unfold Value.same at hkey
    exact ⟨of_decide_eq_true hkey.2, hN _ _ hkey.1⟩
  · cases h

end TxnForm

/-! ## What stands behind a confirmed result -/

namespace Client

variable {N : Numbers ν} {numText : ν → String} {c : Client ν} {identifier : String} {reqId : ℤ} {r : Value ν}

/-- the latest REPLY of the node for the key is the result `r`, as a value or as a text -/
def StandsBehind (N : Numbers ν) (numText : ν → String) (c : Client ν) (identifier : String) (reqId : ℤ) (r : Value ν)
    (node : NodeName) : Prop :=
  ∃ result, latest N c identifier reqId node = some result ∧
    (result.value.same N r = true ∨ SameText numText result.value r)

/-- a result with a weak quorum has more than `f` nodes behind it -/
theorem WeakQuorum.behind (h : WeakQuorum N numText c identifier reqId r) :
    ∃ S : Finset NodeName, c.f < S.card ∧ ∀ node ∈ S, StandsBehind N numText c identifier reqId r node := by
  refine ⟨supporters N numText c identifier reqId r, h, fun node hnode => ?_⟩
  have hany := (Finset.mem_filter.1 hnode).2
  cases hlatest : latest N c identifier reqId node with
  | none => rw [hlatest] at hany; cases hany
  | some result =>
    rw [hlatest] at hany
    have htext : Json.dumps numText result.value = Json.dumps numText r := of_decide_eq_true hany
    exact ⟨result, hlatest, Or.inr htext⟩

/-- **More than `f` nodes stand behind a confirmed result.** -/
theorem confirmed_behind (h : getReply N numText c identifier reqId = (some r, .CONFIRMED)) :
    ∃ S : Finset NodeName, c.f < S.card ∧ ∀ node ∈ S, StandsBehind N numText c identifier reqId r node := by
  cases hvalues : (getRepliesFromAllNodes N c identifier reqId).values with
  | nil =>
    rw [getReply_none hvalues] at h
    cases h
  | cons first rest =>
    by_cases hfew : c.f + 1 > (getRepliesFromAllNodes N c identifier reqId).size
    · rw [getReply_few hvalues hfew] at h
      cases h
    · by_cases hsame : ∀ r ∈ first :: rest, r.value.same N first.value = true
      · -- the fast path: the replies of all nodes are equal
        rw [getReply_unanimous hvalues (not_lt.1 hfew) hsame, Prod.mk.injEq, Option.some.injEq] at h
        refine ⟨repliers N c identifier reqId, ?_, fun node hnode => ?_⟩
        · rw [← size_getReplies]
          exact not_lt.1 hfew
        · obtain ⟨result, hresult⟩ := Option.isSome_iff_exists.1 (Finset.mem_filter.1 hnode).2
          refine ⟨result, hresult, Or.inl ?_⟩
          rw [← h.1]
          exact hsame result (hvalues ▸ mem_values_getReplies.2 ⟨node, hresult⟩)
      · -- the counting path
        have hcounted := @getReply_counted ν N numText c identifier reqId first rest hvalues (not_lt.1 hfew) hsame
        cases htext : Plenum.checkIfMoreThanFSameItems (texts numText (first :: rest)) c.f with
        | none =>
          rw [htext] at hcounted
          rw [hcounted] at h
          cases h
        | some t =>
          rw [htext] at hcounted
          obtain ⟨r', hr', ht⟩ := hcounted
          rw [hr', Prod.mk.injEq, Option.some.injEq] at h
          refine WeakQuorum.behind ?_
          rw [weakQuorum_iff, hvalues, ← h.1, ht]
          exact (checkIfMoreThanFSameItems_eq_some htext).2

/-- the latest REPLY of a node is one of its messages -/
theorem mem_inBox_of_latest {node : NodeName} {result : Result ν}
    (h : latest N c identifier reqId node = some result) :
    ∃ m, (m, node) ∈ c.inBox ∧ replyFor N identifier reqId m = some result := by
  obtain ⟨e, he, hfor⟩ := List.mem_filterMap.1 (List.mem_of_getLast? h)
  split_ifs at hfor with hnode
  exact ⟨e.1, hnode ▸ he, hfor⟩

/-- the client keeps a message -/
def handleOneNodeMsg (c : Client ν) (m : NodeMsg ν) (frm : NodeName) : Client ν :=
  { c with inBox := c.inBox ++ [(m, frm)] }

end Client

/-! ## The pool and its clients -/

structure ServedPool (ω σ τ ν : Type) where
  pool : RunningPool ω σ τ
  /-- the clients by their names -/
  clients : String → Client ν

inductive PoolEvent (ω ν : Type) where
  | node (i : NodeName) (x : NodeInput ω)
  /-- the `k`-th message that a correct node has sent to clients reaches its client -/
  | answer (frm : NodeName) (k : ℕ) (rootHash : String) (auditPath : List String)
  /-- a byzantine node has a message reach a client -/
  | forge (frm : NodeName) (client : String) (m : Client.NodeMsg ν)

/-- the books of a node are extended by an input to any node -/
theorem RunningPool.step_mono [DecidableEq ω] {env : NodeEnv ω σ τ} {P : NodesPool ω σ τ} {w w' : RunningPool ω σ τ}
    {e : NodeName × NodeInput ω} (hs : w.step env P e = some w') (i : NodeName) :
    NodeBooks.Mono (w.nodes i).books (w'.nodes i).books := by
  obtain ⟨n, x⟩ := e
  unfold RunningPool.step at hs
  split_ifs at hs
  obtain rfl := Option.some.inj hs
  by_cases hin : i = n
  · subst hin
    dsimp only
    rw [Function.update_self]
    exact mono_of_steps (RunningNode.input_books (H := x.hearings (w.nodes i).node.name) x (List.Subset.refl _))
  · dsimp only
    rw [Function.update_of_ne hin]
    exact NodeBooks.Mono.refl _

namespace ServedPool

variable {N : Numbers ν}

def init (env : NodeEnv ω σ τ) (P : NodesPool ω σ τ) : ServedPool ω σ τ ν where
  pool := RunningPool.init env P
  clients _ := ⟨P.f, []⟩

/-- a message reaches a client -/
def tell (w : ServedPool ω σ τ ν) (client : String) (m : Client.NodeMsg ν) (frm : NodeName) : ServedPool ω σ τ ν :=
  { w with clients := Function.update w.clients client ((w.clients client).handleOneNodeMsg m frm) }

variable [DecidableEq ω]

def step (env : NodeEnv ω σ τ) (F : TxnForm τ ν N env.txnKey) (P : NodesPool ω σ τ) (w : ServedPool ω σ τ ν) :
    PoolEvent ω ν → Option (ServedPool ω σ τ ν)
  | .node i x => (w.pool.step env P (i, x)).map fun pool => { w with pool := pool }
  | .answer frm k rootHash auditPath =>
    match (w.pool.nodes frm).toClients[k]? with
    | some (m, client) =>
      if frm ∈ P.correct then some (w.tell client (F.msg rootHash auditPath m) frm) else none
    | none => none
  | .forge frm client m => if frm ∈ P.names ∩ P.byzantine then some (w.tell client m frm) else none

variable {env : NodeEnv ω σ τ} {F : TxnForm τ ν N env.txnKey} {P : NodesPool ω σ τ} {w w' : ServedPool ω σ τ ν}

/-- the message `m` for the client comes from a byzantine node, or a correct node has sent it -/
def Comes (F : TxnForm τ ν N env.txnKey) (P : NodesPool ω σ τ) (w : RunningPool ω σ τ) (client : String)
    (m : Client.NodeMsg ν) (frm : NodeName) : Prop :=
  frm ∈ P.names ∩ P.byzantine ∨ (frm ∈ P.correct ∧ ∃ x rootHash auditPath,
    (x, client) ∈ (w.nodes frm).toClients ∧ m = F.msg rootHash auditPath x)

/-- the nodes have made a run of theirs, and what the clients have got comes from the nodes -/
structure Served (env : NodeEnv ω σ τ) (F : TxnForm τ ν N env.txnKey) (P : NodesPool ω σ τ)
    (w : ServedPool ω σ τ ν) : Prop where
  pool : Reach (RunningPool.step env P) (fun _ _ _ => True) (RunningPool.init env P) w.pool
  f : ∀ client, (w.clients client).f = P.f
  inBox : ∀ client m frm, (m, frm) ∈ (w.clients client).inBox → Comes F P w.pool client m frm

theorem Served.tell (h : Served env F P w) {client : String} {m : Client.NodeMsg ν} {frm : NodeName}
    (hm : Comes F P w.pool client m frm) : Served env F P (w.tell client m frm) where
  pool := h.pool
  f client' := by
    unfold ServedPool.tell
    by_cases hc : client' = client
    · subst hc
      dsimp only
      rw [Function.update_self]
      exact h.f client'
    · dsimp only
      rw [Function.update_of_ne hc]
      exact h.f client'
  inBox client' m' frm' hmem := by
    unfold ServedPool.tell at hmem
    dsimp only at hmem
    by_cases hc : client' = client
    · subst hc
      rw [Function.update_self] at hmem
      rcases List.mem_append.1 hmem with hmem | hmem
      · exact h.inBox client' m' frm' hmem
      · cases List.mem_singleton.1 hmem
        exact hm
    · rw [Function.update_of_ne hc] at hmem
      exact h.inBox client' m' frm' hmem

theorem Served.step (h : Served env F P w) {e : PoolEvent ω ν} (hs : w.step env F P e = some w') :
    Served env F P w' := by
  cases e with
  | node i x =>
    obtain ⟨pool, hpool, rfl⟩ := Option.map_eq_some_iff.1 hs
    refine ⟨h.pool.step hpool trivial, h.f, fun client m frm hm => (h.inBox client m frm hm).imp id ?_⟩
    rintro ⟨hfrm, y, rootHash, auditPath, hy, rfl⟩
    exact ⟨hfrm, y, rootHash, auditPath, (RunningPool.step_mono hpool frm).toClients.subset hy, rfl⟩
  | answer frm k rootHash auditPath =>
    unfold ServedPool.step at hs
    dsimp only at hs
    split at hs
    · rename_i m client hm
      split_ifs at hs with hfrm
      obtain rfl := Option.some.inj hs
      exact h.tell (Or.inr ⟨hfrm, m, rootHash, auditPath, List.mem_of_getElem? hm, rfl⟩)
    · cases hs
  | forge frm client m =>
    unfold ServedPool.step at hs
    dsimp only at hs
    split_ifs at hs with hfrm
    obtain rfl := Option.some.inj hs
    exact h.tell (Or.inl hfrm)

theorem served (hr : Reach (ServedPool.step env F P) (fun _ _ _ => True) (ServedPool.init env P) w) :
    Served env F P w :=
  hr.inv ⟨Reach.refl, fun _ => rfl, fun _ _ _ hm => absurd hm List.not_mem_nil⟩ fun _ _ _ h hs _ => h.step hs

/-- the books of every node are extended in a run -/
theorem books_mono (hr : Reach (ServedPool.step env F P) (fun _ _ _ => True) w w') (i : NodeName) :
    NodeBooks.Mono (w.pool.nodes i).books (w'.pool.nodes i).books := by
  refine hr.inv (I := fun w' => NodeBooks.Mono (w.pool.nodes i).books (w'.pool.nodes i).books)
    (NodeBooks.Mono.refl _) fun w1 e w2 h hs _ => ?_
  cases e with
  | node n x =>
    obtain ⟨pool, hpool, rfl⟩ := Option.map_eq_some_iff.1 hs
    exact h.trans (RunningPool.step_mono hpool i)
  | answer frm k rootHash auditPath =>
    unfold ServedPool.step at hs
    dsimp only at hs
    split at hs
    · split_ifs at hs
      obtain rfl := Option.some.inj hs
      exact h
    · cases hs
  | forge frm client m =>
    unfold ServedPool.step at hs
    dsimp only at hs
    split_ifs at hs
    obtain rfl := Option.some.inj hs
    exact h

end ServedPool

/-! ## What is confirmed is committed -/

open Client in
/-- **What a client confirms is committed**, within a view. Whatever the byzantine nodes do, the primary included, a
result that a client confirms for an identifier and a request number is, as a value or as a text, the one that a correct
node has sent the client for a transaction with this identifier and number; and this node has the transaction committed
under its `seqNo`, now and in all that follows in this view. -/
theorem confirmed_committed [DecidableEq ω] {N : Numbers ν} (numText : ν → String) (env : NodeEnv ω σ τ)
    (F : TxnForm τ ν N env.txnKey) (P : NodesPool ω σ τ)
    (hN : ∀ a b, N.eq (N.ofInt a) (N.ofInt b) = true → a = b) {w : ServedPool ω σ τ ν}
    (hr : Reach (ServedPool.step env F P) (fun _ _ _ => True) (ServedPool.init env P) w) {client identifier : String}
    {reqId : ℤ} {r : Value ν} (h : getReply N numText (w.clients client) identifier reqId = (some r, .CONFIRMED)) :
    ∃ j ∈ P.correct, ∃ txn seqNo txnTime rootHash auditPath,
      (.reply txn seqNo txnTime, client) ∈ (w.pool.nodes j).toClients ∧
      ((F.result txn seqNo txnTime rootHash auditPath).value.same N r = true ∨
        SameText numText (F.result txn seqNo txnTime rootHash auditPath).value r) ∧
      ((env.txnKey txn).1 = identifier ∧ ((env.txnKey txn).2 : ℤ) = reqId) ∧
      ∀ w', Reach (ServedPool.step env F P) (fun _ _ _ => True) w w' →
        (w'.pool.nodes j).node.dbs.Committed txn seqNo := by
  have hserved := ServedPool.served hr
  obtain ⟨S, hcard, hS⟩ := confirmed_behind h
  rw [hserved.f] at hcard
  -- of more than `f` nodes one is correct
  obtain ⟨j, hjS, hj⟩ := Finset.exists_mem_notMem_of_card_lt_card (P.byzantine_card.trans_lt hcard)
  obtain ⟨result, hlatest, hsame⟩ := hS j hjS
  obtain ⟨m, hm, hfor⟩ := mem_inBox_of_latest hlatest
  obtain ⟨hcorrect, x, rootHash, auditPath, hx, rfl⟩ := (hserved.inBox client m j hm).resolve_left hj
  cases x with
  | requestAck key => cases hfor
  | reject rej => cases hfor
  | reply txn seqNo txnTime =>
    have hkey := F.txnKey_eq txn seqNo txnTime rootHash auditPath hN (Option.isSome_iff_exists.2 ⟨result, hfor⟩)
    have hresult : F.result txn seqNo txnTime rootHash auditPath = result := by
      unfold TxnForm.msg replyFor at hfor
      dsimp only at hfor
      split_ifs at hfor
      exact Option.some.inj hfor
    rw [← hresult] at hsame
    refine ⟨j, hcorrect, txn, seqNo, txnTime, rootHash, auditPath, hx, hsame, hkey, fun w' hw' => ?_⟩
    exact ((RunningPool.sound hserved.pool j).replies txn seqNo txnTime client hx).mono
      (ServedPool.books_mono hw' j).txns

/-! ## Witness -/

namespace FourNodes

open Client TrueAndOne

/-- a letter of the client's request 1 -/
def letterDict (txn : Char) : Dict String (Value BoolOrInt) :=
  ((Dict.empty.set "identifier" (.str "client")).set "reqId" (.num (.int 1))).set "letter" (.str (String.ofList [txn]))

theorem letterDict_valid (txn : Char) : Value.ValidEntries (letterDict txn).entries := by
  unfold letterDict
  refine TxnForm.validEntries_set (TxnForm.validEntries_set (TxnForm.validEntries_set ?_ ?_) ?_) ?_
  all_goals simp [Value.Valid, Value.ValidEntries, Dict.empty]

theorem letterDict_identifier (txn : Char) : (letterDict txn).get? "identifier" = some (.str "client") := rfl

theorem letterDict_reqId (txn : Char) : (letterDict txn).get? "reqId" = some (.num (.int 1)) := rfl

def letterForm : TxnForm Char BoolOrInt numbers lettersEnv.txnKey where
  dict := letterDict
  valid := letterDict_valid
  identifier_eq := letterDict_identifier
  reqId_eq := letterDict_reqId

/-- Beta and Gamma execute the request and tell its client, Delta tells it something else -/
def answerLetterA : List (PoolEvent Bool BoolOrInt) :=
  executeLetterA.map (fun e => .node e.1 e.2) ++
    [.answer "Beta" 1 "root" [], .forge "Delta" "client" (.reply (letterForm.result 'z' 1 none "root" [])),
      .answer "Gamma" 1 "root" []]

theorem answerLetterA_runs : (runAll (ServedPool.step lettersEnv letterForm lettersPool) (fun _ _ _ => True)
    (ServedPool.init lettersEnv lettersPool) answerLetterA).isSome := by decide +kernel

end FourNodes

open FourNodes Client TrueAndOne in
theorem confirmed_committed_answerLetterA : ∃ (w : ServedPool Bool ℕ Char BoolOrInt) (r : Value BoolOrInt),
    getReply numbers BoolOrInt.json (w.clients "client") "client" 1 = (some r, .CONFIRMED) ∧
      ∃ j ∈ lettersPool.correct, ∃ txn seqNo, (w.pool.nodes j).node.dbs.Committed txn seqNo := by
  obtain ⟨w, hw, hsome, hstatus⟩ : ∃ w, Reach (ServedPool.step lettersEnv letterForm lettersPool) (fun _ _ _ => True)
      (ServedPool.init lettersEnv lettersPool) w ∧
      (getReply numbers BoolOrInt.json (w.clients "client") "client" 1).1.isSome ∧
        (getReply numbers BoolOrInt.json (w.clients "client") "client" 1).2 = .CONFIRMED :=
    ⟨_, reach_get _ answerLetterA_runs, by decide +kernel, by decide +kernel⟩
  obtain ⟨r, hr⟩ := Option.isSome_iff_exists.1 hsome
  have hconfirmed : getReply numbers BoolOrInt.json (w.clients "client") "client" 1 = (some r, .CONFIRMED) :=
    Prod.ext hr hstatus
  obtain ⟨j, hj, txn, seqNo, -, -, -, -, -, -, hcommitted⟩ := confirmed_committed BoolOrInt.json lettersEnv letterForm
    lettersPool (fun a b h => of_decide_eq_true h) hw hconfirmed
  exact ⟨_, _, hconfirmed, j, hj, txn, seqNo, hcommitted _ Reach.refl⟩

end Plenum
