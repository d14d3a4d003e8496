/-
What a client logs of the replies that it gets.

- `ClientTxnLog`: the records of the log, under the identifier and the request number written together. `hasTxn` looks
  for the request number alone, since the loop over the keys overwrites the key that it is to find.
- `postReplyRecvd`: a reply that more than `f` nodes agree on is logged unless the log has it.
- `handleReply_none`, `handleReply_some`: what is not confirmed is not logged, what is confirmed first is.
- `logsOnce_iff`: the log is right if and only if no reply was confirmed and nothing was logged.
- `logged_again`: the third of four nodes answers, and the transaction is logged once more.

`appended` is a history of the calls of `append`.
-/
import Mathlib.Tactic
import Plenum.Core.Run
import Plenum.Client.GetReply
import Plenum.Persistence.ClientReqRepStoreFile

namespace Plenum

open Plenum.Core Signing

variable {ν : Type}

/-! ## The log -/

/-- a record of the text file store -/
structure TxnRecord where
  key : String
  value : String
deriving DecidableEq

/-- every `put` is kept as a record -/
structure ClientTxnLog where
  transactionLog : List TxnRecord

namespace ClientTxnLog

def empty : ClientTxnLog := ⟨[]⟩

def append (serialize : Value ν → String) (log : ClientTxnLog) (identifier : String) (reqId : ℕ) (txn : Value ν) :
    ClientTxnLog :=
  ⟨log.transactionLog ++ [⟨identifier ++ toString reqId, serialize txn⟩]⟩

/-- the loop variable is the key that was made from both arguments before -/
def hasTxn (log : ClientTxnLog) (_identifier : String) (reqId : ℕ) : Bool :=
  (log.transactionLog.map TxnRecord.key).any fun key => key = toString reqId

end ClientTxnLog

/-! ## The client -/

/-- a REPLY: its result names the request -/
structure ReplyMsg (N : Numbers ν) where
  result : Client.Result ν
  identifier : String
  reqId : ℕ
  hasIdentifier : result.entries.lookup "identifier" = some (.str identifier)
  hasReqId : result.entries.lookup "reqId" = some (.num (N.ofInt reqId))

/-- a call of `append` -/
structure Appended (ν : Type) where
  identifier : String
  reqId : ℕ
  txn : Value ν

/-- what a client keeps of the replies -/
structure LoggingClient (ν : Type) where
  f : ℕ
  reqRepStore : ReqRepStore
  txnLog : ClientTxnLog
  appended : List (Appended ν)

namespace LoggingClient

variable {ω : Type} (z : StoreSerializers ω (Value ν)) (N : Numbers ν) (numText : ν → String)

def init (f : ℕ) : LoggingClient ν := ⟨f, Dict.empty, ClientTxnLog.empty, []⟩

variable {N}

/-- `reqRepStore.addReply` -/
def addReply (s : ReqRepStore) (m : ReplyMsg N) (frm : NodeName) : ReqRepStore :=
  s.call z (.addReply m.identifier m.reqId frm m.result.value)

/-- `txnLog.append` -/
def append (c : LoggingClient ν) (identifier : String) (reqId : ℕ) (txn : Value ν) : LoggingClient ν :=
  { c with txnLog := c.txnLog.append z.serialize identifier reqId txn,
           appended := c.appended ++ [⟨identifier, reqId, txn⟩] }

variable (N)

/-- an answer that cannot be read raises, and nothing is logged then -/
def postReplyRecvd (c : LoggingClient ν) (identifier : String) (reqId numReplies : ℕ) : LoggingClient ν :=
  if !c.txnLog.hasTxn identifier reqId && decide (c.f < numReplies) then
    match c.reqRepStore.getReplies z identifier reqId with
    | none => c
    | some replies =>
      match Client.checkIfMoreThanFSameItems numText replies.values c.f with
      | none => c
      | some reply => if reply.truthy N then c.append z identifier reqId reply else c
  else c

variable {N}

/-- the part of `handleOneNodeMsg` for a REPLY that has to do with the two stores -/
def handleReply (c : LoggingClient ν) (m : ReplyMsg N × NodeName) : LoggingClient ν :=
  let c := { c with reqRepStore := addReply z c.reqRepStore m.1 m.2 }
  match c.reqRepStore.getTexts .reply m.1.identifier m.1.reqId with
  | none => c
  | some texts => c.postReplyRecvd z N numText m.1.identifier m.1.reqId texts.size

def run (c : LoggingClient ν) (replies : List (ReplyMsg N × NodeName)) : LoggingClient ν :=
  replies.foldl (handleReply z numText) c

/-! ## What the log is for -/

/-- more than `f` nodes have sent a result for the request whose JSON text is that of `txn` -/
def ConfirmedBy (f : ℕ) (replies : List (ReplyMsg N × NodeName)) (a : Appended ν) : Prop :=
  ∃ nodes : Finset NodeName, f + 1 ≤ nodes.card ∧ ∀ node ∈ nodes, ∃ m ∈ replies, m.2 = node ∧
    m.1.identifier = a.identifier ∧ m.1.reqId = a.reqId ∧ Client.SameText numText m.1.result.value a.txn

/-- **Each confirmed transaction is logged once**, and the log tells which ones are. -/
structure LogsOnce (c : LoggingClient ν) (replies : List (ReplyMsg N × NodeName)) : Prop where
  once : ∀ identifier reqId, c.appended.countP (fun a => a.identifier = identifier ∧ a.reqId = reqId) ≤ 1
  known : ∀ identifier reqId, c.txnLog.hasTxn identifier reqId = true ↔
    ∃ a ∈ c.appended, a.identifier = identifier ∧ a.reqId = reqId
  confirmed : ∀ a ∈ c.appended, ConfirmedBy numText c.f replies a

/-- the request store after some replies -/
def stored (s : ReqRepStore) (replies : List (ReplyMsg N × NodeName)) : ReqRepStore :=
  replies.foldl (fun s m => addReply z s m.1 m.2) s

variable (N)

/-- the result that more than `f` of the stored replies to a request agree on -/
def confirmedReply (s : ReqRepStore) (f : ℕ) (identifier : String) (reqId : ℕ) : Option (Value ν) :=
  ((s.getReplies z identifier reqId).bind fun replies =>
    Client.checkIfMoreThanFSameItems numText replies.values f).filter (·.truthy N)

variable {N}

/-! ## What a reply does -/

section Reply

variable {z} {numText} {c : LoggingClient ν} {m : ReplyMsg N × NodeName}

/-- more answers than `f` were counted if more than `f` of them are the same -/
theorem lt_length_of_check {items : List (Value ν)} {f : ℕ} {reply : Value ν}
    (h : Client.checkIfMoreThanFSameItems numText items f = some reply) : f < items.length := by
  obtain ⟨text, htext, -⟩ := Option.bind_eq_some_iff.1 h
  have hlt := (checkIfMoreThanFSameItems_eq_some htext).2
  have hle := List.count_le_length (a := text) (l := items.map (Json.dumps numText))
  rw [List.length_map] at hle
  exact hlt.trans_le hle

/-- a reply that is not confirmed is only stored -/
theorem handleReply_none
    (h : confirmedReply z N numText (addReply z c.reqRepStore m.1 m.2) c.f m.1.identifier m.1.reqId = none) :
    c.handleReply z numText m = { c with reqRepStore := addReply z c.reqRepStore m.1 m.2 } := by
  unfold handleReply
  dsimp only
  cases (addReply z c.reqRepStore m.1 m.2).getTexts .reply m.1.identifier m.1.reqId with
  | none => rfl
  | some texts =>
    unfold postReplyRecvd
    dsimp only
    split_ifs
    · unfold confirmedReply at h
      cases hreplies : (addReply z c.reqRepStore m.1 m.2).getReplies z m.1.identifier m.1.reqId with
      | none => rfl
      | some replies =>
        rw [hreplies, Option.bind_some] at h
        dsimp only
        cases hcheck : Client.checkIfMoreThanFSameItems numText replies.values c.f with
        | none => rfl
        | some reply =>
          rw [hcheck, Option.filter_some] at h
          split_ifs at h with htruthy
          dsimp only
          rw [if_neg htruthy]
    · rfl

/-- a reply that is confirmed is logged if the log has no record -/
theorem handleReply_some {reply : Value ν} (hlog : c.txnLog.transactionLog = [])
    (h : confirmedReply z N numText (addReply z c.reqRepStore m.1 m.2) c.f m.1.identifier m.1.reqId = some reply) :
    c.handleReply z numText m =
      ({ c with reqRepStore := addReply z c.reqRepStore m.1 m.2 } : LoggingClient ν).append z m.1.identifier m.1.reqId
        reply := by
  unfold confirmedReply at h
  obtain ⟨hbind, htruthy⟩ := Option.filter_eq_some_iff.1 h
  obtain ⟨replies, hreplies, hcheck⟩ := Option.bind_eq_some_iff.1 hbind
  have hhas : c.txnLog.hasTxn m.1.identifier m.1.reqId = false := by
    unfold ClientTxnLog.hasTxn
    rw [hlog]
    rfl
  unfold handleReply
  dsimp only
  cases htexts : (addReply z c.reqRepStore m.1 m.2).getTexts .reply m.1.identifier m.1.reqId with
  | none =>
    unfold ReqRepStore.getReplies at hreplies
    rw [htexts] at hreplies
    cases hreplies
  | some texts =>
    have hsize : c.f < texts.size := by
      have hlt := lt_length_of_check hcheck
      unfold ReqRepStore.getReplies at hreplies
      rw [htexts, Option.map_some, Option.some.injEq] at hreplies
      rw [← hreplies, Dict.values, List.length_map] at hlt
      simpa [Dict.size, Dict.mapValues] using hlt
    unfold postReplyRecvd
    dsimp only
    rw [hhas, decide_eq_true hsize, Bool.not_false, Bool.true_and, if_pos rfl, hreplies]
    dsimp only
    rw [hcheck]
    dsimp only
    rw [if_pos htruthy]

theorem handleReply_appended (c : LoggingClient ν) (m : ReplyMsg N × NodeName) :
    c.appended <+: (c.handleReply z numText m).appended := by
  unfold handleReply
  dsimp only
  split
  · exact List.prefix_rfl
  · unfold postReplyRecvd
    dsimp only
    split_ifs
    · split
      · exact List.prefix_rfl
      · split
        · exact List.prefix_rfl
        · split_ifs
          · exact List.prefix_append _ _
          · exact List.prefix_rfl
    · exact List.prefix_rfl

theorem run_appended (c : LoggingClient ν) (replies : List (ReplyMsg N × NodeName)) :
    c.appended <+: (c.run z numText replies).appended := by
  induction replies generalizing c with
  | nil => exact List.prefix_rfl
  | cons m replies ih => exact (handleReply_appended c m).trans (ih _)

end Reply

/-! ## Nothing is logged -/

/-- the replies confirm nothing -/
def Unconfirmed (s : ReqRepStore) (f : ℕ) (replies : List (ReplyMsg N × NodeName)) : Prop :=
  ∀ xs m ys, replies = xs ++ m :: ys →
    confirmedReply z N numText (stored z s (xs ++ [m])) f m.1.identifier m.1.reqId = none

variable {z numText}

theorem run_unconfirmed {c : LoggingClient ν} {replies : List (ReplyMsg N × NodeName)}
    (h : Unconfirmed z numText c.reqRepStore c.f replies) :
    (c.run z numText replies).txnLog = c.txnLog ∧ (c.run z numText replies).appended = c.appended := by
  induction replies generalizing c with
  | nil => exact ⟨rfl, rfl⟩
  | cons m replies ih =>
    obtain ⟨hhead, htail⟩ := forall_split_cons.1 h
    have hstep := handleReply_none (c := c) hhead
    have hrun := ih (c := c.handleReply z numText m) (by
      rw [hstep]
      exact htail)
    rw [hstep] at hrun
    have hfold : c.run z numText (m :: replies) = (c.handleReply z numText m).run z numText replies := rfl
    rw [hfold, hstep]
    exact hrun

/-- the first reply that is confirmed is logged -/
theorem run_appended_eq_nil {c : LoggingClient ν} {replies : List (ReplyMsg N × NodeName)}
    (hlog : c.txnLog.transactionLog = []) (hnil : (c.run z numText replies).appended = []) :
    Unconfirmed z numText c.reqRepStore c.f replies := by
  induction replies generalizing c with
  | nil =>
    intro xs m ys hsplit
    exact absurd hsplit.symm (List.append_ne_nil_of_right_ne_nil xs (List.cons_ne_nil m ys))
  | cons m replies ih =>
    have hhead : confirmedReply z N numText (addReply z c.reqRepStore m.1 m.2) c.f m.1.identifier m.1.reqId = none := by
      cases h : confirmedReply z N numText (addReply z c.reqRepStore m.1 m.2) c.f m.1.identifier m.1.reqId with
      | none => rfl
      | some reply =>
        have hle : (c.handleReply z numText m).appended <+: (c.run z numText (m :: replies)).appended :=
          run_appended _ replies
        rw [hnil, List.prefix_nil, handleReply_some hlog h] at hle
        exact absurd hle (List.append_ne_nil_of_right_ne_nil _ (List.cons_ne_nil _ _))
    have hstep := handleReply_none (c := c) hhead
    refine forall_split_cons.2 ⟨hhead, ?_⟩
    have hrest := ih (c := c.handleReply z numText m) (by rw [hstep]; exact hlog) hnil
    rw [hstep] at hrest
    exact hrest

/-! ## The result -/

/-- a record for any identifier would have to be there for all of them -/
theorem LogsOnce.appended_eq_nil {c : LoggingClient ν} {replies : List (ReplyMsg N × NodeName)}
    (h : LogsOnce numText c replies) : c.appended = [] := by
  refine List.eq_nil_iff_forall_not_mem.2 fun a ha => ?_
  obtain ⟨identifier, hfresh⟩ := Infinite.exists_notMem_finset (c.appended.map Appended.identifier).toFinset
  have hhas : c.txnLog.hasTxn a.identifier a.reqId = true := (h.known _ _).2 ⟨a, ha, rfl, rfl⟩
  obtain ⟨a', ha', hidentifier, -⟩ := (h.known identifier a.reqId).1 hhas
  exact hfresh (List.mem_toFinset.2 (List.mem_map.2 ⟨a', ha', hidentifier⟩))

variable (z numText)

/-- **Confirmed transactions are logged once** if and only if there are none. -/
theorem logsOnce_iff (f : ℕ) (replies : List (ReplyMsg N × NodeName)) :
    LogsOnce numText ((init f).run z numText replies) replies ↔ Unconfirmed z numText Dict.empty f replies := by
  constructor
  · intro h
    exact run_appended_eq_nil (c := init f) rfl h.appended_eq_nil
  · intro h
    obtain ⟨hlog, happended⟩ := run_unconfirmed (c := init f) h
    have hnil : ((init f).run z numText replies).appended = [] := happended
    refine ⟨fun identifier reqId => ?_, fun identifier reqId => ?_, fun a ha => ?_⟩
    · rw [hnil]
      exact Nat.zero_le _
    · rw [hlog, hnil]
      exact iff_of_false Bool.false_ne_true fun ⟨a, ha, _⟩ => absurd ha List.not_mem_nil
    · rw [hnil] at ha
      cases ha

/-! ## Witness -/

namespace ThreeReplies

def numbers : Numbers ℤ := ⟨id, toString, fun x y => x = y, fun x => x ≠ 0⟩

def result : Client.Result ℤ where
  entries := [("identifier", .str "client"), ("reqId", .num 1)]
  valid := by simp [Value.Valid, Value.ValidEntries]
  hasIdentifier := rfl
  hasReqId := rfl

def reply : ReplyMsg numbers := ⟨result, "client", 1, rfl, rfl⟩

/-- the fields of the result, and the result that is read back from them -/
def serializers : StoreSerializers Unit (Value ℤ) where
  serializeReq _ := "request"
  serialize _ := "client|1"
  deserialize _ := result.value

/-- three of four nodes answer -/
def client : LoggingClient ℤ :=
  (init (getMaxFailures 4)).run serializers toString [(reply, "Alpha"), (reply, "Beta"), (reply, "Gamma")]

end ThreeReplies

open ThreeReplies in
/-- the transaction is logged with the second reply and with the third one, and the log does not know it -/
theorem logged_again : ¬ (∀ replies : List (ReplyMsg numbers × NodeName),
    LogsOnce toString ((init (getMaxFailures 4)).run serializers toString replies) replies) ∧
    client.txnLog.transactionLog.map TxnRecord.key = ["client1", "client1"] ∧
    client.txnLog.hasTxn "client" 1 = false := by
  have htwice : client.appended.countP (fun a => a.identifier = "client" ∧ a.reqId = 1) = 2 ∧
      client.txnLog.transactionLog.map TxnRecord.key = ["client1", "client1"] ∧
      client.txnLog.hasTxn "client" 1 = false := by decide +kernel
  refine ⟨fun h => ?_, htwice.2⟩
  have honce := (h [(reply, "Alpha"), (reply, "Beta"), (reply, "Gamma")]).once "client" 1
  change client.appended.countP _ ≤ 1 at honce
  rw [htwice.1] at honce
  exact absurd honce (by decide)

end LoggingClient

end Plenum
