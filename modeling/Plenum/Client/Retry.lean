/-
How a client sends its requests again to nodes that do not answer.

- `RetryClient`: for each request the nodes that are expected to acknowledge it, and those that are expected to reply, with
  the time of the last try and the number of retries. `sets` are the set objects that the entries refer to.
- `retryForExpected`: the requests that are sent again are those with an overdue reply, since the variable with those that
  have an overdue acknowledgement is assigned anew. `resendRequests` makes both tables refer to one set.
- `Sound.handle`: what each event keeps, if no request is sent without being registered, none is submitted again to fewer
  nodes, and no acknowledgement comes for a set that both tables share.
- `retries_overdue`: in runs of such events whatever is overdue is sent again by a firing at which each request with an
  overdue acknowledgement has an overdue reply, too.
- `unacknowledged_not_resent`: a node acknowledges nothing, and the firing after the timeout sends nothing.

`sent` is a history: what has become of each request. The timer that calls `retryForExpected` is left out.
-/
import Mathlib.Tactic
import Plenum.Core.Dict
import Plenum.Core.Run
import Plenum.Common.Types

namespace Plenum

open Plenum.Core

/-! ## The tables -/

/-- `d[k] = g(d[k])` if the key is there -/
def modifyAt {κ α : Type} [DecidableEq κ] (d : Dict κ α) (k : κ) (g : α → α) : Dict κ α :=
  match d.get? k with
  | none => d
  | some v => d.set k (g v)

theorem get?_modifyAt {κ α : Type} [DecidableEq κ] (d : Dict κ α) (k k' : κ) (g : α → α) :
    (modifyAt d k g).get? k' = if k' = k then (d.get? k).map g else d.get? k' := by
  unfold modifyAt
  split
  · next h =>
    split_ifs with hk
    · rw [hk, h]
      rfl
    · rfl
  · next v h =>
    rw [Dict.get?_set, h]
    split_ifs <;> rfl

structure RetryConfig where
  CLIENT_REQACK_TIMEOUT : ℕ
  CLIENT_REPLY_TIMEOUT : ℕ
  CLIENT_MAX_RETRY_ACK : ℕ
  CLIENT_MAX_RETRY_REPLY : ℕ

/-- an entry of a table: which set object, the time of the last try, and the retries -/
structure Expected where
  expectedFrom : ℕ
  lastTried : ℕ
  retries : ℕ
deriving DecidableEq

/-- what has become of a request: the nodes it was sent to, its last try and its retries, and who has answered -/
structure SentRequest where
  nodes : Finset NodeName
  lastTry : ℕ
  retries : ℕ
  acked : Finset NodeName
  answered : Finset NodeName
deriving DecidableEq

namespace SentRequest

/-- a reply and a refusal stand for an acknowledgement -/
def lacksAck (r : SentRequest) : Finset NodeName := (r.nodes \ r.acked) \ r.answered

def lacksReply (r : SentRequest) : Finset NodeName := r.nodes \ r.answered

theorem lacksAck_subset (r : SentRequest) : r.lacksAck ⊆ r.lacksReply := by
  intro node hnode
  unfold lacksAck at hnode
  unfold lacksReply
  simp only [Finset.mem_sdiff] at hnode ⊢
  exact ⟨hnode.1.1, hnode.2⟩

end SentRequest

/-- a call of `resendRequests` that is scheduled: the nodes for each request -/
structure Resend where
  due : ℕ
  aliveRequests : List (ReqKey × Finset NodeName)
deriving DecidableEq

structure RetryClient where
  clock : ℕ
  discovered : Bool
  conns : Finset NodeName
  minNodesToConnect : ℕ
  reqsPendingConnection : List ReqKey
  sets : ReqKey → ℕ → Finset NodeName
  created : ℕ
  expectingAcksFor : Dict ReqKey Expected
  expectingRepliesFor : Dict ReqKey Expected
  resends : List Resend
  sent : Dict ReqKey SentRequest

/-- the messages of nodes about a request -/
inductive NodeAnswer where
  | REQACK
  | REQNACK
  | REJECT
  | REPLY
deriving DecidableEq

/-- what happens to a client; `submitReqs` is one event for each of its requests -/
inductive RetryEvent where
  | connections (discovered : Bool) (conns : Finset NodeName)
  | submitReq (key : ReqKey)
  | flushMsgsPendingConnection
  | answer (msg : NodeAnswer) (key : ReqKey) (frm : NodeName)
  | retryForExpected
  | resendRequests (i : ℕ)
  | tick (ticks : ℕ)

namespace RetryClient

def init (minNodesToConnect : ℕ) : RetryClient :=
  ⟨0, false, ∅, minNodesToConnect, [], fun _ _ => ∅, 0, Dict.empty, Dict.empty, [], Dict.empty⟩

variable (cfg : RetryConfig) (s : RetryClient)

/-! ## Sending -/

def hasSufficientConnections : Prop := s.minNodesToConnect ≤ s.conns.card

instance : Decidable s.hasSufficientConnections := by
  unfold hasSufficientConnections
  infer_instance

/-- a new set object for a request -/
def setSet (key : ReqKey) (i : ℕ) (nodes : Finset NodeName) : ReqKey → ℕ → Finset NodeName :=
  Function.update s.sets key (Function.update (s.sets key) i nodes)

/-- the history of a request that is sent to the nodes that are connected -/
def sentNow (old : Option SentRequest) : SentRequest where
  nodes := (old.elim ∅ SentRequest.nodes) ∪ s.conns
  lastTry := s.clock
  retries := 0
  acked := old.elim ∅ SentRequest.acked
  answered := old.elim ∅ SentRequest.answered

/-- `send` -/
def send (key : ReqKey) : RetryClient := { s with sent := s.sent.set key (s.sentNow (s.sent.get? key)) }

/-- a set of the connected nodes, and a copy of it -/
def expectingFor (key : ReqKey) : RetryClient :=
  let s := { s with sets := s.setSet key s.created s.conns,
                    expectingAcksFor := s.expectingAcksFor.set key ⟨s.created, s.clock, 0⟩ }
  { s with sets := s.setSet key (s.created + 1) s.conns, created := s.created + 2,
           expectingRepliesFor := s.expectingRepliesFor.set key ⟨s.created + 1, s.clock, 0⟩ }

/-- the body of the loop of `submitReqs` -/
def submitReq (key : ReqKey) : RetryClient :=
  if s.discovered ∧ s.hasSufficientConnections then (s.send key).expectingFor key
  else { s with reqsPendingConnection := s.reqsPendingConnection ++ [key] }

/-- what was pending is sent -/
def flushMsgsPendingConnection : RetryClient :=
  s.reqsPendingConnection.foldl send { s with reqsPendingConnection := [] }

/-! ## Answers -/

/-- the body of the loop of `gotExpected`, for one table -/
def gotFrom (sets : ReqKey → ℕ → Finset NodeName) (coll : Dict ReqKey Expected) (key : ReqKey) (frm : NodeName) :
    (ReqKey → ℕ → Finset NodeName) × Dict ReqKey Expected :=
  match coll.get? key with
  | none => (sets, coll)
  | some e =>
    let left := (sets key e.expectedFrom).erase frm
    (Function.update sets key (Function.update (sets key) e.expectedFrom left), if left = ∅ then coll.erase key else coll)

def gotExpected (msg : NodeAnswer) (key : ReqKey) (frm : NodeName) : RetryClient :=
  let (sets, acks) := gotFrom s.sets s.expectingAcksFor key frm
  match msg with
  | .REQACK => { s with sets := sets, expectingAcksFor := acks }
  | _ =>
    let (sets, replies) := gotFrom sets s.expectingRepliesFor key frm
    { s with sets := sets, expectingAcksFor := acks, expectingRepliesFor := replies }

/-- the history of an answer -/
def answered (msg : NodeAnswer) (frm : NodeName) (r : SentRequest) : SentRequest :=
  match msg with
  | .REQACK => { r with acked := insert frm r.acked }
  | _ => { r with answered := insert frm r.answered }

/-! ## Retries -/

/-- the timeout since the last try has passed -/
def isLate (retryTimeout : ℕ) (e : Expected) : Bool := e.lastTried + retryTimeout ≤ s.clock

/-- the requests that are given up, those that are to be sent again, and the nodes that have not answered -/
def filterExpected (queue : Dict ReqKey Expected) (retryTimeout maxRetry : ℕ) :
    List ReqKey × List (ReqKey × Finset NodeName) × Finset NodeName :=
  let late := queue.entries.filter fun e => s.isLate retryTimeout e.2
  let alive := late.filter fun e => e.2.retries < maxRetry
  let aliveRequests := alive.map fun e => (e.1, s.sets e.1 e.2.expectedFrom)
  ((late.filter fun e => maxRetry ≤ e.2.retries).map Prod.fst, aliveRequests,
    aliveRequests.foldl (fun nodes e => nodes ∪ e.2) ∅)

/-- `aliveRequests` is what the second filter returns -/
def retryForExpected : RetryClient :=
  let (requestsWithNoAck, _, notAckedNodes) :=
    s.filterExpected s.expectingAcksFor cfg.CLIENT_REQACK_TIMEOUT cfg.CLIENT_MAX_RETRY_ACK
  let (requestsWithNoReply, aliveRequests, _) :=
    s.filterExpected s.expectingRepliesFor cfg.CLIENT_REPLY_TIMEOUT cfg.CLIENT_MAX_RETRY_REPLY
  { s with
    expectingAcksFor := s.expectingAcksFor.eraseAll requestsWithNoAck,
    expectingRepliesFor := s.expectingRepliesFor.eraseAll requestsWithNoReply,
    resends := if aliveRequests = [] then s.resends
      else s.resends ++ [⟨s.clock + if notAckedNodes = ∅ then 0 else 3, aliveRequests⟩] }

/-- the body of the loop of `resendRequests` -/
def resendRequest (e : ReqKey × Finset NodeName) : RetryClient :=
  if e.2 = ∅ then s
  else
    let again : Expected → Expected := fun x => ⟨s.created, s.clock, x.retries + 1⟩
    { s with sets := s.setSet e.1 s.created e.2, created := s.created + 1,
             expectingAcksFor := modifyAt s.expectingAcksFor e.1 again,
             expectingRepliesFor := modifyAt s.expectingRepliesFor e.1 again,
             sent := modifyAt s.sent e.1 fun r => { r with lastTry := s.clock, retries := r.retries + 1 } }

def resendRequests (keys : List (ReqKey × Finset NodeName)) : RetryClient := keys.foldl resendRequest s

/-- a scheduled call may run at any time after the firing -/
def handle : RetryEvent → RetryClient
  | .connections discovered conns => { s with discovered := discovered, conns := conns }
  | .submitReq key => s.submitReq key
  | .flushMsgsPendingConnection => s.flushMsgsPendingConnection
  | .answer msg key frm => { s.gotExpected msg key frm with sent := modifyAt s.sent key (answered msg frm) }
  | .retryForExpected => s.retryForExpected cfg
  | .resendRequests i =>
    match s.resends[i]? with
    | none => s
    | some r => { s with resends := s.resends.eraseIdx i }.resendRequests r.aliveRequests
  | .tick ticks => { s with clock := s.clock + ticks }

def run (events : List RetryEvent) : RetryClient := events.foldl (handle cfg) s

/-! ## What is overdue -/

/-- an answer of the node is missing, its timeout has passed since the last try, and its retries are not used up -/
def Overdue (r : SentRequest) (node : NodeName) : Prop :=
  node ∈ r.lacksAck ∧ r.lastTry + cfg.CLIENT_REQACK_TIMEOUT ≤ s.clock ∧ r.retries < cfg.CLIENT_MAX_RETRY_ACK ∨
    node ∈ r.lacksReply ∧ r.lastTry + cfg.CLIENT_REPLY_TIMEOUT ≤ s.clock ∧ r.retries < cfg.CLIENT_MAX_RETRY_REPLY

/-- **A firing schedules a resend of everything that is overdue** to the nodes that have not answered. -/
def RetriesOverdue : Prop :=
  ∀ key r, s.sent.get? key = some r → ∀ node, s.Overdue cfg r node →
    ∃ resend, (s.retryForExpected cfg).resends = s.resends ++ [resend] ∧
      ∃ nodes, (key, nodes) ∈ resend.aliveRequests ∧ node ∈ nodes

/-- an entry is late and is to be retried -/
def Retriable (retryTimeout maxRetry : ℕ) (e : Expected) : Prop := s.isLate retryTimeout e = true ∧ e.retries < maxRetry

/-- what may happen: a request is not submitted to fewer nodes than are still to answer it or than it is being sent again
to; nothing is flushed; no acknowledgement takes a node that is to reply from a set of both tables; and at a firing a
request that waits for overdue acknowledgements waits for overdue replies -/
def Keeps : RetryEvent → Prop
  | .submitReq key => s.discovered ∧ s.hasSufficientConnections →
      (∀ r, s.sent.get? key = some r → r.lacksReply ⊆ s.conns) ∧
      ∀ resend ∈ s.resends, ∀ nodes, (key, nodes) ∈ resend.aliveRequests → s.conns ⊆ nodes
  | .flushMsgsPendingConnection => s.reqsPendingConnection = []
  | .answer .REQACK key frm => ∀ e e', s.expectingAcksFor.get? key = some e → s.expectingRepliesFor.get? key = some e' →
      e.expectedFrom = e'.expectedFrom → ∀ r, s.sent.get? key = some r → frm ∉ r.lacksReply
  | .retryForExpected => ∀ key e, s.expectingAcksFor.get? key = some e →
      s.Retriable cfg.CLIENT_REQACK_TIMEOUT cfg.CLIENT_MAX_RETRY_ACK e → (s.sets key e.expectedFrom).Nonempty →
      ∃ e', s.expectingRepliesFor.get? key = some e' ∧
        s.Retriable cfg.CLIENT_REPLY_TIMEOUT cfg.CLIENT_MAX_RETRY_REPLY e'
  | _ => True

/-! ## What the events keep -/

/-- what an entry has to hold while an answer of the node is missing -/
def Waits (entry : Option Expected) (sets : ℕ → Finset NodeName) (maxRetry : ℕ) (r : SentRequest) (node : NodeName) :
    Prop :=
  (entry = none → maxRetry ≤ r.retries) ∧
    ∀ e, entry = some e → node ∈ sets e.expectedFrom ∧ e.lastTried ≤ r.lastTry ∧ e.retries ≤ r.retries

/-- whoever is still to answer is waited for, and gets each resend -/
structure Sound : Prop where
  acks : ∀ key r, s.sent.get? key = some r → ∀ node ∈ r.lacksAck,
    Waits (s.expectingAcksFor.get? key) (s.sets key) cfg.CLIENT_MAX_RETRY_ACK r node
  replies : ∀ key r, s.sent.get? key = some r → ∀ node ∈ r.lacksReply,
    Waits (s.expectingRepliesFor.get? key) (s.sets key) cfg.CLIENT_MAX_RETRY_REPLY r node
  resends : ∀ resend ∈ s.resends, ∀ key nodes, (key, nodes) ∈ resend.aliveRequests →
    ∀ r, s.sent.get? key = some r → r.lacksReply ⊆ nodes

variable {cfg s}

theorem init_sound (minNodesToConnect : ℕ) : (init minNodesToConnect).Sound cfg where
  acks key r h := by cases h
  replies key r h := by cases h
  resends resend h := by cases h

theorem setSet_self (key : ReqKey) (i : ℕ) (nodes : Finset NodeName) : s.setSet key i nodes key i = nodes := by
  unfold setSet
  rw [Function.update_self, Function.update_self]

theorem setSet_of_ne {key key' : ReqKey} (i : ℕ) (nodes : Finset NodeName) (h : key' ≠ key) :
    s.setSet key i nodes key' = s.sets key' := Function.update_of_ne h _ _

section Submit

variable {key : ReqKey}

theorem lacksReply_sentNow (old : Option SentRequest) (hold : ∀ r, old = some r → r.lacksReply ⊆ s.conns) :
    (s.sentNow old).lacksReply ⊆ s.conns := by
  intro node hnode
  unfold SentRequest.lacksReply sentNow at hnode
  rw [Finset.mem_sdiff, Finset.mem_union] at hnode
  obtain ⟨hnode | hnode, hanswered⟩ := hnode
  · cases old with
    | none => exact absurd hnode (Finset.notMem_empty node)
    | some r => exact hold r rfl (Finset.mem_sdiff.2 ⟨hnode, hanswered⟩)
  · exact hnode

theorem sets_expectingFor_of_ne (s : RetryClient) {key' : ReqKey} (h : key' ≠ key) :
    (s.expectingFor key).sets key' = s.sets key' :=
  (Function.update_of_ne h _ _).trans (Function.update_of_ne h _ _)

theorem sets_expectingFor (s : RetryClient) (key : ReqKey) : (s.expectingFor key).sets key s.created = s.conns ∧
    (s.expectingFor key).sets key (s.created + 1) = s.conns := by
  unfold expectingFor setSet
  dsimp only
  rw [Function.update_self, Function.update_self, Function.update_self, Function.update_of_ne (by omega),
    Function.update_self]
  exact ⟨rfl, rfl⟩

/-- a request that is submitted is registered for all nodes that are to answer it -/
theorem Sound.submitReq (h : s.Sound cfg) (hkeeps : s.Keeps cfg (.submitReq key)) : (s.submitReq key).Sound cfg := by
  unfold RetryClient.submitReq
  split_ifs with hsend
  · obtain ⟨hold, hcover⟩ := hkeeps hsend
    have hlacks := lacksReply_sentNow (s.sent.get? key) hold
    have hsent : ∀ key', ((s.send key).expectingFor key).sent.get? key' =
        if key' = key then some (s.sentNow (s.sent.get? key)) else s.sent.get? key' := fun key' => Dict.get?_set _ _ _ _
    have hacks : ∀ key', ((s.send key).expectingFor key).expectingAcksFor.get? key' =
        if key' = key then some ⟨s.created, s.clock, 0⟩ else s.expectingAcksFor.get? key' :=
      fun key' => Dict.get?_set _ _ _ _
    have hreplies : ∀ key', ((s.send key).expectingFor key).expectingRepliesFor.get? key' =
        if key' = key then some ⟨s.created + 1, s.clock, 0⟩ else s.expectingRepliesFor.get? key' :=
      fun key' => Dict.get?_set _ _ _ _
    obtain ⟨hset, hcopy⟩ := sets_expectingFor (s.send key) key
    refine ⟨fun key' r hr node hnode => ?_, fun key' r hr node hnode => ?_, fun resend hresend key' nodes hin r hr => ?_⟩
    · rw [hsent] at hr
      rw [hacks]
      split_ifs at hr ⊢ with hkey
      · cases hr
        refine ⟨fun hnone => absurd hnone (Option.some_ne_none _), fun e he => ?_⟩
        cases he
        rw [hkey]
        exact ⟨hset.symm ▸ hlacks (SentRequest.lacksAck_subset _ hnode), le_rfl, le_rfl⟩
      · rw [sets_expectingFor_of_ne _ hkey]
        exact h.acks key' r hr node hnode
    · rw [hsent] at hr
      rw [hreplies]
      split_ifs at hr ⊢ with hkey
      · cases hr
        refine ⟨fun hnone => absurd hnone (Option.some_ne_none _), fun e he => ?_⟩
        cases he
        rw [hkey]
        exact ⟨hcopy.symm ▸ hlacks hnode, le_rfl, le_rfl⟩
      · rw [sets_expectingFor_of_ne _ hkey]
        exact h.replies key' r hr node hnode
    · rw [hsent] at hr
      split_ifs at hr with hkey
      · cases hr
        exact hlacks.trans (hcover resend hresend nodes (hkey ▸ hin))
      · exact h.resends resend hresend key' nodes hin r hr
  · exact ⟨h.acks, h.replies, h.resends⟩

end Submit

/-! An answer is taken from the sets of its request only. -/

section Answer

variable {sets : ReqKey → ℕ → Finset NodeName} {coll : Dict ReqKey Expected} {key : ReqKey} {frm : NodeName}

theorem gotFrom_sets_of_ne {key' : ReqKey} (h : key' ≠ key) : (gotFrom sets coll key frm).1 key' = sets key' := by
  unfold gotFrom
  split
  · rfl
  · exact Function.update_of_ne h _ _

theorem gotFrom_coll_of_ne {key' : ReqKey} (h : key' ≠ key) : (gotFrom sets coll key frm).2.get? key' = coll.get? key' := by
  unfold gotFrom
  split
  · rfl
  · dsimp only
    split_ifs
    · rw [Dict.get?_erase, if_neg h]
    · rfl

/-- other nodes stay in the sets, and the node stays in those that are not the entry's -/
theorem mem_gotFrom {i : ℕ} {node : NodeName} (h : node ∈ sets key i)
    (hother : node ≠ frm ∨ ∀ e, coll.get? key = some e → e.expectedFrom ≠ i) :
    node ∈ (gotFrom sets coll key frm).1 key i := by
  unfold gotFrom
  split
  · exact h
  · next e he =>
    dsimp only
    rw [Function.update_self]
    by_cases hi : i = e.expectedFrom
    · rw [hi, Function.update_self]
      rcases hother with hne | hnot
      · exact Finset.mem_erase.2 ⟨hne, hi ▸ h⟩
      · exact absurd hi.symm (hnot e he)
    · rw [Function.update_of_ne hi]
      exact h

/-- an entry with another node is kept -/
theorem gotFrom_get? {e : Expected} {node : NodeName} (he : coll.get? key = some e) (hnode : node ∈ sets key e.expectedFrom)
    (hne : node ≠ frm) : (gotFrom sets coll key frm).2.get? key = some e := by
  unfold gotFrom
  rw [he]
  dsimp only
  rw [if_neg (Finset.ne_empty_of_mem (Finset.mem_erase.2 ⟨hne, hnode⟩))]
  exact he

theorem gotFrom_get?_none (h : coll.get? key = none) : (gotFrom sets coll key frm).2.get? key = none := by
  unfold gotFrom
  rw [h]
  exact h

/-- what is waited for from others is waited for still -/
theorem Waits.gotFrom {maxRetry : ℕ} {r : SentRequest} {node : NodeName} (h : Waits (coll.get? key) (sets key) maxRetry r node)
    (hne : node ≠ frm) :
    Waits ((RetryClient.gotFrom sets coll key frm).2.get? key) ((RetryClient.gotFrom sets coll key frm).1 key) maxRetry r node := by
  obtain ⟨hnone, hsome⟩ := h
  cases he : coll.get? key with
  | none =>
    rw [gotFrom_get?_none he]
    exact ⟨fun _ => hnone he, fun e he' => by cases he'⟩
  | some e =>
    obtain ⟨hnode, hlast, hretries⟩ := hsome e he
    rw [gotFrom_get? he hnode hne]
    refine ⟨fun hnone => absurd hnone (Option.some_ne_none _), fun e' he' => ?_⟩
    cases he'
    exact ⟨mem_gotFrom hnode (Or.inl hne), hlast, hretries⟩

theorem Waits.mono_sets {entry : Option Expected} {sets sets' : ℕ → Finset NodeName} {maxRetry : ℕ} {r : SentRequest}
    {node : NodeName} (h : Waits entry sets maxRetry r node) (hsets : ∀ i, node ∈ sets i → node ∈ sets' i) :
    Waits entry sets' maxRetry r node :=
  ⟨h.1, fun e he => ⟨hsets _ (h.2 e he).1, (h.2 e he).2⟩⟩

theorem Waits.answered {entry : Option Expected} {sets : ℕ → Finset NodeName} {maxRetry : ℕ} {r : SentRequest}
    {node : NodeName} (h : Waits entry sets maxRetry r node) (msg : NodeAnswer) (frm : NodeName) :
    Waits entry sets maxRetry (RetryClient.answered msg frm r) node := by
  cases msg <;> exact h

theorem lacksAck_answered {msg : NodeAnswer} {r : SentRequest} {node : NodeName}
    (h : node ∈ (answered msg frm r).lacksAck) : node ∈ r.lacksAck ∧ node ≠ frm := by
  unfold SentRequest.lacksAck at h ⊢
  cases msg <;> simp only [answered, Finset.mem_sdiff, Finset.mem_insert, not_or] at h ⊢ <;> tauto

theorem lacksReply_answered {msg : NodeAnswer} {r : SentRequest} {node : NodeName}
    (h : node ∈ (answered msg frm r).lacksReply) : node ∈ r.lacksReply ∧ (msg ≠ .REQACK → node ≠ frm) := by
  unfold SentRequest.lacksReply at h ⊢
  cases msg <;> simp only [answered, Finset.mem_sdiff, Finset.mem_insert, not_or] at h ⊢ <;> tauto

/-- the history after an answer -/
theorem sent_answer {key' : ReqKey} {msg : NodeAnswer} {r' : SentRequest}
    (h : (modifyAt s.sent key (answered msg frm)).get? key' = some r') :
    (key' ≠ key ∧ s.sent.get? key' = some r') ∨
      key' = key ∧ ∃ r, s.sent.get? key = some r ∧ r' = answered msg frm r := by
  rw [get?_modifyAt] at h
  split_ifs at h with hkey
  · obtain ⟨r, hr, rfl⟩ := Option.map_eq_some_iff.1 h
    exact Or.inr ⟨hkey, r, hr, rfl⟩
  · exact Or.inl ⟨hkey, h⟩

/-- what was sent again before the answer still reaches all that are to answer -/
theorem Sound.resends_answer (h : s.Sound cfg) (msg : NodeAnswer) {resend : Resend} (hresend : resend ∈ s.resends)
    {key' : ReqKey} {nodes : Finset NodeName} (hin : (key', nodes) ∈ resend.aliveRequests) {r' : SentRequest}
    (hr : (modifyAt s.sent key (answered msg frm)).get? key' = some r') : r'.lacksReply ⊆ nodes := by
  rcases sent_answer hr with ⟨-, hsent⟩ | ⟨rfl, r, hsent, rfl⟩
  · exact h.resends resend hresend key' nodes hin r' hsent
  · exact fun node hnode => h.resends resend hresend key' nodes hin r hsent (lacksReply_answered hnode).1

theorem Sound.ack (h : s.Sound cfg) (hkeeps : s.Keeps cfg (.answer .REQACK key frm)) :
    (s.handle cfg (.answer .REQACK key frm)).Sound cfg := by
  refine ⟨fun key' r' hr node hnode => ?_, fun key' r' hr node hnode => ?_,
    fun resend hresend key' nodes hin r' hr => h.resends_answer .REQACK hresend hin hr⟩
  · change Waits ((gotFrom s.sets s.expectingAcksFor key frm).2.get? key')
      ((gotFrom s.sets s.expectingAcksFor key frm).1 key') _ r' node
    rcases sent_answer hr with ⟨hkey, hsent⟩ | ⟨rfl, r, hsent, rfl⟩
    · rw [gotFrom_sets_of_ne hkey, gotFrom_coll_of_ne hkey]
      exact h.acks key' r' hsent node hnode
    · obtain ⟨hlacks, hne⟩ := lacksAck_answered hnode
      exact ((h.acks key' r hsent node hlacks).gotFrom hne).answered .REQACK frm
  · change Waits (s.expectingRepliesFor.get? key') ((gotFrom s.sets s.expectingAcksFor key frm).1 key') _ r' node
    rcases sent_answer hr with ⟨hkey, hsent⟩ | ⟨rfl, r, hsent, rfl⟩
    · rw [gotFrom_sets_of_ne hkey]
      exact h.replies key' r' hsent node hnode
    · have hlacks := (lacksReply_answered hnode).1
      obtain ⟨hnone, hsome⟩ := h.replies key' r hsent node hlacks
      refine Waits.answered ⟨hnone, fun e' he' => ⟨mem_gotFrom (hsome e' he').1 ?_, (hsome e' he').2⟩⟩ .REQACK frm
      -- the acknowledgement is not taken from the set of those that are to reply
      refine or_iff_not_imp_left.2 fun heq e he hshared => ?_
      exact hkeeps e e' he he' hshared r hsent (not_not.1 heq ▸ hlacks)

theorem Sound.reply (h : s.Sound cfg) {msg : NodeAnswer} (hmsg : msg ≠ .REQACK) (key : ReqKey) (frm : NodeName) :
    (s.handle cfg (.answer msg key frm)).Sound cfg := by
  have hgot : s.gotExpected msg key frm =
      { s with sets := (gotFrom (gotFrom s.sets s.expectingAcksFor key frm).1 s.expectingRepliesFor key frm).1,
               expectingAcksFor := (gotFrom s.sets s.expectingAcksFor key frm).2,
               expectingRepliesFor :=
                 (gotFrom (gotFrom s.sets s.expectingAcksFor key frm).1 s.expectingRepliesFor key frm).2 } := by
    cases msg with
    | REQACK => exact absurd rfl hmsg
    | REQNACK => rfl
    | REJECT => rfl
    | REPLY => rfl
  unfold handle
  dsimp only
  rw [hgot]
  refine ⟨fun key' r' hr node hnode => ?_, fun key' r' hr node hnode => ?_,
    fun resend hresend key' nodes hin r' hr => h.resends_answer msg hresend hin hr⟩
  · rcases sent_answer hr with ⟨hkey, hsent⟩ | ⟨rfl, r, hsent, rfl⟩
    · dsimp only
      rw [gotFrom_sets_of_ne hkey, gotFrom_sets_of_ne hkey, gotFrom_coll_of_ne hkey]
      exact h.acks key' r' hsent node hnode
    · obtain ⟨hlacks, hne⟩ := lacksAck_answered hnode
      exact (((h.acks key' r hsent node hlacks).gotFrom hne).mono_sets fun i hi => mem_gotFrom hi (Or.inl hne)).answered msg frm
  · rcases sent_answer hr with ⟨hkey, hsent⟩ | ⟨rfl, r, hsent, rfl⟩
    · dsimp only
      rw [gotFrom_sets_of_ne hkey, gotFrom_sets_of_ne hkey, gotFrom_coll_of_ne hkey]
      exact h.replies key' r' hsent node hnode
    · obtain ⟨hlacks, hne⟩ := lacksReply_answered hnode
      have hstays : ∀ i, node ∈ s.sets key' i → node ∈ (gotFrom s.sets s.expectingAcksFor key' frm).1 key' i :=
        fun i hi => mem_gotFrom hi (Or.inl (hne hmsg))
      exact (((h.replies key' r hsent node hlacks).mono_sets hstays).gotFrom (hne hmsg)).answered msg frm

end Answer

section Firing

variable {queue : Dict ReqKey Expected} {key : ReqKey} {retryTimeout maxRetry : ℕ}

theorem mem_dead : key ∈ (s.filterExpected queue retryTimeout maxRetry).1 ↔
    ∃ e, queue.get? key = some e ∧ s.isLate retryTimeout e = true ∧ maxRetry ≤ e.retries := by
  unfold filterExpected
  dsimp only
  rw [Dict.mem_fst]
  refine exists_congr fun e => ?_
  rw [List.mem_filter, List.mem_filter, decide_eq_true_eq, Dict.get?_eq_some, and_assoc]

theorem mem_alive {nodes : Finset NodeName} : (key, nodes) ∈ (s.filterExpected queue retryTimeout maxRetry).2.1 ↔
    ∃ e, queue.get? key = some e ∧ s.Retriable retryTimeout maxRetry e ∧ nodes = s.sets key e.expectedFrom := by
  unfold filterExpected
  dsimp only
  rw [List.mem_map]
  constructor
  · rintro ⟨⟨key', e⟩, hin, heq⟩
    obtain ⟨hlate, hretries⟩ := List.mem_filter.1 hin
    obtain ⟨hmem, hlate⟩ := List.mem_filter.1 hlate
    cases heq
    exact ⟨e, Dict.get?_eq_some.2 hmem, ⟨hlate, of_decide_eq_true hretries⟩, rfl⟩
  · rintro ⟨e, he, ⟨hlate, hretries⟩, rfl⟩
    exact ⟨(key, e), List.mem_filter.2 ⟨List.mem_filter.2 ⟨Dict.get?_eq_some.1 he, hlate⟩, decide_eq_true hretries⟩, rfl⟩

/-- what is given up has used its retries up -/
theorem Waits.eraseDead {sets : ℕ → Finset NodeName} {r : SentRequest} {node : NodeName}
    (h : Waits (queue.get? key) sets maxRetry r node) :
    Waits ((queue.eraseAll (s.filterExpected queue retryTimeout maxRetry).1).get? key) sets maxRetry r node := by
  rw [Dict.get?_eraseAll]
  split_ifs with hdead
  · obtain ⟨e, he, -, hretries⟩ := mem_dead.1 hdead
    exact ⟨fun _ => hretries.trans (h.2 e he).2.2, fun e he => by cases he⟩
  · exact h

theorem Sound.retryForExpected (h : s.Sound cfg) : (s.retryForExpected cfg).Sound cfg := by
  refine ⟨fun key r hr node hnode => (h.acks key r hr node hnode).eraseDead,
    fun key r hr node hnode => (h.replies key r hr node hnode).eraseDead, fun resend hresend key nodes hin r hr => ?_⟩
  unfold RetryClient.retryForExpected at hresend
  dsimp only at hresend
  split at hresend
  · exact h.resends resend hresend key nodes hin r hr
  · rcases List.mem_append.1 hresend with hresend | hresend
    · exact h.resends resend hresend key nodes hin r hr
    · rw [List.mem_singleton.1 hresend] at hin
      obtain ⟨e, he, -, rfl⟩ := mem_alive.1 hin
      exact fun node hnode => ((h.replies key r hr node hnode).2 e he).1

/-- an entry of a node that is overdue is to be retried -/
theorem Waits.retriable {entry : Option Expected} {sets : ℕ → Finset NodeName} {r : SentRequest} {node : NodeName}
    (h : Waits entry sets maxRetry r node) (hlate : r.lastTry + retryTimeout ≤ s.clock) (hretries : r.retries < maxRetry) :
    ∃ e, entry = some e ∧ s.Retriable retryTimeout maxRetry e ∧ node ∈ sets e.expectedFrom := by
  obtain ⟨hnone, hsome⟩ := h
  cases he : entry with
  | none => exact absurd (hnone he) (not_le.2 hretries)
  | some e =>
    obtain ⟨hnode, hlast, hle⟩ := hsome e he
    refine ⟨e, rfl, ⟨decide_eq_true ?_, hle.trans_lt hretries⟩, hnode⟩
    omega

/-- a firing sends everything overdue again, if all overdue acknowledgements come with overdue replies -/
theorem Sound.retriesOverdue (h : s.Sound cfg) (hkeeps : s.Keeps cfg .retryForExpected) : s.RetriesOverdue cfg := by
  intro key r hr node hoverdue
  have hreply : ∃ e, s.expectingRepliesFor.get? key = some e ∧
      s.Retriable cfg.CLIENT_REPLY_TIMEOUT cfg.CLIENT_MAX_RETRY_REPLY e ∧ node ∈ s.sets key e.expectedFrom := by
    rcases hoverdue with ⟨hnode, hlate, hretries⟩ | ⟨hnode, hlate, hretries⟩
    · obtain ⟨e, he, hretriable, hmem⟩ := (h.acks key r hr node hnode).retriable hlate hretries
      obtain ⟨e', he', hretriable'⟩ := hkeeps key e he hretriable ⟨node, hmem⟩
      exact ⟨e', he', hretriable', ((h.replies key r hr node (r.lacksAck_subset hnode)).2 e' he').1⟩
    · exact (h.replies key r hr node hnode).retriable hlate hretries
  obtain ⟨e, he, hretriable, hnode⟩ := hreply
  have hin := mem_alive.2 ⟨e, he, hretriable, rfl⟩
  unfold RetryClient.retryForExpected
  dsimp only
  rw [if_neg (List.ne_nil_of_mem hin)]
  exact ⟨_, rfl, _, hin, hnode⟩

end Firing

section Resending

variable {key : ReqKey} {nodes : Finset NodeName}

/-- an entry that is set anew for a resend -/
theorem Waits.again {coll : Dict ReqKey Expected} {sets : ℕ → Finset NodeName} {maxRetry : ℕ} {r : SentRequest}
    {node : NodeName} (h : Waits (coll.get? key) sets maxRetry r node) (hnode : node ∈ nodes) :
    Waits ((modifyAt coll key fun x => ⟨s.created, s.clock, x.retries + 1⟩).get? key) (s.setSet key s.created nodes key)
      maxRetry { r with lastTry := s.clock, retries := r.retries + 1 } node := by
  rw [get?_modifyAt, if_pos rfl]
  obtain ⟨hnone, hsome⟩ := h
  cases he : coll.get? key with
  | none => exact ⟨fun _ => (hnone he).trans (Nat.le_succ _), fun e he' => by cases he'⟩
  | some e =>
    refine ⟨fun hnone => absurd hnone (Option.some_ne_none _), fun e' he' => ?_⟩
    cases he'
    exact ⟨(setSet_self key s.created nodes).symm ▸ hnode, le_rfl, Nat.succ_le_succ (hsome e he).2.2⟩

/-- a resend changes what it says of a request only by its time and its number -/
theorem sent_resendRequest {key' : ReqKey} {r' : SentRequest} (h : (s.resendRequest (key, nodes)).sent.get? key' = some r') :
    ∃ r, s.sent.get? key' = some r ∧ r'.lacksReply = r.lacksReply := by
  unfold RetryClient.resendRequest at h
  split_ifs at h
  · exact ⟨r', h, rfl⟩
  · dsimp only at h
    rw [get?_modifyAt] at h
    split_ifs at h with hkey
    · obtain ⟨r, hr, rfl⟩ := Option.map_eq_some_iff.1 h
      exact ⟨r, hkey ▸ hr, rfl⟩
    · exact ⟨r', h, rfl⟩

theorem Sound.resendRequest (h : s.Sound cfg) (hcover : ∀ r, s.sent.get? key = some r → r.lacksReply ⊆ nodes) :
    (s.resendRequest (key, nodes)).Sound cfg := by
  have hresends : ∀ resend ∈ s.resends, ∀ key' nodes', (key', nodes') ∈ resend.aliveRequests →
      ∀ r', (s.resendRequest (key, nodes)).sent.get? key' = some r' → r'.lacksReply ⊆ nodes' := by
    intro resend hresend key' nodes' hin r' hr'
    obtain ⟨r, hr, hlacks⟩ := sent_resendRequest hr'
    exact hlacks ▸ h.resends resend hresend key' nodes' hin r hr
  unfold RetryClient.resendRequest at *
  split_ifs with hempty
  · exact h
  · rw [if_neg hempty] at hresends
    refine ⟨fun key' r' hr' node hnode => ?_, fun key' r' hr' node hnode => ?_, hresends⟩
    · dsimp only at hr' ⊢
      by_cases hkey : key' = key
      · subst hkey
        rw [get?_modifyAt, if_pos rfl] at hr'
        obtain ⟨r, hr, rfl⟩ := Option.map_eq_some_iff.1 hr'
        exact (h.acks key' r hr node hnode).again (hcover r hr (r.lacksAck_subset hnode))
      · rw [get?_modifyAt, if_neg hkey] at hr' ⊢
        rw [setSet_of_ne _ _ hkey]
        exact h.acks key' r' hr' node hnode
    · dsimp only at hr' ⊢
      by_cases hkey : key' = key
      · subst hkey
        rw [get?_modifyAt, if_pos rfl] at hr'
        obtain ⟨r, hr, rfl⟩ := Option.map_eq_some_iff.1 hr'
        exact (h.replies key' r hr node hnode).again (hcover r hr hnode)
      · rw [get?_modifyAt, if_neg hkey] at hr' ⊢
        rw [setSet_of_ne _ _ hkey]
        exact h.replies key' r' hr' node hnode

theorem Sound.resendRequests (h : s.Sound cfg) {keys : List (ReqKey × Finset NodeName)}
    (hcover : ∀ key nodes, (key, nodes) ∈ keys → ∀ r, s.sent.get? key = some r → r.lacksReply ⊆ nodes) :
    (s.resendRequests keys).Sound cfg := by
  induction keys generalizing s with
  | nil => exact h
  | cons e keys ih =>
    obtain ⟨key, nodes⟩ := e
    refine ih (h.resendRequest (hcover key nodes List.mem_cons_self)) fun key' nodes' hin r' hr' => ?_
    obtain ⟨r, hr, hlacks⟩ := sent_resendRequest hr'
    exact hlacks ▸ hcover key' nodes' (List.mem_cons_of_mem _ hin) r hr

end Resending

theorem Sound.handle (h : s.Sound cfg) (e : RetryEvent) (hkeeps : s.Keeps cfg e) : (s.handle cfg e).Sound cfg := by
  cases e with
  | connections discovered conns => exact ⟨h.acks, h.replies, h.resends⟩
  | submitReq key => exact h.submitReq hkeeps
  | flushMsgsPendingConnection =>
    have hnone : s.reqsPendingConnection = [] := hkeeps
    change s.flushMsgsPendingConnection.Sound cfg
    unfold RetryClient.flushMsgsPendingConnection
    rw [hnone]
    exact ⟨h.acks, h.replies, h.resends⟩
  | answer msg key frm =>
    cases msg with
    | REQACK => exact h.ack hkeeps
    | REQNACK => exact h.reply (by decide) key frm
    | REJECT => exact h.reply (by decide) key frm
    | REPLY => exact h.reply (by decide) key frm
  | retryForExpected => exact h.retryForExpected
  | resendRequests i =>
    unfold RetryClient.handle
    dsimp only
    cases hi : s.resends[i]? with
    | none => exact h
    | some resend =>
      have hrest : ({ s with resends := s.resends.eraseIdx i } : RetryClient).Sound cfg :=
        ⟨h.acks, h.replies, fun x hx => h.resends x (List.mem_of_mem_eraseIdx hx)⟩
      exact hrest.resendRequests (h.resends resend (List.mem_of_getElem? hi))
  | tick ticks => exact ⟨h.acks, h.replies, h.resends⟩

theorem Sound.run (h : s.Sound cfg) {events : List RetryEvent}
    (hkeeps : ∀ xs e ys, events = xs ++ e :: ys → (s.run cfg xs).Keeps cfg e) : (s.run cfg events).Sound cfg := by
  induction events generalizing s with
  | nil => exact h
  | cons e events ih =>
    obtain ⟨hhead, htail⟩ := forall_split_cons.1 hkeeps
    exact ih (h.handle e hhead) htail

/-! ## The result -/

/-- **Everything overdue is sent again** at each firing, in every run of events that keep what is expected. -/
theorem retries_overdue (cfg : RetryConfig) (minNodesToConnect : ℕ) (events : List RetryEvent)
    (hkeeps : ∀ xs e ys, events = xs ++ e :: ys → ((init minNodesToConnect).run cfg xs).Keeps cfg e) :
    ∀ xs ys, events = xs ++ .retryForExpected :: ys → ((init minNodesToConnect).run cfg xs).RetriesOverdue cfg := by
  intro xs ys hsplit
  refine Sound.retriesOverdue ((init_sound minNodesToConnect).run ?_) (hkeeps xs .retryForExpected ys hsplit)
  rintro xs' e ys' rfl
  exact hkeeps xs' e (ys' ++ .retryForExpected :: ys) (by rw [hsplit, List.append_assoc, List.cons_append])

/-! ## Witness -/

/-- the configuration of a pool -/
def plenumConfig : RetryConfig := ⟨5, 15, 5, 5⟩

/-- a request is sent to two nodes; Alpha answers, and Beta acknowledges it only -/
def betaLate : List RetryEvent :=
  [.connections true {"Alpha", "Beta"}, .submitReq ("client", 1), .answer .REPLY ("client", 1) "Alpha",
    .answer .REQACK ("client", 1) "Beta", .tick 15]

theorem retries_overdue_betaLate : ((init 2).run plenumConfig betaLate).RetriesOverdue plenumConfig := by
  refine retries_overdue plenumConfig 2 (betaLate ++ [.retryForExpected]) ?_ betaLate [] rfl
  refine forall_split_cons.2 ⟨trivial, forall_split_cons.2 ⟨fun _ => ⟨fun r hr => (by cases hr), fun x hx => (by cases hx)⟩,
    forall_split_cons.2 ⟨trivial, forall_split_cons.2 ⟨fun e e' he he' hshared => ?_,
    forall_split_cons.2 ⟨trivial, forall_split_cons.2 ⟨fun key e he => ?_, by simp⟩⟩⟩⟩⟩⟩
  · have hacks : ((init 2).run plenumConfig (betaLate.take 3)).expectingAcksFor.get? ("client", 1) = some ⟨0, 0, 0⟩ := by
      decide +kernel
    have hreplies : ((init 2).run plenumConfig (betaLate.take 3)).expectingRepliesFor.get? ("client", 1) =
        some ⟨1, 0, 0⟩ := by
      decide +kernel
    cases hacks.symm.trans he
    cases hreplies.symm.trans he'
    cases hshared
  · have hempty : ((init 2).run plenumConfig betaLate).expectingAcksFor.entries = [] := by decide +kernel
    have hin := Dict.get?_eq_some.1 he
    change (key, e) ∈ ((init 2).run plenumConfig betaLate).expectingAcksFor.entries at hin
    rw [hempty] at hin
    cases hin

/-- a request is sent to two nodes, and Beta does not acknowledge it in time -/
def betaSilent : List RetryEvent :=
  [.connections true {"Alpha", "Beta"}, .submitReq ("client", 1), .answer .REQACK ("client", 1) "Alpha", .tick 6]

/-- nothing is sent again, since the replies are not overdue yet -/
theorem unacknowledged_not_resent :
    ¬ (∀ xs : List RetryEvent, ((init 2).run plenumConfig xs).RetriesOverdue plenumConfig) ∧
    (((init 2).run plenumConfig betaSilent).retryForExpected plenumConfig).resends = [] := by
  have hnothing : (((init 2).run plenumConfig betaSilent).retryForExpected plenumConfig).resends = [] := by decide +kernel
  refine ⟨fun h => ?_, hnothing⟩
  have hsent : ((init 2).run plenumConfig betaSilent).sent.get? ("client", 1) =
      some ⟨{"Alpha", "Beta"}, 0, 0, {"Alpha"}, ∅⟩ := by decide +kernel
  obtain ⟨resend, hresends, -⟩ := h betaSilent ("client", 1) _ hsent "Beta" (Or.inl (by decide +kernel))
  rw [hnothing] at hresends
  exact absurd hresends.symm (List.append_ne_nil_of_right_ne_nil _ (List.cons_ne_nil _ _))

end RetryClient

end Plenum
