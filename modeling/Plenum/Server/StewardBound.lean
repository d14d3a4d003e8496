/-
The bound on the number of stewards, when requests are applied in batches.

- `handlerReqToTxn`: the transaction of a request, with what the request processors add to it. Without processors a
  request is applied as `DomainRequestHandler.apply` does it (`applyRequest_nil`).
- `HandlerStep`: a request that is validated, and applied if it is accepted, or a commit of a prefix of the uncommitted
  transactions.
- `stewards`: the STEWARD NYM transactions, committed or not. Validation counts the committed ones only.
- `ThresholdSeesAll`: the threshold check answers a steward's request for a steward as it would with everything committed.
- `accepted_iff_of_asksForSteward`: what validation checks of a request for a steward.
- `withinBound_step_iff`, `steward_bound_iff`: in any run the bound holds in every state if and only if no such request
  comes when the uncommitted transactions make a difference to the threshold check.
- `two_in_one_batch`: two stewards in one batch where there is room for one.
-/
import Mathlib.Tactic
import Plenum.Core.Run
import Plenum.Server.CatchupState

namespace Plenum

open Plenum.Core DomainRequestHandler

/-! ## Model -/

/-- a plugin that processes requests: `txn.update(processor.process(req))` -/
abbrev ReqProcessor := Request DomainOperation → DomainTxn → DomainTxn

/-- the domain ledger and the domain state of a handler -/
abbrev DomainHandler := LedgerAndState DomainTxn NymData

/-- `_reqToTxn` of the handler -/
def handlerReqToTxn (reqProcessors : List ReqProcessor) (req : Request DomainOperation) : DomainTxn :=
  reqProcessors.foldl (fun txn processor => processor req txn) (reqToTxn req)

/-- a step of the handler: a request that is validated, or a commit -/
inductive HandlerStep where
  | request (req : Request DomainOperation)
  | commit (txnCount : ℕ) (stateRoot : Dict String NymData)

namespace DomainHandler

section

variable (root : List DomainTxn → String) (reqProcessors : List ReqProcessor) (stewardThreshold : ℕ)

def applyRequest (db : DomainHandler) (req : Request DomainOperation) : DomainHandler :=
  db.applyTxn updateState (fun txn seqNo => { txn with seqNo := some seqNo }) root (handlerReqToTxn reqProcessors req)

/-- a request is applied only if validation accepts it -/
def step (db : DomainHandler) : HandlerStep → DomainHandler
  | .request req =>
    if validate stewardThreshold db.ledger db.state req = none then applyRequest root reqProcessors db req else db
  | .commit txnCount stateRoot => ⟨(db.ledger.commitTxns txnCount).1, db.state.commit stateRoot⟩

def run (db : DomainHandler) (steps : List HandlerStep) : DomainHandler :=
  steps.foldl (step root reqProcessors stewardThreshold) db

/-- without processors it is the handler's `apply` -/
theorem applyRequest_nil (db : DomainHandler) (req : Request DomainOperation) :
    ((applyRequest root [] db req).ledger, (applyRequest root [] db req).state) =
      (DomainRequestHandler.apply root db.ledger db.state req).2 := rfl

end

/-! ## Counting stewards -/

/-- a NYM transaction of role STEWARD -/
def isStewardTxn (txn : DomainTxn) : Bool := txn.operation.type = NYM ∧ txn.operation.role = some (some STEWARD)

/-- the stewards among all transactions, committed or not -/
def stewards (db : DomainHandler) : ℕ := (db.ledger.txns ++ db.ledger.uncommittedTxns).countP isStewardTxn

/-- the stewards that are applied and not committed -/
def uncommittedStewards (db : DomainHandler) : ℕ := db.ledger.uncommittedTxns.countP isStewardTxn

def WithinBound (stewardThreshold : ℕ) (db : DomainHandler) : Prop := db.stewards ≤ stewardThreshold + 1

/-- a request that itself is for a steward, as validation looks for it -/
def asksForSteward (req : Request DomainOperation) : Bool :=
  req.operation.type = NYM ∧ req.operation.role = some (some STEWARD)

/-- the ledger once everything is committed -/
def allCommitted (db : DomainHandler) : Ledger DomainTxn := (db.ledger.commitTxns db.ledger.uncommittedTxns.length).1

/-- When a steward asks for a steward, the uncommitted transactions make no difference to the threshold check. A request
that only a processor turns into a steward is not compared with the threshold, so if it is accepted there has to be room. -/
def ThresholdSeesAll (reqProcessors : List ReqProcessor) (stewardThreshold : ℕ) (db : DomainHandler) : HandlerStep → Prop
  | .request req => isStewardTxn (handlerReqToTxn reqProcessors req) = true →
      if asksForSteward req then
        isSteward db.state req.identifier false = true →
          stewardThresholdExceeded stewardThreshold db.ledger = stewardThresholdExceeded stewardThreshold db.allCommitted
      else
        validate stewardThreshold db.ledger db.state req = none →
          stewardThresholdExceeded stewardThreshold db.allCommitted = false
  | .commit _ _ => True

variable {root : List DomainTxn → String} {reqProcessors : List ReqProcessor} {stewardThreshold : ℕ} {db : DomainHandler}

/-- what validation counts, and what it does not -/
theorem stewards_eq (db : DomainHandler) : db.stewards = countStewards db.ledger + db.uncommittedStewards := by
  unfold stewards
  rw [List.countP_append]
  rfl

/-- with everything committed the threshold check counts all stewards -/
theorem exceeded_allCommitted (stewardThreshold : ℕ) (db : DomainHandler) :
    stewardThresholdExceeded stewardThreshold db.allCommitted = decide (stewardThreshold < db.stewards) := by
  unfold stewardThresholdExceeded countStewards allCommitted stewards Ledger.commitTxns
  dsimp only
  rw [List.take_length]
  rfl

/-- **What validation checks** of a request for a steward: who asks, and the number of the committed stewards. -/
theorem accepted_iff_of_asksForSteward (stewardThreshold : ℕ) (db : DomainHandler) (req : Request DomainOperation)
    (hasks : asksForSteward req = true) :
    validate stewardThreshold db.ledger db.state req = none ↔
      isSteward db.state req.identifier false = true ∧ stewardThresholdExceeded stewardThreshold db.ledger = false := by
  obtain ⟨htype, hrole⟩ := of_decide_eq_true hasks
  unfold validate
  rw [if_pos htype]
  cases hexceeded : stewardThresholdExceeded stewardThreshold db.ledger <;>
    cases hsteward : isSteward db.state req.identifier false <;> simp [hrole]

theorem stewards_applyRequest (db : DomainHandler) (req : Request DomainOperation) :
    (applyRequest root reqProcessors db req).stewards =
      db.stewards + if isStewardTxn (handlerReqToTxn reqProcessors req) then 1 else 0 := by
  unfold stewards applyRequest LedgerAndState.applyTxn
  dsimp only
  rw [Ledger.appendTxns_txns, Ledger.appendTxns_uncommittedTxns, ← List.append_assoc, List.countP_append]
  simp [List.countP_cons]

/-- a commit moves transactions, and changes none -/
theorem stewards_commit (db : DomainHandler) (txnCount : ℕ) (stateRoot : Dict String NymData) :
    (step root reqProcessors stewardThreshold db (.commit txnCount stateRoot)).stewards = db.stewards := by
  unfold stewards step Ledger.commitTxns
  dsimp only
  rw [List.append_assoc, List.take_append_drop]

/-! ## The bound -/

/-- an accepted request for a steward finds room for it exactly if the threshold check has seen all -/
theorem room_iff_of_asksForSteward (db : DomainHandler) (req : Request DomainOperation)
    (hasks : asksForSteward req = true) :
    (validate stewardThreshold db.ledger db.state req = none → db.stewards ≤ stewardThreshold) ↔
      (isSteward db.state req.identifier false = true →
        stewardThresholdExceeded stewardThreshold db.ledger = stewardThresholdExceeded stewardThreshold db.allCommitted) := by
  have hcommitted : stewardThresholdExceeded stewardThreshold db.ledger =
      decide (stewardThreshold < countStewards db.ledger) := rfl
  rw [accepted_iff_of_asksForSteward stewardThreshold db req hasks, exceeded_allCommitted, hcommitted, stewards_eq,
    decide_eq_false_iff_not, decide_eq_decide]
  constructor
  · intro hroom hsteward
    refine ⟨fun h => by omega, fun hall => ?_⟩
    by_contra hnot
    have := hroom ⟨hsteward, hnot⟩
    omega
  · rintro hsame ⟨hsteward, hnot⟩
    by_contra hall
    exact hnot ((hsame hsteward).2 (by omega))

/-- **The step.** Within the bound, it stays so exactly if the threshold check sees all the stewards there are. -/
theorem withinBound_step_iff (h : db.WithinBound stewardThreshold) (e : HandlerStep) :
    (step root reqProcessors stewardThreshold db e).WithinBound stewardThreshold ↔
      db.ThresholdSeesAll reqProcessors stewardThreshold e := by
  unfold WithinBound at h ⊢
  cases e with
  | commit txnCount stateRoot =>
    rw [stewards_commit]
    exact iff_of_true h trivial
  | request req =>
    -- the bound goes exactly if a steward is added to more than the threshold
    have hbound : (step root reqProcessors stewardThreshold db (.request req)).stewards ≤ stewardThreshold + 1 ↔
        (isStewardTxn (handlerReqToTxn reqProcessors req) = true →
          validate stewardThreshold db.ledger db.state req = none → db.stewards ≤ stewardThreshold) := by
      unfold step
      dsimp only
      split_ifs with haccepted
      · rw [stewards_applyRequest]
        split_ifs with hsteward
        · simp only [haccepted, hsteward, forall_const]
          omega
        · simp only [hsteward, Bool.false_eq_true, IsEmpty.forall_iff, iff_true]
          omega
      · exact iff_of_true h fun _ hacc => absurd hacc haccepted
    rw [hbound]
    unfold ThresholdSeesAll
    dsimp only
    refine imp_congr_right fun _ => ?_
    split_ifs with hasks
    · exact room_iff_of_asksForSteward db req hasks
    · rw [exceeded_allCommitted, decide_eq_false_iff_not, not_lt]

/-- **When the bound holds.** For every threshold, request processors and ledger that is within the bound, and every run of
requests and commits: every state of the run is within the bound if and only if at each request of a steward for a steward
the threshold check answers as it would with everything committed. -/
theorem steward_bound_iff (root : List DomainTxn → String) (reqProcessors : List ReqProcessor) (stewardThreshold : ℕ)
    (db : DomainHandler) (h : db.WithinBound stewardThreshold) (steps : List HandlerStep) :
    (∀ past rest, steps = past ++ rest →
      (run root reqProcessors stewardThreshold db past).WithinBound stewardThreshold) ↔
    ∀ past e rest, steps = past ++ e :: rest →
      (run root reqProcessors stewardThreshold db past).ThresholdSeesAll reqProcessors stewardThreshold e := by
  have hconcat : ∀ past e, run root reqProcessors stewardThreshold db (past ++ [e]) =
      step root reqProcessors stewardThreshold (run root reqProcessors stewardThreshold db past) e := by
    intro past e
    unfold run
    rw [List.foldl_append, List.foldl_cons, List.foldl_nil]
  constructor
  · intro hbound past e rest hsplit
    have hnext := hbound (past ++ [e]) rest (by rw [hsplit, List.append_assoc, List.singleton_append])
    rw [hconcat] at hnext
    exact (withinBound_step_iff (hbound past (e :: rest) hsplit) e).1 hnext
  · intro hsees past
    induction past using List.reverseRecOn with
    | nil =>
      intro rest _
      exact h
    | append_singleton past e ih =>
      intro rest hsplit
      rw [List.append_assoc, List.singleton_append] at hsplit
      rw [hconcat]
      exact (withinBound_step_iff (ih (e :: rest) hsplit) e).2 (hsees past e rest hsplit)

/-! ## Witness and counterexample -/

namespace OneMoreSteward

/-- the steward with the given number is added by the first one -/
def addSteward (i : ℕ) : Request DomainOperation := ⟨"s0", i, ⟨NYM, "s" ++ toString i, some (some STEWARD), none⟩, "", ""⟩

/-- one steward is committed; with a threshold of one there is room for another one -/
def start : DomainHandler where
  ledger := { Ledger.empty with txns := [reqToTxn (addSteward 0)] }
  state := (updateState false [reqToTxn (addSteward 0)] State.empty).commit
    (updateState false [reqToTxn (addSteward 0)] State.empty).headHash

/-- two stewards in one batch -/
def oneBatch : List HandlerStep := [.request (addSteward 1), .request (addSteward 2)]

/-- the first one is committed before the second one is asked for -/
def twoBatches : List HandlerStep := [.request (addSteward 1), .commit 1 Dict.empty, .request (addSteward 2)]

end OneMoreSteward

open OneMoreSteward in
/-- **Two stewards where there is room for one.** Both requests pass validation, as none of the new stewards is committed. -/
theorem two_in_one_batch :
    start.WithinBound 1 ∧ ¬ (run (fun _ => "") [] 1 start oneBatch).WithinBound 1 ∧
    (run (fun _ => "") [] 1 start oneBatch).stewards = 3 := by
  unfold WithinBound
  decide +kernel

open OneMoreSteward in
theorem steward_bound_iff_twoBatches :
    ((∀ past rest, twoBatches = past ++ rest → (run (fun _ => "") [] 1 start past).WithinBound 1) ↔
      ∀ past e rest, twoBatches = past ++ e :: rest → (run (fun _ => "") [] 1 start past).ThresholdSeesAll [] 1 e) ∧
    (run (fun _ => "") [] 1 start twoBatches).stewards = 2 := by
  have hstart : start.WithinBound 1 := by
    unfold WithinBound
    decide +kernel
  exact ⟨steward_bound_iff (fun _ => "") [] 1 start hstart twoBatches, by decide +kernel⟩

end DomainHandler

end Plenum
