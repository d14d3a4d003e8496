/-
Names, keys and messages of the consensus protocol.

- A replica name is the pair of its node's name and its protocol instance (`RepName`; the source prints it as
  `node:inst`, `generateName` and `getNodeName` go between the two).
- A request is known by its key `(identifier, reqId)`; a batch by its 3-phase key `(viewNo, ppSeqNo)`.
- There are two ledgers, pool and domain; `PerLedger` is a value for each of them.
- The 3-phase messages, `Checkpoint` and `Ordered` carry the fields of their schemas. A `Checkpoint` is an untyped
  tuple in the source, so the ends of its range may be any integers.
- `Exn` lists the exceptions that the modelled code raises or lets escape.
-/
import Mathlib.Tactic

namespace Plenum

/-! ## Names and keys -/

abbrev NodeName := String

/-- the name of a replica: its node and its protocol instance -/
structure RepName where
  node : NodeName
  instId : ℕ
deriving DecidableEq, Repr

def generateName (nodeName : NodeName) (instId : ℕ) : RepName := ⟨nodeName, instId⟩

def getNodeName (replicaName : RepName) : NodeName := replicaName.node

/-- `(identifier, reqId)` -/
abbrev ReqKey := String × ℕ

/-- `(viewNo, ppSeqNo)` -/
abbrev TPCKey := ℕ × ℕ

/-! ## Ledgers -/

inductive LedgerId where
  | pool
  | domain
deriving DecidableEq, Repr

/-- one value for each ledger -/
structure PerLedger (α : Type) where
  pool : α
  domain : α
deriving DecidableEq, Repr

namespace PerLedger

variable {α : Type}

def get (p : PerLedger α) : LedgerId → α
  | .pool => p.pool
  | .domain => p.domain

def set (p : PerLedger α) (l : LedgerId) (a : α) : PerLedger α :=
  match l with
  | .pool => { p with pool := a }
  | .domain => { p with domain := a }

@[simp] theorem get_set_self (p : PerLedger α) (l : LedgerId) (a : α) : (p.set l a).get l = a := by
  cases l <;> rfl

theorem get_set_ne (p : PerLedger α) {l l' : LedgerId} (a : α) (h : l' ≠ l) : (p.set l a).get l' = p.get l' := by
  cases l <;> cases l' <;> first | rfl | exact absurd rfl h

theorem get_set (p : PerLedger α) (l l' : LedgerId) (a : α) :
    (p.set l a).get l' = if l' = l then a else p.get l' := by
  split_ifs with h
  · rw [h, get_set_self]
  · exact get_set_ne p a h

@[simp] theorem set_get (p : PerLedger α) (l : LedgerId) : p.set l (p.get l) = p := by cases l <;> rfl

theorem ext_get {p q : PerLedger α} (h : ∀ l, p.get l = q.get l) : p = q := by
  cases p; cases q
  rw [mk.injEq]
  exact ⟨h .pool, h .domain⟩

@[simp] theorem set_set (p : PerLedger α) (l : LedgerId) (a b : α) : (p.set l a).set l b = p.set l b := by
  cases l <;> rfl

end PerLedger

/-! ## Requests -/

/-- a client request; `ω` is the type of operations, `digest` what `getDigest` computed when it was built -/
structure Request (ω : Type) where
  identifier : String
  reqId : ℕ
  operation : ω
  digest : String
  signature : String
deriving DecidableEq, Repr

def Request.key {ω : Type} (r : Request ω) : ReqKey := (r.identifier, r.reqId)

/-! ## Protocol messages -/

structure PrePrepare where
  instId : ℕ
  viewNo : ℕ
  ppSeqNo : ℕ
  ppTime : ℕ
  reqIdr : List ReqKey
  discarded : ℕ
  digest : String
  ledgerId : LedgerId
  stateRootHash : Option String
  txnRootHash : Option String
deriving DecidableEq, Repr

structure Prepare where
  instId : ℕ
  viewNo : ℕ
  ppSeqNo : ℕ
  digest : String
  stateRootHash : Option String
  txnRootHash : Option String
deriving DecidableEq, Repr

structure Commit where
  instId : ℕ
  viewNo : ℕ
  ppSeqNo : ℕ
deriving DecidableEq, Repr

structure Checkpoint where
  instId : ℕ
  viewNo : ℕ
  seqNoStart : ℤ
  seqNoEnd : ℤ
  digest : String
deriving DecidableEq, Repr

structure Ordered where
  instId : ℕ
  viewNo : ℕ
  reqIdr : List ReqKey
  ppSeqNo : ℕ
  ppTime : ℕ
  ledgerId : LedgerId
  stateRootHash : Option String
  txnRootHash : Option String
deriving DecidableEq, Repr

/-- a request that dynamic validation refused, with the text of the exception -/
structure Reject where
  identifier : String
  reqId : ℕ
  reason : String
deriving DecidableEq, Repr

def PrePrepare.key (pp : PrePrepare) : TPCKey := (pp.viewNo, pp.ppSeqNo)

def Prepare.key (p : Prepare) : TPCKey := (p.viewNo, p.ppSeqNo)

def Commit.key (c : Commit) : TPCKey := (c.viewNo, c.ppSeqNo)

def Ordered.key (o : Ordered) : TPCKey := (o.viewNo, o.ppSeqNo)

inductive ThreePhaseMsg where
  | prePrepare (pp : PrePrepare)
  | prepare (p : Prepare)
  | commit (c : Commit)
deriving DecidableEq, Repr

namespace ThreePhaseMsg

def viewNo : ThreePhaseMsg → ℕ
  | prePrepare pp => pp.viewNo
  | prepare p => p.viewNo
  | commit c => c.viewNo

def ppSeqNo : ThreePhaseMsg → ℕ
  | prePrepare pp => pp.ppSeqNo
  | prepare p => p.ppSeqNo
  | commit c => c.ppSeqNo

end ThreePhaseMsg

/-- what a replica reads from its `inBox`: a request key from its node, or a message with the sending node's name -/
inductive InMsg where
  | reqKey (k : ReqKey)
  | threePhase (m : ThreePhaseMsg) (sender : NodeName)
  | checkpoint (c : Checkpoint) (sender : NodeName)
deriving DecidableEq, Repr

/-- what a replica puts in its `outBox` -/
inductive OutMsg where
  | threePhase (m : ThreePhaseMsg)
  | checkpoint (c : Checkpoint)
  | ordered (o : Ordered)
  | reject (r : Reject)
deriving DecidableEq, Repr

def OutMsg.ordered? : OutMsg → Option Ordered
  | .ordered o => some o
  | _ => none

/-! ## Exceptions -/

/-- the suspicions that the 3-phase code raises -/
inductive Suspicion where
  | PPR_FRM_NON_PRIMARY
  | PPR_TO_PRIMARY
  | DUPLICATE_PPR_SENT
  | PPR_REJECT_WRONG
  | PPR_DIGEST_WRONG
  | PPR_STATE_WRONG
  | PPR_TXN_WRONG
  | PR_FRM_PRIMARY
  | DUPLICATE_PR_SENT
  | UNKNOWN_PR_SENT
  | PR_DIGEST_WRONG
  | PR_STATE_WRONG
  | PR_TXN_WRONG
  | DUPLICATE_CM_SENT
deriving DecidableEq, Repr

/-- the exceptions that can leave a modelled method; `outOfFuel` is the model's own (a bounded run was cut short) -/
inductive Exn where
  | suspiciousNode (node : RepName) (suspicion : Suspicion) (offendingMsg : ThreePhaseMsg)
  | keyError
  | attributeError
  | assertionError
  | runtimeError
  | indexError
  | typeError
  | valueError
  | zeroDivisionError
  | nameError
  | outOfFuel
deriving DecidableEq, Repr

end Plenum
