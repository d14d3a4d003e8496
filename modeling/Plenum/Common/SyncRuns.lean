/-
Runs of a ledger manager with everything that its node does to it: messages and timers, as in `LedgerInput`, the timer
for missing transactions, and the node setting the state of a ledger back when it stops.

- `syncRun`: the run; `SyncSentIn` the consistency proofs among its inputs.
- `Vouched.syncRun`: also in such runs every proof held was sent by the node it is held for.
-/
import Mathlib.Tactic
import Plenum.Common.CatchupTarget
import Plenum.Common.MissingTxns

namespace Plenum

open Plenum.Core Plenum.Core.Exec

/-- what reaches a ledger manager -/
inductive SyncInput (τ : Type) where
  | receive (x : LedgerInput τ)
  | setLedgerState (lid : LedgerId) (state : LedgerState)
  | checkIfTxnsNeeded (lid : LedgerId) (eligibleNodes : List NodeName)

namespace LedgerManager

variable {O τ : Type} (env : LedgerEnv τ) (own : LedgerOwner O τ) (fuel : ℕ)

def syncMethod : SyncInput τ → LedgerManagerM O τ Unit
  | .receive x => method env own fuel x
  | .setLedgerState lid state => setLedgerState lid state
  | .checkIfTxnsNeeded lid eligibleNodes => checkIfTxnsNeeded env own lid eligibleNodes

/-- the state after an input, also when its method raises -/
def syncInput (s : LedgerManager O τ) (x : SyncInput τ) : LedgerManager O τ :=
  (Exec.exec (syncMethod env own fuel x) s).2

def syncRun (s : LedgerManager O τ) (xs : List (SyncInput τ)) : LedgerManager O τ := xs.foldl (syncInput env own fuel) s

/-- the consistency proofs among the inputs, with their senders -/
def SyncSentIn (inputs : List (SyncInput τ)) (i : NodeName) (p : ConsistencyProof) : Prop :=
  SyncInput.receive (.consistencyProof p i) ∈ inputs

variable {env own fuel}

theorem syncRun_concat (s : LedgerManager O τ) (xs : List (SyncInput τ)) (x : SyncInput τ) :
    syncRun env own fuel s (xs ++ [x]) = syncInput env own fuel (syncRun env own fuel s xs) x := by
  simp [syncRun, List.foldl_append]

/-- asking again for missing transactions only sends, and sets its own timer -/
theorem Framed.checkIfTxnsNeeded {I : LedgerManager O τ → Prop} (hI : Framed own I) (lid : LedgerId)
    (eligibleNodes : List NodeName) : Keeps I (checkIfTxnsNeeded env own lid eligibleNodes) := by
  apply Keeps.get_seq
  intro s
  refine Keeps.cond (Keeps.ret _) ?_
  split
  · exact Keeps.raise _
  · refine Keeps.cond (hI.modifyLedgerInfo lid fun _ => .ofSame rfl rfl rfl (Or.inl rfl) rfl) (Keeps.cond (Keeps.ret _) ?_)
    dsimp only
    split
    · exact Keeps.raise _
    · refine Keeps.seq (Keeps.each fun e _ => hI.sendTo _ _) fun _ => ?_
      refine Keeps.seq ?_ fun _ => hI.schedule _ _
      exact hI.modifyLedgerInfo lid fun _ => .ofSame rfl rfl rfl (Or.inl rfl) rfl

section Vouched

variable {Sent : NodeName → ConsistencyProof → Prop} {s : LedgerManager O τ}

theorem Vouched.syncInput (h : Vouched own Sent s) {x : SyncInput τ}
    (hsent : ∀ p i, x = .receive (.consistencyProof p i) → Sent i p) : Vouched own Sent (syncInput env own fuel s x) := by
  cases x with
  | receive x => exact h.input fun p i hx => hsent p i (congrArg SyncInput.receive hx)
  | setLedgerState lid state => exact vouched_framed.start s lid _ ⟨fun _ _ hp => hp, rfl, Or.inl rfl⟩ h
  | checkIfTxnsNeeded lid eligibleNodes => exact vouched_framed.toFramed.checkIfTxnsNeeded lid eligibleNodes s h

theorem Vouched.syncRun (h : Vouched own Sent s) {inputs : List (SyncInput τ)}
    (hsent : ∀ i p, SyncSentIn inputs i p → Sent i p) : Vouched own Sent (syncRun env own fuel s inputs) := by
  induction inputs generalizing s with
  | nil => exact h
  | cons x inputs ih =>
    refine ih (h.syncInput ?_) ?_
    · rintro p i rfl
      exact hsent i p List.mem_cons_self
    · intro i p hp
      exact hsent i p (List.mem_cons_of_mem x hp)

end Vouched

end LedgerManager

end Plenum
