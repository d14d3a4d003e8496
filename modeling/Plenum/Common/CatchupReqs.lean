/-
The requests with which a catch-up starts: the transactions after the own last one, up to the end caught up to, in at
most as many parts as there are connections.

- `catchupReqsFrom_tiles`: the loop, by induction on the requests that it may still make. What is left always fits into
  them (`batchLength_spec`), so the loop ends because it reached the end, not because it ran out of connections.
- `exec_startCatchUpProcess`: what starting a catch-up sends.
- `catchupReqs_partition`: the requests partition the missing range, and all of them are sent.
-/
import Mathlib.Tactic
import Plenum.Core.Ranges
import Plenum.Common.LedgerManager
import Plenum.Scenarios.CatchingUp

namespace Plenum

open Plenum.Core Plenum.Core.Exec

def CatchupReq.range (r : CatchupReq) : ℤ × ℤ := (r.seqNoStart, r.seqNoEnd)

namespace LedgerManager

/-! ## The loop -/

section Loop

variable {lid : LedgerId} {seqNoEnd : ℕ} {batchLength : ℤ} {n : ℕ} {s e : ℤ}

theorem catchupReqsFrom_length : (catchupReqsFrom lid seqNoEnd batchLength n s e).length ≤ n := by
  induction n generalizing s e with
  | zero => exact le_rfl
  | succ n ih =>
    rw [catchupReqsFrom, List.length_cons]
    split_ifs
    · simp
    · exact Nat.succ_le_succ ih

theorem catchupReqsFrom_till : ∀ r ∈ catchupReqsFrom lid seqNoEnd batchLength n s e,
    r.ledgerId = lid ∧ r.catchupTill = seqNoEnd := by
  induction n generalizing s e with
  | zero =>
    intro r hr
    cases hr
  | succ n ih =>
    intro r hr
    rw [catchupReqsFrom] at hr
    rcases List.mem_cons.1 hr with rfl | hr
    · exact ⟨rfl, rfl⟩
    · split_ifs at hr
      · cases hr
      · exact ih r hr

/-- where the rest fits into the requests that are left, they get to the end -/
theorem catchupReqsFrom_tiles (hlength : 1 ≤ batchLength) (hs : s ≤ seqNoEnd) (hfits : seqNoEnd - s + 1 ≤ n * batchLength) :
    Tiles s seqNoEnd ((catchupReqsFrom lid seqNoEnd batchLength n s (min (s + batchLength - 1) seqNoEnd)).map
      CatchupReq.range) := by
  induction n generalizing s with
  | zero =>
    push_cast at hfits
    omega
  | succ n ih =>
    push_cast at hfits
    rw [add_mul, one_mul] at hfits
    rw [catchupReqsFrom, List.map_cons]
    refine ⟨rfl, by simp only [CatchupReq.range]; omega, ?_⟩
    simp only [CatchupReq.range]
    split_ifs with hend
    · rw [List.map_nil, Tiles]
      omega
    · have he : min (s + batchLength - 1) (seqNoEnd : ℤ) = s + batchLength - 1 := by omega
      rw [he] at hend ⊢
      have hnext : s + batchLength - 1 + batchLength = s + batchLength - 1 + 1 + batchLength - 1 := by ring
      rw [hnext]
      exact ih (by omega) (by omega)

end Loop

/-! ## The requests -/

theorem batchLength_spec {nodeCount start seqNoEnd : ℕ} (hnodes : 1 ≤ nodeCount) (h : start < seqNoEnd) :
    1 ≤ -(((start : ℤ) - seqNoEnd) / nodeCount) ∧
      (seqNoEnd : ℤ) - start ≤ nodeCount * -(((start : ℤ) - seqNoEnd) / nodeCount) := by
  have hpos : (0 : ℤ) < nodeCount := by exact_mod_cast hnodes
  have hneg : (start : ℤ) - seqNoEnd < 0 := by omega
  have hquot := Int.mul_ediv_self_le (x := (start : ℤ) - seqNoEnd) hpos.ne'
  have hlt := Int.ediv_neg_of_neg_of_pos hneg hpos
  constructor
  · omega
  · rw [mul_neg]
    omega

/-- **The requests partition the range.** -/
theorem getCatchupReqs_spec {nodeCount : ℕ} {proof : ConsistencyProof} (hnodes : 1 ≤ nodeCount)
    (h : proof.seqNoStart < proof.seqNoEnd) :
    ∃ reqs, getCatchupReqs nodeCount proof = some reqs ∧ reqs.length ≤ nodeCount ∧
      (∀ r ∈ reqs, r.ledgerId = proof.ledgerId ∧ r.catchupTill = proof.seqNoEnd) ∧
      Tiles (proof.seqNoStart + 1) proof.seqNoEnd (reqs.map CatchupReq.range) := by
  obtain ⟨hlength, hfits⟩ := batchLength_spec hnodes h
  unfold getCatchupReqs
  rw [if_neg (by omega)]
  refine ⟨_, rfl, catchupReqsFrom_length, catchupReqsFrom_till, ?_⟩
  have hfirst : (proof.seqNoStart : ℤ) + -(((proof.seqNoStart : ℤ) - proof.seqNoEnd) / nodeCount) =
      proof.seqNoStart + 1 + -(((proof.seqNoStart : ℤ) - proof.seqNoEnd) / nodeCount) - 1 := by
    ring
  have hleft : (proof.seqNoEnd : ℤ) - (proof.seqNoStart + 1) + 1 ≤
      nodeCount * -(((proof.seqNoStart : ℤ) - proof.seqNoEnd) / nodeCount) := by
    omega
  rw [hfirst]
  exact catchupReqsFrom_tiles hlength (by omega) hleft

/-! ## Sending them -/

variable {O τ : Type} {env : LedgerEnv τ} {own : LedgerOwner O τ} {fuel : ℕ}

theorem exec_forM_sendTo {α : Type} (l : List α) (msg : α → LedgerMsg) (receiver : α → Option NodeName)
    (s : LedgerManager O τ) :
    exec (l.forM fun e => sendTo (msg e) (receiver e)) s =
      (.ok ⟨⟩, { s with outBox := s.outBox ++ l.map fun e => (msg e, receiver e) }) := by
  induction l generalizing s with
  | nil => simp [exec_pure]
  | cons a l ih =>
    change exec (sendTo (msg a) (receiver a) >>= fun _ => l.forM fun e => sendTo (msg e) (receiver e)) s = _
    rw [exec_bind, sendTo, exec_modify]
    dsimp only
    rw [ih, List.append_assoc]
    rfl

variable (env fuel) in
/-- starting a catch-up sends the requests to the connections, one each -/
theorem exec_startCatchUpProcess {s : LedgerManager O τ} (lid : LedgerId) {p : ConsistencyProof} {reqs : List CatchupReq}
    (h : getCatchupReqs (own.conns s.owner).length p = some reqs) :
    (exec (startCatchUpProcess env own fuel lid (some p)) s).1 = .ok () ∧
      (exec (startCatchUpProcess env own fuel lid (some p)) s).2.outBox =
        s.outBox ++ (reqs.zip (own.conns s.owner)).map fun e => (LedgerMsg.catchupReq e.1, some e.2) := by
  unfold startCatchUpProcess modifyLedgerInfo
  dsimp only
  rw [exec_bind, exec_modify]
  dsimp only
  rw [exec_bind, exec_get]
  have howner : ∀ info, (s.setLedgerInfo lid info).owner = s.owner := fun _ => rfl
  simp only [howner, h]
  rw [exec_bind, exec_forM_sendTo]
  dsimp only
  rw [exec_bind, exec_modify]
  dsimp only
  cases reqs with
  | nil => exact ⟨rfl, rfl⟩
  | cons req reqs => exact ⟨rfl, rfl⟩

/-! ## The result -/

/-- **Catch-up requests partition the missing range**, and whoever starts a catch-up sends all of them. -/
theorem catchupReqs_partition (nodeCount : ℕ) (proof : ConsistencyProof) (hnodes : 1 ≤ nodeCount)
    (hrange : proof.seqNoStart < proof.seqNoEnd) :
    ∃ reqs, getCatchupReqs nodeCount proof = some reqs ∧ reqs.length ≤ nodeCount ∧
      (∀ r ∈ reqs, r.ledgerId = proof.ledgerId ∧ r.catchupTill = proof.seqNoEnd ∧ r.seqNoStart ≤ r.seqNoEnd) ∧
      (reqs.Pairwise fun r r' => r.seqNoEnd < r'.seqNoStart) ∧
      (reqs.IsChain fun r r' => r'.seqNoStart = r.seqNoEnd + 1) ∧
      (∀ n : ℤ, (∃ r ∈ reqs, r.seqNoStart ≤ n ∧ n ≤ r.seqNoEnd) ↔ (proof.seqNoStart : ℤ) + 1 ≤ n ∧ n ≤ proof.seqNoEnd) ∧
      ∀ (s : LedgerManager O τ) (lid : LedgerId), (own.conns s.owner).length = nodeCount →
        (exec (startCatchUpProcess env own fuel lid (some proof)) s).1 = .ok () ∧
        (exec (startCatchUpProcess env own fuel lid (some proof)) s).2.outBox =
          s.outBox ++ (reqs.zip (own.conns s.owner)).map (fun e => (LedgerMsg.catchupReq e.1, some e.2)) ∧
        (reqs.zip (own.conns s.owner)).map Prod.fst = reqs := by
  obtain ⟨reqs, hreqs, hlength, htill, htiles⟩ := getCatchupReqs_spec hnodes hrange
  refine ⟨reqs, hreqs, hlength, ?_, ?_, ?_, ?_, ?_⟩
  · intro r hr
    obtain ⟨hlid, hend⟩ := htill r hr
    exact ⟨hlid, hend, htiles.nonempty _ (List.mem_map_of_mem hr)⟩
  · exact List.pairwise_map.1 htiles.pairwise
  · exact (List.isChain_map _).1 htiles.isChain
  · intro n
    rw [← htiles.covers_iff n, Covers]
    simp only [List.mem_map, exists_exists_and_eq_and]
    rfl
  · intro s lid hconns
    rw [← hconns] at hreqs hlength
    obtain ⟨hok, hsent⟩ := exec_startCatchUpProcess env fuel lid hreqs
    exact ⟨hok, hsent, List.map_fst_zip hlength⟩

/-! ## Witness -/

/-- Delta misses five transactions and has three connections -/
theorem catchupReqs_partition_delta :
    ∃ reqs, getCatchupReqs 3 ⟨.pool, 2, 7, 1, "ab", "abcdefg", []⟩ = some reqs ∧ reqs.length ≤ 3 ∧
      (∀ r ∈ reqs, r.ledgerId = .pool ∧ r.catchupTill = 7 ∧ r.seqNoStart ≤ r.seqNoEnd) ∧
      (reqs.Pairwise fun r r' => r.seqNoEnd < r'.seqNoStart) ∧
      (reqs.IsChain fun r r' => r'.seqNoStart = r.seqNoEnd + 1) ∧
      (∀ n : ℤ, (∃ r ∈ reqs, r.seqNoStart ≤ n ∧ n ≤ r.seqNoEnd) ↔ ((2 : ℕ) : ℤ) + 1 ≤ n ∧ n ≤ ((7 : ℕ) : ℤ)) ∧
      ∀ (s : LedgerManager (PerLedger (Ledger Char)) Char) (lid : LedgerId),
        (FourNodes.ledgerOwner.conns s.owner).length = 3 →
        (exec (startCatchUpProcess FourNodes.ledgerEnv FourNodes.ledgerOwner 0 lid
          (some ⟨.pool, 2, 7, 1, "ab", "abcdefg", []⟩)) s).1 = .ok () ∧
        (exec (startCatchUpProcess FourNodes.ledgerEnv FourNodes.ledgerOwner 0 lid
          (some ⟨.pool, 2, 7, 1, "ab", "abcdefg", []⟩)) s).2.outBox =
          s.outBox ++ (reqs.zip (FourNodes.ledgerOwner.conns s.owner)).map
            (fun e => (LedgerMsg.catchupReq e.1, some e.2)) ∧
        (reqs.zip (FourNodes.ledgerOwner.conns s.owner)).map Prod.fst = reqs :=
  catchupReqs_partition 3 ⟨.pool, 2, 7, 1, "ab", "abcdefg", []⟩ (by decide) (by decide)

end LedgerManager

end Plenum
