/-
What a catching-up node asks for again when its timer for catch-up replies fires: `checkIfTxnsNeeded`.

- `MissingScan`: the bounds and the count that the loop over the replies carries along, with the requests so far.
- `scan_spec`: with batches of at least one number the loop asks for exactly the numbers that the replies skip, and what
  it has left to ask for is what lies after the last reply. A repeated number costs the count one and gives it back.
- `missingReqs_reversed`, `missingReqs_zero`: with a negative batch length all ranges are empty, and with length zero the
  first irregularity divides by zero.
- `missing_requested_iff`: the missing transactions are requested exactly if the count is positive and there is no gap
  after the end, or nothing is missing and the count does no harm. Repeated numbers are counted as if they were
  different ones, so that the count can reach zero with transactions missing.
-/
import Mathlib.Tactic
import Plenum.Core.Ranges
import Plenum.Common.CatchupReqs
import Plenum.Scenarios.CatchingUp

namespace Plenum

open Plenum.Core Plenum.Core.Exec

namespace LedgerManager

/-! ## Model -/

/-- the requests for the transactions from `frm` to `till`, both included; `none` if it raises -/
def addReqsForMissing (lid : LedgerId) (seqNoEnd : ℕ) (batchSize frm till : ℤ) : Option (List CatchupReq) :=
  if batchSize = 0 then none
  else
    let numBatches := ceilDiv (till - frm + 1) batchSize
    some ((batches batchSize frm till numBatches.toNat).map fun r => ⟨lid, r.1, r.2, seqNoEnd⟩)

structure MissingScan where
  lastSeenSeqNo : ℤ
  leftMissing : ℤ
  cReqs : List CatchupReq
deriving DecidableEq, Repr

section Scan

variable (lid : LedgerId) (seqNoEnd : ℕ) (batchSize : ℤ)

/-- one more request for every batch from `frm` to `till` -/
def MissingScan.add (sc : MissingScan) (frm till : ℤ) : Option MissingScan :=
  (addReqsForMissing lid seqNoEnd batchSize frm till).map fun reqs =>
    { sc with leftMissing := sc.leftMissing - (till - frm + 1), cReqs := sc.cReqs ++ reqs }

/-- a round of the loop over the replies -/
def scanReply (sc : MissingScan) (seqNo : ℤ) : Option MissingScan :=
  if seqNo - sc.lastSeenSeqNo ≠ 1 then
    (sc.add lid seqNoEnd batchSize (sc.lastSeenSeqNo + 1) (seqNo - 1)).map fun sc => { sc with lastSeenSeqNo := seqNo }
  else some { sc with lastSeenSeqNo := seqNo }

/-- what comes after the last reply -/
def scanRest (ledgerSize : ℤ) (sc : MissingScan) : Option MissingScan :=
  if 0 < sc.leftMissing then
    if sc.lastSeenSeqNo = ledgerSize then sc.add lid seqNoEnd batchSize (ledgerSize + 1) seqNoEnd
    else if sc.lastSeenSeqNo ≠ seqNoEnd then sc.add lid seqNoEnd batchSize (sc.lastSeenSeqNo + 1) seqNoEnd
    else some sc
  else some sc

/-- the requests for what is missing among the replies with the given numbers; `none` if it raises -/
def missingReqs (ledgerSize totalMissing : ℤ) (seqNos : List ℤ) : Option (List CatchupReq) :=
  ((seqNos.foldlM (scanReply lid seqNoEnd batchSize) ⟨ledgerSize, totalMissing, []⟩).bind
    (scanRest lid seqNoEnd batchSize ledgerSize)).map MissingScan.cReqs

end Scan

variable {O τ : Type} (env : LedgerEnv τ) (own : LedgerOwner O τ)

/-- how many transactions are missing, as the source counts them -/
def totalMissing (ledgerSize : ℕ) (seqNoEnd : ℕ) (seqNos : List ℤ) : ℤ := seqNoEnd - ledgerSize - seqNos.length

/-- `eligibleNodes` are the connections that are not blacklisted, as `shuffle` has left them -/
def checkIfTxnsNeeded (lid : LedgerId) (eligibleNodes : List NodeName) : LedgerManagerM O τ Unit := do
  let s ← get
  let info := s.ledgerInfo lid
  if info.catchupReplyTimer.isNone then pure ()
  else
    match info.catchUpTill with
    | none => throw .attributeError
    | some cp =>
      let seqNos := info.receivedCatchUpReplies.map Prod.fst
      let total := totalMissing (s.ledgerSize own lid) cp.seqNoEnd seqNos
      if total = 0 then modifyLedgerInfo lid fun info => { info with catchupReplyTimer := none }
      else if eligibleNodes = [] then pure ()
      else
        let batchSize := ceilDiv total eligibleNodes.length
        match missingReqs lid cp.seqNoEnd batchSize (s.ledgerSize own lid) total seqNos with
        | none => throw .zeroDivisionError
        | some cReqs => do
          cReqs.zipIdx.forM fun e => sendTo (.catchupReq e.1) eligibleNodes[e.2 % eligibleNodes.length]?
          modifyLedgerInfo lid fun info => { info with catchupReplyTimer := some s.perfCounter }
          schedule (.checkIfTxnsNeeded lid) (env.catchupTimeout cReqs.length batchSize)

/-! ## Requests for a set of numbers -/

/-- the requests are for the numbers in `P`, no number is asked for twice -/
structure AsksFor (lid : LedgerId) (seqNoEnd : ℕ) (reqs : List CatchupReq) (P : ℤ → Prop) : Prop where
  till : ∀ r ∈ reqs, r.ledgerId = lid ∧ r.catchupTill = seqNoEnd
  apart : Apart (reqs.map CatchupReq.range)
  covers : ∀ n, Covers (reqs.map CatchupReq.range) n ↔ P n

namespace AsksFor

variable {lid : LedgerId} {seqNoEnd : ℕ} {reqs reqs' : List CatchupReq} {P Q : ℤ → Prop}

theorem congr (h : AsksFor lid seqNoEnd reqs P) (hPQ : ∀ n, P n ↔ Q n) : AsksFor lid seqNoEnd reqs Q :=
  ⟨h.till, h.apart, fun n => (h.covers n).trans (hPQ n)⟩

theorem nil : AsksFor lid seqNoEnd [] fun _ => False :=
  ⟨fun _ hr => (by cases hr), List.Pairwise.nil, fun n => iff_of_false (covers_nil n) id⟩

theorem append (h : AsksFor lid seqNoEnd reqs P) (h' : AsksFor lid seqNoEnd reqs' Q) (hPQ : ∀ n, ¬ (P n ∧ Q n)) :
    AsksFor lid seqNoEnd (reqs ++ reqs') fun n => P n ∨ Q n := by
  refine ⟨?_, ?_, ?_⟩
  · intro r hr
    rcases List.mem_append.1 hr with hr | hr
    · exact h.till r hr
    · exact h'.till r hr
  · rw [List.map_append]
    refine h.apart.append h'.apart ?_
    rintro n ⟨hn, hn'⟩
    exact hPQ n ⟨(h.covers n).1 hn, (h'.covers n).1 hn'⟩
  · intro n
    rw [List.map_append, covers_append, h.covers, h'.covers]

end AsksFor

section Requests

variable {lid : LedgerId} {seqNoEnd : ℕ} {batchSize : ℤ}

theorem map_range_reqs (l : List (ℤ × ℤ)) :
    (l.map fun r => (⟨lid, r.1, r.2, seqNoEnd⟩ : CatchupReq)).map CatchupReq.range = l := by
  rw [List.map_map]
  exact List.map_id l

variable (lid seqNoEnd) in
/-- the requests for one range -/
theorem addReqsForMissing_spec (hsize : 1 ≤ batchSize) (frm till : ℤ) :
    ∃ reqs, addReqsForMissing lid seqNoEnd batchSize frm till = some reqs ∧
      AsksFor lid seqNoEnd reqs fun n => frm ≤ n ∧ n ≤ till := by
  have htiles := batch_tiles hsize frm till
  unfold addReqsForMissing
  rw [if_neg (by omega)]
  refine ⟨_, rfl, ?_, ?_, ?_⟩
  · intro r hr
    obtain ⟨b, -, rfl⟩ := List.mem_map.1 hr
    exact ⟨rfl, rfl⟩
  · rw [map_range_reqs]
    exact htiles.apart
  · intro n
    rw [map_range_reqs, htiles.covers_iff]
    omega

/-- one reply: the numbers skipped before it are asked for, and counted off -/
theorem scanReply_spec (hsize : 1 ≤ batchSize) (sc : MissingScan) (seqNo : ℤ) :
    ∃ reqs, scanReply lid seqNoEnd batchSize sc seqNo =
        some ⟨seqNo, sc.leftMissing - (seqNo - sc.lastSeenSeqNo - 1), sc.cReqs ++ reqs⟩ ∧
      AsksFor lid seqNoEnd reqs fun n => sc.lastSeenSeqNo < n ∧ n < seqNo := by
  unfold scanReply
  by_cases hnext : seqNo - sc.lastSeenSeqNo = 1
  · rw [if_neg (not_not.2 hnext)]
    refine ⟨[], ?_, AsksFor.nil.congr fun n => ?_⟩
    · rw [hnext, List.append_nil, sub_self, sub_zero]
    · constructor
      · exact False.elim
      · omega
  · rw [if_pos hnext]
    obtain ⟨reqs, hreqs, hasks⟩ :=
      addReqsForMissing_spec lid seqNoEnd hsize (sc.lastSeenSeqNo + 1) (seqNo - 1)
    refine ⟨reqs, ?_, hasks.congr fun n => ?_⟩
    · rw [MissingScan.add, hreqs]
      have hcount : seqNo - 1 - (sc.lastSeenSeqNo + 1) + 1 = seqNo - sc.lastSeenSeqNo - 1 := by ring
      rw [Option.map_some, Option.map_some, hcount]
    · omega

theorem le_getLastD {l : List ℤ} {d n : ℤ} (h : l.Pairwise (· ≤ ·)) (hn : n ∈ l) : n ≤ l.getLastD d := by
  induction l generalizing d with
  | nil => cases hn
  | cons a l ih =>
    obtain ⟨hfirst, hl⟩ := List.pairwise_cons.1 h
    rw [List.getLastD_cons]
    rcases List.mem_cons.1 hn with rfl | hn
    · rcases List.mem_cons.1 (List.getLastD_mem_cons (l := l) (a := n)) with heq | hmem
      · exact heq.ge
      · exact hfirst _ hmem
    · exact ih hl hn

/-- **The loop over the replies** asks for the numbers that they skip. -/
theorem scan_spec (hsize : 1 ≤ batchSize) {l : List ℤ} {s : MissingScan} (hsorted : l.Pairwise (· ≤ ·))
    (hle : ∀ n ∈ l, s.lastSeenSeqNo ≤ n) :
    ∃ reqs, l.foldlM (scanReply lid seqNoEnd batchSize) s =
        some ⟨l.getLastD s.lastSeenSeqNo,
          s.leftMissing - (l.getLastD s.lastSeenSeqNo - s.lastSeenSeqNo - l.length), s.cReqs ++ reqs⟩ ∧
      AsksFor lid seqNoEnd reqs fun n => s.lastSeenSeqNo < n ∧ n ≤ l.getLastD s.lastSeenSeqNo ∧ n ∉ l := by
  induction l generalizing s with
  | nil =>
    refine ⟨[], ?_, AsksFor.nil.congr fun n => ?_⟩
    · simp
    · simp only [List.getLastD_nil, List.not_mem_nil, not_false_eq_true, and_true, false_iff]
      omega
  | cons seqNo l ih =>
    obtain ⟨hfirst, hsorted⟩ := List.pairwise_cons.1 hsorted
    obtain ⟨reqs, hreqs, hasks⟩ := scanReply_spec hsize s seqNo
    obtain ⟨reqs', hreqs', hasks'⟩ := ih (s := ⟨seqNo, s.leftMissing - (seqNo - s.lastSeenSeqNo - 1), s.cReqs ++ reqs⟩)
      hsorted hfirst
    have hseqNo := hle seqNo List.mem_cons_self
    have hlast : seqNo ≤ l.getLastD seqNo := by
      have := le_getLastD (d := seqNo) (List.pairwise_cons.2 ⟨hfirst, hsorted⟩) List.mem_cons_self
      rwa [List.getLastD_cons] at this
    refine ⟨reqs ++ reqs', ?_, (hasks.append hasks' fun n => by dsimp only; omega).congr fun n => ?_⟩
    · rw [List.foldlM_cons, hreqs]
      refine hreqs'.trans ?_
      dsimp only
      rw [List.getLastD_cons, List.length_cons, List.append_assoc]
      congr 2
      push_cast
      ring
    · dsimp only
      rw [List.getLastD_cons, List.mem_cons]
      constructor
      · rintro (⟨hlt, hn⟩ | ⟨hlt, hn, hmem⟩)
        · refine ⟨hlt, by omega, ?_⟩
          rintro (rfl | hmem)
          · omega
          · have := hfirst n hmem
            omega
        · refine ⟨by omega, hn, ?_⟩
          rintro (rfl | h)
          · omega
          · exact hmem h
      · rintro ⟨hlt, hn, hmem⟩
        push Not at hmem
        rcases lt_or_gt_of_ne hmem.1 with h | h
        · exact Or.inl ⟨hlt, h⟩
        · exact Or.inr ⟨h, hn, hmem.2⟩

variable (lid seqNoEnd) in
/-- **The requests for what is missing**, also past the end if there are replies past it. -/
theorem missingReqs_spec (hsize : 1 ≤ batchSize) {ledgerSize : ℕ} {l : List ℤ} (hsorted : l.Pairwise (· ≤ ·))
    (hnew : ∀ n ∈ l, (ledgerSize : ℤ) < n) :
    ∃ reqs, missingReqs lid seqNoEnd batchSize ledgerSize (totalMissing ledgerSize seqNoEnd l) l = some reqs ∧
      AsksFor lid seqNoEnd reqs fun n => (ledgerSize : ℤ) < n ∧ n ≤ max (seqNoEnd : ℤ) (l.getLastD ledgerSize) ∧ n ∉ l := by
  obtain ⟨reqs, hreqs, hasks⟩ := scan_spec (l := l) (s := ⟨ledgerSize, totalMissing ledgerSize seqNoEnd l, []⟩)
    hsize hsorted fun n hn => (hnew n hn).le
  -- every number between the ledger and the last reply is held or asked for
  have hleft : totalMissing ledgerSize seqNoEnd l - (l.getLastD ledgerSize - ledgerSize - l.length) =
      seqNoEnd - l.getLastD ledgerSize := by
    unfold totalMissing
    ring
  have hfirst : (ledgerSize : ℤ) ≤ l.getLastD ledgerSize := by
    rcases List.mem_cons.1 (List.getLastD_mem_cons (l := l) (a := (ledgerSize : ℤ))) with heq | hmem
    · exact heq.ge
    · exact (hnew _ hmem).le
  have hlast : ∀ n ∈ l, n ≤ l.getLastD ledgerSize := fun n hn => le_getLastD hsorted hn
  dsimp only at hreqs hasks
  rw [hleft, List.nil_append] at hreqs
  unfold missingReqs
  rw [hreqs, Option.bind_some]
  generalize l.getLastD (ledgerSize : ℤ) = last at hfirst hlast hasks
  by_cases hmore : last < seqNoEnd
  · obtain ⟨reqs', hreqs', hasks'⟩ := addReqsForMissing_spec lid seqNoEnd hsize (last + 1) seqNoEnd
    have hrest : scanRest lid seqNoEnd batchSize ledgerSize ⟨last, seqNoEnd - last, reqs⟩ =
        MissingScan.add lid seqNoEnd batchSize ⟨last, seqNoEnd - last, reqs⟩ (last + 1) seqNoEnd := by
      unfold scanRest
      rw [if_pos (by dsimp only; omega)]
      by_cases hsame : last = ledgerSize
      · rw [if_pos hsame, hsame]
      · rw [if_neg hsame, if_pos (by dsimp only; omega)]
    rw [hrest, MissingScan.add, hreqs']
    refine ⟨_, rfl, (hasks.append hasks' fun n => by omega).congr fun n => ?_⟩
    constructor
    · rintro (⟨h1, h2, h3⟩ | ⟨h1, h2⟩)
      · exact ⟨h1, le_max_of_le_right h2, h3⟩
      · refine ⟨by omega, le_max_of_le_left h2, fun hn => ?_⟩
        have := hlast n hn
        omega
    · rintro ⟨h1, h2, h3⟩
      rw [max_eq_left hmore.le] at h2
      by_cases hn : n ≤ last
      · exact Or.inl ⟨h1, hn, h3⟩
      · exact Or.inr ⟨by omega, h2⟩
  · have hrest : scanRest lid seqNoEnd batchSize ledgerSize ⟨last, seqNoEnd - last, reqs⟩ =
        some ⟨last, seqNoEnd - last, reqs⟩ := by
      unfold scanRest
      rw [if_neg (by dsimp only; omega)]
    rw [hrest]
    refine ⟨_, rfl, hasks.congr fun n => ?_⟩
    rw [max_eq_right (not_lt.1 hmore)]

/-! ## A count below zero -/

variable (lid seqNoEnd) in
/-- requests for nothing -/
theorem addReqsForMissing_reversed (hsize : batchSize ≤ -1) (frm till : ℤ) :
    ∃ reqs, addReqsForMissing lid seqNoEnd batchSize frm till = some reqs ∧
      AsksFor lid seqNoEnd reqs fun _ => False := by
  unfold addReqsForMissing
  rw [if_neg (by omega)]
  have hempty := batches_reversed hsize frm till (ceilDiv (till - frm + 1) batchSize).toNat
  refine ⟨_, rfl, ?_, ?_, ?_⟩
  · intro r hr
    obtain ⟨b, -, rfl⟩ := List.mem_map.1 hr
    exact ⟨rfl, rfl⟩
  · rw [map_range_reqs]
    refine List.pairwise_of_forall_mem_list ?_
    intro r hr r' _ n hn
    have := hempty r hr
    omega
  · intro n
    rw [map_range_reqs]
    refine iff_of_false ?_ id
    rintro ⟨r, hr, hn⟩
    have := hempty r hr
    omega

variable (lid seqNoEnd) in
theorem scan_reversed (hsize : batchSize ≤ -1) {l : List ℤ} {s : MissingScan} :
    ∃ reqs left, l.foldlM (scanReply lid seqNoEnd batchSize) s =
        some ⟨l.getLastD s.lastSeenSeqNo, left, s.cReqs ++ reqs⟩ ∧ AsksFor lid seqNoEnd reqs fun _ => False := by
  induction l generalizing s with
  | nil =>
    refine ⟨[], s.leftMissing, ?_, AsksFor.nil⟩
    simp
  | cons seqNo l ih =>
    have hstep : ∃ reqs left, scanReply lid seqNoEnd batchSize s seqNo = some ⟨seqNo, left, s.cReqs ++ reqs⟩ ∧
        AsksFor lid seqNoEnd reqs fun _ => False := by
      unfold scanReply
      split_ifs
      · obtain ⟨reqs, hreqs, hasks⟩ := addReqsForMissing_reversed lid seqNoEnd hsize
          (s.lastSeenSeqNo + 1) (seqNo - 1)
        rw [MissingScan.add, hreqs]
        exact ⟨reqs, _, rfl, hasks⟩
      · exact ⟨[], s.leftMissing, by rw [List.append_nil], AsksFor.nil⟩
    obtain ⟨reqs, left, hreqs, hasks⟩ := hstep
    obtain ⟨reqs', left', hreqs', hasks'⟩ := ih (s := ⟨seqNo, left, s.cReqs ++ reqs⟩)
    refine ⟨reqs ++ reqs', left', ?_, (hasks.append hasks' fun n h => h.1).congr fun n => or_self_iff⟩
    rw [List.foldlM_cons, hreqs]
    refine hreqs'.trans ?_
    rw [List.getLastD_cons, List.append_assoc]

variable (lid seqNoEnd) in
theorem missingReqs_reversed (hsize : batchSize ≤ -1) (ledgerSize total : ℤ) (l : List ℤ) :
    ∃ reqs, missingReqs lid seqNoEnd batchSize ledgerSize total l = some reqs ∧
      AsksFor lid seqNoEnd reqs fun _ => False := by
  obtain ⟨reqs, left, hreqs, hasks⟩ := scan_reversed lid seqNoEnd (l := l)
    (s := ⟨ledgerSize, total, []⟩) hsize
  have hadd : ∀ frm, ∃ reqs', MissingScan.add lid seqNoEnd batchSize ⟨l.getLastD ledgerSize, left, reqs⟩ frm seqNoEnd =
      some reqs' ∧ AsksFor lid seqNoEnd reqs'.cReqs fun _ => False := by
    intro frm
    obtain ⟨reqs', hreqs', hasks'⟩ := addReqsForMissing_reversed lid seqNoEnd hsize frm seqNoEnd
    rw [MissingScan.add, hreqs']
    exact ⟨_, rfl, (hasks.append hasks' fun n h => h.1).congr fun n => or_self_iff⟩
  unfold missingReqs
  rw [hreqs, Option.bind_some, List.nil_append]
  unfold scanRest
  dsimp only
  split_ifs
  · obtain ⟨sc, hsc, hasks'⟩ := hadd (ledgerSize + 1)
    rw [hsc]
    exact ⟨_, rfl, hasks'⟩
  · obtain ⟨sc, hsc, hasks'⟩ := hadd (l.getLastD ledgerSize + 1)
    rw [hsc]
    exact ⟨_, rfl, hasks'⟩
  · exact ⟨_, rfl, hasks⟩
  · exact ⟨_, rfl, hasks⟩

/-- with batches of length zero the loop gets through only if every number follows on the one before it -/
theorem scan_zero {l : List ℤ} {s s' : MissingScan} :
    l.foldlM (scanReply lid seqNoEnd 0) s = some s' ↔
      (s.lastSeenSeqNo :: l).IsChain (fun a b => b = a + 1) ∧ s' = { s with lastSeenSeqNo := l.getLastD s.lastSeenSeqNo } := by
  induction l generalizing s with
  | nil =>
    simp [eq_comm]
  | cons seqNo l ih =>
    rw [List.foldlM_cons, List.isChain_cons_cons, List.getLastD_cons]
    by_cases hnext : seqNo - s.lastSeenSeqNo = 1
    · have hstep : scanReply lid seqNoEnd 0 s seqNo = some { s with lastSeenSeqNo := seqNo } := by
        unfold scanReply
        rw [if_neg (not_not.2 hnext)]
      rw [hstep]
      refine (ih (s := { s with lastSeenSeqNo := seqNo })).trans ?_
      have : seqNo = s.lastSeenSeqNo + 1 := by omega
      simp only [this, true_and]
    · have hstep : scanReply lid seqNoEnd 0 s seqNo = none := by
        unfold scanReply
        rw [if_pos hnext]
        rfl
      rw [hstep]
      refine iff_of_false (by simp) ?_
      rintro ⟨⟨hfirst, -⟩, -⟩
      omega

theorem missingReqs_zero {ledgerSize total : ℤ} {l : List ℤ} (htotal : total ≤ 0) {reqs : List CatchupReq} :
    missingReqs lid seqNoEnd 0 ledgerSize total l = some reqs ↔
      (ledgerSize :: l).IsChain (fun a b => b = a + 1) ∧ reqs = [] := by
  unfold missingReqs
  constructor
  · intro h
    obtain ⟨sc, hsc, rfl⟩ := Option.map_eq_some_iff.1 h
    obtain ⟨sc', hscan, hrest⟩ := Option.bind_eq_some_iff.1 hsc
    obtain ⟨hchain, rfl⟩ := scan_zero.1 hscan
    unfold scanRest at hrest
    rw [if_neg (not_lt.2 htotal)] at hrest
    cases hrest
    exact ⟨hchain, rfl⟩
  · rintro ⟨hchain, rfl⟩
    rw [scan_zero.2 ⟨hchain, rfl⟩, Option.bind_some]
    unfold scanRest
    rw [if_neg (not_lt.2 htotal)]
    rfl

end Requests

/-! ## When the count is right -/

/-- a transaction up to `seqNoEnd` that the node neither has nor holds in a reply -/
def MissingIn (ledgerSize seqNoEnd : ℕ) (seqNos : List ℤ) (n : ℤ) : Prop :=
  (ledgerSize : ℤ) < n ∧ n ≤ seqNoEnd ∧ n ∉ seqNos

/-- after the end no reply skips a number -/
def NoLateGap (ledgerSize seqNoEnd : ℕ) (seqNos : List ℤ) : Prop :=
  ∀ n ∈ seqNos, (seqNoEnd : ℤ) + 1 < n → n - 1 = ledgerSize ∨ n - 1 ∈ seqNos

instance (ledgerSize seqNoEnd : ℕ) (seqNos : List ℤ) : Decidable (NoLateGap ledgerSize seqNoEnd seqNos) := by
  unfold NoLateGap
  infer_instance

/-- the count of the missing transactions does no harm -/
def CountsRight (ledgerSize seqNoEnd nodes : ℕ) (seqNos : List ℤ) : Prop :=
  (0 < totalMissing ledgerSize seqNoEnd seqNos ∧ NoLateGap ledgerSize seqNoEnd seqNos) ∨
    ((∀ n, ¬ MissingIn ledgerSize seqNoEnd seqNos n) ∧
      ((seqNos.Nodup ∧ NoLateGap ledgerSize seqNoEnd seqNos) ∨ totalMissing ledgerSize seqNoEnd seqNos ≤ -nodes))

section Counting

variable {ledgerSize seqNoEnd : ℕ} {l : List ℤ}

/-- where every number but the first has its predecessor, they follow on one another -/
theorem isChain_of_predecessors {first : ℤ} (hsorted : l.Pairwise (· < ·)) (hlt : ∀ n ∈ l, first < n)
    (hpred : ∀ n ∈ l, n - 1 = first ∨ n - 1 ∈ l) : (first :: l).IsChain fun a b => b = a + 1 := by
  induction l generalizing first with
  | nil => exact List.IsChain.singleton first
  | cons a l ih =>
    obtain ⟨hfirst, hsorted⟩ := List.pairwise_cons.1 hsorted
    have ha : a - 1 = first := by
      rcases hpred a List.mem_cons_self with h | h
      · exact h
      · rcases List.mem_cons.1 h with h | h
        · omega
        · have := hfirst _ h
          omega
    refine List.IsChain.cons_cons (by omega) (ih hsorted hfirst ?_)
    intro n hn
    have hn' := hfirst n hn
    rcases hpred n (List.mem_cons_of_mem a hn) with h | h
    · omega
    · exact List.mem_cons.1 h

theorem predecessors_of_isChain {first : ℤ} (h : (first :: l).IsChain fun a b => b = a + 1) :
    l.Nodup ∧ (∀ n ∈ l, first < n) ∧ ∀ n ∈ l, n - 1 = first ∨ n - 1 ∈ l := by
  induction l generalizing first with
  | nil => exact ⟨List.nodup_nil, fun n hn => (by cases hn), fun n hn => (by cases hn)⟩
  | cons a l ih =>
    obtain ⟨ha, hl⟩ := List.isChain_cons_cons.1 h
    obtain ⟨hnodup, hlt, hpred⟩ := ih hl
    refine ⟨List.nodup_cons.2 ⟨fun hmem => (hlt a hmem).false, hnodup⟩, ?_, ?_⟩
    · intro n hn
      rcases List.mem_cons.1 hn with rfl | hn
      · omega
      · have := hlt n hn
        omega
    · intro n hn
      rcases List.mem_cons.1 hn with rfl | hn
      · exact Or.inl (by omega)
      · rcases hpred n hn with h | h
        · exact Or.inr (by rw [h]; exact List.mem_cons_self)
        · exact Or.inr (List.mem_cons_of_mem a h)

/-- if nothing is missing, the numbers follow on one another exactly if none is repeated and none skipped -/
theorem isChain_iff (hsorted : l.Pairwise (· ≤ ·)) (hnew : ∀ n ∈ l, (ledgerSize : ℤ) < n)
    (hall : ∀ n, ¬ MissingIn ledgerSize seqNoEnd l n) :
    (((ledgerSize : ℤ) :: l).IsChain fun a b => b = a + 1) ↔ l.Nodup ∧ NoLateGap ledgerSize seqNoEnd l := by
  constructor
  · intro h
    obtain ⟨hnodup, -, hpred⟩ := predecessors_of_isChain h
    exact ⟨hnodup, fun n hn _ => hpred n hn⟩
  · rintro ⟨hnodup, hgap⟩
    refine isChain_of_predecessors (hsorted.imp₂ (fun _ _ h h' => lt_of_le_of_ne h h') hnodup) hnew ?_
    intro n hn
    have hlt := hnew n hn
    by_cases hlate : (seqNoEnd : ℤ) + 1 < n
    · exact hgap n hn hlate
    · by_contra h
      push Not at h
      exact hall (n - 1) ⟨by omega, by omega, h.2⟩

/-- with a count of zero and nothing missing the replies are exactly the missing transactions -/
theorem exact_of_count_zero (hzero : totalMissing ledgerSize seqNoEnd l = 0)
    (hall : ∀ n, ¬ MissingIn ledgerSize seqNoEnd l n) : l.Nodup ∧ NoLateGap ledgerSize seqNoEnd l := by
  have hsubset : Finset.Ioc (ledgerSize : ℤ) seqNoEnd ⊆ l.toFinset := by
    intro n hn
    obtain ⟨h1, h2⟩ := Finset.mem_Ioc.1 hn
    by_contra h
    exact hall n ⟨h1, h2, fun hmem => h (List.mem_toFinset.2 hmem)⟩
  have hcard : (Finset.Ioc (ledgerSize : ℤ) seqNoEnd).card = l.length := by
    unfold totalMissing at hzero
    rw [Int.card_Ioc]
    omega
  have hle := l.toFinset_card_le
  have heq := Finset.eq_of_subset_of_card_le hsubset (by omega)
  refine ⟨?_, ?_⟩
  · refine Multiset.coe_nodup.1 (Multiset.toFinset_card_eq_card_iff_nodup.1 (le_antisymm hle ?_))
    rw [Multiset.coe_card, ← hcard, heq]
    exact le_rfl
  · intro n hn hlate
    have := List.mem_toFinset.2 hn
    rw [← heq, Finset.mem_Ioc] at this
    omega

/-- what is asked for past the end -/
theorem noLateGap_iff (hsorted : l.Pairwise (· ≤ ·)) (hnew : ∀ n ∈ l, (ledgerSize : ℤ) < n) :
    NoLateGap ledgerSize seqNoEnd l ↔
      ∀ n, ((ledgerSize : ℤ) < n ∧ n ≤ max (seqNoEnd : ℤ) (l.getLastD ledgerSize) ∧ n ∉ l) ↔
        MissingIn ledgerSize seqNoEnd l n := by
  constructor
  · intro hgap n
    refine ⟨?_, fun ⟨h1, h2, h3⟩ => ⟨h1, le_max_of_le_left h2, h3⟩⟩
    rintro ⟨h1, h2, h3⟩
    refine ⟨h1, ?_, h3⟩
    by_contra hlate
    have hlast : n ≤ l.getLastD ledgerSize := (le_max_iff.1 h2).resolve_left hlate
    have hmem : l.getLastD (ledgerSize : ℤ) ∈ l := by
      rcases List.mem_cons.1 (List.getLastD_mem_cons (l := l) (a := (ledgerSize : ℤ))) with heq | hmem
      · omega
      · exact hmem
    -- down from the last reply, every number has its predecessor
    have hdown : ∀ k, k ≤ l.getLastD ledgerSize → n ≤ k → k ∈ l := by
      intro k hk
      induction k, hk using Int.leInductionDown with
      | base => exact fun _ => hmem
      | pred k hk ih =>
        intro hn
        rcases hgap k (ih (by omega)) (by omega) with h | h
        · omega
        · exact h
    exact h3 (hdown n hlast le_rfl)
  · intro h n hn hlate
    by_contra hpred
    push Not at hpred
    have hlt := hnew n hn
    have hle := le_getLastD (d := (ledgerSize : ℤ)) hsorted hn
    obtain ⟨-, hend, -⟩ := (h (n - 1)).1 ⟨by omega, le_max_of_le_right (by omega), hpred.2⟩
    omega

end Counting


/-! ## The result -/

variable {env own}

/-- the numbers of the transactions that the node holds in replies -/
def heldSeqNos (s : LedgerManager O τ) (lid : LedgerId) : List ℤ :=
  (s.ledgerInfo lid).receivedCatchUpReplies.map Prod.fst

/-- exactly the missing transactions were requested, and the timer was not stopped while any was missing -/
structure RequestedExactly (own : LedgerOwner O τ) (s s' : LedgerManager O τ) (lid : LedgerId) (seqNoEnd : ℕ)
    (eligibleNodes : List NodeName) : Prop where
  requested : ∃ reqs msgs, s'.outBox = s.outBox ++ msgs ∧ msgs.map Prod.fst = reqs.map LedgerMsg.catchupReq ∧
    (∀ m ∈ msgs, ∃ i ∈ eligibleNodes, m.2 = some i) ∧
    AsksFor lid seqNoEnd reqs (MissingIn (s.ledgerSize own lid) seqNoEnd (s.heldSeqNos lid))
  timer : (s.ledgerInfo lid).catchupReplyTimer.isSome → (s'.ledgerInfo lid).catchupReplyTimer = none →
    ∀ n, ¬ MissingIn (s.ledgerSize own lid) seqNoEnd (s.heldSeqNos lid) n

section Result

variable {s : LedgerManager O τ} {lid : LedgerId} {seqNoEnd : ℕ} {eligibleNodes : List NodeName}

/-- nothing is sent -/
theorem requestedExactly_of_quiet {s' : LedgerManager O τ} (hsent : s'.outBox = s.outBox) :
    RequestedExactly own s s' lid seqNoEnd eligibleNodes ↔
      ∀ n, ¬ MissingIn (s.ledgerSize own lid) seqNoEnd (s.heldSeqNos lid) n := by
  constructor
  · rintro ⟨⟨reqs, msgs, hout, hmsgs, -, hasks⟩, -⟩ n hn
    rw [hsent, List.self_eq_append_right] at hout
    rw [hout, List.map_nil, eq_comm, List.map_eq_nil_iff] at hmsgs
    rw [hmsgs] at hasks
    exact covers_nil n ((hasks.covers n).2 hn)
  · intro h
    refine ⟨⟨[], [], ?_, rfl, ?_, AsksFor.nil.congr fun n => iff_of_false id (h n)⟩, fun _ _ => h⟩
    · rw [hsent, List.append_nil]
    · intro m hm
      cases hm

/-- the requests are sent, and the timer starts anew -/
theorem requestedExactly_of_sent {s' : LedgerManager O τ} {reqs : List CatchupReq} {P : ℤ → Prop}
    (hel : eligibleNodes ≠ [])
    (hsent : s'.outBox = s.outBox ++ reqs.zipIdx.map fun e =>
      (LedgerMsg.catchupReq e.1, eligibleNodes[e.2 % eligibleNodes.length]?))
    (htimer : (s'.ledgerInfo lid).catchupReplyTimer ≠ none) (hasks : AsksFor lid seqNoEnd reqs P) :
    RequestedExactly own s s' lid seqNoEnd eligibleNodes ↔
      ∀ n, P n ↔ MissingIn (s.ledgerSize own lid) seqNoEnd (s.heldSeqNos lid) n := by
  have hfst : (reqs.zipIdx.map fun e => (LedgerMsg.catchupReq e.1, eligibleNodes[e.2 % eligibleNodes.length]?)).map
      Prod.fst = reqs.map LedgerMsg.catchupReq := by
    conv_rhs => rw [← List.zipIdx_map_fst 0 reqs, List.map_map]
    rw [List.map_map]
    rfl
  constructor
  · rintro ⟨⟨reqs', msgs, hout, hmsgs, -, hasks'⟩, -⟩ n
    rw [hsent, List.append_cancel_left_eq] at hout
    rw [← hout, hfst] at hmsgs
    have heq : reqs = reqs' := List.map_injective_iff.2 (fun a b h => LedgerMsg.catchupReq.inj h) hmsgs
    rw [← hasks.covers n, ← hasks'.covers n, heq]
  · intro h
    refine ⟨⟨reqs, _, hsent, hfst, ?_, hasks.congr h⟩, fun _ hnone => absurd hnone htimer⟩
    intro m hm
    obtain ⟨e, -, rfl⟩ := List.mem_map.1 hm
    have hlt : e.2 % eligibleNodes.length < eligibleNodes.length := Nat.mod_lt _ (List.length_pos_iff.2 hel)
    exact ⟨eligibleNodes[e.2 % eligibleNodes.length], List.getElem_mem hlt, List.getElem?_eq_getElem hlt⟩

section Exec

variable (hsome : (s.ledgerInfo lid).catchupReplyTimer.isSome) {cp : ConsistencyProof}
  (hcp : (s.ledgerInfo lid).catchUpTill = some cp)
  (htotal : totalMissing (s.ledgerSize own lid) cp.seqNoEnd (s.heldSeqNos lid) ≠ 0) (hel : eligibleNodes ≠ [])

include hsome hcp htotal hel

variable (env) in
/-- what is done with the requests -/
theorem exec_checkIfTxnsNeeded_some {reqs : List CatchupReq}
    (hreqs : missingReqs lid cp.seqNoEnd
      (ceilDiv (totalMissing (s.ledgerSize own lid) cp.seqNoEnd (s.heldSeqNos lid)) eligibleNodes.length)
      (s.ledgerSize own lid) (totalMissing (s.ledgerSize own lid) cp.seqNoEnd (s.heldSeqNos lid)) (s.heldSeqNos lid) =
      some reqs) :
    (exec (checkIfTxnsNeeded env own lid eligibleNodes) s).1 = .ok () ∧
      (exec (checkIfTxnsNeeded env own lid eligibleNodes) s).2.outBox = s.outBox ++ reqs.zipIdx.map (fun e =>
        (LedgerMsg.catchupReq e.1, eligibleNodes[e.2 % eligibleNodes.length]?)) ∧
      ((exec (checkIfTxnsNeeded env own lid eligibleNodes) s).2.ledgerInfo lid).catchupReplyTimer ≠ none := by
  have hnone : ¬ (s.ledgerInfo lid).catchupReplyTimer.isNone := by
    rw [Option.isNone_iff_eq_none]
    exact Option.isSome_iff_ne_none.1 hsome
  unfold heldSeqNos at htotal hreqs
  unfold checkIfTxnsNeeded
  rw [exec_bind, exec_get]
  dsimp only
  rw [if_neg hnone, hcp]
  dsimp only
  rw [if_neg htotal, if_neg hel, hreqs]
  dsimp only
  rw [exec_bind, exec_forM_sendTo]
  dsimp only
  unfold modifyLedgerInfo schedule
  rw [exec_bind, exec_modify]
  dsimp only
  rw [exec_modify]
  refine ⟨rfl, rfl, ?_⟩
  change ((LedgerManager.setLedgerInfo _ lid _).ledgerInfo lid).catchupReplyTimer ≠ none
  rw [ledgerInfo_setLedgerInfo, if_pos rfl]
  exact Option.some_ne_none _

/-- a count below zero can lead to a division by zero -/
theorem exec_checkIfTxnsNeeded_none
    (hreqs : missingReqs lid cp.seqNoEnd
      (ceilDiv (totalMissing (s.ledgerSize own lid) cp.seqNoEnd (s.heldSeqNos lid)) eligibleNodes.length)
      (s.ledgerSize own lid) (totalMissing (s.ledgerSize own lid) cp.seqNoEnd (s.heldSeqNos lid)) (s.heldSeqNos lid) =
      none) :
    (exec (checkIfTxnsNeeded env own lid eligibleNodes) s).1 = .error .zeroDivisionError := by
  have hnone : ¬ (s.ledgerInfo lid).catchupReplyTimer.isNone := by
    rw [Option.isNone_iff_eq_none]
    exact Option.isSome_iff_ne_none.1 hsome
  unfold heldSeqNos at htotal hreqs
  unfold checkIfTxnsNeeded
  rw [exec_bind, exec_get]
  dsimp only
  rw [if_neg hnone, hcp]
  dsimp only
  rw [if_neg htotal, if_neg hel, hreqs]
  rfl

end Exec

variable (env own eligibleNodes) in
/-- the timer is off, or nothing is counted as missing -/
theorem exec_checkIfTxnsNeeded_quiet {cp : ConsistencyProof} (hcp : (s.ledgerInfo lid).catchUpTill = some cp)
    (h : (s.ledgerInfo lid).catchupReplyTimer.isSome →
      totalMissing (s.ledgerSize own lid) cp.seqNoEnd (s.heldSeqNos lid) = 0) :
    (exec (checkIfTxnsNeeded env own lid eligibleNodes) s).1 = .ok () ∧
      (exec (checkIfTxnsNeeded env own lid eligibleNodes) s).2.outBox = s.outBox := by
  unfold heldSeqNos at h
  unfold checkIfTxnsNeeded
  rw [exec_bind, exec_get]
  dsimp only
  cases htimer : (s.ledgerInfo lid).catchupReplyTimer with
  | none =>
    rw [Option.isNone_none, if_pos rfl]
    exact ⟨rfl, rfl⟩
  | some t =>
    rw [htimer] at h
    rw [Option.isNone_some, if_neg Bool.false_ne_true, hcp]
    dsimp only
    rw [if_pos (h rfl)]
    exact ⟨rfl, rfl⟩

/-- **Missing transactions are requested exactly** if and only if the count of them is right. -/
theorem missing_requested_iff (s : LedgerManager O τ) (lid : LedgerId) (eligibleNodes : List NodeName)
    (cp : ConsistencyProof) (hcp : (s.ledgerInfo lid).catchUpTill = some cp)
    (hsorted : (s.heldSeqNos lid).Pairwise (· ≤ ·)) (hnew : ∀ n ∈ s.heldSeqNos lid, (s.ledgerSize own lid : ℤ) < n)
    (hel : eligibleNodes ≠ []) :
    ((exec (checkIfTxnsNeeded env own lid eligibleNodes) s).1 = .ok () ∧
        RequestedExactly own s (exec (checkIfTxnsNeeded env own lid eligibleNodes) s).2 lid cp.seqNoEnd eligibleNodes) ↔
      ((s.ledgerInfo lid).catchupReplyTimer.isSome ∧
        CountsRight (s.ledgerSize own lid) cp.seqNoEnd eligibleNodes.length (s.heldSeqNos lid)) ∨
      ((s.ledgerInfo lid).catchupReplyTimer = none ∧
        ∀ n, ¬ MissingIn (s.ledgerSize own lid) cp.seqNoEnd (s.heldSeqNos lid) n) := by
  have hnodes : (0 : ℤ) < eligibleNodes.length := by exact_mod_cast List.length_pos_iff.2 hel
  by_cases hsome : (s.ledgerInfo lid).catchupReplyTimer.isSome
  · have hne : (s.ledgerInfo lid).catchupReplyTimer ≠ none := Option.isSome_iff_ne_none.1 hsome
    simp only [hsome, hne, true_and, false_and, or_false]
    unfold CountsRight
    rcases lt_trichotomy (totalMissing (s.ledgerSize own lid) cp.seqNoEnd (s.heldSeqNos lid)) 0 with
      hneg | hzero | hpos
    · by_cases hsurplus : totalMissing (s.ledgerSize own lid) cp.seqNoEnd (s.heldSeqNos lid) ≤ -eligibleNodes.length
      · -- all ranges are reversed
        obtain ⟨reqs, hreqs, hasks⟩ := missingReqs_reversed lid cp.seqNoEnd
          (ceilDiv_neg hnodes hsurplus) (s.ledgerSize own lid)
          (totalMissing (s.ledgerSize own lid) cp.seqNoEnd (s.heldSeqNos lid)) (s.heldSeqNos lid)
        obtain ⟨hok, hsent, htimer⟩ := exec_checkIfTxnsNeeded_some env hsome hcp hneg.ne hel hreqs
        rw [requestedExactly_of_sent hel hsent htimer hasks]
        simp only [hok, true_and, not_lt.2 hneg.le, false_and, false_or, hsurplus, or_true, and_true, false_iff]
      · -- the length of the batches is zero
        have hsize := ceilDiv_eq_zero hnodes (not_le.1 hsurplus) hneg.le
        have hzero : ∀ reqs, missingReqs lid cp.seqNoEnd
            (ceilDiv (totalMissing (s.ledgerSize own lid) cp.seqNoEnd (s.heldSeqNos lid)) eligibleNodes.length)
            (s.ledgerSize own lid) (totalMissing (s.ledgerSize own lid) cp.seqNoEnd (s.heldSeqNos lid))
            (s.heldSeqNos lid) = some reqs ↔
            (((s.ledgerSize own lid : ℤ) :: s.heldSeqNos lid).IsChain fun a b => b = a + 1) ∧ reqs = [] := by
          intro reqs
          rw [hsize]
          exact missingReqs_zero hneg.le
        simp only [not_lt.2 hneg.le, false_and, false_or, hsurplus, or_false]
        by_cases hchain : ((s.ledgerSize own lid : ℤ) :: s.heldSeqNos lid).IsChain fun a b => b = a + 1
        · obtain ⟨hok, hsent, -⟩ := exec_checkIfTxnsNeeded_some env hsome hcp hneg.ne hel
            ((hzero []).2 ⟨hchain, rfl⟩)
          rw [requestedExactly_of_quiet (hsent.trans (List.append_nil _))]
          simp only [hok, true_and]
          refine ⟨fun hall => ⟨hall, (isChain_iff hsorted hnew hall).1 hchain⟩, And.left⟩
        · have hraises : missingReqs lid cp.seqNoEnd
              (ceilDiv (totalMissing (s.ledgerSize own lid) cp.seqNoEnd (s.heldSeqNos lid)) eligibleNodes.length)
              (s.ledgerSize own lid) (totalMissing (s.ledgerSize own lid) cp.seqNoEnd (s.heldSeqNos lid))
              (s.heldSeqNos lid) = none :=
            Option.eq_none_iff_forall_ne_some.2 fun reqs hreqs => hchain ((hzero reqs).1 hreqs).1
          rw [exec_checkIfTxnsNeeded_none hsome hcp hneg.ne hel hraises]
          refine iff_of_false (fun h => by cases h.1) ?_
          rintro ⟨hall, hregular⟩
          exact hchain ((isChain_iff hsorted hnew hall).2 hregular)
    · -- the timer is stopped
      obtain ⟨hok, hsent⟩ := exec_checkIfTxnsNeeded_quiet env own eligibleNodes hcp
        fun _ => hzero
      rw [requestedExactly_of_quiet hsent]
      simp only [hok, true_and, hzero, lt_self_iff_false, false_and, false_or]
      exact ⟨fun hall => ⟨hall, Or.inl (exact_of_count_zero hzero hall)⟩, And.left⟩
    · -- batches of at least one number
      obtain ⟨reqs, hreqs, hasks⟩ := missingReqs_spec lid cp.seqNoEnd
        (one_le_ceilDiv hnodes hpos) hsorted hnew
      obtain ⟨hok, hsent, htimer⟩ := exec_checkIfTxnsNeeded_some env hsome hcp hpos.ne' hel hreqs
      rw [requestedExactly_of_sent hel hsent htimer hasks, ← noLateGap_iff hsorted hnew]
      simp only [hok, true_and, hpos]
      constructor
      · exact Or.inl
      · rintro (hgap | ⟨-, ⟨-, hgap⟩ | hsurplus⟩)
        · exact hgap
        · exact hgap
        · omega
  · have hnone : (s.ledgerInfo lid).catchupReplyTimer = none := by
      rwa [Option.isSome_iff_ne_none, not_not] at hsome
    obtain ⟨hok, hsent⟩ := exec_checkIfTxnsNeeded_quiet env own eligibleNodes hcp
      fun h => absurd h hsome
    rw [requestedExactly_of_quiet hsent]
    simp [hok, hnone]

end Result

end LedgerManager

/-! ## Witness -/

namespace FourNodes

open LedgerManager

/-- Delta catches up to `abc`, and has got the second and the third transaction -/
def firstMissing : LedgerManager (PerLedger (Ledger Char)) Char :=
  run ledgerEnv ledgerOwner 0 (init emptyLedgers)
    (startCatchup ++ [.catchupRep (catchupReply [("2", 'b'), ("3", 'c')]) "Alpha"])

/-- and then the third one once more -/
def thirdTwice : LedgerManager (PerLedger (Ledger Char)) Char :=
  input ledgerEnv ledgerOwner 0 firstMissing (.catchupRep (catchupReply [("3", 'c')]) "Beta")

/-- the first transaction is missing, but the timer is stopped and nothing is requested -/
theorem missing_not_requested :
    (thirdTwice.ledgerInfo .pool).state = .syncing ∧ (thirdTwice.ledgerInfo .pool).catchUpTill = some toAbc ∧
      thirdTwice.heldSeqNos .pool = [2, 3, 3] ∧ thirdTwice.ledgerSize ledgerOwner .pool = 0 ∧
      ¬ ((exec (checkIfTxnsNeeded ledgerEnv ledgerOwner .pool ["Alpha", "Beta"]) thirdTwice).1 = .ok () ∧
        RequestedExactly ledgerOwner thirdTwice
          (exec (checkIfTxnsNeeded ledgerEnv ledgerOwner .pool ["Alpha", "Beta"]) thirdTwice).2 .pool 3
          ["Alpha", "Beta"]) := by
  have hheld : thirdTwice.heldSeqNos .pool = [2, 3, 3] := by decide +kernel
  have hsize : thirdTwice.ledgerSize ledgerOwner .pool = 0 := by decide +kernel
  refine ⟨by decide +kernel, by decide +kernel, hheld, hsize, ?_⟩
  rintro ⟨-, h⟩
  refine h.timer (by decide +kernel) (by decide +kernel) 1 ?_
  rw [hheld, hsize]
  exact ⟨by decide, by decide, by decide⟩

theorem missing_requested_iff_firstMissing :
    (exec (checkIfTxnsNeeded ledgerEnv ledgerOwner .pool ["Alpha", "Beta"]) firstMissing).1 = .ok () ∧
      RequestedExactly ledgerOwner firstMissing
        (exec (checkIfTxnsNeeded ledgerEnv ledgerOwner .pool ["Alpha", "Beta"]) firstMissing).2 .pool 3
        ["Alpha", "Beta"] :=
  (missing_requested_iff firstMissing .pool ["Alpha", "Beta"] toAbc (by decide +kernel) (by decide +kernel)
    (by decide +kernel) (by decide)).2 (Or.inl ⟨by decide +kernel, Or.inl ⟨by decide +kernel, by decide +kernel⟩⟩)

end FourNodes

end Plenum
