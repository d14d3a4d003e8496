/-
Which transactions a catch-up appends to the ledger.

- The transactions that are verified with the proof of a reply are those of the merged, sorted replies that belong to it;
  the ones appended are the first as many. `txnsOfReply_eq_take`: they are the same if the sequence numbers under which
  the reply can be found have no gap (`Gapless`).
- `RepliesOk`: what a manager holds of replies is sorted, and every reply held is gapless. Every method keeps it.
- `Aimed own lid cp target`: while the ledger is caught up to `cp`, it is a prefix of `target`. It is kept too.
- `catchup_appends_verified`: so it is in every run in which the replies taken in are gapless.
- `unverified_appended`: a reply with the keys 1, 02 and 3 appends a transaction that nobody verified.
-/
import Mathlib
import Plenum.Common.LedgerFrame
import Plenum.Scenarios.CatchingUp

namespace Plenum

open Plenum.Core Plenum.Core.Exec

namespace LedgerManager

/-! ## Sorted replies -/

/-- where a property only holds of an initial part of a list, filtering is taking -/
theorem filter_eq_take {α : Type} {p : α → Bool} {l : List α} (h : l.Pairwise fun a b => p b = true → p a = true) :
    l.filter p = l.take (l.filter p).length := by
  induction l with
  | nil => rfl
  | cons a l ih =>
    obtain ⟨hhead, htail⟩ := List.pairwise_cons.1 h
    by_cases ha : p a = true
    · rw [List.filter_cons_of_pos ha, List.length_cons, List.take_succ_cons, ← ih htail]
    · have hnone : l.filter p = [] := by
        rw [List.filter_eq_nil_iff]
        intro b hb hp
        exact ha (hhead b hb hp)
      rw [List.filter_cons_of_neg ha, hnone]
      rfl

variable {O τ : Type} {env : LedgerEnv τ} {own : LedgerOwner O τ} {fuel : ℕ}

/-- sorted by their sequence numbers -/
def SortedTxns (l : List (CatchupTxn τ)) : Prop := l.Pairwise fun a b => a.1 ≤ b.1

theorem SortedTxns.drop {l : List (CatchupTxn τ)} (h : SortedTxns l) (n : ℕ) : SortedTxns (l.drop n) :=
  List.Pairwise.sublist (List.drop_sublist n l) h

instance : Std.Total fun a b : CatchupTxn τ => a.1 ≤ b.1 := ⟨fun a b => le_total a.1 b.1⟩

instance : IsTrans (CatchupTxn τ) fun a b => a.1 ≤ b.1 := ⟨fun _ _ _ => le_trans⟩

theorem sortedTxns_insertionSort (l : List (CatchupTxn τ)) : SortedTxns (l.insertionSort fun a b => a.1 ≤ b.1) :=
  List.pairwise_insertionSort _ l

theorem SortedTxns.merge {l l' : List (CatchupTxn τ)} (h : SortedTxns l) (h' : SortedTxns l') :
    SortedTxns (heapqMerge l l') := by
  rw [heapqMerge_eq_merge]
  exact List.Pairwise.merge h h'

/-- what is left after the entries that the ledger has is new to it -/
theorem SortedTxns.lt_of_mem_drop {l : List (CatchupTxn τ)} (h : SortedTxns l) {size : ℤ} {e : CatchupTxn τ}
    (he : e ∈ l.drop (l.countP fun e => e.1 ≤ size)) : size < e.1 := by
  induction l with
  | nil => simp at he
  | cons a l ih =>
    obtain ⟨hhead, htail⟩ := List.pairwise_cons.1 h
    by_cases ha : a.1 ≤ size
    · rw [List.countP_cons_of_pos (by simpa using ha), List.drop_succ_cons] at he
      exact ih htail he
    · have hmem : e ∈ a :: l := List.mem_of_mem_drop he
      rcases List.mem_cons.1 hmem with rfl | hmem
      · exact not_le.1 ha
      · exact lt_of_lt_of_le (not_le.1 ha) (hhead e hmem)

/-! ## Gapless replies -/

/-- the numbers whose decimal representations are keys of the reply have no gap -/
def Gapless (rep : CatchupRep τ) : Prop :=
  ∀ a b c : ℤ, a ≤ b → b ≤ c → rep.txns.contains (toString a) = true → rep.txns.contains (toString c) = true →
    rep.txns.contains (toString b) = true

/-- the replies of honest nodes, whose keys are the numbers of a range -/
theorem gapless_of_range {rep : CatchupRep τ} (first last : ℤ)
    (h : ∀ k, rep.txns.contains k = true ↔ ∃ n, first ≤ n ∧ n ≤ last ∧ k = toString n) : Gapless rep := by
  intro a b c hab hbc ha hc
  obtain ⟨n, hn, -, han⟩ := (h _).1 ha
  obtain ⟨m, -, hm, hcm⟩ := (h _).1 hc
  have hna : a = n := Int.repr_injective han
  have hmc : c = m := Int.repr_injective hcm
  exact (h _).2 ⟨b, by omega, by omega, rfl⟩

/-- **What is verified is what is appended.** -/
theorem txnsOfReply_eq_take (env : LedgerEnv τ) {rep : CatchupRep τ} (hgap : Gapless rep) {reply : CatchupTxn τ}
    {rest : List (CatchupTxn τ)}
    (hsorted : SortedTxns (reply :: rest)) (hfirst : rep.txns.contains (toString reply.1) = true) :
    txnsOfReply env rep (reply :: rest) =
      ((reply :: rest).take (txnsOfReply env rep (reply :: rest)).length).map fun e => env.transformTxnForLedger e.2 := by
  have hpair : ((reply :: rest).take rep.txns.size).Pairwise fun a b =>
      rep.txns.contains (toString b.1) = true → rep.txns.contains (toString a.1) = true := by
    have hlower : ∀ e ∈ reply :: rest, reply.1 ≤ e.1 := by
      intro e he
      rcases List.mem_cons.1 he with rfl | he
      · exact le_rfl
      · exact (List.pairwise_cons.1 hsorted).1 e he
    refine (List.Pairwise.sublist (List.take_sublist _ _) (hsorted.imp_of_mem ?_))
    intro a b ha _ hab hb
    exact hgap reply.1 a.1 b.1 (hlower a ha) hab hfirst hb
  unfold txnsOfReply
  rw [List.length_map]
  congr 1
  have hfilter := filter_eq_take (p := fun e : CatchupTxn τ => rep.txns.contains (toString e.1)) hpair
  have hlen := (List.length_filter_le (fun e : CatchupTxn τ => rep.txns.contains (toString e.1))
    ((reply :: rest).take rep.txns.size)).trans (List.length_take_le _ _)
  rw [List.take_take, Nat.min_eq_left hlen] at hfilter
  exact hfilter

/-! ## Replies held -/

/-- the replies held are gapless, and their transactions are sorted -/
structure RepliesOk (s : LedgerManager O τ) : Prop where
  sorted : ∀ lid, SortedTxns (s.ledgerInfo lid).receivedCatchUpReplies
  gapless : ∀ lid frm reps, (s.ledgerInfo lid).recvdCatchupRepliesFrm.get? frm = some reps → ∀ rep ∈ reps, Gapless rep

theorem repliesOk_init (owner : O) : RepliesOk (init owner : LedgerManager O τ) := by
  refine ⟨?_, ?_⟩
  · intro lid
    cases lid <;> exact List.Pairwise.nil
  · intro lid frm reps hreps
    cases lid <;> cases hreps

/-- only the information about the ledgers matters -/
theorem RepliesOk.of_same {s s' : LedgerManager O τ} (h : RepliesOk s) (hreg : s'.ledgerRegistry = s.ledgerRegistry) :
    RepliesOk s' := by
  have hinfo : ∀ lid, s'.ledgerInfo lid = s.ledgerInfo lid := by
    intro lid
    rw [ledgerInfo, hreg]
    rfl
  refine ⟨?_, ?_⟩
  · intro lid
    rw [hinfo]
    exact h.sorted lid
  · intro lid frm reps hreps
    rw [hinfo] at hreps
    exact h.gapless lid frm reps hreps

theorem RepliesOk.setLedgerInfo {s : LedgerManager O τ} (h : RepliesOk s) {lid : LedgerId} {info : LedgerInfo τ}
    (hsorted : SortedTxns info.receivedCatchUpReplies)
    (hgap : ∀ frm reps, info.recvdCatchupRepliesFrm.get? frm = some reps → ∀ rep ∈ reps, Gapless rep) :
    RepliesOk (s.setLedgerInfo lid info) := by
  refine ⟨?_, ?_⟩
  · intro lid'
    rw [ledgerInfo_setLedgerInfo]
    split_ifs
    · exact hsorted
    · exact h.sorted lid'
  · intro lid' frm reps hreps
    rw [ledgerInfo_setLedgerInfo] at hreps
    split_ifs at hreps
    · exact hgap frm reps hreps
    · exact h.gapless lid' frm reps hreps

/-- the methods that take in no reply keep it -/
theorem repliesOk_framed : CatchupFramed own (RepliesOk : LedgerManager O τ → Prop) := by
  have hwrite : ∀ (s : LedgerManager O τ) lid info, QuietWrite (s.ledgerInfo lid) info → RepliesOk s →
      RepliesOk (s.setLedgerInfo lid info) := by
    intro s lid info hw h
    refine h.setLedgerInfo ?_ ?_
    · rw [hw.replies]
      exact h.sorted lid
    · intro frm reps hreps
      rcases hw.repliesFrm with he | he
      · rw [he] at hreps
        exact h.gapless lid frm reps hreps
      · rw [he] at hreps
        cases hreps
  refine ⟨⟨?_, ?_, ?_⟩, hwrite⟩
  · intro s s' hreg _ _ h
    exact h.of_same hreg
  · intro s lid info hw h
    exact hwrite s lid info hw.toQuietWrite h
  · intro s o _ _ h
    exact h.of_same rfl

theorem RepliesOk.consistencyProof {proof : ConsistencyProof} {frm : NodeName} :
    Keeps RepliesOk (processConsistencyProof env own fuel proof frm) := by
  refine repliesOk_framed.processConsistencyProof ?_ ?_
  · intro s s' lid _ h
    exact h.of_same rfl
  · intro s h
    exact h.setLedgerInfo (h.sorted _) (h.gapless _)

/-! ## Ledgers caught up to a target -/

/-- the ledger is being caught up to `cp` -/
def Towards (lid : LedgerId) (cp : ConsistencyProof) (s : LedgerManager O τ) : Prop :=
  (s.ledgerInfo lid).state = .syncing ∧ (s.ledgerInfo lid).catchUpTill = some cp

/-- while it is, it is a prefix of `target`, also with `extra` appended -/
def Aimed (own : LedgerOwner O τ) (lid : LedgerId) (cp : ConsistencyProof) (target extra : List τ)
    (s : LedgerManager O τ) : Prop :=
  Towards lid cp s → (s.ledger own lid).txns ++ extra <+: target

variable {lid : LedgerId} {cp : ConsistencyProof} {target extra : List τ}

theorem Towards.of_setLedgerInfo {s : LedgerManager O τ} {lid' : LedgerId} {info : LedgerInfo τ}
    (hstate : info.state = (s.ledgerInfo lid').state ∨ info.state ≠ .syncing)
    (htill : info.catchUpTill = (s.ledgerInfo lid').catchUpTill ∨ info.catchUpTill = none)
    (h : Towards lid cp (s.setLedgerInfo lid' info)) : Towards lid cp s := by
  unfold Towards at h ⊢
  rw [ledgerInfo_setLedgerInfo] at h
  split_ifs at h with hl
  · subst hl
    obtain ⟨hsyncing, hcp⟩ := h
    refine ⟨?_, ?_⟩
    · rcases hstate with he | hne
      · rwa [he] at hsyncing
      · exact absurd hsyncing hne
    · rcases htill with he | he
      · rwa [he] at hcp
      · rw [he] at hcp
        cases hcp
  · exact h

theorem Aimed.setLedgerInfo {s : LedgerManager O τ} (h : Aimed own lid cp target extra s) {lid' : LedgerId}
    {info : LedgerInfo τ} (hstate : info.state = (s.ledgerInfo lid').state ∨ info.state ≠ .syncing)
    (htill : info.catchUpTill = (s.ledgerInfo lid').catchUpTill ∨ info.catchUpTill = none) :
    Aimed own lid cp target extra (s.setLedgerInfo lid' info) := fun ht => h (ht.of_setLedgerInfo hstate htill)

/-- the same ledgers in the same states -/
theorem Aimed.of_same {s s' : LedgerManager O τ} (h : Aimed own lid cp target extra s)
    (hreg : s'.ledgerRegistry = s.ledgerRegistry) (hledgers : own.ledgers s'.owner = own.ledgers s.owner) :
    Aimed own lid cp target extra s' := by
  intro ht
  unfold Towards ledgerInfo at ht
  rw [hreg] at ht
  have hpre := h ht
  unfold ledger at hpre ⊢
  rwa [hledgers]

/-- the methods that do not start a catch-up keep it -/
theorem aimed_framed : Framed own (Aimed own lid cp target extra) := by
  refine ⟨?_, ?_, ?_⟩
  · intro s s' hreg _ hledgers h
    exact h.of_same hreg hledgers
  · intro s lid' info hw h
    exact h.setLedgerInfo hw.state (Or.inl hw.catchUpTill)
  · intro s o hpool hdomain _ ht
    have hsyncing : (s.ledgerInfo lid).state = .syncing := ht.1
    cases lid with
    | pool => rw [hpool] at hsyncing; cases hsyncing
    | domain => rw [hdomain] at hsyncing; cases hsyncing

/-! ## Appending -/

/-- verification succeeds only if the one tree is a prefix of the other -/
def VerifySound (env : LedgerEnv τ) : Prop :=
  ∀ s1 s2 r1 r2 proof, env.verifyTreeConsistency s1 s2 r1 r2 proof = true →
    ∀ t1 t2 : List τ, t1.length = s1 → t2.length = s2 → env.merkleRoot t1 = r1 → env.merkleRoot t2 = r2 → t1 <+: t2

/-- what `addCatchupTxns` appends to the ledger of `lid` by transactions for the ledger of `lid'` -/
def extraFor (env : LedgerEnv τ) (lid lid' : LedgerId) (replies : List (CatchupTxn τ)) : List τ :=
  if lid = lid' then replies.map fun e => env.transformTxnForLedger e.2 else []

theorem ledger_addToLedger (s : LedgerManager O τ) (lid lid' : LedgerId) (txn : τ) :
    ((exec (addToLedger env own lid' txn) s).2.ledger own lid).txns =
      (s.ledger own lid).txns ++ extraFor env lid lid' [(0, txn)] := by
  simp only [addToLedger, exec_modify, ledger, setOwner, own.ledgers_setLedgers, PerLedger.get_set, extraFor]
  split_ifs with hl
  · subst hl
    rfl
  · simp

theorem extraFor_cons (lid lid' : LedgerId) (seqNo : ℤ) (txn : τ) (replies : List (CatchupTxn τ)) :
    extraFor env lid lid' ((seqNo, txn) :: replies) = extraFor env lid lid' [(0, txn)] ++ extraFor env lid lid' replies := by
  unfold extraFor
  split_ifs <;> rfl

theorem Aimed.weaken {s : LedgerManager O τ} (h : Aimed own lid cp target extra s) : Aimed own lid cp target [] s := by
  intro ht
  rw [List.append_nil]
  exact (List.prefix_append _ _).trans (h ht)

theorem exec_callOwner (m : Exec Exn O Unit) (s : LedgerManager O τ) :
    exec (callOwner m : LedgerManagerM O τ Unit) s = ((exec m s.owner).1, s.setOwner (exec m s.owner).2) := by
  unfold callOwner
  rw [exec_bind, exec_get]
  dsimp only
  rw [exec_bind, exec_modify]
  cases (exec m s.owner).1 <;> rfl

theorem ledgerRegistry_addCatchupTxns (lid' : LedgerId) (replies : List (CatchupTxn τ)) (s : LedgerManager O τ) :
    (exec (addCatchupTxns env own lid' replies) s).2.ledgerRegistry = s.ledgerRegistry := by
  have hkeeps : Keeps (fun s' : LedgerManager O τ => s'.ledgerRegistry = s.ledgerRegistry)
      (addCatchupTxns env own lid' replies) := by
    induction replies with
    | nil => exact Keeps.ret _
    | cons reply replies ih =>
      refine Keeps.seq (Keeps.write fun _ h => h) fun _ => ?_
      apply Keeps.get_seq
      intro s1
      refine Keeps.seq (fun s2 h => ?_) fun _ => ih
      rw [exec_callOwner]
      exact h
  exact hkeeps s rfl

/-- transactions are appended one by one, so an exception in a callback leaves a prefix -/
theorem aimed_addCatchupTxns (lid' : LedgerId) (replies : List (CatchupTxn τ)) (s : LedgerManager O τ)
    (h : Aimed own lid cp target (extraFor env lid lid' replies) s) :
    Aimed own lid cp target [] (exec (addCatchupTxns env own lid' replies) s).2 := by
  induction replies generalizing s with
  | nil => exact h.weaken
  | cons reply replies ih =>
    obtain ⟨seqNo, txn⟩ := reply
    let s1 := (exec (addToLedger env own lid' txn) s).2
    let clbk := own.postTxnFromCatchupAddedToLedger lid' (env.withSeqNo txn (s1.ledgerSize own lid'))
    let s2 := s1.setOwner (exec clbk s1.owner).2
    have hs2 : Aimed own lid cp target (extraFor env lid lid' replies) s2 := by
      intro ht
      have hledger : s2.ledger own lid = s1.ledger own lid := by
        unfold ledger
        rw [← own.ledgers_postTxn lid' (env.withSeqNo txn (s1.ledgerSize own lid')) s1.owner]
        rfl
      rw [hledger, ledger_addToLedger, List.append_assoc, ← extraFor_cons lid lid' seqNo]
      exact h ht
    have hadd : exec (addToLedger env own lid' txn) s = (.ok (), s1) := rfl
    have hcall : exec (callOwner clbk : LedgerManagerM O τ Unit) s1 = ((exec clbk s1.owner).1, s2) := exec_callOwner _ _
    rw [addCatchupTxns, exec_bind, hadd]
    dsimp only
    rw [exec_bind, exec_get]
    dsimp only
    rw [exec_bind, hcall]
    cases (exec clbk s1.owner).1 with
    | ok _ => exact ih s2 hs2
    | error _ => exact hs2.weaken

/-- a verified reply still fits the target -/
theorem aimed_of_verifyReply (hverify : VerifySound env) (hsize : target.length = cp.seqNoEnd)
    (hroot : env.merkleRoot target = cp.newMerkleRoot) {s : LedgerManager O τ} {lid' : LedgerId} {rep : CatchupRep τ}
    {replies : List (CatchupTxn τ)} (h : Aimed own lid cp target [] s)
    (hverified : verifyReply env own s lid' rep (replies.map fun e => env.transformTxnForLedger e.2) = true) :
    Aimed own lid cp target (extraFor env lid lid' replies) s := by
  intro ht
  unfold extraFor
  split_ifs with hl
  · subst hl
    unfold verifyReply at hverified
    rw [ht.2] at hverified
    exact hverify _ _ _ _ _ hverified _ _ rfl hsize rfl hroot
  · exact h ht

theorem getCatchupReplyForSeqNo_spec {info : LedgerInfo τ} {seqNo : ℤ} {x : NodeName × CatchupRep τ}
    (h : getCatchupReplyForSeqNo info seqNo = some x) :
    x.2.txns.contains (toString seqNo) = true ∧
      ∃ reps, info.recvdCatchupRepliesFrm.get? x.1 = some reps ∧ x.2 ∈ reps := by
  unfold getCatchupReplyForSeqNo at h
  refine ⟨by simpa using List.find?_some h, ?_⟩
  obtain ⟨⟨frm, reps⟩, hentry, hx⟩ := List.mem_flatMap.1 (List.mem_of_find?_eq_some h)
  obtain ⟨rep, hrep, rfl⟩ := List.mem_map.1 hx
  exact ⟨reps, Dict.get?_eq_some.2 hentry, hrep⟩

/-! ## Methods that take in replies -/

/-- an invariant that replies held may be changed under, and that verified replies keep when they are appended -/
structure ReplyFramed (env : LedgerEnv τ) (own : LedgerOwner O τ) (I : LedgerManager O τ → Prop) : Prop where
  repliesOk : ∀ s, I s → RepliesOk s
  info : ∀ (s : LedgerManager O τ) lid info, info.state = (s.ledgerInfo lid).state →
    info.catchUpTill = (s.ledgerInfo lid).catchUpTill → SortedTxns info.receivedCatchUpReplies →
    (∀ frm reps, info.recvdCatchupRepliesFrm.get? frm = some reps → ∀ rep ∈ reps, Gapless rep) → I s →
    I (s.setLedgerInfo lid info)
  blacklist : ∀ (s : LedgerManager O τ) i, I s → I (s.setOwner (own.blacklistNode s.owner i))
  append : ∀ (s : LedgerManager O τ) lid rep (replies : List (CatchupTxn τ)), I s →
    verifyReply env own s lid rep (replies.map fun e => env.transformTxnForLedger e.2) = true →
    I (exec (addCatchupTxns env own lid replies) s).2

/-- whether the ledger takes the reply in -/
def accepts (env : LedgerEnv τ) (own : LedgerOwner O τ) (s : LedgerManager O τ) (rep : CatchupRep τ) : Bool :=
  match (exec (canProcessCatchupReply env own rep) s).1 with
  | .ok txns => !txns.isEmpty
  | .error _ => false

/-- checking a reply changes nothing, and its transactions come out sorted -/
theorem exec_canProcessCatchupReply (env : LedgerEnv τ) (own : LedgerOwner O τ) (s : LedgerManager O τ) (rep : CatchupRep τ) :
    (exec (canProcessCatchupReply env own rep) s).2 = s ∧
      ∀ txns, (exec (canProcessCatchupReply env own rep) s).1 = .ok txns → SortedTxns txns := by
  unfold canProcessCatchupReply
  rw [exec_bind, exec_get]
  dsimp only
  split_ifs
  · refine ⟨rfl, ?_⟩
    intro txns htxns
    cases htxns
    exact List.Pairwise.nil
  · split
    · refine ⟨rfl, ?_⟩
      intro txns htxns
      cases htxns
    · split
      · split_ifs
        · refine ⟨rfl, ?_⟩
          intro txns htxns
          cases htxns
          exact sortedTxns_insertionSort _
        · refine ⟨rfl, ?_⟩
          intro txns htxns
          cases htxns
          exact List.Pairwise.nil
      · refine ⟨rfl, ?_⟩
        intro txns htxns
        cases htxns
        exact List.Pairwise.nil

namespace ReplyFramed

variable {I : LedgerManager O τ → Prop} (hI : ReplyFramed env own I)

include hI

theorem removePrcdCatchupReply (lid' : LedgerId) (nodeName : NodeName) (seqNo : ℤ) :
    Keeps I (removePrcdCatchupReply lid' nodeName seqNo : LedgerManagerM O τ Unit) := by
  apply Keeps.read
  intro s hs
  split
  · exact hs
  · exact hs
  · rename_i reps _ hreps
    have hok := hI.repliesOk s hs
    refine hI.info s lid' _ rfl rfl (hok.sorted lid') ?_ hs
    intro frm reps' hreps' rep hrep
    rw [Dict.get?_set] at hreps'
    split_ifs at hreps' with hfrm
    · cases hreps'
      exact hok.gapless lid' nodeName _ hreps rep (List.mem_of_mem_eraseIdx hrep)
    · exact hok.gapless lid' frm reps' hreps' rep hrep

theorem processCatchupReplies (lid' : LedgerId) (n : ℕ) {replies : List (CatchupTxn τ)}
    (hsorted : SortedTxns replies) : Keeps I (processCatchupReplies env own lid' n replies) := by
  induction n generalizing replies with
  | zero => exact Keeps.raise _
  | succ n ih =>
    apply Keeps.read
    intro s hs
    dsimp only
    have hdropped := hsorted.drop (replies.countP fun e => decide (e.1 ≤ (s.ledgerSize own lid' : ℤ)))
    split
    · exact hs
    · rename_i reply rest hdrop
      rw [hdrop] at hdropped
      split_ifs with hnext
      · rw [exec_bind]
        unfold hasValidCatchupReplies
        rw [exec_bind, exec_get]
        dsimp only
        cases hfound : getCatchupReplyForSeqNo (s.ledgerInfo lid') reply.1 with
        | none => exact hs
        | some x =>
          obtain ⟨nodeName, rep⟩ := x
          obtain ⟨hcontains, reps, hreps, hmem⟩ := getCatchupReplyForSeqNo_spec hfound
          have hgap : Gapless rep := (hI.repliesOk s hs).gapless lid' nodeName reps hreps rep hmem
          have htake := txnsOfReply_eq_take env hgap hdropped hcontains
          dsimp only
          cases htill : (s.ledgerInfo lid').catchUpTill with
          | none => exact hs
          | some cp' =>
            dsimp only
            rw [exec_pure]
            dsimp only
            by_cases hvalid : verifyReply env own s lid' rep (txnsOfReply env rep (reply :: rest)) = true
            · rw [if_pos hvalid]
              -- the transactions verified are those appended
              rw [htake] at hvalid
              refine Keeps.after (hI.append s lid' rep _ hs hvalid) fun _ => ?_
              refine Keeps.seq (hI.removePrcdCatchupReply lid' nodeName reply.1) fun _ => ?_
              exact Keeps.seq (ih (hdropped.drop _)) fun _ => Keeps.ret _
            · rw [if_neg hvalid]
              have hblack : Keeps I (modify fun s => s.setOwner (own.blacklistNode s.owner nodeName) :
                  LedgerManagerM O τ PUnit) := Keeps.write fun s hs => hI.blacklist s nodeName hs
              refine Keeps.after (hblack s hs) fun _ => ?_
              exact Keeps.seq (hI.removePrcdCatchupReply lid' nodeName reply.1) fun _ => Keeps.ret _
      · exact hs

theorem addReply {rep : CatchupRep τ} (frm : NodeName) (hrep : Gapless rep) :
    Keeps I (modifyLedgerInfo rep.ledgerId fun info =>
      { info with
        recvdCatchupRepliesFrm := info.recvdCatchupRepliesFrm.set frm
          ((info.recvdCatchupRepliesFrm.get? frm).getD [] ++ [rep]) } : LedgerManagerM O τ Unit) := by
  apply Keeps.write
  intro s hs
  have hok := hI.repliesOk s hs
  refine hI.info s _ _ rfl rfl (hok.sorted _) ?_ hs
  intro frm' reps hreps rep' hrep'
  rw [Dict.get?_set] at hreps
  split_ifs at hreps
  · cases hreps
    rcases List.mem_append.1 hrep' with hold | hnew
    · cases hget : (s.ledgerInfo rep.ledgerId).recvdCatchupRepliesFrm.get? frm with
      | none =>
        rw [hget] at hold
        cases hold
      | some reps =>
        rw [hget] at hold
        exact hok.gapless _ _ _ hget rep' hold
    · rw [List.mem_singleton.1 hnew]
      exact hrep
  · exact hok.gapless _ _ _ hreps rep' hrep'

/-- a reply that is gapless if it is taken in -/
theorem mergeCatchupRep {s : LedgerManager O τ} {rep : CatchupRep τ} (frm : NodeName)
    (hgap : accepts env own s rep = true → Gapless rep) (hs : I s) : I (exec (mergeCatchupRep env own rep frm) s).2 := by
  obtain ⟨hsame, htxns⟩ := exec_canProcessCatchupReply env own s rep
  unfold LedgerManager.mergeCatchupRep
  rw [exec_bind]
  unfold accepts at hgap
  rcases hexec : exec (canProcessCatchupReply env own rep) s with ⟨r, s'⟩
  rw [hexec] at hsame htxns hgap
  dsimp only at hsame htxns hgap ⊢
  subst hsame
  cases r with
  | error e => exact hs
  | ok txns =>
    dsimp only at hgap ⊢
    by_cases hempty : txns = []
    · rw [if_pos hempty]
      exact hs
    · rw [if_neg hempty]
      have hrep : Gapless rep := hgap (by cases txns <;> simp_all)
      have hreply := hI.addReply frm hrep s' hs
      refine Keeps.after hreply fun _ => ?_
      apply Keeps.read
      intro s hs
      have hmerged := ((hI.repliesOk s hs).sorted rep.ledgerId).merge (htxns txns rfl)
      refine Keeps.after (hI.processCatchupReplies _ _ hmerged s hs) fun numProcessed => ?_
      refine Keeps.seq (Keeps.write fun s hs => ?_) fun _ => Keeps.ret _
      exact hI.info s _ _ rfl rfl (hmerged.drop numProcessed) ((hI.repliesOk s hs).gapless _) hs

/-- the whole method, when `I` may depend on a target but not on its absence -/
theorem processCatchupRep (hF : Framed own I) (hdone : ∀ (s : LedgerManager O τ) lid, I s →
      I (s.setLedgerInfo lid { s.ledgerInfo lid with catchUpTill := none }))
    {s : LedgerManager O τ} {rep : CatchupRep τ} {frm : NodeName} (hgap : accepts env own s rep = true → Gapless rep)
    (hs : I s) : I (exec (processCatchupRep env own fuel rep frm) s).2 := by
  refine Keeps.after (hI.mergeCatchupRep frm hgap hs) fun merged => Keeps.cond ?_ (Keeps.ret _)
  apply Keeps.get_seq
  intro s'
  split
  · exact Keeps.raise _
  · refine Keeps.cond (Keeps.seq (Keeps.write fun s hs => hdone s _ hs) fun _ => ?_) (Keeps.ret _)
    exact hF.catchupCompleted _ _

end ReplyFramed

theorem repliesOk_replyFramed : ReplyFramed env own (RepliesOk : LedgerManager O τ → Prop) := by
  refine ⟨fun _ h => h, ?_, ?_, ?_⟩
  · intro s lid info _ _ hsorted hgap h
    exact h.setLedgerInfo hsorted hgap
  · intro s i h
    exact h.of_same rfl
  · intro s lid rep replies h _
    exact h.of_same (ledgerRegistry_addCatchupTxns lid replies s)

/-- a ledger that is caught up to `cp` stays so until it is done -/
theorem towards_replyFramed : ReplyFramed env own fun s : LedgerManager O τ => RepliesOk s ∧ Towards lid cp s := by
  have hsame : ∀ s s' : LedgerManager O τ, s'.ledgerRegistry = s.ledgerRegistry → Towards lid cp s →
      Towards lid cp s' := by
    intro s s' hreg h
    unfold Towards ledgerInfo
    rw [hreg]
    exact h
  refine ⟨fun _ h => h.1, ?_, ?_, ?_⟩
  · intro s lid' info hstate htill hsorted hgap h
    refine ⟨h.1.setLedgerInfo hsorted hgap, ?_⟩
    unfold Towards
    rw [ledgerInfo_setLedgerInfo]
    split_ifs with hl
    · subst hl
      rw [hstate, htill]
      exact h.2
    · exact h.2
  · intro s i h
    exact ⟨h.1.of_same rfl, hsame s _ rfl h.2⟩
  · intro s lid' rep replies h _
    have hreg := @ledgerRegistry_addCatchupTxns O τ env own lid' replies s
    exact ⟨h.1.of_same hreg, hsame s _ hreg h.2⟩

/-- what holds of a manager whose ledger `lid` may be on its way to `target` -/
structure Catching (own : LedgerOwner O τ) (lid : LedgerId) (cp : ConsistencyProof) (target : List τ)
    (s : LedgerManager O τ) : Prop where
  replies : RepliesOk s
  aimed : Aimed own lid cp target [] s

theorem catching_framed : Framed own (Catching own lid cp target) := by
  refine ⟨?_, ?_, ?_⟩
  · intro s s' hreg hver hledgers h
    exact ⟨h.replies.of_same hreg, h.aimed.of_same hreg hledgers⟩
  · intro s lid' info hw h
    have hreplies := (repliesOk_framed : CatchupFramed own RepliesOk).info s lid' info hw h.replies
    exact ⟨hreplies, aimed_framed.info s lid' info hw h.aimed⟩
  · intro s o hpool hdomain h
    exact ⟨h.replies.of_same rfl, aimed_framed.caughtUp s o hpool hdomain h.aimed⟩

/-- **The ledger stays a prefix of the target while replies are taken in.** -/
theorem catching_replyFramed (hverify : VerifySound env) (hsize : target.length = cp.seqNoEnd)
    (hroot : env.merkleRoot target = cp.newMerkleRoot) : ReplyFramed env own (Catching own lid cp target) := by
  refine ⟨fun _ h => h.replies, ?_, ?_, ?_⟩
  · intro s lid' info hstate htill hsorted hgap h
    exact ⟨h.replies.setLedgerInfo hsorted hgap, h.aimed.setLedgerInfo (Or.inl hstate) (Or.inl htill)⟩
  · intro s i h
    exact ⟨h.replies.of_same rfl, h.aimed.of_same rfl (own.ledgers_blacklistNode _ _)⟩
  · intro s lid' rep replies h hverified
    refine ⟨h.replies.of_same (ledgerRegistry_addCatchupTxns lid' replies s), ?_⟩
    exact aimed_addCatchupTxns lid' replies s (aimed_of_verifyReply hverify hsize hroot h.aimed hverified)

/-! ## Runs -/

/-- every reply that is taken in during the run is gapless -/
def RepliesGapless (env : LedgerEnv τ) (own : LedgerOwner O τ) (fuel : ℕ) :
    LedgerManager O τ → List (LedgerInput τ) → Prop
  | _, [] => True
  | s, x :: xs => (∀ rep frm, x = .catchupRep rep frm → accepts env own s rep = true → Gapless rep) ∧
      RepliesGapless env own fuel (input env own fuel s x) xs

theorem repliesGapless_append {s : LedgerManager O τ} {xs ys : List (LedgerInput τ)} :
    RepliesGapless env own fuel s (xs ++ ys) ↔
      RepliesGapless env own fuel s xs ∧ RepliesGapless env own fuel (run env own fuel s xs) ys := by
  induction xs generalizing s with
  | nil => simp [RepliesGapless, run]
  | cons x xs ih =>
    rw [List.cons_append, RepliesGapless, RepliesGapless, ih, and_assoc]
    rfl

theorem RepliesOk.input {s : LedgerManager O τ} (h : RepliesOk s) {x : LedgerInput τ}
    (hgap : ∀ rep frm, x = .catchupRep rep frm → accepts env own s rep = true → Gapless rep) :
    RepliesOk (input env own fuel s x) := by
  cases x with
  | ledgerStatus m frm => exact repliesOk_framed.processLedgerStatus m frm s h
  | consistencyProof m frm => exact RepliesOk.consistencyProof s h
  | catchupRep m frm =>
    refine repliesOk_replyFramed.processCatchupRep repliesOk_framed.toFramed ?_ (hgap m frm rfl) h
    intro s lid hs
    exact hs.setLedgerInfo (hs.sorted lid) (hs.gapless lid)
  | setLedgerCanSync lid canSync => exact h.setLedgerInfo (h.sorted lid) (h.gapless lid)
  | checkIfCPsNeeded lid => exact repliesOk_framed.checkIfCPsNeeded lid s h
  | tick perfCounter => exact h.of_same rfl

theorem RepliesOk.run {s : LedgerManager O τ} (h : RepliesOk s) {xs : List (LedgerInput τ)}
    (hgap : RepliesGapless env own fuel s xs) : RepliesOk (run env own fuel s xs) := by
  induction xs generalizing s with
  | nil => exact h
  | cons x xs ih => exact ih (h.input hgap.1) hgap.2

/-- catch-up replies as inputs -/
def replyInputs (reps : List (CatchupRep τ × NodeName)) : List (LedgerInput τ) :=
  reps.map fun r => .catchupRep r.1 r.2

theorem Catching.run (hverify : VerifySound env) (hsize : target.length = cp.seqNoEnd)
    (hroot : env.merkleRoot target = cp.newMerkleRoot) {s : LedgerManager O τ} (h : Catching own lid cp target s)
    {reps : List (CatchupRep τ × NodeName)} (hgap : RepliesGapless env own fuel s (replyInputs reps)) :
    Catching own lid cp target (run env own fuel s (replyInputs reps)) := by
  induction reps generalizing s with
  | nil => exact h
  | cons r reps ih =>
    obtain ⟨hhead, htail⟩ := hgap
    refine ih ?_ htail
    refine (catching_replyFramed hverify hsize hroot).processCatchupRep catching_framed ?_ (hhead r.1 r.2 rfl) h
    intro s' lid' hs'
    refine ⟨hs'.replies.setLedgerInfo (hs'.replies.sorted lid') (hs'.replies.gapless lid'), ?_⟩
    exact hs'.aimed.setLedgerInfo (Or.inl rfl) (Or.inr rfl)

/-- the ledger is a prefix of the target, and not longer than the proof it is caught up to says -/
def OnTarget (own : LedgerOwner O τ) (lid : LedgerId) (cp : ConsistencyProof) (target : List τ)
    (s : LedgerManager O τ) : Prop :=
  (s.ledger own lid).txns <+: target ∧ s.ledgerSize own lid ≤ cp.seqNoEnd

theorem Catching.onTarget (hsize : target.length = cp.seqNoEnd) {s : LedgerManager O τ}
    (h : Catching own lid cp target s) (ht : Towards lid cp s) : OnTarget own lid cp target s := by
  have hpre := h.aimed ht
  rw [List.append_nil] at hpre
  refine ⟨hpre, ?_⟩
  rw [← hsize]
  exact hpre.length_le

/-- **Catch-up appends only verified transactions.** In a run in which the replies taken in are gapless, a ledger that is
caught up to `cp` and starts as a prefix of the target is one after every reply, also of the reply that completes the
catch-up, before the node goes on from there. -/
theorem catchup_appends_verified (env : LedgerEnv τ) (own : LedgerOwner O τ) (fuel : ℕ) (owner : O)
    (hverify : VerifySound env) {before : List (LedgerInput τ)} {lid : LedgerId} {cp : ConsistencyProof}
    {target : List τ} (hsize : target.length = cp.seqNoEnd) (hroot : env.merkleRoot target = cp.newMerkleRoot)
    (hpre : ((LedgerManager.run env own fuel (init owner) before).ledger own lid).txns <+: target)
    {reps : List (CatchupRep τ × NodeName)} {rep : CatchupRep τ} {frm : NodeName}
    (hgap : RepliesGapless env own fuel (init owner) (before ++ replyInputs (reps ++ [(rep, frm)]))) :
    let s := LedgerManager.run env own fuel (init owner) (before ++ replyInputs reps)
    let s' := LedgerManager.run env own fuel (init owner) (before ++ replyInputs (reps ++ [(rep, frm)]))
    (Towards lid cp s → OnTarget own lid cp target (exec (mergeCatchupRep env own rep frm) s).2) ∧
      (Towards lid cp s' → OnTarget own lid cp target s') := by
  intro s s'
  have hstart : Catching own lid cp target (LedgerManager.run env own fuel (init owner) before) := by
    refine ⟨(repliesOk_init owner).run (repliesGapless_append.1 hgap).1, ?_⟩
    intro _
    rwa [List.append_nil]
  have hrun : ∀ xs, LedgerManager.run env own fuel (init owner) (before ++ replyInputs xs) =
      LedgerManager.run env own fuel (LedgerManager.run env own fuel (init owner) before) (replyInputs xs) := by
    intro xs
    unfold LedgerManager.run
    rw [List.foldl_append]
  have hreps := (repliesGapless_append.1 hgap).2
  have hsplit : replyInputs (reps ++ [(rep, frm)]) = replyInputs reps ++ replyInputs [(rep, frm)] := by
    unfold replyInputs
    rw [List.map_append]
  refine ⟨?_, ?_⟩
  · intro ht
    rw [hsplit] at hreps
    obtain ⟨hbefore, hlast⟩ := repliesGapless_append.1 hreps
    have hs : Catching own lid cp target s := by
      have h := hstart.run hverify hsize hroot hbefore
      rwa [← hrun] at h
    have haccept : accepts env own s rep = true → Gapless rep := by
      have h := hlast.1 rep frm rfl
      rwa [← hrun] at h
    have hmerged := (catching_replyFramed hverify hsize hroot).mergeCatchupRep frm haccept hs
    have htowards := towards_replyFramed.mergeCatchupRep frm haccept ⟨hs.replies, ht⟩
    exact hmerged.onTarget hsize htowards.2
  · intro ht
    have hs' := hstart.run hverify hsize hroot hreps
    rw [← hrun] at hs'
    exact hs'.onTarget hsize ht

/-! ## Witnesses -/

open FourNodes in
theorem verifySound_ledgerEnv : VerifySound ledgerEnv := by
  intro s1 s2 r1 r2 proof h t1 t2 h1 h2 hr1 hr2
  simp only [ledgerEnv, Bool.decide_and, Bool.and_eq_true, decide_eq_true_eq] at h hr1 hr2
  obtain ⟨-, -, hpre⟩ := h
  rw [← hr1, ← hr2, String.toList_ofList, String.toList_ofList] at hpre
  exact List.isPrefixOf_iff_prefix.1 hpre

open FourNodes in
theorem gapless_ab : Gapless (catchupReply [("1", 'a'), ("2", 'b')]) := by
  apply gapless_of_range 1 2
  intro k
  constructor
  · intro hk
    have hkeys : (catchupReply [("1", 'a'), ("2", 'b')]).txns.keys = ["1", "2"] := by decide +kernel
    rw [Dict.contains_iff, hkeys] at hk
    rcases List.mem_cons.1 hk with rfl | hk
    · exact ⟨1, le_rfl, by decide, by decide +kernel⟩
    · rw [List.mem_singleton.1 hk]
      exact ⟨2, by decide, le_rfl, by decide +kernel⟩
  · rintro ⟨n, h1, h2, rfl⟩
    obtain rfl | rfl : n = 1 ∨ n = 2 := by omega
    · decide +kernel
    · decide +kernel

instance (lid : LedgerId) (cp : ConsistencyProof) (s : LedgerManager O τ) : Decidable (Towards lid cp s) := by
  unfold Towards
  infer_instance

instance [DecidableEq τ] (own : LedgerOwner O τ) (lid : LedgerId) (cp : ConsistencyProof) (target : List τ)
    (s : LedgerManager O τ) : Decidable (OnTarget own lid cp target s) := by
  unfold OnTarget
  infer_instance

open FourNodes in
theorem catchup_appends_verified_ab :
    (VerifySound ledgerEnv ∧ targetAbc.length = toAbc.seqNoEnd ∧
      ledgerEnv.merkleRoot targetAbc = toAbc.newMerkleRoot ∧
      ((run ledgerEnv ledgerOwner 1 (init emptyLedgers) startCatchup).ledger ledgerOwner .pool).txns <+: targetAbc ∧
      RepliesGapless ledgerEnv ledgerOwner 1 (init emptyLedgers)
        (startCatchup ++ replyInputs ([] ++ [(catchupReply [("1", 'a'), ("2", 'b')], "Gamma")]))) ∧
    let s := run ledgerEnv ledgerOwner 1 (init emptyLedgers) (startCatchup ++ replyInputs [])
    let s' := run ledgerEnv ledgerOwner 1 (init emptyLedgers)
      (startCatchup ++ replyInputs ([] ++ [(catchupReply [("1", 'a'), ("2", 'b')], "Gamma")]))
    (Towards .pool toAbc s → OnTarget ledgerOwner .pool toAbc targetAbc
      (exec (mergeCatchupRep ledgerEnv ledgerOwner (catchupReply [("1", 'a'), ("2", 'b')]) "Gamma") s).2) ∧
    (Towards .pool toAbc s' → OnTarget ledgerOwner .pool toAbc targetAbc s') := by
  have hgap : RepliesGapless ledgerEnv ledgerOwner 1 (init emptyLedgers)
      (startCatchup ++ replyInputs ([] ++ [(catchupReply [("1", 'a'), ("2", 'b')], "Gamma")])) := by
    refine ⟨fun rep frm h => ?_, fun rep frm h => ?_, fun rep frm h _ => ?_, trivial⟩
    · cases h
    · cases h
    · cases h
      exact gapless_ab
  have hpre : ((run ledgerEnv ledgerOwner 1 (init emptyLedgers) startCatchup).ledger ledgerOwner .pool).txns <+:
      targetAbc := by decide +kernel
  exact ⟨⟨verifySound_ledgerEnv, by decide, by decide, hpre, hgap⟩,
    catchup_appends_verified ledgerEnv ledgerOwner 1 emptyLedgers verifySound_ledgerEnv (by decide) (by decide) hpre
      hgap⟩

open FourNodes in
/-- **A transaction that nobody verified.** The reply has the keys 1, 02 and 3: the transactions 1 and 3 are verified, and
the transactions 1 and 2 are appended. -/
theorem unverified_appended :
    let s := run ledgerEnv ledgerOwner 1 (init emptyLedgers) startCatchup
    let rep := catchupReply [("1", 'a'), ("02", 'x'), ("3", 'b')]
    VerifySound ledgerEnv ∧ targetAbc.length = toAbc.seqNoEnd ∧
      ledgerEnv.merkleRoot targetAbc = toAbc.newMerkleRoot ∧ Towards .pool toAbc s ∧
      (s.ledger ledgerOwner .pool).txns <+: targetAbc ∧
      Towards .pool toAbc (input ledgerEnv ledgerOwner 1 s (.catchupRep rep "Gamma")) ∧
      ¬ OnTarget ledgerOwner .pool toAbc targetAbc (input ledgerEnv ledgerOwner 1 s (.catchupRep rep "Gamma")) :=
  ⟨verifySound_ledgerEnv, by decide, by decide, by decide +kernel, by decide +kernel, by decide +kernel, by decide +kernel⟩

end LedgerManager

end Plenum
