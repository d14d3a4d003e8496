/-
Stable checkpoints are justified.

- `Justified D r n`: the replica has ordered the batches 1, ..., n, has sent its own digest for an interval that ends at
  `n`, and 2f different nodes have sent it this digest.
- `Counts`, `Tallied`: the invariant. An open checkpoint has got no digest of another node and counts every batch since
  its start; a complete one counts its whole interval, and what it has got are delivered messages with its digest. At
  most one checkpoint is behind the last ordered batch's interval.
- `Tallied.write`: every write of the code keeps it, so `h` only rises, and only to numbers that are justified.
- `stable_checkpoints_justified`: for every run of a replica in one view, write by write.
-/
import Mathlib.Tactic
import Plenum.Server.CheckpointIntervals

namespace Plenum

open Plenum.Core Plenum.Core.Exec
open Relation (ReflTransGen)

variable {ω σ τ : Type} {D : InMsg → Prop}

namespace RunningReplica

variable {env : Env ω σ τ} {r r' : RunningReplica ω σ τ}

/-! ## What justifies a water mark -/

/-- the replica has sent its digest for the interval from `start` to `n`, and has got it from 2f nodes -/
structure Certified (D : InMsg → Prop) (r : RunningReplica ω σ τ) (n : ℕ) (start : ℤ) (digest : String) : Prop where
  own : .checkpoint ⟨r.replica.instId, r.replica.node.viewNo, start, n, digest⟩ ∈ r.emitted
  received : ∃ senders : Finset NodeName, senders.card = 2 * r.replica.node.f ∧ ∀ sender ∈ senders,
    ∃ ck, D (.checkpoint ck sender) ∧ ck.seqNoStart = start ∧ ck.seqNoEnd = n ∧ ck.digest = digest

structure Justified (D : InMsg → Prop) (r : RunningReplica ω σ τ) (n : ℕ) : Prop where
  ordered : ∀ p, 1 ≤ p → p ≤ n → (r.replica.node.viewNo, p) ∈ r.replica.ordered
  certified : ∃ start digest, Certified D r n start digest

/-- a key is in one of the 3-phase dictionaries, and then it is not -/
def Removes (s s' : Replica ω σ τ) (key : TPCKey) : Prop :=
  (s.sentPrePrepares.contains key ∧ ¬ s'.sentPrePrepares.contains key) ∨
    (s.prePrepares.contains key ∧ ¬ s'.prePrepares.contains key) ∨
    (s.prepares.contains key ∧ ¬ s'.prepares.contains key) ∨ (s.commits.contains key ∧ ¬ s'.commits.contains key)

/-- what can happen to the water marks and the 3-phase data -/
structure Advances (env : Env ω σ τ) (D : InMsg → Prop) (r r' : RunningReplica ω σ τ) : Prop where
  low : r.replica.h ≤ r'.replica.h
  high : r'.replica.H = r'.replica.h + env.LOG_SIZE
  justified : r.replica.h < r'.replica.h → Justified D r' r'.replica.h
  removed : ∀ key, Removes r.replica r'.replica key → key.2 ≤ r'.replica.h

/-- what a run only adds to -/
structure Grows (r r' : RunningReplica ω σ τ) : Prop where
  cfg : r'.replica.cfg = r.replica.cfg
  emitted : r.emitted ⊆ r'.emitted
  ordered : r.replica.ordered ⊆ r'.replica.ordered

theorem Grows.instId (h : Grows r r') : r'.replica.instId = r.replica.instId := congrArg ReplicaConfig.instId h.cfg

theorem Grows.viewNo (h : Grows r r') : r'.replica.node.viewNo = r.replica.node.viewNo :=
  congrArg ReplicaConfig.viewNo h.cfg

theorem Grows.f_eq (h : Grows r r') : r'.replica.node.f = r.replica.node.f := congrArg ReplicaConfig.f h.cfg

theorem grows_of_write {s' : Replica ω σ τ} (h : Replica.ReplicaWrite env D r.replica s') : Grows r ⟨s', r.taken⟩ := by
  have hwrites := ReflTransGen.single h
  have hsteps := Replica.ordering_of_writes hwrites
  have hout : r.replica.outBox <+: s'.outBox :=
    stable_of_steps (I := fun c => r.replica.outBox <+: c.outBox) (fun _ _ hstep h => h.trans hstep.outBox_prefix) hsteps
      List.prefix_rfl
  have hordered : r.replica.ordered <+: s'.ordered :=
    stable_of_steps (I := fun c => r.replica.ordered <+: c.ordered) (fun _ _ hstep h => h.trans hstep.ordered_prefix)
      hsteps List.prefix_rfl
  refine ⟨Replica.cfg_of_writes hwrites, fun m hm => ?_, hordered.subset⟩
  exact (List.mem_append.1 hm).elim (List.mem_append_left _) fun hm => List.mem_append_right _ (hout.subset hm)

theorem Justified.grows {n : ℕ} (h : Justified D r n) (hg : Grows r r') : Justified D r' n := by
  obtain ⟨start, digest, hown, hreceived⟩ := h.certified
  refine ⟨fun p hp hpn => ?_, start, digest, ?_, ?_⟩
  · rw [hg.viewNo]
    exact hg.ordered (h.ordered p hp hpn)
  · rw [hg.instId, hg.viewNo]
    exact hg.emitted hown
  · rw [hg.f_eq]
    exact hreceived

/-! ## The invariant -/

/-- what is known of the checkpoint of an interval -/
structure Counts (env : Env ω σ τ) (D : InMsg → Prop) (r : RunningReplica ω σ τ) (key : CkKey) (state : CheckpointState) :
    Prop where
  ends : key.2 = key.1 + env.CHK_FREQ - 1
  start_le : key.1 ≤ state.seqNo
  seqNo_le : state.seqNo ≤ r.replica.lastOrderedPPSeqNo
  last : (r.replica.lastOrderedPPSeqNo : ℤ) < key.2 → state.seqNo = r.replica.lastOrderedPPSeqNo
  opened : state.digest = none →
    state.receivedDigests = Dict.empty ∧ (state.digests.length : ℤ) = state.seqNo - key.1 + 1
  complete : ∀ digest, state.digest = some digest → (state.seqNo : ℤ) = key.2 ∧
    .checkpoint ⟨r.replica.instId, r.replica.node.viewNo, key.1, key.2, digest⟩ ∈ r.emitted ∧
    ∀ e ∈ state.receivedDigests.entries,
      ∃ ck, D (.checkpoint ck e.1) ∧ ck.seqNoStart = key.1 ∧ ck.seqNoEnd = key.2 ∧ ck.digest = digest

structure Tallied (env : Env ω σ τ) (D : InMsg → Prop) (r : RunningReplica ω σ τ) : Prop where
  counts : ∀ e ∈ r.replica.checkpoints.entries, Counts env D r e.1 e.2
  unique : ∀ k ∈ r.replica.checkpoints.keys, ∀ k' ∈ r.replica.checkpoints.keys,
    (r.replica.lastOrderedPPSeqNo : ℤ) < k.2 → (r.replica.lastOrderedPPSeqNo : ℤ) < k'.2 → k = k'
  h_le_end : ∀ k ∈ r.replica.checkpoints.keys, (r.replica.h : ℤ) ≤ k.2
  h_le : r.replica.h ≤ r.replica.lastOrderedPPSeqNo
  high : r.replica.H = r.replica.h + env.LOG_SIZE
  justified : 0 < r.replica.h → Justified D r r.replica.h

/-- a state that keeps the invariant, a low water mark that does not fall, and nothing removed above it -/
theorem Tallied.advances (h : Tallied env D r') (hlow : r.replica.h ≤ r'.replica.h)
    (hremoved : ∀ key, Removes r.replica r'.replica key → key.2 ≤ r'.replica.h) : Advances env D r r' :=
  ⟨hlow, h.high, fun hlt => h.justified ((Nat.zero_le _).trans_lt hlt), hremoved⟩

/-- nothing is learnt of a checkpoint that is not true later -/
theorem Counts.grows {key : CkKey} {state : CheckpointState} (h : Counts env D r key state) (hg : Grows r r')
    (hle : r.replica.lastOrderedPPSeqNo ≤ r'.replica.lastOrderedPPSeqNo)
    (hlast : (r'.replica.lastOrderedPPSeqNo : ℤ) < key.2 →
      r'.replica.lastOrderedPPSeqNo = r.replica.lastOrderedPPSeqNo) : Counts env D r' key state := by
  refine ⟨h.ends, h.start_le, h.seqNo_le.trans hle, fun hlt => ?_, h.opened, fun digest hd => ?_⟩
  · have he := hlast hlt
    rw [he] at hlt ⊢
    exact h.last hlt
  · obtain ⟨h1, h2, h3⟩ := h.complete digest hd
    rw [hg.instId, hg.viewNo]
    exact ⟨h1, hg.emitted h2, h3⟩

/-- the invariant is about the checkpoints, the water marks and the last ordered batch only -/
theorem Tallied.congr (h : Tallied env D r) (hg : Grows r r') (hmarks : r'.replica.marks = r.replica.marks)
    (hlast : r'.replica.lastOrderedPPSeqNo = r.replica.lastOrderedPPSeqNo) : Tallied env D r' := by
  simp only [Replica.marks, Prod.mk.injEq] at hmarks
  obtain ⟨hck, hh, hH⟩ := hmarks
  refine ⟨fun e he => ?_, ?_, ?_, ?_, ?_, fun hpos => ?_⟩
  · rw [hck] at he
    exact (h.counts e he).grows hg hlast.ge fun _ => hlast
  · rw [hck, hlast]; exact h.unique
  · rw [hck, hh]; exact h.h_le_end
  · rw [hh, hlast]; exact h.h_le
  · rw [hH, hh]; exact h.high
  · rw [hh] at hpos ⊢
    exact (h.justified hpos).grows hg

/-! ## Ordering a batch -/

/-- the checkpoint of the next batch before it is completed -/
structure Extends (env : Env ω σ τ) (r : RunningReplica ω σ τ) (n : ℕ) (key : CkKey) (state : CheckpointState) : Prop where
  ends : key.2 = key.1 + env.CHK_FREQ - 1
  start_le : key.1 ≤ n
  seqNo : state.seqNo = n
  digest : state.digest = none
  received : state.receivedDigests = Dict.empty
  count : (state.digests.length : ℤ) = n - key.1 + 1
  alone : ∀ k ∈ r.replica.checkpoints.keys, (r.replica.lastOrderedPPSeqNo : ℤ) < k.2 → k = key
  h_le_end : (r.replica.h : ℤ) ≤ key.2

/-- the next batch goes to the one checkpoint that is not complete, or opens one after the last batch -/
theorem Tallied.extends (h : Tallied env D r) (digest : String) :
    Extends env r (r.replica.lastOrderedPPSeqNo + 1)
      (Replica.extendCheckpoint env (r.replica.lastOrderedPPSeqNo + 1) digest r.replica).1
      (Replica.extendCheckpoint env (r.replica.lastOrderedPPSeqNo + 1) digest r.replica).2 := by
  rcases Replica.extendCheckpoint_cases env r.replica (r.replica.lastOrderedPPSeqNo + 1) digest with
    ⟨key, state, hmem, hw, he⟩ | ⟨hnone, he⟩ <;> rw [he]
  · have hkey : key ∈ r.replica.checkpoints.keys := List.mem_map_of_mem (f := Prod.fst) hmem
    have hc := h.counts _ hmem
    have hlt : (r.replica.lastOrderedPPSeqNo : ℤ) < key.2 := by
      have := hw.2
      push_cast at this
      omega
    have hseqNo := hc.last hlt
    have hopen : state.digest = none := by
      by_contra hne
      obtain ⟨d, hd⟩ := Option.ne_none_iff_exists'.1 hne
      have hend := (hc.complete d hd).1
      change state.seqNo = r.replica.lastOrderedPPSeqNo at hseqNo
      dsimp only at hend
      omega
    obtain ⟨hreceived, hcount⟩ := hc.opened hopen
    refine ⟨hc.ends, ?_, rfl, hopen, hreceived, ?_, fun k hk hk2 => h.unique k hk key hkey hk2 hlt, h.h_le_end key hkey⟩
    · exact hw.1
    · dsimp only at hseqNo hcount ⊢
      rw [List.length_append, List.length_singleton]
      push_cast
      omega
  · have hlow := h.h_le
    refine ⟨rfl, le_rfl, rfl, rfl, rfl, ?_, fun k hk hk2 => ?_, ?_⟩
    · simp
    · -- its interval would hold the batch
      obtain ⟨e, he, rfl⟩ := List.mem_map.1 hk
      have hc := h.counts e he
      have h1 := hc.start_le
      have h2 := hc.last hk2
      refine absurd ⟨?_, ?_⟩ (hnone _ hk)
      · push_cast
        omega
      · push_cast
        omega
    · push_cast
      omega

/-- the entry of the last batch is written -/
theorem Tallied.set (h : Tallied env D r) (hg : Grows r r') {key : CkKey} {state : CheckpointState}
    (hck : r'.replica.checkpoints = r.replica.checkpoints.set key state) (hh : r'.replica.h = r.replica.h)
    (hH : r'.replica.H = r.replica.H) (hlast : r'.replica.lastOrderedPPSeqNo = r.replica.lastOrderedPPSeqNo + 1)
    (halone : ∀ k ∈ r.replica.checkpoints.keys, (r.replica.lastOrderedPPSeqNo : ℤ) < k.2 → k = key)
    (hend : (r.replica.h : ℤ) ≤ key.2) (hcounts : Counts env D r' key state) : Tallied env D r' := by
  have halone' : ∀ k ∈ r'.replica.checkpoints.keys, (r'.replica.lastOrderedPPSeqNo : ℤ) < k.2 → k = key := by
    intro k hk hlt
    rw [hck] at hk
    refine (Replica.mem_keys_set.1 hk).elim id fun hk => halone k hk ?_
    rw [hlast] at hlt
    push_cast at hlt
    omega
  refine ⟨fun e he => ?_, fun k hk k' hk' hlt hlt' => (halone' k hk hlt).trans (halone' k' hk' hlt').symm, fun k hk => ?_,
    ?_, ?_, fun hpos => ?_⟩
  · rw [hck] at he
    rcases SortedDict.mem_set.1 he with rfl | ⟨he, hne⟩
    · exact hcounts
    · refine (h.counts e he).grows hg (hlast ▸ Nat.le_succ _) fun hlt => absurd ?_ hne
      refine halone e.1 (List.mem_map_of_mem he) ?_
      rw [hlast] at hlt
      push_cast at hlt
      omega
  · rw [hck] at hk
    rw [hh]
    rcases Replica.mem_keys_set.1 hk with rfl | hk
    · exact hend
    · exact h.h_le_end k hk
  · rw [hh, hlast]
    exact h.h_le.trans (Nat.le_succ _)
  · rw [hH, hh]
    exact h.high
  · rw [hh] at hpos ⊢
    exact (h.justified hpos).grows hg

/-- **Ordering the next batch keeps the invariant.** -/
theorem Tallied.order (h : Tallied env D r) {s' : Replica ω σ τ} {key : TPCKey} {pp : PrePrepare}
    (hs' : s' = (r.replica.orderBatch key pp).recordInCheckpoint env pp.ppSeqNo pp.digest) (hg : Grows r ⟨s', r.taken⟩)
    (hno : pp.ppSeqNo = r.replica.lastOrderedPPSeqNo + 1) (hkey : key.2 = pp.ppSeqNo) : Tallied env D ⟨s', r.taken⟩ := by
  have hx := h.extends pp.digest
  have he : Replica.extendCheckpoint env pp.ppSeqNo pp.digest (r.replica.orderBatch key pp) =
      Replica.extendCheckpoint env (r.replica.lastOrderedPPSeqNo + 1) pp.digest r.replica := by
    rw [hno]
    rfl
  have hlast : (r.replica.orderBatch key pp).lastOrderedPPSeqNo = r.replica.lastOrderedPPSeqNo + 1 := by
    refine (Replica.addToOrdered_lastOrderedPPSeqNo key).trans ?_
    rw [hkey, hno]
    exact max_eq_right (Nat.le_succ _)
  unfold Replica.recordInCheckpoint at hs'
  rw [he] at hs'
  generalize Replica.extendCheckpoint env (r.replica.lastOrderedPPSeqNo + 1) pp.digest r.replica = e at hx hs'
  obtain ⟨iv, state⟩ := e
  dsimp only at hx hs'
  have hcount := hx.count
  have hends := hx.ends
  have hstart := hx.start_le
  have hseqNo := hx.seqNo
  by_cases hfull : state.digests.length = env.CHK_FREQ
  · rw [if_pos hfull] at hs'
    have hend : ((r.replica.lastOrderedPPSeqNo + 1 : ℕ) : ℤ) = iv.2 := by omega
    subst hs'
    refine h.set hg rfl rfl rfl hlast hx.alone hx.h_le_end ⟨hends, ?_, ?_, fun _ => ?_, fun hd => ?_, fun d hd => ?_⟩
    · dsimp only
      rw [hseqNo]
      exact hstart
    · exact (hseqNo.trans hlast.symm).le
    · exact hseqNo.trans hlast.symm
    · cases hd
    · cases hd
      refine ⟨?_, ?_, fun e he => ?_⟩
      · dsimp only
        rw [hseqNo]
        exact hend
      · exact List.mem_append_right _ (List.mem_append_right _ (List.mem_singleton.2 rfl))
      · dsimp only at he
        rw [hx.received] at he
        cases he
  · rw [if_neg hfull] at hs'
    subst hs'
    refine h.set hg rfl rfl rfl hlast hx.alone hx.h_le_end ⟨hends, ?_, ?_, fun _ => ?_, fun _ => ⟨hx.received, ?_⟩,
      fun d hd => ?_⟩
    · rw [hseqNo]
      exact hstart
    · exact (hseqNo.trans hlast.symm).le
    · exact hseqNo.trans hlast.symm
    · rw [hseqNo]
      exact hcount
    · rw [hx.digest] at hd
      cases hd

/-! ## Checkpoints of other nodes -/

/-- **A delivered digest that is the replica's own keeps the invariant.** -/
theorem Tallied.receiveDigest (h : Tallied env D r) {ck : Checkpoint} {sender : NodeName} {state : CheckpointState}
    (hg : Grows r ⟨r.replica.receiveDigest ck sender state, r.taken⟩) (hD : D (.checkpoint ck sender))
    (hget : r.replica.checkpoints.get? (ck.seqNoStart, ck.seqNoEnd) = some state) (hown : state.digest = some ck.digest) :
    Tallied env D ⟨r.replica.receiveDigest ck sender state, r.taken⟩ := by
  have hmem : ((ck.seqNoStart, ck.seqNoEnd), state) ∈ r.replica.checkpoints.entries := Dict.get?_eq_some.1 hget
  have hkeys : ∀ k, k ∈ (r.replica.receiveDigest ck sender state).checkpoints.keys ↔ k ∈ r.replica.checkpoints.keys := by
    refine fun k => Replica.mem_keys_set.trans (or_iff_right_of_imp ?_)
    rintro rfl
    exact List.mem_map.2 ⟨_, hmem, rfl⟩
  refine ⟨fun e he => ?_, fun k hk k' hk' => h.unique k ((hkeys k).1 hk) k' ((hkeys k').1 hk'),
    fun k hk => h.h_le_end k ((hkeys k).1 hk), h.h_le, h.high, fun hpos => (h.justified hpos).grows hg⟩
  rcases SortedDict.mem_set.1 he with rfl | ⟨he, -⟩
  · have hc := (h.counts _ hmem).grows hg le_rfl fun _ => rfl
    refine ⟨hc.ends, hc.start_le, hc.seqNo_le, hc.last, fun hd => ?_, fun digest hd => ?_⟩
    · rw [hown] at hd
      cases hd
    · obtain ⟨h1, h2, h3⟩ := hc.complete digest hd
      refine ⟨h1, h2, fun x hx => ?_⟩
      rcases Dict.mem_set.1 hx with rfl | ⟨hx, -⟩
      · exact ⟨ck, hD, rfl, rfl, Option.some.inj (hown.symm.trans hd)⟩
      · exact h3 x hx
  · exact (h.counts e he).grows hg le_rfl fun _ => rfl

/-! ## A stable checkpoint -/

/-- garbage collection leaves the 3-phase data above the water mark -/
theorem removes_makeStable {s : Replica ω σ τ} {seqNo : ℕ} {iv : CkKey} {state : CheckpointState} {key : TPCKey}
    (h : Removes s (s.makeStable env seqNo iv state) key) : key.2 ≤ seqNo := by
  have hkeys : ∀ k ∈ s.gcKeys seqNo, k.2 ≤ seqNo := fun k hk => of_decide_eq_true (List.mem_filter.1 hk).2
  by_contra hlt
  have hnot : key ∉ s.gcKeys seqNo := fun hmem => hlt (hkeys key hmem)
  have hlog : ∀ l : PrePrepareLog, (l.eraseAll (s.gcKeys seqNo)).contains key = l.contains key := by
    intro l
    change ((l.eraseAll (s.gcKeys seqNo)).get? key).isSome = (l.get? key).isSome
    rw [PrePrepareLog.get?_eraseAll, if_neg hnot]
  have htracked : ∀ d : TrackedMsgs, (Dict.eraseAll d (s.gcKeys seqNo)).contains key = Dict.contains d key := by
    intro d
    unfold Dict.contains
    rw [Dict.get?_eraseAll, if_neg hnot]
  rcases h with ⟨h, h'⟩ | ⟨h, h'⟩ | ⟨h, h'⟩ | ⟨h, h'⟩
  · exact h' ((hlog _).trans h)
  · exact h' ((hlog _).trans h)
  · exact h' ((htracked _).trans h)
  · exact h' ((htracked _).trans h)

/-- a checkpoint with 2f digests is complete, and is the one that becomes stable -/
theorem Tallied.stable_is_own (h : Tallied env D r) (hf : 0 < r.replica.node.f) {own key : CkKey}
    {ck state : CheckpointState} (hget : r.replica.checkpoints.get? own = some ck)
    (hfull : ck.receivedDigests.size = 2 * r.replica.node.f)
    (hfind : (r.replica.checkpoints.entries.find? fun e => e.1.2 = (ck.seqNo : ℤ)) = some (key, state)) :
    key = own ∧ state = ck ∧ ∃ digest, ck.digest = some digest := by
  have hmem : (own, ck) ∈ r.replica.checkpoints.entries := Dict.get?_eq_some.1 hget
  have hmem' : (key, state) ∈ r.replica.checkpoints.entries := List.mem_of_find?_eq_some hfind
  have hc := h.counts _ hmem
  have hcomplete : ck.digest ≠ none := by
    intro hnone
    have hsize : ck.receivedDigests.size = 0 := by
      rw [(hc.opened hnone).1]
      rfl
    omega
  obtain ⟨digest, hd⟩ := Option.ne_none_iff_exists'.1 hcomplete
  have hend : key.2 = (ck.seqNo : ℤ) := by
    have := List.find?_some hfind
    exact of_decide_eq_true this
  have hown := (hc.complete digest hd).1
  have hends := hc.ends
  have hends' := (h.counts _ hmem').ends
  dsimp only at hown hends hends'
  have hkey : key = own := Prod.ext (by omega) (by omega)
  subst hkey
  exact ⟨rfl, r.replica.checkpoints.entry_unique hmem' hmem, digest, hd⟩

/-- **A checkpoint that becomes stable keeps the invariant and raises the water mark.** -/
theorem Tallied.makeStable (h : Tallied env D r) (hf : 0 < r.replica.node.f) (hseq : InSequence r.history)
    {own key : CkKey} {ck state : CheckpointState}
    (hg : Grows r ⟨r.replica.makeStable env ck.seqNo key state, r.taken⟩)
    (hget : r.replica.checkpoints.get? own = some ck) (hfull : ck.receivedDigests.size = 2 * r.replica.node.f)
    (hfind : (r.replica.checkpoints.entries.find? fun e => e.1.2 = (ck.seqNo : ℤ)) = some (key, state)) :
    Tallied env D ⟨r.replica.makeStable env ck.seqNo key state, r.taken⟩ ∧ r.replica.h ≤ ck.seqNo := by
  obtain ⟨rfl, rfl, digest, hd⟩ := h.stable_is_own hf hget hfull hfind
  have hmem : (key, state) ∈ r.replica.checkpoints.entries := Dict.get?_eq_some.1 hget
  have hkey : key ∈ r.replica.checkpoints.keys := List.mem_map_of_mem (f := Prod.fst) hmem
  have hc := h.counts _ hmem
  obtain ⟨hend, hsent, hreceived⟩ := hc.complete digest hd
  have hle := hc.seqNo_le
  dsimp only at hend hsent hreceived hle
  have hlow := h.h_le_end key hkey
  -- the intervals that stay begin no earlier, and so end no earlier
  have hstay : ∀ k ∈ (r.replica.makeStable env state.seqNo key state).checkpoints.keys,
      k ∈ r.replica.checkpoints.keys ∧ key.1 ≤ k.1 := by
    intro k hk
    obtain ⟨hk, hnot⟩ := (Replica.mem_keys_makeStable hkey).1 hk
    refine ⟨hk, ?_⟩
    obtain ⟨e, he, rfl⟩ := List.mem_map.1 hk
    obtain ⟨-, hafter⟩ := Replica.around_found hfind
    refine hafter e he fun hin => hnot (List.mem_map.2 ⟨e, ?_, rfl⟩)
    simpa using hin
  refine ⟨⟨fun e he => ?_, fun k hk k' hk' => h.unique k (hstay k hk).1 k' (hstay k' hk').1, fun k hk => ?_, hle, rfl,
    fun _ => ⟨fun p hp hpn => ?_, key.1, digest, ?_, ?_⟩⟩, by omega⟩
  · rcases SortedDict.mem_set.1 (SortedDict.mem_eraseAll.1 he).1 with rfl | ⟨he, -⟩
    · have hc := hc.grows hg le_rfl fun _ => rfl
      exact ⟨hc.ends, hc.start_le, hc.seqNo_le, hc.last, hc.opened, hc.complete⟩
    · exact (h.counts e he).grows hg le_rfl fun _ => rfl
  · obtain ⟨hk, hstart⟩ := hstay k hk
    obtain ⟨e, he, rfl⟩ := List.mem_map.1 hk
    have h1 := (h.counts e he).ends
    have h2 := hc.ends
    change (state.seqNo : ℤ) ≤ e.1.2
    dsimp only at h2
    omega
  · exact hseq.mem_ordered.2 ⟨hp, hpn.trans hle⟩
  · refine hg.emitted ?_
    have hn : ((r.replica.makeStable env state.seqNo key state).h : ℤ) = key.2 := hend
    rw [hn]
    exact hsent
  · refine ⟨state.receivedDigests.keys.toFinset, (Dict.size_eq_card _).symm.trans hfull, fun sender hsender => ?_⟩
    obtain ⟨e, he, rfl⟩ := List.mem_map.1 (List.mem_toFinset.1 hsender)
    obtain ⟨c, hDc, h1, h2, h3⟩ := hreceived e he
    exact ⟨c, hDc, h1, h2.trans hend.symm, h3⟩

/-! ## Runs -/

/-- no batch is removed -/
theorem not_removes {s s' : Replica ω σ τ} {key : TPCKey} (h : Replica.Kept s.ordering s'.ordering) :
    ¬ Removes s s' key := by
  rintro (⟨h1, h2⟩ | ⟨h1, h2⟩ | ⟨h1, h2⟩ | ⟨h1, h2⟩)
  · exact h2 (h.sentPrePrepares key h1)
  · exact h2 (h.prePrepares key h1)
  · exact h2 (h.prepares key h1)
  · exact h2 (h.commits key h1)

/-- **Every write of the code keeps the invariant.** -/
theorem Tallied.write (h : Tallied env D r) (hf : 0 < r.replica.node.f) (hseq : InSequence r.history)
    {s' : Replica ω σ τ} (hw : Replica.ReplicaWrite env D r.replica s') :
    Tallied env D ⟨s', r.taken⟩ ∧ Advances env D r ⟨s', r.taken⟩ := by
  have hg := grows_of_write hw
  cases hw with
  | quiet _ hstep hmarks hkept =>
    have ht := h.congr hg hmarks (numbers_of_quiet hstep.1 hkept).1
    refine ⟨ht, ht.advances (congrArg (fun m => m.2.1) hmarks).ge fun key hkey => absurd hkey (not_removes hkept)⟩
  | order key pp hpp _ hnew hprev =>
    have hkey : key = (r.replica.node.viewNo, r.replica.lastOrderedPPSeqNo + 1) := hseq.next_ordered hpp hnew hprev
    have hno : pp.ppSeqNo = key.2 := congrArg Prod.snd hpp.key_eq
    have ht := h.order rfl hg (hno.trans (congrArg Prod.snd hkey)) hno.symm
    obtain ⟨state, outBox, -, he⟩ := Replica.recordInCheckpoint_eq env (r.replica.orderBatch key pp) pp.ppSeqNo pp.digest
    refine ⟨ht, ht.advances ?_ fun k hk => ?_⟩
    · rw [he]
      exact le_rfl
    · change Removes r.replica (Replica.recordInCheckpoint _ _ _ _) k at hk
      rw [he] at hk
      rcases hk with ⟨h1, h2⟩ | ⟨h1, h2⟩ | ⟨h1, h2⟩ | ⟨h1, h2⟩ <;> exact absurd h1 h2
  | receiveDigest ck sender state hD hget hown =>
    have ht := h.receiveDigest hg hD hget hown
    refine ⟨ht, ht.advances le_rfl fun k hk => ?_⟩
    rcases hk with ⟨h1, h2⟩ | ⟨h1, h2⟩ | ⟨h1, h2⟩ | ⟨h1, h2⟩ <;> exact absurd h1 h2
  | makeStable own ck key state hget hfull hfind =>
    obtain ⟨ht, hlow⟩ := h.makeStable hf hseq hg hget hfull hfind
    exact ⟨ht, ht.advances hlow fun k hk => removes_makeStable hk⟩

/-- a write of the code with what it can do to the water marks -/
def AdvancingWrite (env : Env ω σ τ) (D : InMsg → Prop) (r r' : RunningReplica ω σ τ) : Prop :=
  Replica.ReplicaWrite env D r.replica r'.replica ∧ r'.taken = r.taken ∧ Advances env D r r'

theorem Tallied.writes (h : Tallied env D r) (hf : 0 < r.replica.node.f) (hseq : InSequence r.history)
    {s' : Replica ω σ τ} (hw : ReflTransGen (Replica.ReplicaWrite env D) r.replica s') :
    InSequence (history ⟨s', r.taken⟩) ∧ s'.node.f = r.replica.node.f ∧ Tallied env D ⟨s', r.taken⟩ ∧
      ReflTransGen (AdvancingWrite env D) r ⟨s', r.taken⟩ := by
  induction hw with
  | refl => exact ⟨hseq, rfl, h, ReflTransGen.refl⟩
  | tail _ hstep ih =>
    obtain ⟨ihseq, ihf, iht, ihw⟩ := ih
    have hwrites := ReflTransGen.single hstep
    obtain ⟨ht, hadv⟩ := iht.write (ihf ▸ hf) ihseq hstep
    refine ⟨ihseq.steps (D := D) ?_, ?_, ht, ihw.tail ⟨hstep, rfl, hadv⟩⟩
    · exact (Replica.ordering_of_writes hwrites).lift (fun c => OrderingState.after c r.taken) fun _ _ hs =>
        hs.after r.taken
    · exact (congrArg ReplicaConfig.f (Replica.cfg_of_writes hwrites)).trans ihf

/-- what is gone in the end went at some step -/
theorem Removes.of_trans {s s' s'' : Replica ω σ τ} {key : TPCKey} (h : Removes s s'' key) :
    Removes s s' key ∨ Removes s' s'' key := by
  have hgone : ∀ {a b c : Prop}, a ∧ ¬ c → a ∧ ¬ b ∨ b ∧ ¬ c := by
    rintro a b c ⟨ha, hc⟩
    by_cases hb : b
    · exact Or.inr ⟨hb, hc⟩
    · exact Or.inl ⟨ha, hb⟩
  rcases h with h | h | h | h
  · exact (hgone h).imp Or.inl Or.inl
  · exact (hgone h).imp (Or.inr ∘ Or.inl) (Or.inr ∘ Or.inl)
  · exact (hgone h).imp (Or.inr ∘ Or.inr ∘ Or.inl) (Or.inr ∘ Or.inr ∘ Or.inl)
  · exact (hgone h).imp (Or.inr ∘ Or.inr ∘ Or.inr) (Or.inr ∘ Or.inr ∘ Or.inr)

/-- what the node changes at an input before the replica's code runs -/
def arrives (env : Env ω σ τ) (r : RunningReplica ω σ τ) : ReplicaInput ω σ τ → RunningReplica ω σ τ
  | .serviceQueues _ _ perfCounter time =>
    { r with replica := { r.replica with perfCounter := perfCounter, time := time } }
  | .processStashedOutOfOrderCommits _ => r
  | i => r.input env i

/-- it changes neither what was emitted nor the 3-phase data -/
theorem arrives_spec (env : Env ω σ τ) (r : RunningReplica ω σ τ) (i : ReplicaInput ω σ τ) :
    Grows r (r.arrives env i) ∧ (r.arrives env i).replica.marks = r.replica.marks ∧
      (r.arrives env i).replica.lastOrderedPPSeqNo = r.replica.lastOrderedPPSeqNo ∧
      Replica.Kept r.replica.ordering (r.arrives env i).replica.ordering := by
  cases i with
  | takeFromOutBox =>
    unfold arrives RunningReplica.input
    dsimp only
    cases hout : r.replica.outBox with
    | nil => exact ⟨⟨rfl, fun _ hm => hm, fun _ hk => hk⟩, rfl, rfl, .of_eq rfl⟩
    | cons m rest =>
      refine ⟨⟨rfl, fun m' hm => ?_, fun _ hk => hk⟩, rfl, rfl, .of_eq rfl⟩
      unfold emitted at hm ⊢
      rw [hout] at hm
      simpa using hm
  | _ => exact ⟨⟨rfl, fun _ hm => hm, fun _ hk => hk⟩, rfl, rfl, .of_eq rfl⟩

/-- the invariant of a run with a positive number of failures to tolerate -/
structure StableInv (env : Env ω σ τ) (D : InMsg → Prop) (r : RunningReplica ω σ τ) : Prop where
  inv : r.Inv D
  f_pos : 0 < r.replica.node.f
  tallied : Tallied env D r

/-- **Every input keeps the invariant, write by write.** -/
theorem StableInv.input (h : StableInv env D r) (i : ReplicaInput ω σ τ) (hD : ∀ m, i = .receive m → D m) :
    StableInv env D (r.input env i) ∧ Advances env D r (r.arrives env i) ∧
      ReflTransGen (AdvancingWrite env D) (r.arrives env i) (r.input env i) := by
  obtain ⟨hg, hmarks, hlast, hkept⟩ := arrives_spec env r i
  have ht := h.tallied.congr hg hmarks hlast
  have hadv : Advances env D r (r.arrives env i) :=
    ht.advances (congrArg (fun m => m.2.1) hmarks).ge fun key hkey => absurd hkey (not_removes hkept)
  have hf : 0 < (r.arrives env i).replica.node.f := hg.f_eq ▸ h.f_pos
  have hok := h.inv.ok
  have hrun : (r.input env i).replica.node.f = (r.arrives env i).replica.node.f ∧ Tallied env D (r.input env i) ∧
      ReflTransGen (AdvancingWrite env D) (r.arrives env i) (r.input env i) := by
    cases i with
    | serviceQueues fuel limit perfCounter time =>
      have hok' : Replica.Ok D { r.replica with perfCounter := perfCounter, time := time } := ⟨hok.held, hok.inOneView⟩
      exact (ht.writes hf h.inv.inSequence (Replica.serviceQueues_writes env hok'.ready fuel limit).steps).2
    | processStashedOutOfOrderCommits fuel =>
      exact (ht.writes hf h.inv.inSequence (Replica.processStashedOutOfOrderCommits_writes env hok.ready fuel).steps).2
    | receive m => exact ⟨rfl, ht, ReflTransGen.refl⟩
    | nodeChanged requests dbs suspicions => exact ⟨rfl, ht, ReflTransGen.refl⟩
    | takeFromOutBox => exact ⟨rfl, ht, ReflTransGen.refl⟩
  obtain ⟨hf', ht', hwrites⟩ := hrun
  exact ⟨⟨h.inv.input i hD, hf'.symm ▸ hf, ht'⟩, hadv, hwrites⟩

theorem StableInv.run (h : StableInv env D r) {inputs : List (ReplicaInput ω σ τ)}
    (hD : ∀ m, .receive m ∈ inputs → D m) : StableInv env D (r.run env inputs) := by
  induction inputs generalizing r with
  | nil => exact h
  | cons i inputs ih =>
    exact ih (h.input i fun m hm => hD m (hm ▸ List.mem_cons_self)).1 fun m hm => hD m (List.mem_cons_of_mem _ hm)

/-- what one write after the other can do is what a single one can -/
theorem advances_of_writes (h : Advances env D r r') {r'' : RunningReplica ω σ τ} (ht : Tallied env D r'')
    (hw : ReflTransGen (AdvancingWrite env D) r' r'') : Advances env D r r'' := by
  suffices hall : r.replica.h ≤ r''.replica.h ∧ ∀ key, Removes r.replica r''.replica key → key.2 ≤ r''.replica.h from
    ht.advances hall.1 hall.2
  clear ht
  induction hw with
  | refl => exact ⟨h.low, h.removed⟩
  | tail _ hstep ih =>
    obtain ⟨-, -, hadv⟩ := hstep
    refine ⟨ih.1.trans hadv.low, fun key hkey => ?_⟩
    rcases hkey.of_trans with hkey | hkey
    · exact (ih.2 key hkey).trans hadv.low
    · exact hadv.removed key hkey

theorem stableInv_init (D : InMsg → Prop) (env : Env ω σ τ) (node : Node ω σ τ) (hpart : node.isParticipating = true)
    (hf : 0 < node.f) (instId : ℕ) (isMaster : Bool) (primaryName : Option RepName) :
    StableInv env D ⟨Replica.init env node instId isMaster primaryName, []⟩ := by
  refine ⟨inv_init D env node hpart instId isMaster primaryName, hf, fun e he => ?_, fun k hk => ?_, fun k hk => ?_,
    le_rfl, ?_, fun hpos => ?_⟩
  · cases he
  · cases hk
  · cases hk
  · exact (Nat.zero_add _).symm
  · exact absurd hpos (lt_irrefl 0)

/-- the message was among the inputs -/
def Delivered (inputs : List (ReplicaInput ω σ τ)) (m : InMsg) : Prop := .receive m ∈ inputs

end RunningReplica

/-- **Stable checkpoints are justified.** Whatever a participating replica receives: in every state `H` is
`h + LOG_SIZE`, and `h`, unless it is 0, is justified by messages delivered so far. At every input the code makes
writes that never lower `h`, raise it to justified numbers only, and remove 3-phase data up to `h` only; and so does
the input as a whole. -/
theorem stable_checkpoints_justified (env : Env ω σ τ) (node : Node ω σ τ) (hpart : node.isParticipating = true)
    (hf : 0 < node.f) (instId : ℕ) (isMaster : Bool) (primaryName : Option RepName)
    (inputs : List (ReplicaInput ω σ τ)) :
    let r := RunningReplica.run env ⟨Replica.init env node instId isMaster primaryName, []⟩ inputs
    r.replica.H = r.replica.h + env.LOG_SIZE ∧
      (0 < r.replica.h → RunningReplica.Justified (RunningReplica.Delivered inputs) r r.replica.h) ∧
      ∀ i, RunningReplica.Advances env (RunningReplica.Delivered (inputs ++ [i])) r (r.input env i) ∧
        RunningReplica.Advances env (RunningReplica.Delivered (inputs ++ [i])) r (r.arrives env i) ∧
        ReflTransGen (RunningReplica.AdvancingWrite env (RunningReplica.Delivered (inputs ++ [i]))) (r.arrives env i)
          (r.input env i) := by
  dsimp only
  have hrun : ∀ D : InMsg → Prop, (∀ m, .receive m ∈ inputs → D m) → RunningReplica.StableInv env D
      (RunningReplica.run env ⟨Replica.init env node instId isMaster primaryName, []⟩ inputs) := fun D hD =>
    (RunningReplica.stableInv_init D env node hpart hf instId isMaster primaryName).run hD
  have hnow := hrun (RunningReplica.Delivered inputs) fun _ hm => hm
  refine ⟨hnow.tallied.high, hnow.tallied.justified, fun i => ?_⟩
  have hbefore := hrun (RunningReplica.Delivered (inputs ++ [i])) fun _ hm =>
    List.mem_append_left _ hm
  obtain ⟨hafter, harrives, hwrites⟩ := hbefore.input i fun m hm => List.mem_append_right _ (List.mem_singleton.2 hm.symm)
  exact ⟨RunningReplica.advances_of_writes harrives hafter.tallied hwrites, harrives, hwrites⟩

/-! ## Witness -/

namespace FourNodes

/-- Beta orders a batch, and two nodes have its digest for the checkpoint that the batch completes -/
def stableCheckpoint : List (ReplicaInput Bool ℕ ReqKey) :=
  [.receive (.threePhase (.prePrepare (prePrepare 1 (request 1 "a"))) "Alpha")] ++ votesFor 1 (request 1 "a") ++
  [.receive (.checkpoint ⟨0, 0, 1, 1, "a"⟩ "Alpha"), .serviceQueues 10 none 0 0,
    .receive (.checkpoint ⟨0, 0, 1, 1, "a"⟩ "Gamma"), .serviceQueues 10 none 0 0]

end FourNodes

open FourNodes in
theorem stable_checkpoints_justified_beta :
    (RunningReplica.run (env 1) ⟨Replica.init (env 1) (twoRequests "Beta") 0 true (some primary), []⟩
      stableCheckpoint).replica.h = 1 ∧
    RunningReplica.Justified (RunningReplica.Delivered stableCheckpoint)
      (RunningReplica.run (env 1) ⟨Replica.init (env 1) (twoRequests "Beta") 0 true (some primary), []⟩
        stableCheckpoint) 1 := by
  have hh : (RunningReplica.run (env 1) ⟨Replica.init (env 1) (twoRequests "Beta") 0 true (some primary), []⟩
      stableCheckpoint).replica.h = 1 := by decide +kernel
  obtain ⟨-, hjustified, -⟩ := stable_checkpoints_justified (env 1) (twoRequests "Beta") rfl (by decide) 0 true
    (some primary) stableCheckpoint
  rw [hh] at hjustified
  exact ⟨hh, hjustified Nat.one_pos⟩

end Plenum
