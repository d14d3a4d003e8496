/-
The intervals of the checkpoints of a replica that orders batches and catches up.

- `Replica.Reached`: a batch number from which ordering can go on without opening an interval at a wrong place: a
  multiple of `CHK_FREQ`, a number up to the low water mark, or one inside an interval that is there.
- `InBlocks`: the invariant. Every interval is a block of `CHK_FREQ` batches, and what can be ordered next follows a
  number that is reached.
- `InBlocks.write`: every write of the code keeps it; `InBlocks.event` says so for everything that happens to a replica
  if catching up moves to numbers that are reached only.
- `checkpoints_aligned`: so the intervals are aligned in every state of such a run.
-/
import Mathlib
import Plenum.Core.Intervals
import Plenum.Core.Run
import Plenum.Server.InSequence
import Plenum.Server.PrimaryChange

namespace Plenum

open Plenum.Core Plenum.Core.Exec
open Relation (ReflTransGen)

variable {ω σ τ : Type} {env : Env ω σ τ} {D : InMsg → Prop}

/-! ## What a write outside the checkpoints does to the numbers of the batches -/

/-- a PRE-PREPARE is held under the key -/
def OrderingState.HoldsKey (c : OrderingState ω) (key : TPCKey) : Prop := ∃ pp, c.Holds key pp

theorem OrderingState.holdsKey_iff {c : OrderingState ω} {key : TPCKey} :
    c.HoldsKey key ↔ c.sentPrePrepares.contains key = true ∨ c.prePrepares.contains key = true := by
  unfold HoldsKey Holds PrePrepareLog.contains Dict.contains
  rw [Option.isSome_iff_exists, Option.isSome_iff_exists, ← exists_or]
  rfl

theorem OrderingState.holdsKey_congr {c c' : OrderingState ω} (hsent : c'.sentPrePrepares = c.sentPrePrepares)
    (hreceived : c'.prePrepares = c.prePrepares) (key : TPCKey) : c'.HoldsKey key ↔ c.HoldsKey key := by
  rw [holdsKey_iff, holdsKey_iff, hsent, hreceived]

theorem Replica.Kept.holdsKey {c c' : OrderingState ω} (h : Replica.Kept c c') {key : TPCKey} (hk : c.HoldsKey key) :
    c'.HoldsKey key := by
  rw [OrderingState.holdsKey_iff] at hk ⊢
  exact hk.imp (h.sentPrePrepares key) (h.prePrepares key)

/-- a PRE-PREPARE of the current view joins those that are held -/
structure Joins (c c' : OrderingState ω) (key : TPCKey) : Prop where
  view : key.1 = c.cfg.viewNo
  next : key.2 = c.lastPrePrepareSeqNo + 1 ∨ c.IsNext key.2
  lastPrePrepareSeqNo : c'.lastPrePrepareSeqNo = max c.lastPrePrepareSeqNo key.2
  held : c'.HoldsKey key
  others : ∀ key', c'.HoldsKey key' → key' = key ∨ c.HoldsKey key'

/-- at most one PRE-PREPARE joins, the next one -/
theorem numbers_of_quiet {c c' : OrderingState ω} (h : c' = c ∨ OrderingStep D c c') (hkept : Replica.Kept c c') :
    c'.lastOrderedPPSeqNo = c.lastOrderedPPSeqNo ∧
      ((c'.lastPrePrepareSeqNo = c.lastPrePrepareSeqNo ∧ ∀ key, c'.HoldsKey key → c.HoldsKey key) ∨
        ∃ key, Joins c c' key) := by
  rcases h with rfl | h
  · exact ⟨rfl, Or.inl ⟨rfl, fun _ hk => hk⟩⟩
  cases h with
  | sendPrePrepare pp rejects _ _ _ _ hview hno _ =>
    refine ⟨rfl, Or.inr ⟨pp.key, hview, Or.inl hno, ?_, ⟨pp, Or.inl ?_⟩, fun key hk => ?_⟩⟩
    · exact (max_eq_right (by change _ ≤ pp.ppSeqNo; omega)).symm
    · rw [PrePrepareLog.get?_add, if_pos rfl]
    · obtain ⟨pp', hk | hk⟩ := hk
      · rw [PrePrepareLog.get?_add] at hk
        split_ifs at hk with he
        · exact Or.inl he
        · exact Or.inr ⟨pp', Or.inl hk⟩
      · exact Or.inr ⟨pp', Or.inr hk⟩
  | acceptPrePrepare pp sender _ _ _ hview hnext _ =>
    refine ⟨rfl, Or.inr ⟨pp.key, hview, Or.inr hnext, rfl, ⟨pp, Or.inr ?_⟩, fun key hk => ?_⟩⟩
    · rw [PrePrepareLog.get?_add, if_pos rfl]
    · obtain ⟨pp', hk | hk⟩ := hk
      · exact Or.inr ⟨pp', Or.inl hk⟩
      · rw [PrePrepareLog.get?_add] at hk
        split_ifs at hk with he
        · exact Or.inl he
        · exact Or.inr ⟨pp', Or.inr hk⟩
  | order key pp _ _ _ _ =>
    -- a batch would be ordered
    have := congrArg List.length hkept.ordered
    simp at this
  | stabilise cks seqNo keys _ _ _ =>
    refine ⟨rfl, Or.inl ⟨rfl, fun key hk => ?_⟩⟩
    obtain ⟨pp', hk | hk⟩ := hk <;> rw [PrePrepareLog.get?_eraseAll] at hk <;> split_ifs at hk
    · exact ⟨pp', Or.inl hk⟩
    · exact ⟨pp', Or.inr hk⟩
  | _ => exact ⟨rfl, Or.inl ⟨rfl, fun _ hk => hk⟩⟩

namespace Replica

variable {s s' : Replica ω σ τ}

/-! ## The invariant -/

/-- ordering can go on after batch `q` without opening an interval at a wrong place -/
def Reached (env : Env ω σ τ) (s : Replica ω σ τ) (q : ℕ) : Prop :=
  env.CHK_FREQ ∣ q ∨ q ≤ s.h ∨ ∃ key ∈ s.checkpoints.keys, Within key q

/-- the batch after `q` is passed over: it is neither held nor can it come any more -/
def Passed (s : Replica ω σ τ) (q : ℕ) : Prop :=
  q < s.lastOrderedPPSeqNo ∧ q < s.lastPrePrepareSeqNo ∧ ∀ v, ¬ s.ordering.HoldsKey (v, q + 1)

/-- the batch before `key` is reached or held -/
def Preceded (env : Env ω σ τ) (s : Replica ω σ τ) (key : TPCKey) : Prop :=
  ∃ q, key.2 = q + 1 ∧ (s.Reached env q ∨ ∃ v ≤ key.1, s.ordering.HoldsKey (v, q))

structure InBlocks (env : Env ω σ τ) (s : Replica ω σ τ) : Prop where
  blocks : ∀ key ∈ s.checkpoints.keys, ∃ j, key = block env.CHK_FREQ j
  ends : ∀ key ∈ s.checkpoints.keys, (s.h : ℤ) ≤ key.2
  counted : ∀ ck ∈ s.checkpoints.values, ck.seqNo ≤ s.lastOrderedPPSeqNo ∧ ck.seqNo ≤ s.lastPrePrepareSeqNo
  h_dvd : env.CHK_FREQ ∣ s.h
  h_le : s.h ≤ s.lastOrderedPPSeqNo ∧ s.h ≤ s.lastPrePrepareSeqNo
  ordered : ∀ k ∈ s.ordered, (s.Reached env k.2 ∨ s.Passed k.2) ∧ k.2 ≤ s.lastOrderedPPSeqNo
  lastOrdered : s.Reached env s.lastOrderedPPSeqNo
  lastPrePrepare : s.Reached env s.lastPrePrepareSeqNo ∨ ∃ v, s.ordering.HoldsKey (v, s.lastPrePrepareSeqNo)
  held : ∀ key, s.ordering.HoldsKey key → s.h < key.2 ∧ key.2 ≤ s.lastPrePrepareSeqNo ∧ key.1 ≤ s.node.viewNo ∧
    (key ∈ s.ordered ∨ s.Preceded env key)

/-- what is reached depends on the checkpoints and the low water mark only -/
theorem Reached.congr {q : ℕ} (h : s.Reached env q) (hmarks : s'.marks = s.marks) : s'.Reached env q := by
  simp only [marks, Prod.mk.injEq] at hmarks
  obtain ⟨h1, h2, -⟩ := hmarks
  rw [Reached, h1, h2]
  exact h

/-- what a write outside the checkpoints leaves as it is -/
structure SameOrder (s s' : Replica ω σ τ) : Prop where
  marks : s'.marks = s.marks
  ordered : s'.ordered = s.ordered
  lastOrderedPPSeqNo : s'.lastOrderedPPSeqNo = s.lastOrderedPPSeqNo
  viewNo : s.node.viewNo ≤ s'.node.viewNo
  held : ∀ key, s.ordering.HoldsKey key → s'.ordering.HoldsKey key

theorem SameOrder.checkpoints (h : SameOrder s s') : s'.checkpoints = s.checkpoints := congrArg Prod.fst h.marks

theorem SameOrder.h_eq (h : SameOrder s s') : s'.h = s.h := congrArg (fun m => m.2.1) h.marks

theorem SameOrder.preceded (h : SameOrder s s') {key : TPCKey} (hp : s.Preceded env key) : s'.Preceded env key := by
  obtain ⟨q, hq, hr | ⟨v, hv, hk⟩⟩ := hp
  · exact ⟨q, hq, Or.inl (hr.congr h.marks)⟩
  · exact ⟨q, hq, Or.inr ⟨v, hv, h.held _ hk⟩⟩

/-- the invariant survives if no PRE-PREPARE comes or goes -/
theorem InBlocks.same (h : InBlocks env s) (hs : SameOrder s s')
    (hL : s'.lastPrePrepareSeqNo = s.lastPrePrepareSeqNo)
    (hsub : ∀ key, s'.ordering.HoldsKey key → s.ordering.HoldsKey key) : InBlocks env s' := by
  refine ⟨?_, ?_, ?_, ?_, ?_, fun k hk => ?_, ?_, ?_, fun key hk => ?_⟩
  · rw [hs.checkpoints]; exact h.blocks
  · rw [hs.checkpoints, hs.h_eq]; exact h.ends
  · rw [hs.checkpoints, hs.lastOrderedPPSeqNo, hL]; exact h.counted
  · rw [hs.h_eq]; exact h.h_dvd
  · rw [hs.h_eq, hs.lastOrderedPPSeqNo, hL]; exact h.h_le
  · rw [hs.ordered] at hk
    rw [Passed, hs.lastOrderedPPSeqNo, hL]
    refine (h.ordered k hk).imp (fun hr => hr.imp (fun hr => hr.congr hs.marks) fun hp => ?_) id
    exact ⟨hp.1, hp.2.1, fun v hv => hp.2.2 v (hsub _ hv)⟩
  · rw [hs.lastOrderedPPSeqNo]; exact h.lastOrdered.congr hs.marks
  · rw [hL]; exact h.lastPrePrepare.imp (fun hr => hr.congr hs.marks) fun ⟨v, hv⟩ => ⟨v, hs.held _ hv⟩
  · obtain ⟨h1, h2, h3, h4⟩ := h.held key (hsub key hk)
    rw [hs.h_eq, hL, hs.ordered]
    exact ⟨h1, h2, h3.trans hs.viewNo, h4.imp id hs.preceded⟩

/-- what can join comes after all that is ordered or passed, and is preceded -/
theorem InBlocks.joins (h : InBlocks env s) {key : TPCKey} (hview : key.1 = s.node.viewNo)
    (hnext : key.2 = s.lastPrePrepareSeqNo + 1 ∨ s.ordering.IsNext key.2) :
    s.h < key.2 ∧ s.Preceded env key ∧ ∀ q, s.Passed q → q + 1 ≠ key.2 := by
  rcases hnext with hnext | ⟨m, hm, hmem, hmax⟩
  · refine ⟨?_, ⟨s.lastPrePrepareSeqNo, hnext, h.lastPrePrepare.imp id ?_⟩, fun q hq he => ?_⟩
    · have := h.h_le.2
      omega
    · rintro ⟨v, hv⟩
      obtain ⟨-, -, hle, -⟩ := h.held _ hv
      exact ⟨v, hview ▸ hle, hv⟩
    · have := hq.2.1
      omega
  · have hlast : s.lastOrderedPPSeqNo ≤ m := hmax (Set.mem_insert _ _)
    refine ⟨?_, ⟨m, hm, ?_⟩, fun q hq he => ?_⟩
    · have := h.h_le.1
      omega
    · rcases Set.mem_insert_iff.1 hmem with rfl | ⟨k, pp, hk, rfl⟩
      · exact Or.inl h.lastOrdered
      · obtain ⟨-, -, hle, -⟩ := h.held k ⟨pp, hk⟩
        exact Or.inr ⟨k.1, hview ▸ hle, pp, hk⟩
    · have := hq.1
      omega

/-- the invariant survives if the next PRE-PREPARE joins -/
theorem InBlocks.join (h : InBlocks env s) (hs : SameOrder s s') {new : TPCKey} (hj : Joins s.ordering s'.ordering new) :
    InBlocks env s' := by
  have hL : s'.lastPrePrepareSeqNo = max s.lastPrePrepareSeqNo new.2 := hj.lastPrePrepareSeqNo
  have hle : s.lastPrePrepareSeqNo ≤ s'.lastPrePrepareSeqNo := hL ▸ le_max_left _ _
  obtain ⟨hlow, hpre, hpassed⟩ := h.joins hj.view hj.next
  refine ⟨?_, ?_, ?_, ?_, ?_, fun k hk => ?_, ?_, ?_, fun key hk => ?_⟩
  · rw [hs.checkpoints]; exact h.blocks
  · rw [hs.checkpoints, hs.h_eq]; exact h.ends
  · rw [hs.checkpoints, hs.lastOrderedPPSeqNo]
    exact fun ck hck => ⟨(h.counted ck hck).1, (h.counted ck hck).2.trans hle⟩
  · rw [hs.h_eq]; exact h.h_dvd
  · rw [hs.h_eq, hs.lastOrderedPPSeqNo]
    exact ⟨h.h_le.1, h.h_le.2.trans hle⟩
  · rw [hs.ordered] at hk
    rw [Passed, hs.lastOrderedPPSeqNo]
    refine (h.ordered k hk).imp (fun hr => hr.imp (fun hr => hr.congr hs.marks) fun hp => ?_) id
    refine ⟨hp.1, hp.2.1.trans_le hle, fun v hv => ?_⟩
    rcases hj.others _ hv with he | hv
    · exact hpassed _ hp (congrArg Prod.snd he)
    · exact hp.2.2 v hv
  · rw [hs.lastOrderedPPSeqNo]; exact h.lastOrdered.congr hs.marks
  · rw [hL]
    rcases max_choice s.lastPrePrepareSeqNo new.2 with he | he <;> rw [he]
    · exact h.lastPrePrepare.imp (fun hr => hr.congr hs.marks) fun ⟨v, hv⟩ => ⟨v, hs.held _ hv⟩
    · exact Or.inr ⟨new.1, hj.held⟩
  · rw [hs.h_eq, hs.ordered]
    rcases hj.others key hk with rfl | hk
    · refine ⟨hlow, hL ▸ le_max_right _ _, ?_, Or.inr (hs.preceded hpre)⟩
      have hview : key.1 = s.node.viewNo := hj.view
      exact hview ▸ hs.viewNo
    · obtain ⟨h1, h2, h3, h4⟩ := h.held key hk
      exact ⟨h1, h2.trans hle, h3.trans hs.viewNo, h4.imp id hs.preceded⟩

/-- **A write outside the checkpoints keeps the invariant.** -/
theorem InBlocks.quiet (h : InBlocks env s) (hstep : ReplicaStep D s s') (hmarks : s'.marks = s.marks)
    (hkept : Kept s.ordering s'.ordering) (hview : s'.node.viewNo = s.node.viewNo) : InBlocks env s' := by
  obtain ⟨hlast, hnumbers⟩ := numbers_of_quiet hstep.1 hkept
  have hs : SameOrder s s' := ⟨hmarks, hkept.ordered, hlast, hview.ge, fun _ => hkept.holdsKey⟩
  rcases hnumbers with ⟨hL, hsub⟩ | ⟨new, hj⟩
  · exact h.same hs hL hsub
  · exact h.join hs hj

/-! ## Ordering a batch -/

/-- adding a batch to its checkpoint writes one entry of the checkpoints -/
theorem recordInCheckpoint_eq (env : Env ω σ τ) (s : Replica ω σ τ) (ppSeqNo : ℕ) (digest : String) :
    ∃ state outBox, state.seqNo = ppSeqNo ∧ s.recordInCheckpoint env ppSeqNo digest =
      { s with checkpoints := s.checkpoints.set (extendCheckpoint env ppSeqNo digest s).1 state, outBox := outBox } := by
  have hseqNo := extendCheckpoint_seqNo env s ppSeqNo digest
  unfold recordInCheckpoint
  dsimp only
  split_ifs
  · refine ⟨_, _, ?_, rfl⟩
    exact hseqNo
  · refine ⟨_, s.outBox, ?_, rfl⟩
    exact hseqNo

/-- a batch is added to the first checkpoint whose interval it lies in, or opens one -/
theorem extendCheckpoint_cases (env : Env ω σ τ) (s : Replica ω σ τ) (ppSeqNo : ℕ) (digest : String) :
    (∃ key state, (key, state) ∈ s.checkpoints.entries ∧ Within key ppSeqNo ∧ extendCheckpoint env ppSeqNo digest s =
      (key, { state with digests := state.digests ++ [digest], seqNo := ppSeqNo })) ∨
    ((∀ key ∈ s.checkpoints.keys, ¬ Within key ppSeqNo) ∧ extendCheckpoint env ppSeqNo digest s =
      (((ppSeqNo : ℤ), (ppSeqNo : ℤ) + env.CHK_FREQ - 1), ⟨ppSeqNo, [digest], none, Dict.empty, false⟩)) := by
  unfold extendCheckpoint
  cases hf : s.checkpoints.entries.find? fun e => e.1.1 ≤ (ppSeqNo : ℤ) ∧ (ppSeqNo : ℤ) ≤ e.1.2 with
  | some e =>
    obtain ⟨key, state⟩ := e
    have := List.find?_some hf
    exact Or.inl ⟨key, state, List.mem_of_find?_eq_some hf, of_decide_eq_true this, rfl⟩
  | none =>
    refine Or.inr ⟨fun key hkey hw => ?_, rfl⟩
    obtain ⟨e, he, rfl⟩ := List.mem_map.1 hkey
    rw [List.find?_eq_none] at hf
    exact hf e he (decide_eq_true hw)

/-- the interval that the batch goes to -/
theorem extendCheckpoint_key (env : Env ω σ τ) (s : Replica ω σ τ) (ppSeqNo : ℕ) (digest : String) :
    ((extendCheckpoint env ppSeqNo digest s).1 ∈ s.checkpoints.keys ∧
      Within (extendCheckpoint env ppSeqNo digest s).1 ppSeqNo) ∨
    ((extendCheckpoint env ppSeqNo digest s).1 = ((ppSeqNo : ℤ), (ppSeqNo : ℤ) + env.CHK_FREQ - 1) ∧
      ∀ key ∈ s.checkpoints.keys, ¬ Within key ppSeqNo) := by
  rcases extendCheckpoint_cases env s ppSeqNo digest with ⟨key, state, hmem, hw, he⟩ | ⟨hnone, he⟩ <;> rw [he]
  · exact Or.inl ⟨List.mem_map.2 ⟨_, hmem, rfl⟩, hw⟩
  · exact Or.inr ⟨rfl, hnone⟩

theorem mem_keys_set {d : SortedDict (κ := CkKey) Prod.fst CheckpointState} {k key : CkKey} {v : CheckpointState} :
    key ∈ (d.set k v).keys ↔ key = k ∨ key ∈ d.keys := by
  unfold Dict.keys
  constructor
  · intro h
    obtain ⟨e, he, rfl⟩ := List.mem_map.1 h
    rcases SortedDict.mem_set.1 he with rfl | ⟨he, -⟩
    · exact Or.inl rfl
    · exact Or.inr (List.mem_map_of_mem he)
  · intro h
    by_cases hk : key = k
    · exact List.mem_map.2 ⟨(k, v), SortedDict.mem_set.2 (Or.inl rfl), hk.symm⟩
    · obtain ⟨e, he, rfl⟩ := List.mem_map.1 (h.resolve_left hk)
      exact List.mem_map.2 ⟨e, SortedDict.mem_set.2 (Or.inr ⟨he, hk⟩), rfl⟩

/-- the interval of a batch after a number that is reached is a block -/
theorem InBlocks.block_of_reached (h : InBlocks env s) {q : ℕ} (digest : String) (hq : s.Reached env q)
    (hlow : s.h < q + 1) : ∃ j, (extendCheckpoint env (q + 1) digest s).1 = block env.CHK_FREQ j := by
  rcases extendCheckpoint_key env s (q + 1) digest with ⟨hkey, -⟩ | ⟨hkey, hnone⟩
  · exact h.blocks _ hkey
  · have hdvd : env.CHK_FREQ ∣ q := by
      rcases hq with hq | hq | ⟨key, hmem, hw⟩
      · exact hq
      · rw [le_antisymm hq (Nat.lt_succ_iff.1 hlow)]
        exact h.h_dvd
      · obtain ⟨j, rfl⟩ := h.blocks key hmem
        exact (within_succ_or_dvd hw).resolve_left (hnone _ hmem)
    exact ⟨_, hkey.trans (block_of_dvd hdvd)⟩

/-- what ordering the batch `key` and adding it to the interval `iv` does -/
structure Records (s s' : Replica ω σ τ) (key : TPCKey) (iv : CkKey) : Prop where
  checkpoints : ∃ state, state.seqNo = key.2 ∧ s'.checkpoints = s.checkpoints.set iv state
  h_eq : s'.h = s.h
  ordered : s'.ordered = s.ordered ++ [key]
  lastOrderedPPSeqNo : s'.lastOrderedPPSeqNo = max s.lastOrderedPPSeqNo key.2
  lastPrePrepareSeqNo : s'.lastPrePrepareSeqNo = s.lastPrePrepareSeqNo
  viewNo : s'.node.viewNo = s.node.viewNo
  held : ∀ k, s'.ordering.HoldsKey k ↔ s.ordering.HoldsKey k

theorem extendCheckpoint_orderBatch (env : Env ω σ τ) (key : TPCKey) (pp : PrePrepare) (ppSeqNo : ℕ) (digest : String) :
    extendCheckpoint env ppSeqNo digest (s.orderBatch key pp) = extendCheckpoint env ppSeqNo digest s := by
  unfold extendCheckpoint
  rfl

theorem records_order (env : Env ω σ τ) {key : TPCKey} {pp : PrePrepare} (hpp : s.ordering.Holds key pp)
    (hnew : key ∉ s.ordered) : Records s ((s.orderBatch key pp).recordInCheckpoint env pp.ppSeqNo pp.digest) key
      (extendCheckpoint env key.2 pp.digest s).1 := by
  have hadd : (s.addToOrdered key).ordered = s.ordered ++ [key] := if_neg hnew
  have hseqNo : pp.ppSeqNo = key.2 := congrArg Prod.snd hpp.key_eq
  obtain ⟨state, outBox, hstate, he⟩ := recordInCheckpoint_eq env (s.orderBatch key pp) pp.ppSeqNo pp.digest
  rw [he, extendCheckpoint_orderBatch, hseqNo]
  have hsent : ((s.orderBatch key pp).ordering).sentPrePrepares = s.ordering.sentPrePrepares := rfl
  have hreceived : ((s.orderBatch key pp).ordering).prePrepares = s.ordering.prePrepares := rfl
  exact ⟨⟨state, hstate.trans hseqNo, rfl⟩, rfl, hadd, addToOrdered_lastOrderedPPSeqNo key, rfl, rfl,
    OrderingState.holdsKey_congr hsent hreceived⟩

theorem Records.reached {key : TPCKey} {iv : CkKey} (hs : Records s s' key iv) {q : ℕ} (hq : s.Reached env q) :
    s'.Reached env q := by
  obtain ⟨state, -, hck⟩ := hs.checkpoints
  rcases hq with hr | hr | ⟨k, hk, hw⟩
  · exact Or.inl hr
  · exact Or.inr (Or.inl (hs.h_eq.symm ▸ hr))
  · exact Or.inr (Or.inr ⟨k, hck ▸ mem_keys_set.2 (Or.inr hk), hw⟩)

/-- a batch in a block can be added to it -/
theorem InBlocks.record (h : InBlocks env s) {key : TPCKey} {j : ℕ} (hs : Records s s' key (block env.CHK_FREQ j))
    (hwithin : Within (block env.CHK_FREQ j) key.2) (hlow : s.h < key.2) (hle : key.2 ≤ s.lastPrePrepareSeqNo) :
    InBlocks env s' := by
  obtain ⟨state, hstate, hck⟩ := hs.checkpoints
  have hnow : s'.Reached env key.2 := Or.inr (Or.inr ⟨_, hck ▸ mem_keys_set.2 (Or.inl rfl), hwithin⟩)
  have hmax : s.lastOrderedPPSeqNo ≤ s'.lastOrderedPPSeqNo := hs.lastOrderedPPSeqNo ▸ le_max_left _ _
  refine ⟨fun k hk => ?_, fun k hk => ?_, fun ck hmem => ?_, ?_, ?_, fun k hk => ?_, ?_, ?_, fun k hk => ?_⟩
  · rw [hck] at hk
    rcases mem_keys_set.1 hk with rfl | hk
    · exact ⟨j, rfl⟩
    · exact h.blocks k hk
  · rw [hck] at hk
    rw [hs.h_eq]
    rcases mem_keys_set.1 hk with rfl | hk
    · have := hwithin.2
      omega
    · exact h.ends k hk
  · rw [hck] at hmem
    rw [hs.lastPrePrepareSeqNo]
    rcases SortedDict.mem_values_set hmem with rfl | hmem
    · rw [hstate, hs.lastOrderedPPSeqNo]
      exact ⟨le_max_right _ _, hle⟩
    · exact ⟨(h.counted ck hmem).1.trans hmax, (h.counted ck hmem).2⟩
  · rw [hs.h_eq]; exact h.h_dvd
  · rw [hs.h_eq, hs.lastPrePrepareSeqNo]
    exact ⟨h.h_le.1.trans hmax, h.h_le.2⟩
  · rw [hs.ordered] at hk
    rcases List.mem_append.1 hk with hk | hk
    · rw [Passed, hs.lastPrePrepareSeqNo]
      refine (h.ordered k hk).imp (fun hr => hr.imp hs.reached fun hp => ?_) fun hle => hle.trans hmax
      exact ⟨hp.1.trans_le hmax, hp.2.1, fun v hv => hp.2.2 v ((hs.held _).1 hv)⟩
    · rw [List.mem_singleton.1 hk, hs.lastOrderedPPSeqNo]
      exact ⟨Or.inl hnow, le_max_right _ _⟩
  · rw [hs.lastOrderedPPSeqNo]
    rcases max_choice s.lastOrderedPPSeqNo key.2 with he | he <;> rw [he]
    · exact hs.reached h.lastOrdered
    · exact hnow
  · rw [hs.lastPrePrepareSeqNo]
    exact h.lastPrePrepare.imp hs.reached fun ⟨v, hv⟩ => ⟨v, (hs.held _).2 hv⟩
  · obtain ⟨h1, h2, h3, h4⟩ := h.held k ((hs.held k).1 hk)
    rw [hs.h_eq, hs.lastPrePrepareSeqNo, hs.viewNo, hs.ordered]
    refine ⟨h1, h2, h3, h4.imp (List.mem_append_left _) ?_⟩
    rintro ⟨q, hq, hr | ⟨v, hv, hv'⟩⟩
    · exact ⟨q, hq, Or.inl (hs.reached hr)⟩
    · exact ⟨q, hq, Or.inr ⟨v, hv, (hs.held _).2 hv'⟩⟩

/-- the batch before one that can be ordered is reached: if it is held, it has been ordered -/
theorem InBlocks.reached_before (h : InBlocks env s) {key : TPCKey} (hheld : s.ordering.HoldsKey key)
    (hnew : key ∉ s.ordered) (hprev : s.ordering.PrevOrdered key) : ∃ q, key.2 = q + 1 ∧ s.Reached env q := by
  obtain ⟨-, -, -, hpre⟩ := h.held key hheld
  obtain ⟨q, hq, hpre⟩ := hpre.resolve_left hnew
  refine ⟨q, hq, ?_⟩
  have hordered : ∀ k ∈ s.ordered, k.2 = q → s.Reached env q := by
    rintro k hk rfl
    refine (h.ordered k hk).1.resolve_right fun hp => hp.2.2 key.1 ?_
    rw [← hq]
    exact hheld
  rcases hpre with hr | ⟨v, hv, hk⟩
  · exact hr
  · rcases hprev with ⟨last, hget, -, hlast⟩ | hall
    · exact hordered last (List.mem_of_getLast? hget) (by omega)
    · obtain ⟨pp, hpp⟩ := hk
      refine hordered _ (hall _ pp hpp ?_) rfl
      rcases Nat.lt_or_eq_of_le hv with hlt | heq
      · exact Or.inl hlt
      · exact Or.inr ⟨heq, by dsimp only; omega⟩

/-- **Ordering a batch keeps the invariant.** -/
theorem InBlocks.order (h : InBlocks env s) (hfreq : 0 < env.CHK_FREQ) {key : TPCKey} {pp : PrePrepare}
    (hpp : s.ordering.Holds key pp) (hnew : key ∉ s.ordered) (hprev : s.ordering.PrevOrdered key) :
    InBlocks env ((s.orderBatch key pp).recordInCheckpoint env pp.ppSeqNo pp.digest) := by
  obtain ⟨hlow, hle, -, -⟩ := h.held key ⟨pp, hpp⟩
  obtain ⟨q, hq, hreached⟩ := h.reached_before ⟨pp, hpp⟩ hnew hprev
  have hs := records_order env hpp hnew
  rw [hq] at hs
  obtain ⟨j, hj⟩ := h.block_of_reached pp.digest hreached (by omega)
  have hwithin : Within (extendCheckpoint env (q + 1) pp.digest s).1 (q + 1) := by
    rcases extendCheckpoint_key env s (q + 1) pp.digest with ⟨-, hw⟩ | ⟨hk, -⟩
    · exact hw
    · rw [hk]
      unfold Within
      dsimp only
      omega
  rw [hj] at hs hwithin
  rw [← hq] at hwithin
  exact h.record hs hwithin hlow hle

/-! ## Checkpoints of other nodes -/

/-- a received digest changes no interval and no count -/
theorem InBlocks.receiveDigest (h : InBlocks env s) {ck : Checkpoint} (sender : NodeName) {state : CheckpointState}
    (hget : s.checkpoints.get? (ck.seqNoStart, ck.seqNoEnd) = some state) :
    InBlocks env (s.receiveDigest ck sender state) := by
  have hmem : ((ck.seqNoStart, ck.seqNoEnd), state) ∈ s.checkpoints.entries := Dict.get?_eq_some.1 hget
  have hkeys : ∀ key, key ∈ (s.receiveDigest ck sender state).checkpoints.keys ↔ key ∈ s.checkpoints.keys := by
    refine fun key => mem_keys_set.trans (or_iff_right_of_imp ?_)
    rintro rfl
    exact List.mem_map.2 ⟨_, hmem, rfl⟩
  have hreached : ∀ {q}, s.Reached env q → (s.receiveDigest ck sender state).Reached env q := by
    rintro q (hr | hr | ⟨k, hk, hw⟩)
    · exact Or.inl hr
    · exact Or.inr (Or.inl hr)
    · exact Or.inr (Or.inr ⟨k, (hkeys k).2 hk, hw⟩)
  refine ⟨fun k hk => h.blocks k ((hkeys k).1 hk), fun k hk => h.ends k ((hkeys k).1 hk), fun c hc => ?_, h.h_dvd, h.h_le,
    fun k hk => (h.ordered k hk).imp (Or.imp hreached id) id, hreached h.lastOrdered, h.lastPrePrepare.imp hreached id,
    fun k hk => ?_⟩
  · rcases SortedDict.mem_values_set hc with rfl | hc
    · exact h.counted state (List.mem_map.2 ⟨_, hmem, rfl⟩)
    · exact h.counted c hc
  · obtain ⟨h1, h2, h3, h4⟩ := h.held k hk
    refine ⟨h1, h2, h3, h4.imp id ?_⟩
    rintro ⟨q, hq, hr⟩
    exact ⟨q, hq, hr.imp hreached id⟩

/-! ## A stable checkpoint -/

/-- the entries of a sorted dictionary around the first one that `p` finds -/
theorem around_found {d : SortedDict (κ := CkKey) Prod.fst CheckpointState} {p : CkKey × CheckpointState → Bool}
    {x : CkKey × CheckpointState} (hfind : d.entries.find? p = some x) :
    (∀ y ∈ d.entries.takeWhile fun e => ! p e, y.1.1 ≤ x.1.1) ∧
      ∀ y ∈ d.entries, y ∉ (d.entries.takeWhile fun e => ! p e) → x.1.1 ≤ y.1.1 := by
  obtain ⟨hx, before, after, he, hbefore⟩ := List.find?_eq_some_iff_append.1 hfind
  have hsorted := d.sorted
  have htake : (d.entries.takeWhile fun e => ! p e) = before := by
    rw [he, List.takeWhile_append_of_pos hbefore, List.takeWhile_cons_of_neg (by simp [hx]), List.append_nil]
  rw [htake]
  rw [he] at hsorted ⊢
  obtain ⟨-, hrest, hcross⟩ := List.pairwise_append.1 hsorted
  refine ⟨fun y hy => hcross y hy x List.mem_cons_self, fun y hy hnot => ?_⟩
  rcases List.mem_cons.1 ((List.mem_append.1 hy).resolve_left hnot) with rfl | hy
  · exact le_rfl
  · exact (List.pairwise_cons.1 hrest).1 y hy

/-- garbage collection removes the PRE-PREPAREs up to the water mark, and no others -/
theorem holdsKey_gcTpc {n : ℕ} {key : TPCKey} :
    (gcTpc n s).ordering.HoldsKey key ↔ s.ordering.HoldsKey key ∧ n < key.2 := by
  have hmem : s.ordering.HoldsKey key → (key ∈ s.gcKeys n ↔ key.2 ≤ n) := by
    rintro ⟨pp, hpp⟩
    unfold gcKeys
    rw [List.mem_filter, decide_eq_true_eq]
    refine and_iff_right (List.mem_append.2 ?_)
    exact hpp.imp (fun h => PrePrepareLog.mem_keys.2 ⟨pp, h⟩) fun h => PrePrepareLog.mem_keys.2 ⟨pp, h⟩
  have hget : ∀ pp, (gcTpc n s).ordering.Holds key pp ↔ key ∉ s.gcKeys n ∧ s.ordering.Holds key pp := by
    intro pp
    change ((s.sentPrePrepares.eraseAll (s.gcKeys n)).get? key = some pp ∨
      (s.prePrepares.eraseAll (s.gcKeys n)).get? key = some pp) ↔ _
    rw [PrePrepareLog.get?_eraseAll, PrePrepareLog.get?_eraseAll]
    by_cases hk : key ∈ s.gcKeys n
    · simp [hk]
    · simp only [hk, if_false, not_false_eq_true, true_and]
      rfl
  constructor
  · rintro ⟨pp, hpp⟩
    obtain ⟨hnot, hold⟩ := (hget pp).1 hpp
    rw [hmem ⟨pp, hold⟩] at hnot
    exact ⟨⟨pp, hold⟩, not_le.1 hnot⟩
  · rintro ⟨⟨pp, hpp⟩, hlt⟩
    refine ⟨pp, (hget pp).2 ⟨?_, hpp⟩⟩
    rw [hmem ⟨pp, hpp⟩]
    exact not_le.2 hlt

/-- which intervals stay when a checkpoint becomes stable -/
theorem mem_keys_makeStable {seqNo : ℕ} {key k : CkKey} {state : CheckpointState} (hkey : key ∈ s.checkpoints.keys) :
    k ∈ (s.makeStable env seqNo key state).checkpoints.keys ↔
      k ∈ s.checkpoints.keys ∧ k ∉ (s.checkpoints.entries.takeWhile fun e => e.1.2 ≠ (seqNo : ℤ)).map Prod.fst := by
  unfold makeStable gcTpc stabilise Dict.keys
  dsimp only
  constructor
  · intro h
    obtain ⟨e, he, rfl⟩ := List.mem_map.1 h
    obtain ⟨he, hnot⟩ := SortedDict.mem_eraseAll.1 he
    refine ⟨?_, hnot⟩
    rcases SortedDict.mem_set.1 he with rfl | ⟨he, -⟩
    · exact hkey
    · exact List.mem_map_of_mem he
  · rintro ⟨h, hnot⟩
    obtain ⟨e, he, rfl⟩ := List.mem_map.1 h
    by_cases hk : e.1 = key
    · exact List.mem_map.2 ⟨_, SortedDict.mem_eraseAll.2 ⟨SortedDict.mem_set.2 (Or.inl rfl), hk ▸ hnot⟩, hk.symm⟩
    · exact List.mem_map.2 ⟨e, SortedDict.mem_eraseAll.2 ⟨SortedDict.mem_set.2 (Or.inr ⟨he, hk⟩), hnot⟩, rfl⟩

/-- what a stable checkpoint at batch `n` does -/
structure Stabilises (env : Env ω σ τ) (s s' : Replica ω σ τ) (n : ℕ) : Prop where
  h_eq : s'.h = n
  dvd : env.CHK_FREQ ∣ n
  above : s.h ≤ n
  le : n ≤ s.lastOrderedPPSeqNo ∧ n ≤ s.lastPrePrepareSeqNo
  kept : ∀ k ∈ s'.checkpoints.keys, k ∈ s.checkpoints.keys ∧ (n : ℤ) ≤ k.2
  removed : ∀ k ∈ s.checkpoints.keys, k ∈ s'.checkpoints.keys ∨ k.2 ≤ n
  counted : ∀ ck ∈ s'.checkpoints.values, ∃ ck' ∈ s.checkpoints.values, ck.seqNo = ck'.seqNo
  ordered : s'.ordered = s.ordered
  lastOrderedPPSeqNo : s'.lastOrderedPPSeqNo = s.lastOrderedPPSeqNo
  lastPrePrepareSeqNo : s'.lastPrePrepareSeqNo = s.lastPrePrepareSeqNo
  viewNo : s'.node.viewNo = s.node.viewNo
  held : ∀ k, s'.ordering.HoldsKey k ↔ s.ordering.HoldsKey k ∧ n < k.2

theorem InBlocks.stabilises_makeStable (h : InBlocks env s) {own key : CkKey} {ck state : CheckpointState}
    (hget : s.checkpoints.get? own = some ck)
    (hfind : (s.checkpoints.entries.find? fun e => e.1.2 = (ck.seqNo : ℤ)) = some (key, state)) :
    Stabilises env s (s.makeStable env ck.seqNo key state) ck.seqNo := by
  have hmem : (key, state) ∈ s.checkpoints.entries := List.mem_of_find?_eq_some hfind
  have hkey : key ∈ s.checkpoints.keys := List.mem_map_of_mem hmem
  have hend : key.2 = (ck.seqNo : ℤ) := by
    have := List.find?_some hfind
    exact of_decide_eq_true this
  obtain ⟨j, hj⟩ := h.blocks key hkey
  have hends : ∀ k ∈ s.checkpoints.keys, (key.1 ≤ k.1 → (ck.seqNo : ℤ) ≤ k.2) ∧ (k.1 ≤ key.1 → k.2 ≤ ck.seqNo) := by
    intro k hk
    obtain ⟨i, rfl⟩ := h.blocks k hk
    rw [← hend, hj]
    exact ⟨block_end_mono, block_end_mono⟩
  obtain ⟨hbefore, hafter⟩ := around_found hfind
  have htake : (s.checkpoints.entries.takeWhile fun e => e.1.2 ≠ (ck.seqNo : ℤ)) =
      s.checkpoints.entries.takeWhile fun e => ! decide (e.1.2 = (ck.seqNo : ℤ)) := by
    congr 1
    funext e
    simp
  have hkeys : ∀ k, k ∈ (s.makeStable env ck.seqNo key state).checkpoints.keys ↔ k ∈ s.checkpoints.keys ∧
      k ∉ (s.checkpoints.entries.takeWhile fun e => e.1.2 ≠ (ck.seqNo : ℤ)).map Prod.fst := fun _ =>
    mem_keys_makeStable hkey
  rw [htake] at hkeys
  refine ⟨rfl, block_dvd (hend.symm.trans (congrArg Prod.snd hj)), ?_,
    h.counted ck (List.mem_map.2 ⟨_, Dict.get?_eq_some.1 hget, rfl⟩), fun k hk => ?_, fun k hk => ?_, fun c hc => ?_, rfl,
    rfl, rfl, rfl, fun k => holdsKey_gcTpc⟩
  · have := h.ends key hkey
    rw [hend] at this
    exact_mod_cast this
  · obtain ⟨hk, hnot⟩ := (hkeys k).1 hk
    refine ⟨hk, (hends k hk).1 ?_⟩
    obtain ⟨e, he, rfl⟩ := List.mem_map.1 hk
    exact hafter e he fun hmem => hnot (List.mem_map_of_mem hmem)
  · by_cases hin : k ∈ (s.checkpoints.entries.takeWhile fun e => ! decide (e.1.2 = (ck.seqNo : ℤ))).map Prod.fst
    · obtain ⟨e, he, rfl⟩ := List.mem_map.1 hin
      exact Or.inr ((hends _ hk).2 (hbefore e he))
    · exact Or.inl ((hkeys k).2 ⟨hk, hin⟩)
  · rcases SortedDict.mem_values_set (SortedDict.mem_values_eraseAll hc) with rfl | hc
    · exact ⟨state, List.mem_map.2 ⟨_, hmem, rfl⟩, rfl⟩
    · exact ⟨c, hc, rfl⟩

theorem Stabilises.reached {n q : ℕ} (hs : Stabilises env s s' n) (hq : s.Reached env q) : s'.Reached env q := by
  rcases hq with hr | hr | ⟨k, hk, hw⟩
  · exact Or.inl hr
  · exact Or.inr (Or.inl (hs.h_eq.symm ▸ hr.trans hs.above))
  · rcases hs.removed k hk with hk | hk
    · exact Or.inr (Or.inr ⟨k, hk, hw⟩)
    · have hle := hw.2.trans hk
      refine Or.inr (Or.inl ?_)
      rw [hs.h_eq]
      exact_mod_cast hle

/-- what was held is held still, or is reached -/
theorem Stabilises.held_or_reached {n v q : ℕ} (hs : Stabilises env s s' n) (hk : s.ordering.HoldsKey (v, q)) :
    s'.Reached env q ∨ s'.ordering.HoldsKey (v, q) := by
  rcases Nat.lt_or_ge n q with hlt | hge
  · exact Or.inr ((hs.held _).2 ⟨hk, hlt⟩)
  · exact Or.inl (Or.inr (Or.inl (hs.h_eq.symm ▸ hge)))

/-- **A stable checkpoint keeps the invariant.** -/
theorem InBlocks.stabilise {n : ℕ} (h : InBlocks env s) (hs : Stabilises env s s' n) : InBlocks env s' := by
  refine ⟨fun k hk => h.blocks k (hs.kept k hk).1, fun k hk => ?_, fun c hc => ?_, ?_, ?_, fun k hk => ?_, ?_, ?_,
    fun k hk => ?_⟩
  · rw [hs.h_eq]
    exact (hs.kept k hk).2
  · obtain ⟨c', hc', he⟩ := hs.counted c hc
    rw [he, hs.lastOrderedPPSeqNo, hs.lastPrePrepareSeqNo]
    exact h.counted c' hc'
  · rw [hs.h_eq]; exact hs.dvd
  · rw [hs.h_eq, hs.lastOrderedPPSeqNo, hs.lastPrePrepareSeqNo]; exact hs.le
  · rw [hs.ordered] at hk
    rw [Passed, hs.lastOrderedPPSeqNo, hs.lastPrePrepareSeqNo]
    refine (h.ordered k hk).imp (fun hr => hr.imp hs.reached fun hp => ?_) id
    exact ⟨hp.1, hp.2.1, fun v hv => hp.2.2 v ((hs.held _).1 hv).1⟩
  · rw [hs.lastOrderedPPSeqNo]; exact hs.reached h.lastOrdered
  · rw [hs.lastPrePrepareSeqNo]
    rcases h.lastPrePrepare with hr | ⟨v, hv⟩
    · exact Or.inl (hs.reached hr)
    · exact (hs.held_or_reached hv).imp id fun hv => ⟨v, hv⟩
  · obtain ⟨hk, hlt⟩ := (hs.held k).1 hk
    obtain ⟨-, h2, h3, h4⟩ := h.held k hk
    rw [hs.h_eq, hs.lastPrePrepareSeqNo, hs.viewNo, hs.ordered]
    refine ⟨hlt, h2, h3, h4.imp id ?_⟩
    rintro ⟨q, hq, hr | ⟨v, hv, hv'⟩⟩
    · exact ⟨q, hq, Or.inl (hs.reached hr)⟩
    · exact ⟨q, hq, (hs.held_or_reached hv').imp id fun hv' => ⟨v, hv, hv'⟩⟩

/-- **Every write of the code keeps the invariant.** -/
theorem InBlocks.write (h : InBlocks env s) (hfreq : 0 < env.CHK_FREQ) (hw : ReplicaWrite env D s s') :
    InBlocks env s' := by
  have hview : s'.node.viewNo = s.node.viewNo :=
    congrArg ReplicaConfig.viewNo (cfg_of_writes (ReflTransGen.single hw))
  cases hw with
  | quiet _ hstep hmarks hkept => exact h.quiet hstep hmarks hkept hview
  | order key pp hpp _ hnew hprev => exact h.order hfreq hpp hnew hprev
  | receiveDigest ck sender state _ hget _ => exact h.receiveDigest sender hget
  | makeStable own ck key state hget _ hfind => exact h.stabilise (h.stabilises_makeStable hget hfind)

theorem InBlocks.writes (h : InBlocks env s) (hfreq : 0 < env.CHK_FREQ)
    (hw : ReflTransGen (ReplicaWrite env D) s s') : InBlocks env s' :=
  stable_of_steps (fun _ _ hstep h => h.write hfreq hstep) hw h

/-! ## Moving the position from outside -/

/-- where catching up may move the position: to a number that is reached, or to one that is passed over -/
def CanMoveTo (env : Env ω σ τ) (s : Replica ω σ τ) (n : ℕ) : Prop := s.Reached env n ∨ s.Passed n

/-- the position moves to `n`, which may be recorded as ordered -/
theorem InBlocks.moved (h : InBlocks env s) {n : ℕ} {ordered : List TPCKey} (hn : CanMoveTo env s n)
    (hordered : ∀ k ∈ ordered, k ∈ s.ordered ∨ k.2 = n) (hkeep : s.ordered ⊆ ordered) :
    InBlocks env { s with ordered := ordered, lastOrderedPPSeqNo := max s.lastOrderedPPSeqNo n } := by
  have hle : s.lastOrderedPPSeqNo ≤ max s.lastOrderedPPSeqNo n := le_max_left _ _
  have hpassed : ∀ {q}, s.Passed q → q < max s.lastOrderedPPSeqNo n ∧ q < s.lastPrePrepareSeqNo ∧
      ∀ v, ¬ s.ordering.HoldsKey (v, q + 1) := fun hp => ⟨hp.1.trans_le hle, hp.2⟩
  have hlast : s.Reached env (max s.lastOrderedPPSeqNo n) := by
    rcases hn with hr | hp
    · rcases max_choice s.lastOrderedPPSeqNo n with he | he <;> rw [he]
      · exact h.lastOrdered
      · exact hr
    · rw [max_eq_left hp.1.le]
      exact h.lastOrdered
  refine ⟨h.blocks, h.ends, fun ck hck => ⟨(h.counted ck hck).1.trans hle, (h.counted ck hck).2⟩, h.h_dvd,
    ⟨h.h_le.1.trans hle, h.h_le.2⟩, fun k hk => ?_, ?_, h.lastPrePrepare, fun k hk => ?_⟩
  · rcases hordered k hk with hk | hk
    · obtain ⟨hr, hlast⟩ := h.ordered k hk
      exact ⟨hr.imp id hpassed, hlast.trans hle⟩
    · rw [hk]
      exact ⟨hn.imp id hpassed, le_max_right _ _⟩
  · exact hlast.congr rfl
  · obtain ⟨h1, h2, h3, h4⟩ := h.held k hk
    exact ⟨h1, h2, h3, h4.imp (fun hk => hkeep hk) id⟩

/-- every batch whose PRE-PREPARE is held has been ordered -/
def Settled (s : Replica ω σ τ) : Prop := ∀ key, s.ordering.HoldsKey key → key ∈ s.ordered

/-- a replica with nothing left to order may forget PRE-PREPAREs -/
theorem InBlocks.forget (h : InBlocks env s) (hsettled : s.Settled) (hmarks : s'.marks = s.marks)
    (hordered : s'.ordered = s.ordered) (hlast : s'.lastOrderedPPSeqNo = s.lastOrderedPPSeqNo)
    (hL : s'.lastPrePrepareSeqNo = s.lastPrePrepareSeqNo) (hview : s'.node.viewNo = s.node.viewNo)
    (hsub : ∀ key, s'.ordering.HoldsKey key → s.ordering.HoldsKey key) : InBlocks env s' ∧ s'.Settled := by
  have hck : s'.checkpoints = s.checkpoints := congrArg Prod.fst hmarks
  have hh : s'.h = s.h := congrArg (fun m => m.2.1) hmarks
  refine ⟨⟨?_, ?_, ?_, ?_, ?_, fun k hk => ?_, ?_, Or.inl ?_, fun key hk => ?_⟩, fun key hk => ?_⟩
  · rw [hck]; exact h.blocks
  · rw [hck, hh]; exact h.ends
  · rw [hck, hlast, hL]; exact h.counted
  · rw [hh]; exact h.h_dvd
  · rw [hh, hlast, hL]; exact h.h_le
  · rw [hordered] at hk
    rw [Passed, hlast, hL]
    obtain ⟨hr, hle⟩ := h.ordered k hk
    exact ⟨hr.imp (fun hr => hr.congr hmarks) fun hp => ⟨hp.1, hp.2.1, fun v hv => hp.2.2 v (hsub _ hv)⟩, hle⟩
  · rw [hlast]; exact h.lastOrdered.congr hmarks
  · rw [hL]
    refine Reached.congr ?_ hmarks
    rcases h.lastPrePrepare with hr | ⟨v, hv⟩
    · exact hr
    · exact (h.ordered _ (hsettled _ hv)).1.resolve_right fun hp => hp.2.1.false
  · obtain ⟨h1, h2, h3, -⟩ := h.held key (hsub key hk)
    rw [hh, hL, hview, hordered]
    exact ⟨h1, h2, h3, Or.inl (hsettled key (hsub key hk))⟩
  · rw [hordered]
    exact hsettled key (hsub key hk)

/-- a replica with nothing left to order may number its own PRE-PREPAREs on from where it is -/
theorem InBlocks.restart (h : InBlocks env s) (hsettled : s.Settled) :
    InBlocks env { s with lastPrePrepareSeqNo := s.lastOrderedPPSeqNo } := by
  refine ⟨h.blocks, h.ends, fun ck hck => ⟨(h.counted ck hck).1, (h.counted ck hck).1⟩, h.h_dvd,
    ⟨h.h_le.1, h.h_le.1⟩, fun k hk => ?_, h.lastOrdered.congr rfl, Or.inl (h.lastOrdered.congr rfl), fun k hk => ?_⟩
  · obtain ⟨hr, hle⟩ := h.ordered k hk
    exact ⟨hr.imp id fun hp => ⟨hp.1, hp.1, hp.2.2⟩, hle⟩
  · obtain ⟨h1, -, h3, -⟩ := h.held k hk
    exact ⟨h1, (h.ordered k (hsettled k hk)).2, h3, Or.inl (hsettled k hk)⟩

/-! ## Calls of the methods -/

/-- the invariant between the calls of a replica's methods -/
structure Aligning (env : Env ω σ τ) (s : Replica ω σ τ) : Prop where
  inBlocks : InBlocks env s
  held : Held (fun _ => True) s.queues
  stashingWhileCatchingUp : s.stashingWhileCatchingUp = []
  viewEndsAt : s.viewEndsAt = Dict.empty

def NotPrePrepare (m : InMsg) : Prop := ∀ pp sender, m ≠ .threePhase (.prePrepare pp) sender

/-- the node participates, or no PRE-PREPARE waits in any queue -/
def Serviceable (s : Replica ω σ τ) : Prop := s.node.isParticipating = true ∨ Held NotPrePrepare s.queues

/-- **A method that does nothing but writes keeps the invariant.** -/
theorem Aligning.follows {α : Type} (h : Aligning env s) (hfreq : 0 < env.CHK_FREQ) (hs : s.Serviceable)
    {m : ReplicaM ω σ τ α}
    (hm : ∀ D : InMsg → Prop, Ready D s → Follows (ReplicaWrite env D) m s fun _ _ => True) :
    Aligning env (exec m s).2 ∧ (exec m s).2.name = s.name := by
  have hwrites : ∀ {D : InMsg → Prop}, Ready D s → Aligning env (exec m s).2 ∧ (exec m s).2.name = s.name := by
    intro D hready
    have hsteps := (hm D hready).steps
    have hready' := hready.steps hsteps
    refine ⟨?_, congrArg ReplicaConfig.name (cfg_of_writes hsteps)⟩
    exact ⟨h.inBlocks.writes hfreq hsteps, hready'.held.mono fun _ _ => trivial, hready'.stashingWhileCatchingUp,
      hready'.viewEndsAt⟩
  rcases hs with hpart | hwait
  · exact hwrites ⟨h.held, h.stashingWhileCatchingUp, h.viewEndsAt, Or.inl hpart⟩
  · exact hwrites ⟨hwait, h.stashingWhileCatchingUp, h.viewEndsAt, Or.inr fun pp n hD => hD pp n rfl⟩

/-- a change outside of what the invariant is about -/
theorem Aligning.congr (h : Aligning env s) (hs : SameOrder s s')
    (hL : s'.lastPrePrepareSeqNo = s.lastPrePrepareSeqNo)
    (hsub : ∀ key, s'.ordering.HoldsKey key → s.ordering.HoldsKey key) (hheld : Held (fun _ => True) s'.queues)
    (hcatch : s'.stashingWhileCatchingUp = s.stashingWhileCatchingUp) (hends : s'.viewEndsAt = s.viewEndsAt) :
    Aligning env s' :=
  ⟨h.inBlocks.same hs hL hsub, hheld, hcatch.trans h.stashingWhileCatchingUp, hends.trans h.viewEndsAt⟩

/-! ## A new primary -/

/-- PRE-PREPAREs are forgotten, and nothing else changes that the invariant is about -/
structure Forgets (s s' : Replica ω σ τ) : Prop where
  marks : s'.marks = s.marks
  cfg : s'.cfg = s.cfg
  queues : s'.queues = s.queues
  ordered : s'.ordered = s.ordered
  lastOrderedPPSeqNo : s'.lastOrderedPPSeqNo = s.lastOrderedPPSeqNo
  lastPrePrepareSeqNo : s'.lastPrePrepareSeqNo = s.lastPrePrepareSeqNo
  held : ∀ key, s'.ordering.HoldsKey key → s.ordering.HoldsKey key

theorem Forgets.refl (s : Replica ω σ τ) : Forgets s s := ⟨rfl, rfl, rfl, rfl, rfl, rfl, fun _ h => h⟩

theorem Forgets.trans {s'' : Replica ω σ τ} (h : Forgets s s') (h' : Forgets s' s'') : Forgets s s'' :=
  ⟨h'.marks.trans h.marks, h'.cfg.trans h.cfg, h'.queues.trans h.queues, h'.ordered.trans h.ordered,
    h'.lastOrderedPPSeqNo.trans h.lastOrderedPPSeqNo, h'.lastPrePrepareSeqNo.trans h.lastPrePrepareSeqNo,
    fun k hk => h.held k (h'.held k hk)⟩

/-- the loop of `removeObsoletePpReqs` forgets PRE-PREPAREs, also where it raises -/
theorem forgets_removePpReqs (env : Env ω σ τ) (keys : List TPCKey) (s : Replica ω σ τ) :
    Keeps (Forgets s) (removePpReqs env keys) := by
  induction keys with
  | nil => exact Keeps.ret _
  | cons key keys ih =>
    refine Keeps.get_seq fun s1 => ?_
    split
    · refine Keeps.seq (Keeps.write fun s2 h2 => h2.trans ⟨rfl, rfl, rfl, rfl, rfl, rfl, fun _ h => h⟩) fun _ => ?_
      refine Keeps.seq ?_ fun _ => Keeps.seq (Keeps.write fun s2 h2 => h2.trans ?_) fun _ => ih
      · unfold revertBatch
        split
        · exact Keeps.write fun s2 h2 => h2.trans ⟨rfl, rfl, rfl, rfl, rfl, rfl, fun _ h => h⟩
        · exact Keeps.ret _
      · refine ⟨rfl, rfl, rfl, rfl, rfl, rfl, fun k hk => ?_⟩
        obtain ⟨pp', hk | hk⟩ := hk
        · change (s2.sentPrePrepares.eraseAll [key]).get? k = some pp' at hk
          rw [PrePrepareLog.get?_eraseAll] at hk
          split_ifs at hk
          exact ⟨pp', Or.inl hk⟩
        · exact ⟨pp', Or.inr hk⟩
    · exact Keeps.raise _

theorem Forgets.serviceable (h : Forgets s s') (hs : s.Serviceable) : s'.Serviceable := by
  have hpart : s'.node.isParticipating = s.node.isParticipating := congrArg ReplicaConfig.isParticipating h.cfg
  rw [Serviceable, hpart, h.queues]
  exact hs

/-- a replica that has nothing left to order stays so -/
theorem Aligning.forgets (h : Aligning env s) (hsettled : s.Settled) (hf : Forgets s s') :
    Aligning env s' ∧ s'.Settled := by
  obtain ⟨hin, hset⟩ := h.inBlocks.forget hsettled hf.marks hf.ordered hf.lastOrderedPPSeqNo hf.lastPrePrepareSeqNo
    (congrArg ReplicaConfig.viewNo hf.cfg) hf.held
  have hcatch : s'.stashingWhileCatchingUp = s.stashingWhileCatchingUp :=
    congrArg ReplicaConfig.stashingWhileCatchingUp hf.cfg
  have hends : s'.viewEndsAt = s.viewEndsAt := congrArg ReplicaConfig.viewEndsAt hf.cfg
  exact ⟨⟨hin, hf.queues ▸ h.held, hcatch.trans h.stashingWhileCatchingUp, hends.trans h.viewEndsAt⟩, hset⟩

/-- the replica as the setter of `primaryName` leaves it before it forgets and takes messages -/
def withPrimary (value : Option RepName) (s : Replica ω σ τ) : Replica ω σ τ :=
  { s with primaryNames := s.primaryNames.set s.node.viewNo value, primaryName := value }

/-- setting the name of the primary makes the replica forget PRE-PREPAREs -/
def Forgetting (value : Option RepName) (s : Replica ω σ τ) : Prop :=
  s.isMaster = true ∧ (s.withPrimary value).obsoletePpReqs ≠ []

theorem Aligning.withPrimary (h : Aligning env s) (value : Option RepName) : Aligning env (s.withPrimary value) :=
  h.congr ⟨rfl, rfl, rfl, le_rfl, fun _ hk => hk⟩ rfl (fun _ hk => hk) h.held rfl rfl

theorem exec_setPrimaryName (env : Env ω σ τ) (fuel : ℕ) (value : Option RepName) (s : Replica ω σ τ) :
    exec (setPrimaryName env fuel value) s =
      if value = s.primaryName then
        (.ok (), { s with primaryNames := s.primaryNames.set s.node.viewNo value })
      else exec ((if s.isMaster then removeObsoletePpReqs env else pure ()) >>= fun _ =>
        if value = none then pure () else processPostElectionMsgs env fuel) (s.withPrimary value) := by
  unfold setPrimaryName
  rw [exec_bind, exec_get]
  dsimp only
  rw [exec_bind, exec_modify]
  dsimp only
  split_ifs <;> rfl

/-- forgetting is the first thing that happens under a new primary -/
theorem forgets_new_primary (env : Env ω σ τ) (value : Option RepName) (s : Replica ω σ τ) :
    Forgets (s.withPrimary value)
      (exec (if s.isMaster then removeObsoletePpReqs env else pure ()) (s.withPrimary value)).2 ∧
    (¬ s.Forgetting value →
      (exec (if s.isMaster then removeObsoletePpReqs env else pure ()) (s.withPrimary value)).2 = s.withPrimary value) := by
  by_cases hmaster : s.isMaster = true
  · rw [if_pos hmaster]
    unfold removeObsoletePpReqs
    rw [exec_bind, exec_get]
    refine ⟨forgets_removePpReqs env _ _ _ (Forgets.refl _), fun hnot => ?_⟩
    have hnone : (s.withPrimary value).obsoletePpReqs = [] := by
      by_contra hne
      exact hnot ⟨hmaster, hne⟩
    dsimp only
    rw [hnone]
    rfl
  · rw [if_neg hmaster]
    exact ⟨Forgets.refl _, fun _ => rfl⟩

/-- **Setting the name of the primary keeps the invariant**, if a replica that forgets PRE-PREPAREs has nothing left to
order. -/
theorem Aligning.setPrimaryName (h : Aligning env s) (hfreq : 0 < env.CHK_FREQ) (hs : s.Serviceable) (fuel : ℕ)
    (value : Option RepName) (hforget : s.Forgetting value → s.Settled) :
    Aligning env (exec (setPrimaryName env fuel value) s).2 ∧ (exec (setPrimaryName env fuel value) s).2.name = s.name := by
  rw [exec_setPrimaryName]
  by_cases hsame : value = s.primaryName
  · rw [if_pos hsame]
    exact ⟨h.congr ⟨rfl, rfl, rfl, le_rfl, fun _ hk => hk⟩ rfl (fun _ hk => hk) h.held rfl rfl, rfl⟩
  · rw [if_neg hsame]
    obtain ⟨hf, hnone⟩ := forgets_new_primary env value s
    have h1 := h.withPrimary value
    have h2 : Aligning env (exec (if s.isMaster then removeObsoletePpReqs env else pure ()) (s.withPrimary value)).2 := by
      by_cases hforgets : s.Forgetting value
      · exact (h1.forgets (hforget hforgets) hf).1
      · rw [hnone hforgets]
        exact h1
    have hs2 := hf.serviceable (s := s.withPrimary value) hs
    have hname := congrArg ReplicaConfig.name hf.cfg
    rw [exec_bind]
    rcases he : exec (if s.isMaster then removeObsoletePpReqs env else pure ()) (s.withPrimary value) with ⟨e | a, s2⟩ <;>
      rw [he] at h2 hs2 hname
    · exact ⟨h2, hname⟩
    · dsimp only
      split_ifs
      · exact ⟨h2, hname⟩
      · obtain ⟨h3, hname3⟩ := h2.follows hfreq hs2 fun D hready => processPostElectionMsgs_writes env hready fuel
        exact ⟨h3, hname3.trans hname⟩

/-- a replica that has nothing left to order, and no message that waits, has nothing left to order afterwards -/
theorem Aligning.setPrimaryName_settled (h : Aligning env s) (hsettled : s.Settled) (hposts : s.postElectionMsgs = [])
    (fuel : ℕ) (value : Option RepName) :
    Aligning env (exec (Replica.setPrimaryName env fuel value) s).2 ∧
      (exec (Replica.setPrimaryName env fuel value) s).2.Settled := by
  rw [exec_setPrimaryName]
  by_cases hsame : value = s.primaryName
  · rw [if_pos hsame]
    exact ⟨h.congr ⟨rfl, rfl, rfl, le_rfl, fun _ hk => hk⟩ rfl (fun _ hk => hk) h.held rfl rfl, hsettled⟩
  · rw [if_neg hsame]
    obtain ⟨hf, -⟩ := forgets_new_primary env value s
    have h2 := (h.withPrimary value).forgets hsettled hf
    have hq := congrArg ReplicaQueues.postElectionMsgs hf.queues
    rw [exec_bind]
    rcases he : exec (if s.isMaster then removeObsoletePpReqs env else pure ()) (s.withPrimary value) with ⟨e | a, s2⟩ <;>
      rw [he] at h2 hq
    · exact h2
    · dsimp only
      have hposts2 : s2.postElectionMsgs = [] := hq.trans hposts
      have hpost : (exec (if value = none then pure () else processPostElectionMsgs env fuel) s2).2 = s2 := by
        split_ifs
        · rfl
        · unfold processPostElectionMsgs
          rw [exec_bind, exec_get]
          dsimp only
          rw [hposts2]
          rfl
      rw [hpost]
      exact h2

/-- what a replica may be told of a new primary: a position that is reached, or not beyond its own; and a replica that
forgets PRE-PREPAREs or becomes the primary has nothing left to order -/
structure PrimaryFits (env : Env ω σ τ) (s : Replica ω σ τ) (primaryName : RepName) (lastOrderedPPSeqNo : ℕ) : Prop where
  position : lastOrderedPPSeqNo ≤ s.lastOrderedPPSeqNo ∨ s.Reached env lastOrderedPPSeqNo
  forgetting : s.Forgetting (some primaryName) → s.Settled
  primary : primaryName = s.name → s.Settled ∧ s.postElectionMsgs = []
  serviceable : s.Serviceable

theorem Aligning.primaryChanged (h : Aligning env s) (hfreq : 0 < env.CHK_FREQ) (fuel : ℕ) {primaryName : RepName}
    {lastOrderedPPSeqNo : ℕ} (hfits : s.PrimaryFits env primaryName lastOrderedPPSeqNo) :
    Aligning env (exec (primaryChanged env fuel primaryName lastOrderedPPSeqNo) s).2 := by
  have h1 : Aligning env { s with lastOrderedPPSeqNo := max s.lastOrderedPPSeqNo lastOrderedPPSeqNo } := by
    refine ⟨?_, h.held, h.stashingWhileCatchingUp, h.viewEndsAt⟩
    rcases hfits.position with hle | hr
    · rw [max_eq_left hle]
      exact h.inBlocks
    · exact h.inBlocks.moved (Or.inl hr) (fun k hk => Or.inl hk) fun _ hk => hk
  unfold Replica.primaryChanged
  rw [exec_bind, exec_modify]
  dsimp only
  obtain ⟨h2, hname⟩ := h1.setPrimaryName hfreq hfits.serviceable fuel (some primaryName) hfits.forgetting
  by_cases hself : primaryName = s.name
  · obtain ⟨hsettled, hposts⟩ := hfits.primary hself
    obtain ⟨-, hsettled2⟩ := h1.setPrimaryName_settled hsettled hposts fuel (some primaryName)
    rw [exec_bind]
    rcases he : exec (Replica.setPrimaryName env fuel (some primaryName))
      { s with lastOrderedPPSeqNo := max s.lastOrderedPPSeqNo lastOrderedPPSeqNo } with ⟨e | a, s2⟩ <;>
      rw [he] at h2 hsettled2 hname
    · exact h2
    · dsimp only
      rw [exec_modify]
      dsimp only
      split_ifs
      · exact ⟨h2.inBlocks.restart hsettled2, h2.held, h2.stashingWhileCatchingUp, h2.viewEndsAt⟩
      · exact h2
  · rw [exec_bind]
    rcases he : exec (Replica.setPrimaryName env fuel (some primaryName))
      { s with lastOrderedPPSeqNo := max s.lastOrderedPPSeqNo lastOrderedPPSeqNo } with ⟨e | a, s2⟩ <;>
      rw [he] at h2 hname
    · exact h2
    · dsimp only at hname ⊢
      rw [exec_modify]
      dsimp only
      rw [if_neg (by rw [hname]; exact hself)]
      exact h2

/-! ## Runs -/

/-- what happens to a replica: messages and calls of its methods, changes of its node, catching up, and view changes -/
inductive ReplicaEvent (ω σ τ : Type) where
  | receive (m : InMsg)
  | serviceQueues (fuel : ℕ) (limit : Option ℕ) (perfCounter time : ℕ)
  | processStashedOutOfOrderCommits (fuel : ℕ)
  /-- the node gets other requests and databases, another mode or another number of failures to tolerate -/
  | nodeChanged (requests : Requests ω) (dbs : Dbs σ τ) (suspicions : List (RepName × Suspicion)) (f : ℕ)
      (isParticipating : Bool)
  | caughtUpTillPpSeqNo (ppSeqNo : ℕ)
  /-- the node goes to a later view, whose primary is not known yet -/
  | viewChanged (fuel viewNo : ℕ)
  | primaryChanged (fuel : ℕ) (primaryName : RepName) (lastOrderedPPSeqNo : ℕ)
  | takeFromOutBox

/-- the replica in a later view -/
def inView (viewNo : ℕ) (s : Replica ω σ τ) : Replica ω σ τ := { s with node := { s.node with viewNo := viewNo } }

/-- one event; what a method wrote before it raised stays -/
def event (env : Env ω σ τ) (s : Replica ω σ τ) : ReplicaEvent ω σ τ → Replica ω σ τ
  | .receive m => { s with inBox := s.inBox ++ [m] }
  | .serviceQueues fuel limit perfCounter time =>
    (exec (Replica.serviceQueues env fuel limit) { s with perfCounter := perfCounter, time := time }).2
  | .processStashedOutOfOrderCommits fuel => (exec (Replica.processStashedOutOfOrderCommits env fuel) s).2
  | .nodeChanged requests dbs suspicions f isParticipating =>
    { s with node := { s.node with
        requests := requests, dbs := dbs, suspicions := suspicions, f := f, isParticipating := isParticipating } }
  | .caughtUpTillPpSeqNo ppSeqNo => s.addToOrdered (s.node.viewNo, ppSeqNo)
  | .viewChanged fuel viewNo =>
    if s.node.viewNo < viewNo then (exec (Replica.setPrimaryName env fuel none) (s.inView viewNo)).2 else s
  | .primaryChanged fuel primaryName lastOrderedPPSeqNo =>
    (exec (Replica.primaryChanged env fuel primaryName lastOrderedPPSeqNo) s).2
  | .takeFromOutBox => { s with outBox := s.outBox.tail }

def events (env : Env ω σ τ) (s : Replica ω σ τ) (l : List (ReplicaEvent ω σ τ)) : Replica ω σ τ :=
  l.foldl (event env) s

/-- what an event must respect for the intervals to stay aligned -/
def Respects (env : Env ω σ τ) (s : Replica ω σ τ) : ReplicaEvent ω σ τ → Prop
  | .caughtUpTillPpSeqNo ppSeqNo => s.CanMoveTo env ppSeqNo
  | .serviceQueues _ _ _ _ => s.Serviceable
  | .processStashedOutOfOrderCommits _ => s.Serviceable
  | .viewChanged _ viewNo => (s.inView viewNo).Forgetting none → s.Settled
  | .primaryChanged _ primaryName lastOrderedPPSeqNo => s.PrimaryFits env primaryName lastOrderedPPSeqNo
  | _ => True

/-- moving to a later view by itself changes nothing -/
theorem Aligning.inView (h : Aligning env s) {viewNo : ℕ} (hlt : s.node.viewNo < viewNo) :
    Aligning env (s.inView viewNo) :=
  h.congr ⟨rfl, rfl, rfl, hlt.le, fun _ hk => hk⟩ rfl (fun _ hk => hk) h.held rfl rfl

/-- without a primary no message is taken -/
theorem Aligning.noPrimary (h : Aligning env s) (fuel : ℕ) (hforget : s.Forgetting none → s.Settled) :
    Aligning env (exec (Replica.setPrimaryName env fuel none) s).2 := by
  rw [exec_setPrimaryName]
  by_cases hsame : none = s.primaryName
  · rw [if_pos hsame]
    exact h.congr ⟨rfl, rfl, rfl, le_rfl, fun _ hk => hk⟩ rfl (fun _ hk => hk) h.held rfl rfl
  · rw [if_neg hsame, exec_bind]
    obtain ⟨hf, hnone⟩ := forgets_new_primary env none s
    have h2 : Aligning env (exec (if s.isMaster then removeObsoletePpReqs env else pure ()) (s.withPrimary none)).2 := by
      by_cases hforgets : s.Forgetting none
      · exact ((h.withPrimary none).forgets (hforget hforgets) hf).1
      · rw [hnone hforgets]
        exact h.withPrimary none
    rcases he : exec (if s.isMaster then removeObsoletePpReqs env else pure ()) (s.withPrimary none) with ⟨e | a, s2⟩ <;>
      rw [he] at h2 <;> exact h2

/-- **Every event that respects the intervals keeps the invariant.** -/
theorem Aligning.event (h : Aligning env s) (hfreq : 0 < env.CHK_FREQ) {e : ReplicaEvent ω σ τ}
    (he : s.Respects env e) : Aligning env (s.event env e) := by
  cases e with
  | receive m =>
    refine h.congr ⟨rfl, rfl, rfl, le_rfl, fun _ hk => hk⟩ rfl (fun _ hk => hk) ?_ rfl rfl
    exact { h.held with inBox := fun _ _ => trivial }
  | serviceQueues fuel limit perfCounter time =>
    have h1 : Aligning env { s with perfCounter := perfCounter, time := time } :=
      h.congr ⟨rfl, rfl, rfl, le_rfl, fun _ hk => hk⟩ rfl (fun _ hk => hk) h.held rfl rfl
    exact (h1.follows hfreq he fun D hready => serviceQueues_writes env hready fuel limit).1
  | processStashedOutOfOrderCommits fuel =>
    exact (h.follows hfreq he fun D hready => processStashedOutOfOrderCommits_writes env hready fuel).1
  | nodeChanged requests dbs suspicions f isParticipating =>
    exact h.congr ⟨rfl, rfl, rfl, le_rfl, fun _ hk => hk⟩ rfl (fun _ hk => hk) h.held rfl rfl
  | caughtUpTillPpSeqNo ppSeqNo =>
    have hmax : (s.addToOrdered (s.node.viewNo, ppSeqNo)).lastOrderedPPSeqNo = max s.lastOrderedPPSeqNo ppSeqNo :=
      addToOrdered_lastOrderedPPSeqNo _
    have hmem : ∀ k, k ∈ (s.addToOrdered (s.node.viewNo, ppSeqNo)).ordered ↔
        k ∈ s.ordered ∨ k = (s.node.viewNo, ppSeqNo) := by
      intro k
      unfold addToOrdered
      dsimp only
      split_ifs with hin
      · exact (or_iff_left_of_imp fun hk => hk ▸ hin).symm
      · simp
    have hs : s.event env (.caughtUpTillPpSeqNo ppSeqNo) = { s with
        ordered := (s.addToOrdered (s.node.viewNo, ppSeqNo)).ordered
        lastOrderedPPSeqNo := max s.lastOrderedPPSeqNo ppSeqNo } := by
      rw [← hmax]
      rfl
    rw [hs]
    refine ⟨h.inBlocks.moved he (fun k hk => ?_) fun k hk => (hmem k).2 (Or.inl hk), h.held, h.stashingWhileCatchingUp,
      h.viewEndsAt⟩
    exact ((hmem k).1 hk).imp id fun hk => by rw [hk]
  | viewChanged fuel viewNo =>
    change Aligning env (if s.node.viewNo < viewNo then (exec (Replica.setPrimaryName env fuel none) (s.inView viewNo)).2
      else s)
    split_ifs with hlt
    · exact (h.inView hlt).noPrimary fuel he
    · exact h
  | primaryChanged fuel primaryName lastOrderedPPSeqNo => exact h.primaryChanged hfreq fuel he
  | takeFromOutBox =>
    exact h.congr ⟨rfl, rfl, rfl, le_rfl, fun _ hk => hk⟩ rfl (fun _ hk => hk) h.held rfl rfl

theorem Aligning.events (h : Aligning env s) (hfreq : 0 < env.CHK_FREQ) {l : List (ReplicaEvent ω σ τ)}
    (hl : ∀ past e rest, l = past ++ e :: rest → (s.events env past).Respects env e) :
    Aligning env (s.events env l) := by
  induction l using List.reverseRecOn with
  | nil => exact h
  | append_singleton l e ih =>
    have hlast := hl l e [] rfl
    rw [Replica.events, List.foldl_append]
    refine Aligning.event (ih fun past e' rest hsplit => ?_) hfreq hlast
    refine hl past e' (rest ++ [e]) ?_
    rw [hsplit, List.append_assoc, List.cons_append]

/-- a new replica has no checkpoints -/
theorem aligning_init (env : Env ω σ τ) (node : Node ω σ τ) (instId : ℕ) (isMaster : Bool)
    (primaryName : Option RepName) : Aligning env (init env node instId isMaster primaryName) := by
  refine ⟨⟨fun k hk => ?_, fun k hk => ?_, fun k hk => ?_, dvd_zero _, ⟨le_rfl, le_rfl⟩, fun k hk => ?_,
    Or.inl (dvd_zero _), Or.inl (Or.inl (dvd_zero _)), fun k hk => ?_⟩, ?_, rfl, rfl⟩
  · cases hk
  · cases hk
  · cases hk
  · cases hk
  · obtain ⟨pp, hk | hk⟩ := hk <;> cases hk
  · constructor <;> intro e he <;> cases he

/-- every interval is `(s, s + CHK_FREQ - 1)` with `s` one modulo `CHK_FREQ`, and no two of them meet -/
def CheckpointsAligned (env : Env ω σ τ) (s : Replica ω σ τ) : Prop :=
  (∀ key ∈ s.checkpoints.keys, key.1 ≡ 1 [ZMOD env.CHK_FREQ] ∧ key.2 = key.1 + env.CHK_FREQ - 1) ∧
    s.checkpoints.keys.Pairwise fun k k' => Disjoint (Set.Icc k.1 k.2) (Set.Icc k'.1 k'.2)

theorem InBlocks.aligned (h : InBlocks env s) : s.CheckpointsAligned env := by
  refine ⟨fun key hkey => ?_, s.checkpoints.nodup.imp_of_mem fun hk hk' hne => ?_⟩
  · obtain ⟨j, rfl⟩ := h.blocks key hkey
    exact ⟨block_start _ _, block_end _ _⟩
  · obtain ⟨i, rfl⟩ := h.blocks _ hk
    obtain ⟨j, rfl⟩ := h.blocks _ hk'
    exact disjoint_block hne

end Replica

/-- **When the checkpoint intervals stay aligned.** In every run from the start, through any views, modes of the node
and any number of catch-ups: if catching up, and what a replica is told of a new primary, moves the position only to
numbers that are reached, if no PRE-PREPARE is taken in while the node does not participate, and if a replica that
forgets PRE-PREPAREs or becomes the primary has nothing left to order, then all intervals are aligned and disjoint. -/
theorem checkpoints_aligned (env : Env ω σ τ) (hfreq : 0 < env.CHK_FREQ) (node : Node ω σ τ) (instId : ℕ)
    (isMaster : Bool) (primaryName : Option RepName) (events : List (Replica.ReplicaEvent ω σ τ))
    (hrespects : ∀ past e rest, events = past ++ e :: rest →
      ((Replica.init env node instId isMaster primaryName).events env past).Respects env e) :
    ((Replica.init env node instId isMaster primaryName).events env events).CheckpointsAligned env :=
  ((Replica.aligning_init env node instId isMaster primaryName).events hfreq hrespects).inBlocks.aligned

/-! ## Witness and counterexample -/

namespace FourNodes

/-- the replica of Beta catches up till a batch, then gets the next PRE-PREPARE with the votes for it -/
def catchUpAndOrder (ppSeqNo : ℕ) : List (Replica.ReplicaEvent Bool ℕ ReqKey) :=
  [.caughtUpTillPpSeqNo ppSeqNo,
    .receive (.threePhase (.prePrepare (prePrepare (ppSeqNo + 1) (request 1 "a"))) "Alpha")] ++
  (["Gamma", "Delta"].map fun n =>
    .receive (.threePhase (.prepare ((prePrepare (ppSeqNo + 1) (request 1 "a")).prepare 0)) n)) ++
  (["Alpha", "Gamma", "Delta"].map fun n => .receive (.threePhase (.commit ⟨0, 0, ppSeqNo + 1⟩) n)) ++
  [.serviceQueues 10 none 0 0]

end FourNodes

open FourNodes in
/-- after catching up till a batch inside an interval the next interval begins one batch too late -/
theorem checkpoint_not_aligned :
    ((Replica.init (FourNodes.env 2) (twoRequests "Beta") 0 true (some primary)).events (FourNodes.env 2)
      (catchUpAndOrder 1)).checkpoints.keys = [(2, 3)] ∧
    ¬ ((Replica.init (FourNodes.env 2) (twoRequests "Beta") 0 true (some primary)).events (FourNodes.env 2)
      (catchUpAndOrder 1)).CheckpointsAligned (FourNodes.env 2) := by
  have hkeys : ((Replica.init (FourNodes.env 2) (twoRequests "Beta") 0 true (some primary)).events (FourNodes.env 2)
      (catchUpAndOrder 1)).checkpoints.keys = [(2, 3)] := by decide +kernel
  refine ⟨hkeys, fun h => ?_⟩
  have hstart := (h.1 (2, 3) (by rw [hkeys]; exact List.mem_singleton.2 rfl)).1
  exact absurd hstart (by decide)

open FourNodes in
/-- a catch-up till the end of an interval does no harm -/
theorem checkpoints_aligned_caught_up :
    ((Replica.init (FourNodes.env 2) (twoRequests "Beta") 0 true (some primary)).events (FourNodes.env 2)
      (catchUpAndOrder 2)).CheckpointsAligned (FourNodes.env 2) ∧
    ((Replica.init (FourNodes.env 2) (twoRequests "Beta") 0 true (some primary)).events (FourNodes.env 2)
      (catchUpAndOrder 2)).checkpoints.keys = [(3, 4)] := by
  refine ⟨checkpoints_aligned (FourNodes.env 2) (by decide) (twoRequests "Beta") 0 true (some primary) (catchUpAndOrder 2) ?_,
    by decide +kernel⟩
  -- the messages only come in; the catch-up ends at a multiple of two
  refine forall_split_cons.2 ⟨Or.inl (Or.inl (by decide)), ?_⟩
  iterate 6 refine forall_split_cons.2 ⟨trivial, ?_⟩
  refine forall_split_cons.2 ⟨Or.inl rfl, fun past e rest hsplit => ?_⟩
  cases past <;> cases hsplit

end Plenum
