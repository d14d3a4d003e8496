/-
Who vouches for the ledger that a node catches up to.

- `countOf_group`: grouping the consistency proofs counts, for each range and contents, the nodes whose last proof it is.
- `latestReliableProof_spec`, `exists_latestReliableProof`: what the proof chosen from the groups is.
- `Vouched`: every proof that a manager holds for a node was sent by that node. Every method keeps it
  (`Vouched.input`), so a target with more senders than there are Byzantine nodes has an honest one.
- `targetVouched_iff`: a target always has an honest sender exactly if no more nodes are Byzantine than a pool
  without the node itself tolerates. The code asks for more than `getMaxFailures (n - 1)` equal proofs, which for
  `n = 3f + 1` is only `f` of them.
- `forged_target`: with four nodes, one Byzantine node alone chooses the target.
-/
import Mathlib.Tactic
import Plenum.Common.LedgerFrame
import Plenum.Scenarios.CatchingUp

namespace Plenum

open Plenum.Core Plenum.Core.Exec

namespace LedgerManager

/-! ## Counting proofs -/

/-- how often a range has been proved with the given contents -/
def countOf (grouped : GroupedProofs) (r : ℕ × ℕ) (k : ProofKey) : ℕ :=
  (((grouped.get? r).getD Dict.empty).get? k).getD 0

theorem countOf_groupProof (grouped : GroupedProofs) (p : ConsistencyProof) (r : ℕ × ℕ) (k : ProofKey) :
    countOf (groupProof grouped p) r k = countOf grouped r k + if p.range = r ∧ p.key = k then 1 else 0 := by
  unfold countOf groupProof
  rw [Dict.get?_set]
  by_cases hr : r = p.range
  · subst hr
    rw [if_pos rfl, Option.getD_some, countItem, Dict.get?_set]
    by_cases hk : k = p.key
    · subst hk
      simp
    · have hk' : p.key ≠ k := fun h => hk h.symm
      simp [hk, hk']
  · have hr' : p.range ≠ r := fun h => hr h.symm
    simp [hr, hr']

theorem countOf_foldl (l : List ConsistencyProof) (grouped : GroupedProofs) (r : ℕ × ℕ) (k : ProofKey) :
    countOf (l.foldl groupProof grouped) r k =
      countOf grouped r k + l.countP fun p => p.range = r ∧ p.key = k := by
  induction l generalizing grouped with
  | nil => simp
  | cons p l ih =>
    rw [List.foldl_cons, ih, countOf_groupProof, List.countP_cons]
    simp only [decide_eq_true_eq]
    omega

/-- the nodes whose recorded proof has the given range and contents -/
def sendersOf (proofs : Dict NodeName (Option ConsistencyProof)) (r : ℕ × ℕ) (k : ProofKey) : Finset NodeName :=
  proofs.keys.toFinset.filter fun i => (proofs.get? i).any fun p => p.any fun p => p.range = r ∧ p.key = k

theorem mem_sendersOf {proofs : Dict NodeName (Option ConsistencyProof)} {r : ℕ × ℕ} {k : ProofKey} {i : NodeName} :
    i ∈ sendersOf proofs r k ↔ ∃ p, proofs.get? i = some (some p) ∧ p.range = r ∧ p.key = k := by
  unfold sendersOf
  rw [Finset.mem_filter, List.mem_toFinset]
  constructor
  · rintro ⟨-, h⟩
    rcases hi : proofs.get? i with - | - | p
    · simp [hi] at h
    · simp [hi] at h
    · rw [hi] at h
      exact ⟨p, rfl, by simpa using h⟩
  · rintro ⟨p, hp, hr, hk⟩
    refine ⟨Dict.contains_iff.1 ?_, ?_⟩
    · rw [Dict.contains, hp]
      rfl
    · simp [hp, hr, hk]

/-- **Grouping counts senders.** -/
theorem countOf_group (proofs : Dict NodeName (Option ConsistencyProof)) (r : ℕ × ℕ) (k : ProofKey) :
    countOf (groupConsistencyProofs proofs).1 r k = (sendersOf proofs r k).card := by
  unfold groupConsistencyProofs sendersOf
  rw [countOf_foldl, ← Dict.countP_values, notEmptyProofs, List.countP_filterMap]
  have hnone : countOf (Dict.empty : GroupedProofs) r k = 0 := rfl
  rw [hnone, zero_add]
  refine List.countP_congr fun p _ => ?_
  cases p <;> simp

/-! ## The proof chosen -/

theorem lt_countOf_of_reliable {f : ℕ} {grouped : GroupedProofs} {e : (ℕ × ℕ) × ProofKey}
    (h : e ∈ reliableProofs f grouped) : f < countOf grouped e.1 e.2 := by
  unfold reliableProofs at h
  obtain ⟨⟨r, counts⟩, hmem, he⟩ := List.mem_filterMap.1 h
  obtain ⟨⟨k, c⟩, hfind, rfl⟩ := Option.map_eq_some_iff.1 he
  have hlt : f < c := by simpa using List.find?_some hfind
  have hcounts : grouped.get? r = some counts := Dict.get?_eq_some.2 hmem
  have hc : counts.get? k = some c := Dict.get?_eq_some.2 (List.mem_of_find?_eq_some hfind)
  unfold countOf
  rw [hcounts, Option.getD_some, hc]
  exact hlt

theorem exists_reliable_of_lt {f : ℕ} {grouped : GroupedProofs} {r : ℕ × ℕ} {k : ProofKey}
    (h : f < countOf grouped r k) : ∃ e ∈ reliableProofs f grouped, e.1 = r := by
  unfold countOf at h
  cases hr : grouped.get? r with
  | none =>
    rw [hr] at h
    exact absurd h (by simp)
  | some counts =>
    rw [hr, Option.getD_some] at h
    cases hk : counts.get? k with
    | none =>
      rw [hk] at h
      exact absurd h (by simp)
    | some c =>
      rw [hk, Option.getD_some] at h
      have hfind : (counts.entries.find? fun x => f < x.2).isSome := by
        rw [List.find?_isSome]
        exact ⟨(k, c), Dict.get?_eq_some.1 hk, by simpa using h⟩
      obtain ⟨x, hx⟩ := Option.isSome_iff_exists.1 hfind
      refine ⟨(r, x.1), List.mem_filterMap.2 ⟨(r, counts), Dict.get?_eq_some.1 hr, ?_⟩, rfl⟩
      simp [hx]

theorem laterProof_eq_some {ledgerSize : ℕ} {latest : Option ((ℕ × ℕ) × ProofKey)} {a e : (ℕ × ℕ) × ProofKey}
    (h : laterProof ledgerSize latest a = some e) : latest = some e ∨ (e = a ∧ e.1.1 = ledgerSize) := by
  unfold laterProof at h
  by_cases hsize : a.1.1 = ledgerSize
  · rw [if_neg (not_not.2 hsize)] at h
    cases latest with
    | none =>
      cases h
      exact Or.inr ⟨rfl, hsize⟩
    | some b =>
      dsimp only at h
      split_ifs at h with hlt
      · cases h
        exact Or.inr ⟨rfl, hsize⟩
      · exact Or.inl h
  · rw [if_pos hsize] at h
    exact Or.inl h

theorem laterProof_isSome {ledgerSize : ℕ} {latest : Option ((ℕ × ℕ) × ProofKey)} {a : (ℕ × ℕ) × ProofKey}
    (h : latest.isSome ∨ a.1.1 = ledgerSize) : (laterProof ledgerSize latest a).isSome := by
  unfold laterProof
  by_cases hsize : a.1.1 = ledgerSize
  · rw [if_neg (not_not.2 hsize)]
    cases latest with
    | none => rfl
    | some b =>
      dsimp only
      split_ifs <;> rfl
  · rw [if_pos hsize]
    exact h.resolve_right hsize

theorem foldl_laterProof_eq_some {ledgerSize : ℕ} {l : List ((ℕ × ℕ) × ProofKey)}
    {latest : Option ((ℕ × ℕ) × ProofKey)} {e : (ℕ × ℕ) × ProofKey}
    (h : l.foldl (laterProof ledgerSize) latest = some e) : latest = some e ∨ (e ∈ l ∧ e.1.1 = ledgerSize) := by
  induction l generalizing latest with
  | nil => exact Or.inl h
  | cons a l ih =>
    rcases ih h with h | ⟨hmem, hstart⟩
    · refine (laterProof_eq_some h).imp_right ?_
      rintro ⟨rfl, hstart⟩
      exact ⟨List.mem_cons_self, hstart⟩
    · exact Or.inr ⟨List.mem_cons_of_mem a hmem, hstart⟩

theorem foldl_laterProof_isSome {ledgerSize : ℕ} {l : List ((ℕ × ℕ) × ProofKey)}
    {latest : Option ((ℕ × ℕ) × ProofKey)} (h : latest.isSome ∨ ∃ e ∈ l, e.1.1 = ledgerSize) :
    (l.foldl (laterProof ledgerSize) latest).isSome := by
  induction l generalizing latest with
  | nil =>
    rcases h with h | ⟨e, he, -⟩
    · exact h
    · cases he
  | cons a l ih =>
    apply ih
    rcases h with h | ⟨e, he, hstart⟩
    · exact Or.inl (laterProof_isSome (Or.inl h))
    · rcases List.mem_cons.1 he with rfl | he
      · exact Or.inl (laterProof_isSome (Or.inr hstart))
      · exact Or.inr ⟨e, he, hstart⟩

/-- the proof chosen starts at the end of the ledger and has more than `f` senders -/
theorem latestReliableProof_spec {f ledgerSize : ℕ} {proofs : Dict NodeName (Option ConsistencyProof)}
    {e : (ℕ × ℕ) × ProofKey}
    (h : latestReliableProof f (groupConsistencyProofs proofs).1 ledgerSize = some e) :
    e.1.1 = ledgerSize ∧ f < (sendersOf proofs e.1 e.2).card := by
  rcases foldl_laterProof_eq_some h with hnone | ⟨hmem, hstart⟩
  · cases hnone
  · rw [← countOf_group]
    exact ⟨hstart, lt_countOf_of_reliable hmem⟩

/-- a proof from the end of the ledger with more than `f` senders lets some proof be chosen -/
theorem exists_latestReliableProof {f ledgerSize : ℕ} {proofs : Dict NodeName (Option ConsistencyProof)}
    {r : ℕ × ℕ} {k : ProofKey} (hstart : r.1 = ledgerSize) (h : f < (sendersOf proofs r k).card) :
    (latestReliableProof f (groupConsistencyProofs proofs).1 ledgerSize).isSome := by
  rw [← countOf_group] at h
  obtain ⟨e, he, rfl⟩ := exists_reliable_of_lt h
  exact foldl_laterProof_isSome (Or.inr ⟨e, he, hstart⟩)

/-! ## Proofs held were sent -/

variable {O τ : Type} {env : LedgerEnv τ} {own : LedgerOwner O τ} {fuel : ℕ}

/-- more than `adjustedF` nodes sent a proof for the ledger with the end and root of `cp` -/
def HasSenders (own : LedgerOwner O τ) (Sent : NodeName → ConsistencyProof → Prop) (lid : LedgerId)
    (cp : ConsistencyProof) : Prop :=
  ∃ S : Finset NodeName, adjustedF own < S.card ∧ ∀ i ∈ S, ∃ p, Sent i p ∧ p.ledgerId = lid ∧
    p.seqNoEnd = cp.seqNoEnd ∧ p.newMerkleRoot = cp.newMerkleRoot

/-- every proof held was sent by the node it is held for, and every target had enough senders -/
structure Vouched (own : LedgerOwner O τ) (Sent : NodeName → ConsistencyProof → Prop) (s : LedgerManager O τ) :
    Prop where
  proofs : ∀ lid i p, (s.ledgerInfo lid).recvdConsistencyProofs.get? i = some (some p) → Sent i p ∧ p.ledgerId = lid
  verdicts : ∀ v ∈ s.verdicts, ∀ cp, v.2.2 = some cp → HasSenders own Sent v.1 cp

variable {Sent : NodeName → ConsistencyProof → Prop}

theorem vouched_init (owner : O) : Vouched own Sent (init owner : LedgerManager O τ) := by
  refine ⟨?_, ?_⟩
  · intro lid i p hp
    cases lid <;> cases hp
  · intro v hv
    cases hv

theorem Vouched.mono {Sent' : NodeName → ConsistencyProof → Prop} {s : LedgerManager O τ} (h : Vouched own Sent s)
    (hmono : ∀ i p, Sent i p → Sent' i p) : Vouched own Sent' s := by
  refine ⟨?_, ?_⟩
  · intro lid i p hp
    obtain ⟨hsent, hlid⟩ := h.proofs lid i p hp
    exact ⟨hmono i p hsent, hlid⟩
  · intro v hv cp hcp
    obtain ⟨S, hS, hall⟩ := h.verdicts v hv cp hcp
    refine ⟨S, hS, ?_⟩
    intro i hi
    obtain ⟨p, hsent, hp⟩ := hall i hi
    exact ⟨p, hmono i p hsent, hp⟩

/-- a write that brings in only proofs that were sent -/
theorem Vouched.setLedgerInfo {s : LedgerManager O τ} (h : Vouched own Sent s) (lid : LedgerId) {info : LedgerInfo τ}
    (hinfo : ∀ i p, info.recvdConsistencyProofs.get? i = some (some p) →
      (s.ledgerInfo lid).recvdConsistencyProofs.get? i = some (some p) ∨ (Sent i p ∧ p.ledgerId = lid)) :
    Vouched own Sent (s.setLedgerInfo lid info) := by
  refine ⟨?_, h.verdicts⟩
  intro lid' i p hp
  rw [ledgerInfo_setLedgerInfo] at hp
  split_ifs at hp with hl
  · subst hl
    rcases hinfo i p hp with hold | hnew
    · exact h.proofs lid' i p hold
    · exact hnew
  · exact h.proofs lid' i p hp

/-- the owner and the outbox do not matter -/
theorem Vouched.of_same {s s' : LedgerManager O τ} (h : Vouched own Sent s) (hreg : s'.ledgerRegistry = s.ledgerRegistry)
    (hver : s'.verdicts = s.verdicts) : Vouched own Sent s' := by
  refine ⟨?_, ?_⟩
  · intro lid i p hp
    rw [ledgerInfo, hreg] at hp
    exact h.proofs lid i p hp
  · rw [hver]
    exact h.verdicts

/-- the methods that bring in no proof keep it -/
theorem vouched_framed : CatchupFramed own (Vouched own Sent) := by
  refine ⟨⟨?_, ?_, ?_⟩, ?_⟩
  · intro s s' hreg hver _ h
    exact h.of_same hreg hver
  · intro s lid info hw h
    exact h.setLedgerInfo lid fun i p hp => Or.inl (hw.proofs i p hp)
  · intro s o _ _ h
    exact h.of_same rfl rfl
  · intro s lid info hw h
    exact h.setLedgerInfo lid fun i p hp => Or.inl (hw.proofs i p hp)

/-! ## Every method keeps it -/

/-- the target that the proofs held agree on has enough senders -/
theorem Vouched.catchUpVerdict {s : LedgerManager O τ} (h : Vouched own Sent s) {lid : LedgerId} {cp : ConsistencyProof}
    (hcp : (catchUpVerdict own s lid).2 = some cp) : HasSenders own Sent lid cp := by
  unfold LedgerManager.catchUpVerdict at hcp
  dsimp only at hcp
  split_ifs at hcp
  · obtain ⟨e, he, rfl⟩ := Option.map_eq_some_iff.1 hcp
    obtain ⟨-, hcard⟩ := latestReliableProof_spec he
    refine ⟨_, hcard, ?_⟩
    intro i hi
    obtain ⟨p, hp, hrange, hkey⟩ := mem_sendersOf.1 hi
    obtain ⟨hsent, hlid⟩ := h.proofs lid i p hp
    exact ⟨p, hsent, hlid, congrArg Prod.snd hrange, congrArg ProofKey.newMerkleRoot hkey⟩

theorem keeps_processConsistencyProof {proof : ConsistencyProof} {frm : NodeName} (hsent : Sent frm proof) :
    Keeps (Vouched own Sent) (processConsistencyProof env own fuel proof frm) := by
  refine vouched_framed.processConsistencyProof ?_ ?_
  · intro s s' lid hs hs'
    refine ⟨hs'.proofs, ?_⟩
    intro v hv cp hcp
    rcases List.mem_append.1 hv with hv | hv
    · exact hs'.verdicts v hv cp hcp
    · rw [List.mem_singleton.1 hv] at hcp ⊢
      exact hs.catchUpVerdict hcp
  · intro s hs
    apply hs.setLedgerInfo
    intro i p hp
    simp only [Dict.get?_set] at hp
    split_ifs at hp with hi
    · cases hp
      rw [hi]
      exact Or.inr ⟨hsent, rfl⟩
    · exact Or.inl hp

/-- the replies held do not matter -/
theorem vouched_repliesFramed : RepliesFramed own (Vouched own Sent : LedgerManager O τ → Prop) :=
  ⟨fun _ _ h => h.of_same rfl rfl, fun _ _ _ h => h.of_same rfl rfl, fun _ _ h => h.of_same rfl rfl,
    fun _ lid _ _ h => h.setLedgerInfo lid fun _ _ hp => Or.inl hp⟩

theorem keeps_processCatchupRep (rep : CatchupRep τ) (frm : NodeName) :
    Keeps (Vouched own Sent) (processCatchupRep env own fuel rep frm) := by
  refine Keeps.seq (vouched_repliesFramed.mergeCatchupRep rep frm) fun merged => Keeps.cond ?_ (Keeps.ret _)
  apply Keeps.get_seq
  intro s
  split
  · exact Keeps.raise _
  · refine Keeps.cond (Keeps.seq (Keeps.write ?_) fun _ => ?_) (Keeps.ret _)
    · intro s hs
      exact hs.setLedgerInfo _ fun _ _ hp => Or.inl hp
    · exact vouched_framed.catchupCompleted _ _

/-- **Inputs keep it.** Only a consistency proof brings in something new, and it was just sent. -/
theorem Vouched.input {s : LedgerManager O τ} (h : Vouched own Sent s) {x : LedgerInput τ}
    (hsent : ∀ p i, x = .consistencyProof p i → Sent i p) : Vouched own Sent (input env own fuel s x) := by
  refine (?_ : Keeps (Vouched own Sent) (method env own fuel x)) s h
  cases x with
  | ledgerStatus m frm => exact vouched_framed.processLedgerStatus m frm
  | consistencyProof m frm => exact keeps_processConsistencyProof (hsent m frm rfl)
  | catchupRep m frm => exact keeps_processCatchupRep m frm
  | setLedgerCanSync lid canSync => exact vouched_framed.setLedgerCanSync lid canSync
  | checkIfCPsNeeded lid => exact vouched_framed.checkIfCPsNeeded lid
  | tick perfCounter => exact vouched_framed.write fun _ => ⟨rfl, rfl, rfl⟩

/-- the consistency proofs among the inputs, with their senders -/
def SentIn (inputs : List (LedgerInput τ)) (i : NodeName) (p : ConsistencyProof) : Prop :=
  LedgerInput.consistencyProof p i ∈ inputs

theorem Vouched.run {s : LedgerManager O τ} (h : Vouched own Sent s) {inputs : List (LedgerInput τ)}
    (hsent : ∀ i p, SentIn inputs i p → Sent i p) : Vouched own Sent (run env own fuel s inputs) := by
  induction inputs generalizing s with
  | nil => exact h
  | cons x inputs ih =>
    refine ih (h.input ?_) ?_
    · rintro p i rfl
      exact hsent i p List.mem_cons_self
    · intro i p hp
      exact hsent i p (List.mem_cons_of_mem x hp)

/-! ## Honest senders -/

/-- whatever reaches the node, an honest peer has sent a proof with the end and root of every target chosen -/
def TargetVouched (env : LedgerEnv τ) (own : LedgerOwner O τ) (peers byz : Finset NodeName) (owner : O) : Prop :=
  ∀ fuel inputs, (∀ i p, SentIn inputs i p → i ∈ peers) →
    ∀ lid cp, (lid, true, some cp) ∈ (LedgerManager.run env own fuel (init owner) inputs).verdicts →
      ∃ i ∈ peers \ byz, ∃ p, SentIn inputs i p ∧ p.ledgerId = lid ∧ p.seqNoEnd = cp.seqNoEnd ∧
        p.newMerkleRoot = cp.newMerkleRoot

theorem targetVouched_of_card_le {peers byz : Finset NodeName} (hbyz : byz.card ≤ adjustedF own) (owner : O) :
    TargetVouched env own peers byz owner := by
  intro fuel inputs hpeers lid cp hverdict
  have hinv : Vouched own (SentIn inputs) (LedgerManager.run env own fuel (init owner) inputs) :=
    (vouched_init owner).run fun _ _ h => h
  obtain ⟨S, hcard, hsent⟩ := hinv.verdicts _ hverdict cp rfl
  -- more senders than Byzantine nodes
  obtain ⟨i, hi, hnot⟩ := Finset.exists_mem_notMem_of_card_lt_card (lt_of_le_of_lt hbyz hcard)
  obtain ⟨p, hp, hrest⟩ := hsent i hi
  exact ⟨i, Finset.mem_sdiff.2 ⟨hpeers i p hp, hnot⟩, p, hp, hrest⟩

/-! ## Byzantine nodes choosing the target -/

/-- a proof that the pool ledger, now of `size` transactions, has one more -/
def forgedProof (size : ℕ) : ConsistencyProof := ⟨.pool, size, size + 1, 0, "", "forged", []⟩

/-- a proof that is of no use to a ledger of `size` transactions -/
def otherProof (size : ℕ) : ConsistencyProof := ⟨.pool, size + 1, size + 2, 0, "", "other", []⟩

/-- Byzantine nodes send the forged proof -/
def proofOf (byz : Finset NodeName) (size : ℕ) (i : NodeName) : ConsistencyProof :=
  if i ∈ byz then forgedProof size else otherProof size

/-- the state with a proof recorded for a node -/
def recordProof (s : LedgerManager O τ) (p : ConsistencyProof) (i : NodeName) : LedgerManager O τ :=
  s.setLedgerInfo p.ledgerId { s.ledgerInfo p.ledgerId with
    recvdConsistencyProofs := (s.ledgerInfo p.ledgerId).recvdConsistencyProofs.set i (some p) }

@[simp] theorem ledgerSize_recordProof (s : LedgerManager O τ) (p : ConsistencyProof) (i : NodeName) (lid : LedgerId) :
    (recordProof s p i).ledgerSize own lid = s.ledgerSize own lid := rfl

/-- the manager has recorded the proofs of the nodes in `senders`, and nothing else has happened -/
structure Recorded (byz : Finset NodeName) (size : ℕ) (canSync : Bool) (senders : List NodeName) (owner : O)
    (s : LedgerManager O τ) : Prop where
  owner_eq : s.owner = owner
  state : (s.ledgerInfo .pool).state = .notSynced
  canSync_eq : (s.ledgerInfo .pool).canSync = canSync
  proofs : ∀ i, (s.ledgerInfo .pool).recvdConsistencyProofs.get? i =
    if i ∈ senders then some (some (proofOf byz size i)) else none

theorem recorded_init (byz : Finset NodeName) (size : ℕ) (owner : O) :
    Recorded byz size false [] owner (init owner : LedgerManager O τ) := by
  refine ⟨rfl, rfl, rfl, ?_⟩
  intro i
  rfl

@[simp] theorem proofOf_ledgerId (byz : Finset NodeName) (size : ℕ) (i : NodeName) :
    (proofOf byz size i).ledgerId = .pool := by
  unfold proofOf
  split_ifs <;> rfl

theorem Recorded.record {byz : Finset NodeName} {size : ℕ} {canSync : Bool} {senders : List NodeName} {owner : O}
    {s : LedgerManager O τ} (h : Recorded byz size canSync senders owner s) (i : NodeName) :
    Recorded byz size canSync (i :: senders) owner (recordProof s (proofOf byz size i) i) := by
  refine ⟨h.owner_eq, ?_, ?_, ?_⟩
  · simpa [recordProof] using h.state
  · simpa [recordProof] using h.canSync_eq
  · intro j
    simp only [recordProof, proofOf_ledgerId, ledgerInfo_setLedgerInfo, if_true, Dict.get?_set, h.proofs j]
    by_cases hj : j = i
    · simp [hj]
    · simp [hj]

/-- a proof for a ledger that may not sync yet is only recorded -/
theorem Recorded.proof {byz : Finset NodeName} {size : ℕ} {senders : List NodeName} {owner : O} {s : LedgerManager O τ}
    (h : Recorded byz size false senders owner s) (i : NodeName) :
    Recorded byz size false (i :: senders) owner
      (input env own fuel s (.consistencyProof (proofOf byz size i) i)) := by
  have hexec : input env own fuel s (.consistencyProof (proofOf byz size i) i) =
      recordProof s (proofOf byz size i) i := by
    simp [input, method, processConsistencyProof, canProcessConsistencyProof, modifyLedgerInfo, exec_bind, exec_get,
      exec_modify, exec_pure, recordProof, h.canSync_eq]
  rw [hexec]
  exact h.record i

theorem Recorded.setLedgerCanSync {byz : Finset NodeName} {size : ℕ} {canSync : Bool} {senders : List NodeName}
    {owner : O} {s : LedgerManager O τ} (h : Recorded byz size canSync senders owner s) :
    Recorded byz size true senders owner (input env own fuel s (.setLedgerCanSync .pool true)) := by
  have hexec : input env own fuel s (.setLedgerCanSync .pool true) =
      s.setLedgerInfo .pool { s.ledgerInfo .pool with canSync := true } := rfl
  rw [hexec]
  refine ⟨h.owner_eq, ?_, ?_, ?_⟩
  · simpa using h.state
  · simp
  · simpa using h.proofs

theorem Recorded.run {byz : Finset NodeName} {size : ℕ} {owner : O} (l : List NodeName) {senders : List NodeName}
    {s : LedgerManager O τ} (h : Recorded byz size false senders owner s) :
    Recorded byz size false (l.reverse ++ senders) owner
      (LedgerManager.run env own fuel s (l.map fun i => .consistencyProof (proofOf byz size i) i)) := by
  induction l generalizing s senders with
  | nil => exact h
  | cons i l ih =>
    rw [List.reverse_cons, List.append_assoc]
    apply ih
    exact h.proof i

/-- the verdict once the node lets the ledger sync and a Byzantine node repeats its proof -/
theorem Recorded.catchUpVerdict {byz : Finset NodeName} {senders : List NodeName} {owner : O} {s : LedgerManager O τ}
    {canSync : Bool} (h : Recorded byz (s.ledgerSize own .pool) canSync senders owner s)
    (hbyz : ∀ i ∈ byz, i ∈ senders) (hmany : adjustedF own < byz.card)
    (hsize : 2 * adjustedF own < senders.toFinset.card) :
    catchUpVerdict own s .pool = (true, some (forgedProof (s.ledgerSize own .pool))) := by
  set proofs := (s.ledgerInfo .pool).recvdConsistencyProofs with hproofs
  set size := s.ledgerSize own .pool with hledger
  have hkeys : proofs.keys.toFinset = senders.toFinset := by
    ext i
    rw [List.mem_toFinset, List.mem_toFinset, ← Dict.contains_iff, Dict.contains, h.proofs i]
    split_ifs with hi <;> simp [hi]
  have hcard : proofs.size = senders.toFinset.card := by rw [Dict.size_eq_card, hkeys]
  have hnull : (groupConsistencyProofs proofs).2 = 0 := by
    unfold groupConsistencyProofs
    rw [Dict.countP_values, Finset.card_eq_zero, Finset.filter_eq_empty_iff]
    intro i _
    rw [h.proofs i]
    split_ifs <;> simp
  -- exactly the Byzantine nodes sent the forged proof, and no other proof starts at the end of the ledger
  have hsenders : sendersOf proofs (size, size + 1) (forgedProof size).key = byz := by
    ext i
    rw [mem_sendersOf]
    constructor
    · rintro ⟨p, hp, hrange, -⟩
      rw [h.proofs i] at hp
      split_ifs at hp
      cases hp
      by_contra hnot
      rw [proofOf, if_neg hnot] at hrange
      simp [ConsistencyProof.range, otherProof] at hrange
    · intro hi
      refine ⟨forgedProof size, ?_, rfl, rfl⟩
      rw [h.proofs i, if_pos (hbyz i hi), proofOf, if_pos hi]
  have hsome : (latestReliableProof (adjustedF own) (groupConsistencyProofs proofs).1 size).isSome := by
    refine exists_latestReliableProof (r := (size, size + 1)) (k := (forgedProof size).key) rfl ?_
    rw [hsenders]
    exact hmany
  obtain ⟨e, he⟩ := Option.isSome_iff_exists.1 hsome
  obtain ⟨hstart, hlt⟩ := latestReliableProof_spec he
  obtain ⟨i, hi⟩ := Finset.card_pos.1 (lt_of_le_of_lt (Nat.zero_le _) hlt)
  obtain ⟨p, hp, hrange, hkey⟩ := mem_sendersOf.1 hi
  have hforged : p = forgedProof size := by
    rw [h.proofs i] at hp
    split_ifs at hp
    cases hp
    by_cases hb : i ∈ byz
    · rw [proofOf, if_pos hb]
    · rw [proofOf, if_neg hb] at hrange
      rw [← hrange] at hstart
      simp [ConsistencyProof.range, otherProof] at hstart
  subst hforged
  have hproof : ConsistencyProof.ofKey .pool e.1 e.2 = forgedProof size := by
    rw [← hrange, ← hkey]
    rfl
  unfold LedgerManager.catchUpVerdict
  rw [← hproofs, ← hledger]
  simp only [hcard, if_pos hsize, hnull, Nat.not_lt_zero, if_false, he, Option.isSome_some, Option.map_some, hproof]

/-- what a verdict leads to does not take it back -/
theorem keeps_verdict (v : LedgerId × Bool × Option ConsistencyProof) (lid : LedgerId) (p : ConsistencyProof) :
    Keeps (fun s : LedgerManager O τ => v ∈ s.verdicts) (startCatchUpProcess env own fuel lid (some p)) := by
  refine Keeps.seq (Keeps.write fun _ h => h) fun _ => ?_
  apply Keeps.get_seq
  intro s
  split
  · exact Keeps.raise _
  · refine Keeps.seq (Keeps.each fun e _ => Keeps.write fun _ h => h) fun _ => ?_
    refine Keeps.seq (Keeps.write fun _ h => h) fun _ => ?_
    split
    · exact Keeps.ret _
    · exact Keeps.seq (Keeps.write fun _ h => h) fun _ => Keeps.write fun _ h => h

/-- the verdict is that of the state before, and it is kept -/
theorem exec_canStartCatchUpProcess (env : LedgerEnv τ) (own : LedgerOwner O τ) (s : LedgerManager O τ) (lid : LedgerId) :
    (exec (canStartCatchUpProcess env own lid) s).1 = .ok (LedgerManager.catchUpVerdict own s lid) ∧
      (lid, LedgerManager.catchUpVerdict own s lid) ∈ (exec (canStartCatchUpProcess env own lid) s).2.verdicts := by
  unfold canStartCatchUpProcess startConsistencyProofsTimer modifyLedgerInfo schedule
  simp only [exec_bind, exec_get]
  split_ifs <;> simp [exec_bind, exec_modify, exec_pure]

/-- the forged proof of more Byzantine nodes than the adjusted bound becomes the target -/
theorem Recorded.forged {byz : Finset NodeName} {senders : List NodeName} {owner : O} {s : LedgerManager O τ}
    (h : Recorded byz (s.ledgerSize own .pool) true senders owner s) (hbyz : ∀ i ∈ byz, i ∈ senders)
    (hmany : adjustedF own < byz.card) (hsize : 2 * adjustedF own < senders.toFinset.card) {i : NodeName} (hi : i ∈ byz) :
    (.pool, true, some (forgedProof (s.ledgerSize own .pool))) ∈
      (input env own fuel s (.consistencyProof (forgedProof (s.ledgerSize own .pool)) i)).verdicts := by
  set size := s.ledgerSize own .pool with hledger
  set s' := recordProof s (forgedProof size) i with hs'
  have hsame : s'.ledgerSize own .pool = size := rfl
  have hrecorded : Recorded byz (s'.ledgerSize own .pool) true (i :: senders) owner s' := by
    have hrec := h.record i
    rw [proofOf, if_pos hi] at hrec
    exact hrec
  have hlarge : 2 * adjustedF own < (i :: senders).toFinset.card := by
    refine lt_of_lt_of_le hsize (Finset.card_le_card ?_)
    intro j hj
    rw [List.toFinset_cons]
    exact Finset.mem_insert_of_mem hj
  have hverdict := hrecorded.catchUpVerdict (fun j hj => List.mem_cons_of_mem i (hbyz j hj)) hmany hlarge
  obtain ⟨hout, hmem⟩ := exec_canStartCatchUpProcess env own s' .pool
  rw [hverdict, hsame] at hout hmem
  have hcan : exec (canProcessConsistencyProof own (forgedProof size)) s' = (.ok true, s') := by
    have hstate : (s'.ledgerInfo .pool).state = .notSynced := hrecorded.state
    have hsync : (s'.ledgerInfo .pool).canSync = true := hrecorded.canSync_eq
    have hrange : canProcessRange own s' (forgedProof size) = true := by
      unfold canProcessRange
      simp [forgedProof, hsame]
    unfold canProcessConsistencyProof
    rw [exec_bind, exec_get]
    simp [forgedProof, hstate, hsync] at hrange ⊢
    simp [hrange, exec_pure]
  unfold input method processConsistencyProof
  have hwrite : exec (modifyLedgerInfo (forgedProof size).ledgerId fun info => { info with
      recvdConsistencyProofs := info.recvdConsistencyProofs.set i (some (forgedProof size)) }) s = (.ok (), s') := rfl
  have hlid : (forgedProof size).ledgerId = .pool := rfl
  simp only [exec_bind, hwrite, hcan, if_true]
  rw [hlid]
  rcases hexec : exec (canStartCatchUpProcess env own .pool) s' with ⟨r, s''⟩
  rw [hexec] at hout hmem
  cases hout
  dsimp only
  rw [if_pos rfl]
  exact keeps_verdict _ _ _ s'' hmem

theorem not_targetVouched_of_lt_card {peers byz : Finset NodeName} (hsub : byz ⊆ peers)
    (hmany : adjustedF own < byz.card) (hsize : 2 * adjustedF own < peers.card) (owner : O) :
    ¬ TargetVouched env own peers byz owner := by
  intro hvouched
  obtain ⟨i, hi⟩ := Finset.card_pos.1 (lt_of_le_of_lt (Nat.zero_le _) hmany)
  -- everybody's proof is recorded, then the ledger may sync, then one Byzantine node repeats its proof
  let size := (init owner : LedgerManager O τ).ledgerSize own .pool
  let recorded : List (LedgerInput τ) := peers.toList.map fun j => .consistencyProof (proofOf byz size j) j
  let before := recorded ++ [.setLedgerCanSync .pool true]
  let inputs := before ++ [.consistencyProof (forgedProof size) i]
  have hsent : ∀ j p, SentIn inputs j p → j ∈ peers ∧ p = proofOf byz size j := by
    intro j p hp
    simp only [SentIn, inputs, before, recorded, List.mem_append, List.mem_map, List.mem_singleton, Finset.mem_toList,
      reduceCtorEq, or_false, LedgerInput.consistencyProof.injEq] at hp
    rcases hp with ⟨j', hj', rfl, rfl⟩ | ⟨rfl, rfl⟩
    · exact ⟨hj', rfl⟩
    · rw [proofOf, if_pos hi]
      exact ⟨hsub hi, rfl⟩
  have hrecorded : Recorded byz size true (peers.toList.reverse ++ []) owner
      (LedgerManager.run env own 0 (init owner) before) := by
    unfold LedgerManager.run
    rw [List.foldl_append]
    exact ((recorded_init byz size owner).run peers.toList).setLedgerCanSync
  have hsize' : (LedgerManager.run env own 0 (init owner) before).ledgerSize own .pool = size := by
    unfold ledgerSize ledger
    rw [hrecorded.owner_eq]
    rfl
  have hverdict : (.pool, true, some (forgedProof size)) ∈
      (LedgerManager.run env own 0 (init owner) inputs).verdicts := by
    rw [← hsize'] at hrecorded
    have hbefore : ∀ j ∈ byz, j ∈ peers.toList.reverse ++ [] := fun j hj => by simpa using hsub hj
    have hforged := @Recorded.forged O τ env own 0 byz _ owner _ hrecorded hbefore hmany (by simpa using hsize) i hi
    rw [hsize'] at hforged
    unfold LedgerManager.run
    rw [List.foldl_append]
    exact hforged
  obtain ⟨j, hj, p, hp, -, -, hroot⟩ := hvouched 0 inputs (fun j p hp => (hsent j p hp).1) _ _ hverdict
  obtain ⟨-, rfl⟩ := hsent j p hp
  rw [proofOf, if_neg (Finset.mem_sdiff.1 hj).2] at hroot
  simp [forgedProof, otherProof] at hroot

/-- **When a target is always vouched for.** With at most `f` Byzantine nodes among the peers, every target chosen has
an honest sender exactly if the bound of the pool without the node itself covers the Byzantine nodes. -/
theorem targetVouched_iff (env : LedgerEnv τ) (own : LedgerOwner O τ) (owner : O) {peers byz : Finset NodeName}
    (hsize : 4 ≤ own.totalNodes) (hpeers : peers.card = own.totalNodes - 1) (hsub : byz ⊆ peers)
    (hf : byz.card ≤ getMaxFailures own.totalNodes) :
    TargetVouched env own peers byz owner ↔ byz.card ≤ getMaxFailures (own.totalNodes - 1) := by
  constructor
  · intro h
    by_contra hmany
    have hroom := getMaxFailures_lt hsize
    refine not_targetVouched_of_lt_card hsub (not_le.1 hmany) ?_ owner h
    unfold adjustedF
    omega
  · intro h
    exact targetVouched_of_card_le h owner

/-! ## Witnesses -/

open FourNodes in
theorem targetVouched_iff_fourNodes :
    (4 ≤ ledgerOwner.totalNodes ∧ peers.card = ledgerOwner.totalNodes - 1 ∧ {"Gamma"} ⊆ peers ∧
      Finset.card {"Gamma"} ≤ getMaxFailures ledgerOwner.totalNodes) ∧
    (TargetVouched ledgerEnv ledgerOwner peers {"Gamma"} emptyLedgers ↔
      Finset.card {"Gamma"} ≤ getMaxFailures (ledgerOwner.totalNodes - 1)) :=
  ⟨⟨by decide, by decide, by decide, by decide⟩,
    targetVouched_iff ledgerEnv ledgerOwner emptyLedgers (by decide) (by decide) (by decide) (by decide)⟩

open FourNodes in
/-- **One Byzantine node of four chooses the target.** Gamma alone sends a proof, and catch-up starts with it. -/
theorem forged_target :
    4 ≤ ledgerOwner.totalNodes ∧ peers.card = ledgerOwner.totalNodes - 1 ∧ {"Gamma"} ⊆ peers ∧
      Finset.card {"Gamma"} ≤ getMaxFailures ledgerOwner.totalNodes ∧
      ¬ TargetVouched ledgerEnv ledgerOwner peers {"Gamma"} emptyLedgers := by
  refine ⟨by decide, by decide, by decide, by decide, ?_⟩
  intro h
  let inputs : List (LedgerInput Char) := [.setLedgerCanSync .pool true, .consistencyProof (forgedProof 0) "Gamma"]
  have hsent : ∀ i p, SentIn inputs i p → i = "Gamma" := by
    intro i p hp
    simp only [SentIn, inputs, List.mem_cons, List.not_mem_nil, reduceCtorEq, or_false, false_or,
      LedgerInput.consistencyProof.injEq] at hp
    exact hp.2
  obtain ⟨i, hi, p, hp, -⟩ := h 0 inputs (fun i p hp => by rw [hsent i p hp]; decide) .pool (forgedProof 0)
    (by decide +kernel)
  rw [hsent i p hp] at hi
  exact absurd hi (by decide)

end LedgerManager

end Plenum
