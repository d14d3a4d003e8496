/-
What the pool of `Agreement` secures within a view, whatever its byzantine nodes send and in whatever order votes come. The
primary stays the same, and no node catches up.

- `ordered_prefix`, `totalOrder`: with a correct primary each correct replica orders a prefix of the batches that
  the primary's replica has made, so the sequences of two correct replicas never part.
- `ordered_at_most_handed`: and a request is ordered at most as often as the primary's node has handed it to its
  replica. What no client's request stands for is not ordered.
- `ordered_certified`: also with a byzantine primary a batch is ordered only when `f + 1` correct nodes have sent a
  COMMIT for it, and the PRE-PREPAREs that they took in are the same as far as a PREPARE tells. What they prepared is
  then the only thing that any correct node has sent a COMMIT for under this number. It need not be what the ordering
  replica took in (`commits_overtake_prepares`): a COMMIT names no digest.
-/
import Mathlib.Tactic
import Plenum.Server.OrderedOnce

namespace Plenum

open Plenum.Core
open Relation (ReflTransGen)

variable {ω σ τ : Type}

/-! ## Numbered lists -/

/-- of two lists numbered from the same number on, one that has only elements of the other is its beginning -/
theorem prefix_of_numbered {α : Type} {number : α → ℕ} {s k k' : ℕ} {l l' : List α}
    (hl : l.map number = List.range' s k) (hl' : l'.map number = List.range' s k') (hsub : l ⊆ l') : l <+: l' := by
  induction l generalizing s k k' l' with
  | nil => exact List.nil_prefix
  | cons a t ih =>
    cases k with
    | zero => cases hl
    | succ k =>
      obtain ⟨ha, ht⟩ := List.cons_eq_cons.1 hl
      cases l' with
      | nil => exact absurd (hsub List.mem_cons_self) List.not_mem_nil
      | cons a' t' =>
        cases k' with
        | zero => cases hl'
        | succ k' =>
          obtain ⟨ha', ht'⟩ := List.cons_eq_cons.1 hl'
          have hlater : ∀ {t : List α} {k}, t.map number = List.range' (s + 1) k → ∀ x ∈ t, s < number x := by
            intro t k ht x hx
            have hmem : number x ∈ List.range' (s + 1) k := by
              rw [← ht]
              exact List.mem_map_of_mem hx
            rw [List.mem_range'_1] at hmem
            omega
          -- the first element is the one that has the first number
          have hfirst : a = a' := by
            rcases List.mem_cons.1 (hsub List.mem_cons_self) with h | h
            · exact h
            · have := hlater ht' a h
              omega
          subst hfirst
          refine (List.cons_prefix_cons).2 ⟨rfl, ih ht ht' fun x hx => ?_⟩
          rcases List.mem_cons.1 (hsub (List.mem_cons_of_mem a hx)) with rfl | h
          · have := hlater ht x hx
            omega
          · exact h

/-! ## One sequence of batches -/

variable {env : Env ω σ τ} {P : Pool ω σ τ} {w w' : PoolWorld ω σ τ}

/-- what the replica of a node has ordered so far, in this order -/
def PoolWorld.orderedBatches (w : PoolWorld ω σ τ) (i : NodeName) : List Ordered :=
  (w.replicas i).emitted.filterMap OutMsg.ordered?

theorem PoolWorld.mem_orderedBatches {i : NodeName} {o : Ordered} :
    o ∈ w.orderedBatches i ↔ .ordered o ∈ (w.replicas i).emitted := by
  unfold PoolWorld.orderedBatches
  rw [List.mem_filterMap]
  constructor
  · rintro ⟨m, hm, ho⟩
    cases m with
    | ordered o' =>
      cases ho
      exact hm
    | _ => cases ho
  · intro h
    exact ⟨_, h, rfl⟩

/-- the invariant holds in every run -/
theorem NodeInv.reach {ok : PoolWorld ω σ τ → NodeName × ReplicaInput ω σ τ → PoolWorld ω σ τ → Prop}
    (hr : Reach (PoolWorld.step env P) ok (PoolWorld.init env P) w) : ∀ i ∈ P.correct, NodeInv P w i :=
  hr.inv (I := fun w => ∀ i ∈ P.correct, NodeInv P w i) (NodeInv.init env P) fun _ _ _ h hs _ => NodeInv.step h hs

namespace NodeInv

variable {i j : NodeName}

theorem ordered_numbered (h : NodeInv P w i) :
    (w.orderedBatches i).map Ordered.ppSeqNo = List.range' 1 (w.replicas i).history.lastOrderedPPSeqNo :=
  h.inv.inSequence.emitted

theorem accepted_numbered (h : NodeInv P w i) :
    ((w.accepted i).map fun pp => (pp.toOrdered 0).ppSeqNo) =
      List.range' 1 (w.replicas i).history.lastPrePrepareSeqNo := by
  have hkeys := congrArg (List.map Prod.snd) h.votes.accepted
  rw [List.map_map, List.map_map] at hkeys
  exact hkeys.trans (List.map_id _)

theorem ordered_accepted (h : NodeInv P w i) {o : Ordered} (ho : o ∈ w.orderedBatches i) :
    ∃ pp ∈ w.accepted i, o = pp.toOrdered 0 := by
  obtain ⟨pp, hpp, he, -⟩ := h.votes.ordered o (PoolWorld.mem_orderedBatches.1 ho)
  rw [h.instId] at he
  exact ⟨pp, hpp, he⟩

/-- **A correct replica orders a prefix of what the correct primary has made.** -/
theorem ordered_prefix (h : ∀ i ∈ P.correct, NodeInv P w i) (hprimary : P.primary ∈ P.correct) (hi : i ∈ P.correct) :
    w.orderedBatches i <+: (w.accepted P.primary).map (PrePrepare.toOrdered · 0) := by
  have hmade : ((w.accepted P.primary).map (PrePrepare.toOrdered · 0)).map Ordered.ppSeqNo =
      List.range' 1 (w.replicas P.primary).history.lastPrePrepareSeqNo := by
    rw [List.map_map]
    exact (h _ hprimary).accepted_numbered
  refine prefix_of_numbered (h i hi).ordered_numbered hmade fun o ho => ?_
  obtain ⟨pp, hpp, rfl⟩ := (h i hi).ordered_accepted ho
  exact List.mem_map_of_mem (accepted_by_primary h hprimary hi hpp)

end NodeInv

/-- **Total order within a view.** With a correct primary each correct replica has ordered the first batches that the
primary's replica has made, and of what two correct replicas have ordered one continues the other: the same batches,
with the same requests, time and roots, in the same order. -/
theorem totalOrder (env : Env ω σ τ) (P : Pool ω σ τ) (hprimary : P.primary ∈ P.correct) {w : PoolWorld ω σ τ}
    (hr : Reach (PoolWorld.step env P) (fun _ _ _ => True) (PoolWorld.init env P) w) {i j : NodeName}
    (hi : i ∈ P.correct) (hj : j ∈ P.correct) :
    w.orderedBatches i <+: (w.accepted P.primary).map (PrePrepare.toOrdered · 0) ∧
      (w.orderedBatches i <+: w.orderedBatches j ∨ w.orderedBatches j <+: w.orderedBatches i) := by
  have hmade := NodeInv.ordered_prefix (NodeInv.reach hr) hprimary hi
  exact ⟨hmade, List.prefix_or_prefix_of_prefix hmade (NodeInv.ordered_prefix (NodeInv.reach hr) hprimary hj)⟩

/-! ## Nothing is ordered that the primary's node has not handed over -/

/-- what a node stores in the requests of its replica it stores under its key -/
def ReplicaInput.Keyed : ReplicaInput ω σ τ → Prop
  | .nodeChanged requests _ _ => requests.Keyed
  | _ => True

/-- the copies of a request key that an input brings -/
def ReplicaInput.brought (k : ReqKey) : ReplicaInput ω σ τ → ℕ
  | .receive m => (reqKeys [m]).count k
  | _ => 0

/-- the copies of a request key that the node has handed to its replica -/
def PoolWorld.handed (w : PoolWorld ω σ τ) (i : NodeName) (k : ReqKey) : ℕ := (reqKeys (w.delivered i)).count k

/-- the primary's replica holds no more copies of a request key than it was handed -/
structure Accounted (P : Pool ω σ τ) (w : PoolWorld ω σ τ) : Prop where
  keyed : (w.replicas P.primary).history.requests.Keyed
  tokens : ∀ k, (w.replicas P.primary).history.tokens k ≤ w.handed P.primary k

theorem Accounted.input (env : Env ω σ τ) {r : RunningReplica ω σ τ} {D : InMsg → Prop} (hok : Replica.Ok D r.replica)
    (hkeyed : r.history.requests.Keyed) (hprimary : r.history.cfg.primaryName = some r.history.cfg.name)
    (x : ReplicaInput ω σ τ) (hD : ∀ m, x = .receive m → D m) (hx : x.Keyed) (k : ReqKey) :
    (r.input env x).history.requests.Keyed ∧ (r.input env x).history.tokens k ≤ (x.arrive r.history).tokens k := by
  obtain ⟨-, hsteps⟩ := RunningReplica.input_steps env hok x hD
  have hkeyed' : (x.arrive r.history).requests.Keyed := by
    cases x with
    | nodeChanged requests dbs suspicions => exact hx
    | _ => exact hkeyed
  have hprimary' : (x.arrive r.history).cfg.primaryName = some (x.arrive r.history).cfg.name := by
    obtain ⟨inBox, requests, he⟩ := x.arrive_eq r.history
    rw [he]
    exact hprimary
  exact ⟨(shrinks_of_steps hsteps).keyed hkeyed', tokens_le_of_steps hkeyed' hprimary' hsteps k⟩

/-- a request key that arrives adds a copy of itself -/
theorem OrderingState.tokens_arrive (c : OrderingState ω) (x : ReplicaInput ω σ τ) (k : ReqKey) :
    (x.arrive c).tokens k = c.tokens k + x.brought k := by
  cases x with
  | receive m =>
    unfold OrderingState.tokens ReplicaInput.arrive ReplicaInput.brought
    dsimp only
    rw [reqKeys_append, List.count_append]
    omega
  | _ => rfl

/-- what a step delivers to the node it is about -/
theorem PoolWorld.handed_step {i : NodeName} {x : ReplicaInput ω σ τ} (hs : w.step env P (i, x) = some w') (j : NodeName)
    (k : ReqKey) : w'.handed j k = w.handed j k + if i = j then x.brought k else 0 := by
  unfold PoolWorld.step at hs
  split_ifs at hs
  have hw' := (Option.some.inj hs).symm
  subst hw'
  unfold PoolWorld.handed
  cases x with
  | receive m =>
    dsimp only [ReplicaInput.brought]
    by_cases hij : i = j
    · subst hij
      rw [Function.update_self, reqKeys_append, List.count_append, if_pos rfl]
    · rw [Function.update_of_ne (Ne.symm hij), if_neg hij, Nat.add_zero]
  | _ => simp [ReplicaInput.brought]

theorem PoolWorld.replicas_step {i : NodeName} {x : ReplicaInput ω σ τ} (hs : w.step env P (i, x) = some w') :
    w'.replicas = Function.update w.replicas i ((w.replicas i).input env x) := by
  unfold PoolWorld.step at hs
  split_ifs at hs
  rw [← Option.some.inj hs]

theorem Accounted.step (hinv : ∀ i ∈ P.correct, NodeInv P w i)
    (hprimary : P.primary ∈ P.correct) (h : Accounted P w) {i : NodeName} {x : ReplicaInput ω σ τ}
    (hs : w.step env P (i, x) = some w') (hx : i = P.primary → x.Keyed) : Accounted P w' := by
  have hsub := PoolWorld.delivered_subset hs P.primary
  have hreplicas := PoolWorld.replicas_step hs
  by_cases hi : i = P.primary
  · subst hi
    have hinvP := hinv _ hprimary
    have hok : Replica.Ok (· ∈ w'.delivered P.primary) (w.replicas P.primary).replica :=
      ⟨hinvP.inv.ok.held.mono fun _ hm => hsub hm, hinvP.inv.ok.inOneView⟩
    have hname : (w.replicas P.primary).history.cfg.primaryName = some (w.replicas P.primary).history.cfg.name := by
      by_contra hne
      exact hinvP.backup_iff.1 hne rfl
    have hD : ∀ m, x = .receive m → m ∈ w'.delivered P.primary := by
      rintro m rfl
      unfold PoolWorld.step at hs
      split_ifs at hs
      rw [← Option.some.inj hs]
      dsimp only
      rw [Function.update_self]
      exact List.mem_append_right _ (List.mem_singleton.2 rfl)
    have hinput := Accounted.input env hok h.keyed hname x hD (hx rfl)
    rw [← Function.update_self P.primary ((w.replicas P.primary).input env x) w.replicas, ← hreplicas] at hinput
    refine ⟨(hinput (default, 0)).1, fun k => ?_⟩
    have htokens := (hinput k).2
    have hbefore := h.tokens k
    rw [OrderingState.tokens_arrive] at htokens
    rw [PoolWorld.handed_step hs, if_pos rfl]
    omega
  · have hsame : w'.replicas P.primary = w.replicas P.primary := by
      rw [hreplicas]
      exact Function.update_of_ne (Ne.symm hi) _ _
    refine ⟨?_, fun k => ?_⟩
    · rw [hsame]
      exact h.keyed
    · rw [hsame, PoolWorld.handed_step hs, if_neg hi]
      exact h.tokens k

/-- a batch orders no request more often than its PRE-PREPARE names it -/
theorem PrePrepare.count_toOrdered_le (pp : PrePrepare) (k : ReqKey) :
    (pp.toOrdered 0).reqIdr.count k ≤ pp.reqIdr.count k := (List.take_sublist _ _).count_le k

theorem count_flatMap_le {α : Type} {f g : α → List ReqKey} {k : ReqKey} (h : ∀ a, (f a).count k ≤ (g a).count k)
    (l : List α) : (l.flatMap f).count k ≤ (l.flatMap g).count k := by
  induction l with
  | nil => exact le_rfl
  | cons a l ih =>
    rw [List.flatMap_cons, List.flatMap_cons, List.count_append, List.count_append]
    exact Nat.add_le_add (h a) ih

/-- **Integrity within a view.** With a correct primary, whose node stores requests under their keys, no correct replica
orders a request more often than the primary's node has handed it to its replica; what was not handed over is not
ordered. -/
theorem ordered_at_most_handed (env : Env ω σ τ) (P : Pool ω σ τ) (hprimary : P.primary ∈ P.correct)
    (hkeyed : (P.nodes P.primary).requests.Keyed) {w : PoolWorld ω σ τ}
    (hr : Reach (PoolWorld.step env P) (fun _ e _ => e.1 = P.primary → e.2.Keyed) (PoolWorld.init env P) w)
    {i : NodeName} (hi : i ∈ P.correct) (k : ReqKey) :
    ((w.orderedBatches i).flatMap Ordered.reqIdr).count k ≤ w.handed P.primary k := by
  have haccounted : Accounted P w := by
    refine hr.inv₂ (I := fun w => ∀ i ∈ P.correct, NodeInv P w i) (fun _ => NodeInv.reach) ⟨hkeyed, fun k => ?_⟩
      fun _ e _ hI _ hJ hs hok => hJ.step hI hprimary hs hok
    exact Nat.zero_le _
  have hmade := NodeInv.ordered_prefix (NodeInv.reach hr) hprimary hi
  calc ((w.orderedBatches i).flatMap Ordered.reqIdr).count k
      ≤ (((w.accepted P.primary).map (PrePrepare.toOrdered · 0)).flatMap Ordered.reqIdr).count k :=
        (hmade.sublist.flatMap _).count_le k
    _ ≤ ((w.accepted P.primary).flatMap PrePrepare.reqIdr).count k := by
        rw [List.flatMap_map]
        exact count_flatMap_le (PrePrepare.count_toOrdered_le · k) _
    _ ≤ (w.replicas P.primary).history.tokens k := Nat.le_add_left _ _
    _ ≤ w.handed P.primary k := haccounted.tokens k

/-! ## What stands behind an ordered batch -/

/-- a node has sent a COMMIT for a batch -/
def PoolWorld.SentCommit (w : PoolWorld ω σ τ) (i : NodeName) (key : TPCKey) : Prop :=
  ∃ cm, .threePhase (.commit cm) ∈ (w.replicas i).emitted ∧ cm.key = key

namespace NodeInv

variable {i j : NodeName}

/-- PREPAREs are counted of backups only, also by the primary -/
theorem mem_backups_of_preparedBy (h : NodeInv P w i) (hi : i ∈ P.correct) {pp : PrePrepare}
    (hprep : (w.replicas i).history.PreparedBy (· ∈ w.delivered i) pp j) : j ∈ P.names.erase P.primary := by
  rcases hprep with hown | ⟨hnot, p, hp, hmatch⟩
  · have hbackup := (h.votes.prepares _ hown.2).1
    exact h.mem_names_of_preparedBy hi (h.backup_iff.1 hbackup) (Or.inl hown)
  · refine Finset.mem_erase.2 ⟨fun hj => hnot ?_, (h.cameFrom _ j hp).1⟩
    rw [h.primaryName, h.instId, hj]

/-- a node that sends a COMMIT for its PRE-PREPARE had `2f` PREPAREs for it -/
theorem quorum_of_sentCommit (h : NodeInv P w i) (hi : i ∈ P.correct) {pp : PrePrepare} (hpp : pp ∈ w.accepted i)
    (hsent : w.SentCommit i pp.key) : ∃ S ⊆ P.names.erase P.primary, 2 * P.f ≤ S.card ∧
      ∀ j ∈ S, (w.replicas i).history.PreparedBy (· ∈ w.delivered i) pp j := by
  obtain ⟨cm, hcm, hkey⟩ := hsent
  obtain ⟨S, hcard, hS⟩ := h.votes.commits cm hcm
  rw [h.f] at hcard
  have hprep : ∀ j ∈ S, (w.replicas i).history.PreparedBy (· ∈ w.delivered i) pp j := by
    intro j hj
    have hAt := hS j hj
    rw [hkey] at hAt
    exact h.votes.preparedBy_of_preparedAt hpp hAt
  exact ⟨S, fun j hj => h.mem_backups_of_preparedBy hi (hprep j hj), hcard, hprep⟩

/-- **Correct nodes that send COMMITs for a batch have prepared the same.** -/
theorem prepare_eq_of_sentCommit (h : ∀ i ∈ P.correct, NodeInv P w i) (hi : i ∈ P.correct) (hj : j ∈ P.correct)
    {pp pp' : PrePrepare} (hpp : pp ∈ w.accepted i) (hpp' : pp' ∈ w.accepted j) (hkey : pp.key = pp'.key)
    (hsent : w.SentCommit i pp.key) (hsent' : w.SentCommit j pp'.key) : pp.prepare 0 = pp'.prepare 0 := by
  by_cases hprimary : P.primary ∈ P.correct
  · rw [(h _ hprimary).votes.unique (accepted_by_primary h hprimary hi hpp) (accepted_by_primary h hprimary hj hpp') hkey]
  · have hbyz : P.primary ∈ P.byzantine := by
      by_contra hnot
      exact hprimary (Pool.mem_correct.2 ⟨P.primary_mem, hnot⟩)
    obtain ⟨S, hSsub, hScard, hS⟩ := (h i hi).quorum_of_sentCommit hi hpp hsent
    obtain ⟨T, hTsub, hTcard, hT⟩ := (h j hj).quorum_of_sentCommit hj hpp' hsent'
    have hcount : (P.names.erase P.primary).card = 3 * P.f := by
      rw [Finset.card_erase_of_mem P.primary_mem, P.card]
      rfl
    have hmem : P.primary ∈ P.names ∩ P.byzantine := Finset.mem_inter.2 ⟨P.primary_mem, hbyz⟩
    have hfaulty : (P.names.erase P.primary ∩ P.byzantine).card + 1 ≤ P.f := by
      have hpos := Finset.card_pos.2 ⟨_, hmem⟩
      have hle := P.byzantine_card
      rw [Finset.erase_inter, Finset.card_erase_of_mem hmem]
      omega
    -- a correct backup has prepared for both, and it took in one PRE-PREPARE of this number
    obtain ⟨n, hnS, hnT, hn⟩ := exists_correct_mem_inter hSsub hTsub (Nat.le_sub_of_add_le hfaulty) (by omega)
    have hncorrect : n ∈ P.correct := Pool.mem_correct.2 ⟨(Finset.mem_erase.1 (hSsub hnS)).2, hn⟩
    obtain ⟨q, hq, hqe⟩ := prepared_of_preparedBy h hi hncorrect (hS n hnS)
    obtain ⟨q', hq', hqe'⟩ := prepared_of_preparedBy h hj hncorrect (hT n hnT)
    have h1 : q.key = pp.key := congrArg Prepare.key hqe
    have h2 : q'.key = pp'.key := congrArg Prepare.key hqe'
    rw [← hqe, ← hqe', (h n hncorrect).votes.unique hq hq' (h1.trans (hkey.trans h2.symm))]

/-- what a node counts as the COMMIT of a correct node that node has sent -/
theorem sentCommit_of_committedBy (h : NodeInv P w i) {key : TPCKey} (hj : j ∈ P.correct)
    (hc : (w.replicas i).history.CommittedBy (· ∈ w.delivered i) key j) : w.SentCommit j key := by
  rcases hc with ⟨hji, cm, hcm, hkey⟩ | ⟨cm, hcm, hkey⟩
  · rw [h.votes.name] at hji
    obtain rfl : j = i := hji
    exact ⟨cm, hcm, hkey⟩
  · obtain ⟨-, -, hbyz | hsent⟩ := h.cameFrom _ j hcm
    · exact absurd hbyz (Pool.mem_correct.1 hj).2
    · exact ⟨cm, hsent, hkey⟩

theorem mem_names_of_committedBy (h : NodeInv P w i) (hi : i ∈ P.correct) {key : TPCKey}
    (hc : (w.replicas i).history.CommittedBy (· ∈ w.delivered i) key j) : j ∈ P.names := by
  rcases hc with ⟨hji, -⟩ | ⟨cm, hcm, -⟩
  · rw [h.votes.name] at hji
    obtain rfl : j = i := hji
    exact (Pool.mem_correct.1 hi).1
  · exact (h.cameFrom _ j hcm).1

/-- more than `f` correct nodes have sent a COMMIT for a batch that is ordered -/
theorem committers_of_ordered (h : NodeInv P w i) (hi : i ∈ P.correct) {o : Ordered} (ho : o ∈ w.orderedBatches i) :
    ∃ S ⊆ P.correct, P.f + 1 ≤ S.card ∧ ∀ n ∈ S, w.SentCommit n o.key := by
  obtain ⟨pp, -, hoe, S, hcard, hS⟩ := h.votes.ordered o (PoolWorld.mem_orderedBatches.1 ho)
  rw [h.f] at hcard
  have hkey : o.key = pp.key := by
    rw [hoe]
    rfl
  have hSnames : S ⊆ P.names := fun j hj => h.mem_names_of_committedBy hi (hS j hj)
  have hcorrect : S \ P.byzantine ⊆ P.correct := Finset.sdiff_subset_sdiff hSnames (Finset.Subset.refl _)
  refine ⟨S \ P.byzantine, hcorrect, ?_, fun n hn => ?_⟩
  · have hsplit := Finset.card_sdiff_add_card_inter S P.byzantine
    have hfew : (S ∩ P.byzantine).card ≤ P.f :=
      (Finset.card_le_card (Finset.inter_subset_inter_right hSnames)).trans P.byzantine_card
    omega
  · rw [hkey]
    exact h.sentCommit_of_committedBy (hcorrect hn) (hS n (Finset.mem_sdiff.1 hn).1)

/-- who has sent a COMMIT has taken a PRE-PREPARE of the batch in -/
theorem accepted_of_sentCommit (h : NodeInv P w i) (hf : 0 < P.f) {key : TPCKey} (hsent : w.SentCommit i key) :
    ∃ pp ∈ w.accepted i, pp.key = key := by
  obtain ⟨cm, hcm, rfl⟩ := hsent
  obtain ⟨S, hcard, hS⟩ := h.votes.commits cm hcm
  rw [h.f] at hcard
  obtain ⟨n, hn⟩ := Finset.card_pos.1 ((Nat.mul_pos two_pos hf).trans_le hcard)
  obtain ⟨pp, hpp, hkey, -⟩ := hS n hn
  exact ⟨pp, hpp, hkey⟩

end NodeInv

/-- **What stands behind an ordered batch** within a view, also with a byzantine primary: more than `f` correct nodes
have sent a COMMIT for it, and all correct nodes that have sent one took in PRE-PREPAREs that no PREPARE tells apart. -/
theorem ordered_certified (env : Env ω σ τ) (P : Pool ω σ τ) (hf : 0 < P.f) {w : PoolWorld ω σ τ}
    (hr : Reach (PoolWorld.step env P) (fun _ _ _ => True) (PoolWorld.init env P) w) {i : NodeName} (hi : i ∈ P.correct)
    {o : Ordered} (ho : o ∈ w.orderedBatches i) :
    ∃ p : Prepare, p.key = o.key ∧
      (∃ S ⊆ P.correct, P.f + 1 ≤ S.card ∧ ∀ n ∈ S, w.SentCommit n o.key) ∧
      ∀ n ∈ P.correct, w.SentCommit n o.key → ∃ pp ∈ w.accepted n, pp.prepare 0 = p := by
  have h := NodeInv.reach hr
  obtain ⟨S, hS, hcard, hsent⟩ := (h i hi).committers_of_ordered hi ho
  obtain ⟨m, hm⟩ := Finset.card_pos.1 ((Nat.succ_pos P.f).trans_le hcard)
  obtain ⟨pp, hpp, hkey⟩ := (h m (hS hm)).accepted_of_sentCommit hf (hsent m hm)
  refine ⟨pp.prepare 0, hkey, ⟨S, hS, hcard, hsent⟩, fun n hn hsentn => ?_⟩
  obtain ⟨pp', hpp', hkey'⟩ := (h n hn).accepted_of_sentCommit hf hsentn
  refine ⟨pp', hpp', NodeInv.prepare_eq_of_sentCommit h hn (hS hm) hpp' hpp (hkey'.trans hkey.symm) ?_ ?_⟩
  · rw [hkey']
    exact hsentn
  · rw [hkey]
    exact hsent m hm

/-! ## Witnesses -/

open FourNodes in
theorem silentDelta_enabled : (runAll (PoolWorld.step (FourNodes.env 10) (pool {"Delta"} (by decide)))
    (fun _ _ _ => True) (PoolWorld.init (FourNodes.env 10) (pool {"Delta"} (by decide)))
    (silentDelta (prePrepare 1 (request 1 "a")))).isSome := by decide +kernel

open FourNodes in
theorem totalOrder_silentDelta : ∃ w : PoolWorld Bool ℕ ReqKey, (w.orderedBatches "Beta").length = 1 ∧
    (w.orderedBatches "Beta" <+: w.orderedBatches "Gamma" ∨ w.orderedBatches "Gamma" <+: w.orderedBatches "Beta") :=
  ⟨_, by decide +kernel, (totalOrder (FourNodes.env 10) (pool {"Delta"} (by decide)) (by decide)
    (reach_get _ silentDelta_enabled) (by decide) (by decide)).2⟩

def ReplicaInput.isNodeChange : ReplicaInput ω σ τ → Bool
  | .nodeChanged _ _ _ => true
  | _ => false

open FourNodes in
theorem silentDelta_unchanged : (runAll (PoolWorld.step (FourNodes.env 10) (pool {"Delta"} (by decide)))
    (fun _ e _ => e.2.isNodeChange = false) (PoolWorld.init (FourNodes.env 10) (pool {"Delta"} (by decide)))
    (silentDelta (prePrepare 1 (request 1 "a")))).isSome := by decide +kernel

open FourNodes in
theorem keyed_forwarded (req : Request Bool) : (forwarded req 2 []).Keyed req.key :=
  ⟨fun _ he => (by cases he), fun _ hr => (by cases hr; rfl)⟩

open FourNodes in
theorem keyed_twoRequests (name : NodeName) : (twoRequests name).requests.Keyed := by
  intro e he
  have he' : e ∈ [((request 1 "a").key, forwarded (request 1 "a") 2 []),
    ((request 2 "b").key, forwarded (request 2 "b") 2 [])] := he
  rcases List.mem_cons.1 he' with rfl | he'
  · exact keyed_forwarded (request 1 "a")
  · rw [List.mem_singleton.1 he']
    exact keyed_forwarded (request 2 "b")

open FourNodes in
theorem ordered_at_most_handed_silentDelta : ∃ w : PoolWorld Bool ℕ ReqKey,
    (w.orderedBatches "Beta").flatMap Ordered.reqIdr = [("client", 1)] ∧ w.handed "Alpha" ("client", 1) = 1 ∧
      ((w.orderedBatches "Beta").flatMap Ordered.reqIdr).count ("client", 1) ≤ w.handed "Alpha" ("client", 1) := by
  have hr : Reach (PoolWorld.step (FourNodes.env 10) (pool {"Delta"} (by decide)))
      (fun _ e _ => e.1 = "Alpha" → e.2.Keyed) (PoolWorld.init (FourNodes.env 10) (pool {"Delta"} (by decide)))
      ((runAll _ _ _ _).get silentDelta_unchanged) := by
    refine (reach_get _ silentDelta_unchanged).mono fun _ e _ he _ => ?_
    obtain ⟨n, x⟩ := e
    cases x with
    | nodeChanged => cases he
    | _ => trivial
  exact ⟨_, by decide +kernel, by decide +kernel, ordered_at_most_handed (FourNodes.env 10)
    (pool {"Delta"} (by decide)) (by decide) (keyed_twoRequests "Alpha") hr (by decide) _⟩

open FourNodes in
theorem equivocation_enabled : (runAll (PoolWorld.step (FourNodes.env 10) (pool {"Alpha"} (by decide)))
    (fun _ _ _ => True) (PoolWorld.init (FourNodes.env 10) (pool {"Alpha"} (by decide)))
    (equivocation (prePrepare 1 (request 1 "a")) (prePrepare 1 (request 2 "b")))).isSome := by decide +kernel

open FourNodes in
/-- Beta, which has ordered another batch than Gamma, did so on the COMMITs for Gamma's -/
theorem ordered_certified_equivocation : ∃ w : PoolWorld Bool ℕ ReqKey, ∃ o ∈ w.orderedBatches "Beta",
    ∃ p : Prepare, p.key = o.key ∧ ∃ pp ∈ w.accepted "Gamma", pp.prepare 0 = p := by
  have ho : (prePrepare 1 (request 1 "a")).toOrdered 0 ∈
      ((runAll _ _ _ _).get equivocation_enabled).orderedBatches "Beta" := by decide +kernel
  have hsent : ((runAll _ _ _ _).get equivocation_enabled).SentCommit "Gamma" (0, 1) :=
    ⟨⟨0, 0, 1⟩, by decide +kernel, rfl⟩
  obtain ⟨p, hp, -, hall⟩ := ordered_certified (FourNodes.env 10) (pool {"Alpha"} (by decide)) (by decide)
    (reach_get _ equivocation_enabled) (by decide) ho
  exact ⟨_, _, ho, p, hp, hall "Gamma" (by decide) hsent⟩

end Plenum
