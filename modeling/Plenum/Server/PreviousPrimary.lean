/-
When the primary of the master instance in the previous view is elected again.

- A nomination or a declaration of it is discarded as long as the master instance is undecided, and the node itself does
  not choose the master instance if it was its primary. But actions of the old view still run: the node may nominate
  itself there nevertheless.
- `Guarded`: until the master instance is decided, the only vote for it can be the own nomination of that node. One vote
  is no clear winner of a quorum of nominations.
- `Barred`: the master instance is guarded, or it has another primary. `KeepsOut` is what an elector keeps in all writes
  and view changes; it is lost if a view starts while the elector settles the master instance, since the elector clears
  the marker of that instance when it goes on.
- `previousPrimary_not_elected`: otherwise the master instance never gets the former primary, whatever the node receives
  and whatever has been scheduled.
- `formerPrimary_elected_again`: a wrong PRE-PREPARE that has waited for the election starts the new view from within.
-/
import Mathlib.Tactic
import Plenum.Scenarios.FourElectors
import Plenum.Scenarios.FourNodes
import Plenum.Server.ElectionPool
import Plenum.Server.PrimaryChange
import Plenum.Server.ReelectionRounds

namespace Plenum

open Plenum.Core Plenum.Core.Exec Relation

namespace PrimaryElector

variable {second : ℕ} {c : Cause} {s s' : PrimaryElector} {P : NodeName}

/-- **Guarded.** The master instance is undecided, and no vote there is for the last primary, but the own nomination if
the node is the last primary itself. -/
structure Guarded (P : NodeName) (s : PrimaryElector) : Prop where
  previous : s.previousMasterPrimary = some P
  undecided : ∀ k, s.known 0 = some k → k.2 = none
  nominations : ∀ e ∈ (s.nominationsOf 0).entries, getNodeName e.2.1 = P → e.1 = generateName s.name 0
  declarations : ∀ e ∈ (s.primaryDeclarationsOf 0).entries, getNodeName e.2.1 ≠ P

/-- **Barred.** The last primary is not elected again. -/
def Barred (P : NodeName) (s : PrimaryElector) : Prop :=
  (∃ n p, s.known 0 = some (n, some p) ∧ getNodeName p ≠ P) ∨ Guarded P s

/-! ## The winner of the nominations -/

/-- the nominations of a candidate in an instance -/
def votesFor (s : PrimaryElector) (instId : ℕ) (candidate : Candidate) : ℕ :=
  (s.nominationsOf instId).values.countP fun v => decide (v = candidate)

/-- the only candidate with the most nominations has more of them than any other -/
theorem getPrimaryCandidates_eq {i : ℕ} {candidate : Candidate} {votes : ℕ}
    (h : s.getPrimaryCandidates i = [(candidate, votes)]) :
    votes = s.votesFor i candidate ∧
      ∀ other ∈ (s.nominationsOf i).values, other ≠ candidate → s.votesFor i other < votes := by
  unfold getPrimaryCandidates at h
  dsimp only at h
  cases hmax : maxEntry (itemCounts (s.nominationsOf i).values).entries with
  | none =>
    rw [hmax] at h
    cases h
  | some m =>
    rw [hmax] at h
    dsimp only at h
    have hentry : (candidate, votes) ∈ (itemCounts (s.nominationsOf i).values).entries ∧ votes = m.2 := by
      have hcandidate := List.mem_singleton_self (candidate, votes)
      rw [← h, List.mem_filter] at hcandidate
      exact ⟨hcandidate.1, of_decide_eq_true hcandidate.2⟩
    refine ⟨(mem_itemCounts.1 hentry.1).2, fun other hother hne => ?_⟩
    have hother' : (other, s.votesFor i other) ∈ (itemCounts (s.nominationsOf i).values).entries :=
      mem_itemCounts.2 ⟨hother, rfl⟩
    have hle : s.votesFor i other ≤ votes := ((maxEntry_spec hmax).2 _ hother').trans_eq hentry.2.symm
    refine lt_of_le_of_ne hle fun heq => hne ?_
    have hleader : (other, s.votesFor i other) ∈ [(candidate, votes)] := by
      rw [← h, List.mem_filter]
      exact ⟨hother', decide_eq_true (heq.trans hentry.2)⟩
    exact congrArg Prod.fst (List.mem_singleton.1 hleader)

/-- **The last primary is no clear winner**: only the node itself can have nominated it, and there are others. -/
theorem Guarded.winner_ne (hguarded : Guarded P s) (hf : 1 ≤ s.f) (hquorum : s.hasNominationQuorum 0 = true)
    {candidate : Candidate} {votes : ℕ} (h : s.getPrimaryCandidates 0 = [(candidate, votes)]) :
    getNodeName candidate.1 ≠ P := by
  intro hcandidate
  obtain ⟨hvotes, hless⟩ := getPrimaryCandidates_eq h
  -- only the own nomination can be for it
  have hown : s.votesFor 0 candidate ≤ 1 := by
    rw [votesFor, Dict.countP_values]
    refine (Finset.card_le_card (t := {generateName s.name 0}) fun k hk => ?_).trans_eq (Finset.card_singleton _)
    have hvote := (Finset.mem_filter.1 hk).2
    cases hget : (s.nominationsOf 0).get? k with
    | none =>
      rw [hget] at hvote
      cases hvote
    | some v =>
      rw [hget] at hvote
      have hv : v = candidate := of_decide_eq_true hvote
      exact Finset.mem_singleton.2 (hguarded.nominations _ (Dict.get?_eq_some.1 hget) (hv ▸ hcandidate))
  -- another one has nominated
  obtain ⟨k, hk, hne⟩ : ∃ k ∈ (s.nominationsOf 0).keys, k ≠ generateName s.name 0 := by
    by_contra hall
    push Not at hall
    have hsize : (s.nominationsOf 0).size ≤ 1 := by
      rw [Dict.size_eq_card]
      refine (Finset.card_le_card (t := {generateName s.name 0}) fun k hk => ?_).trans_eq (Finset.card_singleton _)
      exact Finset.mem_singleton.2 (hall k (List.mem_toFinset.1 hk))
    have henough : s.quorum ≤ (s.nominationsOf 0).size := of_decide_eq_true hquorum
    unfold quorum getStrongQuorum at henough
    omega
  obtain ⟨v, hv⟩ := Dict.mem_fst.1 hk
  have hvother : v ≠ candidate := fun heq => hne (hguarded.nominations _ hv (heq ▸ hcandidate))
  have hmem : v ∈ (s.nominationsOf 0).values := List.mem_map_of_mem hv
  have hpos : 0 < s.votesFor 0 v := List.countP_pos_iff.2 ⟨v, hmem, decide_eq_true rfl⟩
  have hlt := hless v hmem hvother
  omega

/-! ## Writes -/

theorem ne_of_not_excludes {i : ℕ} {name : RepName} (hprevious : s.previousMasterPrimary = some P)
    (h : s.excludes i name = false) (hi : i = 0) : getNodeName name ≠ P := by
  intro hname
  exact of_decide_eq_false h ⟨hi, hname ▸ hprevious⟩

/-- a nomination of another candidate, or under the own name -/
theorem Guarded.setNomination (h : Guarded P s) (i : ℕ) (r : RepName) (candidate : Candidate)
    (hvote : i = 0 → getNodeName candidate.1 ≠ P ∨ r = generateName s.name 0) :
    Guarded P (s.setNomination i r candidate) := by
  refine ⟨h.previous, h.undecided, fun e he hname => ?_, h.declarations⟩
  rw [nominationsOf_setNomination] at he
  split_ifs at he with hi
  · rcases Dict.mem_set.1 he with rfl | ⟨he, -⟩
    · exact (hvote hi.symm).resolve_left fun hne => hne hname
    · exact h.nominations e (hi ▸ he) hname
  · exact h.nominations e he hname

/-- a declaration of another candidate -/
theorem Guarded.setPrimaryDeclaration (h : Guarded P s) (i : ℕ) (r : RepName) (candidate : Candidate)
    (hvote : i = 0 → getNodeName candidate.1 ≠ P) : Guarded P (s.setPrimaryDeclaration i r candidate) := by
  refine ⟨h.previous, h.undecided, h.nominations, fun e he => ?_⟩
  rw [primaryDeclarationsOf_setPrimaryDeclaration_eq] at he
  split_ifs at he with hi
  · rcases Dict.mem_set.1 he with rfl | ⟨he, -⟩
    · exact hvote hi.symm
    · exact h.declarations e (hi ▸ he)
  · exact h.declarations e he

/-- emptied tables -/
theorem Guarded.of_emptied (h : Guarded P s) (hname : s'.name = s.name)
    (hprevious : s'.previousMasterPrimary = s.previousMasterPrimary) (hknown : s'.known 0 = s.known 0)
    (hnominations : s'.nominationsOf 0 = Dict.empty ∨ s'.nominationsOf 0 = s.nominationsOf 0)
    (hdeclarations : s'.primaryDeclarationsOf 0 = Dict.empty ∨
      s'.primaryDeclarationsOf 0 = s.primaryDeclarationsOf 0) : Guarded P s' := by
  refine ⟨hprevious.trans h.previous, hknown ▸ h.undecided, fun e he => ?_, fun e he => ?_⟩
  · rcases hnominations with hempty | hsame
    · rw [hempty] at he
      cases he
    · rw [hname]
      exact h.nominations e (hsame ▸ he)
  · rcases hdeclarations with hempty | hsame
    · rw [hempty] at he
      cases he
    · exact h.declarations e (hsame ▸ he)

theorem ite_or {α : Type} {p : Prop} [Decidable p] {a b x : α} (h : x = if p then a else b) : x = a ∨ x = b := by
  split_ifs at h
  · exact Or.inl h
  · exact Or.inr h

/-- the primary that settles the master instance is another one -/
theorem Guarded.select (h : Guarded P s) (i : ℕ) (r : RepName) {candidate : Candidate}
    (hvote : i = 0 → getNodeName candidate.1 ≠ P) {replica : ElectedReplica} (hr : s.replicas[i]? = some replica)
    {primary : RepName} {seqNo : ℕ}
    (hmost : mostCommonElement ((s.primaryDeclarationsOf i).set r candidate).values = some (primary, seqNo)) :
    Barred P ((s.setPrimaryDeclaration i r candidate).afterSelection i primary seqNo) := by
  have hrecorded := h.setPrimaryDeclaration i r candidate hvote
  obtain ⟨hknown, hdeclarations, -⟩ := afterSelection_eq (s.setPrimaryDeclaration i r candidate) i primary seqNo
  by_cases hi : i = 0
  · subst hi
    refine Or.inl ⟨replica.name, primary, ?_, ?_⟩
    · rw [hknown, known_setPrimary, if_pos rfl]
      have hbefore : (s.setPrimaryDeclaration 0 r candidate).known 0 = some (replica.name, replica.primaryName) := by
        unfold known
        rw [show (s.setPrimaryDeclaration 0 r candidate).replicas = s.replicas from rfl, hr]
        rfl
      rw [hbefore]
      rfl
    · obtain ⟨e, he, hvalue⟩ := List.mem_map.1 (mostCommonElement_spec hmost).1
      have hne := hrecorded.declarations e (by rwa [primaryDeclarationsOf_setPrimaryDeclaration])
      rwa [hvalue] at hne
  · refine Or.inr (hrecorded.of_emptied ?_ ?_ ?_ (Or.inr ?_) (Or.inr (hdeclarations 0)))
    · unfold afterSelection
      dsimp only
      split_ifs <;> rfl
    · unfold afterSelection
      dsimp only
      rw [if_neg hi]
      split_ifs <;> rfl
    · rw [hknown, known_setPrimary, if_neg fun h0 => hi h0.symm]
    · unfold afterSelection
      dsimp only
      split_ifs <;> rfl

/-- **One write** keeps the last primary barred. -/
theorem Write.barred (h : Write second c s s') (hnamed : s.Named) (hf : 1 ≤ s.f) (hs : Barred P s) : Barred P s' := by
  rcases hs with ⟨n, p, hknown, hp⟩ | hguarded
  · -- a primary that is known stays
    refine Or.inl ⟨n, p, ?_, hp⟩
    cases h with
    | quiet hq => rw [hq.known, hknown]
    | select _ prim sender _ _ _ r hr _ _ hopen _ primary seqNo =>
      rw [(afterSelection_eq _ _ _ _).1, known_setPrimary]
      split_ifs with hi
      · obtain ⟨r', hr', -, hp'⟩ := known_eq_some.1 hknown
        rw [hi] at hr'
        cases hr.symm.trans hr'
        rw [hopen] at hp'
        cases hp'
      · exact hknown
    | _ => exact hknown
  · cases h with
    | quiet hq =>
      exact Or.inr (hguarded.of_emptied hq.name hq.previousMasterPrimary (hq.known 0)
        (Or.inr (by unfold nominationsOf; rw [hq.nominations])) (Or.inr (hq.declarations 0)))
    | start i =>
      obtain ⟨hnominations, hdeclarations, -⟩ := setDefaults_tables s i 0
      exact Or.inr (hguarded.of_emptied rfl rfl rfl (ite_or hnominations) (ite_or hdeclarations))
    | restart m =>
      obtain ⟨hnominations, hdeclarations, -⟩ := setElectionDefaults_tables s m.instId 0
      exact Or.inr (hguarded.of_emptied rfl rfl rfl (ite_or hnominations) (ite_or hdeclarations))
    | choose | wait | propose | recordReelection | sendAgain =>
      exact Or.inr ⟨hguarded.previous, hguarded.undecided, hguarded.nominations, hguarded.declarations⟩
    | nominateSelf i r hr =>
      have hset := hguarded.setNomination i r.name (r.name, r.lastOrderedPPSeqNo)
        fun hi => Or.inr (hi ▸ hnamed i r hr)
      exact Or.inr ⟨hset.previous, hset.undecided, hset.nominations, hset.declarations⟩
    | follow _ nom sender _ r hr hallowed =>
      have hset := hguarded.setNomination nom.instId r.name (nom.name, nom.ordSeqNo)
        fun hi => Or.inl (ne_of_not_excludes hguarded.previous hallowed hi)
      exact Or.inr ⟨hset.previous, hset.undecided, hset.nominations, hset.declarations⟩
    | recordNomination _ nom sender _ _ _ hallowed =>
      exact Or.inr (hguarded.setNomination nom.instId _ _
        fun hi => Or.inl (ne_of_not_excludes hguarded.previous hallowed hi))
    | declare _ i _ r hr _ _ hquorum candidate votes hclear =>
      have hset := hguarded.setPrimaryDeclaration i r.name candidate fun hi => by
        subst hi
        exact hguarded.winner_ne hf hquorum hclear
      exact Or.inr ⟨hset.previous, hset.undecided, hset.nominations, hset.declarations⟩
    | recordPrimary _ prim sender _ _ _ r hr hallowed =>
      exact Or.inr (hguarded.setPrimaryDeclaration prim.instId _ _
        fun hi => ne_of_not_excludes hguarded.previous hallowed hi)
    | select _ prim sender _ _ _ r hr hallowed _ _ _ primary seqNo hmost =>
      exact hguarded.select prim.instId _
        (fun hi => ne_of_not_excludes hguarded.previous hallowed hi) hr hmost

theorem Writes.barred (h : Writes second c s s') (hnamed : s.Named) (hf : 1 ≤ s.f) (hs : Barred P s) :
    Barred P s' := by
  induction h with
  | refl => exact hs
  | tail hwrites hwrite ih =>
    obtain ⟨hname, hf', hknown⟩ := Writes.names hwrites
    exact hwrite.barred (hnamed.of_names hname hknown) (hf'.symm ▸ hf) ih

/-! ## View changes -/

theorem masterPrimary_eq (s : PrimaryElector) : s.masterPrimary = ((s.known 0).bind Prod.snd).map getNodeName := by
  unfold masterPrimary known
  cases s.replicas[0]? <;> rfl

/-- a view change bars the primary that the node knew -/
theorem viewChanged_guarded (hnamed : s.Named) (hprimary : s.masterPrimary = some P) {viewNo : ℕ}
    (hview : s.viewNo < viewNo) : Guarded P (s.viewChanged viewNo) := by
  have hnew := viewChanged_newView hnamed hview
  have hknown : (s.known 0).isSome = true := by
    cases hk : s.known 0 with
    | none =>
      rw [masterPrimary_eq, hk] at hprimary
      cases hprimary
    | some k => rfl
  refine ⟨hnew.previousMasterPrimary.trans hprimary, fun k hk => ?_, fun e he => ?_, fun e he => ?_⟩
  · rw [hnew.known, Option.map_eq_some_iff] at hk
    obtain ⟨k', -, rfl⟩ := hk
    rfl
  · rw [hnew.nominations 0 hknown] at he
    cases he
  · rw [hnew.declarations 0 hknown] at he
    cases he

/-! ## What an elector keeps -/

/-- **What keeps the former primary out**: it is barred, and the primaries that the master instance has got were others
than the former ones. -/
structure KeepsOut (s : PrimaryElector) : Prop where
  named : s.Named
  f_pos : 1 ≤ s.f
  barred : ∀ P, s.formerMasterPrimary = some P → Barred P s
  others : ∀ e ∈ s.masterPrimaries, e.1 ≠ some e.2

/-- what a selection writes beside the primary -/
theorem afterSelection_frame (s : PrimaryElector) (i : ℕ) (primary : RepName) (seqNo : ℕ) :
    (s.afterSelection i primary seqNo).name = s.name ∧
      (s.afterSelection i primary seqNo).formerMasterPrimary = s.formerMasterPrimary ∧
      (s.afterSelection i primary seqNo).masterPrimaries = (s.setPrimary i primary seqNo).masterPrimaries ∧
      (s.afterSelection i primary seqNo).nominations = s.nominations ∧
      (s.afterSelection i primary seqNo).primaryDeclarations = s.primaryDeclarations ∧
      (s.afterSelection i primary seqNo).previousMasterPrimary = if i = 0 then none else s.previousMasterPrimary := by
  unfold afterSelection
  dsimp only
  split_ifs <;> exact ⟨rfl, rfl, rfl, rfl, rfl, rfl⟩

/-- a write gives the master instance a primary at most, which is then known -/
theorem Write.histories (h : Write second c s s') : s'.formerMasterPrimary = s.formerMasterPrimary ∧
    (s'.masterPrimaries = s.masterPrimaries ∨ ∃ n p, s'.known 0 = some (n, some p) ∧
      s'.masterPrimaries = s.masterPrimaries ++ [(s.formerMasterPrimary, getNodeName p)]) := by
  cases h with
  | quiet hq => exact ⟨hq.formerMasterPrimary, Or.inl hq.masterPrimaries⟩
  | select _ prim sender _ _ _ r hr _ _ _ _ primary seqNo =>
    obtain ⟨-, hformer, hprimaries, -⟩ := afterSelection_frame (s.setPrimaryDeclaration prim.instId
      (generateName sender prim.instId) (prim.name, prim.ordSeqNo)) prim.instId primary seqNo
    refine ⟨hformer, ?_⟩
    rw [hprimaries, setPrimary]
    dsimp only
    split_ifs with hi
    · refine Or.inr ⟨r.name, primary, ?_, rfl⟩
      rw [hi] at hr
      rw [(afterSelection_eq _ _ _ _).1, known_setPrimary, if_pos hi.symm, known,
        show (s.setPrimaryDeclaration prim.instId (generateName sender prim.instId)
          (prim.name, prim.ordSeqNo)).replicas = s.replicas from rfl, hr]
      rfl
    · exact Or.inl rfl
  | _ => exact ⟨rfl, Or.inl rfl⟩

/-- the messages dispatched for an instance start no view, unless one of them raises; no view change is cut short -/
def Dispatched.leavesView (d : Dispatched) (instId : ℕ) : Bool :=
  d.views.all (fun v => !v.raises) && (decide (instId ≠ 0) || d.views.isEmpty || d.raises)

theorem Dispatched.leavesView_iff {d : Dispatched} {i : ℕ} : d.leavesView i = true ↔
    (∀ v ∈ d.views, v.raises = false) ∧ (i = 0 → d.views ≠ [] → d.raises = true) := by
  simp [leavesView, List.all_eq_true, or_iff_not_imp_left]

namespace KeepsOut

theorem write (hs : s.KeepsOut) (h : Write second c s s') : s'.KeepsOut := by
  obtain ⟨hname, hf, hknown⟩ := h.names
  obtain ⟨hformer, hprimaries⟩ := h.histories
  have hbarred : ∀ P, s.formerMasterPrimary = some P → Barred P s' := fun P hP =>
    h.barred hs.named hs.f_pos (hs.barred P hP)
  refine ⟨hs.named.of_names hname hknown, hf.symm ▸ hs.f_pos, fun P hP => hbarred P (hformer ▸ hP), fun e he => ?_⟩
  rcases hprimaries with hsame | ⟨n, p, hp, hadded⟩
  · exact hs.others e (hsame ▸ he)
  · rw [hadded] at he
    rcases List.mem_append.1 he with he | he
    · exact hs.others e he
    · rw [List.mem_singleton.1 he]
      intro heq
      rcases hbarred _ heq with ⟨n', p', hp', hne⟩ | hguarded
      · cases hp.symm.trans hp'
        exact hne rfl
      · exact absurd (hguarded.undecided _ hp) (Option.some_ne_none p)

theorem writes (hs : s.KeepsOut) (h : Writes second c s s') : s'.KeepsOut := by
  induction h with
  | refl => exact hs
  | tail _ hwrite ih => exact ih.write hwrite

/-- a view change bars the primary that the node knew -/
theorem viewChanged (hs : s.KeepsOut) (viewNo : ℕ) : (s.viewChanged viewNo).KeepsOut := by
  by_cases hview : s.viewNo < viewNo
  · have hnew := viewChanged_newView hs.named hview
    refine ⟨hs.named.of_names hnew.name fun i => ?_, hnew.f.symm ▸ hs.f_pos, fun P hP => Or.inr ?_, ?_⟩
    · rw [hnew.known, Option.map_map]
      rfl
    · exact viewChanged_guarded hs.named (hnew.formerMasterPrimary.symm.trans hP) hview
    · rw [hnew.masterPrimaries]
      exact hs.others
  · rw [show s.viewChanged viewNo = s from if_neg hview]
    exact hs

/-- views that start, with no exception meanwhile -/
theorem startViews (hs : s.KeepsOut) {views : List StartedView} (hviews : ∀ v ∈ views, v.raises = false) :
    (views.foldl startView s).KeepsOut := by
  induction views generalizing s with
  | nil => exact hs
  | cons v views ih =>
    have hv : s.startView v = s.viewChanged v.viewNo := by
      rw [startView, hviews v List.mem_cons_self, if_neg Bool.false_ne_true]
    rw [List.foldl_cons, hv]
    exact ih (hs.viewChanged v.viewNo) fun v' hv' => hviews v' (List.mem_cons_of_mem _ hv')

/-- the flags of an election that another one follows do not matter -/
theorem of_same (hs : s.KeepsOut) (hname : s'.name = s.name) (hf : s'.f = s.f) (hknown : ∀ i, s'.known i = s.known i)
    (hprevious : s'.previousMasterPrimary = s.previousMasterPrimary) (hnominations : s'.nominations = s.nominations)
    (hdeclarations : s'.primaryDeclarations = s.primaryDeclarations)
    (hformer : s'.formerMasterPrimary = s.formerMasterPrimary) (hprimaries : s'.masterPrimaries = s.masterPrimaries) :
    s'.KeepsOut := by
  refine ⟨hs.named.of_names hname fun i => by rw [hknown], hf.symm ▸ hs.f_pos, fun P hP => ?_, hprimaries ▸ hs.others⟩
  rcases hs.barred P (hformer ▸ hP) with ⟨n, p, hp, hne⟩ | hguarded
  · exact Or.inl ⟨n, p, (hknown 0).trans hp, hne⟩
  · refine Or.inr (hguarded.of_emptied hname hprevious (hknown 0) (Or.inr ?_) (Or.inr ?_))
    · rw [nominationsOf, hnominations, nominationsOf]
    · rw [primaryDeclarationsOf, hdeclarations, primaryDeclarationsOf]

/-- a primary that is settled is there before the flags of its election are -/
theorem of_afterSelection {i : ℕ} {primary : RepName} {seqNo : ℕ}
    (hs : (s.afterSelection i primary seqNo).KeepsOut) : (s.setPrimary i primary seqNo).KeepsOut := by
  obtain ⟨hknown, -, hf⟩ := afterSelection_eq s i primary seqNo
  obtain ⟨hname, hformer, hprimaries, hnominations, hdeclarations, hprevious⟩ := afterSelection_frame s i primary seqNo
  refine ⟨hs.named.of_names hname.symm fun j => by rw [hknown], hf ▸ hs.f_pos, fun P hP => ?_,
    hprimaries ▸ hs.others⟩
  rcases hs.barred P (hformer.trans hP) with ⟨n, p, hp, hne⟩ | hguarded
  · exact Or.inl ⟨n, p, (hknown 0).symm.trans hp, hne⟩
  · -- the marker is still there, so it was another instance
    have hmarked := hprevious.symm.trans hguarded.previous
    split_ifs at hmarked
    refine Or.inr (hguarded.of_emptied hname.symm (hmarked.trans hguarded.previous.symm) (hknown 0).symm
      (Or.inr ?_) (Or.inr ?_))
    · rw [nominationsOf, nominationsOf, hnominations]
      rfl
    · rw [primaryDeclarationsOf, primaryDeclarationsOf, hdeclarations]
      rfl

/-- **A primary is settled.** No view change is cut short, and if one starts from within, the elector does not come back
to the flags of the master instance. -/
theorem selectPrimary {i : ℕ} {primary : RepName} {seqNo : ℕ}
    (hs : (s.afterSelection i primary seqNo).KeepsOut)
    (hmost : mostCommonElement (s.primaryDeclarationsOf i).values = some (primary, seqNo)) {d : Dispatched}
    (hleaves : d.leavesView i = true) : (s.selectPrimary i d).KeepsOut := by
  obtain ⟨hviews, hmaster⟩ := Dispatched.leavesView_iff.1 hleaves
  obtain ⟨views, raises⟩ := d
  have hchanged : (s.primaryChanged i primary seqNo ⟨views, raises⟩).KeepsOut := hs.of_afterSelection.startViews hviews
  unfold PrimaryElector.selectPrimary
  rw [hmost]
  dsimp only
  by_cases hraises : raises = true
  · rw [if_pos hraises]
    exact hchanged
  · rw [if_neg hraises]
    have hquiet : ∀ s₁ : PrimaryElector, Write 0 .other s₁ s₁.scheduleElection := fun s₁ =>
      .quiet (schedule_quiet s₁ 0 fun _ h => by cases h)
    refine write ?_ (hquiet _)
    by_cases hi : i = 0
    · -- no view has started
      have hnone : views = [] := by
        by_contra hviews
        exact hraises (hmaster hi hviews)
      rw [hnone]
      exact hs
    · rw [if_neg hi]
      split_ifs
      · exact hchanged.of_same rfl rfl (fun _ => rfl) rfl rfl rfl rfl rfl
      · exact hchanged

/-- what happens to the elector by itself -/
theorem handle (hs : s.KeepsOut) {e : ElectorEvent} (he : e.isOwn = true) : (s.handle second e).KeepsOut := by
  have hwrites : Writes second (s.causeOf e) s (s.handle second e) := by
    refine handle_writes s fun viewNo hv => ?_
    rw [hv] at he
    cases he
  exact hs.writes hwrites

theorem processPrimary (hs : s.KeepsOut) (m : Primary) (sender : NodeName) {d : Dispatched}
    (hleaves : d.leavesView m.instId = true) : (s.processPrimary m sender d).KeepsOut := by
  have hspec := processPrimary_spec 0 s m sender
  cases hsettled : s.settledBy m sender with
  | none =>
    rw [hsettled] at hspec
    obtain ⟨s', hwrites, hprocess⟩ := hspec
    rw [hprocess]
    exact hs.writes hwrites
  | some candidate =>
    rw [hsettled] at hspec
    obtain ⟨s₁, hwrites, hselect, hmost, hprocess⟩ := hspec
    rw [hprocess]
    exact ((hs.writes hwrites).write hselect).selectPrimary hmost hleaves

end KeepsOut

end PrimaryElector

/-! ## What a node keeps -/

namespace ElectingNode

open PrimaryElector ViewChanger

variable {second : ℕ} {cfg : ViewChangeConfig} {n n' : ElectingNode}

/-- **The condition**, before a step. The master replica does not raise when a view that starts makes its primary unknown,
and a declaration that settles the master instance has no messages dispatched that start a view and then let the elector
go on. -/
def settlesInView (cfg : ViewChangeConfig) (n : ElectingNode) : ElectingEvent → Bool
  | .handleNext pended _ =>
    match n.servicing with
    | (.primary m, sender) :: _ =>
      (n.elector.settledBy m sender).isNone || (n.dispatched cfg pended).2.leavesView m.instId
    | _ => true
  | .vote x sur =>
    (startedViews sur n.viewChanger (n.viewChanger.input cfg (n.surroundings sur) x)).all fun v => !v.raises
  | _ => true

/-- messages that start no view -/
theorem keepsOut_inBoxRouter (second : ℕ) {s : PrimaryElector} (hs : s.KeepsOut) (m : ElectionMsg) (sender : NodeName) :
    (s.inBoxRouter second m sender .quiet).KeepsOut := by
  have hwrites : Writes second (.message s m sender) s (s.inBoxRouter second m sender .quiet) := inBoxRouter_writes rfl
  exact hs.writes hwrites

theorem keepsOut_handleNext (hs : n.elector.KeepsOut) {pended : Pended} {sur : Surroundings}
    (hok : n.settlesInView cfg (.handleNext pended sur)) : (n.handleNext second cfg pended sur).elector.KeepsOut := by
  unfold handleNext
  cases hservicing : n.servicing with
  | nil => exact hs
  | cons e rest =>
    obtain ⟨m, sender⟩ := e
    dsimp only
    split_ifs
    · exact hs
    · cases m with
      | nomination m => exact keepsOut_inBoxRouter second hs (.nomination m) sender
      | reelection m => exact keepsOut_inBoxRouter second hs (.reelection m) sender
      | primary m =>
        dsimp only
        split_ifs with hsettled
        · have hleaves : (n.dispatched cfg pended).2.leavesView m.instId = true := by
            rw [settlesInView, hservicing] at hok
            rw [Option.isSome_iff_ne_none] at hsettled
            simpa [hsettled] using hok
          have hprocessed := hs.processPrimary m sender hleaves
          unfold settle
          dsimp only
          split_ifs <;> exact hprocessed
        · exact keepsOut_inBoxRouter second hs (.primary m) sender

/-- **One step of a node** keeps the former primary out. -/
theorem keepsOut_step (hs : n.elector.KeepsOut) {e : ElectingEvent} (hok : n.settlesInView cfg e)
    (hstep : n.step second cfg e = some n') : n'.elector.KeepsOut := by
  unfold step at hstep
  cases e with
  | receive m sender =>
    cases hstep
    exact hs.of_same rfl rfl (fun _ => rfl) rfl rfl rfl rfl rfl
  | serviceQueues limit =>
    dsimp only at hstep
    split_ifs at hstep
    cases hstep
    exact hs.of_same rfl rfl (fun _ => rfl) rfl rfl rfl rfl rfl
  | handleNext pended sur =>
    dsimp only at hstep
    split_ifs at hstep
    cases hstep
    exact keepsOut_handleNext hs hok
  | own e =>
    dsimp only at hstep
    split_ifs at hstep with hown
    cases hstep
    exact hs.handle hown.2
  | vote x sur =>
    dsimp only at hstep
    split_ifs at hstep
    cases hstep
    refine hs.startViews fun v hv => ?_
    rw [settlesInView, List.all_eq_true] at hok
    simpa using hok v hv

end ElectingNode

/-! ## Runs -/

/-- the node has its name and its limit of failures, and it has seen no view change -/
structure ElectingNode.Fresh (P : ElectionPool) (i : NodeName) (n : ElectingNode) : Prop where
  name : n.elector.name = i
  f : n.elector.f = P.f
  named : n.elector.Named
  formerMasterPrimary : n.elector.formerMasterPrimary = none
  masterPrimaries : n.elector.masterPrimaries = []

/-- **The former master primary is not elected again**, as long as no three phase message that has waited for a primary
starts a view from within, and no view change is cut short. In every run of a pool from nodes that have seen no view
change, with any messages from any nodes, any timers, any votes, and any actions, also those that were scheduled in an
older view: whenever a correct node gives the master instance a primary, it is not the one that the node knew when its
view changed last, also if the node is that one itself. -/
theorem previousPrimary_not_elected {P : ElectionPool} {w₀ w : ElectionWorld}
    (hstart : ∀ i ∈ P.correct, (w₀ i).Fresh P i)
    (hr : Reach (ElectionWorld.step P) (fun w e _ => (w e.1).settlesInView (P.cfg e.1) e.2) w₀ w) {i : NodeName}
    (hi : i ∈ P.correct) :
    (∀ e ∈ (w i).elector.masterPrimaries, e.1 ≠ some e.2) ∧
      ∀ p, (w i).elector.formerMasterPrimary = some p → (w i).elector.masterPrimary ≠ some p := by
  have hkeeps : (w i).elector.KeepsOut := by
    refine ElectionWorld.inv_of_steps (I := fun n => n.elector.KeepsOut) hr (fun i hi => ?_)
      (fun w i e w' n hok hs hstep => ElectingNode.keepsOut_step hs hok hstep) i hi
    have hfresh := hstart i hi
    refine ⟨hfresh.named, hfresh.f ▸ P.f_pos, fun p hp => ?_, fun e he => ?_⟩
    · rw [hfresh.formerMasterPrimary] at hp
      cases hp
    · rw [hfresh.masterPrimaries] at he
      cases he
  refine ⟨hkeeps.others, fun p hp hprimary => ?_⟩
  rw [PrimaryElector.masterPrimary_eq] at hprimary
  rcases hkeeps.barred p hp with ⟨n, p', hp', hne⟩ | hguarded
  · rw [hp'] at hprimary
    exact hne (Option.some.inj hprimary)
  · obtain ⟨k, hk, hprimary⟩ := Option.map_eq_some_iff.1 hprimary
    obtain ⟨k', hk', hsome⟩ := Option.bind_eq_some_iff.1 hk
    exact absurd ((hguarded.undecided k' hk').symm.trans hsome) (Option.some_ne_none k).symm

/-! ## Beta is the former primary -/

namespace FourElectors

open PrimaryElector

def names : Finset NodeName := {"Alpha", "Beta", "Gamma", "Delta"}

theorem names_card : names.card = 3 * 1 + 1 := by decide

theorem one_byzantine (i : NodeName) : (names ∩ {i}).card ≤ 1 :=
  (Finset.card_le_card Finset.inter_subset_right).trans_eq (Finset.card_singleton i)

def cfg (name : NodeName) : ViewChangeConfig := ⟨name, 1, 60, 10, fun _ => 2⟩

theorem cfg_name (i : NodeName) (_ : i ∈ names) : (cfg i).name = i := rfl

theorem cfg_f (i : NodeName) (_ : i ∈ names) : (cfg i).f = 1 := rfl

/-- Beta is byzantine -/
def pool : ElectionPool where
  names := names
  f := 1
  card := names_card
  f_pos := le_rfl
  byzantine := {"Beta"}
  byzantine_card := one_byzantine "Beta"
  cfg := cfg
  name_eq := cfg_name
  f_eq := cfg_f
  second := 1

def electors : ElectionWorld := fun i => ⟨elector i, ViewChanger.init, []⟩

/-- nothing is degraded, and nothing raises -/
def sur : Surroundings := ⟨true, some 0, .ok false, none, false, 5, fun _ => .ok ()⟩

def nominates (candidate : NodeName) (viewNo : ℕ) : ElectionMsg := .nomination ⟨generateName candidate 0, 0, viewNo, 0⟩

def declares (candidate : NodeName) (viewNo : ℕ) : ElectionMsg := .primary ⟨generateName candidate 0, 0, viewNo, 0⟩

/-- a message that arrives is handled at once -/
def hears (i j : NodeName) (m : ElectionMsg) (pended : Pended) : List (NodeName × ElectingEvent) :=
  [(i, .receive m j), (i, .serviceQueues none), (i, .handleNext pended sur)]

/-- the next `n` actions -/
def acts (i : NodeName) (n : ℕ) : List (NodeName × ElectingEvent) := List.replicate n (i, .own .action)

def hearsVote (i j : NodeName) : NodeName × ElectingEvent := (i, .vote (.instanceChange ⟨1, 11⟩ j) sur)

/-- the time comes, and with it what is due -/
def waitsUntil (i : NodeName) (time : ℕ) : List (NodeName × ElectingEvent) :=
  [(i, .own (.update time 4 0 1 true [])), (i, .own .moveDue)]

/-- All nominate Beta, and Gamma and Delta elect it. They find a PRE-PREPARE of Beta wrong and vote for view 1. A wrong
PRE-PREPARE waits at Alpha for the last of the declarations. -/
def viewZero (pended : Pended) : List (NodeName × ElectingEvent) :=
  hears "Alpha" "Beta" (nominates "Beta" 0) .none ++ hears "Gamma" "Beta" (nominates "Beta" 0) .none ++
  hears "Delta" "Beta" (nominates "Beta" 0) .none ++
  hears "Alpha" "Gamma" (nominates "Beta" 0) .none ++ acts "Alpha" 1 ++
  hears "Gamma" "Delta" (nominates "Beta" 0) .none ++ acts "Gamma" 1 ++
  hears "Delta" "Gamma" (nominates "Beta" 0) .none ++ acts "Delta" 1 ++
  hears "Gamma" "Beta" (declares "Beta" 0) .none ++ hears "Gamma" "Delta" (declares "Beta" 0) .none ++
  hears "Delta" "Beta" (declares "Beta" 0) .none ++ hears "Delta" "Gamma" (declares "Beta" 0) .none ++
  [("Gamma", .vote (.suspicion 11) sur), ("Delta", .vote (.suspicion 11) sur), hearsVote "Alpha" "Gamma",
    hearsVote "Alpha" "Delta"] ++
  hears "Alpha" "Gamma" (declares "Beta" 0) .none ++ hears "Alpha" "Delta" (declares "Beta" 0) pended

/-- Gamma and Delta are in view 1, and Gamma declares itself there -/
def gammaDeclares : List (NodeName × ElectingEvent) :=
  [hearsVote "Gamma" "Delta", hearsVote "Gamma" "Beta", hearsVote "Delta" "Gamma", hearsVote "Delta" "Beta"] ++
  acts "Gamma" 3 ++ hears "Delta" "Gamma" (nominates "Gamma" 1) .none ++
  hears "Gamma" "Delta" (nominates "Gamma" 1) .none ++ hears "Gamma" "Beta" (nominates "Gamma" 1) .none ++
  acts "Gamma" 2

/-- the own vote of Alpha is the third one, and Alpha is in view 1 when Beta is elected -/
def wrongPrePrepare : Pended := ⟨[(11, sur)], false⟩

/-- Alpha follows Beta once more, waits for more nominations and declares Beta -/
def alphaFollowsBeta : List (NodeName × ElectingEvent) :=
  hears "Alpha" "Beta" (nominates "Beta" 1) .none ++ hears "Alpha" "Gamma" (nominates "Gamma" 1) .none ++
  waitsUntil "Alpha" 5 ++ acts "Alpha" 4 ++ waitsUntil "Alpha" 10 ++ acts "Alpha" 1 ++
  hears "Alpha" "Beta" (declares "Beta" 1) .none ++ hears "Alpha" "Gamma" (declares "Gamma" 1) .none

/-- without it, the vote of Beta moves Alpha to view 1, and Alpha hears no more of Beta's nominations -/
def alphaFollowsGamma : List (NodeName × ElectingEvent) :=
  hearsVote "Alpha" "Beta" :: hears "Alpha" "Beta" (nominates "Beta" 1) .none ++
  hears "Alpha" "Gamma" (nominates "Gamma" 1) .none ++ hears "Alpha" "Delta" (nominates "Gamma" 1) .none ++
  acts "Alpha" 4 ++ hears "Alpha" "Beta" (declares "Beta" 1) .none ++
  hears "Alpha" "Beta" (declares "Gamma" 1) .none ++ hears "Alpha" "Gamma" (declares "Gamma" 1) .none

theorem electors_fresh (i : NodeName) (_ : i ∈ pool.correct) : (electors i).Fresh pool i :=
  ⟨rfl, rfl, elector_named i, rfl, rfl⟩

theorem electsGamma_runs : (runAll (ElectionWorld.step pool) (fun w e _ => (w e.1).settlesInView (pool.cfg e.1) e.2)
    electors (viewZero .none ++ gammaDeclares ++ alphaFollowsGamma)).isSome := by decide +kernel

/-- with no message waiting Alpha elects Gamma after Beta -/
theorem previousPrimary_not_elected_gamma : ∃ w, Reach (ElectionWorld.step pool)
      (fun w e _ => (w e.1).settlesInView (pool.cfg e.1) e.2) electors w ∧
    (w "Alpha").elector.formerMasterPrimary = some "Beta" ∧ (w "Alpha").elector.masterPrimary = some "Gamma" ∧
    (w "Alpha").elector.masterPrimary ≠ some "Beta" := by
  obtain ⟨w, hr, hformer, hprimary⟩ : ∃ w, Reach (ElectionWorld.step pool)
      (fun w e _ => (w e.1).settlesInView (pool.cfg e.1) e.2) electors w ∧
      (w "Alpha").elector.formerMasterPrimary = some "Beta" ∧ (w "Alpha").elector.masterPrimary = some "Gamma" :=
    ⟨_, reach_get _ electsGamma_runs, by decide +kernel, by decide +kernel⟩
  exact ⟨w, hr, hformer, hprimary, (previousPrimary_not_elected electors_fresh hr (by decide)).2 "Beta" hformer⟩

/-- the replica of Alpha, where a PRE-PREPARE of Beta with a wrong digest waits for a primary -/
def pendingReplica : Replica Bool ℕ ReqKey :=
  let requests : Requests Bool := Dict.empty.set ("client", 1) (FourNodes.forwarded (FourNodes.request 1 "a") 2 [])
  { Replica.init (FourNodes.env 100) (FourNodes.node "Alpha" requests) 0 true none with
    postElectionMsgs := [(.prePrepare { FourNodes.prePrepare 1 (FourNodes.request 1 "a") with digest := "b" }, "Beta")] }

theorem electsAgain_runs : (runAll (ElectionWorld.step pool) (fun w e _ => w.blamesByzantine pool e) electors
    (viewZero wrongPrePrepare ++ gammaDeclares ++ alphaFollowsBeta)).isSome := by decide +kernel

/-- **The former primary is elected again.** The wrong PRE-PREPARE is found when Alpha elects Beta in view 0, and the vote
of Alpha completes the quorum for view 1. Beta is marked as the former primary then, but Alpha clears the mark when it
goes on with the election of view 0. In view 1 Beta gets two of the three declarations, its own and that of Alpha. -/
theorem formerPrimary_elected_again :
    (exec (Replica.primaryChanged (FourNodes.env 100) 10 (generateName "Beta" 0) 0) pendingReplica).2.node.suspicions =
      [(generateName "Beta" 0, .PPR_DIGEST_WRONG)] ∧
    ∃ w, Reach (ElectionWorld.step pool) (fun w e _ => w.blamesByzantine pool e) electors w ∧
      "Alpha" ∈ pool.correct ∧ (w "Alpha").elector.viewNo = 1 ∧
      (w "Alpha").elector.formerMasterPrimary = some "Beta" ∧ (w "Alpha").elector.masterPrimary = some "Beta" :=
  ⟨by decide +kernel, _, reach_get _ electsAgain_runs, by decide, by decide +kernel, by decide +kernel,
    by decide +kernel⟩

end FourElectors

end Plenum
