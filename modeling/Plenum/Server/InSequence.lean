/-
Ordering is in sequence: the batches that a replica orders in one view are 1, 2, ..., k.

- `InSequence`: the invariant. The batches ordered and the `Ordered` messages emitted are exactly 1, ..., k; the
  PRE-PREPAREs held are of the current view and reach up to `lastPrePrepareSeqNo`; from some `g ≤ k` on none is
  missing (what garbage collection removed is ordered); checkpoints count ordered batches only.
- `InSequence.step`: every step of the ordering protocol keeps it. The case that matters is `order`: if the batch
  before is not the last one ordered, every PRE-PREPARE held before it is ordered, and none is missing.
- `orderedSeqNos_emitted`: for every input sequence of a replica, also with messages of wrong views, with exceptions in
  the middle of a method and with the node changing its requests and databases at any time.
-/
import Mathlib.Tactic
import Plenum.Server.ReplicaRefinement
import Plenum.Scenarios.FourNodes

namespace Plenum

open Plenum.Core Plenum.Core.Exec
open Relation (ReflTransGen)

variable {ω σ τ : Type}

/-! ## The invariant -/

/-- the `ppSeqNo`s of the `Ordered` messages among `ms` -/
def orderedSeqNos (ms : List OutMsg) : List ℕ := (ms.filterMap OutMsg.ordered?).map Ordered.ppSeqNo

structure InSequence (c : OrderingState ω) : Prop where
  ordered : c.ordered = (List.range' 1 c.lastOrderedPPSeqNo).map fun p => (c.cfg.viewNo, p)
  emitted : orderedSeqNos c.outBox = List.range' 1 c.lastOrderedPPSeqNo
  ordered_le : c.lastOrderedPPSeqNo ≤ c.lastPrePrepareSeqNo
  held : ∀ key pp, c.Holds key pp → key.1 = c.cfg.viewNo ∧ 1 ≤ key.2 ∧ key.2 ≤ c.lastPrePrepareSeqNo
  present : ∃ g ≤ c.lastOrderedPPSeqNo, ∀ p, g < p → p ≤ c.lastPrePrepareSeqNo → ∃ pp, c.Holds (c.cfg.viewNo, p) pp
  checkpoints : ∀ ck ∈ c.checkpoints, ck.seqNo ≤ c.lastOrderedPPSeqNo

theorem orderedSeqNos_append (ms ms' : List OutMsg) :
    orderedSeqNos (ms ++ ms') = orderedSeqNos ms ++ orderedSeqNos ms' := by
  simp [orderedSeqNos]

theorem orderedSeqNos_eq_nil {ms : List OutMsg} (h : ∀ m ∈ ms, m.ordered? = none) : orderedSeqNos ms = [] := by
  rw [orderedSeqNos, List.map_eq_nil_iff, List.filterMap_eq_nil_iff]
  exact h

theorem mem_orderedSeqNos {ms : List OutMsg} {o : Ordered} (h : .ordered o ∈ ms) : o.ppSeqNo ∈ orderedSeqNos ms :=
  List.mem_map.2 ⟨o, List.mem_filterMap.2 ⟨_, h, rfl⟩, rfl⟩

namespace InSequence

variable {D : InMsg → Prop} {c c' : OrderingState ω}

theorem mem_ordered (h : InSequence c) {p : ℕ} :
    (c.cfg.viewNo, p) ∈ c.ordered ↔ 1 ≤ p ∧ p ≤ c.lastOrderedPPSeqNo := by
  rw [h.ordered, List.mem_map]
  simp only [List.mem_range'_1, Prod.mk.injEq, true_and, exists_eq_right]
  omega

/-- messages other than `Ordered` leave the emitted sequence as it is -/
theorem emitted_append (h : InSequence c) {ms : List OutMsg} (hms : ∀ m ∈ ms, m.ordered? = none) :
    orderedSeqNos (c.outBox ++ ms) = List.range' 1 c.lastOrderedPPSeqNo := by
  rw [orderedSeqNos_append, orderedSeqNos_eq_nil hms, List.append_nil, h.emitted]

/-- the next PRE-PREPARE follows the last one accepted -/
theorem isNext (h : InSequence c) {n : ℕ} (hn : c.IsNext n) : n = c.lastPrePrepareSeqNo + 1 := by
  obtain ⟨m, rfl, hm, hmax⟩ := hn
  have hle := h.ordered_le
  have hm_le : m ≤ c.lastPrePrepareSeqNo := by
    rcases Set.mem_insert_iff.1 hm with rfl | ⟨key, pp, hh, rfl⟩
    · exact hle
    · exact (h.held key pp hh).2.2
  have hlast : c.lastPrePrepareSeqNo ≤ m := by
    obtain ⟨g, hg, hpresent⟩ := h.present
    by_cases hlt : g < c.lastPrePrepareSeqNo
    · obtain ⟨pp, hpp⟩ := hpresent _ hlt le_rfl
      exact hmax (Set.mem_insert_of_mem _ ⟨_, pp, hpp, rfl⟩)
    · have : c.lastOrderedPPSeqNo ≤ m := hmax (Set.mem_insert _ _)
      omega
  omega

/-- a batch that may be ordered is the one after the last ordered -/
theorem next_ordered (h : InSequence c) {key : TPCKey} {pp : PrePrepare} (hpp : c.Holds key pp)
    (hnew : key ∉ c.ordered) (hprev : c.PrevOrdered key) : key = (c.cfg.viewNo, c.lastOrderedPPSeqNo + 1) := by
  obtain ⟨v, p⟩ := key
  obtain ⟨rfl, hpos, hp⟩ := h.held _ _ hpp
  dsimp only at hpos hp
  rcases hprev with ⟨last, hlast, hview, hnext⟩ | hprev
  · have hmem : last ∈ c.ordered := List.mem_of_getLast? hlast
    have hlast' : last = (c.cfg.viewNo, c.lastOrderedPPSeqNo) := by
      rw [h.ordered, List.getLast?_map] at hlast
      cases hk : c.lastOrderedPPSeqNo with
      | zero => rw [hk] at hlast; cases hlast
      | succ k =>
        rw [hk, List.range'_concat, List.getLast?_append_of_ne_nil _ (by simp)] at hlast
        simp only [List.getLast?_singleton, Option.map_some, Option.some.injEq] at hlast
        rw [← hlast]
        simp [Nat.add_comm]
    rw [hlast'] at hnext
    dsimp only at hnext
    rw [hnext]
  · -- the batch after the last ordered one is held, so if it were before `p` it would be ordered
    obtain ⟨g, hg, hpresent⟩ := h.present
    have hgt : c.lastOrderedPPSeqNo < p := by
      by_contra hle
      exact hnew (h.mem_ordered.2 ⟨hpos, not_lt.1 hle⟩)
    by_contra hne
    have hlt : c.lastOrderedPPSeqNo + 1 < p := by
      rcases Nat.lt_or_ge (c.lastOrderedPPSeqNo + 1) p with hlt | hge
      · exact hlt
      · exact absurd (by rw [show p = c.lastOrderedPPSeqNo + 1 by omega]) hne
    obtain ⟨pp', hpp'⟩ := hpresent (c.lastOrderedPPSeqNo + 1) (by omega) (by omega)
    have := h.mem_ordered.1 (hprev _ pp' hpp' (Or.inr ⟨rfl, hlt⟩))
    omega

/-- a PRE-PREPARE added at the end keeps what is held in sequence -/
theorem of_added (h : InSequence c) (hcfg : c'.cfg = c.cfg) (ho : c'.ordered = c.ordered)
    (hout : orderedSeqNos c'.outBox = orderedSeqNos c.outBox) (hk : c'.lastOrderedPPSeqNo = c.lastOrderedPPSeqNo)
    (hA : c'.lastPrePrepareSeqNo = c.lastPrePrepareSeqNo + 1) (hcks : c'.checkpoints = c.checkpoints)
    {pp : PrePrepare} (hview : pp.viewNo = c.cfg.viewNo) (hno : pp.ppSeqNo = c.lastPrePrepareSeqNo + 1)
    (hadd : ∀ key pp', c'.Holds key pp' → (key = pp.key ∧ pp' = pp) ∨ c.Holds key pp')
    (hkeep : ∀ key pp', c.Holds key pp' → ∃ pp'', c'.Holds key pp'') (hnew : c'.Holds pp.key pp) :
    InSequence c' := by
  have hkey : pp.key = (c.cfg.viewNo, c.lastPrePrepareSeqNo + 1) := by rw [PrePrepare.key, hview, hno]
  refine ⟨?_, ?_, ?_, fun key pp' hh => ?_, ?_, ?_⟩
  · rw [ho, hcfg, hk]; exact h.ordered
  · rw [hout, hk]; exact h.emitted
  · rw [hk, hA]; exact h.ordered_le.trans (Nat.le_succ _)
  · rw [hcfg, hA]
    rcases hadd key pp' hh with ⟨rfl, -⟩ | hh
    · rw [hkey]; exact ⟨rfl, Nat.succ_le_succ (Nat.zero_le _), le_rfl⟩
    · obtain ⟨h1, h2, h3⟩ := h.held key pp' hh
      exact ⟨h1, h2, h3.trans (Nat.le_succ _)⟩
  · obtain ⟨g, hg, hpresent⟩ := h.present
    refine ⟨g, by rw [hk]; exact hg, fun p hp hp' => ?_⟩
    rw [hcfg]
    rw [hA] at hp'
    rcases Nat.lt_or_ge c.lastPrePrepareSeqNo p with hlt | hge
    · have : p = c.lastPrePrepareSeqNo + 1 := by omega
      exact ⟨pp, by rw [this, ← hkey]; exact hnew⟩
    · obtain ⟨pp', hpp'⟩ := hpresent p hp hge
      exact hkeep _ pp' hpp'
  · rw [hcks, hk]; exact h.checkpoints

/-- only the outbox changes, and not by an `Ordered` message -/
theorem of_send (h : InSequence c) {ms : List OutMsg} (hms : ∀ m ∈ ms, m.ordered? = none) :
    InSequence { c with outBox := c.outBox ++ ms } :=
  ⟨h.ordered, h.emitted_append hms, h.ordered_le, h.held, h.present, h.checkpoints⟩

/-- **Every step keeps the sequence.** -/
theorem step (h : InSequence c) (hs : OrderingStep D c c') : InSequence c' := by
  cases hs with
  | popInBox => exact ⟨h.ordered, h.emitted, h.ordered_le, h.held, h.present, h.checkpoints⟩
  | readyFor3PC => exact ⟨h.ordered, h.emitted, h.ordered_le, h.held, h.present, h.checkpoints⟩
  | dropKeys => exact ⟨h.ordered, h.emitted, h.ordered_le, h.held, h.present, h.checkpoints⟩
  | sendPrePrepare pp rejects _ _ _ _ hview hno =>
    refine h.of_added rfl rfl ?_ rfl hno rfl hview hno (fun key pp' hh => ?_) (fun key pp' hh => ?_)
      (Or.inl (by rw [PrePrepareLog.get?_add, if_pos rfl]))
    · change orderedSeqNos (c.outBox ++ _ ++ _) = _
      rw [List.append_assoc, h.emitted_append, h.emitted]
      intro m hm
      rcases List.mem_append.1 hm with hm | hm
      · obtain ⟨r, -, rfl⟩ := List.mem_map.1 hm; rfl
      · rw [List.mem_singleton.1 hm]; rfl
    · rcases hh with hh | hh
      · rw [PrePrepareLog.get?_add] at hh
        split_ifs at hh with hk
        · exact Or.inl ⟨hk, (Option.some.inj hh).symm⟩
        · exact Or.inr (Or.inl hh)
      · exact Or.inr (Or.inr hh)
    · by_cases hk : key = pp.key
      · exact ⟨pp, Or.inl (by rw [PrePrepareLog.get?_add, if_pos hk])⟩
      · refine ⟨pp', hh.imp (fun h' => ?_) id⟩
        rw [PrePrepareLog.get?_add, if_neg hk]; exact h'
  | acceptPrePrepare pp sender _ _ _ hview hnext _ =>
    have hno := h.isNext hnext
    refine h.of_added rfl rfl rfl rfl (by rw [hno]; exact max_eq_right (Nat.le_succ _)) rfl hview hno
      (fun key pp' hh => ?_) (fun key pp' hh => ?_) (Or.inr (by rw [PrePrepareLog.get?_add, if_pos rfl]))
    · rcases hh with hh | hh
      · exact Or.inr (Or.inl hh)
      · rw [PrePrepareLog.get?_add] at hh
        split_ifs at hh with hk
        · exact Or.inl ⟨hk, (Option.some.inj hh).symm⟩
        · exact Or.inr (Or.inr hh)
    · by_cases hk : key = pp.key
      · exact ⟨pp, Or.inr (by rw [PrePrepareLog.get?_add, if_pos hk])⟩
      · refine ⟨pp', hh.imp id fun h' => ?_⟩
        rw [PrePrepareLog.get?_add, if_neg hk]; exact h'
  | sendRejects rejects => exact h.of_send fun m hm => by obtain ⟨r, -, rfl⟩ := List.mem_map.1 hm; rfl
  | sendPrepare => exact h.of_send fun m hm => by rw [List.mem_singleton.1 hm]; rfl
  | ownPrepare => exact ⟨h.ordered, h.emitted, h.ordered_le, h.held, h.present, h.checkpoints⟩
  | receivePrepare => exact ⟨h.ordered, h.emitted, h.ordered_le, h.held, h.present, h.checkpoints⟩
  | sendCommit => exact h.of_send fun m hm => by rw [List.mem_singleton.1 hm]; rfl
  | ownCommit => exact ⟨h.ordered, h.emitted, h.ordered_le, h.held, h.present, h.checkpoints⟩
  | receiveCommit => exact ⟨h.ordered, h.emitted, h.ordered_le, h.held, h.present, h.checkpoints⟩
  | order key pp hpp _ hnew hprev =>
    obtain rfl := h.next_ordered hpp hnew hprev
    have hppSeqNo : pp.ppSeqNo = c.lastOrderedPPSeqNo + 1 := congrArg Prod.snd hpp.key_eq
    have hmax : max c.lastOrderedPPSeqNo (c.lastOrderedPPSeqNo + 1) = c.lastOrderedPPSeqNo + 1 :=
      max_eq_right (Nat.le_succ _)
    have hrange : List.range' 1 (c.lastOrderedPPSeqNo + 1) =
        List.range' 1 c.lastOrderedPPSeqNo ++ [c.lastOrderedPPSeqNo + 1] := by
      rw [List.range'_concat, Nat.one_mul, Nat.add_comm 1]
    obtain ⟨-, -, hle⟩ := h.held _ _ hpp
    obtain ⟨g, hg, hpresent⟩ := h.present
    refine ⟨?_, ?_, ?_, h.held, ⟨g, ?_, hpresent⟩, fun ck hck => ?_⟩
    · dsimp only
      rw [hmax, hrange, List.map_append, ← h.ordered]; rfl
    · dsimp only
      rw [hmax, hrange, orderedSeqNos_append, h.emitted, ← hppSeqNo]; rfl
    · dsimp only
      rw [hmax]; exact hle
    · exact hg.trans (le_max_left _ _)
    · exact (h.checkpoints ck hck).trans (le_max_left _ _)
  | checkpoint cks msgs hcks =>
    refine ⟨h.ordered, h.emitted_append fun m hm => ?_, h.ordered_le, h.held, h.present, fun ck hck => ?_⟩
    · obtain ⟨r, -, rfl⟩ := List.mem_map.1 hm; rfl
    · rcases hcks ck hck with ⟨ck', hck', he⟩ | ⟨o, ho, he⟩
      · rw [he]; exact h.checkpoints ck' hck'
      · have := mem_orderedSeqNos ho
        rw [h.emitted, List.mem_range'_1] at this
        dsimp only
        omega
  | stabilise cks seqNo keys hseqNo hcks hkeys =>
    have hle : seqNo ≤ c.lastOrderedPPSeqNo := by
      obtain ⟨ck, hck, rfl⟩ := hseqNo
      exact h.checkpoints ck hck
    have hsub : ∀ key pp, OrderingState.Holds { c with
        checkpoints := cks, sentPrePrepares := c.sentPrePrepares.eraseAll keys,
        prePrepares := c.prePrepares.eraseAll keys, prepares := Dict.eraseAll c.prepares keys,
        commits := Dict.eraseAll c.commits keys } key pp ↔ key ∉ keys ∧ c.Holds key pp := by
      intro key pp
      simp only [OrderingState.Holds, PrePrepareLog.get?_eraseAll]
      by_cases hk : key ∈ keys <;> simp [hk]
    obtain ⟨g, hg, hpresent⟩ := h.present
    refine ⟨h.ordered, h.emitted, h.ordered_le, fun key pp hh => h.held key pp ((hsub key pp).1 hh).2,
      ⟨max g seqNo, max_le hg hle, fun p hp hp' => ?_⟩, fun ck hck => ?_⟩
    · obtain ⟨pp, hpp⟩ := hpresent p ((le_max_left _ _).trans_lt hp) hp'
      refine ⟨pp, (hsub _ pp).2 ⟨fun hmem => ?_, hpp⟩⟩
      exact absurd (hkeys _ hmem) (not_le.2 ((le_max_right _ _).trans_lt hp))
    · obtain ⟨ck', hck', he⟩ := hcks ck hck
      rw [he]; exact h.checkpoints ck' hck'
  | releaseRequest => exact ⟨h.ordered, h.emitted, h.ordered_le, h.held, h.present, h.checkpoints⟩

/-- every run of the protocol keeps the sequence -/
theorem steps (h : InSequence c) (hs : ReflTransGen (OrderingStep D) c c') : InSequence c' :=
  stable_of_steps (fun _ _ hstep h => h.step hstep) hs h

end InSequence

/-! ## Runs of one replica -/

/-- what happens to a replica: its node hands it a message or a request key, services its queues, fires the check of
the stashed commits, changes the requests and databases, or takes a message from its outbox -/
inductive ReplicaInput (ω σ τ : Type) where
  | receive (m : InMsg)
  | serviceQueues (fuel : ℕ) (limit : Option ℕ) (perfCounter time : ℕ)
  | processStashedOutOfOrderCommits (fuel : ℕ)
  | nodeChanged (requests : Requests ω) (dbs : Dbs σ τ) (suspicions : List (RepName × Suspicion))
  | takeFromOutBox

/-- what the node itself changes before the replica's code runs -/
def ReplicaInput.arrive (i : ReplicaInput ω σ τ) (c : OrderingState ω) : OrderingState ω :=
  match i with
  | .receive m => { c with inBox := c.inBox ++ [m] }
  | .nodeChanged requests _ _ => { c with requests := requests }
  | _ => c

/-- the node changes the inbox and the requests only -/
theorem ReplicaInput.arrive_eq (i : ReplicaInput ω σ τ) (c : OrderingState ω) :
    ∃ inBox requests, i.arrive c = { c with inBox := inBox, requests := requests } := by
  cases i with
  | receive m => exact ⟨_, _, rfl⟩
  | nodeChanged requests dbs suspicions => exact ⟨_, _, rfl⟩
  | _ => exact ⟨_, _, rfl⟩

theorem InSequence.arrive {c : OrderingState ω} (h : InSequence c) (i : ReplicaInput ω σ τ) :
    InSequence (i.arrive c) := by
  obtain ⟨inBox, requests, he⟩ := i.arrive_eq c
  rw [he]
  exact ⟨h.ordered, h.emitted, h.ordered_le, h.held, h.present, h.checkpoints⟩

/-- a replica with the messages taken from its outbox so far -/
structure RunningReplica (ω σ τ : Type) where
  replica : Replica ω σ τ
  taken : List OutMsg

namespace RunningReplica

/-- the messages the replica has emitted so far -/
def emitted (r : RunningReplica ω σ τ) : List OutMsg := r.taken ++ r.replica.outBox

/-- one input; what a method wrote before it raised stays -/
def input (env : Env ω σ τ) (r : RunningReplica ω σ τ) : ReplicaInput ω σ τ → RunningReplica ω σ τ
  | .receive m => { r with replica := { r.replica with inBox := r.replica.inBox ++ [m] } }
  | .serviceQueues fuel limit perfCounter time =>
    let replica := { r.replica with perfCounter := perfCounter, time := time }
    { r with replica := (exec (Replica.serviceQueues env fuel limit) replica).2 }
  | .processStashedOutOfOrderCommits fuel =>
    { r with replica := (exec (Replica.processStashedOutOfOrderCommits env fuel) r.replica).2 }
  | .nodeChanged requests dbs suspicions =>
    { r with replica := { r.replica with node := { r.replica.node with
        requests := requests, dbs := dbs, suspicions := suspicions } } }
  | .takeFromOutBox =>
    match r.replica.outBox with
    | [] => r
    | m :: rest => { replica := { r.replica with outBox := rest }, taken := r.taken ++ [m] }

def run (env : Env ω σ τ) (r : RunningReplica ω σ τ) (inputs : List (ReplicaInput ω σ τ)) : RunningReplica ω σ τ :=
  inputs.foldl (input env) r

/-- the protocol's part of the state, with everything that was ever in the outbox -/
def history (r : RunningReplica ω σ τ) : OrderingState ω := r.replica.ordering.after r.taken

/-- **An input is a run of the protocol**, after the node has changed the inbox or its requests. -/
theorem input_steps {D : InMsg → Prop} (env : Env ω σ τ) {r : RunningReplica ω σ τ} (hok : Replica.Ok D r.replica)
    (i : ReplicaInput ω σ τ) (hD : ∀ m, i = .receive m → D m) :
    Replica.Ok D (r.input env i).replica ∧
      ReflTransGen (OrderingStep D) (i.arrive r.history) (r.input env i).history := by
  have hrun : ∀ {c c' : OrderingState ω}, ReflTransGen (OrderingStep D) c c' →
      ReflTransGen (OrderingStep D) (c.after r.taken) (c'.after r.taken) := fun hs =>
    hs.lift (fun c => OrderingState.after c r.taken) fun _ _ hstep => hstep.after r.taken
  cases i with
  | receive m =>
    refine ⟨⟨{ hok.held with inBox := fun m' hm' => ?_ }, hok.inOneView⟩, ReflTransGen.refl⟩
    rcases List.mem_append.1 hm' with hm' | hm'
    · exact hok.held.inBox m' hm'
    · rw [List.mem_singleton.1 hm']
      exact hD m rfl
  | serviceQueues fuel limit perfCounter time =>
    have hok' : Replica.Ok D { r.replica with perfCounter := perfCounter, time := time } := ⟨hok.held, hok.inOneView⟩
    have hsteps := (Replica.serviceQueues_follows env hok' fuel limit).steps
    have hhistory := hrun (Replica.ordering_steps hsteps)
    exact ⟨hok'.steps hsteps, hhistory⟩
  | processStashedOutOfOrderCommits fuel =>
    have hsteps := (Replica.processStashedOutOfOrderCommits_follows env hok fuel).steps
    exact ⟨hok.steps hsteps, hrun (Replica.ordering_steps hsteps)⟩
  | nodeChanged requests dbs _ => exact ⟨⟨hok.held, hok.inOneView⟩, ReflTransGen.refl⟩
  | takeFromOutBox =>
    unfold RunningReplica.input
    cases hout : r.replica.outBox with
    | nil => exact ⟨hok, ReflTransGen.refl⟩
    | cons m rest =>
      refine ⟨⟨hok.held, hok.inOneView⟩, ?_⟩
      have he : r.taken ++ r.replica.outBox = r.taken ++ [m] ++ rest := by
        rw [hout, List.append_assoc]
        rfl
      have hhist : ({ replica := { r.replica with outBox := rest }, taken := r.taken ++ [m] } :
          RunningReplica ω σ τ).history = r.history := by
        change { r.replica.ordering with outBox := r.taken ++ [m] ++ rest } = _
        rw [← he]
        rfl
      rw [hhist]
      exact ReflTransGen.refl

/-- the invariant of a run in which the messages of `D` may have been delivered -/
structure Inv (D : InMsg → Prop) (r : RunningReplica ω σ τ) : Prop where
  ok : Replica.Ok D r.replica
  inSequence : InSequence r.history

/-- **Every input keeps the invariant.** -/
theorem Inv.input {D : InMsg → Prop} {env : Env ω σ τ} {r : RunningReplica ω σ τ} (h : r.Inv D)
    (i : ReplicaInput ω σ τ) (hD : ∀ m, i = .receive m → D m) : (r.input env i).Inv D := by
  obtain ⟨hok, hsteps⟩ := input_steps env h.ok i hD
  exact ⟨hok, (h.inSequence.arrive i).steps hsteps⟩

theorem Inv.run {env : Env ω σ τ} {r : RunningReplica ω σ τ} (h : r.Inv fun _ => True)
    (inputs : List (ReplicaInput ω σ τ)) : (r.run env inputs).Inv fun _ => True := by
  induction inputs generalizing r with
  | nil => exact h
  | cons i inputs ih => exact ih (h.input i fun _ _ => trivial)

theorem inv_init (D : InMsg → Prop) (env : Env ω σ τ) (node : Node ω σ τ) (hpart : node.isParticipating = true)
    (instId : ℕ) (isMaster : Bool) (primaryName : Option RepName) :
    Inv D ⟨Replica.init env node instId isMaster primaryName, []⟩ := by
  refine ⟨Replica.ok_init env node hpart instId isMaster primaryName, rfl, rfl, le_rfl, fun key pp hh => ?_,
    ⟨0, le_rfl, fun p hp hp' => absurd hp (not_lt.2 hp')⟩, fun ck hck => ?_⟩
  · rcases hh with hh | hh <;> cases hh
  · cases hck

end RunningReplica

/-- **Ordering is in sequence without gaps or repeats.** For every participating replica, whatever messages it
receives and however its node services it, the `Ordered` messages it has emitted so far have the `ppSeqNo`s 1, ..., k,
in this order. -/
theorem orderedSeqNos_emitted (env : Env ω σ τ) (node : Node ω σ τ) (hpart : node.isParticipating = true)
    (instId : ℕ) (isMaster : Bool) (primaryName : RepName) (inputs : List (ReplicaInput ω σ τ)) :
    ∃ k, orderedSeqNos (RunningReplica.run env ⟨Replica.init env node instId isMaster (some primaryName), []⟩
      inputs).emitted = List.range' 1 k :=
  ⟨_, ((RunningReplica.inv_init _ env node hpart instId isMaster (some primaryName)).run inputs).inSequence.emitted⟩

/-! ## Witness -/

namespace FourNodes

/-- a PRE-PREPARE of the primary, and the votes of the other nodes for the batch of one request -/
def votesFor (p : ℕ) (req : Request Bool) : List (ReplicaInput Bool ℕ ReqKey) :=
  (["Gamma", "Delta"].map fun n => .receive (.threePhase (.prepare ((prePrepare p req).prepare 0)) n)) ++
    ["Alpha", "Gamma", "Delta"].map fun n => .receive (.threePhase (.commit ⟨0, 0, p⟩) n)

/-- a node with two finalised requests -/
def twoRequests (name : NodeName) : Node Bool ℕ ReqKey :=
  node name ((Dict.empty.set (request 1 "a").key (forwarded (request 1 "a") 2 [])).set (request 2 "b").key
    (forwarded (request 2 "b") 2 []))

/-- the votes for the second batch come first, so that it waits in the stash until the repeating check finds it -/
def outOfOrder : List (ReplicaInput Bool ℕ ReqKey) :=
  [.receive (.threePhase (.prePrepare (prePrepare 1 (request 1 "a"))) "Alpha"),
    .receive (.threePhase (.prePrepare (prePrepare 2 (request 2 "b"))) "Alpha")] ++
  votesFor 2 (request 2 "b") ++ [.serviceQueues 10 none 0 0] ++ votesFor 1 (request 1 "a") ++
  [.serviceQueues 10 none 0 0, .serviceQueues 10 none 5 0]

end FourNodes

open FourNodes in
theorem orderedSeqNos_emitted_outOfOrder :
    (twoRequests "Beta").isParticipating = true ∧
      (∃ k, orderedSeqNos (RunningReplica.run (env 1) ⟨Replica.init (env 1) (twoRequests "Beta") 0 true (some primary), []⟩
        outOfOrder).emitted = List.range' 1 k) ∧
      orderedSeqNos (RunningReplica.run (env 1) ⟨Replica.init (env 1) (twoRequests "Beta") 0 true (some primary), []⟩
        outOfOrder).emitted = [1, 2] :=
  ⟨rfl, orderedSeqNos_emitted (env 1) (twoRequests "Beta") rfl 0 true primary outOfOrder, by decide +kernel⟩

end Plenum
