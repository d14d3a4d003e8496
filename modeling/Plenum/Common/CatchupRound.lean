/-
A round of catch-up from the requests to the target: one node starts to catch up, its peers serve what it has asked
them for, and their replies come back in any order.

- `CatchupReq.receive`, `ServedCatchupRep.receive`: the two messages on their way; the numbers of the transactions
  arrive as strings.
- `ServesRanges`: what the tree and the log of a ledger are relied on for. A range is served with its transactions, and
  a proof does not depend on transactions after its end.
- `honest_served`: a peer whose ledger goes on from the target serves an honest reply.
- `waits_apartFrom_run`: what waits to be appended came with a reply. The ranges asked for are apart, so no number waits
  twice, which is what the node would blacklist an honest sender for.
- `catchup_round`: the node blacklists nobody and ends with the target, and nothing is left that the next round could
  stumble over.
-/
import Mathlib.Tactic
import Plenum.Common.CatchupReqs
import Plenum.Common.HonestReplies
import Plenum.Common.ServeCatchup

namespace Plenum

open Plenum.Core Plenum.Core.Exec

/-! ## The messages on their way -/

/-- the entries of a dictionary under other keys -/
def Core.Dict.mapKeys {κ κ' α : Type} (f : κ → κ') (hf : Function.Injective f) (d : Dict κ α) : Dict κ' α where
  entries := d.entries.map fun e => (f e.1, e.2)
  nodup := by
    have hkeys : (d.entries.map fun e => (f e.1, e.2)).map Prod.fst = (d.entries.map Prod.fst).map f := by
      rw [List.map_map, List.map_map]
      rfl
    rw [hkeys]
    exact d.nodup.map hf

theorem Core.Dict.get?_mapKeys {κ κ' α : Type} [DecidableEq κ] [DecidableEq κ'] {f : κ → κ'}
    (hf : Function.Injective f) (d : Dict κ α) (k : κ) : (d.mapKeys f hf).get? (f k) = d.get? k := by
  unfold Dict.get? Dict.mapKeys
  rw [List.find?_map, Option.map_map]
  simp only [Function.comp_def, hf.eq_iff]

theorem Core.Dict.contains_mapKeys {κ κ' α : Type} [DecidableEq κ] [DecidableEq κ'] {f : κ → κ'}
    (hf : Function.Injective f) (d : Dict κ α) (k' : κ') :
    (d.mapKeys f hf).contains k' = true ↔ ∃ k, d.contains k = true ∧ k' = f k := by
  simp only [Dict.contains_iff, Dict.keys, Dict.mapKeys, List.map_map, List.mem_map, Function.comp_def]
  constructor
  · rintro ⟨e, he, rfl⟩
    exact ⟨e.1, ⟨e, he, rfl⟩, rfl⟩
  · rintro ⟨k, ⟨e, he, rfl⟩, rfl⟩
    exact ⟨e, he, rfl⟩

theorem toString_int_injective : Function.Injective fun n : ℤ => toString n := fun _ _ h => Int.repr_injective h

def CatchupReq.receive (req : CatchupReq) : ReceivedCatchupReq :=
  ⟨req.ledgerId, req.seqNoStart, req.seqNoEnd, req.catchupTill⟩

/-- the keys of the transactions become strings -/
def ServedCatchupRep.receive {τ : Type} (rep : ServedCatchupRep τ) : CatchupRep τ :=
  ⟨rep.ledgerId, rep.txns.mapKeys (fun n : ℤ => toString n) toString_int_injective, rep.consProof⟩

namespace LedgerManager

variable {O τ : Type} {env : LedgerEnv τ} {own : LedgerOwner O τ} {fuel : ℕ}

/-! ## Serving a part of the target -/

/-- what a node relies on when it serves a range: it is read as a whole, and proofs are about its end -/
structure ServesRanges (tree : LedgerTree τ) (env : LedgerEnv τ) (updateTxnWithExtraData : τ → τ) : Prop where
  tree_consistencyProof : ∀ (txns : List τ) (a b : ℕ), 0 < a → a ≤ b → b ≤ txns.length →
    tree.consistencyProof txns a b = some (env.consistencyProof txns a b)
  getAllTxn : ∀ (txns : List τ) (a b : ℕ) d, 1 ≤ a → tree.getAllTxn txns a b = some d →
    ∀ (n : ℤ) t, d.get? n = some t ↔ (a : ℤ) ≤ n ∧ n ≤ b ∧ txns[(n - 1).toNat]? = some t
  consistencyProof : ∀ (txns : List τ) (a b : ℕ), b ≤ txns.length →
    env.consistencyProof txns a b = env.consistencyProof (txns.take b) a b
  transform : ∀ t, env.transformTxnForLedger (updateTxnWithExtraData t) = t

variable {tree : LedgerTree τ} {updateTxnWithExtraData : τ → τ} {lid : LedgerId} {cp : ConsistencyProof}
  {target : List τ} {s : LedgerManager O τ}

/-- **What a peer serves is honest**, if its ledger goes on from the target. -/
theorem honest_served (hserves : ServesRanges tree env updateTxnWithExtraData) {peer : LedgerManager O τ}
    (htarget : target <+: (peer.ledger own lid).txns) {first last : ℕ} (hfirst : 1 ≤ first) (hle : first ≤ last)
    (hlast : last ≤ target.length) :
    ∃ rep, processCatchupReq own tree updateTxnWithExtraData peer ⟨lid, first, last, target.length⟩ = .ok (some rep) ∧
      Honest env lid target rep.receive first last := by
  have hlength := htarget.length_le
  have hmin : min (last : ℤ) (peer.ledger own lid).txns.length = last := by omega
  obtain ⟨served, htxns⟩ := Option.isSome_iff_exists.1
    ((tree.getAllTxn_isSome (peer.ledger own lid).txns first last).2 (by omega))
  have hproof := hserves.tree_consistencyProof (peer.ledger own lid).txns last target.length (by omega) hlast hlength
  have hread := hserves.getAllTxn _ first last served hfirst htxns
  -- within the target, the peer has the transactions of the target
  have hsame : ∀ i, i < target.length → (peer.ledger own lid).txns[i]? = target[i]? := by
    intro i hi
    obtain ⟨rest, hrest⟩ := htarget
    rw [← hrest, List.getElem?_append_left hi]
  refine ⟨⟨lid, served.mapValues updateTxnWithExtraData, env.consistencyProof (peer.ledger own lid).txns last
    target.length⟩, ?_, rfl, hfirst, hlast, fun k => ?_, fun n t ht => ?_, ?_⟩
  · unfold processCatchupReq
    dsimp only
    rw [if_neg (by omega), if_neg (by omega), hmin, hproof, htxns]
  · unfold ServedCatchupRep.receive
    rw [Dict.contains_mapKeys]
    have hcontains : ∀ n : ℤ, (served.mapValues updateTxnWithExtraData).contains n = true ↔
        (first : ℤ) ≤ n ∧ n ≤ last := by
      intro n
      unfold Dict.contains
      rw [Dict.get?_mapValues, Option.isSome_map, Option.isSome_iff_exists]
      constructor
      · rintro ⟨t, ht⟩
        obtain ⟨h1, h2, -⟩ := (hread n t).1 ht
        exact ⟨h1, h2⟩
      · rintro ⟨h1, h2⟩
        have hlt : (n - 1).toNat < (peer.ledger own lid).txns.length := by omega
        exact ⟨_, (hread n _).2 ⟨h1, h2, List.getElem?_eq_getElem hlt⟩⟩
    constructor
    · rintro ⟨n, hn, rfl⟩
      obtain ⟨h1, h2⟩ := (hcontains n).1 hn
      refine ⟨n.toNat, by omega, by omega, ?_⟩
      rw [Int.toNat_of_nonneg (by omega)]
    · rintro ⟨n, h1, h2, rfl⟩
      exact ⟨n, (hcontains n).2 (by omega), rfl⟩
  · unfold ServedCatchupRep.receive at ht
    dsimp only at ht
    rw [Dict.get?_mapKeys toString_int_injective, Dict.get?_mapValues] at ht
    obtain ⟨t', ht', rfl⟩ := Option.map_eq_some_iff.1 ht
    obtain ⟨h1, h2, hget⟩ := (hread _ t').1 ht'
    have hn : ((n : ℤ) + 1 - 1).toNat = n := by omega
    rw [hn, hsame n (by omega)] at hget
    rw [hserves.transform]
    exact hget
  · unfold ServedCatchupRep.receive
    dsimp only
    rw [hserves.consistencyProof _ _ _ hlength, ← List.prefix_iff_eq_take.1 htarget]

/-! ## What waits came with a reply -/

/-- the transactions that wait to be appended satisfy `P` -/
def Waits (P : List (CatchupTxn τ) → Prop) (lid : LedgerId) (s : LedgerManager O τ) : Prop :=
  P (s.ledgerInfo lid).receivedCatchUpReplies

variable {P P' : List (CatchupTxn τ) → Prop}

theorem Waits.setLedgerInfo (h : Waits P lid s) {lid' : LedgerId} {info : LedgerInfo τ}
    (hinfo : info.receivedCatchUpReplies = (s.ledgerInfo lid').receivedCatchUpReplies) :
    Waits P lid (s.setLedgerInfo lid' info) := by
  unfold Waits
  rw [ledgerInfo_setLedgerInfo]
  split_ifs with hlid
  · subst hlid
    rw [hinfo]
    exact h
  · exact h

theorem Waits.of_same {s' : LedgerManager O τ} (h : Waits P lid s) (hreg : s'.ledgerRegistry = s.ledgerRegistry) :
    Waits P lid s' := by
  unfold Waits ledgerInfo
  rw [hreg]
  exact h

theorem waits_framed : Framed own (Waits P lid : LedgerManager O τ → Prop) :=
  ⟨fun _ _ hreg _ _ h => h.of_same hreg, fun _ _ _ hw h => h.setLedgerInfo hw.replies, fun _ _ _ _ h => h.of_same rfl⟩

/-- appending what waits and dropping the replies it came with leaves the list itself to `mergeCatchupRep` -/
theorem waits_processCatchupReplies (lid' : LedgerId) (n : ℕ) (replies : List (CatchupTxn τ)) :
    Keeps (Waits P lid : LedgerManager O τ → Prop) (processCatchupReplies env own lid' n replies) := by
  have hremove : ∀ nodeName seqNo, Keeps (Waits P lid : LedgerManager O τ → Prop)
      (removePrcdCatchupReply lid' nodeName seqNo) := by
    intro nodeName seqNo
    apply Keeps.get_seq
    intro s
    split
    · exact Keeps.raise _
    · exact Keeps.raise _
    · exact Keeps.write fun s hs => hs.setLedgerInfo rfl
  have hadd : ∀ l, Keeps (Waits P lid : LedgerManager O τ → Prop) (addCatchupTxns env own lid' l) :=
    fun l s hs => hs.of_same (ledgerRegistry_addCatchupTxns lid' l s)
  induction n generalizing replies with
  | zero => exact Keeps.raise _
  | succ n ih =>
    apply Keeps.get_seq
    intro s
    dsimp only
    split
    · exact Keeps.ret _
    · refine Keeps.cond (Keeps.seq (RepliesFramed.hasValidCatchupReplies _ _ _) fun r => ?_) (Keeps.ret _)
      refine Keeps.cond ?_ ?_
      · refine Keeps.seq (hadd _) fun _ => Keeps.seq (hremove _ _) fun _ => ?_
        exact Keeps.seq (ih _) fun _ => Keeps.ret _
      · refine Keeps.seq (Keeps.write fun s hs => hs.of_same rfl) fun _ => ?_
        exact Keeps.seq (hremove _ _) fun _ => Keeps.ret _

/-- the numbers that an honest reply is read with are its keys -/
theorem Honest.mem_readTxns {rep : CatchupRep τ} {first last : ℕ} (h : Honest env lid target rep first last)
    (hint : IntOfStr env) {e : CatchupTxn τ} (he : e ∈ readTxns env rep) : rep.txns.contains (toString e.1) = true := by
  rw [h.contains_iff]
  exact ((h.rangeTxns hint).mem e.1).1 ⟨e, he, rfl⟩

theorem exec_canProcessCatchupReply_of_honest (own : LedgerOwner O τ) (s : LedgerManager O τ) {rep : CatchupRep τ}
    {first last : ℕ} (h : Honest env lid target rep first last) (hint : IntOfStr env) :
    ∃ txns, exec (canProcessCatchupReply env own rep) s = (.ok txns, s) ∧ (txns = [] ∨ txns = readTxns env rep) := by
  by_cases hstate : (s.ledgerInfo lid).state = .syncing
  · refine ⟨_, h.exec_canProcess hint hstate, ?_⟩
    split_ifs
    · exact Or.inr rfl
    · exact Or.inl rfl
  · refine ⟨[], ?_, Or.inl rfl⟩
    unfold canProcessCatchupReply
    rw [exec_bind, exec_get]
    dsimp only
    rw [h.ledgerId, if_pos hstate]
    rfl

/-- what waits after a reply is what has waited, or the rest of it with the transactions of the reply -/
theorem Waits.mergeCatchupRep (h : Waits P lid s) {rep : CatchupRep τ} {first last : ℕ}
    (hrep : Honest env lid target rep first last) (hint : IntOfStr env) (hkept : ∀ l, P l → P' l)
    (hmerged : ∀ l m, P l → P' ((heapqMerge l (readTxns env rep)).drop m)) (frm : NodeName) :
    Waits P' lid (exec (mergeCatchupRep env own rep frm) s).2 := by
  obtain ⟨txns, hexec, htxns⟩ := exec_canProcessCatchupReply_of_honest own s hrep hint
  have hto : ∀ s : LedgerManager O τ, Waits P lid s → Waits P' lid s := fun s hs => hkept _ hs
  unfold LedgerManager.mergeCatchupRep
  rw [exec_bind, hexec]
  dsimp only
  by_cases hempty : txns = []
  · rw [if_pos hempty]
    exact hto s h
  · rw [if_neg hempty, htxns.resolve_left hempty, hrep.ledgerId]
    refine Keeps.andThen (I := Waits P lid) (Keeps.write fun s hs => hs.setLedgerInfo rfl) hto (fun _ s1 hs1 => ?_) h
    rw [exec_bind, exec_get]
    dsimp only
    refine Keeps.andThen (waits_processCatchupReplies lid _ _) hto (fun m s2 _ => ?_) hs1
    rw [modifyLedgerInfo, exec_bind, exec_modify]
    change P' ((s2.setLedgerInfo lid _).ledgerInfo lid).receivedCatchUpReplies
    rw [ledgerInfo_setLedgerInfo, if_pos rfl]
    exact hmerged _ m hs1

theorem Waits.catchupRep (h : Waits P lid s) {rep : CatchupRep τ} {first last : ℕ}
    (hrep : Honest env lid target rep first last) (hint : IntOfStr env) (hkept : ∀ l, P l → P' l)
    (hmerged : ∀ l m, P l → P' ((heapqMerge l (readTxns env rep)).drop m)) (frm : NodeName) :
    Waits P' lid (input env own fuel s (.catchupRep rep frm)) := by
  refine Keeps.after (I := Waits P' lid) (h.mergeCatchupRep hrep hint hkept hmerged frm) fun merged =>
    Keeps.cond ?_ (Keeps.ret _)
  apply Keeps.get_seq
  intro s'
  split
  · exact Keeps.raise _
  · refine Keeps.cond (Keeps.seq (Keeps.write fun s hs => hs.setLedgerInfo rfl) fun _ => ?_) (Keeps.ret _)
    exact waits_framed.catchupCompleted _ _

/-- no number is twice in the list, and none of them is in the replies to come -/
def ApartFrom (reps : List (CatchupRep τ × NodeName)) (l : List (CatchupTxn τ)) : Prop :=
  StrictTxns l ∧ ∀ e ∈ l, ∀ r ∈ reps, r.1.txns.contains (toString e.1) = false

/-- **What waits in a run of replies that share no number** has no number twice, and none of the replies to come. -/
theorem waits_apartFrom_run (hint : IntOfStr env) {xs ys : List (CatchupRep τ × NodeName)}
    (hhonest : AllHonest env lid target xs)
    (hapart : (xs ++ ys).Pairwise fun r r' => ∀ n : ℤ,
      ¬ (r.1.txns.contains (toString n) = true ∧ r'.1.txns.contains (toString n) = true))
    (h : Waits (ApartFrom (xs ++ ys)) lid s) :
    Waits (ApartFrom ys) lid (run env own fuel s (replyInputs xs)) := by
  induction xs generalizing s with
  | nil => exact h
  | cons r xs ih =>
    obtain ⟨first, last, hrep⟩ := hhonest r List.mem_cons_self
    obtain ⟨hhead, htail⟩ := List.pairwise_cons.1 hapart
    refine ih (fun r' hr' => hhonest r' (List.mem_cons_of_mem r hr')) htail (h.catchupRep hrep hint ?_ ?_ r.2)
    · rintro l ⟨hstrict, hcome⟩
      exact ⟨hstrict, fun e he r' hr' => hcome e he r' (List.mem_cons_of_mem r hr')⟩
    · rintro l m ⟨hstrict, hcome⟩
      have hmerge : StrictTxns (heapqMerge l (readTxns env r.1)) := by
        refine hstrict.merge (hrep.rangeTxns hint).strict ?_
        intro a ha e he hae
        have hfalse := hcome a ha r List.mem_cons_self
        rw [hae, hrep.mem_readTxns hint he] at hfalse
        cases hfalse
      refine ⟨List.Pairwise.sublist (List.drop_sublist m _) hmerge, ?_⟩
      intro e he r' hr'
      rcases mem_heapqMerge.1 (List.mem_of_mem_drop he) with he | he
      · exact hcome e he r' (List.mem_cons_of_mem r hr')
      · rw [← Bool.not_eq_true]
        exact fun hcontains => hhead r' hr' e.1 ⟨hrep.mem_readTxns hint he, hcontains⟩

/-- replies that share no number do no harm -/
theorem harmlessRun_of_apart (hint : IntOfStr env) {reps : List (CatchupRep τ × NodeName)}
    (hnothing : (s.ledgerInfo lid).receivedCatchUpReplies = []) (hhonest : AllHonest env lid target reps)
    (hapart : reps.Pairwise fun r r' => ∀ n : ℤ,
      ¬ (r.1.txns.contains (toString n) = true ∧ r'.1.txns.contains (toString n) = true)) :
    HarmlessRun env own fuel s reps := by
  rintro xs r ys rfl
  obtain ⟨first, last, hrep⟩ := hhonest r (List.mem_append_right xs List.mem_cons_self)
  have hstart : Waits (ApartFrom (xs ++ r :: ys)) lid s := by
    unfold Waits
    rw [hnothing]
    exact ⟨List.Pairwise.nil, fun e he => nomatch he⟩
  have hwaits : Waits (ApartFrom (r :: ys)) lid (run env own fuel s (replyInputs xs)) :=
    waits_apartFrom_run hint (fun r' hr' => hhonest r' (List.mem_append_left _ hr')) hapart hstart
  obtain ⟨hstrict, hcome⟩ := hwaits
  refine harmless_of_le_one _ _ fun n => ?_
  unfold timesWaiting
  rw [hrep.ledgerId]
  split_ifs with hcontains
  · have hnone : (((run env own fuel s (replyInputs xs)).ledgerInfo lid).receivedCatchUpReplies.countP
        fun e => e.1 = n) = 0 := by
      rw [List.countP_eq_zero]
      intro e he hn
      have hfalse := hcome e he r List.mem_cons_self
      rw [of_decide_eq_true hn, hcontains] at hfalse
      cases hfalse
    rw [hnone]
  · exact hstrict.countP_le_one n

/-- replies that cover what was missing leave nothing behind -/
theorem Awaiting.not_covered {b : Blacklist own} {s' : LedgerManager O τ} {reps : List (CatchupRep τ × NodeName)}
    (h : Awaiting env own lid cp target ((reps.map Prod.fst).reverse ++ []) s') (hprogress : Progress own b lid s s')
    (hbelow : s'.ledgerSize own lid < cp.seqNoEnd) : ¬ Covered own lid cp s reps := by
  intro hcovered
  have hgrown := hprogress.size
  obtain ⟨r, hr, hcontains⟩ := hcovered (s'.ledgerSize own lid + 1) (by omega) (by omega)
  have hgot : r.1 ∈ (reps.map Prod.fst).reverse ++ [] := by
    rw [List.append_nil, List.mem_reverse]
    exact List.mem_map_of_mem hr
  rcases h.collecting.got r.1 hgot _ hcontains with hle | ⟨e, he, hnum⟩
  · omega
  · have hbehind := h.behindGap e he
    omega

/-! ## The round -/

/-- what comes back for a message that was sent: the reply of the peer that was asked for transactions -/
def answer (own : LedgerOwner O τ) (tree : LedgerTree τ) (updateTxnWithExtraData : τ → τ)
    (peers : NodeName → LedgerManager O τ) : LedgerMsg × Option NodeName → Option (CatchupRep τ × NodeName)
  | (.catchupReq req, some j) =>
    match processCatchupReq own tree updateTxnWithExtraData (peers j) req.receive with
    | .ok (some rep) => some (rep.receive, j)
    | _ => none
  | _ => none

/-- the messages that starting to catch up sends -/
def sentAtStart (env : LedgerEnv τ) (own : LedgerOwner O τ) (fuel : ℕ) (lid : LedgerId) (cp : ConsistencyProof)
    (s : LedgerManager O τ) : List (LedgerMsg × Option NodeName) :=
  (exec (startCatchUpProcess env own fuel lid (some cp)) s).2.outBox.drop s.outBox.length

theorem answer_spec (hserves : ServesRanges tree env updateTxnWithExtraData) {peers : NodeName → LedgerManager O τ}
    {req : CatchupReq} {j : NodeName} (hlid : req.ledgerId = lid) (htill : req.catchupTill = target.length)
    (hfirst : 1 ≤ req.seqNoStart) (hle : req.seqNoStart ≤ req.seqNoEnd) (hlast : req.seqNoEnd ≤ target.length)
    (htarget : target <+: ((peers j).ledger own lid).txns) :
    ∃ rep, answer own tree updateTxnWithExtraData peers (.catchupReq req, some j) = some (rep, j) ∧
      Honest env lid target rep req.seqNoStart.toNat req.seqNoEnd.toNat := by
  have hserved := honest_served hserves htarget (show 1 ≤ req.seqNoStart.toNat by omega)
    (show req.seqNoStart.toNat ≤ req.seqNoEnd.toNat by omega) (by omega)
  obtain ⟨rep, hrep, hhonest⟩ := hserved
  refine ⟨rep.receive, ?_, hhonest⟩
  have hreceive : req.receive = ⟨lid, (req.seqNoStart.toNat : ℤ), (req.seqNoEnd.toNat : ℤ), (target.length : ℤ)⟩ := by
    unfold CatchupReq.receive
    rw [hlid, htill, Int.toNat_of_nonneg (by omega), Int.toNat_of_nonneg (by omega)]
  unfold answer
  dsimp only
  rw [hreceive, hrep]

/-- replies that answer requests for the parts of a range, in whatever order they come: they are honest, no two of them
share a number, and they cover the range -/
theorem answers_spec {asked : List (CatchupReq × NodeName)}
    {answered : CatchupReq × NodeName → Option (CatchupRep τ × NodeName)} {a b : ℤ}
    (htiles : Tiles a b (asked.map fun e => e.1.range))
    (hanswer : ∀ e ∈ asked, ∃ r, answered e = some r ∧
      Honest env lid target r.1 e.1.seqNoStart.toNat e.1.seqNoEnd.toNat)
    {reps : List (CatchupRep τ × NodeName)} (hreps : reps.Perm (asked.filterMap answered)) :
    AllHonest env lid target reps ∧
      (reps.Pairwise fun r r' => ∀ n : ℤ,
        ¬ (r.1.txns.contains (toString n) = true ∧ r'.1.txns.contains (toString n) = true)) ∧
      ∀ n : ℕ, a ≤ n → n ≤ b → ∃ r ∈ reps, r.1.txns.contains (toString (n : ℤ)) = true := by
  refine ⟨?_, ?_, ?_⟩
  · intro r hr
    obtain ⟨e, he, hans⟩ := List.mem_filterMap.1 (hreps.mem_iff.1 hr)
    obtain ⟨r', hr', hhonest⟩ := hanswer e he
    cases hans.symm.trans hr'
    exact ⟨_, _, hhonest⟩
  · refine hreps.symm.pairwise (List.pairwise_filterMap.2 ?_) fun hrr n hn => hrr n hn.symm
    have hranges : asked.Pairwise fun e e' => e.1.seqNoEnd < e'.1.seqNoStart := List.pairwise_map.1 htiles.pairwise
    refine List.Pairwise.imp_of_mem (fun {e e'} he he' hlt => ?_) hranges
    intro r hr r' hr' n hn
    obtain ⟨_, hans, h⟩ := hanswer e he
    obtain ⟨_, hans', h'⟩ := hanswer e' he'
    cases hr.symm.trans hans
    cases hr'.symm.trans hans'
    obtain ⟨-, hup⟩ := (h.contains_iff n).1 hn.1
    obtain ⟨hlow, -⟩ := (h'.contains_iff n).1 hn.2
    have hpos := h.pos
    have hpos' := h'.pos
    omega
  · intro n hlow hup
    obtain ⟨q, hq, hlow', hup'⟩ := (htiles.covers_iff n).2 ⟨hlow, hup⟩
    obtain ⟨e, he, rfl⟩ := List.mem_map.1 hq
    obtain ⟨r, hans, h⟩ := hanswer e he
    refine ⟨r, hreps.mem_iff.2 (List.mem_filterMap.2 ⟨e, he, hans⟩), (h.contains_iff n).2 ?_⟩
    have hpos := h.pos
    have hfirst : e.1.seqNoStart ≤ n := hlow'
    have hlast : (n : ℤ) ≤ e.1.seqNoEnd := hup'
    omega

theorem Towards.setLedgerInfo (h : Towards lid cp s) {info : LedgerInfo τ}
    (hstate : info.state = (s.ledgerInfo lid).state) (htill : info.catchUpTill = (s.ledgerInfo lid).catchUpTill) :
    Towards lid cp (s.setLedgerInfo lid info) := by
  unfold Towards at h ⊢
  rw [ledgerInfo_setLedgerInfo, if_pos rfl, hstate, htill]
  exact h

/-- starting to catch up aims at `cp` and changes nothing of the owner -/
theorem startCatchUpProcess_towards (env : LedgerEnv τ) (fuel : ℕ) (lid : LedgerId) {reqs : List CatchupReq}
    (h : getCatchupReqs (own.conns s.owner).length cp = some reqs) :
    Ends (startCatchUpProcess env own fuel lid (some cp)) s (fun _ s' => Towards lid cp s' ∧ s'.owner = s.owner)
      fun _ _ => False := by
  unfold startCatchUpProcess modifyLedgerInfo
  dsimp only
  refine Ends.modify_seq (Ends.get_seq ?_)
  have howner : ∀ info, (s.setLedgerInfo lid info).owner = s.owner := fun _ => rfl
  simp only [howner, h]
  have hinfo : ∀ (s : LedgerManager O τ) info, (s.setLedgerInfo lid info).ledgerInfo lid = info := by
    intro s info
    rw [ledgerInfo_setLedgerInfo, if_pos rfl]
  refine Ends.seq (Q := fun _ s' => (s'.ledgerInfo lid).state = .syncing ∧ s'.owner = s.owner)
    (Ends.of_exec (exec_forM_sendTo _ _ _ _) ⟨?_, rfl⟩) ?_
  · change ((s.setLedgerInfo lid _).ledgerInfo lid).state = _
    rw [hinfo]
  · rintro _ s1 ⟨hstate, howner1⟩
    refine Ends.modify_seq ?_
    have htowards : Towards lid cp (s1.setLedgerInfo lid { s1.ledgerInfo lid with catchUpTill := some cp }) := by
      unfold Towards
      rw [hinfo]
      exact ⟨hstate, rfl⟩
    cases reqs with
    | nil => exact Ends.ret ⟨htowards, howner1⟩
    | cons req reqs =>
      have htimer : Towards lid cp (LedgerManager.setLedgerInfo _ lid
          { LedgerManager.ledgerInfo _ lid with catchupReplyTimer := some s.perfCounter }) :=
        htowards.setLedgerInfo rfl rfl
      exact Ends.modify_seq (Ends.write ⟨htimer, howner1⟩)

/-- **A round of catch-up.** A node starts to catch up to a proof that extends its own ledger, from peers whose ledgers
go on from the target. Then, whatever the order in which the replies to its requests arrive, it blacklists nobody, and
one of them completes the catch-up with the target as its ledger. What earlier rounds have left must have nothing beyond
the ledger, and what this one leaves has nothing beyond the target. -/
theorem catchup_round (env : LedgerEnv τ) (own : LedgerOwner O τ) (fuel : ℕ) (hverify : VerifyExact env)
    (hint : IntOfStr env) (b : Blacklist own) {tree : LedgerTree τ} {updateTxnWithExtraData : τ → τ}
    (hserves : ServesRanges tree env updateTxnWithExtraData) {cp : ConsistencyProof} {target : List τ}
    (hsize : target.length = cp.seqNoEnd) (hroot : env.merkleRoot target = cp.newMerkleRoot)
    {s : LedgerManager O τ} (hnothing : NothingLeft cp.ledgerId (s.ledgerSize own cp.ledgerId) s)
    (hstart : cp.seqNoStart = s.ledgerSize own cp.ledgerId)
    (hrange : cp.seqNoStart < cp.seqNoEnd) (hpre : (s.ledger own cp.ledgerId).txns <+: target)
    (hconns : own.conns s.owner ≠ []) {peers : NodeName → LedgerManager O τ}
    (hpeers : ∀ j ∈ own.conns s.owner, target <+: ((peers j).ledger own cp.ledgerId).txns)
    {reps : List (CatchupRep τ × NodeName)}
    (hreps : reps.Perm ((sentAtStart env own fuel cp.ledgerId cp s).filterMap
      (answer own tree updateTxnWithExtraData peers))) :
    let s' := (exec (startCatchUpProcess env own fuel cp.ledgerId (some cp)) s).2
    RunBlacklistsNobody env own fuel b s' reps ∧ RunCompletes env own fuel cp.ledgerId cp target s' reps ∧
      NothingLeft cp.ledgerId target.length (run env own fuel s' (replyInputs reps)) := by
  intro s'
  have hnodes : 1 ≤ (own.conns s.owner).length := List.length_pos_iff.2 hconns
  obtain ⟨reqs, hreqs, hcount, htill, htiles⟩ := getCatchupReqs_spec hnodes hrange
  have hsent := (exec_startCatchUpProcess env fuel cp.ledgerId hreqs).2
  obtain ⟨_, s2, hexec, htowards, howner⟩ :=
    (startCatchUpProcess_towards env fuel cp.ledgerId hreqs).returns
  have hs' : s' = s2 := congrArg Prod.snd hexec
  have hledger : (s'.ledger own cp.ledgerId).txns = (s.ledger own cp.ledgerId).txns := by
    rw [hs']
    unfold ledger
    rw [howner]
  have hsize' : s'.ledgerSize own cp.ledgerId = cp.seqNoStart := by
    rw [hstart]
    exact congrArg List.length hledger
  have hnothing' : NothingLeft cp.ledgerId (s'.ledgerSize own cp.ledgerId) s' := by
    have hframed : CatchupFramed own (NothingLeft cp.ledgerId (s.ledgerSize own cp.ledgerId)) :=
      nothingLeft_framed cp.ledgerId (s.ledgerSize own cp.ledgerId)
    rw [hsize', hstart]
    exact hframed.startCatchUpProcess cp.ledgerId (some cp) s hnothing
  -- each request has an honest answer, and what comes back are these answers, in some order
  have hanswer : ∀ e ∈ reqs.zip (own.conns s.owner), ∃ r,
      answer own tree updateTxnWithExtraData peers (.catchupReq e.1, some e.2) = some r ∧
        Honest env cp.ledgerId target r.1 e.1.seqNoStart.toNat e.1.seqNoEnd.toNat := by
    intro e he
    obtain ⟨hreq, hj⟩ := List.of_mem_zip he
    obtain ⟨hlid, hend⟩ := htill e.1 hreq
    have hle := htiles.nonempty _ (List.mem_map_of_mem hreq)
    have hfirst := (htiles.covers_iff e.1.seqNoStart).1 ⟨_, List.mem_map_of_mem hreq, le_rfl, hle⟩
    have hlast := (htiles.covers_iff e.1.seqNoEnd).1 ⟨_, List.mem_map_of_mem hreq, hle, le_rfl⟩
    obtain ⟨rep, hrep, hhonest⟩ := answer_spec hserves hlid (hend.trans hsize.symm) (by omega) hle (by omega)
      (hpeers e.2 hj)
    exact ⟨_, hrep, hhonest⟩
  have hsentAt : sentAtStart env own fuel cp.ledgerId cp s =
      (reqs.zip (own.conns s.owner)).map fun e => (LedgerMsg.catchupReq e.1, some e.2) := by
    unfold sentAtStart
    rw [hsent, List.drop_left]
  rw [hsentAt, List.filterMap_map] at hreps
  have hzip : (reqs.zip (own.conns s.owner)).map (fun e => e.1.range) = reqs.map CatchupReq.range := by
    rw [← List.map_fst_zip hcount, List.map_map, List.map_fst_zip hcount]
    rfl
  obtain ⟨hhonest, hapart, hcovers⟩ := answers_spec (hzip ▸ htiles) hanswer hreps
  have hcovered : Covered own cp.ledgerId cp s' reps := by
    intro n hn hn'
    rw [hsize'] at hn
    exact hcovers n (by omega) (by omega)
  have hstarts : CatchupStarts own cp.ledgerId cp target s' := by
    refine hnothing'.catchupStarts ?_ ?_ (by rw [hsize']; exact hrange)
    · rw [hs']
      exact htowards
    · rw [hledger]
      exact hpre
  have hharmless : HarmlessRun env own fuel s' reps := harmlessRun_of_apart hint hstarts.nothingWaiting hhonest hapart
  have hawait : Awaiting env own cp.ledgerId cp target [] s' := hstarts.awaiting
  obtain ⟨hblack, hend⟩ := hawait.run hstarts.below hverify hint b hsize hroot hhonest hharmless
  refine ⟨hblack, hend.resolve_right ?_⟩
  rintro ⟨hawait', hprogress, hbelow⟩
  exact hawait'.not_covered hprogress hbelow hcovered

end LedgerManager

/-! ## Witness -/

namespace FourNodes

open LedgerManager

/-- the numbered transactions of a range -/
def numbered (txns : List Char) (a b : ℤ) : List (ℤ × Char) :=
  ((txns.zipIdx 1).filter fun e => a ≤ e.2 ∧ (e.2 : ℤ) ≤ b).map fun e => ((e.2 : ℤ), e.1)

theorem nodup_numbered (txns : List Char) (a b : ℤ) : ((numbered txns a b).map Prod.fst).Nodup := by
  have hkeys : (numbered txns a b).map Prod.fst =
      (((txns.zipIdx 1).filter fun e => a ≤ e.2 ∧ (e.2 : ℤ) ≤ b).map Prod.snd).map fun n : ℕ => (n : ℤ) := by
    unfold numbered
    rw [List.map_map, List.map_map]
    rfl
  rw [hkeys]
  refine List.Nodup.map (fun m n h => by exact_mod_cast h) ?_
  refine List.Nodup.sublist (List.filter_sublist.map _) ?_
  rw [List.zipIdx_map_snd]
  exact List.nodup_range'

/-- the range, where it is one -/
def exactTxns (txns : List Char) (a b : ℤ) : Option (Dict ℤ Char) :=
  if 1 ≤ a ∧ a ≤ b then some ⟨numbered txns a b, nodup_numbered txns a b⟩ else none

/-- proofs are empty, where there is one -/
def exactProof (txns : List Char) (a b : ℤ) : Option (List String) :=
  if 0 < a ∧ a ≤ b ∧ b ≤ txns.length then some [] else none

/-- the hash of a tree is its transactions -/
def exactHash (txns : List Char) (_ b : ℤ) : Option String := some (String.ofList (txns.take b.toNat))

theorem isSome_exactTxns (txns : List Char) (a b : ℤ) : (exactTxns txns a b).isSome ↔ 1 ≤ a ∧ a ≤ b := by
  unfold exactTxns
  split_ifs with h <;> simp [h]

theorem isSome_exactProof (txns : List Char) (a b : ℤ) :
    (exactProof txns a b).isSome ↔ 0 < a ∧ a ≤ b ∧ b ≤ txns.length := by
  unfold exactProof
  split_ifs with h <;> simp [h]

theorem isSome_exactHash (txns : List Char) (n : ℤ) (_ : 0 < n) (_ : n ≤ txns.length) :
    (exactHash txns 0 n).isSome := rfl

/-- a tree whose proofs are those of `exactLedgerEnv`, and its log -/
def exactLedgerTree : LedgerTree Char where
  rootHash txns := String.ofList txns
  merkleTreeHash := exactHash
  consistencyProof := exactProof
  getAllTxn := exactTxns
  merkleTreeHash_isSome := isSome_exactHash
  consistencyProof_isSome := isSome_exactProof
  getAllTxn_isSome := isSome_exactTxns

theorem servesRanges_exactLedgerTree : ServesRanges exactLedgerTree exactLedgerEnv id where
  tree_consistencyProof txns a b ha hab hb := by
    change (if _ then _ else _) = _
    rw [if_pos (by omega)]
    rfl
  getAllTxn txns a b d ha hd n t := by
    have hle : (1 : ℤ) ≤ a ∧ (a : ℤ) ≤ b := (exactLedgerTree.getAllTxn_isSome txns a b).1 (by rw [hd]; rfl)
    have hd' : some (⟨numbered txns a b, nodup_numbered txns a b⟩ : Dict ℤ Char) = some d := by
      rw [← hd]
      change _ = if _ then _ else _
      rw [if_pos hle]
    rw [← Option.some.inj hd', Dict.get?_eq_some]
    change (n, t) ∈ numbered txns a b ↔ _
    unfold numbered
    simp only [List.mem_map, List.mem_filter, Prod.exists, decide_eq_true_eq, Prod.mk.injEq,
      List.mk_mem_zipIdx_iff_le_and_getElem?_sub]
    constructor
    · rintro ⟨t', m, ⟨⟨hm, hget⟩, hlow, hup⟩, rfl, rfl⟩
      refine ⟨hlow, hup, ?_⟩
      have hidx : ((m : ℤ) - 1).toNat = m - 1 := by omega
      rw [hidx]
      exact hget
    · rintro ⟨hlow, hup, hget⟩
      refine ⟨t, n.toNat, ⟨⟨by omega, ?_⟩, by omega, by omega⟩, by omega, rfl⟩
      have hidx : n.toNat - 1 = (n - 1).toNat := by omega
      rw [hidx]
      exact hget
  consistencyProof _ _ _ _ := rfl
  transform _ := rfl

/-- Delta without transactions, allowed to sync its pool ledger -/
def emptyDelta : LedgerManager (PerLedger (Ledger Char) × List NodeName) Char := init (emptyLedgers, [])

/-- peers with a transaction more than the target -/
def aheadPeer (_ : NodeName) : LedgerManager (PerLedger (Ledger Char) × List NodeName) Char :=
  init (⟨⟨['a', 'b', 'c', 'd'], [], none, none⟩, Ledger.empty⟩, [])

theorem prefix_aheadPeer (j : NodeName) :
    targetAbc <+: ((aheadPeer j).ledger recordingOwner toAbc.ledgerId).txns := ⟨['d'], rfl⟩

/-- the replies of the three peers, the last one first -/
def reversedReplies : List (CatchupRep Char × NodeName) :=
  ((sentAtStart exactLedgerEnv recordingOwner 1 .pool toAbc emptyDelta).filterMap
    (answer recordingOwner exactLedgerTree id aheadPeer)).reverse

end FourNodes

open FourNodes LedgerManager in
theorem catchup_round_reversed : reversedReplies.map Prod.snd = ["Gamma", "Beta", "Alpha"] ∧
    RunCompletes exactLedgerEnv recordingOwner 1 .pool toAbc targetAbc
      (exec (startCatchUpProcess exactLedgerEnv recordingOwner 1 .pool (some toAbc)) emptyDelta).2 reversedReplies := by
  have hreps : reversedReplies.Perm
      ((sentAtStart exactLedgerEnv recordingOwner 1 toAbc.ledgerId toAbc emptyDelta).filterMap
        (answer recordingOwner exactLedgerTree id aheadPeer)) := List.reverse_perm _
  have hround := catchup_round exactLedgerEnv recordingOwner 1 verifyExact_exactLedgerEnv intOfStr_exactLedgerEnv
    recordedBlacklist servesRanges_exactLedgerTree (by decide : targetAbc.length = toAbc.seqNoEnd) (by decide)
    (nothingLeft_init _ _ (emptyLedgers, [])) (by decide) (by decide) (by decide) (by decide)
    (fun j _ => prefix_aheadPeer j) hreps
  exact ⟨by decide +kernel, hround.2.1⟩

end Plenum
