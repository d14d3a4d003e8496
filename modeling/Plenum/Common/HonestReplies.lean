/-
Whether honest catch-up replies are taken in.

- `Honest env lid target rep first last`: the reply carries the transactions of the target from `first` to `last`, with
  the proof from its end.
- `Collecting`: a ledger that is a prefix of the target, with the replies held and the transactions that wait behind a
  gap.
- `NoneTwice`: no number of the reply that is looked up waits twice, except the last one of a reply that starts right
  behind the ledger. Then the transactions verified with it are the next ones of the target (`Collecting.slice`), so the
  proof is accepted (`Collecting.verified`).
- `HarmlessReply`: the reply overlaps what waits only so that this is so of every reply that is looked up next.
- `NothingLeft`: what earlier catch-ups have left is of no use to the next one. So it is at the beginning, and again
  after a catch-up with honest replies (`Awaiting.nothing_left`).
- `honest_replies_suffice`: in a run in which every reply is harmless nobody is blacklisted, and once the ranges cover
  what is missing the ledger is the target and `catchupCompleted` has been called.
- `honest_blacklisted`: two honest nodes send the same range behind a gap. When the gap is filled, the first of them is
  blacklisted, and the transactions are lost.
-/
import Mathlib.Tactic
import Plenum.Core.Ends
import Plenum.Core.Run
import Plenum.Common.CatchupReplies

namespace Plenum

open Plenum.Core Plenum.Core.Exec

namespace LedgerManager

/-! ## Strictly sorted transactions -/

section Lists

variable {τ : Type}

/-- sorted by their sequence numbers, none of which occurs twice -/
def StrictTxns (l : List (CatchupTxn τ)) : Prop := l.Pairwise fun a b => a.1 < b.1

theorem StrictTxns.sorted {l : List (CatchupTxn τ)} (h : StrictTxns l) : SortedTxns l := h.imp fun hab => le_of_lt hab

/-- dropping what the ledger has leaves what is beyond it -/
theorem SortedTxns.drop_countP {l : List (CatchupTxn τ)} (h : SortedTxns l) (size : ℤ) :
    l.drop (l.countP fun e => e.1 ≤ size) = l.filter fun e => size < e.1 := by
  induction l with
  | nil => rfl
  | cons a l ih =>
    obtain ⟨hhead, htail⟩ := List.pairwise_cons.1 h
    by_cases ha : a.1 ≤ size
    · have hna : ¬ size < a.1 := not_lt.2 ha
      rw [List.countP_cons_of_pos (by simpa using ha), List.drop_succ_cons, ih htail,
        List.filter_cons_of_neg (by simpa using hna)]
    · have hzero : (a :: l).countP (fun e => decide (e.1 ≤ size)) = 0 := by
        rw [List.countP_eq_zero]
        intro e he
        rcases List.mem_cons.1 he with rfl | he
        · simpa using ha
        · have hle := hhead e he
          simp only [decide_eq_true_eq]
          omega
      have hall : (a :: l).filter (fun e => decide (size < e.1)) = a :: l := by
        rw [List.filter_eq_self]
        intro e he
        rcases List.mem_cons.1 he with rfl | he
        · simpa using ha
        · have hle := hhead e he
          simp only [decide_eq_true_eq]
          omega
      rw [hzero, List.drop_zero, hall]

/-- what waits beyond `n` starts with the next `k` numbers if it has them all, and each of them but the last once -/
theorem SortedTxns.take_next {f : τ → τ} {target : List τ} {l : List (CatchupTxn τ)} (h : SortedTxns l) {n k : ℕ}
    (hfrom : ∀ e ∈ l, (n : ℤ) ≤ e.1) (hnew : 0 < k → ∀ e ∈ l, (n : ℤ) < e.1)
    (hall : ∀ j : ℕ, n < j → j ≤ n + k → ∃ e ∈ l, e.1 = j)
    (honce : ∀ j : ℕ, n < j → j < n + k → (l.countP fun e => e.1 = (j : ℤ)) ≤ 1)
    (htxn : ∀ e ∈ l, ∃ m : ℕ, e.1 = m + 1 ∧ target[m]? = some (f e.2)) :
    ((l.take k).map fun e => f e.2) = (target.drop n).take k ∧ (l.take k).length = k ∧
      (∀ e ∈ l.take k, e.1 ≤ n + k) ∧ (∀ j : ℕ, n < j → j ≤ n + k → ∃ e ∈ l.take k, e.1 = j) ∧
      ∀ e ∈ l.drop k, (n : ℤ) + k ≤ e.1 := by
  induction k generalizing l n with
  | zero =>
    refine ⟨by simp, by simp, by simp, fun j hj hjk => by omega, ?_⟩
    simpa using hfrom
  | succ k ih =>
    obtain ⟨e0, he0, hnum0⟩ := hall (n + 1) (by omega) (by omega)
    cases l with
    | nil => cases he0
    | cons a l =>
      obtain ⟨hhead, htail⟩ := List.pairwise_cons.1 h
      -- the least number is the next one
      have hnum : a.1 = (n : ℤ) + 1 := by
        have hlow := hnew (Nat.succ_pos k) a List.mem_cons_self
        rcases List.mem_cons.1 he0 with rfl | he0
        · push_cast at hnum0
          exact hnum0
        · have hle := hhead e0 he0
          push_cast at hnum0
          omega
      have hfrom' : ∀ e ∈ l, ((n + 1 : ℕ) : ℤ) ≤ e.1 := by
        intro e he
        have hle := hhead e he
        push_cast
        omega
      -- unless it is the last one, it is there once
      have hnew' : 0 < k → ∀ e ∈ l, ((n + 1 : ℕ) : ℤ) < e.1 := by
        intro hk e he
        have hcount := honce (n + 1) (by omega) (by omega)
        rw [List.countP_cons_of_pos (by simpa using hnum)] at hcount
        have hnone := List.countP_eq_zero.1 (show (l.countP fun e => e.1 = ((n + 1 : ℕ) : ℤ)) = 0 by omega) e he
        rw [decide_eq_true_eq] at hnone
        exact lt_of_le_of_ne (hfrom' e he) (Ne.symm hnone)
      have hall' : ∀ j : ℕ, n + 1 < j → j ≤ n + 1 + k → ∃ e ∈ l, e.1 = j := by
        intro j hj hjk
        obtain ⟨e, he, hej⟩ := hall j (by omega) (by omega)
        rcases List.mem_cons.1 he with rfl | he
        · omega
        · exact ⟨e, he, hej⟩
      have honce' : ∀ j : ℕ, n + 1 < j → j < n + 1 + k → (l.countP fun e => e.1 = (j : ℤ)) ≤ 1 := fun j hj hjk =>
        (List.sublist_cons_self a l).countP_le.trans (honce j (by omega) (by omega))
      obtain ⟨hmap, hlen, hle, hex, hgt⟩ := ih htail hfrom' hnew' hall' honce' fun e he =>
        htxn e (List.mem_cons_of_mem a he)
      obtain ⟨m, hm, htarget⟩ := htxn a List.mem_cons_self
      have hmn : m = n := by omega
      subst hmn
      obtain ⟨hlt, hget⟩ := List.getElem?_eq_some_iff.1 htarget
      refine ⟨?_, ?_, ?_, ?_, ?_⟩
      · rw [List.take_succ_cons, List.map_cons, hmap, List.drop_eq_getElem_cons hlt, List.take_succ_cons, hget]
      · rw [List.take_succ_cons, List.length_cons, hlen]
      · intro e he
        rw [List.take_succ_cons] at he
        rcases List.mem_cons.1 he with rfl | he
        · push_cast
          omega
        · have hup := hle e he
          push_cast at hup ⊢
          omega
      · intro j hj hjk
        rw [List.take_succ_cons]
        by_cases hj1 : j = m + 1
        · exact ⟨a, List.mem_cons_self, by omega⟩
        · obtain ⟨e, he, hej⟩ := hex j (by omega) (by omega)
          exact ⟨e, List.mem_cons_of_mem a he, hej⟩
      · intro e he
        rw [List.drop_succ_cons] at he
        have hlow := hgt e he
        push_cast at hlow ⊢
        omega

/-- a number on both sides of a list is in it twice -/
theorem one_lt_countP_of_mem {l l' : List (CatchupTxn τ)} {n : ℤ} {e e' : CatchupTxn τ} (he : e ∈ l) (he' : e' ∈ l')
    (hn : e.1 = n) (hn' : e'.1 = n) : 1 < (l ++ l').countP fun e => e.1 = n := by
  have h : 0 < l.countP fun e => e.1 = n := List.countP_pos_iff.2 ⟨e, he, by simpa using hn⟩
  have h' : 0 < l'.countP fun e => e.1 = n := List.countP_pos_iff.2 ⟨e', he', by simpa using hn'⟩
  rw [List.countP_append]
  omega

/-- in a strictly sorted list no number is twice -/
theorem StrictTxns.countP_le_one {l : List (CatchupTxn τ)} (h : StrictTxns l) (n : ℤ) :
    (l.countP fun e => e.1 = n) ≤ 1 := by
  induction l with
  | nil => exact Nat.zero_le 1
  | cons a l ih =>
    obtain ⟨hhead, htail⟩ := List.pairwise_cons.1 h
    by_cases ha : a.1 = n
    · have hnone : (l.countP fun e => e.1 = n) = 0 := by
        rw [List.countP_eq_zero]
        intro e he
        have hlt := hhead e he
        rw [decide_eq_true_eq]
        omega
      rw [List.countP_cons_of_pos (by simpa using ha), hnone]
    · rw [List.countP_cons_of_neg (by simpa using ha)]
      exact ih htail

end Lists

variable {O τ : Type} {env : LedgerEnv τ} {own : LedgerOwner O τ} {fuel : ℕ}

/-! ## Honest replies -/

/-- verification accepts exactly the proofs that relate two prefixes of one list -/
def VerifyExact (env : LedgerEnv τ) : Prop :=
  ∀ (t1 t2 : List τ) (proof : List String),
    env.verifyTreeConsistency t1.length t2.length (env.merkleRoot t1) (env.merkleRoot t2) proof = true ↔
      t1 <+: t2 ∧ proof = env.consistencyProof t2 t1.length t2.length

/-- the number of a string of digits -/
def IntOfStr (env : LedgerEnv τ) : Prop := ∀ n : ℕ, env.int (toString (n : ℤ)) = some (n : ℤ)

/-- a contiguous range of the target with the proof from its end -/
structure Honest (env : LedgerEnv τ) (lid : LedgerId) (target : List τ) (rep : CatchupRep τ) (first last : ℕ) :
    Prop where
  ledgerId : rep.ledgerId = lid
  pos : 1 ≤ first
  last_le : last ≤ target.length
  keys : ∀ k, rep.txns.contains k = true ↔ ∃ n : ℕ, first ≤ n ∧ n ≤ last ∧ k = toString (n : ℤ)
  txn : ∀ (n : ℕ) t, rep.txns.get? (toString ((n : ℤ) + 1)) = some t → target[n]? = some (env.transformTxnForLedger t)
  proof : rep.consProof = env.consistencyProof target last target.length

variable {lid : LedgerId} {cp : ConsistencyProof} {target : List τ} {rep : CatchupRep τ} {first last : ℕ}

namespace Honest

variable (h : Honest env lid target rep first last)

include h

theorem contains_iff (n : ℤ) : rep.txns.contains (toString n) = true ↔ (first : ℤ) ≤ n ∧ n ≤ last := by
  rw [h.keys]
  constructor
  · rintro ⟨m, hfirst, hlast, hm⟩
    have hnm : n = m := Int.repr_injective hm
    omega
  · rintro ⟨hfirst, hlast⟩
    obtain ⟨m, rfl⟩ : ∃ m : ℕ, n = m := ⟨n.toNat, by omega⟩
    exact ⟨m, by omega, by omega, rfl⟩

/-- the keys are the numbers of the range -/
theorem size_eq : rep.txns.size = last + 1 - first := by
  have hkeys : rep.txns.keys.toFinset = (Finset.Icc first last).image fun n : ℕ => toString (n : ℤ) := by
    ext k
    rw [List.mem_toFinset, ← Dict.contains_iff, h.keys, Finset.mem_image]
    constructor
    · rintro ⟨n, hfirst, hlast, rfl⟩
      exact ⟨n, Finset.mem_Icc.2 ⟨hfirst, hlast⟩, rfl⟩
    · rintro ⟨n, hn, rfl⟩
      obtain ⟨hfirst, hlast⟩ := Finset.mem_Icc.1 hn
      exact ⟨n, hfirst, hlast, rfl⟩
  have hinj : Function.Injective fun n : ℕ => toString (n : ℤ) := by
    intro m n hmn
    have hcast : (m : ℤ) = n := Int.repr_injective hmn
    exact_mod_cast hcast
  rw [Dict.size_eq_card, hkeys, Finset.card_image_of_injective _ hinj, Nat.card_Icc]

end Honest

/-- the transactions of a range of the target, sorted -/
structure RangeTxns (env : LedgerEnv τ) (target : List τ) (first last : ℕ) (txns : List (CatchupTxn τ)) : Prop where
  strict : StrictTxns txns
  txn : ∀ e ∈ txns, ∃ m : ℕ, e.1 = m + 1 ∧ target[m]? = some (env.transformTxnForLedger e.2)
  mem : ∀ n : ℤ, (∃ e ∈ txns, e.1 = n) ↔ (first : ℤ) ≤ n ∧ n ≤ last

/-- a range that is not empty has a first and a last number -/
theorem RangeTxns.ends {txns : List (CatchupTxn τ)} (h : RangeTxns env target first last txns) (hne : first ≤ last) :
    ∃ a b, txns.head? = some a ∧ txns.getLast? = some b ∧ a.1 = first ∧ b.1 = last := by
  obtain ⟨e, he, hfirst⟩ := (h.mem first).2 ⟨le_rfl, by omega⟩
  obtain ⟨e', he', hlast⟩ := (h.mem last).2 ⟨by omega, le_rfl⟩
  have hnil : txns ≠ [] := List.ne_nil_of_mem he
  obtain ⟨a, l, rfl⟩ := List.exists_cons_of_ne_nil hnil
  obtain ⟨l', b, hsplit⟩ := (List.eq_nil_or_concat' (a :: l)).resolve_left hnil
  have hbounds : ∀ x ∈ a :: l, (first : ℤ) ≤ x.1 ∧ x.1 ≤ last := fun x hx => (h.mem x.1).1 ⟨x, hx, rfl⟩
  refine ⟨a, b, rfl, ?_, ?_, ?_⟩
  · rw [hsplit, List.getLast?_concat]
  · obtain ⟨hlow, -⟩ := hbounds a List.mem_cons_self
    rcases List.mem_cons.1 he with rfl | he
    · exact hfirst
    · have hlt := (List.pairwise_cons.1 h.strict).1 e he
      omega
  · have hb : b ∈ a :: l := by
      rw [hsplit]
      exact List.mem_append_right l' (List.mem_singleton.2 rfl)
    obtain ⟨-, hup⟩ := hbounds b hb
    rw [hsplit] at he'
    rcases List.mem_append.1 he' with he' | he'
    · have hstrict := h.strict
      rw [hsplit] at hstrict
      have hlt := (List.pairwise_append.1 hstrict).2.2 e' he' b (List.mem_singleton.2 rfl)
      omega
    · rw [← List.mem_singleton.1 he']
      exact hlast

/-- reading the keys of a reply -/
theorem mapM_eq_map {α β : Type} {f : α → Option β} {g : α → β} {l : List α} (h : ∀ a ∈ l, f a = some (g a)) :
    l.mapM f = some (l.map g) := by
  induction l with
  | nil => rfl
  | cons a l ih =>
    have hl := ih fun b hb => h b (List.mem_cons_of_mem a hb)
    rw [List.mapM_cons, h a List.mem_cons_self, hl]
    rfl

/-- the transactions of a reply as they are read from it -/
def readTxns (env : LedgerEnv τ) (rep : CatchupRep τ) : List (CatchupTxn τ) :=
  (rep.txns.entries.map fun e => ((env.int e.1).getD 0, e.2)).insertionSort fun a b => a.1 ≤ b.1

theorem Honest.rangeTxns (h : Honest env lid target rep first last) (hint : IntOfStr env) :
    RangeTxns env target first last (readTxns env rep) := by
  have hread : ∀ e, e ∈ readTxns env rep ↔ ∃ n : ℕ, e.1 = n ∧ (toString (n : ℤ), e.2) ∈ rep.txns.entries := by
    intro e
    unfold readTxns
    rw [(List.perm_insertionSort _ _).mem_iff, List.mem_map]
    constructor
    · rintro ⟨x, hx, rfl⟩
      obtain ⟨n, -, -, hn⟩ := (h.keys x.1).1 (Dict.contains_iff.2 (List.mem_map_of_mem hx))
      refine ⟨n, ?_, ?_⟩
      · rw [hn, hint n, Option.getD_some]
      · rw [← hn]
        exact hx
    · rintro ⟨n, hn, hx⟩
      refine ⟨(toString (n : ℤ), e.2), hx, ?_⟩
      dsimp only
      rw [hint n, Option.getD_some, ← hn]
  have hmem : ∀ n : ℤ, (∃ e ∈ readTxns env rep, e.1 = n) ↔ (first : ℤ) ≤ n ∧ n ≤ last := by
    intro n
    rw [← h.contains_iff, Dict.contains_iff]
    constructor
    · rintro ⟨e, he, rfl⟩
      obtain ⟨m, hm, hx⟩ := (hread e).1 he
      rw [hm]
      exact List.mem_map_of_mem hx
    · intro hn
      obtain ⟨t, ht⟩ := Dict.mem_fst.1 hn
      obtain ⟨hfirst, -⟩ := (h.contains_iff n).1 (Dict.contains_iff.2 hn)
      obtain ⟨m, rfl⟩ : ∃ m : ℕ, n = m := ⟨n.toNat, by omega⟩
      exact ⟨((m : ℤ), t), (hread _).2 ⟨m, rfl, ht⟩, rfl⟩
  refine ⟨?_, ?_, hmem⟩
  · have hsorted : SortedTxns (readTxns env rep) := sortedTxns_insertionSort _
    have hdistinct : (readTxns env rep).Pairwise fun a b => a.1 ≠ b.1 := by
      rw [← List.pairwise_map (R := (· ≠ ·))]
      have hperm : ((readTxns env rep).map Prod.fst).Perm
          ((rep.txns.entries.map fun e => ((env.int e.1).getD 0, e.2)).map Prod.fst) :=
        (List.perm_insertionSort _ _).map _
      refine hperm.nodup_iff.2 ?_
      rw [List.map_map]
      refine List.Nodup.map_on ?_ (List.Nodup.of_map _ rep.txns.nodup)
      intro x hx y hy hxy
      obtain ⟨n, -, -, hn⟩ := (h.keys x.1).1 (Dict.contains_iff.2 (List.mem_map_of_mem hx))
      obtain ⟨m, -, -, hm⟩ := (h.keys y.1).1 (Dict.contains_iff.2 (List.mem_map_of_mem hy))
      simp only [Function.comp_apply] at hxy
      rw [hn, hm, hint n, hint m, Option.getD_some, Option.getD_some] at hxy
      have hkey : x.1 = y.1 := by rw [hn, hm, hxy]
      exact List.inj_on_of_nodup_map rep.txns.nodup hx hy hkey
    exact (hsorted.and hdistinct).imp fun hab => lt_of_le_of_ne hab.1 hab.2
  · intro e he
    obtain ⟨n, hn, hx⟩ := (hread e).1 he
    obtain ⟨hfirst, -⟩ := (hmem e.1).1 ⟨e, he, rfl⟩
    have hpos := h.pos
    refine ⟨n - 1, by omega, h.txn (n - 1) e.2 ?_⟩
    have hnum : ((n - 1 : ℕ) : ℤ) + 1 = n := by omega
    rw [hnum]
    exact Dict.get?_eq_some.2 hx

theorem length_readTxns : (readTxns env rep).length = rep.txns.size := by
  unfold readTxns
  rw [List.length_insertionSort, List.length_map]
  rfl

/-- an honest reply is looked at unless the ledger has all of it -/
theorem Honest.exec_canProcess (h : Honest env lid target rep first last) (hint : IntOfStr env)
    {s : LedgerManager O τ} (hsyncing : (s.ledgerInfo lid).state = .syncing) :
    exec (canProcessCatchupReply env own rep) s =
      (.ok (if first ≤ last ∧ s.ledgerSize own lid < last then readTxns env rep else []), s) := by
  have hrange := h.rangeTxns hint
  have hmap : (rep.txns.entries.mapM fun e => (env.int e.1).map fun seqNo => (seqNo, e.2)) =
      some (rep.txns.entries.map fun e => ((env.int e.1).getD 0, e.2)) := by
    refine mapM_eq_map ?_
    intro e he
    obtain ⟨n, -, -, hn⟩ := (h.keys e.1).1 (Dict.contains_iff.2 (List.mem_map_of_mem he))
    rw [hn, hint n]
    rfl
  unfold canProcessCatchupReply
  rw [exec_bind, exec_get]
  dsimp only
  rw [h.ledgerId, if_neg (not_not.2 hsyncing), hmap]
  dsimp only
  have hread : (rep.txns.entries.map fun e => ((env.int e.1).getD 0, e.2)).insertionSort
      (fun a b => a.1 ≤ b.1) = readTxns env rep := rfl
  rw [hread]
  by_cases hne : first ≤ last
  · obtain ⟨a, b, ha, hb, hfirst, hlast⟩ := hrange.ends hne
    rw [ha, hb]
    dsimp only
    have hlen : ((readTxns env rep).length : ℤ) = b.1 - a.1 + 1 := by
      rw [length_readTxns, h.size_eq, hfirst, hlast]
      omega
    have hnew : ((readTxns env rep).any fun e => decide ((s.ledgerSize own lid : ℤ) < e.1)) = true ↔
        s.ledgerSize own lid < last := by
      rw [List.any_eq_true]
      constructor
      · rintro ⟨e, he, hlt⟩
        obtain ⟨-, hup⟩ := (hrange.mem e.1).1 ⟨e, he, rfl⟩
        have hlt' : (s.ledgerSize own lid : ℤ) < e.1 := of_decide_eq_true hlt
        omega
      · intro hlt
        obtain ⟨e, he, hnum⟩ := (hrange.mem last).2 ⟨by omega, le_rfl⟩
        refine ⟨e, he, decide_eq_true ?_⟩
        omega
    by_cases hlt : s.ledgerSize own lid < last
    · rw [if_pos ⟨hnew.2 hlt, hlen⟩, if_pos ⟨hne, hlt⟩]
      rfl
    · rw [if_neg fun hc => hlt (hnew.1 hc.1), if_neg fun hc => hlt hc.2]
      rfl
  · have hnil : readTxns env rep = [] := by
      rw [← List.length_eq_zero_iff, length_readTxns, h.size_eq]
      omega
    rw [hnil, if_neg fun hc => hne hc.1]
    rfl

/-! ## Collecting replies -/

/-- the blacklist of the owner, which the transactions appended to a ledger do not change; their callbacks return -/
structure Blacklist (own : LedgerOwner O τ) where
  nodes : O → List NodeName
  nodes_setLedgers : ∀ o l, nodes (own.setLedgers o l) = nodes o
  nodes_postTxn : ∀ lid txn o, nodes (exec (own.postTxnFromCatchupAddedToLedger lid txn) o).2 = nodes o
  postTxn_returns : ∀ lid txn o, (exec (own.postTxnFromCatchupAddedToLedger lid txn) o).1 = .ok ()

/-- a ledger on its way to the target, with the replies `got` and the transactions `waiting` to be appended -/
structure Collecting (env : LedgerEnv τ) (own : LedgerOwner O τ) (lid : LedgerId) (cp : ConsistencyProof)
    (target : List τ) (got : List (CatchupRep τ)) (waiting : List (CatchupTxn τ)) (s : LedgerManager O τ) : Prop where
  towards : Towards lid cp s
  isPrefix : (s.ledger own lid).txns <+: target
  sorted : SortedTxns waiting
  txn : ∀ e ∈ waiting, ∃ m : ℕ, e.1 = m + 1 ∧ target[m]? = some (env.transformTxnForLedger e.2)
  sender : ∀ e ∈ waiting, (s.ledgerSize own lid : ℤ) < e.1 → ∃ frm reps,
    (s.ledgerInfo lid).recvdCatchupRepliesFrm.get? frm = some reps ∧
      ∃ rep ∈ reps, rep.txns.contains (toString e.1) = true
  held : ∀ frm reps, (s.ledgerInfo lid).recvdCatchupRepliesFrm.get? frm = some reps → ∀ rep ∈ reps, ∀ n : ℤ,
    (s.ledgerSize own lid : ℤ) < n → rep.txns.contains (toString n) = true →
      (∃ first last, Honest env lid target rep first last) ∧ ∃ e ∈ waiting, e.1 = n
  got : ∀ rep ∈ got, ∀ n : ℤ, rep.txns.contains (toString n) = true →
    n ≤ s.ledgerSize own lid ∨ ∃ e ∈ waiting, e.1 = n

variable {got : List (CatchupRep τ)} {waiting : List (CatchupTxn τ)} {s : LedgerManager O τ}

/-- what the ledger has by now need not wait -/
theorem Collecting.filter (h : Collecting env own lid cp target got waiting s) :
    Collecting env own lid cp target got (waiting.filter fun e => (s.ledgerSize own lid : ℤ) < e.1) s := by
  have hmem : ∀ e, e ∈ waiting.filter (fun e => decide ((s.ledgerSize own lid : ℤ) < e.1)) ↔
      e ∈ waiting ∧ (s.ledgerSize own lid : ℤ) < e.1 := by
    intro e
    rw [List.mem_filter, decide_eq_true_eq]
  refine ⟨h.towards, h.isPrefix, ?_, ?_, ?_, ?_, ?_⟩
  · exact List.Pairwise.sublist List.filter_sublist h.sorted
  · exact fun e he => h.txn e ((hmem e).1 he).1
  · exact fun e he => h.sender e ((hmem e).1 he).1
  · intro frm reps hreps rep hrep n hn hcontains
    obtain ⟨hhonest, e, he, hnum⟩ := h.held frm reps hreps rep hrep n hn hcontains
    exact ⟨hhonest, e, (hmem e).2 ⟨he, hnum ▸ hn⟩, hnum⟩
  · intro rep hrep n hcontains
    by_cases hn : n ≤ s.ledgerSize own lid
    · exact Or.inl hn
    · rcases h.got rep hrep n hcontains with hle | ⟨e, he, hnum⟩
      · exact Or.inl hle
      · exact Or.inr ⟨e, (hmem e).2 ⟨he, by omega⟩, hnum⟩

/-- the reply that is looked up is the first of its sender that has the number -/
theorem find?_of_getCatchupReplyForSeqNo {info : LedgerInfo τ} {seqNo : ℤ} {nodeName : NodeName} {rep : CatchupRep τ}
    (h : getCatchupReplyForSeqNo info seqNo = some (nodeName, rep)) :
    ∃ reps, info.recvdCatchupRepliesFrm.get? nodeName = some reps ∧
      reps.find? (fun rep => rep.txns.contains (toString seqNo)) = some rep := by
  unfold getCatchupReplyForSeqNo at h
  rw [List.find?_flatMap] at h
  obtain ⟨⟨frm, reps⟩, hentry, hfind⟩ := List.exists_of_findSome?_eq_some h
  rw [List.find?_map, Option.map_eq_some_iff] at hfind
  obtain ⟨rep', hrep', heq⟩ := hfind
  cases heq
  exact ⟨reps, Dict.get?_eq_some.2 hentry, hrep'⟩

/-- a number that waits is found with some reply -/
theorem exists_getCatchupReplyForSeqNo {info : LedgerInfo τ} {seqNo : ℤ} {frm : NodeName} {reps : List (CatchupRep τ)}
    (hreps : info.recvdCatchupRepliesFrm.get? frm = some reps) (hrep : rep ∈ reps)
    (hcontains : rep.txns.contains (toString seqNo) = true) : ∃ x, getCatchupReplyForSeqNo info seqNo = some x := by
  unfold getCatchupReplyForSeqNo
  rw [← Option.isSome_iff_exists, List.find?_isSome]
  refine ⟨(frm, rep), List.mem_flatMap.2 ⟨(frm, reps), Dict.get?_eq_some.1 hreps, ?_⟩, hcontains⟩
  exact List.mem_map_of_mem hrep

/-- removing an element that is not looked for -/
theorem find?_eraseIdx {α : Type} {p : α → Bool} {l : List α} {i : ℕ} (h : ∀ a, l[i]? = some a → p a = false) :
    (l.eraseIdx i).find? p = l.find? p := by
  induction l generalizing i with
  | nil => rfl
  | cons a l ih =>
    cases i with
    | zero =>
      rw [List.eraseIdx_cons_zero, List.find?_cons_of_neg (by simpa using h a rfl)]
    | succ i =>
      rw [List.eraseIdx_cons_succ, List.find?_cons, List.find?_cons, ih fun b hb => h b hb]

/-- the replies of a node without the first one that has the number -/
def withoutReply (info : LedgerInfo τ) (nodeName : NodeName) (reps : List (CatchupRep τ)) (seqNo : ℤ) : LedgerInfo τ :=
  { info with
    recvdCatchupRepliesFrm := info.recvdCatchupRepliesFrm.set nodeName
      (reps.eraseIdx (reps.findIdx fun rep => rep.txns.contains (toString seqNo))) }

/-- the reply removed is looked up for none of the numbers that it does not have -/
theorem getCatchupReplyForSeqNo_withoutReply {info : LedgerInfo τ} {nodeName : NodeName} {seqNo n : ℤ}
    {reps : List (CatchupRep τ)} (hreps : info.recvdCatchupRepliesFrm.get? nodeName = some reps)
    (hfind : reps.find? (fun rep => rep.txns.contains (toString seqNo)) = some rep)
    (hne : rep.txns.contains (toString n) = false) :
    getCatchupReplyForSeqNo (withoutReply info nodeName reps seqNo) n = getCatchupReplyForSeqNo info n := by
  have hentries : (withoutReply info nodeName reps seqNo).recvdCatchupRepliesFrm.entries =
      Dict.replaceEntry info.recvdCatchupRepliesFrm.entries nodeName
        (reps.eraseIdx (reps.findIdx fun rep => rep.txns.contains (toString seqNo))) := by
    unfold withoutReply Dict.set
    rw [dif_pos (List.mem_map_of_mem (Dict.get?_eq_some.1 hreps))]
  have herase : (reps.eraseIdx (reps.findIdx fun rep => rep.txns.contains (toString seqNo))).find?
      (fun rep => rep.txns.contains (toString n)) = reps.find? fun rep => rep.txns.contains (toString n) := by
    refine find?_eraseIdx ?_
    intro rep' hrep'
    rw [List.find?_eq_getElem?_findIdx, hrep'] at hfind
    rw [Option.some.inj hfind, hne]
  unfold getCatchupReplyForSeqNo
  rw [hentries, Dict.replaceEntry, List.flatMap_map, List.find?_flatMap, List.find?_flatMap, ← List.head?_filterMap,
    ← List.head?_filterMap]
  congr 1
  refine List.filterMap_congr ?_
  rintro ⟨frm, reps'⟩ hmem
  by_cases hfrm : frm = nodeName
  · subst hfrm
    have hsame : reps' = reps := by
      rw [Dict.get?_eq_some.2 hmem] at hreps
      exact Option.some.inj hreps
    subst hsame
    rw [if_pos rfl, List.find?_map, List.find?_map]
    exact congrArg (Option.map _) herase
  · rw [if_neg hfrm]

/-- the range of the reply that is looked up starts in the ledger or right behind it -/
theorem Honest.range_found {nodeName : NodeName} (hrep : Honest env lid target rep first last)
    (hfound : getCatchupReplyForSeqNo (s.ledgerInfo lid) ((s.ledgerSize own lid : ℤ) + 1) = some (nodeName, rep)) :
    first ≤ s.ledgerSize own lid + 1 ∧ s.ledgerSize own lid + 1 ≤ last := by
  obtain ⟨hcontains, -⟩ := getCatchupReplyForSeqNo_spec hfound
  obtain ⟨hfirst, hlast⟩ := (hrep.contains_iff _).1 hcontains
  omega

/-! ## Overlaps that do no harm -/

/-- the sizes that the ledger grows to, one reply after the other: the next one is the last number of the reply that is
looked up for the transaction behind the ledger -/
inductive GrowsTo (info : LedgerInfo τ) (size : ℕ) : ℕ → Prop
  | start : GrowsTo info size size
  | next {k n : ℕ} {nodeName : NodeName} {rep : CatchupRep τ} (h : GrowsTo info size k)
      (hfound : getCatchupReplyForSeqNo info ((k : ℤ) + 1) = some (nodeName, rep))
      (hn : rep.txns.contains (toString (n : ℤ)) = true)
      (hlast : ∀ m : ℤ, rep.txns.contains (toString m) = true → m ≤ n) : GrowsTo info size n

/-- no number of the reply beyond `size` waits twice; only its last one may, if all of the reply is beyond `size` -/
def NoneTwice (times : ℤ → ℕ) (rep : CatchupRep τ) (size : ℕ) : Prop :=
  ∀ n : ℤ, (size : ℤ) < n → rep.txns.contains (toString n) = true → 1 < times n →
    ∀ m : ℤ, rep.txns.contains (toString m) = true → (size : ℤ) < m ∧ m ≤ n

/-- whenever a reply is looked up, no number of it waits twice that would be verified with it twice -/
def Harmless (info : LedgerInfo τ) (times : ℤ → ℕ) (size : ℕ) : Prop :=
  ∀ k, GrowsTo info size k → ∀ nodeName rep, getCatchupReplyForSeqNo info ((k : ℤ) + 1) = some (nodeName, rep) →
    NoneTwice times rep k

theorem Harmless.mono {info : LedgerInfo τ} {times times' : ℤ → ℕ} {size : ℕ} (h : Harmless info times size)
    (hle : ∀ n, times' n ≤ times n) : Harmless info times' size := by
  intro k hk nodeName rep hfound n hn hcontains htwice
  exact h k hk nodeName rep hfound n hn hcontains (htwice.trans_le (hle n))

theorem harmless_of_le_one (info : LedgerInfo τ) {times : ℤ → ℕ} (size : ℕ) (h : ∀ n, times n ≤ 1) :
    Harmless info times size := by
  intro k _ nodeName rep _ n _ _ htwice
  exact absurd htwice (not_lt.2 (h n))

/-- where no reply is found for the next transaction, the ledger does not grow -/
theorem harmless_of_not_found {info : LedgerInfo τ} (times : ℤ → ℕ) {size : ℕ}
    (hnone : getCatchupReplyForSeqNo info ((size : ℤ) + 1) = none) : Harmless info times size := by
  have hsize : ∀ k, GrowsTo info size k → k = size := by
    intro k hk
    induction hk with
    | start => rfl
    | next _ hfound _ _ ih =>
      rw [ih, hnone] at hfound
      cases hfound
  intro k hk nodeName rep hfound
  rw [hsize k hk, hnone] at hfound
  cases hfound

/-- the replies can be looked at one after the other -/
theorem harmless_of_found {info : LedgerInfo τ} {times : ℤ → ℕ} {size : ℕ} {nodeName : NodeName}
    (hfound : getCatchupReplyForSeqNo info ((size : ℤ) + 1) = some (nodeName, rep))
    (hrep : Honest env lid target rep first last) (honce : NoneTwice times rep size)
    (hrest : Harmless info times last) : Harmless info times size := by
  have hgrows : ∀ k, GrowsTo info size k → k = size ∨ GrowsTo info last k := by
    intro k hk
    induction hk with
    | start => exact Or.inl rfl
    | @next k n _ _ _ hfound' hn hmax ih =>
      right
      rcases ih with rfl | hk
      · rw [hfound] at hfound'
        cases hfound'
        obtain ⟨hlow, hup⟩ := (hrep.contains_iff _).1 hn
        have hlast := hmax last ((hrep.contains_iff _).2 (by omega))
        have hn : n = last := by omega
        rw [hn]
        exact GrowsTo.start
      · exact hk.next hfound' hn hmax
  intro k hk nodeName' rep' hfound'
  rcases hgrows k hk with rfl | hk
  · rw [hfound] at hfound'
    cases hfound'
    exact honce
  · exact hrest k hk nodeName' rep' hfound'

/-- the reply that is looked up is taken in, and the ledger has grown to its last number -/
theorem Harmless.next {info : LedgerInfo τ} {times : ℤ → ℕ} {size : ℕ} (h : Harmless info times size)
    {nodeName : NodeName} (hrep : Honest env lid target rep first last)
    (hfound : getCatchupReplyForSeqNo info ((size : ℤ) + 1) = some (nodeName, rep)) {reps : List (CatchupRep τ)}
    (hreps : info.recvdCatchupRepliesFrm.get? nodeName = some reps)
    (hfind : reps.find? (fun rep => rep.txns.contains (toString ((size : ℤ) + 1))) = some rep) :
    Harmless (withoutReply info nodeName reps ((size : ℤ) + 1)) times last := by
  obtain ⟨hlow, hup⟩ := (hrep.contains_iff _).1 (getCatchupReplyForSeqNo_spec hfound).1
  have hlast : GrowsTo info size last := by
    refine GrowsTo.start.next hfound ((hrep.contains_iff _).2 (by omega)) ?_
    intro m hm
    exact ((hrep.contains_iff m).1 hm).2
  -- what is looked up behind the reply is looked up as before
  have hsame : ∀ n : ℤ, (last : ℤ) < n →
      getCatchupReplyForSeqNo (withoutReply info nodeName reps ((size : ℤ) + 1)) n =
        getCatchupReplyForSeqNo info n := by
    intro n hn
    refine getCatchupReplyForSeqNo_withoutReply hreps hfind ?_
    rw [← Bool.not_eq_true, hrep.contains_iff]
    omega
  have hgrows : ∀ k, GrowsTo (withoutReply info nodeName reps ((size : ℤ) + 1)) last k →
      last ≤ k ∧ GrowsTo info size k := by
    intro k hk
    induction hk with
    | start => exact ⟨le_rfl, hlast⟩
    | next _ hfound' hn hmax ih =>
      obtain ⟨hle, hk⟩ := ih
      have hnext := hmax _ (getCatchupReplyForSeqNo_spec hfound').1
      rw [hsame _ (by omega)] at hfound'
      exact ⟨by omega, hk.next hfound' hn hmax⟩
  intro k hk nodeName' rep' hfound'
  obtain ⟨hle, hk'⟩ := hgrows k hk
  rw [hsame _ (by omega)] at hfound'
  exact h k hk' nodeName' rep' hfound'

section Round

variable {nodeName : NodeName} (h : Collecting env own lid cp target got waiting s)
  (hnew : ∀ e ∈ waiting, (s.ledgerSize own lid : ℤ) < e.1)
  (hfound : getCatchupReplyForSeqNo (s.ledgerInfo lid) ((s.ledgerSize own lid : ℤ) + 1) = some (nodeName, rep))
  (hrep : Honest env lid target rep first last)
  (honce : NoneTwice (fun n => waiting.countP fun e => e.1 = n) rep (s.ledgerSize own lid))

include h hnew hfound hrep honce

/-- the rest of the range waits, and nothing else before it; a part of the range does not leave its last number over -/
theorem Collecting.next_waiting :
    ((waiting.take (last - s.ledgerSize own lid)).map fun e => env.transformTxnForLedger e.2) =
        (target.drop (s.ledgerSize own lid)).take (last - s.ledgerSize own lid) ∧
      (waiting.take (last - s.ledgerSize own lid)).length = last - s.ledgerSize own lid ∧
      (∀ e ∈ waiting.take (last - s.ledgerSize own lid), e.1 ≤ last) ∧
      ∀ e ∈ waiting.drop (last - s.ledgerSize own lid), first ≤ s.ledgerSize own lid → (last : ℤ) < e.1 := by
  obtain ⟨hfirst, hlast⟩ := hrep.range_found hfound
  obtain ⟨-, reps, hreps, hmem⟩ := getCatchupReplyForSeqNo_spec hfound
  have hlow : rep.txns.contains (toString (first : ℤ)) = true := (hrep.contains_iff first).2 (by omega)
  have hup : rep.txns.contains (toString (last : ℤ)) = true := (hrep.contains_iff last).2 (by omega)
  have hall : ∀ j : ℕ, s.ledgerSize own lid < j → j ≤ s.ledgerSize own lid + (last - s.ledgerSize own lid) →
      ∃ e ∈ waiting, e.1 = j := by
    intro j hj hjk
    have hcontains : rep.txns.contains (toString (j : ℤ)) = true := (hrep.contains_iff j).2 (by omega)
    exact (h.held nodeName reps hreps rep hmem j (by omega) hcontains).2
  have hone : ∀ j : ℕ, s.ledgerSize own lid < j → j < s.ledgerSize own lid + (last - s.ledgerSize own lid) →
      (waiting.countP fun e => e.1 = (j : ℤ)) ≤ 1 := by
    intro j hj hjk
    by_contra htwice
    have hend := (honce j (by omega) ((hrep.contains_iff j).2 (by omega)) (not_le.1 htwice) last hup).2
    omega
  obtain ⟨hmap, hlen, hle, hex, hgt⟩ := h.sorted.take_next (fun e he => (hnew e he).le) (fun _ => hnew) hall hone h.txn
  refine ⟨hmap, hlen, ?_, ?_⟩
  · intro e he
    have hbelow := hle e he
    omega
  · intro e he hbefore
    have hbeyond := hgt e he
    by_contra hnot
    -- the last number would be on both sides
    obtain ⟨e', he', hnum'⟩ := hex last (by omega) (by omega)
    have htwice := one_lt_countP_of_mem he' he hnum' (show e.1 = last by omega)
    rw [List.take_append_drop] at htwice
    have hbehind := (honce last (by omega) hup htwice first hlow).1
    omega

/-- **What is verified is the rest of the range.** -/
theorem Collecting.slice :
    txnsOfReply env rep waiting = (target.drop (s.ledgerSize own lid)).take (last - s.ledgerSize own lid) := by
  obtain ⟨hfirst, hlast⟩ := hrep.range_found hfound
  obtain ⟨hmap, hlen, hle, hgt⟩ := h.next_waiting hnew hfound hrep honce
  rw [← hmap]
  unfold txnsOfReply
  congr 1
  have hsplit : waiting.take rep.txns.size = waiting.take (last - s.ledgerSize own lid) ++
      (waiting.drop (last - s.ledgerSize own lid)).take (rep.txns.size - (last - s.ledgerSize own lid)) := by
    have hsize : rep.txns.size = (last - s.ledgerSize own lid) + (rep.txns.size - (last - s.ledgerSize own lid)) := by
      rw [hrep.size_eq]
      omega
    rw [hsize, List.take_add]
    congr 2
    omega
  have htaken : (waiting.take (last - s.ledgerSize own lid)).filter
      (fun e => rep.txns.contains (toString e.1)) = waiting.take (last - s.ledgerSize own lid) := by
    rw [List.filter_eq_self]
    intro e he
    have hlow := hnew e (List.mem_of_mem_take he)
    have hup := hle e he
    exact (hrep.contains_iff e.1).2 (by omega)
  have hrest : ((waiting.drop (last - s.ledgerSize own lid)).take (rep.txns.size - (last - s.ledgerSize own lid))).filter
      (fun e => rep.txns.contains (toString e.1)) = [] := by
    rcases Nat.lt_or_ge (s.ledgerSize own lid) first with hbehind | hbefore
    · -- the whole of the reply is in the first part
      have hnone : rep.txns.size - (last - s.ledgerSize own lid) = 0 := by
        rw [hrep.size_eq]
        omega
      rw [hnone]
      rfl
    · rw [List.filter_eq_nil_iff]
      intro e he hcontains
      have hlow := hgt e (List.mem_of_mem_take he) hbefore
      have hup := ((hrep.contains_iff e.1).1 hcontains).2
      omega
  rw [hsplit, List.filter_append, htaken, hrest, List.append_nil]

omit hnew honce in
/-- the ledger with the rest of the range -/
theorem Collecting.append_slice :
    (s.ledger own lid).txns ++ (target.drop (s.ledgerSize own lid)).take (last - s.ledgerSize own lid) =
      target.take last := by
  obtain ⟨hfirst, hlast⟩ := hrep.range_found hfound
  have hledger : (s.ledger own lid).txns = target.take (s.ledgerSize own lid) := List.prefix_iff_eq_take.1 h.isPrefix
  have hsize : s.ledgerSize own lid + (last - s.ledgerSize own lid) = last := by omega
  calc (s.ledger own lid).txns ++ (target.drop (s.ledgerSize own lid)).take (last - s.ledgerSize own lid)
      = target.take (s.ledgerSize own lid) ++
          (target.drop (s.ledgerSize own lid)).take (last - s.ledgerSize own lid) := by rw [← hledger]
    _ = target.take (s.ledgerSize own lid + (last - s.ledgerSize own lid)) := List.take_add.symm
    _ = target.take last := by rw [hsize]

/-- **The proof of an honest reply is accepted.** -/
theorem Collecting.verified (hverify : VerifyExact env) (hsize : target.length = cp.seqNoEnd)
    (hroot : env.merkleRoot target = cp.newMerkleRoot) :
    verifyReply env own s lid rep (txnsOfReply env rep waiting) = true := by
  have htree : (s.ledger own lid).treeWithAppliedTxns (txnsOfReply env rep waiting) none = target.take last := by
    rw [h.slice hnew hfound hrep honce, ← h.append_slice hfound hrep]
    rfl
  have hlen : (target.take last).length = last := by
    rw [List.length_take, Nat.min_eq_left hrep.last_le]
  have haccepted := (hverify (target.take last) target rep.consProof).2 ⟨List.take_prefix _ _, by rw [hrep.proof, hlen]⟩
  unfold verifyReply
  rw [h.towards.2]
  dsimp only
  rw [htree, ← hsize, ← hroot]
  exact haccepted

end Round

/-- the ledger only grows, and nobody is blacklisted -/
structure Progress (own : LedgerOwner O τ) (b : Blacklist own) (lid : LedgerId) (s s' : LedgerManager O τ) : Prop where
  nodes : b.nodes s'.owner = b.nodes s.owner
  size : s.ledgerSize own lid ≤ s'.ledgerSize own lid

theorem Progress.refl (b : Blacklist own) (lid : LedgerId) (s : LedgerManager O τ) : Progress own b lid s s :=
  ⟨rfl, le_rfl⟩

theorem Progress.trans {b : Blacklist own} {s s1 s2 : LedgerManager O τ} (h : Progress own b lid s s1)
    (h' : Progress own b lid s1 s2) : Progress own b lid s s2 :=
  ⟨h'.nodes.trans h.nodes, h.size.trans h'.size⟩

/-- appending transactions, each with a callback that returns -/
theorem ends_addCatchupTxns (b : Blacklist own) (lid : LedgerId) (replies : List (CatchupTxn τ))
    (s : LedgerManager O τ) :
    Ends (addCatchupTxns env own lid replies) s
      (fun _ s' => (s'.ledger own lid).txns = (s.ledger own lid).txns ++ replies.map (fun e => env.transformTxnForLedger e.2) ∧
        s'.ledgerRegistry = s.ledgerRegistry ∧ b.nodes s'.owner = b.nodes s.owner) fun _ _ => False := by
  induction replies generalizing s with
  | nil =>
    refine Ends.ret ⟨?_, rfl, rfl⟩
    rw [List.map_nil, List.append_nil]
  | cons e replies ih =>
    obtain ⟨seqNo, txn⟩ := e
    let s1 := (exec (addToLedger env own lid txn) s).2
    let clbk := own.postTxnFromCatchupAddedToLedger lid (env.withSeqNo txn (s1.ledgerSize own lid))
    let s2 := s1.setOwner (exec clbk s1.owner).2
    have hadd : exec (addToLedger env own lid txn) s = (.ok (), s1) := rfl
    have hcall : exec (callOwner clbk : LedgerManagerM O τ Unit) s1 = (.ok (), s2) := by
      rw [exec_callOwner, b.postTxn_returns]
    have hledger : (s2.ledger own lid).txns = (s.ledger own lid).txns ++ [env.transformTxnForLedger txn] := by
      have hpost : s2.ledger own lid = s1.ledger own lid := by
        unfold ledger
        rw [← own.ledgers_postTxn lid (env.withSeqNo txn (s1.ledgerSize own lid)) s1.owner]
        rfl
      rw [hpost, ledger_addToLedger, extraFor, if_pos rfl]
      rfl
    have hblack : b.nodes s2.owner = b.nodes s.owner := by
      have hpost : b.nodes s2.owner = b.nodes s1.owner := b.nodes_postTxn _ _ _
      rw [hpost]
      exact b.nodes_setLedgers _ _
    unfold addCatchupTxns
    refine Ends.seq (Ends.of_exec (Q := fun _ s' => s' = s1) hadd rfl) ?_
    rintro _ _ rfl
    refine Ends.get_seq (Ends.seq (Ends.of_exec (Q := fun _ s' => s' = s2) hcall rfl) ?_)
    rintro _ _ rfl
    refine (ih s2).mono ?_ fun _ _ he => he
    rintro _ s3 ⟨h1, h2, h3⟩
    refine ⟨?_, h2, h3.trans hblack⟩
    rw [h1, hledger, List.append_assoc]
    rfl

theorem exec_removePrcdCatchupReply {nodeName : NodeName} {seqNo : ℤ} {reps : List (CatchupRep τ)}
    (hreps : (s.ledgerInfo lid).recvdCatchupRepliesFrm.get? nodeName = some reps)
    (hfind : reps.find? (fun rep => rep.txns.contains (toString seqNo)) = some rep) :
    exec (removePrcdCatchupReply lid nodeName seqNo : LedgerManagerM O τ Unit) s =
      (.ok (), s.setLedgerInfo lid (withoutReply (s.ledgerInfo lid) nodeName reps seqNo)) := by
  have hlt : (reps.findIdx fun rep => rep.txns.contains (toString seqNo)) < reps.length :=
    List.findIdx_lt_length_of_exists ⟨rep, List.mem_of_find?_eq_some hfind, by simpa using List.find?_some hfind⟩
  have hmin : min (reps.findIdx fun rep => rep.txns.contains (toString seqNo)) (reps.length - 1) =
      reps.findIdx fun rep => rep.txns.contains (toString seqNo) := by omega
  unfold removePrcdCatchupReply
  rw [exec_bind, exec_get]
  dsimp only
  rw [hreps]
  cases reps with
  | nil => cases hfind
  | cons r reps =>
    dsimp only
    rw [hmin]
    rfl

/-- the reply removed is the one that was looked up, so the others stay -/
theorem mem_withoutReply {info : LedgerInfo τ} {nodeName frm : NodeName} {seqNo n : ℤ} {reps reps' : List (CatchupRep τ)}
    {rep' : CatchupRep τ} (hreps : info.recvdCatchupRepliesFrm.get? nodeName = some reps)
    (hfind : reps.find? (fun rep => rep.txns.contains (toString seqNo)) = some rep)
    (hreps' : info.recvdCatchupRepliesFrm.get? frm = some reps') (hrep' : rep' ∈ reps')
    (hn : rep'.txns.contains (toString n) = true) (hne : rep.txns.contains (toString n) = false) :
    ∃ reps', (withoutReply info nodeName reps seqNo).recvdCatchupRepliesFrm.get? frm = some reps' ∧ rep' ∈ reps' := by
  unfold withoutReply
  rw [Dict.get?_set]
  by_cases hfrm : frm = nodeName
  · subst hfrm
    rw [hreps] at hreps'
    cases hreps'
    rw [if_pos rfl]
    refine ⟨_, rfl, ?_⟩
    obtain ⟨i, hi, hget⟩ := List.mem_iff_getElem.1 hrep'
    refine List.mem_eraseIdx_iff_getElem.2 ⟨i, hi, ?_, hget⟩
    rintro rfl
    -- the reply at that place is the one looked up
    have hsame : rep' = rep := by
      rw [List.find?_eq_getElem?_findIdx, List.getElem?_eq_getElem hi, hget] at hfind
      exact Option.some.inj hfind
    rw [hsame, hne] at hn
    cases hn
  · rw [if_neg hfrm]
    exact ⟨reps', hreps', hrep'⟩

/-- nothing else is added -/
theorem of_mem_withoutReply {info : LedgerInfo τ} {nodeName frm : NodeName} {seqNo : ℤ} {reps reps' : List (CatchupRep τ)}
    {rep' : CatchupRep τ} (hreps : info.recvdCatchupRepliesFrm.get? nodeName = some reps)
    (hreps' : (withoutReply info nodeName reps seqNo).recvdCatchupRepliesFrm.get? frm = some reps') (hrep' : rep' ∈ reps') :
    ∃ reps', info.recvdCatchupRepliesFrm.get? frm = some reps' ∧ rep' ∈ reps' := by
  unfold withoutReply at hreps'
  rw [Dict.get?_set] at hreps'
  split_ifs at hreps' with hfrm
  · cases hreps'
    exact ⟨reps, hfrm ▸ hreps, List.mem_of_mem_eraseIdx hrep'⟩
  · exact ⟨reps', hreps', hrep'⟩

/-! ## One round, and all of them -/

/-- **The rest of a range is appended.** -/
theorem Collecting.round {nodeName : NodeName} (h : Collecting env own lid cp target got waiting s)
    (hnew : ∀ e ∈ waiting, (s.ledgerSize own lid : ℤ) < e.1)
    (hfound : getCatchupReplyForSeqNo (s.ledgerInfo lid) ((s.ledgerSize own lid : ℤ) + 1) = some (nodeName, rep))
    (hrep : Honest env lid target rep first last)
    (honce : NoneTwice (fun n => waiting.countP fun e => e.1 = n) rep (s.ledgerSize own lid))
    {reps : List (CatchupRep τ)} (hreps : (s.ledgerInfo lid).recvdCatchupRepliesFrm.get? nodeName = some reps)
    (hfind : reps.find? (fun rep => rep.txns.contains (toString ((s.ledgerSize own lid : ℤ) + 1))) = some rep)
    {s' : LedgerManager O τ} (hledger : (s'.ledger own lid).txns = target.take last)
    (hinfo : s'.ledgerInfo lid = withoutReply (s.ledgerInfo lid) nodeName reps ((s.ledgerSize own lid : ℤ) + 1)) :
    Collecting env own lid cp target got (waiting.drop (last - s.ledgerSize own lid)) s' := by
  obtain ⟨hfirst, hlast⟩ := hrep.range_found hfound
  obtain ⟨-, -, hle, -⟩ := h.next_waiting hnew hfound hrep honce
  have hsize : s'.ledgerSize own lid = last := by
    unfold ledgerSize
    rw [hledger, List.length_take, Nat.min_eq_left hrep.last_le]
  -- what waits beyond the range still waits
  have hdrop : ∀ e ∈ waiting, (last : ℤ) < e.1 → e ∈ waiting.drop (last - s.ledgerSize own lid) := by
    intro e he hlt
    rw [← List.take_append_drop (last - s.ledgerSize own lid) waiting] at he
    rcases List.mem_append.1 he with he | he
    · have hup := hle e he
      omega
    · exact he
  refine ⟨?_, ?_, ?_, ?_, ?_, ?_, ?_⟩
  · have htowards := h.towards
    unfold Towards at htowards ⊢
    rw [hinfo]
    exact htowards
  · rw [hledger]
    exact List.take_prefix _ _
  · exact List.Pairwise.sublist (List.drop_sublist _ _) h.sorted
  · exact fun e he => h.txn e (List.mem_of_mem_drop he)
  · intro e he hlow
    rw [hsize] at hlow
    obtain ⟨frm, reps', hreps', rep', hrep', hcontains⟩ := h.sender e (List.mem_of_mem_drop he) (by omega)
    have hbeyond : rep.txns.contains (toString e.1) = false := by
      rw [← Bool.not_eq_true, hrep.contains_iff]
      omega
    obtain ⟨reps2, hreps2, hmem⟩ := mem_withoutReply hreps hfind hreps' hrep' hcontains hbeyond
    rw [hinfo]
    exact ⟨frm, reps2, hreps2, rep', hmem, hcontains⟩
  · intro frm reps' hreps' rep' hrep' n hn hcontains
    rw [hinfo] at hreps'
    rw [hsize] at hn
    obtain ⟨reps2, hreps2, hmem⟩ := of_mem_withoutReply hreps hreps' hrep'
    obtain ⟨hhonest, e, he, hnum⟩ := h.held frm reps2 hreps2 rep' hmem n (by omega) hcontains
    exact ⟨hhonest, e, hdrop e he (by omega), hnum⟩
  · intro rep' hrep' n hcontains
    rw [hsize]
    by_cases hn : n ≤ last
    · exact Or.inl hn
    · rcases h.got rep' hrep' n hcontains with hle' | ⟨e, he, hnum⟩
      · exact Or.inl (by omega)
      · exact Or.inr ⟨e, hdrop e he (by omega), hnum⟩

/-- what is left waits behind a gap -/
def BehindGap (own : LedgerOwner O τ) (lid : LedgerId) (waiting : List (CatchupTxn τ)) (s : LedgerManager O τ) : Prop :=
  ∀ e ∈ waiting, (s.ledgerSize own lid : ℤ) + 1 < e.1

theorem exec_hasValidCatchupReplies {nodeName : NodeName} {seqNo : ℤ} {replies : List (CatchupTxn τ)}
    (hfound : getCatchupReplyForSeqNo (s.ledgerInfo lid) seqNo = some (nodeName, rep)) (ht : Towards lid cp s) :
    exec (hasValidCatchupReplies env own lid seqNo replies) s =
      (.ok (verifyReply env own s lid rep (txnsOfReply env rep replies), nodeName, (txnsOfReply env rep replies).length),
        s) := by
  unfold hasValidCatchupReplies
  rw [exec_bind, exec_get]
  dsimp only
  rw [hfound]
  dsimp only
  rw [ht.2]
  rfl

/-- the next transaction waits, so some reply has it; its proof is accepted, and then it is not held any more -/
theorem Collecting.next (h : Collecting env own lid cp target got waiting s)
    (hnew : ∀ e ∈ waiting, (s.ledgerSize own lid : ℤ) < e.1)
    (hnext : ∃ e ∈ waiting, e.1 = (s.ledgerSize own lid : ℤ) + 1) {times : ℤ → ℕ}
    (htimes : ∀ n, (waiting.countP fun e => e.1 = n) ≤ times n)
    (hharmless : Harmless (s.ledgerInfo lid) times (s.ledgerSize own lid)) (hverify : VerifyExact env)
    (b : Blacklist own) (hsize : target.length = cp.seqNoEnd) (hroot : env.merkleRoot target = cp.newMerkleRoot) :
    ∃ nodeName k, 0 < k ∧
      exec (hasValidCatchupReplies env own lid ((s.ledgerSize own lid : ℤ) + 1) waiting) s =
        (.ok (true, nodeName, k), s) ∧
      Ends (addCatchupTxns env own lid (waiting.take k)) s
        (fun _ s1 => Ends (removePrcdCatchupReply lid nodeName ((s.ledgerSize own lid : ℤ) + 1)) s1
          (fun _ s2 => Collecting env own lid cp target got (waiting.drop k) s2 ∧
            Harmless (s2.ledgerInfo lid) times (s2.ledgerSize own lid) ∧ Progress own b lid s s2)
          fun _ _ => False) fun _ _ => False := by
  obtain ⟨e, he, hnum⟩ := hnext
  obtain ⟨frm, reps', hreps', rep', hrep', hcontains⟩ := h.sender e he (by omega)
  rw [hnum] at hcontains
  obtain ⟨⟨nodeName, rep⟩, hfound⟩ := exists_getCatchupReplyForSeqNo hreps' hrep' hcontains
  obtain ⟨reps, hreps, hfind⟩ := find?_of_getCatchupReplyForSeqNo hfound
  have hcontains' : rep.txns.contains (toString ((s.ledgerSize own lid : ℤ) + 1)) = true :=
    (getCatchupReplyForSeqNo_spec hfound).1
  obtain ⟨⟨first, last, hrep⟩, -⟩ :=
    h.held nodeName reps hreps rep (List.mem_of_find?_eq_some hfind) _ (by omega) hcontains'
  obtain ⟨hfirst, hlast⟩ := hrep.range_found hfound
  have honce : NoneTwice (fun n => waiting.countP fun e => e.1 = n) rep (s.ledgerSize own lid) :=
    hharmless.mono htimes _ GrowsTo.start nodeName rep hfound
  obtain ⟨hmap, hlen, -, -⟩ := h.next_waiting hnew hfound hrep honce
  have hslice := h.slice hnew hfound hrep honce
  have hverified := h.verified hnew hfound hrep honce hverify hsize hroot
  have htake : (txnsOfReply env rep waiting).length = last - s.ledgerSize own lid := by
    rw [hslice, ← hmap, List.length_map, hlen]
  refine ⟨nodeName, last - s.ledgerSize own lid, by omega, ?_, ?_⟩
  · rw [exec_hasValidCatchupReplies hfound h.towards, hverified, htake]
  · refine (ends_addCatchupTxns b lid _ s).mono ?_ fun _ _ he => he
    rintro _ s1 ⟨hledger, hreg, hblack⟩
    have hinfo : s1.ledgerInfo lid = s.ledgerInfo lid := by
      unfold ledgerInfo
      rw [hreg]
    have hreps1 : (s1.ledgerInfo lid).recvdCatchupRepliesFrm.get? nodeName = some reps := by
      rw [hinfo]
      exact hreps
    rw [hmap, h.append_slice hfound hrep] at hledger
    have hsize1 : s1.ledgerSize own lid = last := by
      unfold ledgerSize
      rw [hledger, List.length_take, Nat.min_eq_left hrep.last_le]
    refine Ends.of_exec (exec_removePrcdCatchupReply hreps1 hfind) ⟨?_, ?_, hblack, ?_⟩
    · refine h.round hnew hfound hrep honce hreps hfind hledger ?_
      rw [ledgerInfo_setLedgerInfo, if_pos rfl, hinfo]
    · rw [ledgerInfo_setLedgerInfo, if_pos rfl, hinfo]
      change Harmless _ times (s1.ledgerSize own lid)
      rw [hsize1]
      exact hharmless.next hrep hfound hreps hfind
    · change s.ledgerSize own lid ≤ s1.ledgerSize own lid
      omega

/-- **Nobody is blacklisted, and what is left waits behind a gap.** -/
theorem Collecting.processCatchupReplies (hverify : VerifyExact env) (b : Blacklist own)
    (hsize : target.length = cp.seqNoEnd) (hroot : env.merkleRoot target = cp.newMerkleRoot) (n : ℕ)
    (h : Collecting env own lid cp target got waiting s) {times : ℤ → ℕ}
    (htimes : ∀ n, (waiting.countP fun e => e.1 = n) ≤ times n)
    (hharmless : Harmless (s.ledgerInfo lid) times (s.ledgerSize own lid)) (hn : waiting.length < n) :
    Ends (processCatchupReplies env own lid n waiting) s
      (fun m s' => Collecting env own lid cp target got (waiting.drop m) s' ∧ BehindGap own lid (waiting.drop m) s' ∧
        Progress own b lid s s') fun _ _ => False := by
  induction n generalizing s waiting with
  | zero => omega
  | succ n ih =>
    apply Ends.get_seq
    dsimp only
    have hdropped : waiting.drop (waiting.countP fun e => decide (e.1 ≤ (s.ledgerSize own lid : ℤ))) =
        waiting.filter fun e => decide ((s.ledgerSize own lid : ℤ) < e.1) := h.sorted.drop_countP _
    have hcollect := h.filter
    rw [← hdropped] at hcollect
    have hnew : ∀ e ∈ waiting.drop (waiting.countP fun e => decide (e.1 ≤ (s.ledgerSize own lid : ℤ))),
        (s.ledgerSize own lid : ℤ) < e.1 := fun e he => h.sorted.lt_of_mem_drop he
    have htimes' : ∀ m n, ((waiting.drop m).countP fun e => e.1 = n) ≤ times n := fun m n =>
      (List.drop_sublist m waiting).countP_le.trans (htimes n)
    generalize hnum : (waiting.countP fun e => decide (e.1 ≤ (s.ledgerSize own lid : ℤ))) = numProcessed at *
    split
    · rename_i hnil
      refine Ends.ret ⟨hcollect, ?_, Progress.refl b lid s⟩
      rw [hnil]
      intro e he
      cases he
    · rename_i reply rest hcons
      have hlow := hnew reply (by rw [hcons]; exact List.mem_cons_self)
      refine Ends.cond (fun hnext => ?_) (fun hgap => ?_)
      · have hseqNo : reply.1 = (s.ledgerSize own lid : ℤ) + 1 := by omega
        rw [← hcons, hseqNo]
        generalize hwaiting : waiting.drop numProcessed = left at *
        have hmem : reply ∈ left := by
          rw [hcons]
          exact List.mem_cons_self
        have hleft : ∀ n, (left.countP fun e => e.1 = n) ≤ times n := hwaiting ▸ htimes' numProcessed
        obtain ⟨nodeName, k, hk, hvalid, hadd⟩ :=
          hcollect.next hnew ⟨reply, hmem, hseqNo⟩ hleft hharmless hverify b hsize hroot
        refine Ends.seq (Ends.of_exec (Q := fun r s' => r = (true, nodeName, k) ∧ s = s') hvalid ⟨rfl, rfl⟩) ?_
        rintro _ _ ⟨rfl, rfl⟩
        dsimp only
        rw [if_pos rfl]
        refine Ends.seq hadd fun _ s1 hremove => Ends.seq hremove ?_
        rintro _ s2 ⟨hround, hharmless', hprogress⟩
        have hshorter : (left.drop k).length < n := by
          have hle : left.length ≤ waiting.length := by
            rw [← hwaiting, List.length_drop]
            omega
          have hpos : 0 < left.length := List.length_pos_of_mem hmem
          rw [List.length_drop]
          omega
        have hdropped' : ∀ n, ((left.drop k).countP fun e => e.1 = n) ≤ times n := fun n =>
          (List.drop_sublist k left).countP_le.trans (hleft n)
        refine Ends.seq (ih hround hdropped' hharmless' hshorter) ?_
        rintro m s3 ⟨hrest, hgap, hprogress'⟩
        have hdrops : waiting.drop (numProcessed + k + m) = (left.drop k).drop m := by
          rw [← hwaiting, List.drop_drop, List.drop_drop]
          congr 1
          omega
        refine Ends.ret ⟨?_, ?_, hprogress.trans hprogress'⟩
        · rw [hdrops]
          exact hrest
        · rw [hdrops]
          exact hgap
      · refine Ends.ret ⟨hcollect, ?_, Progress.refl b lid s⟩
        have hsorted := hcollect.sorted
        rw [hcons] at hsorted ⊢
        intro e he
        rcases List.mem_cons.1 he with rfl | he
        · omega
        · have hle := (List.pairwise_cons.1 hsorted).1 e he
          omega

/-! ## Taking in a reply -/

/-- the transactions of the replies received wait behind a gap -/
structure Awaiting (env : LedgerEnv τ) (own : LedgerOwner O τ) (lid : LedgerId) (cp : ConsistencyProof)
    (target : List τ) (got : List (CatchupRep τ)) (s : LedgerManager O τ) : Prop where
  collecting : Collecting env own lid cp target got (s.ledgerInfo lid).receivedCatchUpReplies s
  behindGap : BehindGap own lid (s.ledgerInfo lid).receivedCatchUpReplies s

theorem mem_heapqMerge {l l' : List (CatchupTxn τ)} {e : CatchupTxn τ} : e ∈ heapqMerge l l' ↔ e ∈ l ∨ e ∈ l' := by
  rw [heapqMerge_eq_merge, (List.merge_perm_append _).mem_iff, List.mem_append]

/-- merging lists that share no number -/
theorem StrictTxns.merge {l l' : List (CatchupTxn τ)} (h : StrictTxns l) (h' : StrictTxns l')
    (hne : ∀ a ∈ l, ∀ b ∈ l', a.1 ≠ b.1) : StrictTxns (heapqMerge l l') := by
  have hsorted : SortedTxns (heapqMerge l l') := h.sorted.merge h'.sorted
  have hdistinct : (heapqMerge l l').Pairwise fun a b => a.1 ≠ b.1 := by
    rw [heapqMerge_eq_merge]
    have happend : (l ++ l').Pairwise fun a b => a.1 ≠ b.1 :=
      List.pairwise_append.2 ⟨h.imp fun hab => ne_of_lt hab, h'.imp fun hab => ne_of_lt hab, hne⟩
    exact (List.merge_perm_append _).symm.pairwise happend fun hab => hab.symm
  exact (hsorted.and hdistinct).imp fun hab => lt_of_le_of_ne hab.1 hab.2

/-- the replies of a ledger with one more -/
def withReply (info : LedgerInfo τ) (rep : CatchupRep τ) (frm : NodeName) : LedgerInfo τ :=
  { info with
    recvdCatchupRepliesFrm := info.recvdCatchupRepliesFrm.set frm
      ((info.recvdCatchupRepliesFrm.get? frm).getD [] ++ [rep]) }

/-- how often `n` waits when the reply has been merged with what waits -/
def timesWaiting (info : LedgerInfo τ) (rep : CatchupRep τ) (n : ℤ) : ℕ :=
  (info.receivedCatchUpReplies.countP fun e => e.1 = n) + if rep.txns.contains (toString n) then 1 else 0

/-- the reply overlaps what waits only where it does no harm -/
def HarmlessReply (own : LedgerOwner O τ) (s : LedgerManager O τ) (rep : CatchupRep τ) (frm : NodeName) : Prop :=
  Harmless (withReply (s.ledgerInfo rep.ledgerId) rep frm) (timesWaiting (s.ledgerInfo rep.ledgerId) rep)
    (s.ledgerSize own rep.ledgerId)

theorem Honest.countP_heapqMerge (h : Honest env lid target rep first last) (hint : IntOfStr env) (info : LedgerInfo τ)
    (n : ℤ) : ((heapqMerge info.receivedCatchUpReplies (readTxns env rep)).countP fun e => e.1 = n) ≤
      timesWaiting info rep n := by
  have hrange := h.rangeTxns hint
  rw [heapqMerge_eq_merge, (List.merge_perm_append _).countP_eq, List.countP_append]
  unfold timesWaiting
  refine Nat.add_le_add_left ?_ _
  split_ifs with hcontains
  · exact hrange.strict.countP_le_one n
  · rw [Nat.le_zero, List.countP_eq_zero]
    intro e he hn
    refine hcontains ((h.contains_iff n).2 ((hrange.mem n).1 ⟨e, he, ?_⟩))
    simpa using hn

theorem mem_withReply {info : LedgerInfo τ} {rep rep' : CatchupRep τ} {frm frm' : NodeName} {reps : List (CatchupRep τ)}
    (hreps : info.recvdCatchupRepliesFrm.get? frm' = some reps) (hrep : rep' ∈ reps) :
    ∃ reps', (withReply info rep frm).recvdCatchupRepliesFrm.get? frm' = some reps' ∧ rep' ∈ reps' := by
  unfold withReply
  rw [Dict.get?_set]
  split_ifs with hfrm
  · subst hfrm
    rw [hreps]
    exact ⟨_, rfl, List.mem_append_left _ hrep⟩
  · exact ⟨reps, hreps, hrep⟩

theorem of_mem_withReply {info : LedgerInfo τ} {rep rep' : CatchupRep τ} {frm frm' : NodeName}
    {reps : List (CatchupRep τ)} (hreps : (withReply info rep frm).recvdCatchupRepliesFrm.get? frm' = some reps)
    (hrep : rep' ∈ reps) :
    rep' = rep ∨ ∃ reps', info.recvdCatchupRepliesFrm.get? frm' = some reps' ∧ rep' ∈ reps' := by
  unfold withReply at hreps
  rw [Dict.get?_set] at hreps
  split_ifs at hreps with hfrm
  · cases hreps
    rcases List.mem_append.1 hrep with hold | hnew
    · cases hget : info.recvdCatchupRepliesFrm.get? frm with
      | none =>
        rw [hget] at hold
        cases hold
      | some reps =>
        rw [hget] at hold
        exact Or.inr ⟨reps, hfrm ▸ hget, hold⟩
    · exact Or.inl (List.mem_singleton.1 hnew)
  · exact Or.inr ⟨reps, hreps, hrep⟩

/-- a reply is stored and its transactions are merged with those waiting -/
theorem Awaiting.store (h : Awaiting env own lid cp target got s) (hint : IntOfStr env)
    (hrep : Honest env lid target rep first last) (frm : NodeName) :
    Collecting env own lid cp target (rep :: got)
      (heapqMerge (s.ledgerInfo lid).receivedCatchUpReplies (readTxns env rep))
      (s.setLedgerInfo lid (withReply (s.ledgerInfo lid) rep frm)) := by
  have hrange := hrep.rangeTxns hint
  obtain ⟨hcollect, -⟩ := h
  have hinfo : (s.setLedgerInfo lid (withReply (s.ledgerInfo lid) rep frm)).ledgerInfo lid =
      withReply (s.ledgerInfo lid) rep frm := by
    rw [ledgerInfo_setLedgerInfo, if_pos rfl]
  have hread : ∀ n : ℤ, rep.txns.contains (toString n) = true ↔ ∃ e ∈ readTxns env rep, e.1 = n := by
    intro n
    rw [hrange.mem, hrep.contains_iff]
  refine ⟨?_, hcollect.isPrefix, ?_, ?_, ?_, ?_, ?_⟩
  · have htowards := hcollect.towards
    unfold Towards at htowards ⊢
    rw [hinfo]
    exact htowards
  · exact hcollect.sorted.merge hrange.strict.sorted
  · intro e he
    rcases mem_heapqMerge.1 he with he | he
    · exact hcollect.txn e he
    · exact hrange.txn e he
  · intro e he hlow
    rw [hinfo]
    rcases mem_heapqMerge.1 he with he | he
    · obtain ⟨frm', reps, hreps, rep', hrep', hcontains⟩ := hcollect.sender e he hlow
      obtain ⟨reps', hreps', hmem⟩ : ∃ reps', (withReply (s.ledgerInfo lid) rep frm).recvdCatchupRepliesFrm.get? frm' =
          some reps' ∧ rep' ∈ reps' := mem_withReply hreps hrep'
      exact ⟨frm', reps', hreps', rep', hmem, hcontains⟩
    · refine ⟨frm, (((s.ledgerInfo lid).recvdCatchupRepliesFrm.get? frm).getD [] ++ [rep]), ?_, rep, ?_, ?_⟩
      · unfold withReply
        rw [Dict.get?_set_self]
      · exact List.mem_append_right _ (List.mem_singleton.2 rfl)
      · exact (hread e.1).2 ⟨e, he, rfl⟩
  · intro frm' reps hreps rep' hrep' n hn hcontains
    rw [hinfo] at hreps
    rcases of_mem_withReply hreps hrep' with rfl | ⟨reps', hreps', hmem⟩
    · obtain ⟨e, he, hnum⟩ := (hread n).1 hcontains
      exact ⟨⟨first, last, hrep⟩, e, mem_heapqMerge.2 (Or.inr he), hnum⟩
    · obtain ⟨hhonest, e, he, hnum⟩ := hcollect.held frm' reps' hreps' rep' hmem n hn hcontains
      exact ⟨hhonest, e, mem_heapqMerge.2 (Or.inl he), hnum⟩
  · intro rep' hrep' n hcontains
    rcases List.mem_cons.1 hrep' with rfl | hrep'
    · obtain ⟨e, he, hnum⟩ := (hread n).1 hcontains
      exact Or.inr ⟨e, mem_heapqMerge.2 (Or.inr he), hnum⟩
    · rcases hcollect.got rep' hrep' n hcontains with hle | ⟨e, he, hnum⟩
      · exact Or.inl hle
      · exact Or.inr ⟨e, mem_heapqMerge.2 (Or.inl he), hnum⟩

/-- a reply that the ledger has already changes nothing -/
theorem Awaiting.ignore (h : Awaiting env own lid cp target got s) (hrep : Honest env lid target rep first last)
    (hold : ¬ (first ≤ last ∧ s.ledgerSize own lid < last)) : Awaiting env own lid cp target (rep :: got) s := by
  obtain ⟨⟨htowards, hpre, hsorted, htxn, hsender, hheld, hgot⟩, hgap⟩ := h
  refine ⟨⟨htowards, hpre, hsorted, htxn, hsender, hheld, ?_⟩, hgap⟩
  intro rep' hrep' n hcontains
  rcases List.mem_cons.1 hrep' with rfl | hrep'
  · obtain ⟨hfirst, hlast⟩ := (hrep.contains_iff n).1 hcontains
    exact Or.inl (by omega)
  · exact hgot rep' hrep' n hcontains

/-- the list of transactions waiting is written back -/
theorem Collecting.awaiting (h : Collecting env own lid cp target got waiting s) (hgap : BehindGap own lid waiting s) :
    Awaiting env own lid cp target got
      (s.setLedgerInfo lid { s.ledgerInfo lid with receivedCatchUpReplies := waiting }) := by
  have hinfo : (s.setLedgerInfo lid { s.ledgerInfo lid with receivedCatchUpReplies := waiting }).ledgerInfo lid =
      { s.ledgerInfo lid with receivedCatchUpReplies := waiting } := by
    rw [ledgerInfo_setLedgerInfo, if_pos rfl]
  refine ⟨?_, ?_⟩
  · rw [hinfo]
    refine ⟨?_, h.isPrefix, h.sorted, h.txn, ?_, ?_, h.got⟩
    · have htowards := h.towards
      unfold Towards at htowards ⊢
      rw [hinfo]
      exact htowards
    · rw [hinfo]
      exact h.sender
    · rw [hinfo]
      exact h.held
  · rw [hinfo]
    exact hgap

/-- **An honest reply is taken in without blacklisting anybody.** -/
theorem Awaiting.mergeCatchupRep (h : Awaiting env own lid cp target got s) (hverify : VerifyExact env)
    (hint : IntOfStr env) (b : Blacklist own) (hsize : target.length = cp.seqNoEnd)
    (hroot : env.merkleRoot target = cp.newMerkleRoot) (hrep : Honest env lid target rep first last)
    {frm : NodeName} (hharmless : HarmlessReply own s rep frm) :
    Ends (mergeCatchupRep env own rep frm) s
      (fun merged s' => Awaiting env own lid cp target (rep :: got) s' ∧ Progress own b lid s s' ∧
        (merged = false → s' = s)) fun _ _ => False := by
  have htxns : exec (canProcessCatchupReply env own rep) s =
      (.ok (if first ≤ last ∧ s.ledgerSize own lid < last then readTxns env rep else []), s) :=
    hrep.exec_canProcess hint h.collecting.towards.1
  unfold LedgerManager.mergeCatchupRep
  refine Ends.seq (Ends.of_exec (Q := fun txns s' => txns = _ ∧ s = s') htxns ⟨rfl, rfl⟩) ?_
  rintro _ _ ⟨rfl, rfl⟩
  by_cases hnew : first ≤ last ∧ s.ledgerSize own lid < last
  · rw [if_pos hnew]
    obtain ⟨a, -, ha, -⟩ := (hrep.rangeTxns hint).ends hnew.1
    have hne : readTxns env rep ≠ [] := by
      rintro hnil
      rw [hnil] at ha
      cases ha
    rw [if_neg hne, hrep.ledgerId]
    apply Ends.modify_seq
    apply Ends.get_seq
    have hstore := h.store hint hrep frm
    have htimes := hrep.countP_heapqMerge hint (s.ledgerInfo lid)
    have hharmless' : Harmless ((s.setLedgerInfo lid (withReply (s.ledgerInfo lid) rep frm)).ledgerInfo lid)
        (timesWaiting (s.ledgerInfo lid) rep) (s.ledgerSize own lid) := by
      rw [ledgerInfo_setLedgerInfo, if_pos rfl, ← hrep.ledgerId]
      exact hharmless
    have hwaiting : ((s.setLedgerInfo lid (withReply (s.ledgerInfo lid) rep frm)).ledgerInfo lid).receivedCatchUpReplies =
        (s.ledgerInfo lid).receivedCatchUpReplies := by
      rw [ledgerInfo_setLedgerInfo, if_pos rfl]
      rfl
    rw [← hwaiting] at hstore htimes
    refine Ends.seq (hstore.processCatchupReplies hverify b hsize hroot _ htimes hharmless' (Nat.lt_succ_self _)) ?_
    rintro m s' ⟨hcollect, hgap, hprogress⟩
    refine Ends.modify_seq (Ends.ret ⟨hcollect.awaiting hgap, ⟨hprogress.nodes, hprogress.size⟩, ?_⟩)
    intro hfalse
    cases hfalse
  · rw [if_neg hnew, if_pos rfl]
    exact Ends.ret ⟨h.ignore hrep hnew, Progress.refl b lid s, fun _ => rfl⟩

/-! ## What is left of earlier catch-ups -/

/-- nothing waits, and no reply that is held has a transaction beyond `size` -/
structure NothingLeft (lid : LedgerId) (size : ℕ) (s : LedgerManager O τ) : Prop where
  nothingWaiting : (s.ledgerInfo lid).receivedCatchUpReplies = []
  nothingHeld : ∀ frm reps, (s.ledgerInfo lid).recvdCatchupRepliesFrm.get? frm = some reps → ∀ rep ∈ reps, ∀ n : ℤ,
    (size : ℤ) < n → rep.txns.contains (toString n) = false

theorem nothingLeft_init (lid : LedgerId) (size : ℕ) (owner : O) :
    NothingLeft lid size (init owner : LedgerManager O τ) := by
  cases lid <;> exact ⟨rfl, fun _ _ hreps => nomatch hreps⟩

/-- a longer ledger has more of what is held -/
theorem NothingLeft.mono {size size' : ℕ} (h : NothingLeft lid size s) (hle : size ≤ size') :
    NothingLeft lid size' s := by
  refine ⟨h.nothingWaiting, fun frm reps hreps rep hrep n hn => ?_⟩
  exact h.nothingHeld frm reps hreps rep hrep n (by omega)

theorem NothingLeft.of_info {size : ℕ} {s' : LedgerManager O τ} (h : NothingLeft lid size s)
    (hwaiting : (s'.ledgerInfo lid).receivedCatchUpReplies = (s.ledgerInfo lid).receivedCatchUpReplies)
    (hheld : (s'.ledgerInfo lid).recvdCatchupRepliesFrm = (s.ledgerInfo lid).recvdCatchupRepliesFrm ∨
      (s'.ledgerInfo lid).recvdCatchupRepliesFrm = Dict.empty) : NothingLeft lid size s' := by
  refine ⟨hwaiting.trans h.nothingWaiting, ?_⟩
  intro frm reps hreps
  rcases hheld with he | he
  · rw [he] at hreps
    exact h.nothingHeld frm reps hreps
  · rw [he] at hreps
    cases hreps

theorem NothingLeft.of_same {size : ℕ} {s' : LedgerManager O τ} (h : NothingLeft lid size s)
    (hreg : s'.ledgerRegistry = s.ledgerRegistry) : NothingLeft lid size s' := by
  have hinfo : s'.ledgerInfo lid = s.ledgerInfo lid := by
    unfold ledgerInfo
    rw [hreg]
  exact h.of_info (congrArg _ hinfo) (Or.inl (congrArg _ hinfo))

theorem NothingLeft.setLedgerInfo {size : ℕ} (h : NothingLeft lid size s) {lid' : LedgerId} {info : LedgerInfo τ}
    (hwaiting : info.receivedCatchUpReplies = (s.ledgerInfo lid').receivedCatchUpReplies)
    (hheld : info.recvdCatchupRepliesFrm = (s.ledgerInfo lid').recvdCatchupRepliesFrm ∨
      info.recvdCatchupRepliesFrm = Dict.empty) : NothingLeft lid size (s.setLedgerInfo lid' info) := by
  by_cases hlid : lid = lid'
  · subst hlid
    have hinfo : (s.setLedgerInfo lid info).ledgerInfo lid = info := by rw [ledgerInfo_setLedgerInfo, if_pos rfl]
    refine h.of_info ?_ ?_
    · rw [hinfo]
      exact hwaiting
    · rw [hinfo]
      exact hheld
  · have hinfo : (s.setLedgerInfo lid' info).ledgerInfo lid = s.ledgerInfo lid := by
      rw [ledgerInfo_setLedgerInfo, if_neg hlid]
    exact h.of_info (congrArg _ hinfo) (Or.inl (congrArg _ hinfo))

theorem nothingLeft_framed (lid : LedgerId) (size : ℕ) :
    CatchupFramed own (NothingLeft lid size : LedgerManager O τ → Prop) := by
  refine ⟨⟨?_, ?_, ?_⟩, ?_⟩
  · intro s s' hreg _ _ h
    exact h.of_same hreg
  · intro s lid' info hw h
    exact h.setLedgerInfo hw.replies hw.repliesFrm
  · intro s o _ _ h
    exact h.of_same rfl
  · intro s lid' info hw h
    exact h.setLedgerInfo hw.replies hw.repliesFrm

/-- what brings in no reply keeps it so -/
theorem NothingLeft.input {size : ℕ} (h : NothingLeft lid size s) {x : LedgerInput τ}
    (hx : ∀ rep frm, x ≠ .catchupRep rep frm) : NothingLeft lid size (input env own fuel s x) := by
  have hframed : CatchupFramed own (NothingLeft lid size : LedgerManager O τ → Prop) := nothingLeft_framed lid size
  cases x with
  | ledgerStatus m frm => exact hframed.processLedgerStatus m frm s h
  | consistencyProof m frm =>
    refine hframed.processConsistencyProof ?_ ?_ s h
    · intro s s' lid' _ h
      exact h.of_same rfl
    · intro s h
      exact h.setLedgerInfo rfl (Or.inl rfl)
  | catchupRep m frm => exact absurd rfl (hx m frm)
  | setLedgerCanSync lid' canSync => exact hframed.setLedgerCanSync lid' canSync s h
  | checkIfCPsNeeded lid' => exact hframed.checkIfCPsNeeded lid' s h
  | tick perfCounter => exact hframed.quiet s _ rfl rfl rfl h

theorem NothingLeft.run {size : ℕ} (h : NothingLeft lid size s) {xs : List (LedgerInput τ)}
    (hxs : ∀ x ∈ xs, ∀ rep frm, x ≠ .catchupRep rep frm) : NothingLeft lid size (run env own fuel s xs) := by
  induction xs generalizing s with
  | nil => exact h
  | cons x xs ih => exact ih (h.input (hxs x List.mem_cons_self)) fun x' hx' => hxs x' (List.mem_cons_of_mem x hx')

/-- replies to a ledger that has been caught up leave nothing: all that they bring is on it -/
theorem Awaiting.nothing_left (h : Awaiting env own lid cp target got s)
    (hend : s.ledgerSize own lid = target.length) : NothingLeft lid target.length s := by
  refine ⟨?_, ?_⟩
  · rw [List.eq_nil_iff_forall_not_mem]
    intro e he
    obtain ⟨m, hm, hget⟩ := h.collecting.txn e he
    have hlt := (List.getElem?_eq_some_iff.1 hget).1
    have hgap := h.behindGap e he
    omega
  · intro frm reps hreps rep hrep n hn
    rw [← Bool.not_eq_true]
    intro hcontains
    obtain ⟨⟨first, last, hhonest⟩, -⟩ := h.collecting.held frm reps hreps rep hrep n (by omega) hcontains
    have hlast := ((hhonest.contains_iff n).1 hcontains).2
    have hle := hhonest.last_le
    omega

/-! ## One reply -/

/-- the reply completes the catch-up: the ledger is the target, and the method goes on to `catchupCompleted` -/
def Completes (env : LedgerEnv τ) (own : LedgerOwner O τ) (fuel : ℕ) (lid : LedgerId) (cp : ConsistencyProof)
    (target : List τ) (s : LedgerManager O τ) (r : CatchupRep τ × NodeName) : Prop :=
  let s' := (exec (mergeCatchupRep env own r.1 r.2) s).2
  (s'.ledger own lid).txns = target ∧
    exec (processCatchupRep env own fuel r.1 r.2) s =
      exec (catchupCompleted env own fuel lid cp.ppSeqNo)
        (s'.setLedgerInfo lid { s'.ledgerInfo lid with catchUpTill := none })

/-- what a reply does before the node goes on from there blacklists nobody -/
def BlacklistsNobody (env : LedgerEnv τ) (own : LedgerOwner O τ) (b : Blacklist own) (s : LedgerManager O τ)
    (r : CatchupRep τ × NodeName) : Prop :=
  b.nodes (exec (mergeCatchupRep env own r.1 r.2) s).2.owner = b.nodes s.owner

/-- **One reply**: it completes the catch-up, or something is still missing. -/
theorem Awaiting.step (h : Awaiting env own lid cp target got s) (hbelow : s.ledgerSize own lid < cp.seqNoEnd)
    (hverify : VerifyExact env) (hint : IntOfStr env) (b : Blacklist own) (hsize : target.length = cp.seqNoEnd)
    (hroot : env.merkleRoot target = cp.newMerkleRoot) {r : CatchupRep τ × NodeName}
    (hrep : Honest env lid target r.1 first last) (hharmless : HarmlessReply own s r.1 r.2) :
    BlacklistsNobody env own b s r ∧
      (Completes env own fuel lid cp target s r ∧
          NothingLeft lid target.length (input env own fuel s (.catchupRep r.1 r.2)) ∨
        Awaiting env own lid cp target (r.1 :: got) (input env own fuel s (.catchupRep r.1 r.2)) ∧
          Progress own b lid s (input env own fuel s (.catchupRep r.1 r.2)) ∧
          (input env own fuel s (.catchupRep r.1 r.2)).ledgerSize own lid < cp.seqNoEnd) := by
  obtain ⟨merged, s1, hmerge, hawait, hprogress, hsame⟩ :=
    (h.mergeCatchupRep hverify hint b hsize hroot hrep hharmless).returns
  refine ⟨by rw [BlacklistsNobody, hmerge]; exact hprogress.nodes, ?_⟩
  have hle : s1.ledgerSize own lid ≤ cp.seqNoEnd := by
    rw [← hsize]
    exact hawait.collecting.isPrefix.length_le
  cases merged with
  | false =>
    right
    have hinput : input env own fuel s (.catchupRep r.1 r.2) = s := by
      rw [input, method, processCatchupRep, exec_bind, hmerge, hsame rfl]
      rfl
    rw [hinput]
    rw [hsame rfl] at hawait
    exact ⟨hawait, Progress.refl b lid s, hbelow⟩
  | true =>
    have hrun : exec (processCatchupRep env own fuel r.1 r.2) s =
        if cp.seqNoEnd = s1.ledgerSize own lid then
          exec (catchupCompleted env own fuel lid cp.ppSeqNo)
            (s1.setLedgerInfo lid { s1.ledgerInfo lid with catchUpTill := none })
        else (.ok (), s1) := by
      rw [processCatchupRep, exec_bind, hmerge]
      dsimp only
      rw [if_pos rfl, exec_bind, exec_get]
      dsimp only
      rw [hrep.ledgerId, hawait.collecting.towards.2]
      dsimp only
      split_ifs
      · rfl
      · rfl
    by_cases hend : cp.seqNoEnd = s1.ledgerSize own lid
    · left
      rw [if_pos hend] at hrun
      refine ⟨⟨?_, ?_⟩, ?_⟩
      · rw [hmerge]
        refine hawait.collecting.isPrefix.eq_of_length ?_
        rw [hsize, hend]
        rfl
      · rw [hrun, hmerge]
      · have hleft := hawait.nothing_left (hend.symm.trans hsize.symm)
        have hframed : CatchupFramed own (NothingLeft lid target.length) := nothingLeft_framed lid target.length
        rw [input, method, hrun]
        exact hframed.catchupCompleted lid _ _ (hleft.setLedgerInfo rfl (Or.inl rfl))
    · right
      rw [if_neg hend] at hrun
      have hinput : input env own fuel s (.catchupRep r.1 r.2) = s1 := by
        rw [input, method, hrun]
      rw [hinput]
      exact ⟨hawait, hprogress, by omega⟩

/-! ## After the catch-up -/

/-- a ledger that is not being caught up ignores replies -/
theorem exec_mergeCatchupRep_of_not_syncing (hstate : (s.ledgerInfo rep.ledgerId).state ≠ .syncing) (frm : NodeName) :
    exec (mergeCatchupRep env own rep frm) s = (.ok false, s) := by
  rw [LedgerManager.mergeCatchupRep, exec_bind, canProcessCatchupReply, exec_bind, exec_get]
  dsimp only
  rw [if_pos hstate]
  rfl

theorem notSyncing_framed : Framed own fun s : LedgerManager O τ => (s.ledgerInfo lid).state ≠ .syncing := by
  refine ⟨?_, ?_, ?_⟩
  · intro s s' hreg _ _ h
    unfold ledgerInfo at h ⊢
    rw [hreg]
    exact h
  · intro s lid' info hw h
    rw [ledgerInfo_setLedgerInfo]
    split_ifs with hl
    · subst hl
      rcases hw.state with he | hne
      · rw [he]
        exact h
      · exact hne
    · exact h
  · intro s o _ _ h
    exact h

/-- completing a catch-up ends it -/
theorem completeCatchup_notSyncing {clbk : LedgerManagerM O τ Unit}
    (hclbk : Keeps (fun s : LedgerManager O τ => (s.ledgerInfo lid).state ≠ .syncing) clbk) (lastPpSeqNo : ℤ)
    (s : LedgerManager O τ) : ((exec (completeCatchup own clbk lid lastPpSeqNo) s).2.ledgerInfo lid).state ≠ .syncing := by
  have hframed : Framed own fun s : LedgerManager O τ => (s.ledgerInfo lid).state ≠ .syncing := notSyncing_framed
  unfold completeCatchup
  rw [exec_bind, exec_modify]
  dsimp only
  rw [modifyLedgerInfo, exec_bind, exec_modify]
  dsimp only
  refine Keeps.seq hclbk (fun _ => hframed.callCaughtUp own.allLedgersCaughtUp) _ ?_
  dsimp only
  rw [ledgerInfo_setLedgerInfo, if_pos rfl]
  simp

theorem catchupCompleted_notSyncing (lid : LedgerId) (lastPpSeqNo : ℤ) (s : LedgerManager O τ) :
    ((exec (catchupCompleted env own fuel lid lastPpSeqNo) s).2.ledgerInfo lid).state ≠ .syncing := by
  cases lid with
  | pool => exact completeCatchup_notSyncing notSyncing_framed.postPoolLedgerCaughtUp lastPpSeqNo s
  | domain => exact completeCatchup_notSyncing (Keeps.ret _) lastPpSeqNo s

/-! ## Runs -/

/-- no reply taken in does harm by an overlap with what waits at that time -/
def HarmlessRun (env : LedgerEnv τ) (own : LedgerOwner O τ) (fuel : ℕ) (s : LedgerManager O τ)
    (reps : List (CatchupRep τ × NodeName)) : Prop :=
  ∀ xs r ys, reps = xs ++ r :: ys → HarmlessReply own (run env own fuel s (replyInputs xs)) r.1 r.2

/-- no reply of the run makes the node blacklist a sender -/
def RunBlacklistsNobody (env : LedgerEnv τ) (own : LedgerOwner O τ) (fuel : ℕ) (b : Blacklist own)
    (s : LedgerManager O τ) (reps : List (CatchupRep τ × NodeName)) : Prop :=
  ∀ xs r ys, reps = xs ++ r :: ys → BlacklistsNobody env own b (run env own fuel s (replyInputs xs)) r

/-- some reply of the run completes the catch-up -/
def RunCompletes (env : LedgerEnv τ) (own : LedgerOwner O τ) (fuel : ℕ) (lid : LedgerId) (cp : ConsistencyProof)
    (target : List τ) (s : LedgerManager O τ) (reps : List (CatchupRep τ × NodeName)) : Prop :=
  ∃ xs r ys, reps = xs ++ r :: ys ∧ Completes env own fuel lid cp target (run env own fuel s (replyInputs xs)) r

/-- every reply carries a range of the target -/
def AllHonest (env : LedgerEnv τ) (lid : LedgerId) (target : List τ) (reps : List (CatchupRep τ × NodeName)) : Prop :=
  ∀ r ∈ reps, ∃ first last, Honest env lid target r.1 first last

theorem input_catchupRep_of_not_syncing {r : CatchupRep τ × NodeName}
    (hstate : (s.ledgerInfo r.1.ledgerId).state ≠ .syncing) : input env own fuel s (.catchupRep r.1 r.2) = s := by
  rw [input, method, processCatchupRep, exec_bind, exec_mergeCatchupRep_of_not_syncing hstate r.2]
  rfl

/-- replies to a ledger that has caught up are ignored -/
theorem run_of_not_syncing {reps : List (CatchupRep τ × NodeName)} (hhonest : AllHonest env lid target reps)
    (hstate : (s.ledgerInfo lid).state ≠ .syncing) : run env own fuel s (replyInputs reps) = s := by
  induction reps with
  | nil => rfl
  | cons r reps ih =>
    obtain ⟨first, last, hrep⟩ := hhonest r List.mem_cons_self
    have hinput : input env own fuel s (.catchupRep r.1 r.2) = s :=
      input_catchupRep_of_not_syncing (by rw [hrep.ledgerId]; exact hstate)
    change run env own fuel (input env own fuel s (.catchupRep r.1 r.2)) (replyInputs reps) = s
    rw [hinput]
    exact ih fun r' hr' => hhonest r' (List.mem_cons_of_mem r hr')

theorem runBlacklistsNobody_of_not_syncing (b : Blacklist own) {reps : List (CatchupRep τ × NodeName)}
    (hhonest : AllHonest env lid target reps) (hstate : (s.ledgerInfo lid).state ≠ .syncing) :
    RunBlacklistsNobody env own fuel b s reps := by
  rintro xs r ys rfl
  obtain ⟨first, last, hrep⟩ := hhonest r (List.mem_append_right xs List.mem_cons_self)
  have hbefore : run env own fuel s (replyInputs xs) = s :=
    run_of_not_syncing (fun r' hr' => hhonest r' (List.mem_append_left _ hr')) hstate
  have hstate' : (s.ledgerInfo r.1.ledgerId).state ≠ .syncing := by
    rw [hrep.ledgerId]
    exact hstate
  unfold BlacklistsNobody
  rw [hbefore, exec_mergeCatchupRep_of_not_syncing hstate' r.2]

/-- **A run of honest replies**: nobody is blacklisted, and the catch-up completes or something is still missing. -/
theorem Awaiting.run (h : Awaiting env own lid cp target got s) (hbelow : s.ledgerSize own lid < cp.seqNoEnd)
    (hverify : VerifyExact env) (hint : IntOfStr env) (b : Blacklist own) (hsize : target.length = cp.seqNoEnd)
    (hroot : env.merkleRoot target = cp.newMerkleRoot) {reps : List (CatchupRep τ × NodeName)}
    (hhonest : AllHonest env lid target reps) (hharmless : HarmlessRun env own fuel s reps) :
    RunBlacklistsNobody env own fuel b s reps ∧
      (RunCompletes env own fuel lid cp target s reps ∧
          NothingLeft lid target.length (run env own fuel s (replyInputs reps)) ∨
        Awaiting env own lid cp target ((reps.map Prod.fst).reverse ++ got) (run env own fuel s (replyInputs reps)) ∧
          Progress own b lid s (run env own fuel s (replyInputs reps)) ∧
          (run env own fuel s (replyInputs reps)).ledgerSize own lid < cp.seqNoEnd) := by
  induction reps generalizing s got with
  | nil =>
    refine ⟨?_, Or.inr ⟨h, Progress.refl b lid s, hbelow⟩⟩
    intro xs r ys hsplit
    cases xs <;> cases hsplit
  | cons r reps ih =>
    obtain ⟨first, last, hrep⟩ := hhonest r List.mem_cons_self
    have hrest : AllHonest env lid target reps := fun r' hr' => hhonest r' (List.mem_cons_of_mem r hr')
    obtain ⟨hharmless0, hharmlesses⟩ := forall_split_cons.1 hharmless
    obtain ⟨hblack, ⟨hcompletes, hleft⟩ | ⟨hawait, hprogress, hbelow'⟩⟩ :=
      h.step hbelow hverify hint b hsize hroot hrep hharmless0
    · have hstate : ((input env own fuel s (.catchupRep r.1 r.2)).ledgerInfo lid).state ≠ .syncing := by
        rw [input, method, hcompletes.2]
        exact catchupCompleted_notSyncing lid _ _
      refine ⟨forall_split_cons.2 ⟨hblack, runBlacklistsNobody_of_not_syncing b hrest hstate⟩,
        Or.inl ⟨⟨[], r, reps, rfl, hcompletes⟩, ?_⟩⟩
      change NothingLeft lid target.length
        (run env own fuel (input env own fuel s (.catchupRep r.1 r.2)) (replyInputs reps))
      rw [run_of_not_syncing hrest hstate]
      exact hleft
    · obtain ⟨hblacks, hend⟩ := ih hawait hbelow' hrest hharmlesses
      refine ⟨forall_split_cons.2 ⟨hblack, hblacks⟩, ?_⟩
      rcases hend with ⟨⟨xs, r', ys, rfl, hcompletes⟩, hleft⟩ | ⟨hawait', hprogress', hbelow2⟩
      · exact Or.inl ⟨⟨r :: xs, r', ys, rfl, hcompletes⟩, hleft⟩
      · refine Or.inr ⟨?_, hprogress.trans hprogress', hbelow2⟩
        rw [List.map_cons, List.reverse_cons, List.append_assoc]
        exact hawait'

/-- the ranges of the replies cover every sequence number that is missing -/
def Covered (own : LedgerOwner O τ) (lid : LedgerId) (cp : ConsistencyProof) (s : LedgerManager O τ)
    (reps : List (CatchupRep τ × NodeName)) : Prop :=
  ∀ n : ℕ, s.ledgerSize own lid < n → n ≤ cp.seqNoEnd → ∃ r ∈ reps, r.1.txns.contains (toString (n : ℤ)) = true

/-- a catch-up to `cp` that has received nothing yet; what is left of an earlier one has no number that is missing -/
structure CatchupStarts (own : LedgerOwner O τ) (lid : LedgerId) (cp : ConsistencyProof) (target : List τ)
    (s : LedgerManager O τ) : Prop where
  towards : Towards lid cp s
  isPrefix : (s.ledger own lid).txns <+: target
  below : s.ledgerSize own lid < cp.seqNoEnd
  nothingWaiting : (s.ledgerInfo lid).receivedCatchUpReplies = []
  nothingHeld : ∀ frm reps, (s.ledgerInfo lid).recvdCatchupRepliesFrm.get? frm = some reps → ∀ rep ∈ reps, ∀ n : ℤ,
    (s.ledgerSize own lid : ℤ) < n → rep.txns.contains (toString n) = false

/-- a ledger of which nothing is left starts to catch up -/
theorem NothingLeft.catchupStarts (h : NothingLeft lid (s.ledgerSize own lid) s) (ht : Towards lid cp s)
    (hpre : (s.ledger own lid).txns <+: target) (hbelow : s.ledgerSize own lid < cp.seqNoEnd) :
    CatchupStarts own lid cp target s := ⟨ht, hpre, hbelow, h.nothingWaiting, h.nothingHeld⟩

theorem CatchupStarts.awaiting (h : CatchupStarts own lid cp target s) : Awaiting env own lid cp target [] s := by
  refine ⟨⟨h.towards, h.isPrefix, ?_, ?_, ?_, ?_, ?_⟩, ?_⟩
  · rw [h.nothingWaiting]
    exact List.Pairwise.nil
  · rw [h.nothingWaiting]
    intro e he
    cases he
  · rw [h.nothingWaiting]
    intro e he
    cases he
  · intro frm reps hreps rep hrep n hn hcontains
    rw [h.nothingHeld frm reps hreps rep hrep n hn] at hcontains
    cases hcontains
  · intro rep hrep
    cases hrep
  · rw [h.nothingWaiting]
    intro e he
    cases he

/-- **Honest replies are not punished and suffice** if none of them overlaps what waits behind a gap so that a number is
verified twice: nobody is blacklisted, and once the ranges cover what is missing the catch-up has completed with the
target. -/
theorem honest_replies_suffice (env : LedgerEnv τ) (own : LedgerOwner O τ) (fuel : ℕ) (hverify : VerifyExact env)
    (hint : IntOfStr env) (b : Blacklist own) {lid : LedgerId} {cp : ConsistencyProof} {target : List τ}
    (hsize : target.length = cp.seqNoEnd) (hroot : env.merkleRoot target = cp.newMerkleRoot) {s : LedgerManager O τ}
    (hstart : CatchupStarts own lid cp target s) {reps : List (CatchupRep τ × NodeName)}
    (hhonest : AllHonest env lid target reps) (hharmless : HarmlessRun env own fuel s reps) :
    RunBlacklistsNobody env own fuel b s reps ∧
      (Covered own lid cp s reps → RunCompletes env own fuel lid cp target s reps) := by
  have hawait : Awaiting env own lid cp target [] s := hstart.awaiting
  obtain ⟨hblack, hend⟩ := hawait.run hstart.below hverify hint b hsize hroot hhonest hharmless
  refine ⟨hblack, ?_⟩
  intro hcovered
  rcases hend with ⟨hcompletes, -⟩ | ⟨hawait', hprogress, hbelow⟩
  · exact hcompletes
  -- the next transaction has been received, so it does not wait behind a gap
  · have hgrown := hprogress.size
    obtain ⟨r, hr, hcontains⟩ := hcovered
      ((run env own fuel s (replyInputs reps)).ledgerSize own lid + 1) (by omega) (by omega)
    have hgot : r.1 ∈ (reps.map Prod.fst).reverse ++ [] := by
      rw [List.append_nil, List.mem_reverse]
      exact List.mem_map_of_mem hr
    rcases hawait'.collecting.got r.1 hgot _ hcontains with hle | ⟨e, he, hnum⟩
    · omega
    · have hbehind := hawait'.behindGap e he
      omega

/-! ## Witnesses -/

end LedgerManager

namespace FourNodes

open LedgerManager

/-- the reply with the transactions of the target from `first` to `last` -/
def rangeReply (target : List Char) (first last : ℕ) : CatchupRep Char where
  ledgerId := .pool
  txns :=
    { entries := (((target.take last).drop (first - 1)).zipIdx first).map fun e => (toString (e.2 : ℤ), e.1)
      nodup := by
        have hinj : Function.Injective fun n : ℕ => toString (n : ℤ) := by
          intro m n hmn
          have hcast : (m : ℤ) = n := Int.repr_injective hmn
          exact_mod_cast hcast
        have hkeys : ((((target.take last).drop (first - 1)).zipIdx first).map fun e =>
            (toString (e.2 : ℤ), e.1)).map Prod.fst =
            (List.range' first ((target.take last).drop (first - 1)).length).map fun n : ℕ => toString (n : ℤ) := by
          rw [← List.zipIdx_map_snd, List.map_map, List.map_map]
          rfl
        rw [hkeys]
        exact List.Nodup.map hinj List.nodup_range' }
  consProof := []

theorem mem_rangeReply {target : List Char} {first last n : ℕ} {t : Char} (hfirst : 1 ≤ first) :
    (toString (n : ℤ), t) ∈ (rangeReply target first last).txns.entries ↔
      first ≤ n ∧ n ≤ last ∧ target[n - 1]? = some t := by
  unfold rangeReply
  rw [List.mem_map]
  constructor
  · rintro ⟨⟨t', i⟩, hmem, heq⟩
    obtain ⟨hstr, rfl⟩ := Prod.mk.inj heq
    have hcast : (i : ℤ) = n := Int.repr_injective hstr
    have hi : i = n := by exact_mod_cast hcast
    subst hi
    obtain ⟨hle, hget⟩ := List.mk_mem_zipIdx_iff_le_and_getElem?_sub.1 hmem
    rw [List.getElem?_drop, List.getElem?_take] at hget
    split_ifs at hget with hlt
    have hidx : first - 1 + (i - first) = i - 1 := by omega
    rw [hidx] at hget
    exact ⟨hle, by omega, hget⟩
  · rintro ⟨hle, hlast, hget⟩
    refine ⟨(t, n), List.mk_mem_zipIdx_iff_le_and_getElem?_sub.2 ⟨hle, ?_⟩, rfl⟩
    have hidx : first - 1 + (n - first) = n - 1 := by omega
    rw [List.getElem?_drop, List.getElem?_take, hidx, if_pos (by omega)]
    exact hget

theorem honest_rangeReply {target : List Char} {first last : ℕ} (hfirst : 1 ≤ first) (hlast : last ≤ target.length) :
    Honest exactLedgerEnv .pool target (rangeReply target first last) first last := by
  refine ⟨rfl, hfirst, hlast, ?_, ?_, rfl⟩
  · intro k
    rw [Dict.contains_iff]
    constructor
    · intro hk
      obtain ⟨t, ht⟩ := Dict.mem_fst.1 hk
      obtain ⟨⟨t', i⟩, -, heq⟩ := List.mem_map.1 ht
      obtain ⟨rfl, -⟩ := Prod.mk.inj heq
      obtain ⟨hle, hle', -⟩ := (mem_rangeReply hfirst).1 ht
      exact ⟨i, hle, hle', rfl⟩
    · rintro ⟨n, hle, hle', rfl⟩
      have hlt : n - 1 < target.length := by omega
      exact List.mem_map_of_mem ((mem_rangeReply hfirst).2 ⟨hle, hle', List.getElem?_eq_getElem hlt⟩)
  · intro n t ht
    have hentry := Dict.get?_eq_some.1 ht
    have hcast : (n : ℤ) + 1 = ((n + 1 : ℕ) : ℤ) := by push_cast; rfl
    rw [hcast] at hentry
    exact ((mem_rangeReply hfirst).1 hentry).2.2

theorem verifyExact_exactLedgerEnv : VerifyExact exactLedgerEnv := by
  intro t1 t2 proof
  simp only [exactLedgerEnv, ledgerEnv, Bool.and_eq_true, decide_eq_true_eq, String.toList_ofList, true_and,
    List.isPrefixOf_iff_prefix, List.isEmpty_iff]

/-- reading digits in the integers is reading them in the natural numbers -/
theorem foldl_digits (l : List Char) (h : ∀ c ∈ l, c.isDigit = true) (n : ℕ) :
    l.foldl (fun n c => 10 * n + ((c.toNat : ℤ) - '0'.toNat)) (n : ℤ) = (Nat.ofDigitChars 10 l n : ℤ) := by
  induction l generalizing n with
  | nil => rfl
  | cons c l ih =>
    have hc := h c List.mem_cons_self
    have hlow : '0'.toNat ≤ c.toNat := by
      rw [Char.isDigit, Bool.and_eq_true, decide_eq_true_eq] at hc
      exact hc.1
    have hstep : 10 * (n : ℤ) + ((c.toNat : ℤ) - '0'.toNat) = ((10 * n + (c.toNat - '0'.toNat) : ℕ) : ℤ) := by
      omega
    rw [List.foldl_cons, Nat.ofDigitChars_cons, hstep]
    exact ih (fun c' hc' => h c' (List.mem_cons_of_mem c hc')) _

theorem intOfStr_exactLedgerEnv : IntOfStr exactLedgerEnv := by
  intro n
  have hlist : (toString (n : ℤ)).toList = Nat.toDigits 10 n := Nat.toList_repr
  have hdigits : ∀ c ∈ Nat.toDigits 10 n, c.isDigit = true := fun c hc =>
    Nat.isDigit_of_mem_toDigits (by decide) (by decide) hc
  have hne : Nat.toDigits 10 n ≠ [] := by
    rw [← Nat.toList_repr]
    intro hnil
    exact Nat.repr_ne_empty (String.toList_eq_nil_iff.1 hnil)
  change intOfDigits (toString (n : ℤ)) = some (n : ℤ)
  unfold intOfDigits
  rw [hlist, if_pos ⟨hne, List.all_eq_true.2 hdigits⟩]
  have hzero := foldl_digits (Nat.toDigits 10 n) hdigits 0
  rw [Nat.ofDigitChars_ten_toDigits] at hzero
  exact congrArg some hzero

def recordedBlacklist : Blacklist recordingOwner :=
  ⟨Prod.snd, fun _ _ => rfl, fun _ _ _ => rfl, fun _ _ _ => rfl⟩

/-- Delta starts to catch up to `toAbc` -/
def catchupStarted : LedgerManager (PerLedger (Ledger Char) × List NodeName) Char :=
  run exactLedgerEnv recordingOwner 1 (init (emptyLedgers, [])) startCatchup

theorem catchupStarts_catchupStarted : CatchupStarts recordingOwner .pool toAbc targetAbc catchupStarted := by
  have hnothing : NothingLeft .pool (catchupStarted.ledgerSize recordingOwner .pool) catchupStarted := by
    refine (nothingLeft_init _ _ _).run ?_
    intro x hx rep frm
    simp only [startCatchup, List.mem_cons, List.not_mem_nil, or_false] at hx
    rcases hx with rfl | rfl
    · intro h
      cases h
    · intro h
      cases h
  exact hnothing.catchupStarts (by decide +kernel) (by decide +kernel) (by decide +kernel)

/-- Alpha's reply waits behind the gap that Gamma's fills, and Beta has sent the end of it once more -/
def fillingReplies : List (CatchupRep Char × NodeName) :=
  [(rangeReply targetAbc 2 3, "Alpha"), (rangeReply targetAbc 3 3, "Beta"), (rangeReply targetAbc 1 1, "Gamma")]

/-- both Alpha and Beta send all that waits behind the gap -/
def overlappingReplies : List (CatchupRep Char × NodeName) :=
  [(rangeReply targetAbc 2 3, "Alpha"), (rangeReply targetAbc 2 3, "Beta"), (rangeReply targetAbc 1 1, "Gamma")]

theorem honest_rangeReply_one : Honest exactLedgerEnv .pool targetAbc (rangeReply targetAbc 1 1) 1 1 :=
  honest_rangeReply (by decide) (by decide)

theorem honest_rangeReply_twoThree : Honest exactLedgerEnv .pool targetAbc (rangeReply targetAbc 2 3) 2 3 :=
  honest_rangeReply (by decide) (by decide)

theorem allHonest_fillingReplies : AllHonest exactLedgerEnv .pool targetAbc fillingReplies := by
  intro r hr
  simp only [fillingReplies, List.mem_cons, List.not_mem_nil, or_false] at hr
  rcases hr with rfl | rfl | rfl
  · exact ⟨2, 3, honest_rangeReply_twoThree⟩
  · exact ⟨3, 3, honest_rangeReply (by decide) (by decide)⟩
  · exact ⟨1, 1, honest_rangeReply_one⟩

theorem allHonest_overlappingReplies : AllHonest exactLedgerEnv .pool targetAbc overlappingReplies := by
  intro r hr
  simp only [overlappingReplies, List.mem_cons, List.not_mem_nil, or_false] at hr
  rcases hr with rfl | rfl | rfl
  · exact ⟨2, 3, honest_rangeReply_twoThree⟩
  · exact ⟨2, 3, honest_rangeReply_twoThree⟩
  · exact ⟨1, 1, honest_rangeReply_one⟩

theorem covered_of_mem {reps : List (CatchupRep Char × NodeName)}
    (halpha : (rangeReply targetAbc 2 3, "Alpha") ∈ reps) (hgamma : (rangeReply targetAbc 1 1, "Gamma") ∈ reps) :
    Covered recordingOwner .pool toAbc catchupStarted reps := by
  intro n hlow hup
  have hsize : catchupStarted.ledgerSize recordingOwner .pool = 0 := by decide +kernel
  have hend : toAbc.seqNoEnd = 3 := rfl
  by_cases hn : n = 1
  · exact ⟨_, hgamma, (honest_rangeReply_one.contains_iff n).2 (by omega)⟩
  · exact ⟨_, halpha, (honest_rangeReply_twoThree.contains_iff n).2 (by omega)⟩

theorem covered_fillingReplies : Covered recordingOwner .pool toAbc catchupStarted fillingReplies := by
  refine covered_of_mem ?_ ?_ <;> simp [fillingReplies]

theorem covered_overlappingReplies : Covered recordingOwner .pool toAbc catchupStarted overlappingReplies := by
  refine covered_of_mem ?_ ?_ <;> simp [overlappingReplies]

instance (b : Blacklist recordingOwner) (s : LedgerManager (PerLedger (Ledger Char) × List NodeName) Char)
    (r : CatchupRep Char × NodeName) : Decidable (BlacklistsNobody exactLedgerEnv recordingOwner b s r) :=
  inferInstanceAs (Decidable (_ = _))

deriving instance DecidableEq for CatchupRep

/-- when Gamma's reply has filled the gap, Alpha's starts right behind the ledger, and only its last number is twice -/
theorem harmlessRun_fillingReplies : HarmlessRun exactLedgerEnv recordingOwner 1 catchupStarted fillingReplies := by
  refine forall_split_cons.2 ⟨?_, forall_split_cons.2 ⟨?_, forall_split_cons.2 ⟨?_, ?_⟩⟩⟩
  · exact harmless_of_not_found _ (by decide +kernel)
  · exact harmless_of_not_found _ (by decide +kernel)
  · let s := run exactLedgerEnv recordingOwner 1 catchupStarted
      (replyInputs [(rangeReply targetAbc 2 3, "Alpha"), (rangeReply targetAbc 3 3, "Beta")])
    let info := withReply (s.ledgerInfo .pool) (rangeReply targetAbc 1 1) "Gamma"
    have hgamma : getCatchupReplyForSeqNo info ((0 : ℕ) + 1) = some ("Gamma", rangeReply targetAbc 1 1) := by
      decide +kernel
    have halpha : getCatchupReplyForSeqNo info ((1 : ℕ) + 1) = some ("Alpha", rangeReply targetAbc 2 3) := by
      decide +kernel
    have hnone : getCatchupReplyForSeqNo info ((3 : ℕ) + 1) = none := by decide +kernel
    refine harmless_of_found hgamma honest_rangeReply_one ?_
      (harmless_of_found halpha honest_rangeReply_twoThree ?_ (harmless_of_not_found _ hnone))
    · intro n _ hcontains htwice
      obtain ⟨hlow, hup⟩ := (honest_rangeReply_one.contains_iff n).1 hcontains
      obtain rfl : n = 1 := by omega
      exact absurd htwice (by decide +kernel)
    · intro n _ hcontains htwice m hm
      obtain ⟨hlow, hup⟩ := (honest_rangeReply_twoThree.contains_iff n).1 hcontains
      obtain ⟨hlow', hup'⟩ := (honest_rangeReply_twoThree.contains_iff m).1 hm
      by_cases hn : n = 2
      · subst hn
        exact absurd htwice (by decide +kernel)
      · omega
  · intro xs r ys hsplit
    cases xs <;> cases hsplit

end FourNodes

namespace LedgerManager

open FourNodes in
theorem honest_replies_suffice_filling :
    (VerifyExact exactLedgerEnv ∧ IntOfStr exactLedgerEnv ∧ targetAbc.length = toAbc.seqNoEnd ∧
      exactLedgerEnv.merkleRoot targetAbc = toAbc.newMerkleRoot ∧
      CatchupStarts recordingOwner .pool toAbc targetAbc catchupStarted ∧
      AllHonest exactLedgerEnv .pool targetAbc fillingReplies ∧
      HarmlessRun exactLedgerEnv recordingOwner 1 catchupStarted fillingReplies ∧
      Covered recordingOwner .pool toAbc catchupStarted fillingReplies) ∧
    RunBlacklistsNobody exactLedgerEnv recordingOwner 1 recordedBlacklist catchupStarted fillingReplies ∧
      RunCompletes exactLedgerEnv recordingOwner 1 .pool toAbc targetAbc catchupStarted fillingReplies := by
  obtain ⟨hblack, hcompletes⟩ := honest_replies_suffice exactLedgerEnv recordingOwner 1 verifyExact_exactLedgerEnv
    intOfStr_exactLedgerEnv recordedBlacklist (by decide) (by decide) catchupStarts_catchupStarted
    allHonest_fillingReplies harmlessRun_fillingReplies
  exact ⟨⟨verifyExact_exactLedgerEnv, intOfStr_exactLedgerEnv, by decide, by decide, catchupStarts_catchupStarted,
    allHonest_fillingReplies, harmlessRun_fillingReplies, covered_fillingReplies⟩, hblack,
    hcompletes covered_fillingReplies⟩

open FourNodes in
/-- **An honest node is blacklisted.** When the gap is filled, the two transactions verified with Alpha's reply are
transaction 2 from Alpha and transaction 2 from Beta. What is missing then is not held any more. -/
theorem honest_blacklisted :
    (VerifyExact exactLedgerEnv ∧ IntOfStr exactLedgerEnv ∧ targetAbc.length = toAbc.seqNoEnd ∧
      exactLedgerEnv.merkleRoot targetAbc = toAbc.newMerkleRoot ∧
      CatchupStarts recordingOwner .pool toAbc targetAbc catchupStarted ∧
      AllHonest exactLedgerEnv .pool targetAbc overlappingReplies ∧
      Covered recordingOwner .pool toAbc catchupStarted overlappingReplies) ∧
    let s := run exactLedgerEnv recordingOwner 1 catchupStarted (replyInputs overlappingReplies)
    ¬ RunBlacklistsNobody exactLedgerEnv recordingOwner 1 recordedBlacklist catchupStarted overlappingReplies ∧
      s.owner.2 = ["Alpha"] ∧ Towards .pool toAbc s ∧ (s.ledger recordingOwner .pool).txns = ['a'] := by
  refine ⟨⟨verifyExact_exactLedgerEnv, intOfStr_exactLedgerEnv, by decide, by decide, catchupStarts_catchupStarted,
    allHonest_overlappingReplies, covered_overlappingReplies⟩, ?_, by decide +kernel, by decide +kernel,
    by decide +kernel⟩
  intro h
  have hlast := h [(rangeReply targetAbc 2 3, "Alpha"), (rangeReply targetAbc 2 3, "Beta")]
    (rangeReply targetAbc 1 1, "Gamma") [] rfl
  revert hlast
  decide +kernel

end LedgerManager

end Plenum
