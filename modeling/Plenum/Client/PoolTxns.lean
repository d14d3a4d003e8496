/-
The pool ledger of a client, while its nodes report pool transactions in any order.

- `poolTxnReceived`: the last report of each node for each number is kept, and only the reports for the number that comes
  next are counted, each time one of them arrives.
- `received_cases`: what a report does. `run_after`: what holds after any sequence of reports.
- `unchanged_iff`: the ledger stays as it is exactly if at no moment more than `f` nodes agree on what comes next.
- `orderFree_iff`: whether the ledger is the same for all orders, and has all that it should have.
- `votes_before_predecessor`: the reports on the second transaction come before those on the first one.

What `processPoolTxn` does with the registry, whose size is fixed here, is left out.
-/
import Mathlib.Tactic
import Mathlib.Data.Prod.Lex
import Mathlib.Data.List.Sort
import Plenum.Common.Json
import Plenum.Common.Types
import Plenum.Common.Util

namespace Plenum

open Plenum.Core Signing

variable {ν : Type} (numText : ν → String)

/-! ## The ledger and the reports -/

/-- a report: the number is popped from the transaction -/
structure PoolTxnReport (ν : Type) where
  seqNo : ℤ
  txn : Value ν
  frm : NodeName

structure ClientPool (ν : Type) where
  nodeRegSize : ℕ
  ledger : List (Value ν)
  tempNodeTxns : Dict ℤ (Dict NodeName (Value ν))

namespace ClientPool

def init (nodeRegSize : ℕ) (ledger : List (Value ν)) : ClientPool ν := ⟨nodeRegSize, ledger, Dict.empty⟩

variable (c : ClientPool ν)

def f : ℕ := getMaxFailures c.nodeRegSize

def votes (seqNo : ℤ) : Dict NodeName (Value ν) := (c.tempNodeTxns.get? seqNo).getD Dict.empty

/-- the votes for the number of a report, with this report -/
def voted (m : PoolTxnReport ν) : Dict NodeName (Value ν) := (c.votes m.seqNo).set m.frm m.txn

/-- how many nodes report a text -/
def textCount (votes : Dict NodeName (Value ν)) (text : String) : ℕ := (votes.values.map (Json.dumps numText)).count text

/-- the first transaction whose text occurs more than `f` times, read from this text -/
def enoughSame (f : ℕ) (votes : Dict NodeName (Value ν)) : Option (Value ν) :=
  ((itemCounts (votes.values.map (Json.dumps numText))).entries.filter fun e => f < e.2).head?.bind fun e =>
    (votes.values.find? fun txn => Json.dumps numText txn = e.1).map Json.reloaded

def poolTxnReceived (m : PoolTxnReport ν) : ClientPool ν :=
  let votes := c.voted m
  let c := { c with tempNodeTxns := c.tempNodeTxns.set m.seqNo votes }
  if m.seqNo - c.ledger.length = 1 ∧ c.f < votes.size then
    match enoughSame numText c.f votes with
    | none => c
    | some txn => { c with ledger := c.ledger ++ [txn], tempNodeTxns := c.tempNodeTxns.erase m.seqNo }
  else c

def run (reports : List (PoolTxnReport ν)) : ClientPool ν := reports.foldl (poolTxnReceived numText) c

/-- the ledger, by the texts of its transactions -/
def texts : List String := c.ledger.map (Json.dumps numText)

/-! ## Who has reported what -/

section Reports

variable (reports : List (PoolTxnReport ν)) (seqNo : ℤ)

/-- the last report of a node for a number -/
def latest (node : NodeName) : Option (Value ν) :=
  (reports.filter fun m => m.seqNo = seqNo ∧ m.frm = node).getLast?.map PoolTxnReport.txn

/-- the nodes whose last report for a number has a text -/
def supporters (text : String) : Finset NodeName :=
  (reports.map PoolTxnReport.frm).toFinset.filter fun node =>
    (latest reports seqNo node).any fun txn => Json.dumps numText txn = text

/-- the nodes that have reported a text for a number -/
def reporters (text : String) : Finset NodeName :=
  ((reports.filter fun m => m.seqNo = seqNo ∧ Json.dumps numText m.txn = text).map PoolTxnReport.frm).toFinset

/-- those of them that have reported nothing else for it -/
def onlyReporters (text : String) : Finset NodeName :=
  (reporters numText reports seqNo text).filter fun node =>
    ∀ m ∈ reports, m.seqNo = seqNo → m.frm = node → Json.dumps numText m.txn = text

end Reports

/-- **The ledger does not depend on the order** of the reports, and a transaction for a new number that more than `f` nodes
have reported is in it if its predecessors are. -/
structure OrderFree (reports : List (PoolTxnReport ν)) : Prop where
  same : ∀ l l' : List (PoolTxnReport ν), l.Perm reports → l'.Perm reports →
    (c.run numText l).texts numText = (c.run numText l').texts numText
  added : ∀ l : List (PoolTxnReport ν), l.Perm reports → ∀ (i : ℕ) (text : String), c.ledger.length ≤ i →
    i ≤ (c.run numText l).ledger.length → c.f < (reporters numText reports (i + 1) text).card →
    ((c.run numText l).texts numText)[i]? = some text

/-- there is no transaction to add, or there is a single one, enough of whose reporters have reported nothing else, and
none to add after it -/
def AtMostOneReady (reports : List (PoolTxnReport ν)) : Prop :=
  (∀ text, (reporters numText reports (c.ledger.length + 1) text).card ≤ c.f) ∨
    ∃ text, c.f < (onlyReporters numText reports (c.ledger.length + 1) text).card ∧
      (∀ text' ≠ text, (reporters numText reports (c.ledger.length + 1) text').card ≤ c.f) ∧
      ∀ text', (reporters numText reports (c.ledger.length + 2) text').card ≤ c.f

variable {numText c}

/-! ## Counting votes -/

section Counting

variable {reports : List (PoolTxnReport ν)} {seqNo : ℤ} {node : NodeName} {text : String}

theorem latest_concat (reports : List (PoolTxnReport ν)) (m : PoolTxnReport ν) (seqNo : ℤ) (node : NodeName) :
    latest (reports ++ [m]) seqNo node =
      if m.seqNo = seqNo ∧ m.frm = node then some m.txn else latest reports seqNo node := by
  unfold latest
  rw [List.filter_append]
  split_ifs with h
  · rw [List.filter_cons_of_pos (by simpa using h), List.filter_nil, List.getLast?_concat]
    rfl
  · rw [List.filter_cons_of_neg (by simpa using h), List.filter_nil, List.append_nil]

theorem exists_of_latest {txn : Value ν} (h : latest reports seqNo node = some txn) :
    ∃ m ∈ reports, m.seqNo = seqNo ∧ m.frm = node ∧ m.txn = txn := by
  obtain ⟨m, hm, rfl⟩ := Option.map_eq_some_iff.1 h
  obtain ⟨hmem, hfor⟩ := List.mem_filter.1 (List.mem_of_getLast? hm)
  rw [decide_eq_true_eq] at hfor
  exact ⟨m, hmem, hfor.1, hfor.2, rfl⟩

theorem mem_supporters : node ∈ supporters numText reports seqNo text ↔
    ∃ txn, latest reports seqNo node = some txn ∧ Json.dumps numText txn = text := by
  unfold supporters
  rw [Finset.mem_filter, List.mem_toFinset]
  constructor
  · rintro ⟨-, hany⟩
    cases hlatest : latest reports seqNo node with
    | none =>
      rw [hlatest] at hany
      cases hany
    | some txn =>
      rw [hlatest] at hany
      exact ⟨txn, rfl, of_decide_eq_true hany⟩
  · rintro ⟨txn, htxn, htext⟩
    obtain ⟨m, hm, -, rfl, -⟩ := exists_of_latest htxn
    refine ⟨List.mem_map_of_mem hm, ?_⟩
    rw [htxn]
    exact decide_eq_true htext

theorem mem_reporters : node ∈ reporters numText reports seqNo text ↔
    ∃ m ∈ reports, m.frm = node ∧ m.seqNo = seqNo ∧ Json.dumps numText m.txn = text := by
  unfold reporters
  rw [List.mem_toFinset, List.mem_map]
  constructor
  · rintro ⟨m, hm, rfl⟩
    obtain ⟨hmem, hfor⟩ := List.mem_filter.1 hm
    rw [decide_eq_true_eq] at hfor
    exact ⟨m, hmem, rfl, hfor⟩
  · rintro ⟨m, hm, rfl, hfor⟩
    exact ⟨m, List.mem_filter.2 ⟨hm, decide_eq_true hfor⟩, rfl⟩

theorem reporters_mono {reports' : List (PoolTxnReport ν)} (h : ∀ m ∈ reports, m ∈ reports') :
    reporters numText reports seqNo text ⊆ reporters numText reports' seqNo text := by
  intro node hnode
  obtain ⟨m, hm, hfor⟩ := mem_reporters.1 hnode
  exact mem_reporters.2 ⟨m, h m hm, hfor⟩

theorem supporters_subset : supporters numText reports seqNo text ⊆ reporters numText reports seqNo text := by
  intro node hnode
  obtain ⟨txn, htxn, rfl⟩ := mem_supporters.1 hnode
  obtain ⟨m, hm, hseqNo, hfrm, rfl⟩ := exists_of_latest htxn
  exact mem_reporters.2 ⟨m, hm, hfrm, hseqNo, rfl⟩

/-- votes are counted by the nodes that cast them -/
theorem textCount_eq_card (votes : Dict NodeName (Value ν)) (text : String) : textCount numText votes text =
    (votes.keys.toFinset.filter fun node => (votes.get? node).any fun txn => Json.dumps numText txn = text).card := by
  unfold textCount
  rw [List.count_eq_countP, List.countP_map, ← Dict.countP_values]
  refine List.countP_congr fun txn _ => ?_
  simp

/-- the votes are the last reports -/
theorem textCount_eq_supporters {votes : Dict NodeName (Value ν)} (h : ∀ node, votes.get? node = latest reports seqNo node)
    (text : String) : textCount numText votes text = (supporters numText reports seqNo text).card := by
  rw [textCount_eq_card]
  congr 1
  ext node
  rw [Finset.mem_filter, mem_supporters, List.mem_toFinset, ← Dict.contains_iff, Dict.contains, h]
  cases latest reports seqNo node <;> simp

variable (numText) in
/-- who votes for a text has reported it -/
theorem textCount_le {votes : Dict NodeName (Value ν)} (h : ∀ node txn, votes.get? node = some txn →
      ∃ m ∈ reports, m.seqNo = seqNo ∧ m.frm = node ∧ m.txn = txn) (text : String) :
    textCount numText votes text ≤ (reporters numText reports seqNo text).card := by
  rw [textCount_eq_card]
  refine Finset.card_le_card fun node hnode => ?_
  obtain ⟨-, hany⟩ := Finset.mem_filter.1 hnode
  cases hget : votes.get? node with
  | none =>
    rw [hget] at hany
    cases hany
  | some txn =>
    rw [hget] at hany
    obtain ⟨m, hm, hseqNo, hfrm, rfl⟩ := h node txn hget
    exact mem_reporters.2 ⟨m, hm, hfrm, hseqNo, of_decide_eq_true hany⟩

end Counting

/-! ## What a report does -/

theorem enoughSame_eq_none {f : ℕ} {votes : Dict NodeName (Value ν)} (h : enoughSame numText f votes = none)
    (text : String) : textCount numText votes text ≤ f := by
  by_contra hlt
  rw [not_le] at hlt
  have htext : text ∈ votes.values.map (Json.dumps numText) := List.count_pos_iff.1 ((Nat.zero_le f).trans_lt hlt)
  unfold enoughSame at h
  cases hhead : ((itemCounts (votes.values.map (Json.dumps numText))).entries.filter fun e => f < e.2).head? with
  | none =>
    rw [List.head?_eq_none_iff, List.filter_eq_nil_iff] at hhead
    exact hhead (text, _) (mem_itemCounts.2 ⟨htext, rfl⟩) (decide_eq_true hlt)
  | some e =>
    rw [hhead, Option.bind_some, Option.map_eq_none_iff, List.find?_eq_none] at h
    obtain ⟨hmem, -⟩ := mem_itemCounts.1 (List.mem_of_mem_filter (List.mem_of_head? hhead))
    obtain ⟨txn, htxn, htext'⟩ := List.mem_map.1 hmem
    exact h txn htxn (decide_eq_true htext')

theorem enoughSame_eq_some {f : ℕ} {votes : Dict NodeName (Value ν)} {txn : Value ν}
    (h : enoughSame numText f votes = some txn) : f < textCount numText votes (Json.dumps numText txn) := by
  unfold enoughSame at h
  obtain ⟨e, hhead, hfind⟩ := Option.bind_eq_some_iff.1 h
  obtain ⟨txn', hfound, rfl⟩ := Option.map_eq_some_iff.1 hfind
  obtain ⟨hmem, hlt⟩ := List.mem_filter.1 (List.mem_of_head? hhead)
  obtain ⟨-, hcount⟩ := mem_itemCounts.1 hmem
  have htext : Json.dumps numText txn' = e.1 := by simpa using List.find?_some hfound
  rw [Json.dumps_reloaded, htext]
  unfold textCount
  rw [← hcount]
  exact of_decide_eq_true hlt

theorem textCount_le_size (votes : Dict NodeName (Value ν)) (text : String) :
    textCount numText votes text ≤ votes.size := by
  have h := List.count_le_length (a := text) (l := votes.values.map (Json.dumps numText))
  rwa [List.length_map, Dict.values, List.length_map] at h

theorem votes_set (c : ClientPool ν) (k : ℤ) (v : Dict NodeName (Value ν)) (seqNo : ℤ) :
    ({ c with tempNodeTxns := c.tempNodeTxns.set k v } : ClientPool ν).votes seqNo =
      if seqNo = k then v else c.votes seqNo := by
  unfold votes
  dsimp only
  rw [Dict.get?_set]
  split_ifs <;> rfl

theorem votes_erase (c : ClientPool ν) (k : ℤ) (v : Dict NodeName (Value ν)) (ledger : List (Value ν)) (seqNo : ℤ) :
    (⟨c.nodeRegSize, ledger, (c.tempNodeTxns.set k v).erase k⟩ : ClientPool ν).votes seqNo =
      if seqNo = k then Dict.empty else c.votes seqNo := by
  unfold votes
  dsimp only
  rw [Dict.get?_erase, Dict.get?_set]
  split_ifs <;> rfl

variable (numText) in
/-- a report is kept, and no text has enough votes; or it completes the votes for the next transaction -/
theorem received_cases (c : ClientPool ν) (m : PoolTxnReport ν) :
    (c.poolTxnReceived numText m).nodeRegSize = c.nodeRegSize ∧
    ((c.poolTxnReceived numText m).ledger = c.ledger ∧
        (∀ seqNo, (c.poolTxnReceived numText m).votes seqNo = if seqNo = m.seqNo then c.voted m else c.votes seqNo) ∧
        (m.seqNo = c.ledger.length + 1 → ∀ text, textCount numText (c.voted m) text ≤ c.f) ∨
      m.seqNo = c.ledger.length + 1 ∧
        (∃ txn, (c.poolTxnReceived numText m).ledger = c.ledger ++ [txn] ∧
          c.f < textCount numText (c.voted m) (Json.dumps numText txn)) ∧
        ∀ seqNo, (c.poolTxnReceived numText m).votes seqNo = if seqNo = m.seqNo then Dict.empty else c.votes seqNo) := by
  unfold poolTxnReceived
  dsimp only
  split_ifs with hnext
  · have hseqNo : m.seqNo = c.ledger.length + 1 := by
      have h := hnext.1
      omega
    cases henough : enoughSame numText (f { c with tempNodeTxns := c.tempNodeTxns.set m.seqNo (c.voted m) }) (c.voted m) with
    | none =>
      exact ⟨rfl, Or.inl ⟨rfl, fun seqNo => votes_set c m.seqNo (c.voted m) seqNo,
        fun _ text => enoughSame_eq_none henough text⟩⟩
    | some txn =>
      exact ⟨rfl, Or.inr ⟨hseqNo, ⟨txn, rfl, enoughSame_eq_some henough⟩,
        fun seqNo => votes_erase c m.seqNo (c.voted m) (c.ledger ++ [txn]) seqNo⟩⟩
  · refine ⟨rfl, Or.inl ⟨rfl, fun seqNo => votes_set c m.seqNo (c.voted m) seqNo, fun hseqNo text => ?_⟩⟩
    have hfew : ¬ c.f < (c.voted m).size := fun hlt => hnext ⟨by omega, hlt⟩
    exact (textCount_le_size _ text).trans (not_lt.1 hfew)

/-! ## What a sequence of reports does -/

/-- what holds after a sequence of reports, in the first state of which no votes were kept -/
structure After (numText : ν → String) (c₀ : ClientPool ν) (reports : List (PoolTxnReport ν)) (c : ClientPool ν) :
    Prop where
  size : c.nodeRegSize = c₀.nodeRegSize
  grown : ∃ new, c.ledger = c₀.ledger ++ new ∧ ∀ (i : ℕ) txn, new[i]? = some txn →
    c₀.f < (reporters numText reports ((c₀.ledger.length + i : ℕ) + 1) (Json.dumps numText txn)).card
  reported : ∀ seqNo node txn, (c.votes seqNo).get? node = some txn →
    ∃ m ∈ reports, m.seqNo = seqNo ∧ m.frm = node ∧ m.txn = txn
  waiting : c.ledger = c₀.ledger → (∀ node, (c.votes (c₀.ledger.length + 1)).get? node =
      latest reports (c₀.ledger.length + 1) node) ∧
    ∀ p, p <+: reports → ∀ text, (supporters numText p (c₀.ledger.length + 1) text).card ≤ c₀.f

theorem votes_init {c₀ : ClientPool ν} (h : c₀.tempNodeTxns = Dict.empty) (seqNo : ℤ) : c₀.votes seqNo = Dict.empty := by
  unfold votes
  rw [h]
  rfl

theorem after_nil {c₀ : ClientPool ν} (h : c₀.tempNodeTxns = Dict.empty) : After numText c₀ [] c₀ where
  size := rfl
  grown := ⟨[], (List.append_nil _).symm, fun i txn hi => by cases hi⟩
  reported seqNo node txn hvotes := by
    rw [votes_init h] at hvotes
    cases hvotes
  waiting _ := by
    refine ⟨fun node => by rw [votes_init h]; rfl, fun p hp text => ?_⟩
    rw [List.prefix_nil.1 hp]
    exact Nat.zero_le _

variable {c₀ : ClientPool ν} {reports : List (PoolTxnReport ν)} {m : PoolTxnReport ν}

theorem After.f_eq (h : After numText c₀ reports c) : c.f = c₀.f := congrArg getMaxFailures h.size

/-- a vote with the report was cast before, or is the report -/
theorem After.voted (h : After numText c₀ reports c) (node : NodeName) (txn : Value ν)
    (hget : (c.voted m).get? node = some txn) :
    ∃ m' ∈ reports ++ [m], m'.seqNo = m.seqNo ∧ m'.frm = node ∧ m'.txn = txn := by
  unfold ClientPool.voted at hget
  rw [Dict.get?_set] at hget
  split_ifs at hget with hnode
  · cases hget
    exact ⟨m, by simp, rfl, hnode.symm, rfl⟩
  · obtain ⟨m', hm', hfor⟩ := h.reported _ _ _ hget
    exact ⟨m', List.mem_append_left _ hm', hfor⟩

/-- the votes for the next transaction are the last reports -/
theorem After.voted_latest (h : After numText c₀ reports c) (hledger : c.ledger = c₀.ledger)
    (hseqNo : m.seqNo = c₀.ledger.length + 1) (node : NodeName) :
    (c.voted m).get? node = latest (reports ++ [m]) (c₀.ledger.length + 1) node := by
  unfold ClientPool.voted
  rw [Dict.get?_set, latest_concat, hseqNo, (h.waiting hledger).1]
  by_cases hnode : node = m.frm
  · rw [if_pos hnode, if_pos ⟨rfl, hnode.symm⟩]
  · rw [if_neg hnode, if_neg fun hfor => hnode hfor.2.symm]

theorem After.poolTxnReceived (h : After numText c₀ reports c) (m : PoolTxnReport ν) :
    After numText c₀ (reports ++ [m]) (c.poolTxnReceived numText m) := by
  obtain ⟨new, hnew, hreporters⟩ := h.grown
  have hmono : ∀ (i : ℕ) txn, new[i]? = some txn →
      c₀.f < (reporters numText (reports ++ [m]) ((c₀.ledger.length + i : ℕ) + 1) (Json.dumps numText txn)).card :=
    fun i txn hi => (hreporters i txn hi).trans_le
      (Finset.card_le_card (reporters_mono fun m' hm' => List.mem_append_left _ hm'))
  obtain ⟨hsize, ⟨hledger, hvotes, hfew⟩ | ⟨hseqNo, ⟨txn, hledger, hmany⟩, hvotes⟩⟩ := received_cases numText c m
  · refine ⟨hsize.trans h.size, ⟨new, hledger.trans hnew, hmono⟩, fun seqNo node txn hget => ?_, fun hsame => ?_⟩
    · rw [hvotes] at hget
      split_ifs at hget with heq
      · exact heq ▸ h.voted node txn hget
      · obtain ⟨m', hm', hfor⟩ := h.reported _ _ _ hget
        exact ⟨m', List.mem_append_left _ hm', hfor⟩
    · rw [hledger] at hsame
      have hlatest : ∀ node, ((c.poolTxnReceived numText m).votes (c₀.ledger.length + 1)).get? node =
          latest (reports ++ [m]) (c₀.ledger.length + 1) node := by
        intro node
        rw [hvotes]
        split_ifs with heq
        · exact h.voted_latest hsame heq.symm node
        · rw [latest_concat, if_neg fun hfor => heq hfor.1.symm]
          exact (h.waiting hsame).1 node
      refine ⟨hlatest, fun p hp text => ?_⟩
      rcases List.prefix_concat_iff.1 hp with rfl | hp
      · rw [← textCount_eq_supporters hlatest, hvotes]
        split_ifs with heq
        · rw [← h.f_eq]
          exact hfew (by rw [hsame]; exact heq.symm) text
        · rw [textCount_eq_supporters (h.waiting hsame).1]
          exact (h.waiting hsame).2 reports List.prefix_rfl text
      · exact (h.waiting hsame).2 p hp text
  · refine ⟨hsize.trans h.size, ⟨new ++ [txn], ?_, fun i txn' hi => ?_⟩, fun seqNo node txn hget => ?_, fun hsame => ?_⟩
    · rw [hledger, hnew, List.append_assoc]
    · rcases Nat.lt_trichotomy i new.length with hlt | rfl | hgt
      · rw [List.getElem?_append_left hlt] at hi
        exact hmono i txn' hi
      · rw [List.getElem?_concat_length, Option.some.injEq] at hi
        have hle := textCount_le numText (h.voted (m := m)) (Json.dumps numText txn)
        have hnumber : m.seqNo = ((c₀.ledger.length + new.length : ℕ) : ℤ) + 1 := by
          rw [hseqNo, hnew, List.length_append]
        rw [hnumber] at hle
        rw [← hi, ← h.f_eq]
        exact hmany.trans_le hle
      · rw [List.getElem?_eq_none (by simp; omega)] at hi
        cases hi
    · rw [hvotes] at hget
      split_ifs at hget
      · cases hget
      · obtain ⟨m', hm', hfor⟩ := h.reported _ _ _ hget
        exact ⟨m', List.mem_append_left _ hm', hfor⟩
    · have hlength := congrArg List.length hsame
      rw [hledger, hnew] at hlength
      simp at hlength

theorem run_concat (c : ClientPool ν) (reports : List (PoolTxnReport ν)) (m : PoolTxnReport ν) :
    c.run numText (reports ++ [m]) = (c.run numText reports).poolTxnReceived numText m := by
  unfold run
  rw [List.foldl_concat]

variable (numText) in
theorem run_after (h : c₀.tempNodeTxns = Dict.empty) (reports : List (PoolTxnReport ν)) :
    After numText c₀ reports (c₀.run numText reports) := by
  induction reports using List.reverseRecOn with
  | nil => exact after_nil h
  | append_singleton reports m ih =>
    rw [run_concat]
    exact ih.poolTxnReceived m

/-- the ledger stays as it is exactly if at no moment enough nodes agree on what comes next -/
theorem unchanged_iff (h : c₀.tempNodeTxns = Dict.empty) (reports : List (PoolTxnReport ν)) :
    (c₀.run numText reports).ledger = c₀.ledger ↔
      ∀ p, p <+: reports → ∀ text, (supporters numText p (c₀.ledger.length + 1) text).card ≤ c₀.f := by
  constructor
  · intro hsame
    exact ((run_after numText h reports).waiting hsame).2
  · intro hfew
    induction reports using List.reverseRecOn with
    | nil => rfl
    | append_singleton reports m ih =>
      have hsame := ih fun p hp => hfew p (hp.trans (List.prefix_append _ _))
      have hafter := run_after numText h reports
      rw [run_concat]
      obtain ⟨-, ⟨hledger, -⟩ | ⟨hseqNo, ⟨txn, -, hmany⟩, -⟩⟩ :=
        received_cases numText (c₀.run numText reports) m
      · exact hledger.trans hsame
      · rw [hsame] at hseqNo
        have hle := hfew _ List.prefix_rfl (Json.dumps numText txn)
        rw [← textCount_eq_supporters (hafter.voted_latest hsame hseqNo), ← hafter.f_eq] at hle
        exact absurd hmany (not_lt.2 hle)

/-! ## All orders add the same -/

section Orders

variable {l : List (PoolTxnReport ν)} {seqNo : ℤ} {node : NodeName} {text : String}

theorem exists_latest (hm : m ∈ reports) (hseqNo : m.seqNo = seqNo) (hfrm : m.frm = node) :
    ∃ txn, latest reports seqNo node = some txn := by
  unfold latest
  cases hlast : (reports.filter fun m => m.seqNo = seqNo ∧ m.frm = node).getLast? with
  | none =>
    rw [List.getLast?_eq_none_iff, List.filter_eq_nil_iff] at hlast
    exact absurd (decide_eq_true ⟨hseqNo, hfrm⟩) (hlast m hm)
  | some m' => exact ⟨m'.txn, rfl⟩

theorem reporters_perm (h : l.Perm reports) : reporters numText l seqNo text = reporters numText reports seqNo text :=
  Finset.Subset.antisymm (reporters_mono fun _ => h.mem_iff.1) (reporters_mono fun _ => h.mem_iff.2)

/-- who reports nothing else supports it in the end -/
theorem onlyReporters_subset (h : l.Perm reports) :
    onlyReporters numText reports seqNo text ⊆ supporters numText l seqNo text := by
  intro node hnode
  obtain ⟨hreporter, honly⟩ := Finset.mem_filter.1 hnode
  obtain ⟨m, hm, hfrm, hseqNo, -⟩ := mem_reporters.1 hreporter
  obtain ⟨txn, htxn⟩ := exists_latest (h.mem_iff.2 hm) hseqNo hfrm
  obtain ⟨m', hm', hseqNo', hfrm', rfl⟩ := exists_of_latest htxn
  exact mem_supporters.2 ⟨m'.txn, htxn, honly m' (h.mem_iff.1 hm') hseqNo' hfrm'⟩

/-- nothing is added if nothing has enough reports -/
theorem ledger_of_none (h : c₀.tempNodeTxns = Dict.empty) (hl : l.Perm reports)
    (hnone : ∀ text, (reporters numText reports (c₀.ledger.length + 1) text).card ≤ c₀.f) :
    (c₀.run numText l).ledger = c₀.ledger := by
  refine (unchanged_iff h l).2 fun p hp text => ?_
  refine (Finset.card_le_card ?_).trans (hnone text)
  exact supporters_subset.trans (reporters_mono fun m hm => hl.mem_iff.1 (hp.subset hm))

/-- one transaction is added, whatever the order -/
theorem texts_of_one (h : c₀.tempNodeTxns = Dict.empty) (hl : l.Perm reports)
    (honly : c₀.f < (onlyReporters numText reports (c₀.ledger.length + 1) text).card)
    (hother : ∀ text' ≠ text, (reporters numText reports (c₀.ledger.length + 1) text').card ≤ c₀.f)
    (hsecond : ∀ text', (reporters numText reports (c₀.ledger.length + 2) text').card ≤ c₀.f) :
    (c₀.run numText l).texts numText = c₀.texts numText ++ [text] := by
  obtain ⟨new, hnew, hreporters⟩ := (run_after numText h l).grown
  have hne : new ≠ [] := by
    rintro rfl
    rw [List.append_nil] at hnew
    have hle := (unchanged_iff h l).1 hnew l List.prefix_rfl text
    exact absurd (honly.trans_le (Finset.card_le_card (onlyReporters_subset hl))) (not_lt.2 hle)
  obtain ⟨txn, rest, rfl⟩ := List.exists_cons_of_ne_nil hne
  have htext : Json.dumps numText txn = text := by
    by_contra hdiffer
    have hlt := hreporters 0 txn rfl
    rw [reporters_perm hl] at hlt
    exact absurd hlt (not_lt.2 (hother _ hdiffer))
  have hrest : rest = [] := by
    refine List.eq_nil_iff_forall_not_mem.2 fun txn' htxn' => ?_
    cases rest with
    | nil => cases htxn'
    | cons txn' rest =>
      have hlt := hreporters 1 txn' rfl
      have hnumber : (((c₀.ledger.length + 1 : ℕ) : ℤ) + 1) = c₀.ledger.length + 2 := by
        push_cast
        ring
      rw [reporters_perm hl, hnumber] at hlt
      exact absurd hlt (not_lt.2 (hsecond _))
  unfold texts
  rw [hnew, hrest, List.map_append, List.map_cons, List.map_nil, htext]

/-- at most one transaction is to be added: the order does not matter -/
theorem orderFree_of_atMostOneReady (h : c₀.tempNodeTxns = Dict.empty) (hready : c₀.AtMostOneReady numText reports) :
    c₀.OrderFree numText reports := by
  rcases hready with hnone | ⟨text, honly, hother, hsecond⟩
  · refine ⟨fun l l' hl hl' => ?_, fun l hl i text hle hle' hlt => ?_⟩
    · unfold texts
      rw [ledger_of_none h hl hnone, ledger_of_none h hl' hnone]
    · rw [ledger_of_none h hl hnone] at hle'
      rw [Nat.le_antisymm hle' hle] at hlt
      exact absurd hlt (not_lt.2 (hnone text))
  · refine ⟨fun l l' hl hl' => ?_, fun l hl i text' hle hle' hlt => ?_⟩
    · rw [texts_of_one h hl honly hother hsecond, texts_of_one h hl' honly hother hsecond]
    · have htexts := texts_of_one h hl honly hother hsecond
      have hlength : (c₀.run numText l).ledger.length = c₀.ledger.length + 1 := by
        have hlength := congrArg List.length htexts
        unfold texts at hlength
        simpa using hlength
      rcases Nat.lt_or_eq_of_le hle' with hlt' | heq
      · have hi : i = c₀.ledger.length := by omega
        rw [hi] at hlt ⊢
        have htext : text' = text := by
          by_contra hdiffer
          exact absurd hlt (not_lt.2 (hother text' hdiffer))
        rw [htexts, htext, show c₀.ledger.length = (c₀.texts numText).length by simp [texts], List.getElem?_concat_length]
      · have hnumber : ((i : ℤ) + 1) = c₀.ledger.length + 2 := by
          rw [heq, hlength]
          push_cast
          ring
        rw [hnumber] at hlt
        exact absurd hlt (not_lt.2 (hsecond text'))

end Orders

/-! ## Orders that add different things -/

section Necessity

variable {l : List (PoolTxnReport ν)} {text : String}

theorem run_append (c : ClientPool ν) (l l' : List (PoolTxnReport ν)) :
    c.run numText (l ++ l') = (c.run numText l).run numText l' := List.foldl_append

variable (numText) in
theorem run_ledger_prefix (c : ClientPool ν) (l : List (PoolTxnReport ν)) : c.ledger <+: (c.run numText l).ledger := by
  induction l generalizing c with
  | nil => exact List.prefix_rfl
  | cons m l ih =>
    refine List.IsPrefix.trans ?_ (ih _)
    obtain ⟨-, ⟨hledger, -⟩ | ⟨-, ⟨txn, hledger, -⟩, -⟩⟩ := received_cases numText c m
    · rw [hledger]
    · rw [hledger]
      exact List.prefix_append _ _

/-- a transaction with enough reports is the one that is added, if they come first -/
theorem exists_order_adding (h : c₀.tempNodeTxns = Dict.empty)
    (hmany : c₀.f < (reporters numText reports (c₀.ledger.length + 1) text).card) :
    ∃ l : List (PoolTxnReport ν), l.Perm reports ∧
      ((c₀.run numText l).texts numText)[c₀.ledger.length]? = some text := by
  let p : PoolTxnReport ν → Bool := fun m => m.seqNo = c₀.ledger.length + 1 ∧ Json.dumps numText m.txn = text
  have htext : ∀ m ∈ reports.filter p, Json.dumps numText m.txn = text :=
    fun m hm => (of_decide_eq_true (List.mem_filter.1 hm).2 : _ ∧ _).2
  have hsub : reporters numText reports (c₀.ledger.length + 1) text ⊆
      supporters numText (reports.filter p) (c₀.ledger.length + 1) text := by
    intro node hnode
    obtain ⟨m, hm, hfrm, hseqNo, hfor⟩ := mem_reporters.1 hnode
    have hp : p m = true := decide_eq_true ⟨hseqNo, hfor⟩
    obtain ⟨txn, htxn⟩ := exists_latest (List.mem_filter.2 ⟨hm, hp⟩) hseqNo hfrm
    obtain ⟨m', hm', -, -, rfl⟩ := exists_of_latest htxn
    exact mem_supporters.2 ⟨m'.txn, htxn, htext m' hm'⟩
  obtain ⟨new, hnew, hreporters⟩ := (run_after numText h (reports.filter p)).grown
  have hne : new ≠ [] := by
    rintro rfl
    rw [List.append_nil] at hnew
    have hle := (unchanged_iff h _).1 hnew _ List.prefix_rfl text
    exact absurd (hmany.trans_le (Finset.card_le_card hsub)) (not_lt.2 hle)
  obtain ⟨txn, rest, rfl⟩ := List.exists_cons_of_ne_nil hne
  obtain ⟨node, hnode⟩ := Finset.card_pos.1 ((Nat.zero_le _).trans_lt (hreporters 0 txn rfl))
  obtain ⟨m, hm, -, -, hfor⟩ := mem_reporters.1 hnode
  refine ⟨_, List.filter_append_perm p reports, ?_⟩
  rw [run_append]
  obtain ⟨more, hmore⟩ := run_ledger_prefix numText (c₀.run numText (reports.filter p))
    (reports.filter fun m => !p m)
  unfold texts
  rw [← hmore, hnew, List.append_assoc, List.map_append, List.getElem?_append_right (by simp), List.length_map,
    Nat.sub_self, List.cons_append, List.map_cons, List.getElem?_cons_zero, ← hfor, htext m hm]

theorem run_length_le {n : ℕ} (c : ClientPool ν) (hlength : c.ledger.length ≤ n)
    (hl : ∀ m ∈ l, m.seqNo ≠ n + 1) : (c.run numText l).ledger.length ≤ n := by
  induction l generalizing c with
  | nil => exact hlength
  | cons m l ih =>
    refine ih _ ?_ fun m' hm' => hl m' (List.mem_cons_of_mem m hm')
    have hm := hl m List.mem_cons_self
    obtain ⟨-, ⟨hledger, -⟩ | ⟨hseqNo, ⟨txn, hledger, -⟩, -⟩⟩ := received_cases numText c m
    · rw [hledger]
      exact hlength
    · rw [hledger, List.length_append, List.length_singleton]
      have hne : c.ledger.length ≠ n := by
        rintro rfl
        exact hm hseqNo
      omega

variable (numText) in
/-- the reports for the second transaction come first: it is not added -/
theorem exists_order_late (h : c₀.tempNodeTxns = Dict.empty) (reports : List (PoolTxnReport ν)) :
    ∃ l : List (PoolTxnReport ν), l.Perm reports ∧ (c₀.run numText l).ledger.length ≤ c₀.ledger.length + 1 := by
  let p : PoolTxnReport ν → Bool := fun m => m.seqNo = c₀.ledger.length + 2
  have hfirst : (c₀.run numText (reports.filter p)).ledger = c₀.ledger := by
    refine (unchanged_iff h _).2 fun q hq text => ?_
    have hnone : reporters numText q (c₀.ledger.length + 1) text = ∅ := by
      refine Finset.eq_empty_of_forall_notMem fun node hnode => ?_
      obtain ⟨m, hm, -, hseqNo, -⟩ := mem_reporters.1 hnode
      have hsecond : m.seqNo = c₀.ledger.length + 2 := of_decide_eq_true (List.mem_filter.1 (hq.subset hm)).2
      omega
    refine (Finset.card_le_card supporters_subset).trans ?_
    rw [hnone]
    exact Nat.zero_le _
  refine ⟨_, List.filter_append_perm p reports, ?_⟩
  rw [run_append]
  refine run_length_le _ (by rw [hfirst]; omega) fun m hm hseqNo => ?_
  have hp : (!p m) = true := (List.mem_filter.1 hm).2
  rw [Bool.not_eq_true', decide_eq_false_iff_not] at hp
  exact hp (by push_cast at hseqNo; omega)

/-! The reports of a node that reports several things end with another one than `text`, before the next node begins. -/

section Alternating

variable (numText) (reports : List (PoolTxnReport ν)) (seqNo : ℤ) (text : String)

/-- the node has reported nothing but the text -/
def Only (node : NodeName) : Prop := ∀ m ∈ reports, m.seqNo = seqNo → m.frm = node → Json.dumps numText m.txn = text

instance (node : NodeName) : Decidable (Only numText reports seqNo text node) := by
  unfold Only
  infer_instance

/-- first the nodes that have reported several things, and of each of them the text first -/
def rank (m : PoolTxnReport ν) : ℕ ×ₗ (NodeName ×ₗ ℕ) :=
  toLex (if m.seqNo = seqNo then if Only numText reports seqNo text m.frm then 1 else 0 else 2,
    toLex (m.frm, if Json.dumps numText m.txn = text then 0 else 1))

def RankLE (m m' : PoolTxnReport ν) : Prop := rank numText reports seqNo text m ≤ rank numText reports seqNo text m'

instance : DecidableRel (RankLE numText reports seqNo text) := fun m m' =>
  inferInstanceAs (Decidable (rank numText reports seqNo text m ≤ rank numText reports seqNo text m'))

instance : Std.Total (RankLE numText reports seqNo text) := ⟨fun _ _ => le_total _ _⟩

instance : IsTrans (PoolTxnReport ν) (RankLE numText reports seqNo text) := ⟨fun _ _ _ => le_trans⟩

/-- all reports, in the order of their ranks -/
def alternating : List (PoolTxnReport ν) := reports.insertionSort (RankLE numText reports seqNo text)

variable {numText reports seqNo text} {p q : List (PoolTxnReport ν)} {node : NodeName}

/-- a node whose reports have all come does not support the text if it has reported something else -/
theorem not_mem_supporters (hp : p.Pairwise (RankLE numText reports seqNo text))
    (hother : ∃ m ∈ p, m.seqNo = seqNo ∧ m.frm = node ∧ Json.dumps numText m.txn ≠ text) :
    node ∉ supporters numText p seqNo text := by
  intro hnode
  obtain ⟨txn, htxn, htext⟩ := mem_supporters.1 hnode
  obtain ⟨m, hm, hseqNo, hfrm, hdiffer⟩ := hother
  obtain ⟨last, hlast, rfl⟩ := Option.map_eq_some_iff.1 htxn
  obtain ⟨hlastmem, hlastfor⟩ := List.mem_filter.1 (List.mem_of_getLast? hlast)
  rw [decide_eq_true_eq] at hlastfor
  have hmem : m ∈ p.filter fun m => m.seqNo = seqNo ∧ m.frm = node :=
    List.mem_filter.2 ⟨hm, decide_eq_true ⟨hseqNo, hfrm⟩⟩
  have hle : m = last ∨ RankLE numText reports seqNo text m last := by
    obtain ⟨before, hbefore⟩ := List.getLast?_eq_some_iff.1 hlast
    have hsorted := hp.sublist (List.filter_sublist (p := fun m => m.seqNo = seqNo ∧ m.frm = node))
    rw [hbefore] at hmem hsorted
    rcases List.mem_append.1 hmem with hmem | hmem
    · exact Or.inr ((List.pairwise_append.1 hsorted).2.2 m hmem last (List.mem_singleton_self last))
    · exact Or.inl (List.mem_singleton.1 hmem)
  rcases hle with rfl | hle
  · exact hdiffer htext
  · unfold RankLE rank at hle
    rw [hseqNo, hlastfor.1, hfrm, hlastfor.2, if_neg hdiffer, if_pos htext] at hle
    simp [Prod.Lex.toLex_le_toLex] at hle

theorem RankLE.only {m m' : PoolTxnReport ν} (h : RankLE numText reports seqNo text m m') (hseqNo : m.seqNo = seqNo)
    (hseqNo' : m'.seqNo = seqNo) (honly : Only numText reports seqNo text m.frm) :
    Only numText reports seqNo text m'.frm := by
  by_contra hnot
  unfold RankLE rank at h
  rw [if_pos hseqNo, if_pos honly, if_pos hseqNo', if_neg hnot] at h
  simp [Prod.Lex.toLex_le_toLex] at h

theorem RankLE.frm_le {m m' : PoolTxnReport ν} (h : RankLE numText reports seqNo text m m') (hseqNo : m.seqNo = seqNo)
    (hseqNo' : m'.seqNo = seqNo) (hnot : ¬ Only numText reports seqNo text m.frm)
    (hnot' : ¬ Only numText reports seqNo text m'.frm) : m.frm ≤ m'.frm := by
  unfold RankLE rank at h
  rw [if_pos hseqNo, if_neg hnot, if_pos hseqNo', if_neg hnot'] at h
  rcases Prod.Lex.toLex_le_toLex.1 h with hlt | ⟨-, h⟩
  · exact absurd hlt (lt_irrefl 0)
  · rcases Prod.Lex.toLex_le_toLex.1 h with hlt | ⟨heq, -⟩
    · exact hlt.le
    · exact heq.le

/-- at no moment do more nodes support the text than report nothing else, or than one -/
theorem supporters_alternating (hpq : alternating numText reports seqNo text = p ++ q) :
    supporters numText p seqNo text ⊆ onlyReporters numText reports seqNo text ∨
      (supporters numText p seqNo text).card ≤ 1 := by
  have hsorted : (p ++ q).Pairwise (RankLE numText reports seqNo text) :=
    hpq ▸ List.pairwise_insertionSort (RankLE numText reports seqNo text) reports
  obtain ⟨hp, -, hle⟩ := List.pairwise_append.1 hsorted
  have hmem : ∀ m, m ∈ p ∨ m ∈ q ↔ m ∈ reports := fun m => by
    rw [← List.mem_append, ← hpq]
    exact List.mem_insertionSort (RankLE numText reports seqNo text)
  -- a supporter that has reported something else has another report to come
  have hlate : ∀ node ∈ supporters numText p seqNo text, ¬ Only numText reports seqNo text node →
      ∃ m ∈ q, m.seqNo = seqNo ∧ m.frm = node := by
    intro node hnode honly
    unfold Only at honly
    push Not at honly
    obtain ⟨m, hm, hseqNo, hfrm, hdiffer⟩ := honly
    rcases (hmem m).2 hm with hin | hin
    · exact absurd hnode (not_mem_supporters hp ⟨m, hin, hseqNo, hfrm, hdiffer⟩)
    · exact ⟨m, hin, hseqNo, hfrm⟩
  by_cases hfirm : ∃ m ∈ p, m.seqNo = seqNo ∧ Only numText reports seqNo text m.frm
  · refine Or.inl fun node hnode => ?_
    obtain ⟨m, hm, hseqNo, honly⟩ := hfirm
    refine Finset.mem_filter.2 ⟨?_, ?_⟩
    · exact reporters_mono (fun m hm => (hmem m).1 (Or.inl hm)) (supporters_subset hnode)
    · by_contra hnot
      obtain ⟨m', hm', hseqNo', hfrm'⟩ := hlate node hnode hnot
      exact hnot (hfrm' ▸ (hle m hm m' hm').only hseqNo hseqNo' honly)
  · refine Or.inr (Finset.card_le_one.2 ?_)
    have hnotOnly : ∀ m ∈ p, m.seqNo = seqNo → ¬ Only numText reports seqNo text m.frm :=
      fun m hm hseqNo honly => hfirm ⟨m, hm, hseqNo, honly⟩
    have hnotlt : ∀ node ∈ supporters numText p seqNo text, ∀ node' ∈ supporters numText p seqNo text,
        ¬ node < node' := by
      intro node hnode node' hnode' hlt
      obtain ⟨b, hb, hbfrm, hbseqNo, -⟩ := mem_reporters.1 (supporters_subset hnode')
      obtain ⟨a, ha, hafrm, haseqNo, -⟩ := mem_reporters.1 (supporters_subset hnode)
      have hnot := hnotOnly a ha haseqNo
      rw [hafrm] at hnot
      obtain ⟨m, hm, hseqNo, rfl⟩ := hlate node hnode hnot
      have hle' := (hle b hb m hm).frm_le hbseqNo hseqNo (hnotOnly b hb hbseqNo) hnot
      rw [hbfrm] at hle'
      exact absurd hlt (not_lt.2 hle')
    intro node hnode node' hnode'
    rcases lt_trichotomy node node' with hlt | heq | hlt
    · exact absurd hlt (hnotlt node hnode node' hnode')
    · exact heq
    · exact absurd hlt (hnotlt node' hnode' node hnode)

end Alternating

/-- too few nodes have reported nothing else: there is an order in which nothing is added -/
theorem exists_order_adding_nothing (h : c₀.tempNodeTxns = Dict.empty)
    (hmany : c₀.f < (reporters numText reports (c₀.ledger.length + 1) text).card)
    (hother : ∀ text' ≠ text, (reporters numText reports (c₀.ledger.length + 1) text').card ≤ c₀.f)
    (honly : (onlyReporters numText reports (c₀.ledger.length + 1) text).card ≤ c₀.f) :
    ∃ l : List (PoolTxnReport ν), l.Perm reports ∧ (c₀.run numText l).ledger = c₀.ledger := by
  have hperm : (alternating numText reports (c₀.ledger.length + 1) text).Perm reports :=
    List.perm_insertionSort _ reports
  -- someone has reported something else, so `f` is not zero
  have hf : 1 ≤ c₀.f := by
    obtain ⟨node, hnode, hnot⟩ := Finset.exists_mem_notMem_of_card_lt_card (honly.trans_lt hmany)
    have hdiffer : ¬ ∀ m ∈ reports, m.seqNo = (c₀.ledger.length : ℤ) + 1 → m.frm = node →
        Json.dumps numText m.txn = text := fun hall => hnot (Finset.mem_filter.2 ⟨hnode, hall⟩)
    push Not at hdiffer
    obtain ⟨m, hm, hseqNo, hfrm, hdiffer⟩ := hdiffer
    exact (Finset.card_pos.2 ⟨node, mem_reporters.2 ⟨m, hm, hfrm, hseqNo, rfl⟩⟩).trans_le (hother _ hdiffer)
  refine ⟨_, hperm, (unchanged_iff h _).2 fun p hp text' => ?_⟩
  by_cases htext : text' = text
  · obtain ⟨q, hpq⟩ := hp
    rw [htext]
    rcases supporters_alternating hpq.symm with hsub | hone
    · exact (Finset.card_le_card hsub).trans honly
    · exact hone.trans hf
  · refine (Finset.card_le_card ?_).trans (hother text' htext)
    exact supporters_subset.trans (reporters_mono fun m hm => hperm.mem_iff.1 (hp.subset hm))

/-- only if at most one transaction is to be added the order does not matter -/
theorem atMostOneReady_of_orderFree (h : c₀.tempNodeTxns = Dict.empty) (hfree : c₀.OrderFree numText reports) :
    c₀.AtMostOneReady numText reports := by
  unfold AtMostOneReady
  refine or_iff_not_imp_left.2 fun hsome => ?_
  push Not at hsome
  obtain ⟨text, hmany⟩ := hsome
  -- what is added in one order is added in all of them
  have hadded : ∀ text', c₀.f < (reporters numText reports (c₀.ledger.length + 1) text').card → ∀ l, l.Perm reports →
      ((c₀.run numText l).texts numText)[c₀.ledger.length]? = some text' := by
    intro text' hmany' l hl
    obtain ⟨l', hl', htext'⟩ := exists_order_adding h hmany'
    rwa [hfree.same l l' hl hl']
  have hother : ∀ text' ≠ text, (reporters numText reports (c₀.ledger.length + 1) text').card ≤ c₀.f := by
    intro text' hdiffer
    by_contra hmany'
    have htext := hadded text hmany reports (List.Perm.refl _)
    rw [hadded text' (not_le.1 hmany') reports (List.Perm.refl _), Option.some.injEq] at htext
    exact hdiffer htext
  refine ⟨text, ?_, hother, fun text' => ?_⟩
  · by_contra honly
    obtain ⟨l, hl, hsame⟩ := exists_order_adding_nothing h hmany hother (not_lt.1 honly)
    have htext := hadded text hmany l hl
    unfold texts at htext
    rw [hsame, List.getElem?_eq_none (by simp)] at htext
    cases htext
  · by_contra hmany'
    obtain ⟨l, hl, hlength⟩ := exists_order_late numText h reports
    have hfirst := hadded text hmany l hl
    have hge : c₀.ledger.length < (c₀.run numText l).ledger.length := by
      obtain ⟨hlt, -⟩ := List.getElem?_eq_some_iff.1 hfirst
      unfold texts at hlt
      simpa using hlt
    have hsecond := hfree.added l hl (c₀.ledger.length + 1) text' (Nat.le_succ _) hge (by
      push_cast
      rw [add_assoc]
      exact not_le.1 hmany')
    obtain ⟨hlt, -⟩ := List.getElem?_eq_some_iff.1 hsecond
    unfold texts at hlt
    rw [List.length_map] at hlt
    omega

end Necessity

/-! ## The result -/

/-- **The pool ledger does not depend on the order** of the reports if and only if at most one transaction is to be
added. -/
theorem orderFree_iff (nodeRegSize : ℕ) (ledger : List (Value ν)) (reports : List (PoolTxnReport ν)) :
    (init nodeRegSize ledger).OrderFree numText reports ↔ (init nodeRegSize ledger).AtMostOneReady numText reports :=
  ⟨atMostOneReady_of_orderFree rfl, orderFree_of_atMostOneReady rfl⟩

/-! ## Witness -/

namespace TwoNodesAdded

def txn (name : String) : Value ℤ := .dict [("alias", .str name)]

/-- two nodes report the first transaction -/
def first : List (PoolTxnReport ℤ) := [⟨1, txn "Epsilon", "Alpha"⟩, ⟨1, txn "Epsilon", "Beta"⟩]

/-- and the second one -/
def second : List (PoolTxnReport ℤ) := [⟨2, txn "Zeta", "Alpha"⟩, ⟨2, txn "Zeta", "Beta"⟩]

end TwoNodesAdded

open TwoNodesAdded in
/-- where the second transaction is reported first, it is not added when the first one is -/
theorem votes_before_predecessor :
    ¬ (∀ reports : List (PoolTxnReport ℤ), (init 4 []).OrderFree toString reports) ∧
    ((init 4 []).run toString (first ++ second)).ledger.length = 2 ∧
    ((init 4 []).run toString (second ++ first)).ledger.length = 1 := by
  have hboth : ((init 4 []).run toString (first ++ second)).ledger.length = 2 := by decide +kernel
  have hone : ((init 4 []).run toString (second ++ first)).ledger.length = 1 := by decide +kernel
  refine ⟨fun h => ?_, hboth, hone⟩
  have hsame := (h (first ++ second)).same _ _ (List.Perm.refl _) List.perm_append_comm
  have hlength := congrArg List.length hsame
  unfold texts at hlength
  rw [List.length_map, List.length_map, hboth, hone] at hlength
  exact absurd hlength (by decide)

end ClientPool

end Plenum
