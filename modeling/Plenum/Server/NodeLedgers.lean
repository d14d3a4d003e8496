/-
The ledgers of a node while it takes part in a view: where their transactions come from, that what is committed stands, and
what clients are told of it. Nothing is asked of the other nodes or of the clients. The runs have no catch-up, which puts
transactions on a ledger by other means, and no view change.

- `NodeBooks`, `BookStep H`: what a node keeps of requests and transactions and what it tells others, and the single
  writes to it (`input_books`). `H` are the requests that the node has heard, each with the node it heard it from.
- `NodeBooks.Sourced`: every transaction was made of a request that was heard from more than `f + 1` nodes.
- `NodeBooks.Mono`: committed transactions stand, and the histories grow.
- `ledger_sourced`, `replies_stand`: so it is in every such run.
- `NodeBooks.Sound`: the root of a batch that was executed is the root of the transactions committed until then.
-/
import Mathlib.Tactic
import Plenum.Server.PropagateQuorum
import Plenum.Server.Execution
import Plenum.Server.OutwardSteps

namespace Plenum

open Plenum.Core Plenum.Core.Exec
open Relation (ReflTransGen)

variable {ω σ τ : Type}

/-! ## Requests that were heard -/

/-- requests that a node has heard, each with the node it heard it from -/
abbrev Hearings (ω : Type) := List (Request ω × NodeName)

/-- the nodes that a request was heard from -/
def voters [DecidableEq ω] (H : Hearings ω) (req : Request ω) : Finset NodeName :=
  ((H.filter fun c => c.1 = req).map Prod.snd).toFinset

/-- the PROPAGATEs stored were heard, and so was the finalised request, from more than `f + 1` nodes -/
structure ReqState.Heard [DecidableEq ω] (H : Hearings ω) (f : ℕ) (st : ReqState ω) : Prop where
  propagates : ∀ e ∈ st.propagates.entries, (e.2, e.1) ∈ H
  finalised : ∀ r, st.finalised = some r → f + 1 < (voters H r).card

/-- every request stored was heard -/
def Requests.Heard [DecidableEq ω] (H : Hearings ω) (f : ℕ) (rs : Requests ω) : Prop := ∀ e ∈ rs.entries, e.2.Heard H f

section Heard

variable [DecidableEq ω] {H H' : Hearings ω} {f : ℕ} {rs rs' : Requests ω} {st : ReqState ω} {req : Request ω}

theorem mem_voters {n : NodeName} : n ∈ voters H req ↔ (req, n) ∈ H := by
  unfold voters
  rw [List.mem_toFinset, List.mem_map]
  constructor
  · rintro ⟨c, hc, rfl⟩
    obtain ⟨hmem, heq⟩ := List.mem_filter.1 hc
    rw [← of_decide_eq_true heq]
    exact hmem
  · intro h
    exact ⟨(req, n), List.mem_filter.2 ⟨h, decide_eq_true rfl⟩, rfl⟩

theorem voters_mono (h : H ⊆ H') (req : Request ω) : voters H req ⊆ voters H' req :=
  fun _ hn => mem_voters.2 (h (mem_voters.1 hn))

/-- counting the stored PROPAGATEs of a request counts nodes that it was heard from -/
theorem count_propagates_le {d : Dict NodeName (Request ω)} (h : ∀ e ∈ d.entries, (e.2, e.1) ∈ H) (req : Request ω) :
    d.values.count req ≤ (voters H req).card := by
  rw [List.count, Dict.countP_values]
  refine Finset.card_le_card fun n hn => ?_
  obtain ⟨r, hr, heq⟩ := (Option.any_eq_true _ _).1 (Finset.mem_filter.1 hn).2
  rw [mem_voters, ← LawfulBEq.eq_of_beq heq]
  exact h _ (Dict.get?_eq_some.1 hr)

namespace ReqState.Heard

theorem mono (h : st.Heard H f) (hH : H ⊆ H') : st.Heard H' f :=
  ⟨fun e he => hH (h.propagates e he), fun r hr => (h.finalised r hr).trans_le (Finset.card_le_card (voters_mono hH r))⟩

theorem finalise (h : st.Heard H f) : (st.finalise (f + 1)).Heard H f := by
  unfold ReqState.finalise
  cases hfin : st.finalised with
  | some r => exact h
  | none =>
    refine ⟨h.propagates, fun r hr => ?_⟩
    exact (checkIfMoreThanFSameItems_eq_some hr).2.trans_le (count_propagates_le h.propagates r)

end ReqState.Heard

namespace Requests.Heard

theorem get (h : rs.Heard H f) {k : ReqKey} (hs : rs.get? k = some st) : st.Heard H f :=
  h (k, st) (Dict.get?_eq_some.1 hs)

theorem mono (h : rs.Heard H f) (hH : H ⊆ H') : rs.Heard H' f := fun e he => (h e he).mono hH

theorem set (h : rs.Heard H f) (k : ReqKey) (hs : st.Heard H f) : Requests.Heard H f (Dict.set rs k st) := by
  intro e he
  rcases Dict.mem_set.1 he with rfl | ⟨he, -⟩
  · exact hs
  · exact h e he

theorem update (h : rs.Heard H f) {k : ReqKey} {g : ReqState ω → ReqState ω}
    (hg : ∀ st : ReqState ω, st.Heard H f → (g st).Heard H f) : (rs.update k g).Heard H f := by
  unfold Requests.update
  cases hs : rs.get? k with
  | none => exact h
  | some st => exact h.set k (hg st (h.get hs))

theorem add (h : rs.Heard H f) (req : Request ω) : (rs.add req).Heard H f := by
  unfold Requests.add
  split_ifs
  · exact h
  · exact h.set _ ⟨(by intro e he; cases he), (by intro r hr; cases hr)⟩

theorem addPropagate (h : rs.Heard H f) {sender : NodeName} (hheard : (req, sender) ∈ H) :
    (rs.addPropagate req sender).Heard H f := by
  refine (h.add req).update fun st hs => ⟨fun e he => ?_, hs.finalised⟩
  rcases Dict.mem_set.1 he with rfl | ⟨he, -⟩
  · exact hheard
  · exact hs.propagates e he

theorem flagAsForwarded (h : rs.Heard H f) (req : Request ω) (count : ℕ) : (rs.flagAsForwarded req count).Heard H f :=
  h.update fun _ hs => ⟨hs.propagates, hs.finalised⟩

theorem canForward (h : rs.Heard H f) (req : Request ω) : (rs.canForward req (f + 1)).2.Heard H f := by
  unfold Requests.canForward
  cases hs : rs.get? req.key with
  | none => exact h
  | some st =>
    dsimp only
    split_ifs
    · exact h
    · exact h.set _ (h.get hs).finalise

theorem release (h : rs.Heard H f) {k : ReqKey} (hr : rs.release k = some rs') : rs'.Heard H f := by
  obtain ⟨st, hs, rfl⟩ := Option.map_eq_some_iff.1 hr
  split_ifs
  · exact fun e he => h e (Dict.mem_erase.1 he).1
  · exact h.set _ ⟨(h.get hs).propagates, (h.get hs).finalised⟩

theorem finalised? (h : rs.Heard H f) {k : ReqKey} (hr : rs.finalised? k = some req) : f + 1 < (voters H req).card := by
  obtain ⟨st, hs, hfin⟩ := Option.bind_eq_some_iff.1 hr
  exact (h.get hs).finalised req hfin

end Requests.Heard

end Heard

/-! ## The books of a node -/

namespace Dbs

/-- a transaction stands on a ledger, committed or not -/
def Contains (dbs : Dbs σ τ) (lid : LedgerId) (txn : τ) : Prop :=
  txn ∈ (dbs.ledgers.get lid).txns ∨ txn ∈ (dbs.ledgers.get lid).uncommittedTxns

/-- a transaction is committed under its `seqNo` -/
def Committed (dbs : Dbs σ τ) (txn : τ) (seqNo : ℕ) : Prop :=
  ∃ lid n, seqNo = n + 1 ∧ (dbs.ledgers.get lid).txns[n]? = some txn

/-- the first transactions of a ledger have the root that a batch was ordered with -/
def HasRoot (env : Env ω σ τ) (dbs : Dbs σ τ) (o : Ordered) : Prop :=
  ∃ txns, txns <+: (dbs.ledgers.get o.ledgerId).txns ∧ o.txnRootHash = some (env.merkleRoot txns)

end Dbs

structure NodeBooks (ω σ τ : Type) where
  name : NodeName
  f : ℕ
  requests : Requests ω
  dbs : Dbs σ τ
  processed : List (Ordered × Option Bool)
  sent : List (NodeMsg ω)
  toClients : List (ClientMsg τ × String)

def RunningNode.books (s : RunningNode ω σ τ) : NodeBooks ω σ τ :=
  ⟨s.node.name, s.node.f, s.node.requests, s.node.dbs, s.processed, s.sent, s.toClients⟩

def NodeBooks.shared (b : NodeBooks ω σ τ) : Shared ω σ τ := ⟨b.requests, b.dbs⟩

/-- the single writes of a node that has heard `H` -/
inductive BookStep [DecidableEq ω] (env : Env ω σ τ) (H : Hearings ω) : NodeBooks ω σ τ → NodeBooks ω σ τ → Prop
  | add {b} (req) : BookStep env H b { b with requests := b.requests.add req }
  | addPropagate {b} (req sender) (h : (req, sender) ∈ H) :
      BookStep env H b { b with requests := b.requests.addPropagate req sender }
  | canForward {b} (req) : BookStep env H b { b with requests := (b.requests.canForward req (b.f + 1)).2 }
  | flagAsForwarded {b} (req count) : BookStep env H b { b with requests := b.requests.flagAsForwarded req count }
  | propagate {b} (req client) (h : (req, b.name) ∈ H) :
      BookStep env H b { b with sent := b.sent ++ [.propagate req client] }
  | send {b} (m) (h : ∀ req client, m ≠ .propagate req client) : BookStep env H b { b with sent := b.sent ++ [m] }
  | tell {b} (m client) (h : ∀ txn seqNo time, m = .reply txn seqNo time → b.dbs.Committed txn seqNo) :
      BookStep env H b { b with toClients := b.toClients ++ [(m, client)] }
  | commit {b} (lid count) : BookStep env H b
      { b with dbs := { b.dbs with ledgers := b.dbs.ledgers.set lid ((b.dbs.ledgers.get lid).commitTxns count).1 } }
  | commitState {b} (states) : BookStep env H b { b with dbs := { b.dbs with states := states } }
  | process {b} (o r) (h : o.instId = 0 → r = some true → b.dbs.HasRoot env o) :
      BookStep env H b { b with processed := b.processed ++ [(o, r)] }
  | service {b sh} (h : ReflTransGen (SharedStep env) b.shared sh) :
      BookStep env H b { b with requests := sh.requests, dbs := sh.dbs }

/-! ## What is committed stands -/

namespace NodeBooks

/-- `b'` extends `b`: committed transactions stand, the histories grow -/
structure Mono (b b' : NodeBooks ω σ τ) : Prop where
  name : b'.name = b.name
  f : b'.f = b.f
  txns : ∀ lid, (b.dbs.ledgers.get lid).txns <+: (b'.dbs.ledgers.get lid).txns
  processed : b.processed <+: b'.processed
  sent : b.sent <+: b'.sent
  toClients : b.toClients <+: b'.toClients

theorem Mono.refl (b : NodeBooks ω σ τ) : Mono b b :=
  ⟨rfl, rfl, fun _ => List.prefix_refl _, List.prefix_refl _, List.prefix_refl _, List.prefix_refl _⟩

theorem Mono.trans {b b' b'' : NodeBooks ω σ τ} (h : Mono b b') (h' : Mono b' b'') : Mono b b'' :=
  ⟨h'.name.trans h.name, h'.f.trans h.f, fun lid => (h.txns lid).trans (h'.txns lid), h.processed.trans h'.processed,
    h.sent.trans h'.sent, h.toClients.trans h'.toClients⟩

end NodeBooks

theorem Dbs.Committed.mono {dbs dbs' : Dbs σ τ} {txn : τ} {seqNo : ℕ} (h : dbs.Committed txn seqNo)
    (hmono : ∀ lid, (dbs.ledgers.get lid).txns <+: (dbs'.ledgers.get lid).txns) : dbs'.Committed txn seqNo := by
  obtain ⟨lid, n, hn, htxn⟩ := h
  obtain ⟨rest, hrest⟩ := hmono lid
  refine ⟨lid, n, hn, ?_⟩
  rw [← hrest, List.getElem?_append_left (List.getElem?_eq_some_iff.1 htxn).1]
  exact htxn

theorem Dbs.HasRoot.mono {env : Env ω σ τ} {dbs dbs' : Dbs σ τ} {o : Ordered} (h : dbs.HasRoot env o)
    (hmono : ∀ lid, (dbs.ledgers.get lid).txns <+: (dbs'.ledgers.get lid).txns) : dbs'.HasRoot env o := by
  obtain ⟨txns, hpre, hroot⟩ := h
  exact ⟨txns, hpre.trans (hmono _), hroot⟩

section Steps

variable [DecidableEq ω] {env : Env ω σ τ} {H : Hearings ω} {b b' : NodeBooks ω σ τ}

theorem BookStep.mono (hs : BookStep env H b b') : NodeBooks.Mono b b' := by
  have hsame : ∀ lid, (b.dbs.ledgers.get lid).txns <+: (b.dbs.ledgers.get lid).txns := fun _ => List.prefix_refl _
  have hrefl := NodeBooks.Mono.refl b
  cases hs with
  | propagate req client => exact { hrefl with sent := List.prefix_append _ _ }
  | send m => exact { hrefl with sent := List.prefix_append _ _ }
  | tell m client => exact { hrefl with toClients := List.prefix_append _ _ }
  | process o r => exact { hrefl with processed := List.prefix_append _ _ }
  | commit lid count =>
    refine { hrefl with txns := fun lid' => ?_ }
    dsimp only
    rw [PerLedger.get_set]
    split_ifs with hl
    · rw [hl]; exact List.prefix_append _ _
    · exact List.prefix_refl _
  | @service sh hsh =>
    refine { hrefl with txns := fun lid => ?_ }
    have hsame : (sh.dbs.ledgers.get lid).txns = (b.dbs.ledgers.get lid).txns :=
      stable_of_steps (I := fun sh' : Shared ω σ τ => (sh'.dbs.ledgers.get lid).txns = (b.dbs.ledgers.get lid).txns)
        (fun _ _ hstep h => (hstep.committed lid).trans h) hsh rfl
    dsimp only
    rw [hsame]
  | _ => exact ⟨rfl, rfl, fun _ => List.prefix_refl _, List.prefix_refl _, List.prefix_refl _, List.prefix_refl _⟩

theorem mono_of_steps (hs : ReflTransGen (BookStep env H) b b') : NodeBooks.Mono b b' :=
  stable_of_steps (I := NodeBooks.Mono b) (fun _ _ hstep h => h.trans hstep.mono) hs (NodeBooks.Mono.refl b)

/-- the replies to clients carry committed transactions, and the batches executed have their roots -/
structure NodeBooks.Sound (env : Env ω σ τ) (b : NodeBooks ω σ τ) : Prop where
  replies : ∀ txn seqNo time client, (.reply txn seqNo time, client) ∈ b.toClients → b.dbs.Committed txn seqNo
  executed : ∀ o, (o, some true) ∈ b.processed → o.instId = 0 → b.dbs.HasRoot env o

theorem BookStep.sound (hs : BookStep env H b b') (h : b.Sound env) : b'.Sound env := by
  have hmono := hs.mono.txns
  have hreplies : ∀ txn seqNo time client, (.reply txn seqNo time, client) ∈ b.toClients → b'.dbs.Committed txn seqNo :=
    fun txn seqNo time client hm => (h.replies txn seqNo time client hm).mono hmono
  have hexecuted : ∀ o, (o, some true) ∈ b.processed → o.instId = 0 → b'.dbs.HasRoot env o :=
    fun o ho hmaster => (h.executed o ho hmaster).mono hmono
  cases hs with
  | tell m client htold =>
    refine ⟨fun txn seqNo time client' hm => ?_, hexecuted⟩
    rcases List.mem_append.1 hm with hm | hm
    · exact hreplies txn seqNo time client' hm
    · cases List.mem_singleton.1 hm
      exact htold txn seqNo time rfl
  | process o r hroot =>
    refine ⟨hreplies, fun o' ho' hmaster => ?_⟩
    rcases List.mem_append.1 ho' with ho' | ho'
    · exact hexecuted o' ho' hmaster
    · cases List.mem_singleton.1 ho'
      exact hroot hmaster rfl
  | _ => exact ⟨hreplies, hexecuted⟩

/-! ## Where transactions come from -/

/-- the transaction stood on the ledger at the start, or was made of a request heard from more than `f + 1` nodes -/
def Source (env : Env ω σ τ) (H : Hearings ω) (f : ℕ) (dbs : Dbs σ τ) (lid : LedgerId) (txn : τ) : Prop :=
  dbs.Contains lid txn ∨
    ∃ req dbs', env.ledgerIdForRequest req = lid ∧ txn = (env.apply dbs' req).1 ∧ f + 1 < (voters H req).card

/-- every request was heard, and every transaction has its source -/
structure Shared.Sourced (env : Env ω σ τ) (H : Hearings ω) (f : ℕ) (dbs : Dbs σ τ) (sh : Shared ω σ τ) : Prop where
  requests : sh.requests.Heard H f
  txns : ∀ lid txn, sh.dbs.Contains lid txn → Source env H f dbs lid txn

theorem mem_dropLastSlice {α : Type} {l : List α} {count : ℕ} {a : α} (h : a ∈ dropLastSlice l count) : a ∈ l := by
  unfold dropLastSlice at h
  split_ifs at h
  · cases h
  · exact List.mem_of_mem_take h

variable {f : ℕ} {dbs : Dbs σ τ}

theorem SharedStep.sourced {sh sh' : Shared ω σ τ} (hs : SharedStep env sh sh') (h : sh.Sourced env H f dbs) :
    sh'.Sourced env H f dbs := by
  cases hs with
  | @apply requests dbs' key req hfin =>
    refine ⟨h.requests, fun lid txn hc => ?_⟩
    by_cases hl : lid = env.ledgerIdForRequest req
    · have hget : (dbs'.applyReq env req).ledgers.get lid =
          (dbs'.ledgers.get lid).appendTxns env.merkleRoot [(env.apply dbs' req).1] := by
        rw [hl]
        exact PerLedger.get_set_self _ _ _
      unfold Dbs.Contains at hc
      dsimp only at hc
      rw [hget, Ledger.appendTxns_txns, Ledger.appendTxns_uncommittedTxns, List.mem_append, List.mem_singleton] at hc
      rcases hc with hc | hc | rfl
      · exact h.txns lid txn (Or.inl hc)
      · exact h.txns lid txn (Or.inr hc)
      · exact Or.inr ⟨req, dbs', hl.symm, rfl, h.requests.finalised? hfin⟩
    · have hget : (dbs'.applyReq env req).ledgers.get lid = dbs'.ledgers.get lid := PerLedger.get_set_ne _ _ hl
      unfold Dbs.Contains at hc
      dsimp only at hc
      rw [hget] at hc
      exact h.txns lid txn hc
  | @revert requests dbs' lid' root count =>
    refine ⟨h.requests, fun lid txn hc => h.txns lid txn ?_⟩
    unfold Dbs.Contains Dbs.revert at hc
    dsimp only at hc
    rw [PerLedger.get_set] at hc
    split_ifs at hc with hl
    · rw [Ledger.discardTxns_txns, Ledger.discardTxns_uncommittedTxns] at hc
      rw [hl]
      exact hc.imp id mem_dropLastSlice
    · exact hc
  | release key hrel => exact ⟨h.requests.release hrel, h.txns⟩

/-- the books of a node that has heard `H` and started with the databases `dbs` -/
structure NodeBooks.Sourced (env : Env ω σ τ) (H : Hearings ω) (dbs : Dbs σ τ) (b : NodeBooks ω σ τ) : Prop where
  shared : b.shared.Sourced env H b.f dbs
  sent : ∀ req client, .propagate req client ∈ b.sent → (req, b.name) ∈ H

/-- **A step keeps the sources.** -/
theorem BookStep.sourced (hs : BookStep env H b b') (h : b.Sourced env H dbs) : b'.Sourced env H dbs := by
  have hreq : b.requests.Heard H b.f := h.shared.requests
  cases hs with
  | add req => exact ⟨⟨hreq.add req, h.shared.txns⟩, h.sent⟩
  | addPropagate req sender hheard => exact ⟨⟨hreq.addPropagate hheard, h.shared.txns⟩, h.sent⟩
  | canForward req => exact ⟨⟨hreq.canForward req, h.shared.txns⟩, h.sent⟩
  | flagAsForwarded req count => exact ⟨⟨hreq.flagAsForwarded req count, h.shared.txns⟩, h.sent⟩
  | propagate req client hheard =>
    refine ⟨h.shared, fun req' client' hm => ?_⟩
    rcases List.mem_append.1 hm with hm | hm
    · exact h.sent req' client' hm
    · cases List.mem_singleton.1 hm
      exact hheard
  | send m hm =>
    refine ⟨h.shared, fun req client hmem => ?_⟩
    rcases List.mem_append.1 hmem with hmem | hmem
    · exact h.sent req client hmem
    · exact absurd (List.mem_singleton.1 hmem).symm (hm req client)
  | commit lid count =>
    refine ⟨⟨hreq, fun lid' txn hc => h.shared.txns lid' txn ?_⟩, h.sent⟩
    unfold Dbs.Contains NodeBooks.shared at hc
    dsimp only at hc
    rw [PerLedger.get_set] at hc
    split_ifs at hc with hl
    · subst hl
      rcases hc with hc | hc
      · rcases List.mem_append.1 hc with hc | hc
        · exact Or.inl hc
        · exact Or.inr (List.mem_of_mem_take hc)
      · exact Or.inr (List.mem_of_mem_drop hc)
    · exact hc
  | @service sh hsh =>
    exact ⟨stable_of_steps (I := fun sh => sh.Sourced env H b.f dbs) (fun _ _ hstep h => hstep.sourced h) hsh h.shared,
      h.sent⟩
  | _ => exact ⟨⟨hreq, h.shared.txns⟩, h.sent⟩

theorem NodeBooks.Sourced.mono {H' : Hearings ω} (h : b.Sourced env H dbs) (hH : H ⊆ H') : b.Sourced env H' dbs where
  shared := ⟨h.shared.requests.mono hH, fun lid txn hc => (h.shared.txns lid txn hc).imp id
    fun ⟨req, dbs', hl, ht, hv⟩ => ⟨req, dbs', hl, ht, hv.trans_le (Finset.card_le_card (voters_mono hH req))⟩⟩
  sent req client hm := hH (h.sent req client hm)

end Steps

/-! ## What the methods of a node write -/

/-- the requests that an input brings, each with the node it counts for: its sender, and the node itself -/
def NodeInput.hearings (name : NodeName) : NodeInput ω → Hearings ω
  | .nodeMsg (.propagate req _) frm => [(req, frm), (req, name)]
  | .request req _ => [(req, name)]
  | _ => []

namespace RunningNode

variable [DecidableEq ω] {env : NodeEnv ω σ τ} {H : Hearings ω} {s : RunningNode ω σ τ}

/-- the write `g` is a step of the books -/
theorem book_write {g : RunningNode ω σ τ → RunningNode ω σ τ} (h : BookStep env.toEnv H s.books (g s).books) :
    Follows (Via books (BookStep env.toEnv H)) (modify g : NodeM ω σ τ PUnit) s fun _ s' => s' = g s := Via.write h

/-- the write `g` does not touch the books -/
theorem book_quiet {g : RunningNode ω σ τ → RunningNode ω σ τ} (h : (g s).books = s.books) :
    Follows (Via books (BookStep env.toEnv H)) (modify g : NodeM ω σ τ PUnit) s fun _ _ => True :=
  (Via.quiet h).mono fun _ _ _ _ => trivial

theorem name_of_steps {s' : RunningNode ω σ τ} (h : ReflTransGen (Via books (BookStep env.toEnv H)) s s') :
    s'.node.name = s.node.name := (mono_of_steps (Via.steps h)).name

theorem ensureProcessingReq_books (key : ReqKey) (frm : String) :
    Follows (Via books (BookStep env.toEnv H)) (ensureProcessingReq key frm : NodeM ω σ τ Unit) s fun _ _ => True := by
  unfold ensureProcessingReq
  exact Follows.get_seq (Follows.cond (fun _ => Follows.ret trivial) fun _ => book_quiet rfl)

theorem doneProcessingReq_books (key : ReqKey) :
    Follows (Via books (BookStep env.toEnv H)) (doneProcessingReq key : NodeM ω σ τ Unit) s fun _ _ => True := by
  unfold doneProcessingReq
  exact Follows.get_seq (Follows.cond (fun _ => book_quiet rfl) fun _ => Follows.raise _)

theorem transmitToClient_books (m : ClientMsg τ) (client : String)
    (h : ∀ txn seqNo time, m = .reply txn seqNo time → s.node.dbs.Committed txn seqNo) :
    Follows (Via books (BookStep env.toEnv H)) (transmitToClient m client : NodeM ω σ τ Unit) s fun _ _ => True :=
  (book_write (.tell (b := s.books) m client h)).mono fun _ _ _ _ => trivial

theorem propagate_books (request : Request ω) (clientName : String) (hH : (request, s.node.name) ∈ H) :
    Follows (Via books (BookStep env.toEnv H)) (propagate request clientName : NodeM ω σ τ Unit) s fun _ _ => True := by
  unfold propagate
  refine Follows.get_seq (Follows.cond (fun _ => Follows.ret trivial) fun _ => ?_)
  refine (book_write (.addPropagate (b := s.books) request s.node.name hH)).seq fun _ s' _ hs' => ?_
  have hH' : (request, s'.node.name) ∈ H := by rw [hs']; exact hH
  refine Follows.cond (fun _ => ?_) fun _ => Follows.ret trivial
  exact (book_write (.propagate (b := s'.books) request clientName hH')).mono fun _ _ _ _ => trivial

theorem tryForwarding_books (request : Request ω) :
    Follows (Via books (BookStep env.toEnv H)) (tryForwarding request : NodeM ω σ τ Unit) s fun _ _ => True := by
  unfold tryForwarding
  refine Follows.get_seq ?_
  dsimp only
  refine (book_write (.canForward (b := s.books) request)).seq fun _ s' _ _ => ?_
  refine Follows.cond (fun _ => ?_) fun _ => Follows.ret trivial
  exact (book_write (.flagAsForwarded (b := s'.books) request _)).mono fun _ _ _ _ => trivial

theorem recordAndPropagate_books (request : Request ω) (clientName : String) (hH : (request, s.node.name) ∈ H) :
    Follows (Via books (BookStep env.toEnv H)) (recordAndPropagate request clientName : NodeM ω σ τ Unit) s
      fun _ _ => True := by
  unfold recordAndPropagate
  refine (book_write (.add (b := s.books) request)).seq fun _ s' _ hs' => ?_
  have hH' : (request, s'.node.name) ∈ H := by rw [hs']; exact hH
  exact (propagate_books request clientName hH').seq fun _ s'' _ _ => tryForwarding_books request

theorem processPropagate_books (request : Request ω) (clientName : String) (frm : NodeName)
    (hfrm : (request, frm) ∈ H) (hH : (request, s.node.name) ∈ H) :
    Follows (Via books (BookStep env.toEnv H)) (processPropagate request clientName frm : NodeM ω σ τ Unit) s
      fun _ _ => True := by
  unfold processPropagate
  refine (ensureProcessingReq_books _ _).seq fun _ s1 hs1 _ => ?_
  refine (book_write (.addPropagate (b := s1.books) request frm hfrm)).seq fun _ s2 hs2 _ => ?_
  have hname : s2.node.name = s.node.name := name_of_steps (hs1.trans hs2)
  exact (propagate_books request clientName (by rw [hname]; exact hH)).seq fun _ s3 _ _ => tryForwarding_books request

omit [DecidableEq ω] in
/-- the reply found in a ledger is committed there -/
theorem committed_of_getReplyFromLedger {lid : LedgerId} {request : Request ω} {txn : τ} {seqNo : ℕ}
    (h : s.getReplyFromLedger env (s.node.dbs.ledgers.get lid) request = some (txn, seqNo)) :
    s.node.dbs.Committed txn seqNo := by
  unfold getReplyFromLedger at h
  split at h
  · rename_i n _
    obtain ⟨t, ht, he⟩ := Option.map_eq_some_iff.1 h
    cases he
    exact ⟨lid, n, rfl, ht⟩
  · have hmem := List.mem_of_find?_eq_some h
    rw [List.mk_mem_zipIdx_iff_le_and_getElem?_sub] at hmem
    exact ⟨lid, seqNo - 1, (Nat.sub_add_cancel hmem.1).symm, hmem.2⟩

theorem processRequest_books (request : Request ω) (frm : String) (hH : (request, s.node.name) ∈ H) :
    Follows (Via books (BookStep env.toEnv H)) (processRequest env request frm) s fun _ _ => True := by
  unfold processRequest
  refine Follows.get_seq ?_
  dsimp only
  cases hreply : s.getReplyFromLedger env (s.node.dbs.ledgers.get (env.ledgerIdForRequest request)) request with
  | some reply =>
    refine transmitToClient_books _ _ fun txn seqNo time hm => ?_
    cases hm
    exact committed_of_getReplyFromLedger hreply
  | none =>
    refine (ensureProcessingReq_books _ _).seq fun _ s1 hs1 _ => ?_
    have hname : s1.node.name = s.node.name := name_of_steps hs1
    refine (recordAndPropagate_books request frm (by rw [hname]; exact hH)).seq fun _ s2 _ _ => ?_
    exact transmitToClient_books _ _ fun _ _ _ hm => by cases hm

theorem sendToReplica_books (m : InMsg) :
    Follows (Via books (BookStep env.toEnv H)) (sendToReplica m : NodeM ω σ τ Unit) s fun _ _ => True := by
  have hinst : Follows (Via books (BookStep env.toEnv H)) (msgHasAcceptableInstId m : NodeM ω σ τ Bool) s
      fun _ _ => True := by
    unfold msgHasAcceptableInstId
    refine Follows.get_seq (Follows.cond (fun _ => ?_) fun _ => Follows.ret trivial)
    exact (book_quiet rfl).seq fun _ _ _ _ => Follows.ret trivial
  have hview : ∀ s, Follows (Via books (BookStep env.toEnv H)) (msgHasAcceptableViewNo m : NodeM ω σ τ Bool) s
      fun _ _ => True := by
    intro s
    unfold msgHasAcceptableViewNo
    refine Follows.get_seq (Follows.cond (fun _ => Follows.ret trivial) fun _ => ?_)
    refine Follows.cond (fun _ => ?_) fun _ => Follows.ret trivial
    exact (book_quiet rfl).seq fun _ _ _ _ => Follows.ret trivial
  unfold sendToReplica
  refine hinst.seq fun _ s1 _ _ => Follows.cond (fun _ => ?_) fun _ => Follows.ret trivial
  exact (hview s1).seq fun _ s2 _ _ => Follows.cond (fun _ => book_quiet rfl) fun _ => Follows.ret trivial

theorem deliverMsgs_books (limit : Option ℕ) (idxs : List ℕ) (msgCount : ℕ) :
    Follows (Via books (BookStep env.toEnv H)) (deliverMsgs env limit idxs msgCount) s fun _ _ => True := by
  have hdeliver : ∀ idx s, Follows (Via books (BookStep env.toEnv H)) (deliverMsg env idx) s fun _ _ => True := by
    intro idx s
    unfold deliverMsg
    refine Follows.get_seq ?_
    split
    · exact book_quiet rfl
    · exact Follows.raise _
  induction idxs generalizing s msgCount with
  | nil => exact Follows.ret trivial
  | cons idx idxs ih =>
    rw [deliverMsgs]
    refine Follows.get_seq ?_
    dsimp only
    exact (repeatM_follows (hdeliver idx) _).seq fun _ s' _ _ => ih _

/-! ## Executing a batch -/

/-- the transactions returned are committed under their `seqNo`, and the root is the agreed one -/
theorem commit_books (lid : LedgerId) (reqCount : ℕ) (stateRoot txnRoot : Option String) :
    Follows (Via books (BookStep env.toEnv H)) (commit env lid reqCount stateRoot txnRoot) s fun txns s' =>
      (∀ e ∈ txns, s'.node.dbs.Committed e.1 e.2) ∧
        txnRoot = some (env.merkleRoot (s'.node.dbs.ledgers.get lid).txns) := by
  unfold commit
  refine Follows.get_seq ?_
  refine (book_write (.commit (b := s.books) lid reqCount)).seq fun _ s1 _ hs1 => ?_
  split
  · rename_i stateRoot txnRoot
    refine Follows.cond (fun _ => Follows.raise _) fun hroot => ?_
    refine (book_write (.commitState (b := s1.books) _)).seq fun _ s2 _ hs2 => Follows.ret ?_
    have hledger : s2.node.dbs.ledgers.get lid = ((s.node.dbs.ledgers.get lid).commitTxns reqCount).1 := by
      rw [hs2, hs1]
      exact PerLedger.get_set_self _ _ _
    rw [hledger]
    refine ⟨fun e he => ?_, congrArg some (not_not.1 hroot).symm⟩
    obtain ⟨hle, hget⟩ := List.mk_mem_zipIdx_iff_le_and_getElem?_sub.1 he
    refine ⟨lid, e.2 - 1, (Nat.sub_add_cancel ((Nat.le_add_left 1 _).trans hle)).symm, ?_⟩
    rw [hledger]
    change ((s.node.dbs.ledgers.get lid).txns ++ _)[e.2 - 1]? = _
    rw [List.getElem?_append_right (by omega), ← hget]
    congr 1
    omega
  · exact Follows.raise _

theorem sendReplyToClient_books (reply : ClientMsg τ) (key : ReqKey)
    (h : ∀ txn seqNo time, reply = .reply txn seqNo time → s.node.dbs.Committed txn seqNo) :
    Follows (Via books (BookStep env.toEnv H)) (sendReplyToClient reply key : NodeM ω σ τ Unit) s fun _ _ => True := by
  unfold sendReplyToClient
  refine Follows.get_seq ?_
  split
  · exact (transmitToClient_books _ _ h).seq fun _ _ _ _ => doneProcessingReq_books key
  · exact Follows.ret trivial

theorem executeBatch_books (o : Ordered) (reqs : List (Request ω)) :
    Follows (Via books (BookStep env.toEnv H)) (executeBatch env o.ppSeqNo o.ppTime reqs o.ledgerId o.stateRootHash
      o.txnRootHash) s fun _ s' => s'.node.dbs.HasRoot env.toEnv o := by
  have hkeep : ∀ {s s' : RunningNode ω σ τ}, ReflTransGen (Via books (BookStep env.toEnv H)) s s' →
      ∀ lid, (s.node.dbs.ledgers.get lid).txns <+: (s'.node.dbs.ledgers.get lid).txns :=
    fun hs => (mono_of_steps (Via.steps hs)).txns
  have hcommit : Follows (Via books (BookStep env.toEnv H)) (commitAndSendReplies env o.ledgerId o.ppTime reqs
      o.stateRootHash o.txnRootHash) s fun _ s' => s'.node.dbs.HasRoot env.toEnv o := by
    unfold commitAndSendReplies
    refine (commit_books o.ledgerId reqs.length o.stateRootHash o.txnRootHash).seq fun txns s1 _ h1 => ?_
    obtain ⟨htxns, hroot⟩ := h1
    have hroot1 : s1.node.dbs.HasRoot env.toEnv o := ⟨_, List.prefix_refl _, hroot⟩
    refine Follows.seq (Q := fun _ s2 => s2.node.dbs = s1.node.dbs)
      ((Via.quiet rfl).mono fun _ _ _ h => by rw [h]) fun _ s2 _ h2 => ?_
    refine Follows.seq (Q := fun _ _ => True) ?_ fun _ s3 hs3 _ => Follows.ret ?_
    · refine Follows.each fun e he s3 hs3 => sendReplyToClient_books _ _ fun txn seqNo time hm => ?_
      cases hm
      exact (htxns e he).mono fun lid => by rw [← h2]; exact hkeep hs3 lid
    · exact hroot1.mono fun lid => by rw [← h2]; exact hkeep hs3 lid
  unfold executeBatch
  refine hcommit.seq fun txns s1 _ h1 => ?_
  split
  · exact (Via.quiet rfl).mono fun _ _ _ h => by rw [h]; exact h1
  · exact Follows.ret h1

theorem processOrdered_books (o : Ordered) :
    Follows (Via books (BookStep env.toEnv H)) (processOrdered env o) s fun r s' =>
      o.instId = 0 → r = some true → s'.node.dbs.HasRoot env.toEnv o := by
  unfold processOrdered
  refine Follows.cond (fun hmaster => Follows.get_seq ?_) fun hbackup => ?_
  · refine Follows.cond (fun _ => ?_) fun _ => Follows.ret fun _ hr => by cases hr
    exact (executeBatch_books o _).seq fun _ s1 _ h1 => Follows.ret fun _ _ => h1
  · exact Follows.ret fun hmaster => absurd hmaster hbackup

theorem handleOutMsg_books (m : OutMsg) :
    Follows (Via books (BookStep env.toEnv H)) (handleOutMsg env m) s fun _ _ => True := by
  cases m with
  | threePhase m =>
    exact (book_write (.send (b := s.books) (.threePhase m) fun _ _ h => by cases h)).mono fun _ _ _ _ => trivial
  | checkpoint c =>
    exact (book_write (.send (b := s.books) (.checkpoint c) fun _ _ h => by cases h)).mono fun _ _ _ _ => trivial
  | ordered o =>
    unfold handleOutMsg
    refine Follows.get_seq (Follows.cond (fun _ => ?_) fun _ => book_quiet rfl)
    refine (processOrdered_books o).seq fun r s1 _ h1 => ?_
    exact (book_write (.process (b := s1.books) o r h1)).mono fun _ _ _ _ => trivial
  | reject r =>
    unfold handleOutMsg senderOf
    refine Follows.seq (Q := fun _ _ => True) ?_ fun client s1 _ _ => ?_
    · refine Follows.get_seq ?_
      split
      · exact Follows.ret trivial
      · exact Follows.raise _
    · refine (transmitToClient_books _ _ fun _ _ _ hm => by cases hm).seq fun _ _ _ _ => ?_
      exact doneProcessingReq_books _

theorem takeOutMsgs_books (limit : Option ℕ) (idxs : List ℕ) (msgCount : ℕ) :
    Follows (Via books (BookStep env.toEnv H)) (takeOutMsgs env limit idxs msgCount) s fun _ _ => True := by
  have htake : ∀ idx s, Follows (Via books (BookStep env.toEnv H)) (takeOutMsg env idx) s fun _ _ => True := by
    intro idx s
    unfold takeOutMsg
    refine Follows.get_seq ?_
    split
    · exact Follows.raise _
    · split
      · exact Follows.raise _
      · exact Follows.seq (book_quiet rfl) fun _ _ _ _ => handleOutMsg_books _
  induction idxs generalizing s msgCount with
  | nil => exact Follows.ret trivial
  | cons idx idxs ih =>
    rw [takeOutMsgs]
    refine Follows.get_seq ?_
    dsimp only
    exact (repeatM_follows (htake idx) _).seq fun _ s' _ _ => ih _

theorem serviceReplica_books (fuel : ℕ) (limit : Option ℕ) (clock : ℕ × ℕ) (idx : ℕ) :
    Follows (Via books (BookStep env.toEnv H)) (serviceReplica env fuel limit clock idx) s fun _ _ => True := by
  unfold serviceReplica
  refine Follows.get_seq ?_
  split
  · exact Follows.raise _
  · rename_i r _
    have hshared := RunningReplica.shared_steps env.toEnv r s.node fuel limit clock.1 clock.2
    refine Follows.seq (Q := fun _ _ => True) ?_ fun _ _ _ _ => ?_
    · exact (book_write (.service (b := s.books) hshared)).mono fun _ _ _ _ => trivial
    · split
      · exact Follows.ret trivial
      · exact Follows.raise _

/-- **An input writes to the books in these steps only.** -/
theorem input_books (i : NodeInput ω) (hH : i.hearings s.node.name ⊆ H) :
    ReflTransGen (BookStep env.toEnv H) s.books (s.input env i).books := by
  refine Via.steps (Follows.steps (Q := fun _ _ => True) ?_)
  cases i with
  | nodeMsg m frm =>
    cases m with
    | propagate request client =>
      exact processPropagate_books request client frm (hH List.mem_cons_self) (hH (by simp [NodeInput.hearings]))
    | threePhase m => exact sendToReplica_books _
    | checkpoint c => exact sendToReplica_books _
  | request request frm => exact processRequest_books request frm (hH List.mem_cons_self)
  | serviceReplicaMsgs limit =>
    refine Follows.seq (Q := fun _ _ => True) ?_ fun _ _ _ _ => Follows.ret trivial
    exact Follows.get_seq (deliverMsgs_books limit _ 0)
  | serviceReplicaOutBox limit =>
    refine Follows.seq (Q := fun _ _ => True) ?_ fun _ _ _ _ => Follows.ret trivial
    exact Follows.get_seq (takeOutMsgs_books limit _ 0)
  | serviceReplicaInBox fuel limit clock =>
    exact Follows.get_seq (Follows.each fun idx _ s' _ => serviceReplica_books fuel limit (clock idx) idx)

/-! ## Runs -/

def run (env : NodeEnv ω σ τ) (s : RunningNode ω σ τ) (inputs : List (NodeInput ω)) : RunningNode ω σ τ :=
  inputs.foldl (input env) s

theorem run_append (env : NodeEnv ω σ τ) (s : RunningNode ω σ τ) (inputs inputs' : List (NodeInput ω)) :
    s.run env (inputs ++ inputs') = (s.run env inputs).run env inputs' := List.foldl_append

theorem run_books {inputs : List (NodeInput ω)} (hH : ∀ i ∈ inputs, i.hearings s.node.name ⊆ H) :
    ReflTransGen (BookStep env.toEnv H) s.books (s.run env inputs).books := by
  induction inputs generalizing s with
  | nil => exact ReflTransGen.refl
  | cons i inputs ih =>
    have hstep : ReflTransGen (BookStep env.toEnv H) s.books (s.input env i).books :=
      input_books i (hH i List.mem_cons_self)
    have hname : (s.input env i).node.name = s.node.name := (mono_of_steps hstep).name
    refine hstep.trans (ih fun i' hi' => ?_)
    rw [hname]
    exact hH i' (List.mem_cons_of_mem i hi')

end RunningNode

/-- all that a node hears in the inputs -/
def hearings (name : NodeName) (inputs : List (NodeInput ω)) : Hearings ω := inputs.flatMap (NodeInput.hearings name)

section Runs

variable [DecidableEq ω] (env : NodeEnv ω σ τ) (node : Node ω σ τ) (primaries : List (Option RepName))

theorem init_books (inputs : List (NodeInput ω)) :
    ReflTransGen (BookStep env.toEnv (hearings node.name inputs)) (RunningNode.init env node primaries).books
      ((RunningNode.init env node primaries).run env inputs).books :=
  RunningNode.run_books fun i hi _ hc => List.mem_flatMap.2 ⟨i, hi, hc⟩

theorem init_sourced (H : Hearings ω) : (RunningNode.init env node primaries).books.Sourced env.toEnv H node.dbs where
  shared := ⟨fun _ he => absurd he List.not_mem_nil, fun _ _ hc => Or.inl hc⟩
  sent _ _ hm := absurd hm List.not_mem_nil

omit [DecidableEq ω] in
theorem init_sound : (RunningNode.init env node primaries).books.Sound env.toEnv where
  replies _ _ _ _ hm := absurd hm List.not_mem_nil
  executed _ ho := absurd ho List.not_mem_nil

/-- **Where the transactions of a node come from.** Within a view and without catch-up, whatever the
other nodes send and the primaries propose, a transaction on a ledger of a node, committed or not, stood there at the start,
or was made of a request that the node heard from more than `f + 1` nodes, with exactly this content; itself it counts if it
got the request at all. -/
theorem ledger_sourced (inputs : List (NodeInput ω)) (lid : LedgerId) {txn : τ}
    (h : ((RunningNode.init env node primaries).run env inputs).node.dbs.Contains lid txn) :
    Source env.toEnv (hearings node.name inputs) node.f node.dbs lid txn := by
  have hsteps := init_books env node primaries inputs
  have hsourced := stable_of_steps (fun _ _ hstep h => hstep.sourced h) hsteps (init_sourced env node primaries _)
  have hf : ((RunningNode.init env node primaries).run env inputs).node.f = node.f := (mono_of_steps hsteps).f
  have htxn := hsourced.shared.txns lid txn h
  change Source _ _ ((RunningNode.init env node primaries).run env inputs).node.f _ _ _ at htxn
  rwa [hf] at htxn

/-- **What is committed and told stands.** However a run within the view goes on, the committed transactions of a ledger
stay its first ones, and the transaction of each reply to a client stays committed under the `seqNo` of the reply. -/
theorem replies_stand (inputs inputs' : List (NodeInput ω)) :
    let now := (RunningNode.init env node primaries).run env inputs
    let later := (RunningNode.init env node primaries).run env (inputs ++ inputs')
    (∀ lid, (now.node.dbs.ledgers.get lid).txns <+: (later.node.dbs.ledgers.get lid).txns) ∧
      ∀ txn seqNo time client, (.reply txn seqNo time, client) ∈ now.toClients →
        later.node.dbs.Committed txn seqNo := by
  intro now later
  have hsteps := init_books env node primaries inputs
  have hsound : now.books.Sound env.toEnv :=
    stable_of_steps (fun _ _ hstep h => hstep.sound h) hsteps (init_sound env node primaries)
  have hlater : NodeBooks.Mono now.books later.books := by
    change NodeBooks.Mono now.books (RunningNode.run _ _ (inputs ++ inputs')).books
    rw [RunningNode.run_append]
    exact mono_of_steps (RunningNode.run_books (H := hearings now.node.name inputs')
      fun i hi _ hc => List.mem_flatMap.2 ⟨i, hi, hc⟩)
  exact ⟨hlater.txns, fun txn seqNo time client hm => (hsound.replies txn seqNo time client hm).mono hlater.txns⟩

end Runs

/-! ## Witnesses -/

deriving instance DecidableEq for ClientMsg

open FourNodes in
/-- Alpha, Gamma and Beta itself stand behind the transaction that Beta commits -/
theorem ledger_sourced_executionFirst : ∃ req dbs, (nodeEnv 1).ledgerIdForRequest req = .domain ∧
    (request 1 "a").key = ((nodeEnv 1).apply dbs req).1 ∧
      2 < (voters (hearings "Beta" (executionFirst (request 1 "a"))) req).card :=
  (ledger_sourced (nodeEnv 1) (node "Beta" Dict.empty) primaries (executionFirst (request 1 "a")) .domain
    (Or.inl (by decide +kernel))).resolve_left fun h => h.elim (fun h => by cases h) fun h => by cases h

open FourNodes in
theorem replies_stand_executionFirst :
    ((RunningNode.init (nodeEnv 1) (node "Beta" Dict.empty) primaries).run (nodeEnv 1)
      (executionFirst (request 1 "a") ++ serviceReplicas)).node.dbs.Committed (request 1 "a").key 1 :=
  (replies_stand (nodeEnv 1) (node "Beta" Dict.empty) primaries (executionFirst (request 1 "a")) serviceReplicas).2
    (request 1 "a").key 1 (some 0) "client" (by decide +kernel)

end Plenum
