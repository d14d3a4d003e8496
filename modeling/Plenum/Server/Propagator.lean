/-
The request store of a node: for each request key the PROPAGATEs received, the finalised request, and to how many
replicas the request was forwarded.

- `canForward` finalises on the way: the most frequent propagated request becomes `finalised` when it was propagated
  more than `requiredVotes` times, and stays so.
- `release` is what the garbage collection of one replica does to one request: one replica fewer needs it, and the
  entry goes when none does.
- `Requests.Keyed`: everything stored under a key has that key. Every operation keeps it.
- `finalised?_release`, `finalised?_addPropagate`: an entry that stays keeps its finalised request.
-/
import Mathlib.Tactic
import Plenum.Core.Dict
import Plenum.Common.Types
import Plenum.Common.Util

namespace Plenum

open Plenum.Core

structure ReqState (ω : Type) where
  request : Request ω
  forwarded : Bool
  forwardedTo : ℤ
  propagates : Dict NodeName (Request ω)
  finalised : Option (Request ω)
deriving DecidableEq

abbrev Requests (ω : Type) := Dict ReqKey (ReqState ω)

variable {ω : Type} [DecidableEq ω]

namespace ReqState

def new (request : Request ω) : ReqState ω := ⟨request, false, 0, Dict.empty, none⟩

/-- look for a finalised request among the propagates, unless there is one already -/
def finalise (s : ReqState ω) (f : ℕ) : ReqState ω :=
  match s.finalised with
  | some _ => s
  | none => { s with finalised := checkIfMoreThanFSameItems s.propagates.values f }

/-- everything stored has the key `k` -/
structure Keyed (k : ReqKey) (s : ReqState ω) : Prop where
  propagates : ∀ e ∈ s.propagates.entries, e.2.key = k
  finalised : ∀ r, s.finalised = some r → r.key = k

theorem finalise_of_finalised {s : ReqState ω} {f : ℕ} {r : Request ω} (h : s.finalised = some r) :
    s.finalise f = s := by
  unfold finalise
  rw [h]

theorem Keyed.finalise {s : ReqState ω} {k : ReqKey} (h : s.Keyed k) (f : ℕ) : (s.finalise f).Keyed k := by
  unfold ReqState.finalise
  cases hf : s.finalised with
  | some r => exact h
  | none =>
    refine ⟨h.propagates, fun r hr => ?_⟩
    obtain ⟨hmem, -⟩ := checkIfMoreThanFSameItems_eq_some hr
    obtain ⟨e, he, rfl⟩ := List.mem_map.1 hmem
    exact h.propagates e he

end ReqState

namespace Requests

/-- apply `g` to the state of a request, if there is one -/
def update (rs : Requests ω) (k : ReqKey) (g : ReqState ω → ReqState ω) : Requests ω :=
  match rs.get? k with
  | some s => rs.set k (g s)
  | none => rs

def add (rs : Requests ω) (req : Request ω) : Requests ω :=
  if rs.contains req.key then rs else rs.set req.key (ReqState.new req)

def flagAsForwarded (rs : Requests ω) (req : Request ω) (count : ℕ) : Requests ω :=
  rs.update req.key fun s => { s with forwarded := true, forwardedTo := count }

def addPropagate (rs : Requests ω) (req : Request ω) (sender : NodeName) : Requests ω :=
  (rs.add req).update req.key fun s => { s with propagates := s.propagates.set sender req }

/-- whether a request may be forwarded now; a request not yet forwarded is finalised on the way if it can be -/
def canForward (rs : Requests ω) (req : Request ω) (requiredVotes : ℕ) : Bool × Requests ω :=
  match rs.get? req.key with
  | none => (false, rs)
  | some s =>
    if s.forwarded then (false, rs)
    else ((s.finalise requiredVotes).finalised.isSome, rs.set req.key (s.finalise requiredVotes))

def hasPropagated (rs : Requests ω) (req : Request ω) (sender : NodeName) : Bool :=
  match rs.get? req.key with
  | some s => s.propagates.contains sender
  | none => false

/-- the finalised request of a key -/
def finalised? (rs : Requests ω) (k : ReqKey) : Option (Request ω) := (rs.get? k).bind ReqState.finalised

def isFinalised (rs : Requests ω) (k : ReqKey) : Bool := (rs.finalised? k).isSome

/-- one replica has no more use for the request; `none` if there is no such request -/
def release (rs : Requests ω) (k : ReqKey) : Option (Requests ω) :=
  (rs.get? k).map fun s =>
    if s.forwardedTo - 1 = 0 then rs.erase k else rs.set k { s with forwardedTo := s.forwardedTo - 1 }

/-! ## Lookups after each operation -/

omit [DecidableEq ω]

theorem get?_update (rs : Requests ω) (k k' : ReqKey) (g : ReqState ω → ReqState ω) :
    (rs.update k g).get? k' = if k' = k then (rs.get? k).map g else rs.get? k' := by
  unfold update
  cases h : rs.get? k with
  | none =>
    split_ifs with hk
    · rw [hk, h]; rfl
    · rfl
  | some s => rw [Dict.get?_set]; rfl

theorem get?_add (rs : Requests ω) (req : Request ω) (k : ReqKey) :
    (rs.add req).get? k = if k = req.key then some ((rs.get? k).getD (ReqState.new req)) else rs.get? k := by
  unfold add Dict.contains
  by_cases hk : k = req.key
  · subst hk
    cases h : rs.get? req.key with
    | none => simp
    | some s => simp [h]
  · rw [if_neg hk]
    split_ifs
    · rfl
    · exact Dict.get?_set_ne rs _ hk

theorem get?_release {rs rs' : Requests ω} {k : ReqKey} (h : rs.release k = some rs') (k' : ReqKey) :
    rs'.get? k' = rs.get? k' ∨ (k' = k ∧ (rs'.get? k' = none ∨
      ∃ s, rs.get? k = some s ∧ rs'.get? k' = some { s with forwardedTo := s.forwardedTo - 1 })) := by
  obtain ⟨s, hs, rfl⟩ := Option.map_eq_some_iff.1 h
  by_cases hk : k' = k
  · subst hk
    refine Or.inr ⟨rfl, ?_⟩
    split_ifs
    · exact Or.inl (by rw [Dict.get?_erase, if_pos rfl])
    · exact Or.inr ⟨s, hs, by rw [Dict.get?_set_self]⟩
  · left
    split_ifs
    · rw [Dict.get?_erase, if_neg hk]
    · rw [Dict.get?_set_ne rs _ hk]

/-- a request whose entry stays through a release stays finalised as it was -/
theorem finalised?_release {rs rs' : Requests ω} {k : ReqKey} (h : rs.release k = some rs') (k' : ReqKey)
    (hc : rs'.contains k') : rs'.finalised? k' = rs.finalised? k' := by
  rw [finalised?, finalised?]
  rcases get?_release h k' with he | ⟨rfl, he | ⟨s, hs, hs'⟩⟩
  · rw [he]
  · rw [Dict.contains, he] at hc; cases hc
  · rw [hs, hs']; rfl

/-- a release adds no request -/
theorem contains_of_release {rs rs' : Requests ω} {k : ReqKey} (h : rs.release k = some rs') {k' : ReqKey}
    (hc : rs'.contains k') : rs.contains k' := by
  rw [Dict.contains] at hc ⊢
  rcases get?_release h k' with he | ⟨rfl, he | ⟨s, hs, -⟩⟩
  · rwa [he] at hc
  · rw [he] at hc; cases hc
  · rw [hs]; rfl

/-! ## Everything under a key has that key -/

def Keyed (rs : Requests ω) : Prop := ∀ e ∈ rs.entries, e.2.Keyed e.1

theorem Keyed.get {rs : Requests ω} (h : Keyed rs) {k : ReqKey} {s : ReqState ω} (hs : rs.get? k = some s) :
    s.Keyed k := h (k, s) (Dict.get?_eq_some.1 hs)

theorem Keyed.finalised?_key {rs : Requests ω} (h : Keyed rs) {k : ReqKey} {r : Request ω}
    (hr : rs.finalised? k = some r) : r.key = k := by
  obtain ⟨s, hs, hf⟩ := Option.bind_eq_some_iff.1 hr
  exact (h.get hs).finalised r hf

/-- finalised requests that were looked up by their keys have these keys -/
theorem Keyed.keys_of_forall₂ {rs : Requests ω} (h : Keyed rs) {keys : List ReqKey} {reqs : List (Request ω)}
    (hreqs : List.Forall₂ (fun k r => rs.finalised? k = some r) keys reqs) : reqs.map Request.key = keys := by
  induction hreqs with
  | nil => rfl
  | cons hr _ ih => rw [List.map_cons, h.finalised?_key hr, ih]

theorem isFinalised_of_forall₂ {rs : Requests ω} {keys : List ReqKey} {reqs : List (Request ω)}
    (hreqs : List.Forall₂ (fun k r => rs.finalised? k = some r) keys reqs) : ∀ k ∈ keys, rs.isFinalised k := by
  induction hreqs with
  | nil => exact fun k hk => absurd hk List.not_mem_nil
  | cons hr _ ih =>
    intro k hk
    rcases List.mem_cons.1 hk with rfl | hk
    · rw [isFinalised, hr]; rfl
    · exact ih k hk

theorem Keyed.set {rs : Requests ω} (h : Keyed rs) {k : ReqKey} {s : ReqState ω} (hs : s.Keyed k) :
    Keyed (Dict.set rs k s) := by
  intro e he
  rcases Dict.mem_set.1 he with rfl | ⟨he, -⟩
  · exact hs
  · exact h e he

theorem Keyed.update {rs : Requests ω} (h : Keyed rs) {k : ReqKey} {g : ReqState ω → ReqState ω}
    (hg : ∀ s, s.Keyed k → (g s).Keyed k) : Keyed (rs.update k g) := by
  unfold Requests.update
  cases hs : rs.get? k with
  | none => exact h
  | some s => exact h.set (hg s (h.get hs))

theorem Keyed.add {rs : Requests ω} (h : Keyed rs) (req : Request ω) : Keyed (rs.add req) := by
  unfold Requests.add
  split_ifs
  · exact h
  · exact h.set ⟨(by intro e he; cases he), (by intro r hr; cases hr)⟩

theorem Keyed.addPropagate {rs : Requests ω} (h : Keyed rs) (req : Request ω) (sender : NodeName) :
    Keyed (rs.addPropagate req sender) := by
  refine (h.add req).update fun s hs => ⟨fun e he => ?_, hs.finalised⟩
  rcases Dict.mem_set.1 he with rfl | ⟨he, -⟩
  · rfl
  · exact hs.propagates e he

theorem Keyed.flagAsForwarded {rs : Requests ω} (h : Keyed rs) (req : Request ω) (count : ℕ) :
    Keyed (rs.flagAsForwarded req count) := h.update fun _ hs => ⟨hs.propagates, hs.finalised⟩

theorem Keyed.canForward [DecidableEq ω] {rs : Requests ω} (h : Keyed rs) (req : Request ω) (requiredVotes : ℕ) :
    Keyed (rs.canForward req requiredVotes).2 := by
  unfold Requests.canForward
  cases hs : rs.get? req.key with
  | none => exact h
  | some s =>
    dsimp only
    split_ifs
    · exact h
    · exact h.set ((h.get hs).finalise requiredVotes)

theorem Keyed.release {rs rs' : Requests ω} (h : Keyed rs) {k : ReqKey} (hr : rs.release k = some rs') :
    Keyed rs' := by
  obtain ⟨s, hs, rfl⟩ := Option.map_eq_some_iff.1 hr
  split_ifs
  · exact fun e he => h e (Dict.mem_erase.1 he).1
  · exact h.set ⟨(h.get hs).propagates, (h.get hs).finalised⟩

end Requests

end Plenum
