/-
Which reply a client confirms.

- `Result`: what a REPLY carries, a JSON object with an identifier and a request number.
- `getReply`: the latest REPLY of every node for the key. If all of them are equal for the language, the first one is
  confirmed, else the one whose JSON text more than `f` nodes have sent.
- `supporters`: the nodes whose latest REPLY for the key has the text of a result.
- `getReply_iff`: exactly the results with `f + 1` supporters are confirmed if and only if no two different texts have that
  many, and, where at least `f + 1` nodes agree as values, so many have the first one's text. Whether nothing is found is
  always told rightly.
- `true_and_one`: one node has sent 1, the other true.
-/
import Mathlib.Tactic
import Plenum.Core.KeyedFold
import Plenum.Common.Json
import Plenum.Common.Types
import Plenum.Common.Util

namespace Plenum

open Plenum.Core Signing

namespace Client

variable {ν : Type}

/-! ## Replies -/

/-- the result of a REPLY -/
structure Result (ν : Type) where
  entries : List (String × Value ν)
  valid : (Value.dict entries).Valid
  hasIdentifier : (entries.lookup "identifier").isSome
  hasReqId : (entries.lookup "reqId").isSome

def Result.value (r : Result ν) : Value ν := .dict r.entries

inductive NodeMsg (ν : Type) where
  | reply (result : Result ν)
  | other (op : String)

inductive ReplyStatus where
  | NOT_FOUND
  | UNCONFIRMED
  | CONFIRMED
deriving DecidableEq, Repr

end Client

/-- `inBox` has every message that `handleOneNodeMsg` was given, with its sender -/
structure Client (ν : Type) where
  f : ℕ
  inBox : List (Client.NodeMsg ν × NodeName)

namespace Client

variable {ν : Type} (N : Numbers ν) (numText : ν → String)

/-- the result of a message, if it is a REPLY for the key -/
def replyFor (identifier : String) (reqId : ℤ) : NodeMsg ν → Option (Result ν)
  | .reply result =>
    if (result.entries.lookup "reqId").any (fun v => v.same N (.num (N.ofInt reqId))) &&
        (result.entries.lookup "identifier").any (fun v => v.same N (.str identifier)) then some result
    else none
  | .other _ => none

def getRepliesFromAllNodes (c : Client ν) (identifier : String) (reqId : ℤ) : Dict NodeName (Result ν) :=
  c.inBox.foldl (fun replies m =>
    match replyFor N identifier reqId m.1 with
    | some result => replies.set m.2 result
    | none => replies) Dict.empty

/-- the result whose JSON text occurs more than `maxF` times, read from this text -/
def checkIfMoreThanFSameItems (items : List (Value ν)) (maxF : ℕ) : Option (Value ν) :=
  (Plenum.checkIfMoreThanFSameItems (items.map (Json.dumps numText)) maxF).bind fun text =>
    (items.find? fun item => Json.dumps numText item = text).map Json.reloaded

/-- `none` is `False` -/
def hasConsensus (c : Client ν) (identifier : String) (reqId : ℤ) : Except Exn (Option (Value ν)) :=
  let replies := getRepliesFromAllNodes N c identifier reqId
  match replies.values.map Result.value with
  | [] => .error .keyError
  | first :: rest =>
    if c.f + 1 > replies.size then .ok none
    else if (first :: rest).all fun result => result.same N first then .ok (some first)
    else .ok (checkIfMoreThanFSameItems numText (first :: rest) c.f)

def getReply (c : Client ν) (identifier : String) (reqId : ℤ) : Option (Value ν) × ReplyStatus :=
  match hasConsensus N numText c identifier reqId with
  | .error _ => (none, .NOT_FOUND)
  | .ok none => (none, .UNCONFIRMED)
  | .ok (some cons) => if cons.truthy N then (some cons, .CONFIRMED) else (none, .UNCONFIRMED)

/-! ## Who has sent what -/

/-- the latest REPLY of a node for the key -/
def latest (c : Client ν) (identifier : String) (reqId : ℤ) (node : NodeName) : Option (Result ν) :=
  (c.inBox.filterMap fun m => if m.2 = node then replyFor N identifier reqId m.1 else none).getLast?

/-- the node that was the first to send a REPLY for the key -/
def firstReplier (c : Client ν) (identifier : String) (reqId : ℤ) : Option NodeName :=
  (c.inBox.find? fun m => (replyFor N identifier reqId m.1).isSome).map Prod.snd

def senders (c : Client ν) : Finset NodeName := (c.inBox.map Prod.snd).toFinset

/-- the nodes that have sent a REPLY for the key -/
def repliers (c : Client ν) (identifier : String) (reqId : ℤ) : Finset NodeName :=
  (senders c).filter fun node => (latest N c identifier reqId node).isSome

/-- two results are the same if their JSON texts with sorted keys are -/
def SameText (r r' : Value ν) : Prop := Json.dumps numText r = Json.dumps numText r'

/-- the nodes whose latest REPLY for the key carries the same result -/
def supporters (c : Client ν) (identifier : String) (reqId : ℤ) (r : Value ν) : Finset NodeName :=
  (senders c).filter fun node =>
    (latest N c identifier reqId node).any fun result => Json.dumps numText result.value = Json.dumps numText r

/-- more than `f` nodes stand behind a result -/
def WeakQuorum (c : Client ν) (identifier : String) (reqId : ℤ) (r : Value ν) : Prop :=
  c.f + 1 ≤ (supporters N numText c identifier reqId r).card

/-- the client confirms the results with a weak quorum, and finds nothing exactly if nothing was sent -/
structure Exact (c : Client ν) (identifier : String) (reqId : ℤ) : Prop where
  confirmed : ∀ r, (∃ r', getReply N numText c identifier reqId = (some r', .CONFIRMED) ∧ SameText numText r' r) ↔
    WeakQuorum N numText c identifier reqId r
  notFound : getReply N numText c identifier reqId = (none, .NOT_FOUND) ↔
    ∀ node, latest N c identifier reqId node = none

/-- no two texts have a weak quorum, and where more than `f` nodes have sent equal values, so many have sent the text of the
one that was first -/
structure OneText (c : Client ν) (identifier : String) (reqId : ℤ) : Prop where
  unique : ∀ r r', WeakQuorum N numText c identifier reqId r → WeakQuorum N numText c identifier reqId r' →
    SameText numText r r'
  unanimous : ∀ node first, firstReplier N c identifier reqId = some node →
    latest N c identifier reqId node = some first → c.f + 1 ≤ (repliers N c identifier reqId).card →
    (∀ node' result, latest N c identifier reqId node' = some result → result.value.same N first.value = true) →
    WeakQuorum N numText c identifier reqId first.value

/-! ## The replies as a dictionary -/

section Replies

variable (c : Client ν) (identifier : String) (reqId : ℤ)

/-- the REPLYs for the key with their senders, in order -/
def replyRecords : List (NodeName × Result ν) :=
  c.inBox.filterMap fun m => (replyFor N identifier reqId m.1).map fun result => (m.2, result)

/-- each is the value of its sender -/
def bySender (ν : Type) : KeyedMerge (NodeName × Result ν) NodeName (Result ν) where
  key e := some e.1
  merge _ e := e.2

theorem getReplies_eq_replayOver : getRepliesFromAllNodes N c identifier reqId =
    (bySender ν).replayOver Dict.empty (replyRecords N c identifier reqId) Dict.empty := by
  unfold getRepliesFromAllNodes replyRecords KeyedMerge.replayOver
  rw [List.foldl_filterMap]
  congr 1
  funext replies m
  cases replyFor N identifier reqId m.1 <;> rfl

theorem latest_eq (node : NodeName) : latest N c identifier reqId node =
    (((replyRecords N c identifier reqId).filter fun e => e.1 = node).getLast?).map Prod.snd := by
  have hlist : c.inBox.filterMap (fun m => if m.2 = node then replyFor N identifier reqId m.1 else none) =
      ((replyRecords N c identifier reqId).filter fun e => e.1 = node).map Prod.snd := by
    unfold replyRecords
    induction c.inBox with
    | nil => rfl
    | cons m ms ih =>
      cases hm : replyFor N identifier reqId m.1 with
      | none => simp [hm, ih]
      | some result =>
        by_cases hn : m.2 = node
        · simp [hm, hn, ih]
        · simp [hm, hn, ih]
  rw [latest, hlist, List.getLast?_map]

theorem get?_getReplies (node : NodeName) :
    (getRepliesFromAllNodes N c identifier reqId).get? node = latest N c identifier reqId node := by
  have hrecords : (bySender ν).recordsOf node (replyRecords N c identifier reqId) =
      (replyRecords N c identifier reqId).filter fun e => e.1 = node := by
    refine List.filter_congr fun e _ => ?_
    simp [bySender]
  rw [getReplies_eq_replayOver, KeyedMerge.get?_replayOver, hrecords, latest_eq]
  cases (List.filter _ _).getLast? with
  | none => rfl
  | some e => rfl

theorem mem_senders_of_latest {node : NodeName} (h : (latest N c identifier reqId node).isSome) : node ∈ senders c := by
  obtain ⟨result, hresult⟩ := Option.isSome_iff_exists.1 h
  obtain ⟨m, hm, hfor⟩ := List.mem_filterMap.1 (List.mem_of_getLast? hresult)
  split_ifs at hfor with hnode
  exact List.mem_toFinset.2 (List.mem_map.2 ⟨m, hm, hnode⟩)

theorem mem_keys_getReplies {node : NodeName} : node ∈ (getRepliesFromAllNodes N c identifier reqId).keys ↔
    (latest N c identifier reqId node).isSome := by
  rw [← Dict.contains_iff, Dict.contains, get?_getReplies]

theorem size_getReplies : (getRepliesFromAllNodes N c identifier reqId).size = (repliers N c identifier reqId).card := by
  rw [Dict.size_eq_card, repliers]
  congr 1
  ext node
  rw [List.mem_toFinset, mem_keys_getReplies, Finset.mem_filter]
  exact ⟨fun h => ⟨mem_senders_of_latest N c identifier reqId h, h⟩, fun h => h.2⟩

theorem countP_getReplies (p : Result ν → Bool) : (getRepliesFromAllNodes N c identifier reqId).values.countP p =
    ((senders c).filter fun node => (latest N c identifier reqId node).any p).card := by
  rw [Dict.countP_values]
  congr 1
  ext node
  rw [Finset.mem_filter, Finset.mem_filter, List.mem_toFinset, mem_keys_getReplies, get?_getReplies]
  have hany : ((latest N c identifier reqId node).any p) = true → (latest N c identifier reqId node).isSome := by
    cases latest N c identifier reqId node <;> simp
  exact ⟨fun h => ⟨mem_senders_of_latest N c identifier reqId h.1, h.2⟩, fun h => ⟨hany h.2, h.2⟩⟩

/-- a key that is written stands first only in an empty dictionary -/
theorem head?_set {κ α : Type} [DecidableEq κ] (d : Dict κ α) (k : κ) (v : α) :
    (d.set k v).entries.head?.map Prod.fst = (d.entries.head?.map Prod.fst).or (some k) := by
  rw [← List.head?_map, ← List.head?_map]
  unfold Dict.set
  split_ifs with hk
  · rw [Dict.replaceEntry_fst]
    cases hkeys : d.entries.map Prod.fst with
    | nil => simp [hkeys] at hk
    | cons k' ks => rfl
  · rw [List.map_append, List.head?_append]
    rfl

/-- the dictionary begins with the node that was first -/
theorem head?_getReplies : (getRepliesFromAllNodes N c identifier reqId).entries.head?.map Prod.fst =
    firstReplier N c identifier reqId := by
  have hfold : ∀ (inBox : List (NodeMsg ν × NodeName)) (d : Dict NodeName (Result ν)),
      (inBox.foldl (fun replies m =>
        match replyFor N identifier reqId m.1 with
        | some result => replies.set m.2 result
        | none => replies) d).entries.head?.map Prod.fst =
      (d.entries.head?.map Prod.fst).or
        ((inBox.find? fun m => (replyFor N identifier reqId m.1).isSome).map Prod.snd) := by
    intro inBox
    induction inBox with
    | nil => intro d; simp
    | cons m ms ih =>
      intro d
      rw [List.foldl_cons, ih]
      cases hm : replyFor N identifier reqId m.1 with
      | none => simp [hm]
      | some result =>
        simp only [head?_set, hm, Option.isSome_some, List.find?_cons_of_pos, Option.map_some]
        cases d.entries.head? <;> rfl
  rw [getRepliesFromAllNodes, hfold, firstReplier]
  rfl

end Replies

/-! ## What is confirmed -/

theorem truthy_value (r : Result ν) : r.value.truthy N = true := by
  unfold Result.value Value.truthy
  cases hentries : r.entries with
  | nil =>
    have hid := r.hasIdentifier
    rw [hentries] at hid
    cases hid
  | cons e es => rfl

theorem truthy_reloaded (r : Result ν) : (Json.reloaded r.value).truthy N = true := by
  have hlength : (Json.sortKeys (Json.reloadedEntries r.entries)).length = r.entries.length := by
    rw [Json.reloadedEntries_eq, Json.sortKeys, List.length_insertionSort, List.length_map]
  have hne : r.entries ≠ [] := by
    intro hentries
    have hid := r.hasIdentifier
    rw [hentries] at hid
    cases hid
  have hne' : Json.sortKeys (Json.reloadedEntries r.entries) ≠ [] := by
    intro h
    rw [h] at hlength
    exact hne (List.length_eq_zero_iff.1 hlength.symm)
  rw [Result.value, Json.reloaded, Value.truthy]
  simpa using hne'

section Confirmed

variable {N numText} {c : Client ν} {identifier : String} {reqId : ℤ} {first : Result ν} {rest : List (Result ν)}

/-- the JSON texts of the latest REPLYs -/
def texts (numText : ν → String) (results : List (Result ν)) : List String :=
  results.map fun r => Json.dumps numText r.value

theorem weakQuorum_iff (r : Value ν) : WeakQuorum N numText c identifier reqId r ↔
    c.f + 1 ≤ (texts numText (getRepliesFromAllNodes N c identifier reqId).values).count (Json.dumps numText r) := by
  unfold WeakQuorum supporters texts
  rw [← countP_getReplies, List.count, List.countP_map]
  rfl

theorem getReply_none (hvalues : (getRepliesFromAllNodes N c identifier reqId).values = []) :
    getReply N numText c identifier reqId = (none, .NOT_FOUND) := by
  unfold getReply hasConsensus
  dsimp only
  rw [hvalues]
  rfl

theorem hasConsensus_cons (hvalues : (getRepliesFromAllNodes N c identifier reqId).values = first :: rest) :
    hasConsensus N numText c identifier reqId =
      if c.f + 1 > (getRepliesFromAllNodes N c identifier reqId).size then .ok none
      else if ((first :: rest).map Result.value).all (fun result => result.same N first.value) then .ok (some first.value)
      else .ok (checkIfMoreThanFSameItems numText ((first :: rest).map Result.value) c.f) := by
  unfold hasConsensus
  dsimp only
  rw [hvalues]
  rfl

theorem getReply_few (hvalues : (getRepliesFromAllNodes N c identifier reqId).values = first :: rest)
    (hfew : c.f + 1 > (getRepliesFromAllNodes N c identifier reqId).size) :
    getReply N numText c identifier reqId = (none, .UNCONFIRMED) := by
  rw [getReply, hasConsensus_cons hvalues, if_pos hfew]

theorem getReply_unanimous (hvalues : (getRepliesFromAllNodes N c identifier reqId).values = first :: rest)
    (henough : c.f + 1 ≤ (getRepliesFromAllNodes N c identifier reqId).size)
    (hsame : ∀ r ∈ first :: rest, r.value.same N first.value = true) :
    getReply N numText c identifier reqId = (some first.value, .CONFIRMED) := by
  have hall : ((first :: rest).map Result.value).all (fun result => result.same N first.value) = true := by
    rw [List.all_map, List.all_eq_true]
    exact hsame
  rw [getReply, hasConsensus_cons hvalues, if_neg (not_lt.2 henough), if_pos hall]
  exact if_pos (truthy_value N first)

/-- the most frequent text is that of an item, and reading it gives a result with this text -/
theorem checkIfMoreThanFSameItems_eq (results : List (Result ν)) (maxF : ℕ) :
    match Plenum.checkIfMoreThanFSameItems (texts numText results) maxF with
    | some t => ∃ r, checkIfMoreThanFSameItems numText (results.map Result.value) maxF = some (Json.reloaded (Result.value r)) ∧
        Json.dumps numText r.value = t
    | none => checkIfMoreThanFSameItems numText (results.map Result.value) maxF = none := by
  have htexts : (results.map Result.value).map (Json.dumps numText) = texts numText results := by
    rw [texts, List.map_map]
    rfl
  unfold checkIfMoreThanFSameItems
  rw [htexts]
  cases hcheck : Plenum.checkIfMoreThanFSameItems (texts numText results) maxF with
  | none => rfl
  | some t =>
    obtain ⟨r, hr, ht⟩ := List.mem_map.1 (checkIfMoreThanFSameItems_eq_some hcheck).1
    obtain ⟨item, hfind⟩ := Option.isSome_iff_exists.1
      (show ((results.map Result.value).find? fun item => Json.dumps numText item = t).isSome by
        rw [List.find?_isSome]
        exact ⟨r.value, List.mem_map_of_mem hr, by simpa using ht⟩)
    obtain ⟨r', -, hr'⟩ := List.mem_map.1 (List.mem_of_find?_eq_some hfind)
    refine ⟨r', ?_, ?_⟩
    · rw [Option.bind_some, hfind, hr']
      rfl
    · rw [hr']
      simpa using List.find?_some hfind

/-- where the results are not all equal, their texts are counted -/
theorem getReply_counted (hvalues : (getRepliesFromAllNodes N c identifier reqId).values = first :: rest)
    (henough : c.f + 1 ≤ (getRepliesFromAllNodes N c identifier reqId).size)
    (hdiffer : ¬ ∀ r ∈ first :: rest, r.value.same N first.value = true) :
    match Plenum.checkIfMoreThanFSameItems (texts numText (first :: rest)) c.f with
    | some t => ∃ r', getReply N numText c identifier reqId = (some r', .CONFIRMED) ∧ Json.dumps numText r' = t
    | none => getReply N numText c identifier reqId = (none, .UNCONFIRMED) := by
  have hall : ¬ ((first :: rest).map Result.value).all (fun result => result.same N first.value) = true := by
    rw [List.all_map, List.all_eq_true]
    exact hdiffer
  have hcheck := @checkIfMoreThanFSameItems_eq ν numText (first :: rest) c.f
  rw [getReply, hasConsensus_cons hvalues, if_neg (not_lt.2 henough), if_neg hall]
  cases htext : Plenum.checkIfMoreThanFSameItems (texts numText (first :: rest)) c.f with
  | some t =>
    rw [htext] at hcheck
    obtain ⟨r, hr, ht⟩ := hcheck
    refine ⟨Json.reloaded r.value, ?_, (Json.dumps_reloaded numText r.value).trans ht⟩
    rw [hr]
    exact if_pos (truthy_reloaded N r)
  | none =>
    rw [htext] at hcheck
    rw [hcheck]

theorem mem_values_getReplies {result : Result ν} : result ∈ (getRepliesFromAllNodes N c identifier reqId).values ↔
    ∃ node, latest N c identifier reqId node = some result := by
  rw [Dict.values, List.mem_map]
  constructor
  · rintro ⟨e, he, rfl⟩
    exact ⟨e.1, by rw [← get?_getReplies]; exact Dict.get?_eq_some.2 he⟩
  · rintro ⟨node, hnode⟩
    rw [← get?_getReplies] at hnode
    exact ⟨(node, result), Dict.get?_eq_some.1 hnode, rfl⟩

/-- the first result is that of the node that was first -/
theorem firstReplier_eq (hvalues : (getRepliesFromAllNodes N c identifier reqId).values = first :: rest) :
    ∃ node, firstReplier N c identifier reqId = some node ∧ latest N c identifier reqId node = some first := by
  rw [Dict.values] at hvalues
  cases hentries : (getRepliesFromAllNodes N c identifier reqId).entries with
  | nil => simp [hentries] at hvalues
  | cons e es =>
    rw [hentries, List.map_cons, List.cons.injEq] at hvalues
    refine ⟨e.1, ?_, ?_⟩
    · rw [← head?_getReplies, hentries]
      rfl
    · rw [← get?_getReplies, ← hvalues.1]
      exact Dict.get?_eq_some.2 (hentries ▸ List.mem_cons_self)

/-- nothing is found exactly if no node has sent a REPLY for the key -/
theorem notFound_iff : getReply N numText c identifier reqId = (none, .NOT_FOUND) ↔
    ∀ node, latest N c identifier reqId node = none := by
  cases hvalues : (getRepliesFromAllNodes N c identifier reqId).values with
  | nil =>
    refine iff_of_true (getReply_none hvalues) fun node => Option.eq_none_iff_forall_ne_some.2 fun result hresult => ?_
    have hmem := mem_values_getReplies.2 ⟨node, hresult⟩
    rw [hvalues] at hmem
    cases hmem
  | cons first rest =>
    obtain ⟨node, -, hlatest⟩ := firstReplier_eq hvalues
    refine iff_of_false (fun h => ?_) fun h => by rw [h node] at hlatest; cases hlatest
    by_cases hfew : c.f + 1 > (getRepliesFromAllNodes N c identifier reqId).size
    · simp [getReply_few hvalues hfew] at h
    · by_cases hsame : ∀ r ∈ first :: rest, r.value.same N first.value = true
      · simp [getReply_unanimous hvalues (not_lt.1 hfew) hsame] at h
      · have hcounted := @getReply_counted ν N numText c identifier reqId first rest hvalues (not_lt.1 hfew) hsame
        split at hcounted
        · obtain ⟨r', hr', -⟩ := hcounted
          simp [hr'] at h
        · simp [hcounted] at h

/-- fewer nodes than a weak quorum needs have sent anything -/
theorem not_weakQuorum_of_few (hfew : c.f + 1 > (getRepliesFromAllNodes N c identifier reqId).size) (r : Value ν) :
    ¬ WeakQuorum N numText c identifier reqId r := by
  rw [weakQuorum_iff]
  have hcount := List.count_le_length
    (a := Json.dumps numText r) (l := texts numText (getRepliesFromAllNodes N c identifier reqId).values)
  have hlength : (texts numText (getRepliesFromAllNodes N c identifier reqId).values).length =
      (getRepliesFromAllNodes N c identifier reqId).size := by
    rw [texts, List.length_map, Dict.values, List.length_map, Dict.size]
  omega

/-- where too few have sent anything, nothing is confirmed -/
theorem exact_few (hfew : c.f + 1 > (getRepliesFromAllNodes N c identifier reqId).size) :
    Exact N numText c identifier reqId ↔ OneText N numText c identifier reqId := by
  have hno : ∀ r', getReply N numText c identifier reqId ≠ (some r', .CONFIRMED) := by
    intro r' hr'
    cases hvalues : (getRepliesFromAllNodes N c identifier reqId).values with
    | nil => simp [getReply_none hvalues] at hr'
    | cons first rest => simp [getReply_few hvalues hfew] at hr'
  refine iff_of_true ⟨fun r => ?_, notFound_iff⟩ ⟨fun r _ hr _ => ?_, fun _ _ _ _ henough _ => ?_⟩
  · refine iff_of_false ?_ (not_weakQuorum_of_few hfew r)
    rintro ⟨r', hr', -⟩
    exact hno r' hr'
  · exact absurd hr (not_weakQuorum_of_few hfew r)
  · rw [← size_getReplies] at henough
    exact absurd henough (not_le.2 hfew)

/-- where all results are equal, the first one's text is the one that is confirmed -/
theorem exact_unanimous (hvalues : (getRepliesFromAllNodes N c identifier reqId).values = first :: rest)
    (henough : c.f + 1 ≤ (getRepliesFromAllNodes N c identifier reqId).size)
    (hsame : ∀ r ∈ first :: rest, r.value.same N first.value = true) :
    Exact N numText c identifier reqId ↔ OneText N numText c identifier reqId := by
  have hreply := @getReply_unanimous ν N numText c identifier reqId first rest hvalues henough hsame
  obtain ⟨node, hnode, hlatest⟩ := firstReplier_eq hvalues
  constructor
  · intro h
    refine ⟨fun r r' hr hr' => ?_, fun node' first' hnode' hlatest' _ _ => ?_⟩
    · obtain ⟨x, hx, hxr⟩ := (h.confirmed r).2 hr
      obtain ⟨x', hx', hxr'⟩ := (h.confirmed r').2 hr'
      rw [hx, Prod.mk.injEq, Option.some.injEq] at hx'
      exact hxr.symm.trans (hx'.1 ▸ hxr')
    · rw [hnode, Option.some.injEq] at hnode'
      rw [← hnode', hlatest, Option.some.injEq] at hlatest'
      rw [← hlatest']
      exact (h.confirmed first.value).1 ⟨first.value, hreply, rfl⟩
  · intro h
    have hfirst : WeakQuorum N numText c identifier reqId first.value := by
      refine h.unanimous node first hnode hlatest (by rwa [← size_getReplies]) fun node' result hresult => ?_
      exact hsame result (hvalues ▸ mem_values_getReplies.2 ⟨node', hresult⟩)
    refine ⟨fun r => ?_, notFound_iff⟩
    constructor
    · rintro ⟨r', hr', htext⟩
      rw [hreply, Prod.mk.injEq, Option.some.injEq] at hr'
      rw [weakQuorum_iff] at hfirst ⊢
      rwa [← htext, ← hr'.1]
    · intro hr
      exact ⟨first.value, hreply, h.unique _ _ hfirst hr⟩

/-- where they are not, the most frequent text is confirmed if it is frequent enough -/
theorem exact_counted (hvalues : (getRepliesFromAllNodes N c identifier reqId).values = first :: rest)
    (henough : c.f + 1 ≤ (getRepliesFromAllNodes N c identifier reqId).size)
    (hdiffer : ¬ ∀ r ∈ first :: rest, r.value.same N first.value = true) :
    Exact N numText c identifier reqId ↔ OneText N numText c identifier reqId := by
  have hreply := @getReply_counted ν N numText c identifier reqId first rest hvalues henough hdiffer
  obtain ⟨node, hnode, hlatest⟩ := firstReplier_eq hvalues
  constructor
  · intro h
    refine ⟨fun r r' hr hr' => ?_, fun node' first' hnode' hlatest' _ hall => ?_⟩
    · obtain ⟨x, hx, hxr⟩ := (h.confirmed r).2 hr
      obtain ⟨x', hx', hxr'⟩ := (h.confirmed r').2 hr'
      rw [hx, Prod.mk.injEq, Option.some.injEq] at hx'
      exact hxr.symm.trans (hx'.1 ▸ hxr')
    · rw [hnode, Option.some.injEq] at hnode'
      rw [← hnode', hlatest, Option.some.injEq] at hlatest'
      refine absurd (fun r hr => ?_) hdiffer
      obtain ⟨node'', hr⟩ := mem_values_getReplies.1 (hvalues ▸ hr)
      exact hlatest' ▸ hall node'' r hr
  · intro h
    refine ⟨fun r => ?_, notFound_iff⟩
    cases htext : Plenum.checkIfMoreThanFSameItems (texts numText (first :: rest)) c.f with
    | none =>
      rw [htext] at hreply
      have hcount := checkIfMoreThanFSameItems_eq_none htext (Json.dumps numText r)
      rw [weakQuorum_iff, hvalues]
      refine iff_of_false ?_ (by omega)
      rintro ⟨r', hr', -⟩
      rw [hreply, Prod.mk.injEq] at hr'
      cases hr'.1
    | some t =>
      rw [htext] at hreply
      obtain ⟨r', hr', ht⟩ := hreply
      have hr'quorum : WeakQuorum N numText c identifier reqId r' := by
        rw [weakQuorum_iff, hvalues, ht]
        exact (checkIfMoreThanFSameItems_eq_some htext).2
      constructor
      · rintro ⟨x, hx, hxr⟩
        rw [hr', Prod.mk.injEq, Option.some.injEq] at hx
        rw [weakQuorum_iff] at hr'quorum ⊢
        rwa [← hxr, ← hx.1]
      · intro hr
        exact ⟨r', hr', h.unique _ _ hr'quorum hr⟩

end Confirmed

/-- **When exactly the results with a weak quorum are confirmed.** -/
theorem getReply_iff (N : Numbers ν) (numText : ν → String) (c : Client ν) (identifier : String) (reqId : ℤ) :
    Exact N numText c identifier reqId ↔ OneText N numText c identifier reqId := by
  by_cases hfew : c.f + 1 > (getRepliesFromAllNodes N c identifier reqId).size
  · exact exact_few hfew
  · cases hvalues : (getRepliesFromAllNodes N c identifier reqId).values with
    | nil =>
      refine absurd ?_ hfew
      have hsize : (getRepliesFromAllNodes N c identifier reqId).size = 0 := by
        rw [Dict.size, ← List.length_map (f := Prod.snd)]
        exact congrArg List.length hvalues
      omega
    | cons first rest =>
      by_cases hsame : ∀ r ∈ first :: rest, r.value.same N first.value = true
      · exact exact_unanimous hvalues (not_lt.1 hfew) hsame
      · exact exact_counted hvalues (not_lt.1 hfew) hsame

/-! ## Witnesses -/

namespace TrueAndOne

/-- a truth value or a whole number; `True == 1` -/
inductive BoolOrInt where
  | bool (b : Bool)
  | int (n : ℤ)

def BoolOrInt.toInt : BoolOrInt → ℤ
  | .bool b => if b then 1 else 0
  | .int n => n

/-- `str(x)` -/
def BoolOrInt.str : BoolOrInt → String
  | .bool b => if b then "True" else "False"
  | .int n => toString n

/-- `json.dumps(x)` -/
def BoolOrInt.json : BoolOrInt → String
  | .bool b => if b then "true" else "false"
  | .int n => toString n

def numbers : Numbers BoolOrInt := ⟨.int, BoolOrInt.str, fun x y => x.toInt = y.toInt, fun x => x.toInt ≠ 0⟩

def result (x : BoolOrInt) : Result BoolOrInt where
  entries := [("identifier", .str "client"), ("reqId", .num (.int 1)), ("available", .num x)]
  valid := by simp [Value.Valid, Value.ValidEntries]
  hasIdentifier := rfl
  hasReqId := rfl

/-- four nodes, one of which may be faulty; two have answered -/
def client : Client BoolOrInt := ⟨getMaxFailures 4, [(.reply (result (.int 1)), "Alpha"), (.reply (result (.bool true)), "Beta")]⟩

end TrueAndOne

open TrueAndOne in
/-- **A result that one node has sent.** It is confirmed, since another node has sent one that is equal as a value. -/
theorem true_and_one : ¬ Exact numbers BoolOrInt.json client "client" 1 := by
  intro h
  have hconfirmed : getReply numbers BoolOrInt.json client "client" 1 = (some (result (.int 1)).value, .CONFIRMED) := by
    rfl
  have hquorum := (h.confirmed (result (.int 1)).value).1 ⟨_, hconfirmed, rfl⟩
  have hone : (supporters numbers BoolOrInt.json client "client" 1 (result (.int 1)).value).card = 1 := by
    decide +kernel
  unfold WeakQuorum at hquorum
  rw [hone] at hquorum
  exact absurd hquorum (by decide)

end Client

end Plenum
