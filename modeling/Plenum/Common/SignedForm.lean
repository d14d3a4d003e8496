/-
The signed form of a value does not depend on the order of the keys of its dictionaries.

- `Reordered v w`: `w` is `v` with the entries of its dictionaries in another order, at any depth. The order of a list is
  kept.
- `sortKeys_eq_of_perm`: sorting forgets the order in which entries with distinct keys are given.
- `Reordered.serialize_eq`: values that differ in the order of keys are serialized alike, at every level and with any keys
  left out at the top.
- `reordered_reloaded`: JSON with sorted keys is a transport that reorders keys and changes nothing else.
- `signed_form_key_order`: so a signature is accepted after any such transport exactly if it was before.
-/
import Mathlib.Tactic
import Plenum.Common.Json

namespace Plenum

namespace Signing

open Json

variable {ν : Type}

/-! ## Values that differ in the order of their keys -/

mutual

/-- the same value, but for the order of the entries of its dictionaries -/
inductive Reordered : Value ν → Value ν → Prop
  | str (s : String) : Reordered (.str s) (.str s)
  | num (x : ν) : Reordered (.num x) (.num x)
  | none : Reordered .none .none
  | list {vs ws : List (Value ν)} (h : ReorderedAll vs ws) : Reordered (.list vs) (.list ws)
  | dict {es fs gs : List (String × Value ν)} (h : ReorderedEntries es fs) (hperm : fs.Perm gs) :
    Reordered (.dict es) (.dict gs)

/-- item by item -/
inductive ReorderedAll : List (Value ν) → List (Value ν) → Prop
  | nil : ReorderedAll [] []
  | cons {v w : Value ν} {vs ws : List (Value ν)} (h : Reordered v w) (hs : ReorderedAll vs ws) :
    ReorderedAll (v :: vs) (w :: ws)

/-- entry by entry, under the same keys -/
inductive ReorderedEntries : List (String × Value ν) → List (String × Value ν) → Prop
  | nil : ReorderedEntries [] []
  | cons {k : String} {v w : Value ν} {es fs : List (String × Value ν)} (h : Reordered v w) (hs : ReorderedEntries es fs) :
    ReorderedEntries ((k, v) :: es) ((k, w) :: fs)

end

theorem ReorderedEntries.keys_eq {es fs : List (String × Value ν)} (h : ReorderedEntries es fs) :
    fs.map Prod.fst = es.map Prod.fst := by
  induction fs generalizing es with
  | nil =>
    cases h
    rfl
  | cons f fs ih =>
    cases h with
    | cons hv hs => rw [List.map_cons, List.map_cons, ih hs]

/-! ## Sorting -/

/-- the order in which entries are given does not matter if no key is given twice -/
theorem sortKeys_eq_of_perm {α : Type} {l l' : List (String × α)} (hperm : l.Perm l') (hnodup : (l.map Prod.fst).Nodup) :
    sortKeys l = sortKeys l' := by
  have hl : (sortKeys l).Perm l := List.perm_insertionSort KeyLE l
  have hl' : (sortKeys l').Perm l' := List.perm_insertionSort KeyLE l'
  have hantisymm : ∀ a b, a ∈ sortKeys l → b ∈ sortKeys l' → KeyLE a b → KeyLE b a → a = b := by
    intro a b ha hb hab hba
    exact List.inj_on_of_nodup_map hnodup (hl.subset ha) (hperm.symm.subset (hl'.subset hb)) (le_antisymm hab hba)
  refine List.Perm.eq_of_pairwise hantisymm ?_ ?_ ((hl.trans hperm).trans hl'.symm)
  · exact List.pairwise_insertionSort KeyLE l
  · exact List.pairwise_insertionSort KeyLE l'

/-! ## Serialization -/

variable {N : Numbers ν} {level : ℕ} {ignore : List String}

/-- the entries of a dictionary that are not left out -/
def kept (level : ℕ) (ignore : List String) (strs : List (String × String)) : List (String × String) :=
  strs.filter fun e => level > 0 ∨ e.1 ∉ ignore

theorem serialize_dict (entries : List (String × Value ν)) :
    serialize N (.dict entries) level ignore =
      "|".intercalate ((sortKeys (kept level ignore (serializeEntries N entries level))).map fun e => e.1 ++ ":" ++ e.2) := by
  rw [serialize]
  rfl

theorem serializeEntries_eq (entries : List (String × Value ν)) :
    serializeEntries N entries level = entries.map fun e => (e.1, serialize N e.2 (level + 1) []) := by
  induction entries with
  | nil => rw [serializeEntries, List.map_nil]
  | cons e es ih => rw [serializeEntries, ih, List.map_cons]

/-- the entries in another order -/
theorem serialize_dict_perm {fs gs : List (String × Value ν)} (hperm : fs.Perm gs) (hnodup : (fs.map Prod.fst).Nodup) :
    serialize N (.dict fs) level ignore = serialize N (.dict gs) level ignore := by
  rw [serialize_dict, serialize_dict]
  have hkept : (kept level ignore (serializeEntries N fs level)).Perm (kept level ignore (serializeEntries N gs level)) := by
    rw [serializeEntries_eq, serializeEntries_eq]
    exact (hperm.map _).filter _
  have hkeys : ((kept level ignore (serializeEntries N fs level)).map Prod.fst).Nodup := by
    refine List.Nodup.sublist (List.filter_sublist.map Prod.fst) ?_
    rw [serializeEntries_eq, List.map_map]
    exact hnodup
  rw [sortKeys_eq_of_perm hkept hkeys]

mutual

/-- **Values that differ in the order of their keys are serialized alike.** -/
theorem Reordered.serialize_eq : ∀ {v w : Value ν}, Reordered v w → v.Valid → ∀ (level : ℕ) (ignore : List String),
    serialize N v level ignore = serialize N w level ignore
  | _, _, .str _, _, _, _ => rfl
  | _, _, .num _, _, _, _ => rfl
  | _, _, .none, _, _, _ => rfl
  | _, _, .list h, hv, level, _ => by
    simp only [Value.Valid] at hv
    rw [serialize, serialize, h.serializeAll_eq hv level]
  | _, _, .dict h hperm, hv, level, ignore => by
    simp only [Value.Valid] at hv
    have hsame := h.serializeEntries_eq hv.2 level
    rw [← serialize_dict_perm hperm (h.keys_eq ▸ hv.1), serialize_dict, serialize_dict, hsame]

theorem ReorderedAll.serializeAll_eq : ∀ {vs ws : List (Value ν)}, ReorderedAll vs ws → Value.ValidAll vs →
    ∀ level : ℕ, serializeAll N vs level = serializeAll N ws level
  | _, _, .nil, _, _ => rfl
  | _, _, .cons h hs, hv, level => by
    simp only [Value.ValidAll] at hv
    rw [serializeAll, serializeAll, h.serialize_eq hv.1, hs.serializeAll_eq hv.2]

theorem ReorderedEntries.serializeEntries_eq : ∀ {es fs : List (String × Value ν)}, ReorderedEntries es fs →
    Value.ValidEntries es → ∀ level : ℕ, serializeEntries N es level = serializeEntries N fs level
  | _, _, .nil, _, _ => rfl
  | _, _, .cons h hs, hv, level => by
    simp only [Value.ValidEntries] at hv
    rw [serializeEntries, serializeEntries, h.serialize_eq hv.1, hs.serializeEntries_eq hv.2]

end

/-! ## A transport that sorts keys -/

mutual

/-- what is read back from JSON with sorted keys -/
theorem reordered_reloaded : ∀ v : Value ν, Reordered v (reloaded v)
  | .str s => .str s
  | .num x => .num x
  | .none => .none
  | .list items => .list (reordered_reloadedAll items)
  | .dict entries => .dict (reordered_reloadedEntries entries) (List.perm_insertionSort KeyLE _).symm

theorem reordered_reloadedAll : ∀ vs : List (Value ν), ReorderedAll vs (reloadedAll vs)
  | [] => .nil
  | v :: vs => .cons (reordered_reloaded v) (reordered_reloadedAll vs)

theorem reordered_reloadedEntries : ∀ es : List (String × Value ν), ReorderedEntries es (reloadedEntries es)
  | [] => .nil
  | (_, v) :: es => .cons (reordered_reloaded v) (reordered_reloadedEntries es)

end

/-! ## Signatures -/

/-- requests whose operations differ in the order of keys only -/
structure ReorderedRequest (x y : Request ν) : Prop where
  identifier : y.identifier = x.identifier
  reqId : y.reqId = x.reqId
  signature : y.signature = x.signature
  operation : Reordered x.operation y.operation

theorem ReorderedRequest.signedAlike {x y : Request ν} (h : ReorderedRequest x y) : SignedAlike N y x :=
  ⟨h.identifier, h.reqId, h.signature, (h.operation.serialize_eq x.valid 1 []).symm⟩

/-- **The signed form does not depend on the order of keys.** For every value in which no dictionary has a key twice, and
every reordering of the entries of its dictionaries at any depth: the serialization is the same text, at every level and
with any keys to ignore at the top, and so are the bytes that are signed. Requests whose operations differ in this way have
the same digest, and every check of their signatures has the same outcome. -/
theorem signed_form_key_order (N : Numbers ν) {v w : Value ν} (hv : v.Valid) (h : Reordered v w) :
    (∀ (level : ℕ) (topLevelKeysToIgnore : List String),
      serialize N v level topLevelKeysToIgnore = serialize N w level topLevelKeysToIgnore) ∧
    (∀ topLevelKeysToIgnore : List String,
      serializeMsg N v topLevelKeysToIgnore = serializeMsg N w topLevelKeysToIgnore) ∧
    (∀ (δ σ κ : Type) (sha256 : ByteArray → δ) (A : ClientAuthNr ν σ κ) (x y : Request ν), ReorderedRequest x y →
      y.getDigest N sha256 = x.getDigest N sha256 ∧
        A.authenticate N (y.asDict N) .none .none = A.authenticate N (x.asDict N) .none .none) := by
  refine ⟨h.serialize_eq hv, ?_, ?_⟩
  · intro ignore
    unfold serializeMsg
    rw [h.serialize_eq hv 0 ignore]
  · intro δ σ κ sha256 A x y hxy
    exact ⟨hxy.signedAlike.getDigest_eq sha256, hxy.signedAlike.authenticate_eq A⟩

/-! ## Witness -/

namespace TwoRequests

/-- a purchase with its items, in the order in which the client gives the keys -/
def purchase : Value ℤ :=
  .dict [("type", .str "buy"), ("items", .list [.dict [("name", .str "pen"), ("count", .num 2)], .none]), ("note", .str "x")]

/-- the same in another order -/
def purchaseReordered : Value ℤ :=
  .dict [("note", .str "x"), ("type", .str "buy"), ("items", .list [.dict [("count", .num 2), ("name", .str "pen")], .none])]

theorem reordered_purchase : Reordered purchase purchaseReordered := by
  have hitem : Reordered (.dict [("name", .str "pen"), ("count", .num 2)]) (.dict [("count", .num 2), ("name", .str "pen")] :
      Value ℤ) := .dict (.cons (.str _) (.cons (.num _) .nil)) (List.Perm.swap _ _ _)
  have hitems := Reordered.list (.cons hitem (.cons .none .nil))
  exact .dict (.cons (.str _) (.cons hitems (.cons (.str _) .nil))) (@List.perm_append_comm _ [_, _] [_])

end TwoRequests

open TwoRequests in
/-- the keys of a purchase and of the item in it in another order, and the note left out -/
theorem signed_form_key_order_purchase :
    serialize integers purchase 0 ["note"] = serialize integers purchaseReordered 0 ["note"] ∧
    serialize integers purchase 0 ["note"] = "items:count:2|name:pen,|type:buy" := by
  refine ⟨(signed_form_key_order integers ?_ reordered_purchase).1 0 ["note"], by decide +kernel⟩
  simp [purchase, Value.Valid, Value.ValidAll, Value.ValidEntries]

end Signing

end Plenum
