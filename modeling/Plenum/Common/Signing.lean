/-
What a client signs: the serialization of a request, its digest, and the check of its signature.

- `Value`: what an operation is built from. Numbers are a parameter (`Numbers`): all that matters of them is how they
  print and when they are equal.
- `serialize` joins the items of a list with "," and the entries of a dictionary with "|", and neither quotes nor marks
  what it joins. A list of one item reads like the item (`serialize_wrap`).
- `ambiguous`: so every request has others with the same signed text, the same digest and the same valid signatures.
  `ambiguous_at`: if its operation is a dictionary, one that differs in the value of a single given field.
- `not_unambiguous`: no request can be told from all others by its signed text.
- `note_in_amount`: a note that is signed as such, and the same text as part of the amount.
-/
import Mathlib.Tactic
import Plenum.Core.Dict

namespace Plenum

namespace Signing

/-! ## Values -/

/-- the numbers of the language, as far as a signature depends on them -/
structure Numbers (ν : Type) where
  ofInt : ℤ → ν
  /-- `str(x)` -/
  str : ν → String
  /-- `x == y` -/
  eq : ν → ν → Bool
  /-- `bool(x)` -/
  truthy : ν → Bool

/-- a value of one of the `acceptableTypes` -/
inductive Value (ν : Type) where
  | str (s : String)
  | num (x : ν)
  | none
  | list (items : List (Value ν))
  | dict (entries : List (String × Value ν))

variable {ν : Type}

namespace Value

mutual

/-- no dictionary has a key twice -/
def Valid : Value ν → Prop
  | .str _ => True
  | .num _ => True
  | .none => True
  | .list items => ValidAll items
  | .dict entries => (entries.map Prod.fst).Nodup ∧ ValidEntries entries

def ValidAll : List (Value ν) → Prop
  | [] => True
  | v :: vs => v.Valid ∧ ValidAll vs

def ValidEntries : List (String × Value ν) → Prop
  | [] => True
  | (_, v) :: es => v.Valid ∧ ValidEntries es

end

mutual

/-- `v == w` -/
def same (N : Numbers ν) : Value ν → Value ν → Bool
  | .str s, .str t => s = t
  | .num x, .num y => N.eq x y
  | .none, .none => true
  | .list vs, .list ws => sameAll N vs ws
  | .dict es, .dict fs => es.length = fs.length && sameEntries N es fs
  | _, _ => false

def sameAll (N : Numbers ν) : List (Value ν) → List (Value ν) → Bool
  | [], [] => true
  | v :: vs, w :: ws => same N v w && sameAll N vs ws
  | _, _ => false

def sameEntries (N : Numbers ν) : List (String × Value ν) → List (String × Value ν) → Bool
  | [], _ => true
  | (k, v) :: es, fs => (fs.lookup k).any (same N v) && sameEntries N es fs

end

mutual

/-- how deep lists and dictionaries are nested -/
def depth : Value ν → ℕ
  | .str _ => 0
  | .num _ => 0
  | .none => 0
  | .list items => depthAll items + 1
  | .dict entries => depthEntries entries + 1

def depthAll : List (Value ν) → ℕ
  | [] => 0
  | v :: vs => max v.depth (depthAll vs)

def depthEntries : List (String × Value ν) → ℕ
  | [] => 0
  | (_, v) :: es => max v.depth (depthEntries es)

end

/-- `bool(v)` -/
def truthy (N : Numbers ν) : Value ν → Bool
  | .str s => s ≠ ""
  | .num x => N.truthy x
  | .none => false
  | .list items => !items.isEmpty
  | .dict entries => !entries.isEmpty

end Value

/-! ## Serialization -/

mutual

/-- `serialize(obj, level, topLevelKeysToIgnore=...)`; the keys of a dictionary are sorted with their texts -/
def serialize (N : Numbers ν) : Value ν → ℕ → List String → String
  | .str s, _, _ => s
  | .num x, _, _ => N.str x
  | .none, _, _ => ""
  | .list items, level, _ => ",".intercalate (serializeAll N items level)
  | .dict entries, level, topLevelKeysToIgnore =>
    let strs := (serializeEntries N entries level).filter fun e => level > 0 ∨ e.1 ∉ topLevelKeysToIgnore
    "|".intercalate ((strs.insertionSort fun a b => a.1 ≤ b.1).map fun e => e.1 ++ ":" ++ e.2)

def serializeAll (N : Numbers ν) : List (Value ν) → ℕ → List String
  | [], _ => []
  | v :: vs, level => serialize N v (level + 1) [] :: serializeAll N vs level

def serializeEntries (N : Numbers ν) : List (String × Value ν) → ℕ → List (String × String)
  | [], _ => []
  | (k, v) :: es, level => (k, serialize N v (level + 1) []) :: serializeEntries N es level

end

def serializeMsg (N : Numbers ν) (msg : Value ν) (topLevelKeysToIgnore : List String) : ByteArray :=
  (serialize N msg 0 topLevelKeysToIgnore).toUTF8

/-! ## Requests -/

/-- a client's request; its operation is a value of the language -/
structure Request (ν : Type) where
  identifier : Option String
  reqId : Option ℤ
  operation : Value ν
  signature : Option String
  valid : operation.Valid

/-- an attribute that may be `None` -/
def orNone {α : Type} (f : α → Value ν) : Option α → Value ν
  | some a => f a
  | none => .none

namespace Request

def signingState (N : Numbers ν) (x : Request ν) : Value ν :=
  .dict [("identifier", orNone .str x.identifier), ("reqId", orNone (fun n => .num (N.ofInt n)) x.reqId),
    ("operation", x.operation)]

def asDict (N : Numbers ν) (x : Request ν) : List (String × Value ν) :=
  [("identifier", orNone .str x.identifier), ("reqId", orNone (fun n => .num (N.ofInt n)) x.reqId),
    ("operation", x.operation), ("signature", orNone .str x.signature)]

/-- `sha256(serializeMsg(self.signingState)).hexdigest()` -/
def getDigest {δ : Type} (N : Numbers ν) (sha256 : ByteArray → δ) (x : Request ν) : δ :=
  sha256 (serializeMsg N (x.signingState N) [])

end Request

/-! ## Authentication -/

inductive SigningException (ν : Type) where
  | couldNotAuthenticate
  | missingSignature (identifier reqId : Value ν)
  | emptySignature (identifier reqId : Value ν)
  | invalidSignatureFormat
  | invalidSignature
  | missingIdentifier (identifier reqId : Value ν)
  | emptyIdentifier (identifier reqId : Value ν)
  | unknownIdentifier (identifier : Value ν)

/-- what escapes from a call: a `SigningException`, or any other exception -/
inductive Raised (ν : Type) where
  | signing (e : SigningException ν)
  | other

/-- what an authenticator uses: the decoding of signatures, the keys, and the check with a key. `σ` is a decoded
signature, `κ` a key. -/
structure ClientAuthNr (ν σ κ : Type) where
  /-- `base58.b58decode`, `none` where it raises -/
  b58decode : Value ν → Option σ
  getVerkey : Value ν → Except (Raised ν) κ
  /-- `DidVerifier(verkey, identifier)`, `none` where it raises; else its `verify` -/
  didVerifier : κ → Value ν → Option (σ → ByteArray → Bool)

namespace ClientAuthNr

variable {σ κ : Type}

/-- `msg.get(k)` -/
def msgGet (msg : List (String × Value ν)) (k : String) : Value ν := (msg.lookup k).getD .none

/-- the signature given, or else the one of the message -/
def signatureOf (N : Numbers ν) (msg : List (String × Value ν)) (signature : Value ν) : Except (Raised ν) (Value ν) :=
  if signature.truthy N then .ok signature
  else
    match msg.lookup "signature" with
    | some s =>
      if s.truthy N then .ok s
      else .error (.signing (.emptySignature (msgGet msg "identifier") (msgGet msg "reqId")))
    | none => .error (.signing (.missingSignature (msgGet msg "identifier") (msgGet msg "reqId")))

/-- the identifier given, or else the one of the message -/
def identifierOf (N : Numbers ν) (msg : List (String × Value ν)) (identifier : Value ν) : Except (Raised ν) (Value ν) :=
  if identifier.truthy N then .ok identifier
  else
    match msg.lookup "identifier" with
    | some i => if i.truthy N then .ok i else .error (.signing (.emptyIdentifier .none (msgGet msg "reqId")))
    | none => .error (.signing (.missingIdentifier identifier (msgGet msg "reqId")))

/-- the body of the outer `try` -/
def authenticateBody (N : Numbers ν) (A : ClientAuthNr ν σ κ) (msg : List (String × Value ν))
    (identifier signature : Value ν) : Except (Raised ν) (Value ν) := do
  let signature ← signatureOf N msg signature
  let identifier ← identifierOf N msg identifier
  let sig ← (A.b58decode signature).elim (.error (.signing .invalidSignatureFormat)) .ok
  let ser := serializeMsg N (.dict msg) ["signature"]
  let verkey ← A.getVerkey identifier
  let verify ← (A.didVerifier verkey identifier).elim (.error .other) .ok
  if verify sig ser then .ok identifier else .error (.signing .invalidSignature)

/-- `NaclAuthNr.authenticate` -/
def authenticate (N : Numbers ν) (A : ClientAuthNr ν σ κ) (msg : List (String × Value ν))
    (identifier signature : Value ν) : Except (SigningException ν) (Value ν) :=
  match A.authenticateBody N msg identifier signature with
  | .ok idr => .ok idr
  | .error (.signing e) => .error e
  | .error .other => .error .couldNotAuthenticate

end ClientAuthNr

/-! ## Which requests are told apart -/

/-- the requests are different requests: their signing states differ as values -/
def Differ (N : Numbers ν) (y x : Request ν) : Prop := (y.signingState N).same N (x.signingState N) = false

/-- no other request has the signed text of `x` -/
def Unambiguous (N : Numbers ν) (x : Request ν) : Prop :=
  ∀ y, Differ N y x → serializeMsg N (y.signingState N) [] ≠ serializeMsg N (x.signingState N) []

/-- no other request has the digest of `x` -/
def DigestUnique {δ : Type} (N : Numbers ν) (sha256 : ByteArray → δ) (x : Request ν) : Prop :=
  ∀ y, Differ N y x → y.getDigest N sha256 ≠ x.getDigest N sha256

/-- the signature of the request is accepted -/
def Accepted {σ κ : Type} (N : Numbers ν) (A : ClientAuthNr ν σ κ) (x : Request ν) : Prop :=
  ∃ idr, A.authenticate N (x.asDict N) .none .none = .ok idr

/-- the signature that `x` carries is not accepted for any other request -/
def SignatureBound {σ κ : Type} (N : Numbers ν) (A : ClientAuthNr ν σ κ) (x : Request ν) : Prop :=
  ∀ y, Differ N y x → y.signature = x.signature → ¬ Accepted N A y

/-! ## Equal values are nested equally deep -/

namespace Value

variable {N : Numbers ν}

theorem depth_le_depthEntries {k : String} {v : Value ν} {es : List (String × Value ν)} (h : es.lookup k = some v) :
    v.depth ≤ depthEntries es := by
  induction es with
  | nil => simp at h
  | cons e es ih =>
    obtain ⟨k', w⟩ := e
    rw [List.lookup_cons] at h
    simp only [depthEntries]
    cases hk : k == k' with
    | true =>
      rw [hk] at h
      obtain rfl := Option.some.inj h
      exact le_max_left _ _
    | false =>
      rw [hk] at h
      exact (ih h).trans (le_max_right _ _)

mutual

theorem depth_le_of_same : ∀ {v w : Value ν}, v.same N w = true → v.depth ≤ w.depth
  | .str _, _, _ => Nat.zero_le _
  | .num _, _, _ => Nat.zero_le _
  | .none, _, _ => Nat.zero_le _
  | .list vs, w, h => by
    cases w with
    | list ws => exact Nat.succ_le_succ (depthAll_le_of_same (by simpa only [same] using h))
    | _ => simp [same] at h
  | .dict es, w, h => by
    cases w with
    | dict fs =>
      simp only [same, Bool.and_eq_true] at h
      exact Nat.succ_le_succ (depthEntries_le_of_same h.2)
    | _ => simp [same] at h

theorem depthAll_le_of_same : ∀ {vs ws : List (Value ν)}, sameAll N vs ws = true → depthAll vs ≤ depthAll ws
  | [], _, _ => Nat.zero_le _
  | v :: vs, ws, h => by
    cases ws with
    | nil => simp [sameAll] at h
    | cons w ws =>
      simp only [sameAll, Bool.and_eq_true] at h
      exact max_le_max (depth_le_of_same h.1) (depthAll_le_of_same h.2)

theorem depthEntries_le_of_same : ∀ {es fs : List (String × Value ν)}, sameEntries N es fs = true →
    depthEntries es ≤ depthEntries fs
  | [], _, _ => Nat.zero_le _
  | (k, v) :: es, fs, h => by
    simp only [sameEntries, Bool.and_eq_true, Option.any_eq_true] at h
    obtain ⟨⟨w, hw, hsame⟩, hrest⟩ := h
    exact max_le ((depth_le_of_same hsame).trans (depth_le_depthEntries hw)) (depthEntries_le_of_same hrest)

end

/-- the list that holds a value is another value -/
theorem not_same_wrap (v : Value ν) : (Value.list [v]).same N v = false := by
  apply Bool.eq_false_iff.2
  intro h
  have hdepth := depth_le_of_same h
  simp only [depth, depthAll] at hdepth
  omega

theorem sameEntries_lookup {es fs : List (String × Value ν)} (h : sameEntries N es fs = true) {k : String} {v : Value ν}
    (hv : (k, v) ∈ es) : ∃ w, fs.lookup k = some w ∧ v.same N w = true := by
  induction es with
  | nil => simp at hv
  | cons e es ih =>
    obtain ⟨k', v'⟩ := e
    simp only [sameEntries, Bool.and_eq_true, Option.any_eq_true] at h
    rcases List.mem_cons.1 hv with heq | hv
    · cases heq
      exact h.1
    · exact ih h.2 hv

theorem lookup_of_mem {k : String} {v : Value ν} {es : List (String × Value ν)} (hnodup : (es.map Prod.fst).Nodup)
    (h : (k, v) ∈ es) : es.lookup k = some v := by
  induction es with
  | nil => simp at h
  | cons e es ih =>
    obtain ⟨hfresh, hnodup⟩ := List.nodup_cons.1 hnodup
    rw [List.lookup_cons]
    rcases List.mem_cons.1 h with rfl | h
    · simp
    · have hne : k ≠ e.1 := fun heq => hfresh (heq ▸ List.mem_map_of_mem h)
      rw [beq_false_of_ne hne]
      exact ih hnodup h

/-! ## A value and the list that holds it -/

/-- a list of the value that stands under `k`, in its place -/
def wrapAt (k : String) (entries : List (String × Value ν)) : List (String × Value ν) :=
  entries.map fun e => if e.1 = k then (e.1, .list [e.2]) else e

theorem wrapAt_fst (k : String) (entries : List (String × Value ν)) :
    (wrapAt k entries).map Prod.fst = entries.map Prod.fst := by
  unfold wrapAt
  rw [List.map_map]
  refine List.map_congr_left fun e _ => ?_
  by_cases h : e.1 = k <;> simp [h]

theorem validEntries_iff {es : List (String × Value ν)} : ValidEntries es ↔ ∀ e ∈ es, e.2.Valid := by
  induction es with
  | nil => simp [ValidEntries]
  | cons e es ih => simp [ValidEntries, ih]

theorem Valid.wrap {v : Value ν} (h : v.Valid) : (Value.list [v]).Valid := by
  simp only [Valid, ValidAll]
  exact ⟨h, trivial⟩

theorem Valid.wrapAt {entries : List (String × Value ν)} (h : (Value.dict entries).Valid) (k : String) :
    (Value.dict (wrapAt k entries)).Valid := by
  simp only [Valid] at h ⊢
  rw [wrapAt_fst]
  refine ⟨h.1, validEntries_iff.2 fun e he => ?_⟩
  obtain ⟨e', he', rfl⟩ := List.mem_map.1 he
  have hvalid := validEntries_iff.1 h.2 e' he'
  split_ifs
  · exact hvalid.wrap
  · exact hvalid

theorem lookup_wrapAt {k k' : String} (entries : List (String × Value ν)) (h : k' ≠ k) :
    (wrapAt k entries).lookup k' = entries.lookup k' := by
  induction entries with
  | nil => rfl
  | cons e es ih =>
    have hcons : wrapAt k (e :: es) = (if e.1 = k then (e.1, .list [e.2]) else e) :: wrapAt k es := rfl
    rw [hcons]
    split_ifs with he
    · have hne : (k' == e.1) = false := beq_false_of_ne (he ▸ h)
      rw [List.lookup_cons, List.lookup_cons, hne]
      exact ih
    · rw [List.lookup_cons, List.lookup_cons, ih]

theorem not_same_wrapAt {entries : List (String × Value ν)} (hnodup : (entries.map Prod.fst).Nodup) {k : String}
    (hk : k ∈ entries.map Prod.fst) : (Value.dict (wrapAt k entries)).same N (.dict entries) = false := by
  apply Bool.eq_false_iff.2
  intro h
  simp only [same, Bool.and_eq_true] at h
  obtain ⟨⟨_, v⟩, hv, rfl⟩ := List.mem_map.1 hk
  have hmem : (_, Value.list [v]) ∈ wrapAt _ entries := List.mem_map.2 ⟨_, hv, if_pos rfl⟩
  obtain ⟨w, hw, hsame⟩ := sameEntries_lookup h.2 hmem
  rw [lookup_of_mem hnodup hv] at hw
  obtain rfl := Option.some.inj hw
  rw [not_same_wrap] at hsame
  exact Bool.false_ne_true hsame

end Value

open Value

/-! ## Below the top level the level does not matter -/

section Serialize

variable {N : Numbers ν}

mutual

theorem serialize_level : ∀ (v : Value ν) {l l' : ℕ} (ignore ignore' : List String), 0 < l → 0 < l' →
    serialize N v l ignore = serialize N v l' ignore'
  | .str _, _, _, _, _, _, _ => by simp only [serialize]
  | .num _, _, _, _, _, _, _ => by simp only [serialize]
  | .none, _, _, _, _, _, _ => by simp only [serialize]
  | .list items, l, l', _, _, _, _ => by
    simp only [serialize]
    rw [serializeAll_level items l l']
  | .dict entries, l, l', _, _, h, h' => by
    simp only [serialize]
    rw [serializeEntries_level entries l l']
    simp [h, h']

theorem serializeAll_level : ∀ (vs : List (Value ν)) (l l' : ℕ), serializeAll N vs l = serializeAll N vs l'
  | [], _, _ => by simp only [serializeAll]
  | v :: vs, l, l' => by
    simp only [serializeAll]
    rw [serialize_level v [] [] (Nat.succ_pos l) (Nat.succ_pos l'), serializeAll_level vs l l']

theorem serializeEntries_level : ∀ (es : List (String × Value ν)) (l l' : ℕ),
    serializeEntries N es l = serializeEntries N es l'
  | [], _, _ => by simp only [serializeEntries]
  | (k, v) :: es, l, l' => by
    simp only [serializeEntries]
    rw [serialize_level v [] [] (Nat.succ_pos l) (Nat.succ_pos l'), serializeEntries_level es l l']

end

/-- a list of one item reads like the item -/
theorem serialize_wrap (v : Value ν) {l : ℕ} (h : 0 < l) (ignore : List String) :
    serialize N (.list [v]) l ignore = serialize N v l ignore := by
  simp only [serialize, serializeAll]
  rw [serialize_level v [] ignore (Nat.succ_pos l) h]
  simp

theorem serializeEntries_wrapAt (k : String) (es : List (String × Value ν)) (l : ℕ) :
    serializeEntries N (wrapAt k es) l = serializeEntries N es l := by
  induction es with
  | nil => rfl
  | cons e es ih =>
    obtain ⟨k', v⟩ := e
    have hcons : wrapAt k ((k', v) :: es) = (if k' = k then (k', .list [v]) else (k', v)) :: wrapAt k es := rfl
    rw [hcons]
    split_ifs
    · simp only [serializeEntries]
      rw [ih, serialize_wrap v (Nat.succ_pos l)]
    · simp only [serializeEntries]
      rw [ih]

theorem serialize_wrapAt (k : String) (es : List (String × Value ν)) (l : ℕ) (ignore : List String) :
    serialize N (.dict (wrapAt k es)) l ignore = serialize N (.dict es) l ignore := by
  simp only [serialize]
  rw [serializeEntries_wrapAt]

end Serialize

/-! ## Requests that are signed alike -/

/-- the requests agree in all but the operation, and their operations read the same -/
structure SignedAlike (N : Numbers ν) (y x : Request ν) : Prop where
  identifier : y.identifier = x.identifier
  reqId : y.reqId = x.reqId
  signature : y.signature = x.signature
  operation : serialize N y.operation 1 [] = serialize N x.operation 1 []

section Alike

variable {N : Numbers ν} {x y : Request ν}

theorem SignedAlike.serializeMsg_eq (h : SignedAlike N y x) :
    serializeMsg N (y.signingState N) [] = serializeMsg N (x.signingState N) [] := by
  unfold serializeMsg Request.signingState
  simp only [serialize, serializeEntries, h.identifier, h.reqId, h.operation]

theorem SignedAlike.serializeMsg_asDict_eq (h : SignedAlike N y x) (ignore : List String) :
    serializeMsg N (.dict (y.asDict N)) ignore = serializeMsg N (.dict (x.asDict N)) ignore := by
  unfold serializeMsg Request.asDict
  simp only [serialize, serializeEntries, h.identifier, h.reqId, h.operation, h.signature]

theorem SignedAlike.getDigest_eq {δ : Type} (h : SignedAlike N y x) (sha256 : ByteArray → δ) :
    y.getDigest N sha256 = x.getDigest N sha256 := by
  unfold Request.getDigest
  rw [h.serializeMsg_eq]

/-- the check of the signature reads the operation in the signed text only -/
theorem SignedAlike.authenticate_eq {σ κ : Type} (h : SignedAlike N y x) (A : ClientAuthNr ν σ κ) :
    A.authenticate N (y.asDict N) .none .none = A.authenticate N (x.asDict N) .none .none := by
  have hlookup : ∀ k, k ≠ "operation" → (y.asDict N).lookup k = (x.asDict N).lookup k := by
    intro k hk
    simp only [Request.asDict, List.lookup_cons, h.identifier, h.reqId, h.signature, beq_false_of_ne hk]
  unfold ClientAuthNr.authenticate ClientAuthNr.authenticateBody ClientAuthNr.signatureOf ClientAuthNr.identifierOf
    ClientAuthNr.msgGet
  rw [h.serializeMsg_asDict_eq, hlookup "signature" (by decide), hlookup "identifier" (by decide),
    hlookup "reqId" (by decide)]

theorem SignedAlike.accepted_iff {σ κ : Type} (h : SignedAlike N y x) (A : ClientAuthNr ν σ κ) :
    Accepted N A y ↔ Accepted N A x := by
  unfold Accepted
  rw [h.authenticate_eq]

theorem differ_of_operation (h : y.operation.same N x.operation = false) : Differ N y x := by
  unfold Differ Request.signingState
  simp [same, sameEntries, List.lookup_cons, h]

end Alike

/-- the request with its operation in a list -/
def Request.wrap (x : Request ν) : Request ν := { x with operation := .list [x.operation], valid := x.valid.wrap }

/-- **Every request is signed like another one.** -/
theorem ambiguous (N : Numbers ν) (x : Request ν) : ∃ y, Differ N y x ∧ SignedAlike N y x :=
  ⟨x.wrap, differ_of_operation (not_same_wrap x.operation), rfl, rfl, rfl, serialize_wrap x.operation Nat.one_pos []⟩

/-- if the operation is a dictionary, like one that differs under one key, which may be any -/
theorem ambiguous_at (N : Numbers ν) {x : Request ν} {entries : List (String × Value ν)}
    (hop : x.operation = .dict entries) {k : String} (hk : k ∈ entries.map Prod.fst) :
    ∃ y, Differ N y x ∧ SignedAlike N y x ∧ ∃ entries', y.operation = .dict entries' ∧
      entries'.map Prod.fst = entries.map Prod.fst ∧ ∀ k', k' ≠ k → entries'.lookup k' = entries.lookup k' := by
  have hvalid : (Value.dict entries).Valid := hop ▸ x.valid
  have hnodup : (entries.map Prod.fst).Nodup := by
    simp only [Valid] at hvalid
    exact hvalid.1
  refine ⟨{ x with operation := .dict (wrapAt k entries), valid := hvalid.wrapAt k }, ?_, ⟨rfl, rfl, rfl, ?_⟩, _, rfl,
    wrapAt_fst k entries, fun k' hk' => lookup_wrapAt entries hk'⟩
  · apply differ_of_operation
    rw [hop]
    exact not_same_wrapAt hnodup hk
  · rw [hop]
    exact serialize_wrapAt k entries 1 []

/-- **No request can be told from all others by what is signed.** Neither its signed text nor its digest is its own,
and where its signature is accepted, it is accepted for another request too. -/
theorem not_unambiguous {σ κ δ : Type} (N : Numbers ν) (x : Request ν) (sha256 : ByteArray → δ)
    (A : ClientAuthNr ν σ κ) :
    ¬ Unambiguous N x ∧ ¬ DigestUnique N sha256 x ∧ ¬ (Accepted N A x ∧ SignatureBound N A x) := by
  obtain ⟨y, hdiffer, halike⟩ := ambiguous N x
  refine ⟨fun h => h y hdiffer halike.serializeMsg_eq, fun h => h y hdiffer (halike.getDigest_eq sha256), ?_⟩
  rintro ⟨haccepted, hbound⟩
  exact hbound y hdiffer halike.signature ((halike.accepted_iff A).2 haccepted)

/-! ## Witnesses -/

namespace TwoRequests

/-- integers only -/
def integers : Numbers ℤ := ⟨id, toString, fun a b => a = b, fun a => a ≠ 0⟩

/-- a client buys ten, with a note -/
def withNote : Request ℤ where
  identifier := some "client"
  reqId := some 1
  operation := .dict [("type", .str "buy"), ("amount", .str "10"), ("note", .str "x")]
  signature := some "sig"
  valid := by simp [Valid, ValidEntries]

/-- the note is part of the amount -/
def noteInAmount : Request ℤ where
  identifier := some "client"
  reqId := some 1
  operation := .dict [("type", .str "buy"), ("amount", .str "10|note:x")]
  signature := some "sig"
  valid := by simp [Valid, ValidEntries]

end TwoRequests

open TwoRequests in
/-- **Two requests with one signed text.** Their operations are dictionaries of strings. -/
theorem note_in_amount : Differ integers noteInAmount withNote ∧
    serializeMsg integers (noteInAmount.signingState integers) [] =
      serializeMsg integers (withNote.signingState integers) [] := by
  unfold Differ
  decide +kernel

end Signing

end Plenum
