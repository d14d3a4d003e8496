/-
Who can speak for an identifier: the keys a node has registered, and the requests it authenticates with them.

- `SimpleAuthNr`, `addNewRole`: the clients with their verkeys, and how an executed NYM transaction adds one.
- `SimpleAuthNr.toAuthNr`: the authenticator with these clients; for others it looks into the state.
- `Registered`: the key of an identifier has been registered, and no other one. It may be written in any of the ways.
- `authenticate_iff`: then just the messages signed with this key are authenticated for the identifier.
- `signed_authenticated`: what a wallet has signed is authenticated, in whatever order its keys arrive.
-/
import Mathlib.Tactic
import Plenum.Client.Wallet
import Plenum.Common.SignedForm
import Plenum.Server.ReqHandler

namespace Plenum

open Plenum.Core

namespace Signing

variable {B : Base58Codec} {K : Nacl} {ν : Type}

/-! ## The clients of a node -/

/-- what a NYM transaction says of the client that it adds -/
structure NymTxn where
  dest : String
  verkey : Option String
  role : Option String

/-- the verkeys and roles of the clients -/
structure SimpleAuthNr where
  clients : Dict String (String × Option String)

namespace SimpleAuthNr

def empty : SimpleAuthNr := ⟨Dict.empty⟩

def addIdr (A : SimpleAuthNr) (identifier verkey : String) (role : Option String) : SimpleAuthNr :=
  ⟨A.clients.set identifier (verkey, role)⟩

/-- `Node.addNewRole`, `none` where it raises -/
def addNewRole (B : Base58Codec) (K : Nacl) (A : SimpleAuthNr) (txn : NymTxn) : Option SimpleAuthNr :=
  (didVerifier B K txn.verkey txn.dest).map fun v =>
    if A.clients.contains txn.dest then A
    else if txn.role ∉ [some STEWARD, none] then A
    else A.addIdr txn.dest v.1 txn.role

/-- one call after the other; one that raises changes nothing -/
def addNewRoles (B : Base58Codec) (K : Nacl) (A : SimpleAuthNr) (txns : List NymTxn) : SimpleAuthNr :=
  txns.foldl (fun A txn => (A.addNewRole B K txn).getD A) A

/-- `nymDetails idr` is the verkey that the uncommitted state has for the identifier -/
def toAuthNr (B : Base58Codec) (K : Nacl) (A : SimpleAuthNr) (nymDetails : String → Option (Option String)) :
    ClientAuthNr ν (List UInt8) (Option String) where
  b58decode
    | .str text => B.b58decode text
    | _ => none
  getVerkey
    | .str identifier =>
      match A.clients.get? identifier with
      | some (verkey, _) => .ok (some verkey)
      | none =>
        match nymDetails identifier with
        | some verkey => .ok verkey
        | none => .error (.signing (.unknownIdentifier (.str identifier)))
    | _ => .error .other
  didVerifier verkey
    | .str identifier => (didVerifier B K verkey identifier).map Prod.snd
    | _ => none

end SimpleAuthNr

/-! ## The key of an identifier -/

/-- in the calls and in the state the identifier has no other key than `raw`, and it is in one of them -/
structure Registered (B : Base58Codec) (raw : List UInt8) (identifier : String) (txns : List NymTxn)
    (nymDetails : String → Option (Option String)) : Prop where
  added : ∀ txn ∈ txns, txn.dest = identifier → Written B raw identifier txn.verkey
  state : ∀ verkey, nymDetails identifier = some verkey → Written B raw identifier verkey
  known : (nymDetails identifier).isSome ∨
    ∃ txn ∈ txns, txn.dest = identifier ∧ txn.role ∈ [some STEWARD, none]

section Key

variable {raw : List UInt8} {identifier : String} {A : SimpleAuthNr} {verify : List UInt8 → ByteArray → Bool}

/-- if the identifier is a client, its verkey is the whole key -/
def HasKey (B : Base58Codec) (raw : List UInt8) (identifier : String) (A : SimpleAuthNr) : Prop :=
  ∀ c, A.clients.get? identifier = some c → c.1 = B.b58encode raw

theorem HasKey.addNewRole (h : HasKey B raw identifier A) (hraw : raw.length = 32) {txn : NymTxn}
    (htxn : txn.dest = identifier → Written B raw identifier txn.verkey) :
    HasKey B raw identifier ((A.addNewRole B K txn).getD A) := by
  unfold SimpleAuthNr.addNewRole
  cases hv : didVerifier B K txn.verkey txn.dest with
  | none => exact h
  | some v =>
    rw [Option.map_some, Option.getD_some]
    split_ifs with hclient hrole
    · exact h
    · intro c hc
      unfold SimpleAuthNr.addIdr at hc
      dsimp only at hc
      rw [Dict.get?_set] at hc
      split_ifs at hc with hdest
      · cases hc
        have hwritten := htxn hdest.symm
        rw [← hdest, hwritten.didVerifier_eq hraw] at hv
        obtain ⟨verify, -, rfl⟩ := Option.map_eq_some_iff.1 hv
        rfl
      · exact h c hc
    · exact h

/-- a call adds no client if there is one, and removes none -/
theorem isSome_addNewRole {txn : NymTxn} (h : (A.clients.get? identifier).isSome) :
    (((A.addNewRole B K txn).getD A).clients.get? identifier).isSome := by
  unfold SimpleAuthNr.addNewRole
  cases didVerifier B K txn.verkey txn.dest with
  | none => exact h
  | some v =>
    rw [Option.map_some, Option.getD_some]
    split_ifs
    · exact h
    · unfold SimpleAuthNr.addIdr
      dsimp only
      rw [Dict.get?_set]
      split_ifs
      · rfl
      · exact h
    · exact h

/-- the call for a NYM transaction of the identifier makes it a client -/
theorem addNewRole_isSome (hraw : raw.length = 32) (hverifier : K.verifier raw = some verify) {txn : NymTxn}
    (hdest : txn.dest = identifier) (hwritten : Written B raw identifier txn.verkey)
    (hrole : txn.role ∈ [some STEWARD, none]) :
    (((A.addNewRole B K txn).getD A).clients.get? identifier).isSome := by
  unfold SimpleAuthNr.addNewRole
  rw [hdest, hwritten.didVerifier_eq hraw, hverifier, Option.map_some, Option.map_some, Option.getD_some]
  split_ifs with hclient
  · exact hclient
  · unfold SimpleAuthNr.addIdr
    dsimp only
    rw [Dict.get?_set_self]
    rfl

/-- after all calls the identifier, if it is a client, has the whole key; and it is one if a transaction adds it -/
theorem hasKey_addNewRoles (hraw : raw.length = 32) (hverifier : K.verifier raw = some verify) {txns : List NymTxn}
    (htxns : ∀ txn ∈ txns, txn.dest = identifier → Written B raw identifier txn.verkey)
    (h : HasKey B raw identifier A) :
    HasKey B raw identifier (A.addNewRoles B K txns) ∧
      ((A.clients.get? identifier).isSome ∨
          (∃ txn ∈ txns, txn.dest = identifier ∧ txn.role ∈ [some STEWARD, none]) →
        ((A.addNewRoles B K txns).clients.get? identifier).isSome) := by
  induction txns generalizing A with
  | nil =>
    refine ⟨h, fun hor => hor.resolve_right ?_⟩
    rintro ⟨txn, htxn, -⟩
    cases htxn
  | cons txn txns ih =>
    have htxn := htxns txn List.mem_cons_self
    obtain ⟨hkey, hclient⟩ := ih (fun txn' htxn' => htxns txn' (List.mem_cons_of_mem txn htxn'))
      (h.addNewRole (K := K) hraw htxn)
    refine ⟨hkey, fun hor => hclient ?_⟩
    rcases hor with hold | ⟨txn', htxn', hdest, hrole⟩
    · exact Or.inl (isSome_addNewRole hold)
    · rcases List.mem_cons.1 htxn' with rfl | htxn'
      · exact Or.inl (addNewRole_isSome hraw hverifier hdest (htxn hdest) hrole)
      · exact Or.inr ⟨txn', htxn', hdest, hrole⟩

/-- the identifier is not empty and can be decoded -/
theorem Registered.decodes {txns : List NymTxn} {nymDetails : String → Option (Option String)}
    (h : Registered B raw identifier txns nymDetails) (hraw : raw.length = 32) :
    identifier ≠ "" ∧ (B.b58decode identifier).isSome := by
  rcases h.known with hstate | ⟨txn, htxn, hdest, -⟩
  · obtain ⟨verkey, hverkey⟩ := Option.isSome_iff_exists.1 hstate
    exact (h.state verkey hverkey).decodes hraw
  · exact (h.added txn htxn hdest).decodes hraw

/-- **The verifier of a registered identifier has its key.** -/
theorem Registered.verifier {txns : List NymTxn} {nymDetails : String → Option (Option String)}
    (h : Registered B raw identifier txns nymDetails) (hraw : raw.length = 32)
    (hverifier : K.verifier raw = some verify) :
    ∃ verkey, ((SimpleAuthNr.empty.addNewRoles B K txns).toAuthNr (ν := ν) B K nymDetails).getVerkey
        (.str identifier) = .ok verkey ∧
      ((SimpleAuthNr.empty.addNewRoles B K txns).toAuthNr (ν := ν) B K nymDetails).didVerifier verkey
        (.str identifier) = some verify := by
  obtain ⟨hkey, hclient⟩ := hasKey_addNewRoles (A := SimpleAuthNr.empty) hraw hverifier h.added
    fun c hc => by cases hc
  unfold SimpleAuthNr.toAuthNr
  dsimp only
  cases hget : (SimpleAuthNr.empty.addNewRoles B K txns).clients.get? identifier with
  | some c =>
    refine ⟨some c.1, rfl, ?_⟩
    have hidr := h.decodes hraw
    rw [hkey c hget, (Written.full hidr.1 hidr.2).didVerifier_eq hraw, hverifier]
    rfl
  | none =>
    have hstate : (nymDetails identifier).isSome := h.known.resolve_right fun hadded => by
      have hsome := hclient (Or.inr hadded)
      rw [hget] at hsome
      cases hsome
    obtain ⟨verkey, hverkey⟩ := Option.isSome_iff_exists.1 hstate
    refine ⟨verkey, by rw [hverkey], ?_⟩
    rw [(h.state verkey hverkey).didVerifier_eq hraw, hverifier]
    rfl

end Key

/-! ## Authentication -/

section Authenticate

variable {N : Numbers ν} {σ κ : Type} {A : ClientAuthNr ν σ κ} {msg : List (String × Value ν)} {identifier : String}

/-- the signature of a message is what it has under this key -/
theorem lookup_of_signatureOf {s : Value ν} (h : ClientAuthNr.signatureOf N msg .none = .ok s) :
    msg.lookup "signature" = some s ∧ s.truthy N = true := by
  unfold ClientAuthNr.signatureOf at h
  rw [if_neg (by simp [Value.truthy])] at h
  cases hs : msg.lookup "signature" with
  | none =>
    rw [hs] at h
    cases h
  | some s' =>
    rw [hs] at h
    dsimp only at h
    split_ifs at h with htruthy
    cases h
    exact ⟨rfl, htruthy⟩

/-- a message is not authenticated if it has no signature, or an empty one, or one that is not a text -/
theorem authenticate_unsigned (htexts : ∀ s sig, A.b58decode s = some sig → ∃ signature, s = .str signature)
    (hsig : ∀ signature, msg.lookup "signature" = some (.str signature) → signature = "") (v : Value ν) :
    A.authenticate N msg .none .none ≠ .ok v := by
  have hbody : ∃ e, A.authenticateBody N msg .none .none = .error e := by
    unfold ClientAuthNr.authenticateBody
    cases hs : ClientAuthNr.signatureOf N msg .none with
    | error e => exact ⟨e, rfl⟩
    | ok s =>
      rw [ok_bind]
      cases ClientAuthNr.identifierOf N msg .none with
      | error e => exact ⟨e, rfl⟩
      | ok i =>
        rw [ok_bind]
        cases hdecode : A.b58decode s with
        | none => exact ⟨_, rfl⟩
        | some sig =>
          obtain ⟨signature, rfl⟩ := htexts s sig hdecode
          obtain ⟨hlookup, htruthy⟩ := lookup_of_signatureOf hs
          rw [hsig signature hlookup] at htruthy
          simp [Value.truthy] at htruthy
  obtain ⟨e, he⟩ := hbody
  unfold ClientAuthNr.authenticate
  rw [he]
  cases e <;> exact fun h => by cases h

/-- the signature and the identifier are those of the message, if it has them -/
theorem authenticateBody_eq (hid : msg.lookup "identifier" = some (.str identifier)) (hne : identifier ≠ "")
    {signature : String} (hsig : msg.lookup "signature" = some (.str signature)) (hsigned : signature ≠ "")
    {verkey : κ} (hkey : A.getVerkey (.str identifier) = .ok verkey) {verify : σ → ByteArray → Bool}
    (hverify : A.didVerifier verkey (.str identifier) = some verify) :
    A.authenticateBody N msg .none .none =
      (A.b58decode (.str signature)).elim (.error (.signing .invalidSignatureFormat)) fun sig =>
        if verify sig (serializeMsg N (.dict msg) ["signature"]) then .ok (.str identifier)
        else .error (.signing .invalidSignature) := by
  have hsignature : ClientAuthNr.signatureOf N msg .none = .ok (.str signature) := by
    unfold ClientAuthNr.signatureOf
    rw [hsig]
    simp [Value.truthy, hsigned]
  have hidentifier : ClientAuthNr.identifierOf N msg .none = .ok (.str identifier) := by
    unfold ClientAuthNr.identifierOf
    rw [hid]
    simp [Value.truthy, hne]
  unfold ClientAuthNr.authenticateBody
  rw [hsignature, ok_bind, hidentifier, ok_bind]
  cases A.b58decode (.str signature) with
  | none => rfl
  | some sig =>
    rw [Option.elim_some, ok_bind, hkey]
    dsimp only
    rw [ok_bind, hverify]
    rfl

/-- what `authenticate` does once the key of the identifier is found -/
theorem authenticate_signed (hid : msg.lookup "identifier" = some (.str identifier)) (hne : identifier ≠ "")
    {signature : String} (hsig : msg.lookup "signature" = some (.str signature)) (hsigned : signature ≠ "")
    {verkey : κ} (hkey : A.getVerkey (.str identifier) = .ok verkey) {verify : σ → ByteArray → Bool}
    (hverify : A.didVerifier verkey (.str identifier) = some verify) (v : Value ν) :
    A.authenticate N msg .none .none = .ok v ↔ v = .str identifier ∧ ∃ sig, A.b58decode (.str signature) = some sig ∧
      verify sig (serializeMsg N (.dict msg) ["signature"]) = true := by
  unfold ClientAuthNr.authenticate
  rw [authenticateBody_eq hid hne hsig hsigned hkey hverify]
  cases A.b58decode (.str signature) with
  | none =>
    refine iff_of_false (fun h => by cases h) ?_
    rintro ⟨-, sig, hsig', -⟩
    cases hsig'
  | some sig =>
    dsimp only [Option.elim_some]
    by_cases hcheck : verify sig (serializeMsg N (.dict msg) ["signature"]) = true
    · rw [if_pos hcheck]
      constructor
      · intro h
        cases h
        exact ⟨rfl, sig, rfl, hcheck⟩
      · intro h
        rw [h.1]
    · rw [if_neg hcheck]
      refine iff_of_false (fun h => by cases h) ?_
      rintro ⟨-, sig', hsig', hcheck'⟩
      cases hsig'
      exact hcheck hcheck'

end Authenticate

/-! ## What a wallet has signed -/

/-- texts stay under their keys when the keys come in another order -/
theorem Reordered.lookup_str {es gs : List (String × Value ν)} (h : Reordered (.dict es) (.dict gs))
    (hnodup : (es.map Prod.fst).Nodup) {key text : String} (hl : es.lookup key = some (.str text)) :
    gs.lookup key = some (.str text) := by
  cases h with
  | @dict _ fs _ hentries hperm =>
    have hmem : (key, Value.str text) ∈ fs := by
      clear hperm hnodup
      induction es generalizing fs with
      | nil => cases hl
      | cons e es ih =>
        cases hentries with
        | @cons k v u _ fs hv hs =>
          rw [List.lookup_cons] at hl
          by_cases hk : key = k
          · subst hk
            rw [beq_self_eq_true] at hl
            cases hl
            cases hv
            exact List.mem_cons_self
          · rw [beq_false_of_ne hk] at hl
            exact List.mem_cons_of_mem _ (ih hl hs)
    refine Value.lookup_of_mem ?_ (hperm.subset hmem)
    exact (hperm.map Prod.fst).nodup_iff.1 (hentries.keys_eq ▸ hnodup)

/-- the signature is left out of what is signed -/
theorem serializeMsg_asDict (N : Numbers ν) (x : Request ν) :
    serializeMsg N (.dict (x.asDict N)) ["signature"] = serializeMsg N (x.signingState N) ["signature"] := by
  unfold serializeMsg Request.asDict Request.signingState
  rw [serialize_dict, serialize_dict, serializeEntries_eq, serializeEntries_eq]
  simp [kept]

theorem valid_asDict (N : Numbers ν) (x : Request ν) : (Value.dict (x.asDict N)).Valid := by
  have horNone : ∀ {α : Type} (f : α → Value ν) (o : Option α), (∀ a, (f a).Valid) → (orNone f o).Valid := by
    intro α f o hf
    cases o with
    | none => simp [orNone, Value.Valid]
    | some a => exact hf a
  have hstr : ∀ o : Option String, (orNone (.str : String → Value ν) o).Valid :=
    fun o => horNone _ o fun _ => by simp [Value.Valid]
  have hnum := horNone (fun n : ℤ => Value.num (N.ofInt n)) x.reqId fun _ => by simp [Value.Valid]
  simp only [Value.Valid]
  refine ⟨by simp [Request.asDict], ?_⟩
  simp only [Request.asDict, Value.ValidEntries]
  exact ⟨hstr _, hnum, x.valid, hstr _, trivial⟩

/-! ## Main results -/

/-- **Who can speak for an identifier.** Let any calls of `addNewRole` have been made, in which, as in the state, the
identifier is given no other key than `raw`, in whatever way that is written. Then of all messages with this identifier
just those are authenticated, for it, that have a signature which `raw` verifies. -/
theorem authenticate_iff (N : Numbers ν) {raw : List UInt8} (hraw : raw.length = 32)
    {verify : List UInt8 → ByteArray → Bool} (hverifier : K.verifier raw = some verify) {identifier : String}
    {txns : List NymTxn} {nymDetails : String → Option (Option String)}
    (h : Registered B raw identifier txns nymDetails) {msg : List (String × Value ν)}
    (hid : msg.lookup "identifier" = some (.str identifier)) (v : Value ν) :
    ((SimpleAuthNr.empty.addNewRoles B K txns).toAuthNr B K nymDetails).authenticate N msg .none .none = .ok v ↔
      v = .str identifier ∧ ∃ signature, msg.lookup "signature" = some (.str signature) ∧ signature ≠ "" ∧
        ∃ sig, B.b58decode signature = some sig ∧ verify sig (serializeMsg N (.dict msg) ["signature"]) = true := by
  obtain ⟨verkey, hkey, hverify⟩ := h.verifier (ν := ν) hraw hverifier
  by_cases hsigned : ∃ signature, msg.lookup "signature" = some (.str signature) ∧ signature ≠ ""
  · obtain ⟨signature, hsig, hne⟩ := hsigned
    rw [authenticate_signed hid (h.decodes hraw).1 hsig hne hkey hverify v]
    refine and_congr_right fun _ => ⟨fun hsig' => ⟨signature, hsig, hne, hsig'⟩, ?_⟩
    rintro ⟨signature', hsame, -, hsig'⟩
    obtain rfl : signature = signature' := by
      rw [hsig] at hsame
      cases hsame
      rfl
    exact hsig'
  · refine iff_of_false (authenticate_unsigned ?_ ?_ v) ?_
    · intro s sig hdecode
      cases s with
      | str signature => exact ⟨signature, rfl⟩
      | num | none | list | dict => cases hdecode
    · intro signature hsig
      by_contra hne
      exact hsigned ⟨signature, hsig, hne⟩
    · rintro ⟨-, signature, hsig, hne, -⟩
      exact hsigned ⟨signature, hsig, hne⟩

/-- **What a wallet has signed is authenticated.** A request is signed by the wallet in the name of `identifier`, and in
the calls of `addNewRole` made by the node, as in its state, this identifier has the verkey that its signer shows. Then
the request is authenticated for the identifier, in whatever order the keys of its dictionaries arrive. -/
theorem signed_authenticated (N : Numbers ν) {w : Wallet B K} {req x : Request ν} {given : Option String} {reqId : ℤ}
    (hx : w.signRequest N req given reqId = .ok x) {identifier : String} (hidr : x.identifier = some identifier)
    (hdecode : (B.b58decode identifier).isSome) {s : Signer} (hs : w.idsToSigners.get? identifier = some s)
    {txns : List NymTxn} {nymDetails : String → Option (Option String)}
    (hadded : ∀ txn ∈ txns, txn.dest = identifier → txn.verkey = some s.identity.verkey)
    (hstate : ∀ verkey, nymDetails identifier = some verkey → verkey = some s.identity.verkey)
    (hknown : (nymDetails identifier).isSome ∨
      ∃ txn ∈ txns, txn.dest = identifier ∧ txn.role ∈ [some STEWARD, none])
    {msg : List (String × Value ν)} (hmsg : Reordered (.dict (x.asDict N)) (.dict msg)) :
    ((SimpleAuthNr.empty.addNewRoles B K txns).toAuthNr B K nymDetails).authenticate N msg .none .none =
      .ok (.str identifier) := by
  have hmem := Dict.get?_eq_some.1 hs
  have hkeyed : s.identifier = identifier := w.keyed _ hmem
  have hwritten : Written B (K.verraw s.seed) identifier (some s.identity.verkey) := by
    rw [← hkeyed] at hdecode ⊢
    exact (w.made _ hmem).written hdecode
  have hreg : Registered B (K.verraw s.seed) identifier txns nymDetails := by
    refine ⟨fun txn htxn hdest => ?_, fun verkey hverkey => ?_, hknown⟩
    · rw [hadded txn htxn hdest]
      exact hwritten
    · rw [hstate verkey hverkey]
      exact hwritten
  have hcolon : ':' ∉ identifier.toList := fun hc => absurd (B.mem_alphabet identifier hdecode _ hc) (by decide)
  obtain ⟨s', hs', hsigned⟩ := Wallet.signRequest_eq_ok hx hidr hcolon
  obtain rfl : s = s' := Option.some.inj (hs.symm.trans hs')
  obtain ⟨verify, hverifier, hverify⟩ := K.verify_signature s.seed
  obtain ⟨verkey, hkey, hdid⟩ := hreg.verifier (ν := ν) (K.length_verraw s.seed) hverifier
  -- the message has the identifier and the signature of the request, and what is signed of it is the same text
  have hnodup : ((x.asDict N).map Prod.fst).Nodup := by simp [Request.asDict]
  have hid : msg.lookup "identifier" = some (.str identifier) := by
    refine hmsg.lookup_str hnodup ?_
    simp [Request.asDict, orNone, hidr]
  have hsig : msg.lookup "signature" = some (.str (Wallet.sign B K N s (x.signingState N))) := by
    refine hmsg.lookup_str hnodup ?_
    simp [Request.asDict, orNone, hsigned, List.lookup_cons]
  have htext : serializeMsg N (.dict msg) ["signature"] = serializeMsg N (x.signingState N) ["signature"] := by
    rw [← serializeMsg_asDict]
    unfold serializeMsg
    rw [hmsg.serialize_eq (valid_asDict N x) 0 ["signature"]]
  refine (authenticate_signed hid (hreg.decodes (K.length_verraw s.seed)).1 hsig
    (B.encode_ne (K.signature_ne _ _)) hkey hdid _).2 ⟨rfl, _, B.decode_encode _, ?_⟩
  rw [htext]
  exact hverify _

/-! ## Witness -/

namespace OneSigner

def codec : Base58Codec where
  b58encode := Base58.encode
  b58decode := Base58.decode
  standard := Base58.standard_encode
  decode_encode := Base58.decode_encode
  mem_alphabet := Base58.mem_alphabet_of_decode

def verraw (seed : List UInt8) : List UInt8 := (seed ++ List.replicate 32 0).take 32

def signature (seed : List UInt8) (msg : ByteArray) : List UInt8 := verraw seed ++ msg.data.toList

def verifier (raw : List UInt8) : Option (List UInt8 → ByteArray → Bool) :=
  if raw.length = 32 then some fun sig msg => sig == raw ++ msg.data.toList else none

theorem length_verraw (seed : List UInt8) : (verraw seed).length = 32 := by
  rw [verraw, List.length_take, List.length_append, List.length_replicate]
  omega

theorem signature_ne (seed : List UInt8) (msg : ByteArray) : signature seed msg ≠ [] := by
  intro hnil
  have hlength := congrArg List.length hnil
  rw [signature, List.length_append, length_verraw, List.length_nil] at hlength
  omega

theorem verifier_verraw (seed : List UInt8) :
    verifier (verraw seed) = some fun sig msg => sig == verraw seed ++ msg.data.toList := by
  rw [verifier, if_pos (length_verraw seed)]

theorem verify_signature (seed : List UInt8) : ∃ verify, verifier (verraw seed) = some verify ∧
    ∀ msg, verify (signature seed msg) msg = true :=
  ⟨_, verifier_verraw seed, fun msg => beq_self_eq_true (signature seed msg)⟩

/-- a signature that shows the key and the message -/
def nacl : Nacl := ⟨verraw, signature, verifier, length_verraw, signature_ne, verify_signature⟩

def numbers : Numbers ℤ := ⟨id, toString, fun x y => x = y, fun x => x ≠ 0⟩

def seed : List UInt8 := [1, 2, 3]

def signer : Signer := DidSigner codec nacl none seed none

theorem made : signer.Made codec nacl := ⟨none, Or.inl rfl⟩

def wallet : Wallet codec nacl := Wallet.empty.addIdentifier signer made none

def idr : String := signer.identifier

theorem decodes : (codec.b58decode idr).isSome := by
  have hidentity : signer.identity =
      ⟨codec.b58encode ((verraw seed).take 16), "~" ++ codec.b58encode ((verraw seed).drop 16)⟩ := by
    simp [signer, DidSigner, didIdentity, nacl]
  unfold idr Signer.identifier
  rw [hidentity, codec.decode_encode]
  rfl

theorem written : Written codec (verraw seed) idr (some signer.identity.verkey) := made.written decodes

theorem idr_ne : idr ≠ "" := (written.decodes (length_verraw seed)).1

theorem signer_of_wallet : wallet.idsToSigners.get? idr = some signer := by
  have hset : wallet.idsToSigners = Dict.empty.set idr signer := rfl
  rw [hset, Dict.get?_set_self]

def operation : Value ℤ := .dict [("type", .str "buy"), ("amount", .num 5)]

theorem valid_operation : operation.Valid := by simp [operation, Value.Valid, Value.ValidEntries]

def request : Request ℤ := ⟨none, none, operation, none, valid_operation⟩

/-- the request when the wallet has signed it -/
def signed : Request ℤ :=
  { Wallet.identified request idr 7 with
    signature := some (Wallet.sign codec nacl numbers signer ((Wallet.identified request idr 7).signingState numbers)) }

theorem signRequest_eq : wallet.signRequest numbers request (some idr) 7 = .ok signed :=
  Wallet.signRequest_of_signer numbers request signer_of_wallet idr_ne
    (fun hcolon => absurd (codec.mem_alphabet idr decodes _ hcolon) (by decide)) 7

/-- the NYM transaction of the signer -/
def nym : NymTxn := ⟨idr, some signer.identity.verkey, none⟩

def authNr : ClientAuthNr ℤ (List UInt8) (Option String) :=
  (SimpleAuthNr.empty.addNewRoles codec nacl [nym]).toAuthNr codec nacl fun _ => none

theorem registered : Registered codec (verraw seed) idr [nym] fun _ => none where
  added txn htxn _ := by
    obtain rfl := List.mem_singleton.1 htxn
    exact written
  state _ hverkey := by cases hverkey
  known := Or.inr ⟨nym, List.mem_singleton_self nym, rfl, by decide⟩

/-- a message in the name of the signer, with a signature that it has not made -/
def forged : List (String × Value ℤ) :=
  [("identifier", .str idr), ("reqId", .num 7), ("operation", operation), ("signature", .str "2")]

end OneSigner

open OneSigner in
/-- of two messages of the signer just the signed one is authenticated -/
theorem authenticate_iff_oneSigner :
    authNr.authenticate numbers (signed.asDict numbers) .none .none = .ok (.str idr) ∧
      authNr.authenticate numbers forged .none .none ≠ .ok (.str idr) := by
  have hverifier : nacl.verifier (verraw seed) = some fun sig msg => sig == verraw seed ++ msg.data.toList :=
    verifier_verraw seed
  have hdecode : codec.b58decode (Wallet.sign codec nacl numbers signer (signed.signingState numbers)) =
      some (signature seed (serializeMsg numbers (signed.signingState numbers) ["signature"])) :=
    codec.decode_encode _
  constructor
  · refine (authenticate_iff numbers (length_verraw seed) hverifier registered rfl (.str idr)).2
      ⟨rfl, _, rfl, codec.encode_ne (signature_ne _ _), _, hdecode, ?_⟩
    rw [serializeMsg_asDict]
    exact beq_self_eq_true _
  · intro h
    obtain ⟨-, signature', hsame, -, sig, hsig, hverify⟩ :=
      (authenticate_iff numbers (length_verraw seed) hverifier registered rfl (.str idr)).1 h
    cases hsame
    have hone : codec.b58decode "2" = some [1] := by decide +kernel
    obtain rfl := Option.some.inj (hone.symm.trans hsig)
    have hlength := congrArg List.length (beq_iff_eq.1 hverify)
    rw [List.length_append, length_verraw] at hlength
    simp at hlength
    omega

open OneSigner in
theorem signed_authenticated_oneSigner :
    authNr.authenticate numbers (Json.sortKeys (Json.reloadedEntries (signed.asDict numbers))) .none .none =
      .ok (.str idr) :=
  signed_authenticated numbers signRequest_eq rfl decodes signer_of_wallet
    (fun txn htxn _ => by obtain rfl := List.mem_singleton.1 htxn; rfl) (fun _ hverkey => by cases hverkey)
    registered.known (reordered_reloaded (.dict (signed.asDict numbers)))

end Signing

end Plenum
