/-
The wallet of a client, and the requests that it signs.

- `Wallet`: signers by their identifiers, each under its own, and the identifiers by their aliases. `addIdentifier` and
  `updateSigner` keep it so by construction.
- `signRequest`: the request gets an identifier, a number and the signature of the signer with this identifier.
- `signRequest_eq_ok`: what a signed request is.
-/
import Mathlib.Tactic
import Plenum.Core.Dict
import Plenum.Core.Exec
import Plenum.Common.DidVerifier
import Plenum.Common.Signing

namespace Plenum

open Plenum.Core

namespace Signing

inductive WalletError where
  | valueError
  | keyError
  | emptyIdentifier
  /-- no signer with the identifier -/
  | runtimeError

structure Wallet (B : Base58Codec) (K : Nacl) where
  idsToSigners : Dict String Signer
  aliasesToIds : Dict String String
  defaultId : Option String
  keyed : ∀ e ∈ idsToSigners.entries, e.2.identifier = e.1
  made : ∀ e ∈ idsToSigners.entries, e.2.Made B K

namespace Wallet

variable {B : Base58Codec} {K : Nacl} {ν : Type}

def empty : Wallet B K where
  idsToSigners := Dict.empty
  aliasesToIds := Dict.empty
  defaultId := none
  keyed _ he := absurd he List.not_mem_nil
  made _ he := absurd he List.not_mem_nil

variable (w : Wallet B K)

/-- the signer under its identifier -/
def putSigner (s : Signer) (h : s.Made B K) : Wallet B K where
  idsToSigners := w.idsToSigners.set s.identifier s
  aliasesToIds := w.aliasesToIds
  defaultId := w.defaultId
  keyed e he := (Dict.mem_set.1 he).elim (fun heq => by rw [heq]) fun hold => w.keyed e hold.1
  made e he := (Dict.mem_set.1 he).elim (fun heq => by rw [heq]; exact h) fun hold => w.made e hold.1

/-- an alias given replaces that of the signer; the first signer is the default one -/
def addIdentifier (s : Signer) (h : s.Made B K) (newAlias : Option String) :
    Wallet B K :=
  let s' : Signer := if newAlias.getD "" ≠ "" then { s with signerAlias := newAlias } else s
  let w' := w.putSigner s' (by dsimp only [s']; split_ifs <;> exact h)
  { w' with
    aliasesToIds :=
      if s'.signerAlias.getD "" ≠ "" then w.aliasesToIds.set (s'.signerAlias.getD "") s.identifier
      else w.aliasesToIds
    defaultId := w.defaultId.or (some s.identifier) }

def updateSigner (identifier : String) (s : Signer) (h : s.Made B K) : Except WalletError (Wallet B K) :=
  if identifier ≠ s.identifier then .error .valueError
  else
    match w.idsToSigners.get? identifier with
    | none => .error .keyError
    | some oldSigner =>
      if oldSigner.signerAlias.getD "" ≠ "" ∧ w.aliasesToIds.contains (oldSigner.signerAlias.getD "") then
        .ok (w.putSigner { s with signerAlias := oldSigner.signerAlias } h)
      else .ok (w.putSigner s h)

/-- `idr.split(':')[1]` -/
def afterColon (idr : String) : String :=
  String.ofList (((idr.toList.dropWhile (· ≠ ':')).drop 1).takeWhile (· ≠ ':'))

/-- the identifier given, or else that of the alias, or else the default one -/
def chosenIdr (idr signerAlias : Option String) : Except WalletError String :=
  if idr.getD "" ≠ "" then .ok (if ':' ∈ (idr.getD "").toList then afterColon (idr.getD "") else idr.getD "")
  else if signerAlias.getD "" ≠ "" then (w.aliasesToIds.get? (signerAlias.getD "")).elim (.error .keyError) .ok
  else .ok (w.defaultId.getD "")

def requiredIdr (idr signerAlias : Option String) : Except WalletError String := do
  let idr ← w.chosenIdr idr signerAlias
  if idr = "" then .error .emptyIdentifier else .ok idr

def signerById (idr : String) : Except WalletError Signer :=
  (w.idsToSigners.get? idr).elim (.error .runtimeError) .ok

/-- `Signer.sign` -/
def sign (B : Base58Codec) (K : Nacl) (N : Numbers ν) (s : Signer) (msg : Value ν) : String :=
  B.b58encode (K.signature s.seed (serializeMsg N msg ["signature"]))

/-- the request with an identifier and a number, before it is signed -/
def identified (req : Request ν) (idr : String) (reqId : ℤ) : Request ν :=
  { req with identifier := some idr, reqId := some reqId }

/-- `reqId` is what `getTimeBasedId` gives -/
def signRequest (N : Numbers ν) (req : Request ν) (identifier : Option String) (reqId : ℤ) :
    Except WalletError (Request ν) := do
  let idr ← w.requiredIdr (if identifier.getD "" ≠ "" then identifier else req.identifier) none
  let x := identified req idr reqId
  let signerIdr ← w.requiredIdr (some idr) none
  let signer ← w.signerById signerIdr
  .ok { x with signature := some (sign B K N signer (x.signingState N)) }

variable {w}

/-- an identifier without a colon is taken as it is -/
theorem requiredIdr_some {idr : String} (hne : idr ≠ "") (hcolon : ':' ∉ idr.toList) :
    w.requiredIdr (some idr) none = .ok idr := by
  have hchosen : w.chosenIdr (some idr) none = .ok idr := by
    unfold chosenIdr
    rw [Option.getD_some, if_pos hne, if_neg hcolon]
  unfold requiredIdr
  rw [hchosen]
  exact if_neg hne

/-- a required identifier is not empty -/
theorem requiredIdr_ne {idr signerAlias : Option String} {idr' : String}
    (h : w.requiredIdr idr signerAlias = .ok idr') : idr' ≠ "" := by
  unfold requiredIdr at h
  obtain ⟨r, -, hr⟩ := bind_eq_ok.1 h
  split_ifs at hr with hne
  cases hr
  exact hne

theorem signerById_eq {idr : String} {s : Signer} (hs : w.idsToSigners.get? idr = some s) :
    w.signerById idr = .ok s := by
  unfold signerById
  rw [hs]
  rfl

/-- a signer of the wallet signs a request in its name -/
theorem signRequest_of_signer (N : Numbers ν) (req : Request ν) {idr : String} {s : Signer}
    (hs : w.idsToSigners.get? idr = some s) (hne : idr ≠ "") (hcolon : ':' ∉ idr.toList) (reqId : ℤ) :
    w.signRequest N req (some idr) reqId = .ok { identified req idr reqId with
      signature := some (sign B K N s ((identified req idr reqId).signingState N)) } := by
  unfold signRequest
  rw [Option.getD_some, if_pos hne, requiredIdr_some hne hcolon, ok_bind]
  dsimp only
  rw [requiredIdr_some hne hcolon, ok_bind, signerById_eq hs, ok_bind]

/-- **What a signed request is**: one with the signature of the signer whose identifier it has, if that has no colon. -/
theorem signRequest_eq_ok {N : Numbers ν} {req x : Request ν} {identifier : Option String} {reqId : ℤ}
    (h : w.signRequest N req identifier reqId = .ok x) {idr : String} (hidr : x.identifier = some idr)
    (hcolon : ':' ∉ idr.toList) :
    ∃ s : Signer, w.idsToSigners.get? idr = some s ∧ x.signature = some (sign B K N s (x.signingState N)) := by
  unfold signRequest at h
  obtain ⟨idr', hidr', h⟩ := bind_eq_ok.1 h
  obtain ⟨signerIdr, hsignerIdr, h⟩ := bind_eq_ok.1 h
  obtain ⟨s, hs, h⟩ := bind_eq_ok.1 h
  cases h
  obtain rfl := Option.some.inj hidr
  rw [requiredIdr_some (requiredIdr_ne hidr') hcolon] at hsignerIdr
  cases hsignerIdr
  unfold signerById at hs
  cases hget : w.idsToSigners.get? idr' with
  | none => rw [hget] at hs; cases hs
  | some s' =>
    rw [hget] at hs
    cases hs
    exact ⟨s, rfl, rfl⟩

end Wallet

end Signing

end Plenum
