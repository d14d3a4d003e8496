/-
The identifiers and keys of clients: how their signers write them, and which key a verifier makes of what is written.

- `Base58Codec`, `Nacl`: base 58 and signatures, as far as the code relies on them.
- `didIdentity`, `simpleIdentity`: the identifier and the verkey of a signer. A DID without an identifier of its own is
  the first half of the key, and its verkey the other half, marked with "~".
- `verkeyOf`, `didVerifier`: what `DidVerifier` makes of a verkey and an identifier.
- `Written`: the ways to write a key. `Written.verkeyOf_eq`: all of them come to the whole key.
-/
import Mathlib.Tactic
import Plenum.Core.Base58Decode

namespace Plenum

open Plenum.Core

namespace Signing

/-- base 58: what was encoded is read back, and only texts of the alphabet are read -/
structure Base58Codec where
  b58encode : List UInt8 → String
  /-- `none` where it raises -/
  b58decode : String → Option (List UInt8)
  standard : Base58.Standard b58encode
  decode_encode : ∀ bytes, b58decode (b58encode bytes) = some bytes
  mem_alphabet : ∀ text, (b58decode text).isSome → ∀ c ∈ text.toList, c ∈ Base58.alphabet

/-- key pairs from seeds: what was signed with a seed is verified with its key of 32 bytes -/
structure Nacl where
  verraw : List UInt8 → List UInt8
  signature : List UInt8 → ByteArray → List UInt8
  /-- `NaclVerifier(key).verify`, `none` where it raises -/
  verifier : List UInt8 → Option (List UInt8 → ByteArray → Bool)
  length_verraw : ∀ seed, (verraw seed).length = 32
  signature_ne : ∀ seed msg, signature seed msg ≠ []
  verify_signature : ∀ seed, ∃ verify, verifier (verraw seed) = some verify ∧
    ∀ msg, verify (signature seed msg) msg = true

namespace Base58Codec

variable (B : Base58Codec)

theorem encode_nil : B.b58encode [] = "" := B.standard.empty

theorem decode_empty : B.b58decode "" = some [] := by
  rw [← B.encode_nil]
  exact B.decode_encode []

theorem encode_ne {bytes : List UInt8} (h : bytes ≠ []) : B.b58encode bytes ≠ "" := by
  intro hempty
  have hdecode := B.decode_encode bytes
  rw [hempty, B.decode_empty] at hdecode
  exact h (Option.some.inj hdecode).symm

/-- no text of the encoder begins with the mark of an abbreviated verkey -/
theorem head_encode (bytes : List UInt8) : ∀ rest, (B.b58encode bytes).toList ≠ '~' :: rest := by
  intro rest h
  have hmem : '~' ∈ (B.b58encode bytes).toList := by rw [h]; exact List.mem_cons_self
  rw [B.standard.eq_encode] at hmem
  exact absurd (Base58.mem_alphabet hmem) (by decide)

end Base58Codec

/-! ## Signers -/

/-- the `identifier` and the `verkey` of a signer -/
structure Identity where
  identifier : String
  verkey : String
deriving DecidableEq

variable (B : Base58Codec) (K : Nacl)

/-- `DidIdentity(identifier, rawVerkey=rawVerkey)` -/
def didIdentity (identifier : Option String) (rawVerkey : List UInt8) : Identity :=
  if identifier.getD "" ≠ "" then ⟨identifier.getD "", B.b58encode rawVerkey⟩
  else ⟨B.b58encode (rawVerkey.take 16), "~" ++ B.b58encode (rawVerkey.drop 16)⟩

/-- the attributes of `SimpleSigner(identifier)` -/
def simpleIdentity (identifier : Option String) (rawVerkey : List UInt8) : Identity :=
  let verkey := B.b58encode rawVerkey
  ⟨if identifier.getD "" ≠ "" then identifier.getD "" else verkey, verkey⟩

structure Signer where
  seed : List UInt8
  identity : Identity
  signerAlias : Option String

def Signer.identifier (s : Signer) : String := s.identity.identifier

def DidSigner (identifier : Option String) (seed : List UInt8) (signerAlias : Option String) : Signer :=
  ⟨seed, didIdentity B identifier (K.verraw seed), signerAlias⟩

def SimpleSigner (identifier : Option String) (seed : List UInt8) (signerAlias : Option String) : Signer :=
  ⟨seed, simpleIdentity B identifier (K.verraw seed), signerAlias⟩

/-- a signer of one of the two classes -/
def Signer.Made (s : Signer) : Prop :=
  ∃ identifier, s.identity = didIdentity B identifier (K.verraw s.seed) ∨
    s.identity = simpleIdentity B identifier (K.verraw s.seed)

/-! ## Verifiers -/

/-- the verkey that `DidVerifier(verkey, identifier)` sets, `none` where it raises before -/
def verkeyOf (verkey : Option String) (identifier : String) : Option String :=
  if identifier = "" then verkey
  else
    (B.b58decode identifier).bind fun rawIdr =>
      let verkey := if rawIdr.length = 32 ∧ verkey.getD "" = "" then identifier else verkey.getD ""
      if verkey = "" then none
      else
        match verkey.toList with
        | '~' :: rest => (B.b58decode (String.ofList rest)).map fun rawRest => B.b58encode (rawIdr ++ rawRest)
        | _ => some verkey

/-- the verkey and the `verify` of `DidVerifier(verkey, identifier)`, `none` where it raises -/
def didVerifier (verkey : Option String) (identifier : String) : Option (String × (List UInt8 → ByteArray → Bool)) :=
  (verkeyOf B verkey identifier).bind fun verkey =>
    (B.b58decode verkey).bind fun rawVerkey => (K.verifier rawVerkey).map fun verify => (verkey, verify)

/-- the ways in which the key `raw` may be written as an identifier and a verkey -/
inductive Written (raw : List UInt8) : String → Option String → Prop
  | abbreviated : Written raw (B.b58encode (raw.take 16)) (some ("~" ++ B.b58encode (raw.drop 16)))
  | full {identifier : String} (hne : identifier ≠ "") (h : (B.b58decode identifier).isSome) :
      Written raw identifier (some (B.b58encode raw))
  | cryptonym {verkey : Option String} (h : verkey.getD "" = "") : Written raw (B.b58encode raw) verkey

variable {B K} {raw : List UInt8} {identifier : String} {verkey : Option String}

/-- the identifier of a key is not empty and can be decoded -/
theorem Written.decodes (h : Written B raw identifier verkey) (hraw : raw.length = 32) :
    identifier ≠ "" ∧ (B.b58decode identifier).isSome := by
  cases h with
  | abbreviated =>
    have htake : (raw.take 16).length = 16 := by simp [hraw]
    exact ⟨B.encode_ne (List.ne_nil_of_length_eq_add_one htake), by rw [B.decode_encode]; rfl⟩
  | full hne h => exact ⟨hne, h⟩
  | cryptonym h => exact ⟨B.encode_ne (List.ne_nil_of_length_eq_add_one hraw), by rw [B.decode_encode]; rfl⟩

/-- a whole key, given as the verkey or as the identifier in its place, stays as it is: it has no mark -/
theorem verkeyOf_text {rawIdr : List UInt8} (hne : identifier ≠ "") (hidr : B.b58decode identifier = some rawIdr)
    (htext : (if rawIdr.length = 32 ∧ verkey.getD "" = "" then identifier else verkey.getD "") = B.b58encode raw)
    (hraw : raw ≠ []) : verkeyOf B verkey identifier = some (B.b58encode raw) := by
  unfold verkeyOf
  simp only [if_neg hne, hidr, Option.bind_some, htext, if_neg (B.encode_ne hraw)]
  split
  · rename_i rest hrest
    exact absurd hrest (B.head_encode raw rest)
  · rfl

/-- **Every way to write a key comes to the whole key.** -/
theorem Written.verkeyOf_eq (h : Written B raw identifier verkey) (hraw : raw.length = 32) :
    verkeyOf B verkey identifier = some (B.b58encode raw) := by
  obtain ⟨hne, hdecode⟩ := h.decodes hraw
  have hnil : raw ≠ [] := List.ne_nil_of_length_eq_add_one hraw
  cases h with
  | abbreviated =>
    have hmark : "~" ++ B.b58encode (raw.drop 16) ≠ "" := fun hempty => by
      have hlist := congrArg String.toList hempty
      rw [String.toList_append] at hlist
      cases hlist
    have hlist : ("~" ++ B.b58encode (raw.drop 16)).toList = '~' :: (B.b58encode (raw.drop 16)).toList := by
      rw [String.toList_append]
      rfl
    unfold verkeyOf
    simp only [if_neg hne, B.decode_encode, Option.bind_some, Option.getD_some, hmark, and_false, if_false, hlist]
    rw [String.ofList_toList, B.decode_encode, Option.map_some, List.take_append_drop]
  | full hne hdecode =>
    obtain ⟨rawIdr, hidr⟩ := Option.isSome_iff_exists.1 hdecode
    exact verkeyOf_text hne hidr (if_neg fun h => B.encode_ne hnil h.2) hnil
  | cryptonym hverkey => exact verkeyOf_text hne (B.decode_encode raw) (if_pos ⟨hraw, hverkey⟩) hnil

/-- the verifier has the whole key, whichever way it was written -/
theorem Written.didVerifier_eq (h : Written B raw identifier verkey) (hraw : raw.length = 32) :
    didVerifier B K verkey identifier = (K.verifier raw).map fun verify => (B.b58encode raw, verify) := by
  unfold didVerifier
  rw [h.verkeyOf_eq hraw, Option.bind_some, B.decode_encode, Option.bind_some]

/-- **A signer writes its key in one of the ways**, if its identifier can be decoded. -/
theorem Signer.Made.written {s : Signer} (h : s.Made B K) (hdecode : (B.b58decode s.identifier).isSome) :
    Written B (K.verraw s.seed) s.identifier (some s.identity.verkey) := by
  have hne : K.verraw s.seed ≠ [] := List.ne_nil_of_length_eq_add_one (K.length_verraw s.seed)
  unfold Signer.identifier at hdecode ⊢
  obtain ⟨identifier, hidentity | hidentity⟩ := h
  · rw [hidentity] at hdecode ⊢
    unfold didIdentity at hdecode ⊢
    split_ifs at hdecode ⊢ with hidr
    · exact .full hidr hdecode
    · exact .abbreviated
  · rw [hidentity] at hdecode ⊢
    unfold simpleIdentity at hdecode ⊢
    dsimp only at hdecode ⊢
    split_ifs at hdecode ⊢ with hidr
    · exact .full hidr hdecode
    · exact .full (B.encode_ne hne) hdecode

end Signing

end Plenum
