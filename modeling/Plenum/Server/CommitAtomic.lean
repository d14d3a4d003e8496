/-
Committing a batch to the ledger and the state: what is left when one of the checks fails.

- `RequestHandler.commit`: the transactions are committed first; then the two roots are read, the root of the ledger is
  compared with the agreed one, and the state is committed. Each of the last three may raise.
- `CommitStores`: the parts of the ledger and the state that come from outside. A state commits to the roots it knows.
- `commit_atomic_iff`: the commit is all or nothing if and only if both roots are hexadecimal, the ledger has the agreed
  root and the state knows its root, or nothing is taken from the uncommitted transactions.
- `other_root_committed`: with another root the transactions stay committed, and the state does not follow.
-/
import Mathlib.Tactic
import Plenum.Core.Exec
import Plenum.Common.Ledger

namespace Plenum

open Plenum.Core Plenum.Core.Exec

/-! ## Hexadecimal texts -/

def hexDigit (c : Char) : Option ℕ :=
  if '0' ≤ c ∧ c ≤ '9' then some (c.toNat - '0'.toNat)
  else if 'a' ≤ c ∧ c ≤ 'f' then some (c.toNat - 'a'.toNat + 10)
  else if 'A' ≤ c ∧ c ≤ 'F' then some (c.toNat - 'A'.toNat + 10)
  else none

/-- two digits make a byte; `none` if the number of characters is odd, or one is not a digit -/
def unhexlifyChars : List Char → Option (List UInt8)
  | [] => some []
  | [_] => none
  | c :: d :: rest =>
    match hexDigit c, hexDigit d, unhexlifyChars rest with
    | some hi, some lo, some bytes => some (UInt8.ofNat (16 * hi + lo) :: bytes)
    | _, _, _ => none

def unhexlify (s : String) : Option (List UInt8) := unhexlifyChars s.toList

/-! ## The handler -/

/-- the Merkle tree, its hashes as texts, and the states `κ` -/
structure CommitStores (κ τ : Type) where
  /-- the root of a ledger, as a text -/
  rootHash : List τ → String
  hashToStr : List UInt8 → String
  committedHeadHash : κ → List UInt8
  /-- whether a state can commit to a root; if not, its `commit` raises -/
  knows : κ → List UInt8 → Bool
  commit : κ → List UInt8 → κ

/-- a state that has committed to a root shows it -/
def CommitStores.Lawful {κ τ : Type} (stores : CommitStores κ τ) : Prop :=
  ∀ state root, stores.knows state root = true → stores.committedHeadHash (stores.commit state root) = root

structure RequestHandler (κ τ : Type) where
  ledger : Ledger τ
  state : κ

namespace RequestHandler

variable {κ τ : Type} (stores : CommitStores κ τ)

/-- the root as bytes; a text that is not hexadecimal raises -/
def readRoot (root : String) : Exec Exn (RequestHandler κ τ) (List UInt8) :=
  match unhexlify root with
  | some bytes => pure bytes
  | none => throw .valueError

/-- commit the first `txnCount` uncommitted transactions; they are returned with their sequence numbers -/
def commit (txnCount : ℕ) (stateRoot txnRoot : String) : Exec Exn (RequestHandler κ τ) (List (τ × ℕ)) := do
  let h ← get
  let committed := h.ledger.commitTxns txnCount
  modify fun h => { h with ledger := committed.1 }
  let stateRoot ← readRoot stateRoot
  let txnRoot ← readRoot txnRoot
  if stores.rootHash committed.1.txns ≠ stores.hashToStr txnRoot then throw .assertionError
  else if ! stores.knows h.state stateRoot then throw .keyError
  else do
    modify fun h => { h with state := stores.commit h.state stateRoot }
    pure (committed.2.zipIdx (h.ledger.txns.length + 1))

/-! ## All or nothing -/

/-- what the ledger and the state show is the same -/
structure ShowsSame (h h' : RequestHandler κ τ) : Prop where
  txns : h'.ledger.txns = h.ledger.txns
  uncommittedTxns : h'.ledger.uncommittedTxns = h.ledger.uncommittedTxns
  uncommittedRootHash : h'.ledger.uncommittedRootHash = h.ledger.uncommittedRootHash
  committedHeadHash : stores.committedHeadHash h'.state = stores.committedHeadHash h.state

/-- both stores have the agreed roots -/
def HasRoots (h : RequestHandler κ τ) (stateRoot txnRoot : String) : Prop :=
  some (stores.committedHeadHash h.state) = unhexlify stateRoot ∧
    some (stores.rootHash h.ledger.txns) = (unhexlify txnRoot).map stores.hashToStr

/-- a call that returns leaves the agreed roots, a call that raises leaves everything as it was -/
def AllOrNothing (txnCount : ℕ) (stateRoot txnRoot : String) (h : RequestHandler κ τ) : Prop :=
  match exec (commit stores txnCount stateRoot txnRoot) h with
  | (.ok _, h') => HasRoots stores h' stateRoot txnRoot
  | (.error _, h') => ShowsSame stores h h'

/-- the roots are hexadecimal, that of the transactions to be committed is the agreed one, and the state knows its own -/
def Agreed (txnCount : ℕ) (stateRoot txnRoot : String) (h : RequestHandler κ τ) : Prop :=
  ∃ stateBytes txnBytes, unhexlify stateRoot = some stateBytes ∧ unhexlify txnRoot = some txnBytes ∧
    stores.rootHash (h.ledger.txns ++ h.ledger.uncommittedTxns.take txnCount) = stores.hashToStr txnBytes ∧
    stores.knows h.state stateBytes = true

/-- nothing is committed, and no uncommitted root is cleared -/
def TakesNothing (txnCount : ℕ) (h : RequestHandler κ τ) : Prop :=
  txnCount = 0 ∧ (h.ledger.uncommittedTxns = [] → h.ledger.uncommittedRootHash = none)

variable {stores} {txnCount : ℕ} {stateRoot txnRoot : String} {h : RequestHandler κ τ}

theorem exec_readRoot_some {root : String} {bytes : List UInt8} (hroot : unhexlify root = some bytes)
    (h : RequestHandler κ τ) : exec (readRoot root) h = (.ok bytes, h) := by
  rw [readRoot, hroot]
  rfl

theorem exec_readRoot_none {root : String} (hroot : unhexlify root = none) (h : RequestHandler κ τ) :
    exec (readRoot root) h = (.error .valueError, h) := by
  rw [readRoot, hroot]
  rfl

/-- with agreed roots the call returns -/
theorem exec_commit_of_agreed (hagreed : Agreed stores txnCount stateRoot txnRoot h) :
    ∃ stateBytes committedTxns, unhexlify stateRoot = some stateBytes ∧ stores.knows h.state stateBytes = true ∧
      exec (commit stores txnCount stateRoot txnRoot) h =
        (.ok committedTxns, ⟨(h.ledger.commitTxns txnCount).1, stores.commit h.state stateBytes⟩) := by
  obtain ⟨stateBytes, txnBytes, hstate, htxn, hroot, hknows⟩ := hagreed
  refine ⟨stateBytes, (h.ledger.commitTxns txnCount).2.zipIdx (h.ledger.txns.length + 1), hstate, hknows, ?_⟩
  have hroot' : stores.rootHash (h.ledger.commitTxns txnCount).1.txns = stores.hashToStr txnBytes := hroot
  unfold commit
  simp only [exec_bind, exec_get, exec_modify, exec_readRoot_some hstate, exec_readRoot_some htxn]
  rw [if_neg (not_not_intro hroot'), hknows]
  rfl

/-- without them it raises, after the transactions are committed -/
theorem exec_commit_of_not_agreed (hagreed : ¬ Agreed stores txnCount stateRoot txnRoot h) :
    ∃ e, exec (commit stores txnCount stateRoot txnRoot) h =
      (.error e, { h with ledger := (h.ledger.commitTxns txnCount).1 }) := by
  unfold commit
  cases hstate : unhexlify stateRoot with
  | none =>
    refine ⟨.valueError, ?_⟩
    simp only [exec_bind, exec_get, exec_modify, exec_readRoot_none hstate]
  | some stateBytes =>
    cases htxn : unhexlify txnRoot with
    | none =>
      refine ⟨.valueError, ?_⟩
      simp only [exec_bind, exec_get, exec_modify, exec_readRoot_some hstate, exec_readRoot_none htxn]
    | some txnBytes =>
      simp only [exec_bind, exec_get, exec_modify, exec_readRoot_some hstate, exec_readRoot_some htxn]
      by_cases hroot : stores.rootHash (h.ledger.commitTxns txnCount).1.txns = stores.hashToStr txnBytes
      · have hknows : stores.knows h.state stateBytes = false := by
          by_contra hknown
          exact hagreed ⟨stateBytes, txnBytes, hstate, htxn, hroot, by simpa using hknown⟩
        rw [if_neg (not_not_intro hroot), hknows]
        exact ⟨.keyError, rfl⟩
      · rw [if_pos hroot]
        exact ⟨.assertionError, rfl⟩

/-- committing transactions shows, unless there are none to commit and no root to clear -/
theorem showsSame_commitTxns_iff (hcount : txnCount ≤ h.ledger.uncommittedTxns.length) :
    ShowsSame stores h { h with ledger := (h.ledger.commitTxns txnCount).1 } ↔ TakesNothing txnCount h := by
  constructor
  · intro hsame
    have htxns : h.ledger.txns ++ h.ledger.uncommittedTxns.take txnCount = h.ledger.txns := hsame.txns
    have hnil : h.ledger.uncommittedTxns.take txnCount = [] := List.append_right_eq_self.1 htxns
    have hzero : txnCount = 0 := by
      have hlength := congrArg List.length hnil
      rw [List.length_take, List.length_nil, min_eq_left hcount] at hlength
      exact hlength
    refine ⟨hzero, fun hu => ?_⟩
    have hroot := hsame.uncommittedRootHash
    simp only [Ledger.commitTxns, hzero, List.drop_zero, hu, if_true] at hroot
    exact hroot.symm
  · rintro ⟨rfl, hnone⟩
    refine ⟨by simp [Ledger.commitTxns], by simp [Ledger.commitTxns], ?_, rfl⟩
    by_cases hu : h.ledger.uncommittedTxns = []
    · simp [Ledger.commitTxns, hu, hnone hu]
    · simp [Ledger.commitTxns, hu]

/-- **A commit is all or nothing exactly if the roots agree, or nothing is committed.** For every ledger and state and every
count up to the number of uncommitted transactions: the call either returns and leaves the agreed roots, or raises and
leaves the ledger and the state as they were, if and only if both roots are hexadecimal, the root of the committed and
the first `txnCount` uncommitted transactions is the agreed one and the state knows the agreed root of the state, or no
transaction is taken and no uncommitted root cleared. -/
theorem commit_atomic_iff (stores : CommitStores κ τ) (hlawful : stores.Lawful) (h : RequestHandler κ τ) (txnCount : ℕ)
    (hcount : txnCount ≤ h.ledger.uncommittedTxns.length) (stateRoot txnRoot : String) :
    AllOrNothing stores txnCount stateRoot txnRoot h ↔
      Agreed stores txnCount stateRoot txnRoot h ∨ TakesNothing txnCount h := by
  unfold AllOrNothing
  by_cases hagreed : Agreed stores txnCount stateRoot txnRoot h
  · obtain ⟨stateBytes, committedTxns, hstate, hknows, hexec⟩ := exec_commit_of_agreed hagreed
    obtain ⟨-, txnBytes, -, htxn, hroot, -⟩ := hagreed
    rw [hexec]
    refine iff_of_true ⟨?_, ?_⟩ (Or.inl ⟨stateBytes, txnBytes, hstate, htxn, hroot, hknows⟩)
    · rw [hstate, hlawful h.state stateBytes hknows]
    · rw [htxn]
      exact congrArg some hroot
  · obtain ⟨e, hexec⟩ := exec_commit_of_not_agreed hagreed
    rw [hexec]
    refine (showsSame_commitTxns_iff hcount).trans ⟨Or.inr, fun hor => ?_⟩
    exact hor.resolve_left hagreed

end RequestHandler

open RequestHandler

/-! ## Witnesses -/

namespace OtherRoot

/-- the root of a tree is the number of its leaves; a state knows every root -/
def stores : CommitStores (List UInt8) ℕ where
  rootHash txns := toString [UInt8.ofNat txns.length]
  hashToStr bytes := toString bytes
  committedHeadHash state := state
  knows _ _ := true
  commit _ root := root

/-- one transaction is committed, another one is not yet -/
def handler : RequestHandler (List UInt8) ℕ := ⟨⟨[7], [8], some (toString [(2 : UInt8)]), some [7, 8]⟩, [0]⟩

end OtherRoot

open OtherRoot in
theorem commit_atomic_iff_agreed : AllOrNothing stores 1 "05" "02" handler ↔
    Agreed stores 1 "05" "02" handler ∨ TakesNothing 1 handler :=
  commit_atomic_iff stores (fun _ _ _ => rfl) handler 1 (by decide) "05" "02"

open OtherRoot in
/-- the agreed root is another one: the call raises, and the second transaction stays committed -/
theorem other_root_committed : ¬ AllOrNothing stores 1 "05" "03" handler := by
  intro h
  have hexec : exec (RequestHandler.commit stores 1 "05" "03") handler =
      (.error .assertionError, { handler with ledger := (handler.ledger.commitTxns 1).1 }) := rfl
  unfold AllOrNothing at h
  rw [hexec] at h
  exact absurd h.txns (by decide)

end Plenum
