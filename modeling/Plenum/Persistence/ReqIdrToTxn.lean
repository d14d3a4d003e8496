/-
Which request a committed transaction answers: the map from (identifier, request number) to sequence number.

- `reqToTxn`: a request as the ledger stores it. The fields of the operation are merged over the identifier and the
  request number, and an operation of a type without a schema may have any field.
- `getKey`: the hash of the identifier and the request number, written one after the other.
- `ReplyLog`: the ledger and the map; `run` commits batches, each recorded by `updateSeqNoMap`.
- `lookupExact_iff`: a lookup is exact if and only if the last transaction recorded under the text of the query is that
  of a request with the queried identifier and number, and where there is none no such request was committed.
- `lookup_of_other`: two valid pairs with one text; the one is found as soon as the other is committed.
-/
import Mathlib
import Plenum.Core.KeyedFold
import Plenum.Common.Types

namespace Plenum

open Plenum.Core

namespace ReqIdrToTxn

/-! ## Requests and transactions -/

/-- the value of a field; of the values of other types only `str(x)`, `bool(x)` and whether `hash(x)` exists matter -/
inductive FieldValue where
  | str (s : String)
  | int (n : ℤ)
  | bool (b : Bool)
  | other (text : String) (truthy hashable : Bool)
deriving DecidableEq, Repr

/-- `str(x)` -/
def FieldValue.text : FieldValue → String
  | .str s => s
  | .int n => n.repr
  | .bool b => if b then "True" else "False"
  | .other text _ _ => text

/-- a client's request -/
structure Request where
  identifier : String
  reqId : FieldValue
  operation : Dict String FieldValue
  signature : Option String

/-- `request.key` -/
def Request.key (req : Request) : String × FieldValue := (req.identifier, req.reqId)

abbrev Txn := Dict String FieldValue

def IDENTIFIER : String := "identifier"

def REQ_ID : String := "reqId"

def SIG : String := "signature"

def SEQ_NO : String := "seqNo"

def TXN_TYPE : String := "type"

/-- `reqToTxn` -/
def reqToTxn (req : Request) : Txn :=
  let res := ((Dict.empty.set IDENTIFIER (.str req.identifier)).set REQ_ID req.reqId).set SIG
    (match req.signature with
      | some s => .str s
      | none => .other "None" false true)
  res.update req.operation

/-- `txnsWithSeqNo` -/
def txnsWithSeqNo (seqNoStart : ℕ) (txns : List Txn) : List Txn :=
  (txns.zipIdx seqNoStart).map fun e => e.1.set SEQ_NO (.int e.2)

/-! ## What the schema of a request accepts -/

/-- `base58.alphabet` -/
def base58Alphabet : List Char := "123456789ABCDEFGHJKLMNPQRSTUVWXYZabcdefghijkmnopqrstuvwxyz".toList

/-- `IdentifierField`: a short or a long identifier -/
def identifierField (val : String) : Bool :=
  ((15 ≤ val.length && val.length < 26) || (43 ≤ val.length && val.length < 46)) &&
    val.toList.all fun c => base58Alphabet.contains c

/-- `NonNegativeNumberField`: a truth value counts as a number -/
def nonNegativeNumberField : FieldValue → Bool
  | .int n => 0 ≤ n
  | .bool _ => true
  | _ => false

/-- `ClientOperationField`: the type must be there and true, and be looked up in the schemas -/
def operationField (schemas : Dict String (Dict String FieldValue → Bool)) (operation : Dict String FieldValue) : Bool :=
  match operation.get? TXN_TYPE with
  | none => false
  | some (.str t) => t ≠ "" && (schemas.get? t).all fun check => check operation
  | some (.int n) => n ≠ 0
  | some (.bool b) => b
  | some (.other _ truthy hashable) => truthy && hashable

/-- `ClientMessageValidator`; `schemas` has the checks of the operation types that have a schema -/
def valid (schemas : Dict String (Dict String FieldValue → Bool)) (req : Request) : Bool :=
  identifierField req.identifier && nonNegativeNumberField req.reqId && operationField schemas req.operation

/-! ## The map -/

variable {δ : Type}

/-- `getKey`: only a text can be encoded -/
def getKey (sha256 : ByteArray → δ) (identifier reqId : FieldValue) : Except Exn δ :=
  match identifier with
  | .str i => .ok (sha256 (i.toUTF8 ++ reqId.text.toUTF8))
  | _ => .error .attributeError

/-- `txn[k]` -/
def item (txn : Txn) (k : String) : Except Exn FieldValue :=
  match txn.get? k with
  | some v => .ok v
  | none => .error .keyError

variable [DecidableEq δ]

def setBatch (kv : Dict δ String) (batch : List (δ × String)) : Dict δ String :=
  batch.foldl (fun kv e => kv.set e.1 e.2) kv

/-- the key and the value that `addBatch` puts for a transaction -/
def putOf (sha256 : ByteArray → δ) (txn : Txn) : Except Exn (δ × String) := do
  let identifier ← item txn IDENTIFIER
  let reqId ← item txn REQ_ID
  let seqNo ← item txn SEQ_NO
  let key ← getKey sha256 identifier reqId
  pure (key, seqNo.text)

/-- `updateSeqNoMap`: the whole batch is put, or nothing is -/
def updateSeqNoMap (sha256 : ByteArray → δ) (seqNoDB : Dict δ String) (committedTxns : List Txn) :
    Except Exn (Dict δ String) := do
  let batch ← committedTxns.mapM (putOf sha256)
  pure (setBatch seqNoDB batch)

/-- `get`; a missing key and a value that is not a number give `None` -/
def get (sha256 : ByteArray → δ) (seqNoDB : Dict δ String) (identifier : String) (reqId : FieldValue) : Option ℤ :=
  (seqNoDB.get? (sha256 (identifier.toUTF8 ++ reqId.text.toUTF8))).bind String.toInt?

/-! ## Runs -/

structure ReplyLog (δ : Type) where
  ledger : List Txn
  seqNoDB : Dict δ String

/-- a batch is committed to the ledger, then recorded; an exception in the recording leaves the map as it was -/
def commitBatch (sha256 : ByteArray → δ) (log : ReplyLog δ) (reqs : List Request) : ReplyLog δ where
  ledger := log.ledger ++ reqs.map reqToTxn
  seqNoDB := (updateSeqNoMap sha256 log.seqNoDB
    (txnsWithSeqNo (log.ledger.length + 1) (reqs.map reqToTxn))).toOption.getD log.seqNoDB

/-- the log after batches over a ledger of which nothing is recorded -/
def run (sha256 : ByteArray → δ) (genesis : List Txn) (batches : List (List Request)) : ReplyLog δ :=
  batches.foldl (commitBatch sha256) ⟨genesis, Dict.empty⟩

/-- a lookup is exact: it finds a number if and only if a request with that identifier and number was committed, and
then the transaction with that number was made from one -/
def LookupExact (sha256 : ByteArray → δ) (genesis : List Txn) (batches : List (List Request)) (identifier : String)
    (reqId : FieldValue) : Prop :=
  ((get sha256 (run sha256 genesis batches).seqNoDB identifier reqId).isSome ↔
    ∃ req ∈ batches.flatten, req.key = (identifier, reqId)) ∧
  ∀ n, get sha256 (run sha256 genesis batches).seqNoDB identifier reqId = some n →
    ∃ (k : ℕ) (req : Request), n = ((genesis.length + k + 1 : ℕ) : ℤ) ∧ batches.flatten[k]? = some req ∧
      (run sha256 genesis batches).ledger[genesis.length + k]? = some (reqToTxn req) ∧ req.key = (identifier, reqId)

/-! ## What is recorded -/

/-- what is hashed for the transaction of a request: the identifier and the number after the operation's fields have
been merged over them -/
def recordedText (req : Request) : Option String :=
  match (reqToTxn req).get? IDENTIFIER, (reqToTxn req).get? REQ_ID with
  | some (.str i), some r => some (i ++ r.text)
  | _, _ => none

/-- the requests whose transactions are recorded, with their places in the ledger -/
def recorded : ℕ → List (List Request) → List (Request × ℕ)
  | _, [] => []
  | start, reqs :: rest =>
    (if reqs.all fun req => (recordedText req).isSome then reqs.zipIdx start else []) ++
      recorded (start + reqs.length) rest

/-- the last one recorded under a text -/
def lastUnder (text : String) (entries : List (Request × ℕ)) : Option (Request × ℕ) :=
  (entries.filter fun e => recordedText e.1 = some text).getLast?

theorem reqToTxn_get? (req : Request) (k : String) :
    (reqToTxn req).get? k =
      (req.operation.get? k).or (((((Dict.empty.set IDENTIFIER (.str req.identifier)).set REQ_ID req.reqId).set SIG
        (match req.signature with
          | some s => .str s
          | none => .other "None" false true)) : Txn).get? k) := by
  unfold reqToTxn
  rw [Dict.get?_update]

/-- an operation without these fields leaves the request's own identifier and number -/
theorem recordedText_own {req : Request} (hi : req.operation.get? IDENTIFIER = none)
    (hr : req.operation.get? REQ_ID = none) : recordedText req = some (req.identifier ++ req.reqId.text) := by
  unfold recordedText
  rw [reqToTxn_get?, reqToTxn_get?, hi, hr]
  simp [Dict.get?_set, IDENTIFIER, REQ_ID, SIG]

theorem exists_identifier (req : Request) : ∃ v, (reqToTxn req).get? IDENTIFIER = some v := by
  rw [reqToTxn_get?]
  cases h : req.operation.get? IDENTIFIER with
  | some v => exact ⟨v, rfl⟩
  | none => exact ⟨.str req.identifier, by simp [Dict.get?_set, IDENTIFIER, REQ_ID, SIG]⟩

theorem exists_reqId (req : Request) : ∃ v, (reqToTxn req).get? REQ_ID = some v := by
  rw [reqToTxn_get?]
  cases h : req.operation.get? REQ_ID with
  | some v => exact ⟨v, rfl⟩
  | none => exact ⟨req.reqId, by simp [Dict.get?_set, REQ_ID, SIG]⟩

/-- the identifier and the number are hashed as one text -/
theorem toUTF8_append (i r : String) : i.toUTF8 ++ r.toUTF8 = (i ++ r).toUTF8 := by
  simp [String.toUTF8, String.toByteArray_append]

omit [DecidableEq δ] in
/-- the number of a transaction does not change what it is recorded under -/
theorem putOf_seqNo (sha256 : ByteArray → δ) (req : Request) (n : ℕ) :
    putOf sha256 ((reqToTxn req).set SEQ_NO (.int n)) =
      match recordedText req with
      | some text => .ok (sha256 text.toUTF8, (n : ℤ).repr)
      | none => .error .attributeError := by
  obtain ⟨i, hi⟩ := exists_identifier req
  obtain ⟨r, hr⟩ := exists_reqId req
  have hi' : ((reqToTxn req).set SEQ_NO (.int n)).get? IDENTIFIER = some i := by
    rw [Dict.get?_set_ne _ _ (by decide), hi]
  have hr' : ((reqToTxn req).set SEQ_NO (.int n)).get? REQ_ID = some r := by
    rw [Dict.get?_set_ne _ _ (by decide), hr]
  unfold putOf item recordedText
  simp only [hi', hr', hi, hr, Dict.get?_set_self]
  cases i with
  | str i =>
    change Except.ok (sha256 (i.toUTF8 ++ r.text.toUTF8), (n : ℤ).repr) = Except.ok (sha256 (i ++ r.text).toUTF8, _)
    rw [toUTF8_append]
  | int n => rfl
  | bool b => rfl
  | other text truthy hashable => rfl

/-- what is put for a recorded entry: under the hash of its text, the sequence number of its place -/
def puts (sha256 : ByteArray → δ) : KeyedMerge (Request × ℕ) δ String where
  key e := (recordedText e.1).map fun text => sha256 text.toUTF8
  merge _ e := ((e.2 + 1 : ℕ) : ℤ).repr

omit [DecidableEq δ] in
theorem mapM_putOf (sha256 : ByteArray → δ) (reqs : List Request) (start : ℕ) :
    (txnsWithSeqNo (start + 1) (reqs.map reqToTxn)).mapM (putOf sha256) =
      if reqs.all fun req => (recordedText req).isSome then
        .ok ((reqs.zipIdx start).map fun e =>
          (sha256 ((recordedText e.1).getD "").toUTF8, ((e.2 + 1 : ℕ) : ℤ).repr))
      else .error .attributeError := by
  induction reqs generalizing start with
  | nil => rfl
  | cons req reqs ih =>
    have hstep : txnsWithSeqNo (start + 1) ((req :: reqs).map reqToTxn) =
        (reqToTxn req).set SEQ_NO (.int (start + 1 : ℕ)) :: txnsWithSeqNo (start + 1 + 1) (reqs.map reqToTxn) := rfl
    rw [hstep, List.mapM_cons, putOf_seqNo, ih]
    cases h : recordedText req with
    | none => simp [h, bind, Except.bind]
    | some text =>
      by_cases hall : (reqs.all fun req => (recordedText req).isSome) = true
      · simp [h, hall, bind, Except.bind, pure, Except.pure]
      · simp [h, hall, bind, Except.bind]

theorem setBatch_eq_replayOver (sha256 : ByteArray → δ) (entries : List (Request × ℕ)) (kv : Dict δ String)
    (h : ∀ e ∈ entries, (recordedText e.1).isSome) :
    setBatch kv (entries.map fun e => (sha256 ((recordedText e.1).getD "").toUTF8, ((e.2 + 1 : ℕ) : ℤ).repr)) =
      (puts sha256).replayOver Dict.empty entries kv := by
  unfold setBatch KeyedMerge.replayOver
  rw [List.foldl_map]
  refine List.foldl_ext _ _ _ fun kv e he => ?_
  obtain ⟨text, ht⟩ := Option.isSome_iff_exists.1 (h e he)
  simp [KeyedMerge.write, puts, ht]

theorem replayOver_append (sha256 : ByteArray → δ) (es es' : List (Request × ℕ)) (kv : Dict δ String) :
    (puts sha256).replayOver Dict.empty (es ++ es') kv =
      (puts sha256).replayOver Dict.empty es' ((puts sha256).replayOver Dict.empty es kv) := List.foldl_append

/-- **Step lemma.** A batch puts its entries, or nothing if one of its transactions has no text for an identifier. -/
theorem commitBatch_seqNoDB (sha256 : ByteArray → δ) (log : ReplyLog δ) (reqs : List Request) :
    (commitBatch sha256 log reqs).seqNoDB =
      (puts sha256).replayOver Dict.empty
        (if reqs.all fun req => (recordedText req).isSome then reqs.zipIdx log.ledger.length else []) log.seqNoDB := by
  unfold commitBatch updateSeqNoMap
  rw [mapM_putOf]
  split_ifs with hall
  · have hrec : ∀ e ∈ reqs.zipIdx log.ledger.length, (recordedText e.1).isSome := by
      intro e he
      exact List.all_eq_true.1 hall e.1 (List.fst_mem_of_mem_zipIdx he)
    exact setBatch_eq_replayOver sha256 _ _ hrec
  · rfl

/-- **Run lemma.** After a run the ledger holds the transactions of all requests, and the map what the recorded ones
put, one after the other. -/
theorem foldl_commitBatch (sha256 : ByteArray → δ) (batches : List (List Request)) (log : ReplyLog δ) :
    (batches.foldl (commitBatch sha256) log).ledger = log.ledger ++ batches.flatten.map reqToTxn ∧
    (batches.foldl (commitBatch sha256) log).seqNoDB =
      (puts sha256).replayOver Dict.empty (recorded log.ledger.length batches) log.seqNoDB := by
  induction batches generalizing log with
  | nil => exact ⟨by simp, rfl⟩
  | cons reqs rest ih =>
    have hledger : (commitBatch sha256 log reqs).ledger = log.ledger ++ reqs.map reqToTxn := rfl
    obtain ⟨h1, h2⟩ := ih (commitBatch sha256 log reqs)
    rw [List.foldl_cons]
    refine ⟨by rw [h1, hledger]; simp, ?_⟩
    rw [h2, commitBatch_seqNoDB, hledger, List.length_append, List.length_map, recorded, replayOver_append]

/-- the last transaction recorded under the text of the query was made from a request with the queried identifier and
number; where none was recorded under it, no such request was committed -/
def LastIsOwn (genesis : List Txn) (batches : List (List Request)) (identifier : String) (reqId : FieldValue) : Prop :=
  match lastUnder (identifier ++ reqId.text) (recorded genesis.length batches) with
  | some e => e.1.key = (identifier, reqId)
  | none => ∀ req ∈ batches.flatten, req.key ≠ (identifier, reqId)

/-! ## Exact lookups -/

theorem recordsOf_eq {sha256 : ByteArray → δ} (hinj : Function.Injective sha256) (text : String)
    (entries : List (Request × ℕ)) :
    (puts sha256).recordsOf (sha256 text.toUTF8) entries =
      entries.filter fun e => recordedText e.1 = some text := by
  refine List.filter_congr fun e _ => decide_eq_decide.2 ?_
  simp only [puts, Option.map_eq_some_iff]
  constructor
  · rintro ⟨t, ht, h⟩
    rw [ht, Option.some.injEq]
    exact String.toByteArray_inj.1 (hinj h)
  · intro h
    exact ⟨text, h, rfl⟩

/-- a lookup finds the sequence number of what was recorded last under the text of the query -/
theorem get_run {sha256 : ByteArray → δ} (hinj : Function.Injective sha256) (genesis : List Txn)
    (batches : List (List Request)) (identifier : String) (reqId : FieldValue) :
    get sha256 (run sha256 genesis batches).seqNoDB identifier reqId =
      (lastUnder (identifier ++ reqId.text) (recorded genesis.length batches)).map fun e => ((e.2 + 1 : ℕ) : ℤ) := by
  have hrun := (foldl_commitBatch sha256 batches ⟨genesis, Dict.empty⟩).2
  unfold get run
  rw [hrun, toUTF8_append, KeyedMerge.get?_replayOver, recordsOf_eq hinj, lastUnder]
  cases (List.filter _ _).getLast? with
  | none => rfl
  | some e => simp [puts]

/-- what is recorded stands at its place in the ledger -/
theorem getElem?_of_mem_recorded {start : ℕ} {batches : List (List Request)} {e : Request × ℕ}
    (h : e ∈ recorded start batches) : ∃ k, e.2 = start + k ∧ batches.flatten[k]? = some e.1 := by
  induction batches generalizing start with
  | nil => exact absurd h List.not_mem_nil
  | cons reqs rest ih =>
    rw [recorded, List.mem_append] at h
    rcases h with h | h
    · have hmem : e ∈ reqs.zipIdx start := by
        split_ifs at h
        · exact h
        · exact absurd h List.not_mem_nil
      obtain ⟨hle, hlt, he⟩ := List.mem_zipIdx hmem
      refine ⟨e.2 - start, by omega, ?_⟩
      rw [List.flatten_cons, List.getElem?_append_left (by omega), List.getElem?_eq_getElem (by omega), he]
    · obtain ⟨k, hk, he⟩ := ih h
      refine ⟨reqs.length + k, by omega, ?_⟩
      rw [List.flatten_cons, List.getElem?_append_right (by omega), Nat.add_sub_cancel_left, he]

theorem mem_of_lastUnder {text : String} {entries : List (Request × ℕ)} {e : Request × ℕ}
    (h : lastUnder text entries = some e) : e ∈ entries :=
  List.mem_of_mem_filter (List.mem_of_getLast? h)

/-- **When a lookup is exact.** Exactly when the last transaction recorded under the text of the query is the query's
own. -/
theorem lookupExact_iff {sha256 : ByteArray → δ} (hinj : Function.Injective sha256) (genesis : List Txn)
    (batches : List (List Request)) (identifier : String) (reqId : FieldValue) :
    LookupExact sha256 genesis batches identifier reqId ↔ LastIsOwn genesis batches identifier reqId := by
  have hledger := (foldl_commitBatch sha256 batches ⟨genesis, Dict.empty⟩).1
  unfold LookupExact LastIsOwn
  rw [get_run hinj]
  cases hlast : lastUnder (identifier ++ reqId.text) (recorded genesis.length batches) with
  | none => simp
  | some e =>
    obtain ⟨k, hk, hreq⟩ := getElem?_of_mem_recorded (mem_of_lastUnder hlast)
    have htxn : (run sha256 genesis batches).ledger[genesis.length + k]? = some (reqToTxn e.1) := by
      unfold run
      rw [hledger, List.getElem?_append_right (by simp), Nat.add_sub_cancel_left, List.getElem?_map, hreq]
      rfl
    simp only [Option.map_some, Option.isSome_some, true_iff, Option.some.injEq]
    constructor
    · intro h
      obtain ⟨k', req, hn, hreq', -, hkey⟩ := h.2 _ rfl
      have hkk : k' = k := by omega
      rw [hkk, hreq, Option.some.injEq] at hreq'
      rw [hreq', hkey]
    · intro hkey
      refine ⟨⟨e.1, List.mem_of_getElem? hreq, hkey⟩, ?_⟩
      intro n hn
      exact ⟨k, e.1, by omega, hreq, htxn, hkey⟩

/-! ## Witnesses -/

namespace Buying

def operation : Dict String FieldValue := Dict.empty.set TXN_TYPE (.str "buy")

/-- request 15 of a client with an identifier of 22 characters -/
def fifteen : Request := ⟨"1111111111111111111111", .int 15, operation, some "sig"⟩

/-- request 5 of a client with an identifier of 23 characters -/
def five : Request := ⟨"11111111111111111111111", .int 5, operation, some "sig"⟩

/-- no schema for the type of the operation -/
theorem operationField_operation (schemas : Dict String (Dict String FieldValue → Bool))
    (h : schemas.get? "buy" = none) : operationField schemas operation = true := by
  have htype : operation.get? TXN_TYPE = some (.str "buy") := Dict.get?_set_self _ _ _
  simp [operationField, htype, h]

theorem recordedText_fifteen : recordedText fifteen = some (fifteen.identifier ++ fifteen.reqId.text) :=
  recordedText_own (by decide +kernel) (by decide +kernel)

theorem texts_agree : fifteen.identifier ++ fifteen.reqId.text = five.identifier ++ five.reqId.text := by
  decide +kernel

end Buying

open Buying

theorem lookupExact_iff_fifteen : Function.Injective (id : ByteArray → ByteArray) ∧
    LookupExact id [] [[fifteen]] fifteen.identifier fifteen.reqId := by
  have hlast : LastIsOwn [] [[fifteen]] fifteen.identifier fifteen.reqId := by
    unfold LastIsOwn
    simp [lastUnder, recorded, recordedText_fifteen, Request.key]
  exact ⟨Function.injective_id, (lookupExact_iff Function.injective_id [] [[fifteen]] _ _).2 hlast⟩

/-- **Another client's request.** Both requests pass the schema; with the one committed, the other is found. -/
theorem lookup_of_other :
    (∀ schemas : Dict String (Dict String FieldValue → Bool), schemas.get? "buy" = none →
      valid schemas fifteen = true ∧ valid schemas five = true) ∧
    get id (run id [] [[fifteen]]).seqNoDB five.identifier five.reqId = some 1 ∧
    ¬ LookupExact (id : ByteArray → ByteArray) [] [[fifteen]] five.identifier five.reqId := by
  have hfound : get id (run id [] [[fifteen]]).seqNoDB five.identifier five.reqId = some 1 := by
    rw [get_run Function.injective_id, ← texts_agree]
    simp [lastUnder, recorded, recordedText_fifteen]
  refine ⟨?_, hfound, ?_⟩
  · intro schemas h
    have hop : operationField schemas fifteen.operation = true := operationField_operation schemas h
    have hop' : operationField schemas five.operation = true := operationField_operation schemas h
    have hfields : identifierField fifteen.identifier = true ∧ nonNegativeNumberField fifteen.reqId = true ∧
        identifierField five.identifier = true ∧ nonNegativeNumberField five.reqId = true := by decide +kernel
    exact ⟨by simp [valid, hop, hfields], by simp [valid, hop', hfields]⟩
  · rintro ⟨hiff, -⟩
    rw [hfound] at hiff
    obtain ⟨req, hmem, hkey⟩ := hiff.1 rfl
    have hreq : req = fifteen := by simpa using hmem
    rw [hreq] at hkey
    exact absurd hkey (by decide +kernel)

end ReqIdrToTxn

end Plenum
