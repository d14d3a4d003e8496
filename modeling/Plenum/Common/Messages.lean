/-
The messages of the nodes: their schemas, and what a node takes from the wire.

- `Validator`: a field, or the schema of a whole dictionary. A field returns its error, a schema raises it.
- `registry`: the classes of messages by their names. A `MessageBase` checks its fields, a `TaggedTuple` only their
  names.
- `constructMsg`: a message from its dictionary.
- `validateNodeMsg`: what a node takes: a message of a sender that is not blacklisted, of a class that needs no signature,
  or with a request whose signature verifies.
-/
import Mathlib.Tactic
import Plenum.Common.Fields
import Plenum.Core.Dict

namespace Plenum.Messages

open Plenum.Core

/-! ## Values -/

inductive Value (φ : Type) where
  | none
  | bool (b : Bool)
  | int (z : ℤ)
  | float (x : φ)
  | str (s : String)
  | list (items : List (Value φ))
  | tuple (items : List (Value φ))
  | dict (entries : List (String × Value φ))

/-- what the language and its libraries know of values -/
structure Language (φ : Type) where
  /-- `str(val)` -/
  str : Value φ → String
  isZero : φ → Bool
  /-- `x <= 0` -/
  nonPositive : φ → Bool
  /-- `z / 1000`, `none` where it raises -/
  thousandth : ℤ → Option φ
  /-- `ipaddress.ip_address` does not raise -/
  isIpAddress : String → Bool
  unicode : Fields.UnicodeData
  /-- the characters of base 58 as the text of a set -/
  alphabetText : String

variable {φ : Type} (L : Language φ)

namespace Value

def typeName : Value φ → String
  | .none => "NoneType"
  | .bool _ => "bool"
  | .int _ => "int"
  | .float _ => "float"
  | .str _ => "str"
  | .list _ => "list"
  | .tuple _ => "tuple"
  | .dict _ => "dict"

/-- `isinstance(val, t)`; truth values are numbers -/
def isInstance (val : Value φ) (t : String) : Bool := val.typeName = t ∨ (val.typeName = "bool" ∧ t = "int")

/-- the number that a value is -/
def toInt : Value φ → Option ℤ
  | .bool b => some (if b then 1 else 0)
  | .int z => some z
  | _ => Option.none

/-- `bool(val)` -/
def truthy : Value φ → Bool
  | .none => false
  | .bool b => b
  | .int z => z ≠ 0
  | .float x => !L.isZero x
  | .str s => s ≠ ""
  | .list items => !items.isEmpty
  | .tuple items => !items.isEmpty
  | .dict entries => !entries.isEmpty

mutual

/-- the value can be looked up in a dictionary -/
def isHashable : Value φ → Bool
  | .list _ => false
  | .dict _ => false
  | .tuple items => allHashable items
  | _ => true

def allHashable : List (Value φ) → Bool
  | [] => true
  | v :: vs => v.isHashable && allHashable vs

end

mutual

/-- the value after it was written and read as JSON, where a tuple is a list -/
def wire : Value φ → Value φ
  | .list items => .list (wireAll items)
  | .tuple items => .list (wireAll items)
  | .dict entries => .dict (wireEntries entries)
  | v => v

def wireAll : List (Value φ) → List (Value φ)
  | [] => []
  | v :: vs => v.wire :: wireAll vs

def wireEntries : List (String × Value φ) → List (String × Value φ)
  | [] => []
  | (k, v) :: es => (k, v.wire) :: wireEntries es

end

/-- the value of an entry after the wire -/
def wireEntry (e : String × Value φ) : String × Value φ := (e.1, e.2.wire)

end Value

/-! ## Validators -/

/-- what a constructor raises -/
inductive ValidationError (φ : Type) where
  | numberOfParameters (argsLen : ℕ)
  | invalidType (typeName : String)
  | missedFields (fields : List String)
  | unknownField (field : String) (val : Value φ)
  | invalidField (field : String) (val : Value φ) (reason : String)
  | keyError (field : String)
  /-- the `TypeError` of a named tuple -/
  | arguments
  | unhashable
  | overflow

/-- a validator: it returns its error, `none` if there is none, or raises -/
structure Validator (φ : Type) where
  optional : Bool
  validate : Value φ → Except (ValidationError φ) (Option String)

def Validator.Accepts (field : Validator φ) (val : Value φ) : Prop := field.validate val = .ok none

def wrongTypeMsg (baseTypes : List String) (val : Value φ) : String :=
  "expected types '" ++ ", ".intercalate baseTypes ++ "', got '" ++ val.typeName ++ "'"

/-- `none` for the types: the check is disabled -/
def typeCheck : Option (List String) → Value φ → Option String
  | none, _ => none
  | some baseTypes, val => if baseTypes.any val.isInstance then none else some (wrongTypeMsg baseTypes val)

/-- a field of the given types -/
def fieldBase (baseTypes : Option (List String)) (optional nullable : Bool)
    (specificValidation : Value φ → Except (ValidationError φ) (Option String)) : Validator φ where
  optional := optional
  validate val :=
    match nullable, val with
    | true, .none => .ok none
    | _, val =>
      match typeCheck baseTypes val with
      | some typeEr => .ok (some typeEr)
      | none => specificValidation val

/-- a field of texts -/
def strField (optional nullable : Bool) (check : String → Option String) : Validator φ :=
  fieldBase (some ["str"]) optional nullable fun
    | .str s => .ok (check s)
    | _ => .ok none

def NonEmptyStringField (optional : Bool) : Validator φ :=
  strField optional false fun val => if val = "" then some "empty string" else none

def SignatureField (optional : Bool) : Validator φ :=
  fieldBase (some ["str", "NoneType"]) optional false fun _ => .ok none

def RoleField (optional : Bool) : Validator φ :=
  fieldBase (some ["str", "NoneType"]) optional false fun _ => .ok none

/-- a field of whole numbers -/
def intField (optional : Bool) (check : Value φ → ℤ → Option String) : Validator φ :=
  fieldBase (some ["int"]) optional false fun val => .ok (val.toInt.bind (check val))

def NonNegativeNumberField : Validator φ := intField false fun _ z => if z < 0 then some "negative value" else none

def NetworkPortField (optional : Bool) : Validator φ :=
  intField optional fun _ z => if z < 0 ∨ 65535 < z then some "network port out of the range 0-65535" else none

def LedgerIdField : Validator φ :=
  intField false fun val z =>
    if z ∈ [Fields.POOL_LEDGER_ID, Fields.DOMAIN_LEDGER_ID] then none
    else
      let ledgerIds := ", ".intercalate ([Fields.POOL_LEDGER_ID, Fields.DOMAIN_LEDGER_ID].map toString)
      some ("expected one of '" ++ ledgerIds ++ "', unknown value '" ++ L.str val ++ "'")

/-- a field of one text -/
def ConstantField (value : String) : Validator φ :=
  fieldBase none false false fun val =>
    .ok (match val with
      | .str s => if s ≠ value then some ("has to be equal " ++ value) else none
      | _ => some ("has to be equal " ++ value))

/-- a field of some texts -/
def ChooseField (values : List String) : Validator φ :=
  fieldBase none false false fun val =>
    let unknown := some ("expected one of '" ++ ", ".intercalate values ++ "', unknown value '" ++ L.str val ++ "'")
    .ok (match val with
      | .str s => if s ∉ values then unknown else none
      | _ => unknown)

/-- the first error among the items -/
def firstError (validate : Value φ → Except (ValidationError φ) (Option String)) :
    List (Value φ) → Except (ValidationError φ) (Option String)
  | [] => .ok none
  | v :: vs =>
    match validate v with
    | .error e => .error e
    | .ok (some checkEr) => .ok (some checkEr)
    | .ok none => firstError validate vs

/-- a field of lists and tuples -/
def seqField (optional : Bool) (check : List (Value φ) → Except (ValidationError φ) (Option String)) : Validator φ :=
  fieldBase (some ["list", "tuple"]) optional false fun
    | .list items => check items
    | .tuple items => check items
    | _ => .ok none

def IterableField (innerFieldType : Validator φ) (optional : Bool) : Validator φ :=
  seqField optional (firstError innerFieldType.validate)

/-- a field of pairs -/
def pairField (first second : Validator φ) : Validator φ :=
  seqField false fun
    | [a, b] =>
      match first.validate a with
      | .error e => .error e
      | .ok (some idrError) => .ok (some idrError)
      | .ok none => second.validate b
    | _ => .ok (some "should have length 2")

def NetworkIpAddressField (optional : Bool) : Validator φ :=
  strField optional false fun val =>
    if ¬ L.isIpAddress val ∨ val ∈ ["0.0.0.0", "0:0:0:0:0:0:0:0", "::"] then
      some ("invalid network ip address (" ++ val ++ ")")
    else none

/-- the check of a field of texts -/
def checkOf (field : Fields.FieldBase) (val : String) : Option String := field.specificValidation (.str val)

def Base58Field (short long : Bool) : Validator φ :=
  strField false false (checkOf (Fields.Base58Field L.alphabetText short long))

def IdentifierField : Validator φ := Base58Field L true true

def DestNodeField : Validator φ := Base58Field L true true

def DestNymField : Validator φ := Base58Field L true true

def MerkleRootField : Validator φ := Base58Field L false true

def RequestIdentifierField : Validator φ := pairField (IdentifierField L) NonNegativeNumberField

def TieAmongField : Validator φ := pairField (NonEmptyStringField false) NonNegativeNumberField

def VerkeyField (optional : Bool) : Validator φ :=
  strField optional false fun val =>
    match val.toList with
    | [] => none
    | '~' :: rest => checkOf (Fields.Base58Field L.alphabetText true false) (String.ofList rest)
    | _ => checkOf (Fields.Base58Field L.alphabetText false true) val

def HexField (length : ℕ) (nullable : Bool) : Validator φ :=
  strField false nullable (checkOf (Fields.HexField L.unicode (some length) nullable))

def TimestampField : Validator φ :=
  fieldBase (some ["float", "int"]) false false fun val =>
    let notPositive (x : φ) : Option String :=
      if L.nonPositive x then some ("should be a positive number but was " ++ L.str val) else none
    match val, val.toInt with
    | .float x, _ => .ok (notPositive x)
    | _, some z =>
      match L.thousandth z with
      | some x => .ok (notPositive x)
      | none => .error .overflow
    | _, none => .ok none

/-! ## Schemas -/

abbrev Schema (φ : Type) := List (String × Validator φ)

/-- the loop over the entries of a dictionary -/
def validateEntries (schema : Schema φ) : List (String × Value φ) → Except (ValidationError φ) Unit
  | [] => .ok ()
  | (k, v) :: es =>
    match schema.lookup k with
    | none => .error (.unknownField k v)
    | some field =>
      match field.validate v with
      | .error e => .error e
      | .ok (some reason) => .error (.invalidField k v reason)
      | .ok none => validateEntries schema es

def missedRequiredFields (schema : Schema φ) (entries : List (String × Value φ)) : List String :=
  (schema.filter fun x => ¬ x.2.optional ∧ x.1 ∉ entries.map Prod.fst).map Prod.fst

def validateFieldsWithSchema (schema : Schema φ) : Value φ → Except (ValidationError φ) Unit
  | .dict entries =>
    if missedRequiredFields schema entries ≠ [] then .error (.missedFields (missedRequiredFields schema entries))
    else validateEntries schema entries
  | val => .error (.invalidType val.typeName)

/-- a schema as a validator of dictionaries, with a check of the whole dictionary after those of its fields -/
def messageValidator (schema : Schema φ) (validateMessage : List (String × Value φ) → Except (ValidationError φ) Unit) :
    Validator φ where
  optional := false
  validate val := do
    validateFieldsWithSchema schema val
    match val with
    | .dict entries => validateMessage entries
    | _ => .ok ()
    .ok none

def requiredHaFields : List String := ["node_ip", "node_port", "client_ip", "client_port"]

/-- the addresses of a node come all four or not at all -/
def haFieldsTogether (entries : List (String × Value φ)) : Except (ValidationError φ) Unit :=
  let absent := requiredHaFields.filter fun name => name ∉ entries.map Prod.fst
  if absent ≠ [] ∧ absent.length < requiredHaFields.length then .error (.missedFields absent) else .ok ()

def ClientNodeOperationData : Validator φ :=
  messageValidator
    [("node_ip", NetworkIpAddressField L true), ("node_port", NetworkPortField true),
      ("client_ip", NetworkIpAddressField L true), ("client_port", NetworkPortField true),
      ("alias", NonEmptyStringField false), ("services", IterableField (ChooseField L ["VALIDATOR"]) true)]
    haFieldsTogether

def NODE : String := "0"

def NYM : String := "1"

def ClientNodeOperation : Validator φ :=
  messageValidator
    [("type", ConstantField NODE), ("data", ClientNodeOperationData L), ("dest", DestNodeField L),
      ("verkey", VerkeyField L true)]
    fun _ => .ok ()

def ClientNYMOperation : Validator φ :=
  messageValidator
    [("type", ConstantField NYM), ("alias", NonEmptyStringField true), ("verkey", VerkeyField L true),
      ("dest", DestNymField L), ("role", RoleField true)]
    fun _ => .ok ()

/-- the schema of the operation's type; an operation of another type is not checked -/
def ClientOperationField : Validator φ where
  optional := false
  validate val :=
    match val with
    | .dict entries =>
      let schemaType := (entries.lookup "type").getD .none
      if ¬ schemaType.truthy L then .error (.missedFields ["type"])
      else if ¬ schemaType.isHashable then .error .unhashable
      else
        match schemaType with
        | .str s =>
          if s = NODE then (ClientNodeOperation L).validate val
          else if s = NYM then (ClientNYMOperation L).validate val
          else .ok none
        | _ => .ok none
    | _ => .error (.invalidField "" val "wrong type")

def ClientMessageValidator : Validator φ :=
  messageValidator
    [("identifier", IdentifierField L), ("reqId", NonNegativeNumberField), ("operation", ClientOperationField L),
      ("signature", SignatureField true), ("digest", NonEmptyStringField true)]
    fun _ => .ok ()

/-! ## Classes of messages -/

/-- a class of messages: with a schema for its fields, or with their names only -/
inductive MessageClass (φ : Type) where
  | messageBase (typename : String) (schema : Schema φ)
  | taggedTuple (typename : String) (fields : List String)

namespace MessageClass

def typename : MessageClass φ → String
  | .messageBase typename _ => typename
  | .taggedTuple typename _ => typename

/-- the names of the fields, in order -/
def names : MessageClass φ → List String
  | .messageBase _ schema => schema.map Prod.fst
  | .taggedTuple _ fields => fields

/-- the fields of a message, out of a dictionary that has them all -/
def fieldsOf (names : List String) (entries : Dict String (Value φ)) :
    Except (ValidationError φ) (List (String × Value φ)) :=
  names.mapM fun name =>
    match entries.get? name with
    | some val => .ok (name, val)
    | none => .error (.keyError name)

/-- `cls(*args)` -/
def ofArgs : MessageClass φ → List (Value φ) → Except (ValidationError φ) (List (String × Value φ))
  | .messageBase _ schema, args =>
    let inputAsDict := (schema.map Prod.fst).zip args
    if args.length ≠ schema.length then .error (.numberOfParameters args.length)
    else
      match validateFieldsWithSchema schema (.dict inputAsDict) with
      | .error e => .error e
      | .ok _ => .ok inputAsDict
  | .taggedTuple _ fields, args => if args.length ≠ fields.length then .error .arguments else .ok (fields.zip args)

/-- `cls(**kwargs)` -/
def ofKwargs : MessageClass φ → Dict String (Value φ) → Except (ValidationError φ) (List (String × Value φ))
  | .messageBase _ schema, kwargs =>
    let kwargs := kwargs.erase "op"
    if kwargs.size ≠ schema.length then .error (.numberOfParameters kwargs.size)
    else
      match validateFieldsWithSchema schema (.dict kwargs.entries) with
      | .error e => .error e
      | .ok _ => fieldsOf (schema.map Prod.fst) kwargs
  | .taggedTuple _ fields, kwargs =>
    if kwargs.keys.all (· ∈ fields) ∧ fields.all (· ∈ kwargs.keys) then fieldsOf fields kwargs else .error .arguments

/-- `_asdict()` of a message with these fields -/
def asDict (cls : MessageClass φ) (fields : List (String × Value φ)) : List (String × Value φ) :=
  ("op", .str cls.typename) :: fields

end MessageClass

def Nomination : MessageClass φ :=
  .messageBase "NOMINATE"
    [("name", NonEmptyStringField false), ("instId", NonNegativeNumberField), ("viewNo", NonNegativeNumberField),
      ("ordSeqNo", NonNegativeNumberField)]

def Batch : MessageClass φ := .taggedTuple "BATCH" ["messages", "signature"]

def Reelection : MessageClass φ :=
  .messageBase "REELECTION"
    [("instId", NonNegativeNumberField), ("round", NonNegativeNumberField),
      ("tieAmong", IterableField TieAmongField false), ("viewNo", NonNegativeNumberField)]

def Primary : MessageClass φ :=
  .messageBase "PRIMARY"
    [("name", NonEmptyStringField false), ("instId", NonNegativeNumberField), ("viewNo", NonNegativeNumberField),
      ("ordSeqNo", NonNegativeNumberField)]

def RequestAck : MessageClass φ := .taggedTuple "REQACK" ["identifier", "reqId"]

def RequestNack : MessageClass φ := .taggedTuple "REQNACK" ["identifier", "reqId", "reason"]

def Reject : MessageClass φ := .taggedTuple "REJECT" ["identifier", "reqId", "reason"]

def PoolLedgerTxns : MessageClass φ := .taggedTuple "POOL_LEDGER_TXNS" ["txn"]

def Ordered : MessageClass φ :=
  .messageBase "ORDERED"
    [("instId", NonNegativeNumberField), ("viewNo", NonNegativeNumberField),
      ("reqIdr", IterableField (RequestIdentifierField L) false), ("ppSeqNo", NonNegativeNumberField),
      ("ppTime", TimestampField L), ("ledgerId", LedgerIdField L), ("stateRootHash", HexField L 64 true),
      ("txnRootHash", HexField L 64 true)]

def Propagate : MessageClass φ :=
  .messageBase "PROPAGATE" [("request", ClientMessageValidator L), ("senderClient", NonEmptyStringField false)]

def PrePrepare : MessageClass φ :=
  .messageBase "PREPREPARE"
    [("instId", NonNegativeNumberField), ("viewNo", NonNegativeNumberField), ("ppSeqNo", NonNegativeNumberField),
      ("ppTime", TimestampField L), ("reqIdr", IterableField (RequestIdentifierField L) false),
      ("discarded", NonNegativeNumberField), ("digest", NonEmptyStringField false), ("ledgerId", LedgerIdField L),
      ("stateRootHash", HexField L 64 true), ("txnRootHash", HexField L 64 true)]

def Prepare : MessageClass φ :=
  .messageBase "PREPARE"
    [("instId", NonNegativeNumberField), ("viewNo", NonNegativeNumberField), ("ppSeqNo", NonNegativeNumberField),
      ("digest", NonEmptyStringField false), ("stateRootHash", HexField L 64 true), ("txnRootHash", HexField L 64 true)]

def Commit : MessageClass φ :=
  .messageBase "COMMIT"
    [("instId", NonNegativeNumberField), ("viewNo", NonNegativeNumberField), ("ppSeqNo", NonNegativeNumberField)]

def Checkpoint : MessageClass φ :=
  .taggedTuple "CHECKPOINT" ["instId", "viewNo", "seqNoStart", "seqNoEnd", "digest"]

def ThreePCState : MessageClass φ := .taggedTuple "THREE_PC_STATE" ["instId", "messages"]

def Reply : MessageClass φ := .taggedTuple "REPLY" ["result"]

def InstanceChange : MessageClass φ :=
  .messageBase "INSTANCE_CHANGE" [("viewNo", NonNegativeNumberField), ("reason", NonNegativeNumberField)]

def LedgerStatus : MessageClass φ :=
  .messageBase "LEDGER_STATUS"
    [("ledgerId", LedgerIdField L), ("txnSeqNo", NonNegativeNumberField), ("merkleRoot", MerkleRootField L)]

def ConsistencyProof : MessageClass φ :=
  .messageBase "CONSISTENCY_PROOF"
    [("ledgerId", LedgerIdField L), ("seqNoStart", NonNegativeNumberField), ("seqNoEnd", NonNegativeNumberField),
      ("ppSeqNo", NonNegativeNumberField), ("oldMerkleRoot", MerkleRootField L), ("newMerkleRoot", MerkleRootField L),
      ("hashes", IterableField (NonEmptyStringField false) false)]

def CatchupReq : MessageClass φ := .taggedTuple "CATCHUP_REQ" ["ledgerId", "seqNoStart", "seqNoEnd", "catchupTill"]

def CatchupRep : MessageClass φ := .taggedTuple "CATCHUP_REP" ["ledgerId", "txns", "consProof"]

def ConsProofRequest : MessageClass φ := .taggedTuple "CONS_PROOF_REQUEST" ["ledgerId", "seqNoStart", "seqNoEnd"]

/-- `TaggedTuples` -/
def registry : List (MessageClass φ) :=
  [Nomination, Batch, Reelection, Primary, RequestAck, RequestNack, Reject, PoolLedgerTxns, Ordered L, Propagate L,
    PrePrepare L, Prepare L, Commit, Checkpoint, ThreePCState, Reply, InstanceChange, LedgerStatus L,
    ConsistencyProof L, CatchupReq, CatchupRep, ConsProofRequest]

/-! ## A message from the wire -/

/-- what `verifySignature` raises; the first kind are the signing exceptions, by their names -/
inductive VerifyError where
  | signing (e : String)
  | attributeError (name : String)
  | keyError (name : String)

inductive NodeMsgError (φ : Type) where
  | missingNodeOp
  | invalidNodeOp (op : Value φ)
  | invalidNodeMsg (e : ValidationError φ)
  | unhashable
  | suspiciousNode (frm : String) (e : String)
  | attributeError (name : String)
  | keyError (name : String)

/-- what of a node decides, with the message, whether the node takes it -/
structure NodeAuthn (φ : Type) where
  isNodeBlacklisted : String → Bool
  /-- `clientAuthNr.authenticate`: the identifier, or the signing exception -/
  authenticate : List (String × Value φ) → Except String String

/-- `authnWhitelist` -/
def authnWhitelist : List (MessageClass φ) :=
  [Nomination, Primary, Reelection, Batch, PrePrepare L, Prepare L, Checkpoint, Commit, InstanceChange, LedgerStatus L,
    ConsistencyProof L, CatchupReq, CatchupRep, ConsProofRequest, ThreePCState]

/-- an attribute of a message -/
def attr (fields : List (String × Value φ)) (name : String) : Value φ := (fields.lookup name).getD .none

def verifySignature (node : NodeAuthn φ) (cls : MessageClass φ) (fields : List (String × Value φ)) :
    Except VerifyError Unit :=
  if cls.typename ∈ (authnWhitelist L).map MessageClass.typename then .ok ()
  else if cls.typename = (Propagate L).typename then
    match attr fields "request" with
    | .dict req =>
      match node.authenticate req with
      | .error e => .error (.signing e)
      | .ok _ => if (req.lookup "reqId").isSome then .ok () else .error (.keyError "reqId")
    -- a `MessageBase` looks its attributes up among its fields
    | _ => .error (.keyError "as_dict")
  else
    match cls with
    -- a `MessageBase` is a mapping that has no texts for keys: no signature can be read from it
    | .messageBase _ _ => .error (.signing "CouldNotAuthenticate")
    -- a named tuple is no mapping and has no `as_dict`
    | .taggedTuple _ _ => .error (.attributeError "as_dict")

/-- `TaggedTuples.get(op)` -/
def classOf (op : String) : Option (MessageClass φ) := (registry L).find? fun cls => cls.typename = op

/-- the part of `validateNodeMsg` that makes a message of a dictionary: its class and its fields -/
def constructMsg (msg : Dict String (Value φ)) :
    Except (NodeMsgError φ) (MessageClass φ × List (String × Value φ)) :=
  let op := (msg.get? "op").getD .none
  if ¬ op.truthy L then .error .missingNodeOp
  else if ¬ op.isHashable then .error .unhashable
  else
    match op with
    | .str name =>
      match classOf L name with
      | none => .error (.invalidNodeOp op)
      | some cls =>
        match cls.ofKwargs (msg.erase "op") with
        | .error e => .error (.invalidNodeMsg e)
        | .ok fields => .ok (cls, fields)
    | _ => .error (.invalidNodeOp op)

/-- the message and its sender; `none` for a message of a blacklisted node, which is discarded -/
def validateNodeMsg (node : NodeAuthn φ) (msg : Dict String (Value φ)) (frm : String) :
    Except (NodeMsgError φ) (Option ((MessageClass φ × List (String × Value φ)) × String)) :=
  if node.isNodeBlacklisted frm then .ok none
  else
    match constructMsg L msg with
    | .error e => .error e
    | .ok (cls, fields) =>
      match verifySignature L node cls fields with
      | .error (.signing e) => .error (.suspiciousNode frm e)
      | .error (.attributeError name) => .error (.attributeError name)
      | .error (.keyError name) => .error (.keyError name)
      | .ok _ => .ok (some ((cls, fields), frm))

end Plenum.Messages
