/-
The validators of message fields, and the check of a message against its schema when it is constructed.

- `FieldBase.validate`: `None` where it is allowed, then the type of the value, then the check of the field itself.
- `HexField`, `Base58Field`, `MerkleRootField`: the fields of root hashes. The number parser of the language is `int16`; the
  texts of a set and of a list of ranges are written out as the language does.
- `MessageBase.init`: a message is constructed if the number of its parameters is right and every field accepts its own
  (`accepts_iff`).
-/
import Mathlib.Tactic
import Plenum.Core.Base58
import Plenum.Core.Numerals
import Plenum.Server.CommitAtomic

namespace Plenum

namespace Fields

open Plenum.Core

/-! ## Fields -/

/-- a value given to a field; of the types that no field of this file takes only the name matters -/
inductive FieldValue
  | none
  | str (s : String)
  | int (z : ℤ)
  | list (vs : List FieldValue)
  | other (typeName : String)

/-- `type(val).__name__` -/
def FieldValue.typeName : FieldValue → String
  | .none => "NoneType"
  | .str _ => "str"
  | .int _ => "int"
  | .list _ => "list"
  | .other typeName => typeName

structure FieldBase where
  /-- the names of the types the field takes -/
  baseTypes : List String
  nullable : Bool
  /-- the error, if there is one; it is only called with a value of one of the types -/
  specificValidation : FieldValue → Option String

namespace FieldBase

def wrongTypeMsg (field : FieldBase) (val : FieldValue) : String :=
  "expected types '" ++ ", ".intercalate field.baseTypes ++ "', got '" ++ val.typeName ++ "'"

def typeCheck (field : FieldBase) (val : FieldValue) : Option String :=
  if val.typeName ∈ field.baseTypes then none else some (field.wrongTypeMsg val)

/-- the error, `none` if the value is accepted -/
def validate (field : FieldBase) (val : FieldValue) : Option String :=
  match field.nullable, val with
  | true, .none => none
  | _, val =>
    match field.typeCheck val with
    | some typeEr => some typeEr
    | none => field.specificValidation val

end FieldBase

/-- a field of texts -/
def strField (nullable : Bool) (check : String → Option String) : FieldBase where
  baseTypes := ["str"]
  nullable := nullable
  specificValidation
    | .str s => check s
    | _ => none

@[simp] theorem strField_validate_str (nullable : Bool) (check : String → Option String) (s : String) :
    (strField nullable check).validate (.str s) = check s := by
  cases nullable <;> rfl

def NonEmptyStringField : FieldBase := strField false fun val => if val = "" then some "empty string" else none

def NonNegativeNumberField : FieldBase where
  baseTypes := ["int"]
  nullable := false
  specificValidation
    | .int z => if z < 0 then some "negative value" else none
    | _ => none

def POOL_LEDGER_ID : ℤ := 0

def DOMAIN_LEDGER_ID : ℤ := 1

def LedgerIdField : FieldBase where
  baseTypes := ["int"]
  nullable := false
  specificValidation
    | .int z =>
      if z ∈ [POOL_LEDGER_ID, DOMAIN_LEDGER_ID] then none
      else some ("expected one of '" ++ ", ".intercalate ([POOL_LEDGER_ID, DOMAIN_LEDGER_ID].map toString) ++
        "', unknown value '" ++ toString z ++ "'")
    | _ => none

def IterableField (innerFieldType : FieldBase) : FieldBase where
  baseTypes := ["list", "tuple"]
  nullable := false
  specificValidation
    | .list vs => vs.findSome? innerFieldType.validate
    | _ => none

/-! ## Numbers in base 16 -/

theorem hexDigit_eq_none {c : Char} (h : c.toNat < 48 ∨ 57 < c.toNat ∧ c.toNat < 65 ∨ 70 < c.toNat ∧ c.toNat < 97 ∨
    102 < c.toNat) : hexDigit c = none := by
  have hle : ∀ d : Char, (d ≤ c ↔ d.toNat ≤ c.toNat) ∧ (c ≤ d ↔ c.toNat ≤ d.toNat) := fun d => ⟨Iff.rfl, Iff.rfl⟩
  unfold hexDigit
  simp only [(hle _).1, (hle _).2, Char.reduceToNat]
  rw [if_neg (by omega), if_neg (by omega), if_neg (by omega)]

/-- the digits of base 16 and its prefix -/
def hexadecimal : Numerals.Base where
  size := 16
  digit := hexDigit
  letters := ['x', 'X']
  digit_space c hc := by
    refine hexDigit_eq_none (Or.inl ?_)
    simp only [Numerals.isSpace, decide_eq_true_eq] at hc
    rcases hc with rfl | hc
    · decide
    · omega
  digit_mark := by simp [hexDigit]
  digit_letter := by simp [hexDigit]
  letter_mark := by simp [Numerals.isSpace]

/-- what the character database knows of the characters beyond ASCII -/
structure UnicodeData where
  isSpace : Char → Bool
  toDecimal : Char → Option (Fin 10)

/-- numbers are read after white space and decimal digits of any script have been turned into their ASCII forms -/
def UnicodeData.toAscii (u : UnicodeData) (c : Char) : Char :=
  if c.toNat < 128 then c
  else if u.isSpace c then ' '
  else match u.toDecimal c with
    | some d => Char.ofNat (48 + d)
    | none => '?'

/-- `int(val, 16)`, `none` where it raises -/
def int16 (u : UnicodeData) (val : String) : Option ℤ := Numerals.parse hexadecimal (val.toList.map u.toAscii)

/-! ## The fields of root hashes -/

def HexField (u : UnicodeData) (length : Option ℕ) (nullable : Bool) : FieldBase :=
  strField nullable fun val =>
    match int16 u val with
    | none => some ("invalid hex number '" ++ val ++ "'")
    | some _ =>
      match length with
      | none => none
      | some length => if val.length ≠ length then some ("length should be " ++ toString length ++ " length") else none

/-- a range of lengths, without its end -/
abbrev Limits := ℕ × ℕ

def Limits.text (r : Limits) : String := "range(" ++ toString r.1 ++ ", " ++ toString r.2 ++ ")"

def lengthLimits (short long : Bool) : List Limits :=
  (if short then [(15, 26)] else []) ++ (if long then [(43, 46)] else [])

/-- `alphabetText` is the alphabet as the text of a set, whose order is not fixed -/
def Base58Field (alphabetText : String) (short long : Bool) : FieldBase :=
  strField false fun val =>
    let limits := lengthLimits short long
    if limits ≠ [] ∧ ¬ limits.any fun r => r.1 ≤ val.length ∧ val.length < r.2 then
      some ("value length " ++ toString val.length ++ " is not in ranges [" ++ ", ".intercalate (limits.map Limits.text) ++
        "]")
    else if val.toList.any fun c => c ∉ Base58.alphabet then some ("should not contains chars other than " ++ alphabetText)
    else none

def MerkleRootField (alphabetText : String) : FieldBase := Base58Field alphabetText false true

/-! ## Messages -/

/-- the names of the fields of a message, and their validators -/
abbrev Schema := List (String × FieldBase)

/-- why a message is not constructed -/
inductive MessageError
  | numberOfParameters (argsLen : ℕ)
  | invalidField (field reason : String)
deriving DecidableEq, Repr

namespace MessageBase

/-- the first field that refuses its value -/
def validateFields : Schema → List FieldValue → Option MessageError
  | (name, field) :: schema, val :: vals =>
    match field.validate val with
    | some reason => some (.invalidField name reason)
    | none => validateFields schema vals
  | _, _ => none

/-- a message with the given parameters -/
def init (schema : Schema) (args : List FieldValue) : Except MessageError (List (String × FieldValue)) :=
  if args.length ≠ schema.length then .error (.numberOfParameters args.length)
  else match validateFields schema args with
    | some e => .error e
    | none => .ok ((schema.map Prod.fst).zip args)

/-- a message can be constructed -/
def Accepts (schema : Schema) (args : List FieldValue) : Prop := ∃ fields, init schema args = .ok fields

theorem validateFields_eq_none_iff {schema : Schema} {args : List FieldValue} :
    validateFields schema args = none ↔ ∀ p ∈ schema.zip args, p.1.2.validate p.2 = none := by
  induction schema generalizing args with
  | nil => simp [validateFields]
  | cons entry schema ih =>
    cases args with
    | nil => simp [validateFields]
    | cons val vals =>
      rw [validateFields, List.zip_cons_cons, List.forall_mem_cons, ← ih]
      cases entry.2.validate val <;> simp

/-- every field accepts its parameter -/
theorem accepts_iff {schema : Schema} {args : List FieldValue} (hlength : args.length = schema.length) :
    Accepts schema args ↔ ∀ p ∈ schema.zip args, p.1.2.validate p.2 = none := by
  rw [← validateFields_eq_none_iff]
  unfold Accepts init
  rw [if_neg (not_not.2 hlength)]
  cases validateFields schema args <;> simp

end MessageBase

end Fields

end Plenum
