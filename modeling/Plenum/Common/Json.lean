/-
JSON texts with sorted keys: `json.dumps(v, sort_keys=True)`, and what reading such a text gives.

- `dumps`: the text. Numbers and truth values are written by a parameter (`numText`), as for signing.
- `reloaded`: `json.loads` of the text of a value, which is the value with the keys of all its objects sorted.
- `dumps_reloaded`: it has the same text.
-/
import Mathlib.Tactic
import Mathlib.Data.String.Basic
import Plenum.Common.Signing

namespace Plenum

open Signing

namespace Json

variable {ν : Type} (numText : ν → String)

/-! ## Texts -/

/-- four hexadecimal digits -/
def hex4 (n : ℕ) : List Char := List.replicate (4 - (Nat.toDigits 16 n).length) '0' ++ Nat.toDigits 16 n

/-- a character in a string literal; what is not printable ASCII is written by its UTF-16 code units -/
def escape (c : Char) : List Char :=
  if c = '\x22' then ['\\', '\x22']
  else if c = '\\' then ['\\', '\\']
  else if c = '\n' then ['\\', 'n']
  else if c = '\r' then ['\\', 'r']
  else if c = '\t' then ['\\', 't']
  else if c = '\x08' then ['\\', 'b']
  else if c = '\x0c' then ['\\', 'f']
  else if 32 ≤ c.toNat ∧ c.toNat < 127 then [c]
  else if c.toNat < 65536 then '\\' :: 'u' :: hex4 c.toNat
  else '\\' :: 'u' :: hex4 (55296 + (c.toNat - 65536) / 1024) ++ '\\' :: 'u' :: hex4 (56320 + (c.toNat - 65536) % 1024)

def strText (s : String) : String := String.ofList ('\x22' :: s.toList.flatMap escape ++ ['\x22'])

/-- the order of the keys -/
def KeyLE {α : Type} (a b : String × α) : Prop := a.1 ≤ b.1

instance {α : Type} : DecidableRel (KeyLE (α := α)) := fun a b => inferInstanceAs (Decidable (a.1 ≤ b.1))

instance {α : Type} : Std.Total (KeyLE (α := α)) := ⟨fun a b => le_total a.1 b.1⟩

instance {α : Type} : IsTrans (String × α) KeyLE := ⟨fun _ _ _ => le_trans⟩

/-- entries in the order of their keys -/
def sortKeys {α : Type} (entries : List (String × α)) : List (String × α) := entries.insertionSort KeyLE

mutual

/-- `json.dumps(v, sort_keys=True)` -/
def dumps : Value ν → String
  | .str s => strText s
  | .num x => numText x
  | .none => "null"
  | .list items => "[" ++ ", ".intercalate (dumpsAll items) ++ "]"
  | .dict entries =>
    "\x7b" ++ ", ".intercalate ((sortKeys (dumpsEntries entries)).map fun e => strText e.1 ++ ": " ++ e.2) ++ "\x7d"

def dumpsAll : List (Value ν) → List String
  | [] => []
  | v :: vs => dumps v :: dumpsAll vs

def dumpsEntries : List (String × Value ν) → List (String × String)
  | [] => []
  | (k, v) :: es => (k, dumps v) :: dumpsEntries es

end

mutual

/-- `json.loads(json.dumps(v, sort_keys=True))` -/
def reloaded : Value ν → Value ν
  | .str s => .str s
  | .num x => .num x
  | .none => .none
  | .list items => .list (reloadedAll items)
  | .dict entries => .dict (sortKeys (reloadedEntries entries))

def reloadedAll : List (Value ν) → List (Value ν)
  | [] => []
  | v :: vs => reloaded v :: reloadedAll vs

def reloadedEntries : List (String × Value ν) → List (String × Value ν)
  | [] => []
  | (k, v) :: es => (k, reloaded v) :: reloadedEntries es

end

/-! ## A text that is read and written again -/

theorem sortKeys_map {α β : Type} (g : α → β) (entries : List (String × α)) :
    sortKeys (entries.map fun e => (e.1, g e.2)) = (sortKeys entries).map fun e => (e.1, g e.2) := by
  unfold sortKeys
  rw [List.map_insertionSort (r := KeyLE) (s := KeyLE)]
  exact fun _ _ _ _ => Iff.rfl

theorem sortKeys_sortKeys {α : Type} (entries : List (String × α)) : sortKeys (sortKeys entries) = sortKeys entries :=
  (List.pairwise_insertionSort KeyLE entries).insertionSort_eq

theorem dumpsEntries_eq (entries : List (String × Value ν)) :
    dumpsEntries numText entries = entries.map fun e => (e.1, dumps numText e.2) := by
  induction entries with
  | nil => rfl
  | cons e es ih => rw [dumpsEntries, ih, List.map_cons]

theorem reloadedEntries_eq (entries : List (String × Value ν)) :
    reloadedEntries entries = entries.map fun e => (e.1, reloaded e.2) := by
  induction entries with
  | nil => rfl
  | cons e es ih => rw [reloadedEntries, ih, List.map_cons]

/-- the order in which the entries of an object are given does not matter to its text -/
theorem sortKeys_dumpsEntries (entries : List (String × Value ν)) :
    sortKeys (dumpsEntries numText (sortKeys entries)) = sortKeys (dumpsEntries numText entries) := by
  rw [dumpsEntries_eq, dumpsEntries_eq, ← sortKeys_map (dumps numText), sortKeys_sortKeys]

mutual

/-- **A value read from its text has the same text.** -/
theorem dumps_reloaded : ∀ v : Value ν, dumps numText (reloaded v) = dumps numText v
  | .str _ => rfl
  | .num _ => rfl
  | .none => rfl
  | .list items => by rw [reloaded, dumps, dumpsAll_reloadedAll items, dumps]
  | .dict entries => by
    rw [reloaded, dumps, sortKeys_dumpsEntries, dumpsEntries_reloadedEntries entries, dumps]

theorem dumpsAll_reloadedAll : ∀ vs : List (Value ν), dumpsAll numText (reloadedAll vs) = dumpsAll numText vs
  | [] => rfl
  | v :: vs => by rw [reloadedAll, dumpsAll, dumps_reloaded v, dumpsAll_reloadedAll vs, dumpsAll]

theorem dumpsEntries_reloadedEntries :
    ∀ es : List (String × Value ν), dumpsEntries numText (reloadedEntries es) = dumpsEntries numText es
  | [] => rfl
  | (_, v) :: es => by
    rw [reloadedEntries, dumpsEntries, dumps_reloaded v, dumpsEntries_reloadedEntries es, dumpsEntries]

end

end Json

end Plenum
