/-
The root hashes of a batch: which texts the hexadecimal field accepts, and which of these can be decoded.

The field reads its text as a number in base 16. The language has more numerals than plain digits: white space around them,
a sign, the prefix of the base, single underscores, and the decimal digits and spaces of other scripts. The handler decodes
the root as bytes, two digits each.

- `validate_eq_none_iff`: the field accepts the numerals of the right length.
- `unhexlify_isSome_iff`: the decoder takes hexadecimal digits, an even number of them.
- `accepted_iff_plain`: the field accepts the same texts as the decoder, but for the numerals that are `Decorated`: each of
  these is accepted and none can be decoded.
- `prefixed_root`: the prefix and 62 zeros.
-/
import Mathlib.Tactic
import Plenum.Common.Fields

namespace Plenum

namespace HexRoots

open Plenum.Core Plenum.Core.Numerals Fields

/-! ## The two languages -/

/-- that many hexadecimal digits and nothing else -/
def Plain (length : ℕ) (val : String) : Prop := val.length = length ∧ ∀ c ∈ val.toList, (hexDigit c).isSome

/-- more than digits -/
def Adorned (n : Numeral hexadecimal) : Prop :=
  n.before ≠ [] ∨ n.sign ≠ [] ∨ n.basePrefix ≠ [] ∨ '_' ∈ n.run ∨ n.after ≠ []

/-- a numeral of that length with white space, a sign, a prefix or underscores, or with characters beyond ASCII -/
def Decorated (u : UnicodeData) (length : ℕ) (val : String) : Prop :=
  val.length = length ∧ ∃ n : Numeral hexadecimal, n.text = val.toList.map u.toAscii ∧
    (Adorned n ∨ ∃ c ∈ val.toList, 128 ≤ c.toNat)

variable {u : UnicodeData} {length : ℕ} {nullable : Bool} {val : String}

/-- **What the field accepts.** -/
theorem validate_eq_none_iff : (HexField u (some length) nullable).validate (.str val) = none ↔
    val.length = length ∧ ∃ n : Numeral hexadecimal, n.text = val.toList.map u.toAscii := by
  rw [HexField, strField_validate_str, ← parse_isSome_iff, int16]
  cases parse hexadecimal (val.toList.map u.toAscii) with
  | none => simp
  | some z => simp

theorem unhexlifyChars_cons (c d : Char) (rest : List Char) : (unhexlifyChars (c :: d :: rest)).isSome ↔
    (hexDigit c).isSome ∧ (hexDigit d).isSome ∧ (unhexlifyChars rest).isSome := by
  rw [unhexlifyChars]
  cases hexDigit c <;> cases hexDigit d <;> cases unhexlifyChars rest <;> simp

theorem unhexlifyChars_isSome_iff : ∀ cs : List Char,
    (unhexlifyChars cs).isSome ↔ Even cs.length ∧ ∀ c ∈ cs, (hexDigit c).isSome
  | [] => by simp [unhexlifyChars]
  | [_] => by simp [unhexlifyChars]
  | c :: d :: rest => by
    have heven : Even (c :: d :: rest).length ↔ Even rest.length := by
      simp only [List.length_cons, Nat.even_add_one, not_not]
    rw [unhexlifyChars_cons, unhexlifyChars_isSome_iff rest, List.forall_mem_cons, List.forall_mem_cons, heven]
    tauto

/-- **What the decoder takes.** -/
theorem unhexlify_isSome_iff : (unhexlify val).isSome ↔ Even val.length ∧ ∀ c ∈ val.toList, (hexDigit c).isSome := by
  rw [unhexlify, unhexlifyChars_isSome_iff, String.length_toList]

theorem Plain.unhexlify (h : Plain length val) (heven : Even length) : (unhexlify val).isSome :=
  unhexlify_isSome_iff.2 ⟨h.1.symm ▸ heven, h.2⟩

theorem plain_of_unhexlify (hlength : val.length = length) (h : (unhexlify val).isSome) : Plain length val :=
  ⟨hlength, (unhexlify_isSome_iff.1 h).2⟩

/-! ## Plain roots -/

theorem toNat_of_hexDigit {c : Char} (h : (hexDigit c).isSome) : c.toNat < 128 := by
  by_contra hge
  rw [hexDigit_eq_none (by omega)] at h
  exact absurd h (by decide)

theorem toAscii_of_lt {c : Char} (h : c.toNat < 128) : u.toAscii c = c := if_pos h

theorem map_toAscii {cs : List Char} (h : ∀ c ∈ cs, c.toNat < 128) : cs.map u.toAscii = cs := by
  nth_rewrite 2 [← List.map_id cs]
  exact List.map_congr_left fun c hc => toAscii_of_lt (h c hc)

theorem Plain.map_toAscii (h : Plain length val) : val.toList.map u.toAscii = val.toList :=
  HexRoots.map_toAscii fun c hc => toNat_of_hexDigit (h.2 c hc)

/-- a numeral of plain digits -/
def plainNumeral (cs : List Char) (hne : cs ≠ []) (h : ∀ c ∈ cs, (hexDigit c).isSome) : Numeral hexadecimal where
  before := []
  sign := []
  basePrefix := []
  run := cs
  after := []
  before_space := by simp
  sign_mem := by simp
  prefix_mem := Or.inl rfl
  digitRun := digitRun_of_digits hne h
  after_space := by simp

theorem Plain.accepted (h : Plain length val) (hpos : 0 < length) :
    (HexField u (some length) nullable).validate (.str val) = none := by
  have hne : val.toList ≠ [] := by
    intro hempty
    have hlength := h.1
    rw [← String.length_toList, hempty, List.length_nil] at hlength
    omega
  refine validate_eq_none_iff.2 ⟨h.1, plainNumeral val.toList hne h.2, ?_⟩
  rw [h.map_toAscii, Numeral.text]
  simp [plainNumeral]

/-! ## Decorated roots -/

theorem not_hexDigit_of_space {c : Char} (h : isSpace c) : ¬ (hexDigit c).isSome := by
  have hnone : hexDigit c = none := hexadecimal.digit_space c h
  rw [hnone]
  decide

/-- whatever adorns a numeral is no digit -/
theorem exists_not_hexDigit {n : Numeral hexadecimal} (h : Adorned n) : ∃ c ∈ n.text, ¬ (hexDigit c).isSome := by
  rcases h with hbefore | hsign | hbase | hrun | hafter
  · obtain ⟨c, hc⟩ := List.exists_mem_of_ne_nil _ hbefore
    exact ⟨c, by simp [Numeral.text, hc], not_hexDigit_of_space (n.before_space c hc)⟩
  · have hmem := n.sign_mem
    simp only [List.mem_cons, List.not_mem_nil, or_false, hsign, false_or] at hmem
    rcases hmem with hs | hs
    · exact ⟨'+', by simp [Numeral.text, hs], by decide⟩
    · exact ⟨'-', by simp [Numeral.text, hs], by decide⟩
  · rcases n.prefix_mem with hp | ⟨letter, hletter, hp⟩
    · exact absurd hp hbase
    · have hnone : hexDigit letter = none := hexadecimal.digit_letter letter hletter
      refine ⟨letter, ?_, by rw [hnone]; decide⟩
      rcases hp with hp | hp <;> simp [Numeral.text, hp]
  · exact ⟨'_', by simp [Numeral.text, hrun], by decide⟩
  · obtain ⟨c, hc⟩ := List.exists_mem_of_ne_nil _ hafter
    exact ⟨c, by simp [Numeral.text, hc], not_hexDigit_of_space (n.after_space c hc)⟩

/-- no decorated numeral is plain -/
theorem Plain.not_decorated (h : Plain length val) : ¬ Decorated u length val := by
  rintro ⟨-, n, htext, hadorned | ⟨c, hc, hge⟩⟩
  · obtain ⟨c, hc, hnot⟩ := exists_not_hexDigit hadorned
    rw [htext, h.map_toAscii] at hc
    exact hnot (h.2 c hc)
  · exact absurd (toNat_of_hexDigit (h.2 c hc)) (by omega)

/-- a numeral that is not decorated is plain -/
theorem plain_of_accepted (h : (HexField u (some length) nullable).validate (.str val) = none)
    (hnot : ¬ Decorated u length val) : Plain length val := by
  obtain ⟨hlength, n, htext⟩ := validate_eq_none_iff.1 h
  have hbare : ¬ (Adorned n ∨ ∃ c ∈ val.toList, 128 ≤ c.toNat) := fun hmore => hnot ⟨hlength, n, htext, hmore⟩
  rw [not_or] at hbare
  obtain ⟨hbare, hascii⟩ := hbare
  have hsame : val.toList.map u.toAscii = val.toList := by
    refine map_toAscii fun c hc => ?_
    by_contra hge
    exact hascii ⟨c, hc, by omega⟩
  simp only [Adorned, not_or, not_not] at hbare
  obtain ⟨hbefore, hsign, hbase, hrun, hafter⟩ := hbare
  have hdigits : n.run = val.toList := by
    rw [← hsame, ← htext, Numeral.text, hbefore, hsign, hbase, hafter]
    simp
  refine ⟨hlength, fun c hc => ?_⟩
  rw [← hdigits] at hc
  rcases n.digitRun.mem c hc with hdigit | rfl
  · exact hdigit
  · exact absurd hc hrun

theorem Decorated.accepted (h : Decorated u length val) :
    (HexField u (some length) nullable).validate (.str val) = none :=
  validate_eq_none_iff.2 ⟨h.1, h.2.choose, h.2.choose_spec.1⟩

/-- **Which roots are accepted.** A text is accepted exactly if it consists of 64 hexadecimal digits, unless it is a
decorated numeral of 64 characters; and unless it is one, it is decoded if it is accepted. -/
theorem accepted_iff_plain (u : UnicodeData) (nullable : Bool) (val : String) :
    (((HexField u (some 64) nullable).validate (.str val) = none ↔ Plain 64 val) ↔ ¬ Decorated u 64 val) ∧
    (((HexField u (some 64) nullable).validate (.str val) = none → (unhexlify val).isSome) ↔ ¬ Decorated u 64 val) := by
  refine ⟨⟨?_, ?_⟩, ⟨?_, ?_⟩⟩
  · intro hsame hdecorated
    exact (hsame.1 hdecorated.accepted).not_decorated hdecorated
  · intro hnot
    exact ⟨fun h => plain_of_accepted h hnot, fun h => h.accepted (by decide)⟩
  · intro hdecodes hdecorated
    exact (plain_of_unhexlify hdecorated.1 (hdecodes hdecorated.accepted)).not_decorated hdecorated
  · intro hnot h
    exact (plain_of_accepted h hnot).unhexlify (by decide)

/-! ## Counterexample -/

/-- the text is ASCII, so it does not matter what is known of other characters -/
def asciiOnly : UnicodeData := ⟨fun _ => false, fun _ => none⟩

def prefixed : String := String.ofList ('0' :: 'x' :: List.replicate 62 '0')

theorem zeros_digitRun : DigitRun hexadecimal (List.replicate 62 '0') := by
  refine digitRun_of_digits (List.cons_ne_nil _ _) fun c hc => ?_
  rw [List.eq_of_mem_replicate hc]
  decide

def prefixedNumeral : Numeral hexadecimal where
  before := []
  sign := []
  basePrefix := ['0', 'x']
  run := List.replicate 62 '0'
  after := []
  before_space := by simp
  sign_mem := by simp
  prefix_mem := Or.inr ⟨'x', List.mem_cons_self, Or.inl rfl⟩
  digitRun := zeros_digitRun
  after_space := by simp

theorem prefixed_decorated : Decorated asciiOnly 64 prefixed := by
  have htext : prefixedNumeral.text = prefixed.toList.map asciiOnly.toAscii := by decide +kernel
  have hadorned : Adorned prefixedNumeral := Or.inr (Or.inr (Or.inl (List.cons_ne_nil _ _)))
  exact ⟨by decide +kernel, prefixedNumeral, htext, Or.inl hadorned⟩

/-- **A root with a prefix** is accepted and cannot be decoded. -/
theorem prefixed_root : (HexField asciiOnly (some 64) true).validate (.str prefixed) = none ∧ ¬ Plain 64 prefixed ∧
    unhexlify prefixed = none := by
  have hnot : ¬ Plain 64 prefixed := fun h => h.not_decorated prefixed_decorated
  refine ⟨prefixed_decorated.accepted, hnot, ?_⟩
  cases hdecoded : unhexlify prefixed with
  | none => rfl
  | some bytes => exact absurd (plain_of_unhexlify prefixed_decorated.1 (by rw [hdecoded]; rfl)) hnot

end HexRoots

end Plenum
