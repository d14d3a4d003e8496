/-
Numerals as texts: white space, a sign, the prefix of the base, digits with single underscores between them, white space.

- `Base`: the digits of a base and the letters of its prefix, which are no digits.
- `parse`: a scanner from left to right, as the readers of numbers in many languages have it.
- `Numeral`: the parts of a well-formed numeral.
- `parse_isSome_iff`: the scanner accepts the well-formed numerals and no other text.
-/
import Mathlib.Tactic

namespace Plenum.Core.Numerals

/-- white space among the ASCII characters -/
def isSpace (c : Char) : Bool := c = ' ' ∨ 9 ≤ c.toNat ∧ c.toNat ≤ 13

/-- a base: its digits, and the letters that follow a zero in its prefix -/
structure Base where
  /-- the number of digits -/
  size : ℕ
  /-- the value of a digit, `none` for any other character -/
  digit : Char → Option ℕ
  letters : List Char
  digit_space : ∀ c, isSpace c → digit c = none
  digit_mark : ∀ c ∈ ['_', '+', '-'], digit c = none
  digit_letter : ∀ c ∈ letters, digit c = none
  letter_mark : ∀ c ∈ letters, c ≠ '_' ∧ isSpace c = false

variable (b : Base)

/-! ## The scanner -/

/-- at most one sign; whether it is a minus -/
def takeSign : List Char → Bool × List Char
  | '+' :: cs => (false, cs)
  | '-' :: cs => (true, cs)
  | cs => (false, cs)

def dropUnderscore : List Char → List Char
  | '_' :: cs => cs
  | cs => cs

/-- the prefix, and at most one underscore after it -/
def dropPrefix : List Char → List Char
  | '0' :: c :: cs => if c ∈ b.letters then dropUnderscore cs else '0' :: c :: cs
  | cs => cs

/-- the digits before the first character that is neither a digit nor an underscore, and what follows them; `none` if an
underscore is not between two digits. At the beginning `afterUnderscore` is set, so that there is at least one digit. -/
def scanDigits (afterUnderscore : Bool) : List Char → Option (List ℕ × List Char)
  | [] => if afterUnderscore then none else some ([], [])
  | c :: cs =>
    if c = '_' then (if afterUnderscore then none else scanDigits true cs)
    else match b.digit c with
      | some d => (scanDigits false cs).map fun r => (d :: r.1, r.2)
      | none => if afterUnderscore then none else some ([], c :: cs)

def parse (text : List Char) : Option ℤ :=
  let signed := takeSign (text.dropWhile isSpace)
  match scanDigits b true (dropPrefix b signed.2) with
  | none => none
  | some (digits, rest) =>
    if rest.all isSpace then
      let value : ℕ := Nat.ofDigits b.size digits.reverse
      some (if signed.1 then -(value : ℤ) else value)
    else none

/-! ## Well-formed numerals -/

/-- digits, with single underscores between them -/
inductive DigitRun : List Char → Prop
  | last (c : Char) (h : (b.digit c).isSome) : DigitRun [c]
  | digit (c : Char) (h : (b.digit c).isSome) {run : List Char} (hrun : DigitRun run) : DigitRun (c :: run)
  | underscore (c : Char) (h : (b.digit c).isSome) {run : List Char} (hrun : DigitRun run) : DigitRun (c :: '_' :: run)

/-- the parts of a numeral -/
structure Numeral where
  before : List Char
  sign : List Char
  basePrefix : List Char
  run : List Char
  after : List Char
  before_space : ∀ c ∈ before, isSpace c
  sign_mem : sign ∈ [[], ['+'], ['-']]
  prefix_mem : basePrefix = [] ∨ ∃ letter ∈ b.letters, basePrefix = ['0', letter] ∨ basePrefix = ['0', letter, '_']
  digitRun : DigitRun b run
  after_space : ∀ c ∈ after, isSpace c

variable {b}

def Numeral.text (n : Numeral b) : List Char := n.before ++ (n.sign ++ (n.basePrefix ++ (n.run ++ n.after)))

/-- neither a digit nor an underscore follows -/
def EndsRun (b : Base) (rest : List Char) : Prop := ∀ c cs, rest = c :: cs → b.digit c = none ∧ c ≠ '_'

theorem endsRun_of_space {rest : List Char} (hrest : ∀ c ∈ rest, isSpace c) : EndsRun b rest := by
  rintro c cs rfl
  have hc : isSpace c := hrest c List.mem_cons_self
  refine ⟨b.digit_space c hc, ?_⟩
  rintro rfl
  exact absurd hc (by decide)

theorem ne_mark_of_digit {c m : Char} (hc : (b.digit c).isSome) (hm : m ∈ ['_', '+', '-']) : c ≠ m := by
  rintro rfl
  rw [b.digit_mark c hm] at hc
  exact absurd hc (by decide)

theorem not_space_of_digit {c : Char} (hc : (b.digit c).isSome) : isSpace c = false := by
  by_contra hspace
  rw [b.digit_space c (by simpa using hspace)] at hc
  exact absurd hc (by decide)

/-- a run begins with a digit -/
theorem DigitRun.head {run : List Char} (h : DigitRun b run) : ∃ c cs, run = c :: cs ∧ (b.digit c).isSome := by
  cases h with
  | last c h => exact ⟨c, [], rfl, h⟩
  | digit c h _ => exact ⟨c, _, rfl, h⟩
  | underscore c h _ => exact ⟨c, _, rfl, h⟩

/-- every character of a run is a digit or an underscore -/
theorem DigitRun.mem {run : List Char} (h : DigitRun b run) : ∀ c ∈ run, (b.digit c).isSome ∨ c = '_' := by
  induction h with
  | last c h => simp [h]
  | digit c h _ ih =>
    rw [List.forall_mem_cons]
    exact ⟨Or.inl h, ih⟩
  | underscore c h _ ih =>
    rw [List.forall_mem_cons, List.forall_mem_cons]
    exact ⟨Or.inl h, Or.inr rfl, ih⟩

/-- digits only are a run -/
theorem digitRun_of_digits {run : List Char} (hne : run ≠ []) (h : ∀ c ∈ run, (b.digit c).isSome) : DigitRun b run := by
  induction run with
  | nil => exact absurd rfl hne
  | cons c run ih =>
    rw [List.forall_mem_cons] at h
    cases run with
    | nil => exact .last c h.1
    | cons d run => exact .digit c h.1 (ih (List.cons_ne_nil d run) h.2)

/-! ## Every numeral is accepted -/

theorem scanDigits_digit {c : Char} {d : ℕ} (hd : b.digit c = some d) (afterUnderscore : Bool) (cs : List Char) :
    scanDigits b afterUnderscore (c :: cs) = (scanDigits b false cs).map fun r => (d :: r.1, r.2) := by
  have hne : c ≠ '_' := ne_mark_of_digit (by rw [hd]; rfl) (by decide)
  rw [scanDigits, if_neg hne, hd]

theorem scanDigits_underscore (cs : List Char) : scanDigits b false ('_' :: cs) = scanDigits b true cs := rfl

theorem scanDigits_end {rest : List Char} (hrest : EndsRun b rest) : scanDigits b false rest = some ([], rest) := by
  cases rest with
  | nil => rfl
  | cons c cs =>
    obtain ⟨hdigit, hne⟩ := hrest c cs rfl
    rw [scanDigits, if_neg hne, hdigit]
    rfl

theorem scanDigits_run {run : List Char} (hrun : DigitRun b run) {rest : List Char} (hrest : EndsRun b rest) :
    ∀ afterUnderscore, ∃ digits, scanDigits b afterUnderscore (run ++ rest) = some (digits, rest) := by
  induction hrun with
  | last c h =>
    intro afterUnderscore
    obtain ⟨d, hd⟩ := Option.isSome_iff_exists.mp h
    refine ⟨[d], ?_⟩
    rw [List.cons_append, List.nil_append, scanDigits_digit hd, scanDigits_end hrest, Option.map_some]
  | digit c h _ ih =>
    intro afterUnderscore
    obtain ⟨d, hd⟩ := Option.isSome_iff_exists.mp h
    obtain ⟨digits, hscan⟩ := ih false
    refine ⟨d :: digits, ?_⟩
    rw [List.cons_append, scanDigits_digit hd, hscan, Option.map_some]
  | underscore c h _ ih =>
    intro afterUnderscore
    obtain ⟨d, hd⟩ := Option.isSome_iff_exists.mp h
    obtain ⟨digits, hscan⟩ := ih true
    refine ⟨d :: digits, ?_⟩
    rw [List.cons_append, List.cons_append, scanDigits_digit hd, scanDigits_underscore, hscan, Option.map_some]

theorem takeSign_of_ne {c : Char} {cs : List Char} (hplus : c ≠ '+') (hminus : c ≠ '-') :
    takeSign (c :: cs) = (false, c :: cs) := by
  rw [takeSign]
  · rintro _ ⟨rfl, -⟩
    exact hplus rfl
  · rintro _ ⟨rfl, -⟩
    exact hminus rfl

theorem takeSign_append {sign cs : List Char} (hsign : sign ∈ [[], ['+'], ['-']])
    (hcs : ∃ c rest, cs = c :: rest ∧ c ≠ '+' ∧ c ≠ '-') : (takeSign (sign ++ cs)).2 = cs := by
  obtain ⟨c, rest, rfl, hplus, hminus⟩ := hcs
  simp only [List.mem_cons, List.not_mem_nil, or_false] at hsign
  rcases hsign with rfl | rfl | rfl
  · rw [List.nil_append, takeSign_of_ne hplus hminus]
  · rfl
  · rfl

theorem dropUnderscore_of_ne {c : Char} {cs : List Char} (hne : c ≠ '_') : dropUnderscore (c :: cs) = c :: cs := by
  rw [dropUnderscore]
  rintro _ ⟨rfl, -⟩
  exact hne rfl

/-- after a digit comes no letter of the prefix -/
theorem dropPrefix_run {run : List Char} (hrun : DigitRun b run) {rest : List Char} (hrest : ∀ c ∈ rest, isSpace c) :
    dropPrefix b (run ++ rest) = run ++ rest := by
  unfold dropPrefix
  split
  case h_2 => rfl
  case h_1 d cs heq =>
    have hmem : d ∈ run ++ rest := by simp [heq]
    have hletter : d ∉ b.letters := by
      intro hd
      rcases List.mem_append.mp hmem with hin | hin
      · rcases hrun.mem d hin with hdigit | rfl
        · rw [b.digit_letter d hd] at hdigit
          exact absurd hdigit (by decide)
        · exact (b.letter_mark _ hd).1 rfl
      · exact absurd (hrest d hin) (by rw [(b.letter_mark d hd).2]; decide)
    rw [if_neg hletter, heq]

theorem dropPrefix_append {basePrefix run rest : List Char}
    (hbase : basePrefix = [] ∨ ∃ letter ∈ b.letters, basePrefix = ['0', letter] ∨ basePrefix = ['0', letter, '_'])
    (hrun : DigitRun b run) (hrest : ∀ c ∈ rest, isSpace c) :
    dropPrefix b (basePrefix ++ (run ++ rest)) = run ++ rest := by
  rcases hbase with rfl | ⟨letter, hletter, rfl | rfl⟩
  · exact dropPrefix_run hrun hrest
  · obtain ⟨c, cs, rfl, hc⟩ := hrun.head
    have hdrop : dropUnderscore (c :: (cs ++ rest)) = c :: (cs ++ rest) :=
      dropUnderscore_of_ne (ne_mark_of_digit hc (by decide))
    simp only [List.cons_append, List.nil_append, dropPrefix, if_pos hletter, hdrop]
  · simp only [List.cons_append, List.nil_append, dropPrefix, if_pos hletter, dropUnderscore]

theorem Numeral.unsigned_head (n : Numeral b) :
    ∃ c cs, n.basePrefix ++ (n.run ++ n.after) = c :: cs ∧ c ≠ '+' ∧ c ≠ '-' ∧ isSpace c = false := by
  rcases n.prefix_mem with hp | ⟨letter, -, hp | hp⟩
  · obtain ⟨c, cs, hrun, hc⟩ := n.digitRun.head
    rw [hp, hrun]
    exact ⟨c, cs ++ n.after, rfl, ne_mark_of_digit hc (by decide), ne_mark_of_digit hc (by decide), not_space_of_digit hc⟩
  all_goals
    rw [hp]
    exact ⟨'0', _, rfl, by decide, by decide, by decide⟩

theorem Numeral.dropWhile_text (n : Numeral b) :
    n.text.dropWhile isSpace = n.sign ++ (n.basePrefix ++ (n.run ++ n.after)) := by
  rw [text, List.dropWhile_append_of_pos n.before_space]
  obtain ⟨c, cs, hhead, -, -, hspace⟩ := n.unsigned_head
  have hsign := n.sign_mem
  simp only [List.mem_cons, List.not_mem_nil, or_false] at hsign
  rw [hhead]
  rcases hsign with hs | hs | hs
  · rw [hs, List.nil_append, List.dropWhile_cons_of_neg (by rw [hspace]; decide)]
  all_goals
    rw [hs]
    exact List.dropWhile_cons_of_neg (by decide)

theorem Numeral.parse_text (n : Numeral b) : (parse b n.text).isSome := by
  obtain ⟨c, cs, hhead, hplus, hminus, -⟩ := n.unsigned_head
  have hunsigned : (takeSign (n.text.dropWhile isSpace)).2 = n.basePrefix ++ (n.run ++ n.after) := by
    rw [n.dropWhile_text]
    exact takeSign_append n.sign_mem ⟨c, cs, hhead, hplus, hminus⟩
  obtain ⟨digits, hscan⟩ := scanDigits_run n.digitRun (endsRun_of_space n.after_space) true
  have hafter : n.after.all isSpace = true := List.all_eq_true.mpr n.after_space
  simp only [parse, hunsigned, dropPrefix_append n.prefix_mem n.digitRun n.after_space, hscan, hafter, if_true,
    Option.isSome_some]

/-! ## What is accepted is a numeral -/

theorem takeSign_eq (cs : List Char) : ∃ sign ∈ [[], ['+'], ['-']], cs = sign ++ (takeSign cs).2 := by
  unfold takeSign
  split
  · exact ⟨['+'], by decide, rfl⟩
  · exact ⟨['-'], by decide, rfl⟩
  · exact ⟨[], by decide, rfl⟩

theorem dropUnderscore_eq (cs : List Char) : cs = dropUnderscore cs ∨ cs = '_' :: dropUnderscore cs := by
  unfold dropUnderscore
  split
  · exact Or.inr rfl
  · exact Or.inl rfl

theorem dropPrefix_eq (cs : List Char) : ∃ basePrefix, cs = basePrefix ++ dropPrefix b cs ∧
    (basePrefix = [] ∨ ∃ letter ∈ b.letters, basePrefix = ['0', letter] ∨ basePrefix = ['0', letter, '_']) := by
  unfold dropPrefix
  split
  case h_2 => exact ⟨[], rfl, Or.inl rfl⟩
  case h_1 letter rest =>
    split_ifs with hletter
    · rcases dropUnderscore_eq rest with hrest | hrest
      · refine ⟨['0', letter], ?_, Or.inr ⟨letter, hletter, Or.inl rfl⟩⟩
        rw [← hrest]
        rfl
      · refine ⟨['0', letter, '_'], ?_, Or.inr ⟨letter, hletter, Or.inr rfl⟩⟩
        nth_rewrite 1 [hrest]
        rfl
    · exact ⟨[], rfl, Or.inl rfl⟩

/-- what has been scanned: nothing, a run, or an underscore and a run; after an underscore it is a run -/
theorem scanDigits_sound : ∀ (cs : List Char) (afterUnderscore : Bool) {digits : List ℕ} {rest : List Char},
    scanDigits b afterUnderscore cs = some (digits, rest) →
    (∃ run, DigitRun b run ∧ cs = run ++ rest) ∨
      afterUnderscore = false ∧ (cs = rest ∨ ∃ run, DigitRun b run ∧ cs = '_' :: (run ++ rest))
  | [], true, _, _, h => by simp [scanDigits] at h
  | [], false, _, _, h => by
    simp only [scanDigits, Bool.false_eq_true, if_false, Option.some.injEq, Prod.mk.injEq] at h
    exact Or.inr ⟨rfl, Or.inl h.2⟩
  | c :: cs, afterUnderscore, digits, rest, h => by
    rw [scanDigits] at h
    by_cases hc : c = '_'
    · -- an underscore after a digit: a run has to follow
      subst hc
      rw [if_pos rfl] at h
      cases afterUnderscore with
      | true => simp at h
      | false =>
        rcases scanDigits_sound cs true h with ⟨run, hrun, rfl⟩ | ⟨hfalse, -⟩
        · exact Or.inr ⟨rfl, Or.inr ⟨run, hrun, rfl⟩⟩
        · exact absurd hfalse (by decide)
    · rw [if_neg hc] at h
      cases hd : b.digit c with
      | none =>
        rw [hd] at h
        cases afterUnderscore with
        | true => simp at h
        | false =>
          simp only [Bool.false_eq_true, if_false, Option.some.injEq, Prod.mk.injEq] at h
          exact Or.inr ⟨rfl, Or.inl h.2⟩
      | some d =>
        rw [hd] at h
        obtain ⟨⟨digits', rest'⟩, hscan, heq⟩ := Option.map_eq_some_iff.mp h
        obtain ⟨-, rfl⟩ := Prod.mk.inj heq
        have hsome : (b.digit c).isSome := by rw [hd]; rfl
        rcases scanDigits_sound cs false hscan with ⟨run, hrun, rfl⟩ | ⟨-, rfl | ⟨run, hrun, rfl⟩⟩
        · exact Or.inl ⟨c :: run, .digit c hsome hrun, rfl⟩
        · exact Or.inl ⟨[c], .last c hsome, rfl⟩
        · exact Or.inl ⟨c :: '_' :: run, .underscore c hsome hrun, rfl⟩

theorem exists_numeral {text : List Char} (h : (parse b text).isSome) : ∃ n : Numeral b, n.text = text := by
  obtain ⟨sign, hsign, hsigned⟩ := takeSign_eq (text.dropWhile isSpace)
  obtain ⟨basePrefix, hbased, hbase⟩ := dropPrefix_eq (b := b) (takeSign (text.dropWhile isSpace)).2
  simp only [parse] at h
  split at h
  case h_1 => exact absurd h (by decide)
  case h_2 digits rest hscan =>
    by_cases hrest : rest.all isSpace = true
    · rcases scanDigits_sound _ true hscan with ⟨run, hrun, hscanned⟩ | ⟨hfalse, -⟩
      · have hbefore : ∀ c ∈ text.takeWhile isSpace, isSpace c := List.all_eq_true.mp List.all_takeWhile
        refine ⟨⟨text.takeWhile isSpace, sign, basePrefix, run, rest, hbefore, hsign, hbase, hrun,
          List.all_eq_true.mp hrest⟩, ?_⟩
        rw [Numeral.text, ← hscanned, ← hbased, ← hsigned, List.takeWhile_append_dropWhile]
      · exact absurd hfalse (by decide)
    · rw [if_neg hrest] at h
      exact absurd h (by decide)

/-- **The scanner accepts the numerals.** -/
theorem parse_isSome_iff (text : List Char) : (parse b text).isSome ↔ ∃ n : Numeral b, n.text = text := by
  refine ⟨exists_numeral, ?_⟩
  rintro ⟨n, rfl⟩
  exact n.parse_text

end Plenum.Core.Numerals
