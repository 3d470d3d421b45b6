/-
Strings and numbers are scanned back from what is printed of them.

* `readString_quote` — a text in quotes is read as the text, whatever it holds.
* `readNumber_write` — an integer of the kept range is read as itself, if nothing that goes on with
  a number follows (`Delimited`).
-/

import WorkflowGraph.Json.Print
import WorkflowGraph.Json.Scan
import WorkflowGraph.Proofs.Json.Value

namespace WorkflowGraph.Json

/-! ### Strings -/

theorem codeUnit_hexDigits :
    ∀ n < 32, codeUnit '0' '0' (hexDigit (n / 16)) (hexDigit (n % 16)) = some n := by
  decide

theorem scanString_unicode {a b c d : Char} {unit : Nat} (written : codeUnit a b c d = some unit)
    (low : unit < 32) (rest : List Char) :
    scanString none true ('\\' :: 'u' :: a :: b :: c :: d :: rest) =
      (scanString none true rest).push (Char.ofNat unit) := by
  have notLeading : isLeading unit = false := by simp [isLeading]; omega
  have notTrailing : isTrailing unit = false := by simp [isTrailing]; omega
  simp [scanString, written, notLeading, notTrailing]

theorem scanString_plain {c : Char} (notQuote : c ≠ '"') (notBackslash : c ≠ '\\')
    (visible : ¬ c.toNat < 0x20) (rest : List Char) :
    scanString none true (c :: rest) = (scanString none true rest).push c := by
  rw [scanString, if_neg visible]
  · rfl
  all_goals simp_all

/-- A character is scanned back from its escaped form. -/
theorem scanString_escape (c : Char) (rest : List Char) :
    scanString none true (escape c ++ rest) = (scanString none true rest).push c := by
  unfold escape
  by_cases quote : c = '"'
  · subst quote
    rfl
  by_cases backslash : c = '\\'
  · subst backslash
    rfl
  rw [if_neg quote, if_neg backslash]
  by_cases control : c.toNat < 0x20
  · rw [if_pos control]
    -- Five control characters are escaped by a letter, the others by their code unit.
    have ofCode {n : Nat} (code : c.toNat = n) : c = Char.ofNat n := by
      rw [← code, Char.ofNat_toNat]
    split
    · obtain rfl := ofCode ‹_›
      rfl
    split
    · obtain rfl := ofCode ‹_›
      rfl
    split
    · obtain rfl := ofCode ‹_›
      rfl
    split
    · obtain rfl := ofCode ‹_›
      rfl
    split
    · obtain rfl := ofCode ‹_›
      rfl
    · have read := scanString_unicode (codeUnit_hexDigits _ control) control rest
      rwa [Char.ofNat_toNat] at read
  · rw [if_neg control]
    exact scanString_plain quote backslash control rest

theorem scanString_escapes (text rest : List Char) :
    scanString none true (text.flatMap escape ++ '"' :: rest) = .closed text true rest := by
  induction text with
  | nil => rfl
  | cons c text ih =>
      rw [List.flatMap_cons, List.append_assoc, scanString_escape, ih]
      rfl

theorem readString_quote (text : String) (rest : List Char) :
    readString (text.toList.flatMap escape ++ '"' :: rest) = (.string text, some rest) := by
  simp only [readString, scanString_escapes, String.ofList_toList]

/-! ### Numbers -/

/-- What follows a value does not go on with a number: no digit, point or exponent stands there. -/
def Delimited (rest : List Char) : Prop :=
  ∀ c ∈ rest.head?, c.isDigit = false ∧ c ≠ '.' ∧ c ≠ 'e' ∧ c ≠ 'E'

theorem le_ofDigitChars (ds : List Char) (significand : Nat) :
    significand ≤ Nat.ofDigitChars 10 ds significand := by
  induction ds generalizing significand with
  | nil => exact Nat.le_refl _
  | cons d rest ih =>
      rw [Nat.ofDigitChars_cons]
      exact Nat.le_trans (by omega) (ih _)

/-- Digits that stand for a number below the limit are taken in whole. -/
theorem takeDigits_of_lt {ds : List Char} {significand : Nat}
    (kept : Nat.ofDigitChars 10 ds significand < significandLimit) :
    takeDigits significand ds = (Nat.ofDigitChars 10 ds significand, []) := by
  induction ds generalizing significand with
  | nil => rfl
  | cons d rest ih =>
      have next : 10 * significand + (d.toNat - '0'.toNat) = significand * 10 + digitValue d := by
        rw [Nat.mul_comm, digitValue]
      rw [Nat.ofDigitChars_cons, next] at kept ⊢
      have below : significand * 10 + digitValue d < significandLimit :=
        Nat.lt_of_le_of_lt (le_ofDigitChars rest _) kept
      rw [takeDigits, if_pos below, ih kept]

theorem takeDigits_digits {n : Nat} (kept : n < significandLimit) :
    takeDigits 0 (Decimal.digits n) = (n, []) := by
  have value : Nat.ofDigitChars 10 (Decimal.digits n) 0 = n := Nat.ofDigitChars_ten_toDigits
  rw [takeDigits_of_lt (by rwa [value]), value]

theorem isDigit_of_mem_digits {n : Nat} {c : Char} (member : c ∈ Decimal.digits n) :
    c.isDigit = true :=
  Nat.isDigit_of_mem_toDigits (by decide) (by decide) member

/-- The digits of a number that is not zero do not start with zero. -/
theorem head?_digits_ne_zero {n : Nat} (positive : 0 < n) :
    (Decimal.digits n).head? ≠ some '0' := by
  induction n using Nat.strongRecOn with
  | ind n ih =>
      by_cases single : n < 10
      · rw [Decimal.digits, Nat.toDigits_of_lt_base single]
        simp only [List.head?_cons, ne_eq, Option.some.injEq, Nat.digitChar_eq_zero]
        omega
      · have shorter := ih (n / 10) (by omega) (by omega)
        rw [Decimal.digits, Nat.toDigits_of_base_le (by decide) (by omega), List.head?_append]
        rw [Decimal.digits] at shorter
        cases digits : Nat.toDigits 10 (n / 10) with
        | nil => exact absurd digits Nat.toDigits_ne_nil
        | cons d rest => rwa [digits] at shorter

/-- The digits of a number are of the form that is read: there is a digit, and none after a leading
zero. -/
theorem digits_ne_zero_cons (n : Nat) (d : Char) (rest : List Char) :
    Decimal.digits n ≠ '0' :: d :: rest := by
  intro same
  by_cases positive : 0 < n
  · exact head?_digits_ne_zero positive (by rw [same]; rfl)
  · obtain rfl : n = 0 := by omega
    cases same

theorem scanFraction_of_delimited {rest : List Char} (delimited : Delimited rest) :
    scanFraction rest = .ok ([], rest) := by
  cases rest with
  | nil => rfl
  | cons c rest => rw [scanFraction, if_neg (delimited c rfl).2.1]

theorem scanExponent_of_delimited {rest : List Char} (delimited : Delimited rest) :
    scanExponent rest = .ok (none, rest) := by
  cases rest with
  | nil => rfl
  | cons c rest =>
      obtain ⟨_, _, notLower, notUpper⟩ := delimited c rfl
      simp only [scanExponent, notLower, notUpper, or_self, if_false]

theorem takeWhile_digits {n : Nat} {rest : List Char} (delimited : Delimited rest) :
    (Decimal.digits n ++ rest).takeWhile Char.isDigit = Decimal.digits n := by
  rw [List.takeWhile_append_of_pos fun c => isDigit_of_mem_digits]
  cases rest with
  | nil => exact List.append_nil _
  | cons c rest => rw [List.takeWhile_cons_of_neg (by simp [delimited c rfl]), List.append_nil]

theorem dropWhile_digits {n : Nat} {rest : List Char} (delimited : Delimited rest) :
    (Decimal.digits n ++ rest).dropWhile Char.isDigit = rest := by
  rw [List.dropWhile_append_of_pos fun c => isDigit_of_mem_digits]
  cases rest with
  | nil => rfl
  | cons c rest => rw [List.dropWhile_cons_of_neg (by simp [delimited c rfl])]

/-- A number in digits is scanned whole, with a sign or without one. -/
theorem scanNumber_digits (negative : Bool) (n : Nat) {rest : List Char}
    (delimited : Delimited rest) :
    scanNumber ((if negative then ['-'] else []) ++ (Decimal.digits n ++ rest)) =
      .ok (⟨negative, Decimal.digits n, [], none⟩, rest) := by
  have unsigned (more : List Char) : Decimal.digits n ++ rest ≠ '-' :: more := by
    intro same
    cases digits : Decimal.digits n with
    | nil => exact absurd digits Nat.toDigits_ne_nil
    | cons d ds =>
        have digit : d.isDigit = true := isDigit_of_mem_digits (digits ▸ List.mem_cons_self)
        rw [digits, List.cons_append] at same
        cases same
        cases digit
  unfold scanNumber
  split
  rename_i sign text signed
  -- A sign is met exactly where there is one, as the digits do not start with it.
  obtain ⟨rfl, rfl⟩ : sign = negative ∧ text = Decimal.digits n ++ rest := by
    cases negative with
    | true =>
        cases signed
        exact ⟨rfl, rfl⟩
    | false =>
        split at signed
        · exact absurd ‹_› (unsigned _)
        · cases signed
          exact ⟨rfl, rfl⟩
  simp only [takeWhile_digits delimited, dropWhile_digits delimited]
  split
  · exact absurd ‹_› Nat.toDigits_ne_nil
  · exact absurd ‹_› (digits_ne_zero_cons n _ _)
  · rw [scanFraction_of_delimited delimited]
    change (scanExponent rest >>= _) = _
    rw [scanExponent_of_delimited delimited]
    rfl

theorem value_digits {n : Nat} (kept : n < Nat.pow 2 64) :
    (⟨false, Decimal.digits n, [], none⟩ : Literal).value = some (.integer n) := by
  simp [Literal.value, takeDigits_digits kept]

theorem value_negative_digits {n : Nat} (positive : 0 < n) (kept : n ≤ Nat.pow 2 63) :
    (⟨true, Decimal.digits n, [], none⟩ : Literal).value = some (.integer (-(n : Int))) := by
  have below : n < significandLimit := Nat.lt_of_le_of_lt kept (by decide)
  simp [Literal.value, takeDigits_digits below, positive, kept]

/-- A kept number is read back from its text. -/
theorem readNumber_write {n : Number} (exact : (number n).isExact = true) {rest : List Char}
    (delimited : Delimited rest) : readNumber (n.write ++ rest) = (.number n, some rest) := by
  unfold readNumber
  cases n with
  | real x => cases exact
  | integer value =>
      obtain ⟨least, greatest⟩ := isExact_integer.mp exact
      cases value with
      | ofNat n =>
          have kept : n < Nat.pow 2 64 := Int.ofNat_lt.mp greatest
          have scanned : scanNumber (Decimal.digits n ++ rest) = _ :=
            scanNumber_digits false n delimited
          simp only [Number.write, scanned, value_digits kept]
          rfl
      | negSucc n =>
          have kept : n + 1 ≤ Nat.pow 2 63 := by omega
          have scanned : scanNumber ('-' :: (Decimal.digits (n + 1) ++ rest)) = _ :=
            scanNumber_digits true (n + 1) delimited
          simp only [Number.write, List.cons_append, scanned,
            value_negative_digits (Nat.succ_pos n) kept]
          rfl

end WorkflowGraph.Json
