import TreeLisp.Literal
import TreeLisp.Proofs.Numerals

/-!
# Integer literals

The reader of literals does not convert a long run of digits. It drops the leading zeros, counts the
digits that are left and gives up if there are more than the greatest integer has. That is no loss:
the first digit left is not zero, so a longer run stands for a number beyond 64 bits. An integer
literal is therefore an integer numeral whose value fits 64 bits, and the text of every integer that
fits is one.
-/
namespace TreeLisp

namespace Number

theorem inRange_int_iff (n : Int) :
    (Number.int n).inRange = true ↔ -2 ^ 63 ≤ n ∧ n ≤ 2 ^ 63 - 1 := by
  rw [inRange, Bool.and_eq_true, decide_eq_true_eq, decide_eq_true_eq]
  exact Iff.rfl

end Number

namespace Literal

theorem natOfDigits_dropWhile (cs : List Char) :
    Text.natOfDigits (cs.dropWhile (· = '0')) = Text.natOfDigits cs := by
  induction cs with
  | nil => rfl
  | cons c cs ih =>
    by_cases hc : c = '0'
    · subst hc
      rw [List.dropWhile_cons_of_pos (by simp), ih]
      rfl
    · rw [List.dropWhile_cons_of_neg (by simpa using hc)]

theorem natOfDigits_significant (cs : List Char) :
    Text.natOfDigits (significant cs) = Text.natOfDigits cs := by
  rw [← natOfDigits_dropWhile cs, significant]
  cases cs.dropWhile (· = '0') <;> rfl

theorem natural_significant {digits : List Char} (h : (significant digits).length ≤ mostDigits) :
    natural (significant digits) = .ok (Text.natOfDigits digits) := by
  have hpos : 0 < (significant digits).length := by
    unfold significant
    split
    · exact Nat.one_pos
    · exact Nat.succ_pos _
  rw [natural, if_pos ⟨hpos, h⟩, natOfDigits_significant]

theorem pow_le_natOfDigits {c : Char} (hdigit : c.isDigit = true) (hzero : c ≠ '0')
    (cs : List Char) : 10 ^ cs.length ≤ Text.natOfDigits (c :: cs) := by
  obtain ⟨d, rfl⟩ := exists_digitChar hdigit
  have hpos : 0 < d.val := by
    apply Nat.pos_of_ne_zero
    exact mt Nat.digitChar_eq_zero.mpr hzero
  rw [natOfDigits_eq_ofDigitChars, Nat.ofDigitChars_cons_digitChar_of_lt_ten d.isLt,
    Nat.ofDigitChars_eq_ofDigitChars_zero, Nat.mul_zero, Nat.zero_add]
  exact Nat.le_add_right_of_le (Nat.le_mul_of_pos_right _ hpos)

theorem pow_le_of_many_digits {digits : List Char} (hall : ∀ c ∈ digits, c.isDigit = true)
    (hmany : mostDigits < (significant digits).length) :
    10 ^ mostDigits ≤ Text.natOfDigits digits := by
  rw [← natOfDigits_significant digits]
  unfold significant at hmany ⊢
  cases hdrop : digits.dropWhile (· = '0') with
  | nil =>
    rw [hdrop] at hmany
    exact absurd hmany (by decide)
  | cons c cs =>
    rw [hdrop, List.length_cons] at hmany
    have hmem : c ∈ digits := (List.dropWhile_sublist _).subset (hdrop ▸ List.mem_cons_self)
    have hzero : c ≠ '0' := by
      have hnot := List.head?_dropWhile_not (· = '0') digits
      rw [hdrop] at hnot
      simpa using hnot
    calc 10 ^ mostDigits ≤ 10 ^ cs.length := Nat.pow_le_pow_right (by decide) (by omega)
      _ ≤ Text.natOfDigits (c :: cs) := pow_le_natOfDigits (hall c hmem) hzero cs

theorem inRange_eq_false_of_many_digits {digits : List Char} (hall : ∀ c ∈ digits, c.isDigit = true)
    (hmany : mostDigits < (significant digits).length) (negative : Bool) :
    (Number.int (if negative then -(Text.natOfDigits digits : Int)
      else Text.natOfDigits digits)).inRange = false := by
  have hlarge : 10 ^ 19 ≤ Text.natOfDigits digits := pow_le_of_many_digits hall hmany
  rw [Bool.eq_false_iff, Ne, Number.inRange_int_iff]
  split <;> omega

/-- Counting the digits first makes no difference. -/
theorem integer_eq (cs : List Char) :
    integer? cs = .ok ((Text.intOfText? cs).filter fun n => (Number.int n).inRange) := by
  unfold integer? Text.intOfText?
  rcases Text.splitSign cs with ⟨negative, digits⟩
  dsimp only
  by_cases hdigits : digits ≠ [] ∧ digits.all Char.isDigit = true
  · rw [if_pos hdigits]
    by_cases hfew : (significant digits).length ≤ mostDigits
    · rw [if_pos ⟨hdigits.1, hdigits.2, hfew⟩, natural_significant hfew, Option.filter_some]
    · have hall := List.all_eq_true.mp hdigits.2
      have hrange := inRange_eq_false_of_many_digits hall (by omega) negative
      rw [if_neg fun h => hfew h.2.2, Option.filter_some_neg (by simp [hrange])]
  · rw [if_neg hdigits, if_neg fun h => hdigits ⟨h.1, h.2.1⟩]
    rfl

theorem integer_chars (x : IntegerNumeral) :
    integer? x.chars =
      .ok (if -2 ^ 63 ≤ x.value ∧ x.value ≤ 2 ^ 63 - 1 then some x.value else none) := by
  have htext : Text.intOfText? x.chars = some x.value :=
    (Text.intOfText_eq_some_iff x.chars x.value).mpr ⟨x, rfl, rfl⟩
  rw [integer_eq, htext, Option.filter_some]
  simp only [Number.inRange_int_iff]

theorem integer_eq_some_iff (cs : List Char) (n : Int) :
    integer? cs = .ok (some n) ↔
      ∃ x : IntegerNumeral, x.chars = cs ∧ x.value = n ∧ -2 ^ 63 ≤ n ∧ n ≤ 2 ^ 63 - 1 := by
  rw [integer_eq, Except.ok.injEq, Option.filter_eq_some_iff, Number.inRange_int_iff,
    Text.intOfText_eq_some_iff]
  constructor
  · rintro ⟨⟨x, hchars, hvalue⟩, hrange⟩
    exact ⟨x, hchars, hvalue, hrange⟩
  · rintro ⟨x, hchars, hvalue, hrange⟩
    exact ⟨⟨x, hchars, hvalue⟩, hrange⟩

/-- The words that are literals are not integers, and no other literal is one. -/
theorem read_eq_int_iff (text : String) (n : Int) :
    read text = .ok (.int n) ↔ integer? text.toList = .ok (some n) := by
  constructor
  · intro h
    unfold read at h
    dsimp only at h
    repeat' split at h
    all_goals cases h
    assumption
  · intro h
    have hword : ∀ word : String, integer? word.toList = .ok none → text ≠ word := by
      rintro word hnone rfl
      rw [hnone] at h
      cases h
    simp only [read, if_neg (hword "nil" rfl), if_neg (hword "true" rfl),
      if_neg (hword "false" rfl), h]

theorem intOfText_intText (n : Int) : Text.intOfText? (Text.intText n).toList = some n := by
  obtain ⟨ds, hds⟩ : ∃ ds, digitText ds = Text.digits n.natAbs :=
    exists_digitText fun c hc => Nat.isDigit_of_mem_toDigits (by decide) (by decide) hc
  have hne : ds ≠ [] := by
    rintro rfl
    exact Nat.toDigits_ne_nil hds.symm
  have hvalue : decimalValue ds = n.natAbs := by
    rw [← natOfDigits_digitText, hds, natOfDigits_eq_ofDigitChars]
    exact Nat.ofDigitChars_ten_toDigits
  rw [Text.intOfText_eq_some_iff, Text.intText, String.toList_ofList, ← hds]
  by_cases hneg : n < 0
  · refine ⟨⟨.minus, ds, hne⟩, ?_, ?_⟩
    · rw [Text.signed, if_pos (decide_eq_true hneg)]
      rfl
    · change -(decimalValue ds : Int) = n
      omega
  · refine ⟨⟨.absent, ds, hne⟩, ?_, ?_⟩
    · rw [Text.signed, decide_eq_false hneg]
      rfl
    · change (decimalValue ds : Int) = n
      omega

/-- A literal is an integer exactly when its text is an optional sign and digits whose value fits 64
bits. For every such text the count of significant digits only foretells the outcome of the test
whether the value fits. The text of an integer is read back exactly when the integer fits. -/
theorem integer_literals_exact :
    (∀ (text : String) (n : Int), read text = .ok (.int n) ↔
      ∃ x : IntegerNumeral, x.chars = text.toList ∧ x.value = n ∧
        -2 ^ 63 ≤ n ∧ n ≤ 2 ^ 63 - 1) ∧
    (∀ x : IntegerNumeral, integer? x.chars =
      .ok (if -2 ^ 63 ≤ x.value ∧ x.value ≤ 2 ^ 63 - 1 then some x.value else none)) ∧
    (∀ n : Int, read (Value.int n).text = .ok (.int n) ↔ -2 ^ 63 ≤ n ∧ n ≤ 2 ^ 63 - 1) := by
  refine ⟨?_, integer_chars, ?_⟩
  · intro text n
    rw [read_eq_int_iff, integer_eq_some_iff]
  · intro n
    have htext : (Value.int n).text = Text.intText n := by rw [Value.text]
    rw [htext, read_eq_int_iff, integer_eq, intOfText_intText, Except.ok.injEq,
      Option.filter_eq_some_iff, Number.inRange_int_iff]
    exact and_iff_right rfl

end Literal

end TreeLisp
