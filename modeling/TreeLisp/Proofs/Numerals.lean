import Mathlib.Data.List.TakeWhile
import Mathlib.Data.Nat.Digits.Defs
import TreeLisp.Double.Numeral

/-!
# The grammar of numerals

An integer is an optional sign and a run of digits. A decimal numeral is an optional sign, a run of
digits that a point may divide, and an optional exponent, which is the letter e and an integer. The
readers of numerals walk over the text and take the longest run of digits at each place; what they
accept is what the grammar makes, and the number they come to is the value of the digits in base
ten.
-/
namespace TreeLisp

/-- A run of digits as it is written, the leading digit first. -/
def digitText (ds : List (Fin 10)) : List Char :=
  ds.map fun d => d.val.digitChar

/-- The number that a run of digits stands for in base ten. -/
def decimalValue (ds : List (Fin 10)) : Nat :=
  Nat.ofDigits 10 (ds.map Fin.val).reverse

theorem isDigit_of_mem_digitText {ds : List (Fin 10)} {c : Char} (h : c ∈ digitText ds) :
    c.isDigit = true := by
  obtain ⟨d, -, rfl⟩ := List.mem_map.mp h
  rw [Nat.isDigit_digitChar]
  exact decide_eq_true d.isLt

theorem exists_digitChar {c : Char} (h : c.isDigit = true) : ∃ d : Fin 10, Nat.digitChar d = c := by
  obtain ⟨hlow, hhigh⟩ := Char.isDigit_iff_toNat.mp h
  have hzero : '0'.toNat = 48 := rfl
  have hnine : '9'.toNat = 57 := rfl
  have hlt : c.toNat - 48 < 10 := by omega
  refine ⟨⟨c.toNat - 48, hlt⟩, ?_⟩
  rw [← Char.toNat_inj, Nat.toNat_digitChar_of_lt_ten hlt]
  omega

theorem exists_digitText {cs : List Char} (h : ∀ c ∈ cs, c.isDigit = true) :
    ∃ ds, digitText ds = cs := by
  induction cs with
  | nil => exact ⟨[], rfl⟩
  | cons c cs ih =>
    obtain ⟨d, hd⟩ := exists_digitChar (h c List.mem_cons_self)
    obtain ⟨ds, hds⟩ := ih fun e he => h e (List.mem_cons_of_mem c he)
    exact ⟨d :: ds, by rw [digitText, List.map_cons, hd, ← hds]; rfl⟩

theorem digitText_eq_nil_iff {ds : List (Fin 10)} : digitText ds = [] ↔ ds = [] :=
  List.map_eq_nil_iff

theorem natOfDigits_eq_ofDigitChars (cs : List Char) :
    Text.natOfDigits cs = Nat.ofDigitChars 10 cs 0 := by
  rw [Nat.ofDigitChars_eq_foldl]
  rfl

theorem natOfDigits_digitText (ds : List (Fin 10)) :
    Text.natOfDigits (digitText ds) = decimalValue ds := by
  rw [natOfDigits_eq_ofDigitChars]
  induction ds with
  | nil => rfl
  | cons d ds ih =>
    have hlength : (digitText ds).length = (ds.map Fin.val).length := by
      rw [digitText, List.length_map, List.length_map]
    have hcons : digitText (d :: ds) = Nat.digitChar d :: digitText ds := rfl
    rw [hcons, Nat.ofDigitChars_cons_digitChar_of_lt_ten d.isLt,
      Nat.ofDigitChars_eq_ofDigitChars_zero, ih, decimalValue, decimalValue, List.map_cons,
      Nat.ofDigits_reverse_cons, hlength, Nat.mul_zero, Nat.zero_add, Nat.add_comm]

inductive Sign where
  | absent
  | plus
  | minus

namespace Sign

def chars : Sign → List Char
  | absent => []
  | plus => ['+']
  | minus => ['-']

def negative : Sign → Bool
  | minus => true
  | _ => false

end Sign

/-- An optional sign and at least one digit. -/
structure IntegerNumeral where
  sign : Sign
  digits : List (Fin 10)
  nonempty : digits ≠ []

namespace IntegerNumeral

def chars (x : IntegerNumeral) : List Char :=
  x.sign.chars ++ digitText x.digits

def value (x : IntegerNumeral) : Int :=
  if x.sign.negative then -decimalValue x.digits else decimalValue x.digits

end IntegerNumeral

namespace Text

theorem exists_sign (cs : List Char) :
    ∃ sign : Sign, sign.chars ++ (splitSign cs).2 = cs ∧ sign.negative = (splitSign cs).1 := by
  unfold splitSign
  split
  · exact ⟨.minus, rfl, rfl⟩
  · exact ⟨.plus, rfl, rfl⟩
  · exact ⟨.absent, rfl, rfl⟩

theorem splitSign_append (sign : Sign) {cs : List Char} (h : ∀ c ∈ cs.head?, c ≠ '-' ∧ c ≠ '+') :
    splitSign (sign.chars ++ cs) = (sign.negative, cs) := by
  cases sign with
  | minus => rfl
  | plus => rfl
  | absent =>
    change splitSign cs = (false, cs)
    unfold splitSign
    split
    · exact absurd rfl (h '-' rfl).1
    · exact absurd rfl (h '+' rfl).2
    · rfl

theorem splitSign_digits (sign : Sign) {cs : List Char} (h : ∀ c ∈ cs, c.isDigit = true) :
    splitSign (sign.chars ++ cs) = (sign.negative, cs) := by
  apply splitSign_append
  intro c hc
  have hdigit : c.isDigit = true := h c (List.mem_of_mem_head? hc)
  constructor
  · rintro rfl
    exact absurd hdigit (by decide)
  · rintro rfl
    exact absurd hdigit (by decide)

/-- The reader of integers accepts the integer numerals, with their values. -/
theorem intOfText_eq_some_iff (cs : List Char) (n : Int) :
    intOfText? cs = some n ↔ ∃ x : IntegerNumeral, x.chars = cs ∧ x.value = n := by
  unfold intOfText?
  dsimp only
  constructor
  · intro h
    obtain ⟨hdigits, heq⟩ := Option.ite_none_right_eq_some.mp h
    obtain ⟨hne, hall⟩ := hdigits
    obtain ⟨sign, hcs, hsign⟩ := exists_sign cs
    obtain ⟨ds, hds⟩ := exists_digitText (List.all_eq_true.mp hall)
    have hdigits : ds ≠ [] := by
      rw [← hds] at hne
      exact mt digitText_eq_nil_iff.mpr hne
    refine ⟨⟨sign, ds, hdigits⟩, ?_, ?_⟩
    · rw [IntegerNumeral.chars, hds, hcs]
    · rw [← hds, natOfDigits_digitText, ← hsign] at heq
      exact Option.some.inj heq
  · rintro ⟨x, rfl, rfl⟩
    have hall : ∀ c ∈ digitText x.digits, c.isDigit = true := fun c => isDigit_of_mem_digitText
    have hne : digitText x.digits ≠ [] := mt digitText_eq_nil_iff.mp x.nonempty
    have hsplit : splitSign x.chars = (x.sign.negative, digitText x.digits) :=
      splitSign_digits x.sign hall
    rw [hsplit, if_pos ⟨hne, List.all_eq_true.mpr hall⟩, natOfDigits_digitText]
    rfl

end Text

/-- The digits of a decimal numeral: some of them, perhaps with a point and more digits behind, or a
point with some behind it. -/
inductive Mantissa where
  | whole (digits : List (Fin 10)) (h : digits ≠ []) (fraction : Option (List (Fin 10)))
  | point (digits : List (Fin 10)) (h : digits ≠ [])

def Mantissa.chars : Mantissa → List Char
  | whole ds _ none => digitText ds
  | whole ds _ (some fraction) => digitText ds ++ '.' :: digitText fraction
  | point ds _ => '.' :: digitText ds

/-- The letter e in one of its cases and a power of ten. -/
structure Exponent where
  upper : Bool
  power : IntegerNumeral

def Exponent.chars (e : Exponent) : List Char :=
  (if e.upper then 'E' else 'e') :: e.power.chars

structure DecimalNumeral where
  sign : Sign
  mantissa : Mantissa
  exponent : Option Exponent

namespace DecimalNumeral

def exponentChars (exponent : Option Exponent) : List Char :=
  exponent.elim [] Exponent.chars

def chars (x : DecimalNumeral) : List Char :=
  x.sign.chars ++ (x.mantissa.chars ++ exponentChars x.exponent)

end DecimalNumeral

/-- A run of digits ends before these characters. -/
def NoDigit (rest : List Char) : Prop :=
  ∀ c ∈ rest.head?, c.isDigit = false

theorem takeWhile_digitText (ds : List (Fin 10)) {rest : List Char} (h : NoDigit rest) :
    (digitText ds ++ rest).takeWhile Char.isDigit = digitText ds := by
  have hrest : rest.takeWhile Char.isDigit = [] := by
    cases rest with
    | nil => rfl
    | cons c rest => exact List.takeWhile_cons_of_neg (by simp [h c rfl])
  rw [List.takeWhile_append_of_pos fun c => isDigit_of_mem_digitText, hrest, List.append_nil]

theorem dropWhile_digitText (ds : List (Fin 10)) {rest : List Char} (h : NoDigit rest) :
    (digitText ds ++ rest).dropWhile Char.isDigit = rest := by
  rw [List.dropWhile_append_of_pos fun c => isDigit_of_mem_digitText]
  cases rest with
  | nil => rfl
  | cons c rest => exact List.dropWhile_cons_of_neg (by simp [h c rfl])

theorem exists_run (cs : List Char) : ∃ ds rest, cs = digitText ds ++ rest ∧ NoDigit rest := by
  have hall : ∀ c ∈ cs.takeWhile Char.isDigit, c.isDigit = true := fun c =>
    List.mem_takeWhile_imp
  obtain ⟨ds, hds⟩ := exists_digitText hall
  refine ⟨ds, cs.dropWhile Char.isDigit, ?_, ?_⟩
  · rw [hds, List.takeWhile_append_dropWhile]
  · intro c hc
    have hnot := List.head?_dropWhile_not Char.isDigit cs
    rw [Option.mem_def.mp hc] at hnot
    simpa using hnot

namespace Double

open DecimalNumeral

theorem head_exponentChars (exponent : Option Exponent) :
    ∀ c ∈ (exponentChars exponent).head?, c = 'e' ∨ c = 'E' := by
  cases exponent with
  | none => exact nofun
  | some e =>
    rintro c ⟨⟩
    cases e.upper with
    | false => exact .inl rfl
    | true => exact .inr rfl

theorem noDigit_exponentChars (exponent : Option Exponent) : NoDigit (exponentChars exponent) := by
  intro c hc
  rcases head_exponentChars exponent c hc with rfl | rfl <;> rfl

theorem exponentOf_isSome_iff (cs : List Char) :
    (exponentOf? cs).isSome = true ↔ ∃ exponent, exponentChars exponent = cs := by
  constructor
  · intro h
    cases cs with
    | nil => exact ⟨none, rfl⟩
    | cons c rest =>
      rw [exponentOf?] at h
      split at h
      · next hletter =>
        obtain ⟨n, hn⟩ := Option.isSome_iff_exists.mp h
        obtain ⟨x, rfl, -⟩ := (Text.intOfText_eq_some_iff rest n).mp hn
        rcases hletter with rfl | rfl
        · exact ⟨some ⟨false, x⟩, rfl⟩
        · exact ⟨some ⟨true, x⟩, rfl⟩
      · cases h
  · rintro ⟨exponent, rfl⟩
    cases exponent with
    | none => rfl
    | some e =>
      have hletter := head_exponentChars (some e) _ rfl
      have hpower : Text.intOfText? e.power.chars = some e.power.value :=
        (Text.intOfText_eq_some_iff _ _).mpr ⟨e.power, rfl, rfl⟩
      change (exponentOf? (_ :: e.power.chars)).isSome = true
      rw [exponentOf?, if_pos hletter, hpower]
      rfl

/-- A point behind the first run of digits has a run of digits behind it, perhaps an empty one. -/
theorem decimalOf_point_isSome (ds fs : List (Fin 10)) {rest : List Char} (h : NoDigit rest) :
    (decimalOf? (digitText ds ++ '.' :: (digitText fs ++ rest))).isSome = true ↔
      ¬ (ds = [] ∧ fs = []) ∧ (exponentOf? rest).isSome = true := by
  have hpoint : NoDigit ('.' :: (digitText fs ++ rest)) := by
    rintro c ⟨⟩
    rfl
  unfold decimalOf?
  simp only [takeWhile_digitText ds hpoint, dropWhile_digitText ds hpoint,
    takeWhile_digitText fs h, dropWhile_digitText fs h, digitText_eq_nil_iff]
  by_cases hnone : ds = [] ∧ fs = []
  · rw [if_pos hnone]
    exact ⟨nofun, fun hsome => absurd hnone hsome.1⟩
  · rw [if_neg hnone, Option.isSome_map]
    exact (and_iff_right hnone).symm

theorem decimalOf_whole_isSome (ds : List (Fin 10)) {rest : List Char} (h : NoDigit rest)
    (hpoint : rest.head? ≠ some '.') :
    (decimalOf? (digitText ds ++ rest)).isSome = true ↔
      ds ≠ [] ∧ (exponentOf? rest).isSome = true := by
  unfold decimalOf?
  simp only [takeWhile_digitText ds h, dropWhile_digitText ds h, digitText_eq_nil_iff]
  split
  · exact absurd rfl hpoint
  · by_cases hnone : ds = []
    · rw [if_pos ⟨hnone, rfl⟩]
      exact ⟨nofun, fun hsome => absurd hnone hsome.1⟩
    · rw [if_neg fun hboth => hnone hboth.1, Option.isSome_map]
      exact (and_iff_right hnone).symm

theorem decimalOf_isSome_iff (cs : List Char) :
    (decimalOf? cs).isSome = true ↔
      ∃ (mantissa : Mantissa) (exponent : Option Exponent),
        mantissa.chars ++ exponentChars exponent = cs := by
  constructor
  · intro hsome
    obtain ⟨ds, rest, rfl, hrest⟩ := exists_run cs
    by_cases hpoint : rest.head? = some '.'
    · obtain ⟨tail, rfl⟩ := List.head?_eq_some_iff.mp hpoint
      obtain ⟨fs, rest, rfl, hlater⟩ := exists_run tail
      obtain ⟨hdigits, hexponent⟩ := (decimalOf_point_isSome ds fs hlater).mp hsome
      obtain ⟨exponent, rfl⟩ := (exponentOf_isSome_iff rest).mp hexponent
      by_cases hds : ds = []
      · subst hds
        exact ⟨.point fs fun hfs => hdigits ⟨rfl, hfs⟩, exponent, rfl⟩
      · exact ⟨.whole ds hds (some fs), exponent, List.append_assoc _ _ _⟩
    · obtain ⟨hdigits, hexponent⟩ := (decimalOf_whole_isSome ds hrest hpoint).mp hsome
      obtain ⟨exponent, rfl⟩ := (exponentOf_isSome_iff rest).mp hexponent
      exact ⟨.whole ds hdigits none, exponent, rfl⟩
  · rintro ⟨mantissa, exponent, rfl⟩
    have hrest : NoDigit (exponentChars exponent) := noDigit_exponentChars exponent
    have hexponent : (exponentOf? (exponentChars exponent)).isSome = true :=
      (exponentOf_isSome_iff _).mpr ⟨exponent, rfl⟩
    cases mantissa with
    | whole ds hds fraction =>
      cases fraction with
      | none =>
        have hpoint : (exponentChars exponent).head? ≠ some '.' := by
          intro hhead
          rcases head_exponentChars exponent '.' hhead with heq | heq <;> cases heq
        exact (decimalOf_whole_isSome ds hrest hpoint).mpr ⟨hds, hexponent⟩
      | some fs =>
        rw [Mantissa.chars, List.append_assoc]
        exact (decimalOf_point_isSome ds fs hrest).mpr ⟨fun hboth => hds hboth.1, hexponent⟩
    | point ds hds =>
      exact (decimalOf_point_isSome [] ds hrest).mpr ⟨fun hboth => hds hboth.2, hexponent⟩

end Double

end TreeLisp
