import Mathlib.Data.List.Basic
import Mathlib.Data.List.Forall2
import TreeLisp.Proofs.IntegerLiterals

/-!
# The kinds of literals

A text that is neither one of the words of the language nor an integer that fits 64 bits is a double
exactly when it is a decimal numeral or one of the words for special numbers, signed or not. Any
other text is an error value, with one exception. Two letters outside ASCII count as the letter i
where the words are recognised and not where they get their value. A word that is spelled with one
of them has no value, and reading it is a fault.
-/
namespace TreeLisp

def numberWords : List String :=
  ["inf", "infinity", "nan"]

/-- The letter in one of its cases. -/
def AsciiLetter (letter c : Char) : Prop :=
  c = letter ∨ c = letter.toUpper

/-- The letter in one of its cases, or what counts as the letter i. -/
def FoldedLetter (letter c : Char) : Prop :=
  AsciiLetter letter c ∨ letter = 'i' ∧ (c = 'ı' ∨ c = 'İ')

/-- The characters are a word for a special number, letter by letter. -/
def SpellsNumber (letters : Char → Char → Prop) (cs : List Char) : Prop :=
  ∃ word ∈ numberWords, List.Forall₂ letters word.toList cs

/-- A numeral of a double: a decimal numeral or a word, with an optional sign. -/
def FloatNumeral (text : List Char) : Prop :=
  (∃ x : DecimalNumeral, x.chars = text) ∨
    ∃ (sign : Sign) (cs : List Char), SpellsNumber AsciiLetter cs ∧ sign.chars ++ cs = text

/-- A word that takes a letter outside ASCII for the letter i, with an optional sign. -/
def FalseNumeral (text : List Char) : Prop :=
  ∃ (sign : Sign) (cs : List Char), SpellsNumber FoldedLetter cs ∧ ¬ SpellsNumber AsciiLetter cs ∧
    sign.chars ++ cs = text

theorem isLower_iff {c : Char} : c.isLower = true ↔ 97 ≤ c.toNat ∧ c.toNat ≤ 122 :=
  Bool.and_eq_true_iff.trans (and_congr decide_eq_true_iff decide_eq_true_iff)

theorem toNat_toUpper {letter : Char} (h : letter.isLower = true) :
    letter.toUpper.toNat + 32 = letter.toNat := by
  have hbounds := isLower_iff.mp h
  have hsmall : letter.val ≥ 'a'.val ∧ letter.val ≤ 'z'.val := hbounds
  have hvalue : letter.toUpper.val = letter.val + ('A'.val - 'a'.val) := by
    delta Char.toUpper
    rw [dif_pos hsmall]
  rw [← Char.toNat_val, hvalue, UInt32.toNat_add, Char.toNat_val]
  have hshift : ('A'.val - 'a'.val).toNat = 4294967264 := by decide
  omega

theorem toNat_toLower (c : Char) :
    c.toLower.toNat = if 65 ≤ c.toNat ∧ c.toNat ≤ 90 then c.toNat + 32 else c.toNat := by
  split
  · next hbounds =>
    have hvalue : c.toLower.val = c.val + ('a'.val - 'A'.val) :=
      congrArg Char.val (dif_pos hbounds)
    rw [← Char.toNat_val, hvalue, UInt32.toNat_add, Char.toNat_val]
    have hshift : ('a'.val - 'A'.val).toNat = 32 := by decide
    omega
  · next hbounds => exact congrArg Char.toNat (dif_neg hbounds)

theorem toLower_eq_iff {letter : Char} (h : letter.isLower = true) (c : Char) :
    c.toLower = letter ↔ AsciiLetter letter c := by
  have hbounds := isLower_iff.mp h
  have hupper := toNat_toUpper h
  rw [AsciiLetter, ← Char.toNat_inj, ← Char.toNat_inj, ← Char.toNat_inj, toNat_toLower]
  split <;> omega

theorem map_toLower_eq_iff {word : List Char} (h : ∀ letter ∈ word, letter.isLower = true)
    (cs : List Char) : cs.map Char.toLower = word ↔ List.Forall₂ AsciiLetter word cs := by
  induction word generalizing cs with
  | nil => rw [List.map_eq_nil_iff, List.forall₂_nil_left_iff]
  | cons letter word ih =>
    have hletter := toLower_eq_iff (h letter List.mem_cons_self)
    have hword := ih fun other hother => h other (List.mem_cons_of_mem letter hother)
    cases cs with
    | nil => simp
    | cons c cs => rw [List.map_cons, List.cons.injEq, List.forall₂_cons, hletter, hword]

theorem isLower_of_mem_numberWords {word : String} (h : word ∈ numberWords) :
    ∀ letter ∈ word.toList, letter.isLower = true := by
  have hall : numberWords.all (fun word => word.toList.all Char.isLower) = true := rfl
  exact List.all_eq_true.mp (List.all_eq_true.mp hall word h)

theorem Double.wordValue_isSome_iff (cs : List Char) :
    (wordValue? cs).isSome = true ↔ SpellsNumber AsciiLetter cs := by
  have hspells : SpellsNumber AsciiLetter cs ↔
      ∃ word ∈ numberWords, cs.map Char.toLower = word.toList :=
    exists_congr fun word => and_congr_right fun hword =>
      (map_toLower_eq_iff (isLower_of_mem_numberWords hword) cs).symm
  rw [hspells, wordValue?]
  simp only [numberWords, List.exists_mem_cons_iff, List.not_mem_nil, false_and, exists_const,
    or_false]
  split
  · next hinf => exact ⟨fun _ => hinf.imp_right .inl, fun _ => rfl⟩
  · next hinf =>
    split
    · next hnan => exact ⟨fun _ => .inr (.inr hnan), fun _ => rfl⟩
    · next hnan =>
      refine ⟨nofun, ?_⟩
      rintro (h | h | h)
      · exact absurd (.inl h) hinf
      · exact absurd (.inr h) hinf
      · exact absurd h hnan

theorem SpellsNumber.head {cs : List Char} (h : SpellsNumber FoldedLetter cs) :
    ∃ c rest, cs = c :: rest ∧ c.isDigit = false ∧ c ≠ '.' ∧ c ≠ '-' ∧ c ≠ '+' := by
  obtain ⟨word, hword, hletters⟩ := h
  have hfirst : ∃ letter rest, word.toList = letter :: rest ∧ (letter = 'i' ∨ letter = 'n') := by
    simp only [numberWords, List.mem_cons, List.not_mem_nil, or_false] at hword
    rcases hword with rfl | rfl | rfl
    · exact ⟨_, _, rfl, .inl rfl⟩
    · exact ⟨_, _, rfl, .inl rfl⟩
    · exact ⟨_, _, rfl, .inr rfl⟩
  obtain ⟨letter, rest, hletter, hcase⟩ := hfirst
  rw [hletter] at hletters
  cases hletters with
  | cons hc hrest =>
    refine ⟨_, _, rfl, ?_⟩
    rcases hcase with rfl | rfl
    · rcases hc with (rfl | rfl) | ⟨-, rfl | rfl⟩ <;> decide
    · rcases hc with (rfl | rfl) | ⟨hi, -⟩
      · decide
      · decide
      · cases hi

theorem SpellsNumber.folded {cs : List Char} (h : SpellsNumber AsciiLetter cs) :
    SpellsNumber FoldedLetter cs := by
  obtain ⟨word, hword, hletters⟩ := h
  exact ⟨word, hword, hletters.imp fun _ _ => .inl⟩

theorem Mantissa.head (m : Mantissa) (rest : List Char) :
    ∃ c tail, m.chars ++ rest = c :: tail ∧ (c.isDigit = true ∨ c = '.') := by
  cases m with
  | whole ds hds fraction =>
    obtain ⟨d, ds, rfl⟩ := List.exists_cons_of_ne_nil hds
    have hmem : d.val.digitChar ∈ digitText (d :: ds) := List.mem_cons_self
    have hdigit : d.val.digitChar.isDigit = true := isDigit_of_mem_digitText hmem
    cases fraction with
    | none => exact ⟨_, _, rfl, .inl hdigit⟩
    | some fs => exact ⟨_, _, rfl, .inl hdigit⟩
  | point ds hds => exact ⟨'.', _, rfl, .inr rfl⟩

theorem SpellsNumber.splitSign {cs : List Char} (h : SpellsNumber FoldedLetter cs) (sign : Sign) :
    Text.splitSign (sign.chars ++ cs) = (sign.negative, cs) := by
  obtain ⟨c, rest, rfl, -, -, hminus, hplus⟩ := h.head
  apply Text.splitSign_append
  rintro d ⟨⟩
  exact ⟨hminus, hplus⟩

theorem DecimalNumeral.splitSign (x : DecimalNumeral) :
    Text.splitSign x.chars =
      (x.sign.negative, x.mantissa.chars ++ exponentChars x.exponent) := by
  obtain ⟨c, rest, hhead, hc⟩ := x.mantissa.head (exponentChars x.exponent)
  rw [chars, hhead]
  apply Text.splitSign_append
  rintro d ⟨⟩
  constructor
  · rintro rfl
    exact absurd hc (by decide)
  · rintro rfl
    exact absurd hc (by decide)

theorem SpellsNumber.decimalOf_eq_none {cs : List Char} (h : SpellsNumber FoldedLetter cs) :
    Double.decimalOf? cs = none := by
  obtain ⟨c, rest, rfl, hdigit, hpoint, -⟩ := h.head
  rw [← Option.not_isSome_iff_eq_none, Double.decimalOf_isSome_iff]
  rintro ⟨m, e, heq⟩
  obtain ⟨d, tail, hhead, hd⟩ := m.head (DecimalNumeral.exponentChars e)
  obtain ⟨rfl, -⟩ := List.cons.inj (hhead.symm.trans heq)
  rcases hd with hd | hd
  · rw [hdigit] at hd
    cases hd
  · exact hpoint hd

namespace Literal

theorem asciiLetter_foldLetter {letter : Char} (h : letter.isLower = true) (c : Char) :
    AsciiLetter letter (foldLetter c) ↔ FoldedLetter letter c := by
  rw [FoldedLetter, ← toLower_eq_iff h, ← toLower_eq_iff h]
  unfold foldLetter
  split
  · next hfold =>
    constructor
    · rintro rfl
      exact .inr ⟨rfl, hfold⟩
    · rintro (rfl | ⟨rfl, -⟩)
      · rcases hfold with rfl | rfl <;> cases h
      · rfl
  · next hfold => simp [hfold]

theorem spellsNumeral_iff (text : List Char) :
    spellsNumeral text = true ↔ SpellsNumber FoldedLetter (Text.splitSign text).2 := by
  rw [spellsNumeral, Double.wordValue_isSome_iff]
  apply exists_congr
  intro word
  apply and_congr_right
  intro hword
  rw [List.forall₂_map_right_iff, List.forall₂_iff_zip, List.forall₂_iff_zip]
  apply and_congr_right
  intro _
  have hletter {letter c : Char} (hmem : (letter, c) ∈ word.toList.zip (Text.splitSign text).2) :
      AsciiLetter letter (foldLetter c) ↔ FoldedLetter letter c :=
    asciiLetter_foldLetter (isLower_of_mem_numberWords hword letter (List.of_mem_zip hmem).1) c
  constructor
  · intro h letter c hmem
    exact (hletter hmem).mp (h hmem)
  · intro h letter c hmem
    exact (hletter hmem).mpr (h hmem)

end Literal

theorem Double.ofNumeral_isSome_iff (text : List Char) :
    (ofNumeral? text).isSome = true ↔
      (decimalOf? (Text.splitSign text).2).isSome = true ∨
        (wordValue? (Text.splitSign text).2).isSome = true := by
  unfold ofNumeral?
  dsimp only
  rw [Option.isSome_map]
  cases decimalOf? (Text.splitSign text).2 with
  | none => simp
  | some d => simp

theorem floatNumeral_iff (text : List Char) :
    FloatNumeral text ↔ (Double.ofNumeral? text).isSome = true := by
  rw [Double.ofNumeral_isSome_iff, Double.decimalOf_isSome_iff, Double.wordValue_isSome_iff]
  constructor
  · rintro (⟨x, rfl⟩ | ⟨sign, cs, hcs, rfl⟩)
    · rw [x.splitSign]
      exact .inl ⟨x.mantissa, x.exponent, rfl⟩
    · rw [hcs.folded.splitSign]
      exact .inr hcs
  · obtain ⟨sign, htext, -⟩ := Text.exists_sign text
    rintro (⟨m, e, hme⟩ | hword)
    · refine .inl ⟨⟨sign, m, e⟩, ?_⟩
      rw [DecimalNumeral.chars, hme, htext]
    · exact .inr ⟨sign, _, hword, htext⟩

theorem falseNumeral_iff (text : List Char) :
    FalseNumeral text ↔ Double.ofNumeral? text = none ∧ Literal.spellsNumeral text = true := by
  rw [← Option.not_isSome_iff_eq_none, Double.ofNumeral_isSome_iff, Literal.spellsNumeral_iff]
  constructor
  · rintro ⟨sign, cs, hfolded, hascii, rfl⟩
    rw [hfolded.splitSign, hfolded.decimalOf_eq_none, Double.wordValue_isSome_iff]
    exact ⟨fun h => h.elim nofun hascii, hfolded⟩
  · rintro ⟨hnone, hfolded⟩
    obtain ⟨sign, htext, -⟩ := Text.exists_sign text
    refine ⟨sign, _, hfolded, fun hascii => hnone (.inr ?_), htext⟩
    exact (Double.wordValue_isSome_iff _).mpr hascii

namespace Literal

variable {text : String}

theorem integer_eq_none_iff : integer? text.toList = .ok none ↔
    ¬ ∃ x : IntegerNumeral, x.chars = text.toList ∧ -2 ^ 63 ≤ x.value ∧ x.value ≤ 2 ^ 63 - 1 := by
  constructor
  · rintro hnone ⟨x, hx, hrange⟩
    have hint := (integer_eq_some_iff _ _).mpr ⟨x, hx, rfl, hrange⟩
    rw [hnone] at hint
    cases hint
  · intro h
    cases hfilter : (Text.intOfText? text.toList).filter fun n => (Number.int n).inRange with
    | none => rw [integer_eq, hfilter]
    | some n =>
      have hint : integer? text.toList = .ok (some n) := by rw [integer_eq, hfilter]
      obtain ⟨x, hx, rfl, hrange⟩ := (integer_eq_some_iff _ _).mp hint
      exact absurd ⟨x, hx, hrange⟩ h

/-- The last two tests of the reader decide about all texts that are no words and no integers. -/
theorem read_cases (hword : text ∉ ["nil", "true", "false"])
    (hinteger : integer? text.toList = .ok none) :
    (FloatNumeral text.toList ∧ ¬ FalseNumeral text.toList ∧ ∃ x, read text = .ok (.float x)) ∨
      (¬ FloatNumeral text.toList ∧ FalseNumeral text.toList ∧
        read text = .error (.numeral text)) ∨
      (¬ FloatNumeral text.toList ∧ ¬ FalseNumeral text.toList ∧
        read text = .ok (.error ("could not parse symbol: " ++ text))) := by
  simp only [List.mem_cons, List.not_mem_nil, or_false, not_or] at hword
  obtain ⟨hnil, htrue, hfalse⟩ := hword
  rw [floatNumeral_iff, falseNumeral_iff]
  cases hnumeral : Double.ofNumeral? text.toList with
  | some x =>
    have hread : read text = .ok (.float x) := by
      simp only [read, if_neg hnil, if_neg htrue, if_neg hfalse, hinteger, hnumeral]
    exact .inl ⟨rfl, fun hboth => Option.some_ne_none x hboth.1, x, hread⟩
  | none =>
    have hread : read text = if spellsNumeral text.toList then .error (.numeral text)
        else .ok (Problem.noLiteral text).toValue := by
      simp only [read, if_neg hnil, if_neg htrue, if_neg hfalse, hinteger, hnumeral]
    right
    by_cases hspells : spellsNumeral text.toList = true
    · rw [if_pos hspells] at hread
      exact .inl ⟨Bool.false_ne_true, ⟨rfl, hspells⟩, hread⟩
    · rw [if_neg hspells] at hread
      exact .inr ⟨Bool.false_ne_true, fun hboth => hspells hboth.2, hread⟩

/-- A text that is neither a word of the language nor an integer of 64 bits is a double exactly when
it is a decimal numeral or a word for a special number. Every other text gives the error that it
could not be parsed, except that a word with a letter outside ASCII is a fault. -/
theorem literals_classified (hword : text ∉ ["nil", "true", "false"])
    (hinteger : ¬ ∃ x : IntegerNumeral,
      x.chars = text.toList ∧ -2 ^ 63 ≤ x.value ∧ x.value ≤ 2 ^ 63 - 1) :
    ((∃ x, read text = .ok (.float x)) ↔ FloatNumeral text.toList) ∧
    (read text = .ok (.error ("could not parse symbol: " ++ text)) ↔
      ¬ FloatNumeral text.toList ∧ ¬ FalseNumeral text.toList) ∧
    (∀ f, read text = .error f ↔ FalseNumeral text.toList ∧ f = .numeral text) := by
  rcases read_cases hword (integer_eq_none_iff.mpr hinteger) with
    ⟨hfloat, hfalse, x, hread⟩ | ⟨hfloat, hfalse, hread⟩ | ⟨hfloat, hfalse, hread⟩
  · refine ⟨⟨fun _ => hfloat, fun _ => ⟨x, hread⟩⟩, ?_, fun f => ?_⟩
    · rw [hread]
      exact ⟨nofun, fun hneither => absurd hfloat hneither.1⟩
    · rw [hread]
      exact ⟨nofun, fun hfault => absurd hfault.1 hfalse⟩
  · refine ⟨⟨?_, fun hfloat' => absurd hfloat' hfloat⟩, ?_, fun f => ?_⟩
    · rw [hread]
      exact nofun
    · rw [hread]
      exact ⟨nofun, fun hneither => absurd hfalse hneither.2⟩
    · rw [hread, Except.error.injEq, eq_comm]
      exact (and_iff_right hfalse).symm
  · refine ⟨⟨?_, fun hfloat' => absurd hfloat' hfloat⟩, ?_, fun f => ?_⟩
    · rw [hread]
      exact nofun
    · exact ⟨fun _ => ⟨hfloat, hfalse⟩, fun _ => hread⟩
    · rw [hread]
      exact ⟨nofun, fun hfault => absurd hfault.1 hfalse⟩

/-- A signed word in mixed case is a double, an exponent without digits is an error. -/
theorem literals_classified_mixed_case :
    "-InFinitY" ∉ ["nil", "true", "false"] ∧ "1e" ∉ ["nil", "true", "false"] ∧
      (∃ x, read "-InFinitY" = .ok (.float x)) ∧
      read "1e" = .ok (.error "could not parse symbol: 1e") := by
  have hword : "-InFinitY" ∉ ["nil", "true", "false"] := by decide
  have hletter : "1e" ∉ ["nil", "true", "false"] := by decide
  obtain ⟨hfloat, -⟩ := literals_classified hword (integer_eq_none_iff.mp rfl)
  obtain ⟨-, herror, -⟩ := literals_classified hletter (integer_eq_none_iff.mp rfl)
  refine ⟨hword, hletter, hfloat.mpr ?_, herror.mpr ?_⟩
  · exact (floatNumeral_iff _).mpr rfl
  · rw [floatNumeral_iff, falseNumeral_iff]
    exact ⟨by decide, by decide⟩

/-- A word with the dotless letter is neither an integer nor a double, and it gives no error value
but a fault. -/
theorem dotless_word_faults :
    "ınf" ∉ ["nil", "true", "false"] ∧
      (¬ ∃ x : IntegerNumeral,
        x.chars = "ınf".toList ∧ -2 ^ 63 ≤ x.value ∧ x.value ≤ 2 ^ 63 - 1) ∧
      ¬ FloatNumeral "ınf".toList ∧
      read "ınf" ≠ .ok (.error ("could not parse symbol: " ++ "ınf")) ∧
      read "ınf" = .error (.numeral "ınf") := by
  refine ⟨by decide, integer_eq_none_iff.mp rfl, ?_, nofun, rfl⟩
  rw [floatNumeral_iff]
  decide

end Literal

end TreeLisp
