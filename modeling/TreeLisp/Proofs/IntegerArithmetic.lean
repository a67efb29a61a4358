import Mathlib.Algebra.BigOperators.Ring.List
import Mathlib.Data.Rat.Floor
import TreeLisp.Proofs.Answers

/-!
# Integer arithmetic

A sum is checked once, at the end, so it does not matter in which order its terms come. A product is
checked after every factor: it is given exactly if the product of every prefix of the factors fits
64 bits. As long as no factor is zero, the product of a prefix is no larger than the whole one, so
the order can matter only for the one integer whose negative does not fit.

A quotient is checked once, at the end. Dividing by one divisor after the other and dropping the
fraction each time is the same as dividing by their product and dropping the fraction once, and the
remainder of one such division is what `mod` answers.
-/
namespace TreeLisp

/-- The integer fits 64 bits. -/
def Fits (n : Int) : Prop := -2 ^ 63 ≤ n ∧ n ≤ 2 ^ 63 - 1

instance (n : Int) : Decidable (Fits n) := inferInstanceAs (Decidable (_ ∧ _))

/-- What an operation answers whose exact result is the integer. -/
def Value.ofExact (n : Int) : Value :=
  if Fits n then .int n else .error "integer overflow"

theorem fits_iff_inRange {n : Int} : Fits n ↔ (Number.int n).inRange = true := by
  simp only [Number.inRange, Bool.and_eq_true, decide_eq_true_eq]
  rfl

namespace Arithmetic

theorem checked_of_fits {n : Int} (h : Fits n) : checked (.int n) = pure (.int n) :=
  if_pos (fits_iff_inRange.mp h)

theorem checked_of_not_fits {n : Int} (h : ¬ Fits n) : checked (.int n) = throw .overflow :=
  if_neg fun hrange => h (fits_iff_inRange.mpr hrange)

end Arithmetic

namespace Operation

open Arithmetic

variable {op : Operation} {f : List Number → Compute Number} {ns : List Int}

theorem answer_ints (hcompute : op.compute = op.arithmetic f) (ns : List Int) :
    op.answer (ns.map .int) = Compute.answer do return (← f (ns.map .int)).toValue := by
  have hargs : ns.map Value.int = (ns.map Number.int).map Number.toValue := by
    rw [List.map_map]
    rfl
  rw [answer, hcompute, arithmetic, hargs, numbers_map_toValue, pure_bind]

theorem answer_of_checked (hcompute : op.compute = op.arithmetic f) {n : Int}
    (h : f (ns.map .int) = checked (.int n)) : op.answer (ns.map .int) = .ok (.ofExact n) := by
  rw [answer_ints hcompute, h, Value.ofExact]
  by_cases hn : Fits n
  · rw [checked_of_fits hn, if_pos hn]
    rfl
  · rw [checked_of_not_fits hn, if_neg hn]
    rfl

end Operation

namespace Arithmetic

theorem foldlM_add (ns : List Int) (a : Int) :
    (ns.map Number.int).foldlM (fun acc x => combined (acc.add? x)) (.int a) =
      pure (.int (a + ns.sum)) := by
  induction ns generalizing a with
  | nil =>
    rw [List.sum_nil, add_zero]
    rfl
  | cons n ns ih =>
    rw [List.sum_cons, ← add_assoc]
    exact ih (a + n)

theorem sum_ints (ns : List Int) : sum (ns.map .int) = checked (.int ns.sum) := by
  rw [sum, foldlM_add, zero_add, pure_bind]

theorem product_concat (xs : List Number) (x : Number) :
    product (xs ++ [x]) = product xs >>= fun acc => combined (acc.mul? x) >>= checked := by
  rw [product, List.foldlM_append]
  refine bind_congr fun acc => ?_
  rw [List.foldlM_cons]
  exact bind_pure _

theorem product_of_fits {ns : List Int} (h : ∀ front, front <+: ns → Fits front.prod) :
    product (ns.map .int) = pure (.int ns.prod) := by
  induction ns using List.reverseRecOn with
  | nil => rfl
  | append_singleton ns n ih =>
    have hns := ih fun front hfront => h front (hfront.trans (List.prefix_append ns [n]))
    have hall : Fits (ns ++ [n]).prod := h _ List.prefix_rfl
    rw [List.prod_append, List.prod_singleton] at hall ⊢
    rw [List.map_append, List.map_singleton, product_concat, hns]
    exact checked_of_fits hall

theorem product_of_not_fits {front ns : List Int} (hfront : front <+: ns)
    (h : ¬ Fits front.prod) : product (ns.map .int) = throw .overflow := by
  induction ns using List.reverseRecOn generalizing front with
  | nil =>
    rw [List.prefix_nil.mp hfront] at h
    exact absurd (by decide : Fits 1) h
  | append_singleton ns n ih =>
    rw [List.map_append, List.map_singleton, product_concat]
    by_cases hall : ∀ earlier, earlier <+: ns → Fits earlier.prod
    · -- the prefix that does not fit is the whole list
      obtain rfl | hfront := List.prefix_concat_iff.mp hfront
      · rw [List.prod_append, List.prod_singleton] at h
        rw [product_of_fits hall]
        exact checked_of_not_fits h
      · exact absurd (hall front hfront) h
    · obtain ⟨earlier, hearlier, hover⟩ := not_forall₂.mp hall
      rw [ih hearlier hover]
      rfl

end Arithmetic

/-- Without a zero among the factors, no prefix has a larger product than all of them. -/
theorem fits_of_front {front ns : List Int} (hfront : front <+: ns) (hzero : 0 ∉ ns)
    (hsize : |ns.prod| < 2 ^ 63) : Fits front.prod := by
  obtain ⟨back, rfl⟩ := hfront
  have hdvd : front.prod ∣ (front ++ back).prod := by
    rw [List.prod_append]
    exact Int.dvd_mul_right _ _
  have hle : front.prod.natAbs ≤ (front ++ back).prod.natAbs :=
    Int.natAbs_le_of_dvd_ne_zero hdvd (List.prod_ne_zero hzero)
  rw [Int.abs_eq_natAbs] at hsize
  unfold Fits
  omega

namespace Operation

open Arithmetic

theorem mul_answer_of_fits {ns : List Int} (h : ∀ front, front <+: ns → Fits front.prod) :
    mul.answer (ns.map .int) = .ok (.int ns.prod) := by
  rw [answer_ints rfl, product_of_fits h]
  rfl

theorem mul_answer_of_not_fits {front ns : List Int} (hfront : front <+: ns)
    (h : ¬ Fits front.prod) : mul.answer (ns.map .int) = .ok (.error "integer overflow") := by
  rw [answer_ints rfl, product_of_not_fits hfront h]
  rfl

theorem eq_prod_of_mul_answer {ns : List Int} {n : Int}
    (h : mul.answer (ns.map .int) = .ok (.int n)) : n = ns.prod := by
  by_cases hall : ∀ front, front <+: ns → Fits front.prod
  · rw [mul_answer_of_fits hall] at h
    cases h
    rfl
  · obtain ⟨front, hfront, hover⟩ := not_forall₂.mp hall
    rw [mul_answer_of_not_fits hfront hover] at h
    cases h

end Operation

/-- Sums of integers are exact and do not depend on the order of the terms: all orders answer with
the sum, or all of them overflow. Products of integers other than zero do not depend on the order of
the factors either, unless the product is the least integer: all orders answer with a product that
is less than 2⁶³ away from zero, and all overflow at one that does not fit. An integer that a
product answers with is always the exact one. -/
theorem sums_and_products_reordered (ns ms : List Int) (horder : ms.Perm ns) :
    Operation.add.answer (ms.map .int) = .ok (.ofExact ns.sum) ∧
      ((∀ n ∈ ns, n ≠ 0) →
        (|ns.prod| < 2 ^ 63 → Operation.mul.answer (ms.map .int) = .ok (.int ns.prod)) ∧
        (¬ Fits ns.prod →
          Operation.mul.answer (ms.map .int) = .ok (.error "integer overflow"))) ∧
      ∀ n, Operation.mul.answer (ms.map .int) = .ok (.int n) → n = ns.prod := by
  rw [← horder.sum_eq, ← horder.prod_eq]
  refine ⟨Operation.answer_of_checked rfl (Arithmetic.sum_ints ms), fun hne => ⟨fun hsize => ?_,
    fun hover => ?_⟩, fun n => Operation.eq_prod_of_mul_answer⟩
  · have hzero : 0 ∉ ms := fun h => hne 0 (horder.subset h) rfl
    exact Operation.mul_answer_of_fits fun front hfront => fits_of_front hfront hzero hsize
  · exact Operation.mul_answer_of_not_fits List.prefix_rfl hover

/-- A partial sum leaves 64 bits and the whole sum does not; a product beyond them. -/
theorem sums_and_products_reordered_limits :
    let ns : List Int := [9223372036854775807, 1, -1]
    let ms : List Int := [1, 9223372036854775807, -1]
    let large : List Int := [4294967296, -4294967296]
    (ms.Perm ns ∧ (∀ n ∈ ns, n ≠ 0) ∧ |ns.prod| < 2 ^ 63) ∧
      Operation.add.answer (ms.map .int) = .ok (.int 9223372036854775807) ∧
      Operation.mul.answer (ms.map .int) = .ok (.int (-9223372036854775807)) ∧
      ((∀ n ∈ large, n ≠ 0) ∧ ¬ Fits large.prod) ∧
      Operation.mul.answer (large.map .int) = .ok (.error "integer overflow") := by
  intro ns ms large
  have horder : ms.Perm ns := List.Perm.swap _ _ _
  have hne : ∀ n ∈ ns, n ≠ 0 := by decide
  have hsize : |ns.prod| < 2 ^ 63 := by decide
  have hne' : ∀ n ∈ large, n ≠ 0 := by decide
  have hover : ¬ Fits large.prod := by decide
  obtain ⟨hsum, hproduct, -⟩ := sums_and_products_reordered ns ms horder
  obtain ⟨-, hproduct', -⟩ := sums_and_products_reordered large large (.refl _)
  exact ⟨⟨horder, hne, hsize⟩, hsum, (hproduct hne).1 hsize, ⟨hne', hover⟩,
    (hproduct' hne').2 hover⟩

/-- The integer without the fraction, which is the floor or the ceiling by the sign. -/
def towardZero (x : ℚ) : Int := if 0 ≤ x then ⌊x⌋ else ⌈x⌉

theorem towardZero_neg (x : ℚ) : towardZero (-x) = -towardZero x := by
  unfold towardZero
  rcases lt_trichotomy x 0 with hx | rfl | hx
  · rw [if_pos (by linarith), if_neg (not_le.mpr hx), Int.floor_neg]
  · simp
  · rw [if_neg (by linarith), if_pos hx.le, Int.ceil_neg]

theorem towardZero_natCast_div (m n : Nat) : towardZero ((m : ℚ) / n) = m / n := by
  have hnonneg : (0 : ℚ) ≤ m / n := div_nonneg m.cast_nonneg n.cast_nonneg
  rw [towardZero, if_pos hnonneg, Rat.floor_natCast_div_natCast]

theorem towardZero_div (a b : Int) : towardZero ((a : ℚ) / b) = a.tdiv b := by
  obtain ⟨m, rfl | rfl⟩ := a.eq_nat_or_neg <;> obtain ⟨n, rfl | rfl⟩ := b.eq_nat_or_neg <;>
    simp [neg_div, div_neg, towardZero_neg, towardZero_natCast_div, Int.natCast_tdiv_eq_ediv]

theorem tdiv_tdiv (a b c : Int) : (a.tdiv b).tdiv c = a.tdiv (b * c) := by
  have hnat (k m n : Nat) : ((k : Int).tdiv m).tdiv n = (k : Int).tdiv (m * n) := by
    rw [← Int.ofNat_tdiv, ← Int.ofNat_tdiv, Nat.div_div_eq_div_mul, Int.ofNat_tdiv,
      Int.natCast_mul]
  obtain ⟨k, rfl | rfl⟩ := a.eq_nat_or_neg <;> obtain ⟨m, rfl | rfl⟩ := b.eq_nat_or_neg <;>
    obtain ⟨n, rfl | rfl⟩ := c.eq_nat_or_neg <;>
    simp only [Int.neg_tdiv, Int.tdiv_neg, Int.neg_mul, Int.mul_neg, Int.neg_neg, hnat]

namespace Arithmetic

theorem isZero_int_iff {n : Int} : (Number.int n).isZero = true ↔ n = 0 := by
  have hunits : (Double.unitsOfOne : Int) ≠ 0 := by decide +kernel
  rw [Number.isZero, beq_iff_eq, Number.units?, Double.unitsOfInt, Option.some.injEq,
    Double.Units.count.injEq]
  exact mul_eq_zero_iff_right hunits

theorem divideBy_int {a b : Int} (hb : b ≠ 0) :
    divideBy (.int a) (.int b) = pure (.int (a.tdiv b)) := by
  have hzero := isZero_int_iff.not.mpr hb
  rw [divideBy, if_neg hzero, divided, if_neg hzero]
  rfl

theorem divideBy_zero (a : Int) : divideBy (.int a) (.int 0) = throw .divisionByZero :=
  if_pos (isZero_int_iff.mpr rfl)

theorem foldlM_divideBy {bs : List Int} (h : 0 ∉ bs) (a : Int) :
    (bs.map Number.int).foldlM divideBy (.int a) = pure (.int (a.tdiv bs.prod)) := by
  induction bs generalizing a with
  | nil =>
    rw [List.prod_nil, Int.tdiv_one]
    rfl
  | cons b bs ih =>
    obtain ⟨hb, hbs⟩ := not_or.mp (List.mem_cons.not.mp h)
    rw [List.map_cons, List.foldlM_cons, divideBy_int (Ne.symm hb), pure_bind, ih hbs, tdiv_tdiv,
      List.prod_cons]

theorem foldlM_divideBy_zero {bs : List Int} (h : 0 ∈ bs) (a : Int) :
    (bs.map Number.int).foldlM divideBy (.int a) = throw .divisionByZero := by
  induction bs generalizing a with
  | nil => cases h
  | cons b bs ih =>
    rw [List.map_cons, List.foldlM_cons]
    by_cases hb : b = 0
    · rw [hb, divideBy_zero]
      rfl
    · rw [divideBy_int hb, pure_bind]
      exact ih ((List.mem_cons.mp h).resolve_left (Ne.symm hb)) _

theorem quotient_cons {bs : List Number} (hbs : bs ≠ []) (a : Number) :
    quotient (a :: bs) = bs.foldlM divideBy a >>= checked := by
  cases bs with
  | nil => exact absurd rfl hbs
  | cons b bs => rfl

end Arithmetic

namespace Operation

open Arithmetic

variable {bs : List Int}

theorem div_answer (hbs : bs ≠ []) (h : 0 ∉ bs) (a : Int) :
    div.answer (.int a :: bs.map .int) = .ok (.ofExact (towardZero ((a : ℚ) / bs.prod))) := by
  have hquotient : quotient ((a :: bs).map .int) = checked (.int (a.tdiv bs.prod)) := by
    rw [List.map_cons, quotient_cons (by simpa using hbs), foldlM_divideBy h, pure_bind]
  rw [towardZero_div]
  exact answer_of_checked rfl hquotient

theorem div_answer_zero (h : 0 ∈ bs) (a : Int) :
    div.answer (.int a :: bs.map .int) = .ok (.error "division by zero") := by
  have hbs : bs.map Number.int ≠ [] := by simpa using List.ne_nil_of_mem h
  change div.answer ((a :: bs).map .int) = _
  rw [answer_ints rfl, List.map_cons, quotient_cons hbs, foldlM_divideBy_zero h]
  rfl

theorem mod_answer {b : Int} (hb : b ≠ 0) (a : Int) :
    mod.answer [.int a, .int b] = .ok (.int (a.tmod b)) := by
  have hremainder : remainder (.int a) (.int b) = pure (.int (a.tmod b)) := by
    rw [remainder, if_neg hb, modulo, if_neg hb]
    rfl
  change (remainder (.int a) (.int b)).answer = _
  rw [hremainder, Compute.answer_pure]

end Operation

/-- Whatever the number of divisors, a quotient of integers drops the fraction once, from the
quotient by the product of the divisors; it is an error exactly if a divisor is zero. For one
divisor other than zero, `mod` answers with the remainder, which is smaller than the divisor and has
the sign of what is divided. -/
theorem quotients_truncate_once (a : Int) (bs : List Int) (hbs : bs ≠ []) :
    (Operation.div.answer (.int a :: bs.map .int) = .ok (.error "division by zero") ↔ 0 ∈ bs) ∧
      (0 ∉ bs →
        Operation.div.answer (.int a :: bs.map .int) =
          .ok (.ofExact (towardZero ((a : ℚ) / bs.prod)))) ∧
      ∀ b : Int, b ≠ 0 → ∃ r : Int, Operation.mod.answer [.int a, .int b] = .ok (.int r) ∧
        a = towardZero ((a : ℚ) / b) * b + r ∧ |r| < |b| ∧ (r = 0 ∨ r.sign = a.sign) := by
  refine ⟨⟨fun h => ?_, fun h => Operation.div_answer_zero h a⟩,
    fun h => Operation.div_answer hbs h a, fun b hb => ?_⟩
  · by_contra hzero
    rw [Operation.div_answer hbs hzero, Value.ofExact] at h
    split at h <;> simp at h
  · refine ⟨a.tmod b, Operation.mod_answer hb a, ?_, ?_, ?_⟩
    · rw [towardZero_div, Int.tdiv_mul_add_tmod]
    · rw [Int.abs_eq_natAbs, Int.abs_eq_natAbs, Int.natAbs_tmod]
      exact Int.ofNat_lt.mpr (Nat.mod_lt _ (Int.natAbs_pos.mpr hb))
    · by_cases hdvd : b ∣ a
      · exact .inl (Int.tmod_eq_zero_of_dvd hdvd)
      · exact .inr (by rw [Int.sign_tmod, if_neg hdvd])

/-- The least integer is divided by divisors of both signs, and by the one that leaves the range. -/
theorem quotients_truncate_once_least :
    let a : Int := -9223372036854775808
    let bs : List Int := [-3, 2]
    ((bs ≠ [] ∧ 0 ∉ bs) ∧
        Operation.div.answer (.int a :: bs.map .int) = .ok (.int 1537228672809129301)) ∧
      (([-1] : List Int) ≠ [] ∧
        Operation.div.answer [.int a, .int (-1)] = .ok (.error "integer overflow")) ∧
      Operation.mod.answer [.int a, .int (-3)] = .ok (.int (-2)) := by
  intro a bs
  have hbs : bs ≠ [] := List.cons_ne_nil _ _
  have hzero : 0 ∉ bs := by decide
  obtain ⟨-, hdiv, hmod⟩ := quotients_truncate_once a bs hbs
  obtain ⟨-, hover, -⟩ := quotients_truncate_once a [-1] (List.cons_ne_nil _ _)
  obtain ⟨r, hr, ha, -⟩ := hmod (-3) (by decide)
  rw [towardZero_div] at hdiv hover ha
  have hquotient : a.tdiv (-3) = 3074457345618258602 := by decide
  have hremainder : r = -2 := by
    rw [hquotient] at ha
    omega
  refine ⟨⟨⟨hbs, hzero⟩, hdiv hzero⟩, ⟨List.cons_ne_nil _ _, hover (by decide)⟩, ?_⟩
  rw [hr, hremainder]

end TreeLisp
