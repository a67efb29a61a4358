import TreeLisp.Proofs.Equality

/-!
# Comparisons of numbers

The four comparisons look at neighbours. What they test of two numbers is what holds between the
exact values, which are linearly ordered, so a chain of neighbours in order is a list in order: the
relation holds between any earlier and any later argument, however integers and doubles are mixed
and whatever infinities or zeros are among them. With NaN among two or more arguments no comparison
holds.
-/
namespace TreeLisp

variable {a b : Number} {r : Extended → Extended → Prop}

namespace Number

theorem related_swap : Related (fun x y => r y x) a b ↔ Related r b a :=
  ⟨fun ⟨x, y, hx, hy, h⟩ => ⟨y, x, hy, hx, h⟩, fun ⟨y, x, hy, hx, h⟩ => ⟨x, y, hx, hy, h⟩⟩

theorem related_of_values {x y : Extended} (hx : a.value? = some x) (hy : b.value? = some y) :
    Related r a b ↔ r x y := by
  simp [Related, hx, hy]

theorem exists_value (h : a.toValue.NanFree) : ∃ x, a.value? = some x := by
  rw [← Value.isSome_content_iff] at h
  cases a <;> simpa [toValue, Value.content?, Option.isSome_iff_exists] using h

end Number

namespace Operation

open Number

/-- The operation tells of any numbers whether the relation holds between the exact values of each
one and each later one. -/
def Compares (op : Operation) (r : Extended → Extended → Prop) : Prop :=
  ∀ xs : List Number, op.Decides (xs.map toValue) (xs.Pairwise (Related r))

/-- The operation answers with true for the two numbers. -/
def Holds (op : Operation) (a b : Number) : Prop :=
  op.Affirms [a.toValue, b.toValue]

/-- A comparison that tests a transitive relation between neighbours tests it between all. -/
theorem comparison_compares [IsTrans Extended r] {op : Operation}
    {related : Number → Number → Bool} (hcompute : op.compute = op.comparison related)
    (hrelated : ∀ a b, related a b = true ↔ Related r a b) : op.Compares r := by
  intro xs
  have htrans (a b c : Number) (hab : related a b = true) (hbc : related b c = true) :
      related a c = true := by
    rw [hrelated] at hab hbc ⊢
    exact hab.trans hbc
  have hanswer : op.answer (xs.map toValue) = .ok (.bool (Arithmetic.chained related xs)) := by
    rw [answer, hcompute, comparison, Arithmetic.numbers_map_toValue, pure_bind,
      Compute.answer_pure]
  refine ⟨_, hanswer, ?_⟩
  rw [Arithmetic.chained_iff_pairwise htrans]
  simp only [hrelated]

theorem less_compares : less.Compares (· < ·) :=
  comparison_compares rfl fun _ _ => less_iff

theorem lessEqual_compares : lessEqual.Compares (· ≤ ·) :=
  comparison_compares rfl fun _ _ => lessEqual_iff

theorem greater_compares : greater.Compares (· > ·) :=
  comparison_compares rfl fun _ _ => less_iff.trans related_swap.symm

theorem greaterEqual_compares : greaterEqual.Compares (· ≥ ·) :=
  comparison_compares rfl fun _ _ => lessEqual_iff.trans related_swap.symm

theorem equal_compares : equal.Compares (· = ·) := by
  intro xs
  refine (equal_decides (xs.map toValue)).congr ?_
  rw [List.pairwise_map]
  simp only [Value.equal_numbers_iff]

theorem Compares.holds_iff {op : Operation} (h : op.Compares r) {x y : Extended}
    (hx : a.value? = some x) (hy : b.value? = some y) : op.Holds a b ↔ r x y := by
  have hpair : op.Holds a b ↔ [a, b].Pairwise (Related r) := (h [a, b]).affirms_iff
  rw [hpair, List.pairwise_pair, related_of_values hx hy]

end Operation

/-- Each comparison answers with true exactly if its relation holds between the exact values of all
earlier and later arguments. Of two numbers other than NaN exactly one is less, equal or greater,
and the two other comparisons are the disjunctions. -/
theorem comparisons_between_all :
    (Operation.less.Compares (· < ·) ∧ Operation.lessEqual.Compares (· ≤ ·) ∧
      Operation.greater.Compares (· > ·) ∧ Operation.greaterEqual.Compares (· ≥ ·)) ∧
    ∀ a b : Number, a.toValue.NanFree → b.toValue.NanFree →
      (∃! op, op ∈ [Operation.less, .equal, .greater] ∧ op.Holds a b) ∧
      (Operation.lessEqual.Holds a b ↔ Operation.less.Holds a b ∨ Operation.equal.Holds a b) ∧
      (Operation.greaterEqual.Holds a b ↔
        Operation.equal.Holds a b ∨ Operation.greater.Holds a b) := by
  refine ⟨⟨Operation.less_compares, Operation.lessEqual_compares, Operation.greater_compares,
    Operation.greaterEqual_compares⟩, fun a b ha hb => ?_⟩
  obtain ⟨x, hx⟩ := Number.exists_value ha
  obtain ⟨y, hy⟩ := Number.exists_value hb
  have hless := Operation.less_compares.holds_iff hx hy
  have hequal := Operation.equal_compares.holds_iff hx hy
  have hgreater := Operation.greater_compares.holds_iff hx hy
  refine ⟨?_, ?_, ?_⟩
  · rcases lt_trichotomy x y with hxy | hxy | hxy
    · refine ⟨.less, ⟨by simp, hless.mpr hxy⟩, ?_⟩
      simp [hequal, hgreater, hxy.ne, hxy.not_gt]
    · refine ⟨.equal, ⟨by simp, hequal.mpr hxy⟩, ?_⟩
      simp [hless, hgreater, hxy]
    · refine ⟨.greater, ⟨by simp, hgreater.mpr hxy⟩, ?_⟩
      simp [hless, hequal, hxy.ne', hxy.not_gt]
  · rw [Operation.lessEqual_compares.holds_iff hx hy, hless, hequal, le_iff_lt_or_eq]
  · rw [Operation.greaterEqual_compares.holds_iff hx hy, hequal, hgreater, ge_iff_le,
      le_iff_eq_or_lt, eq_comm]

/-- An odd integer and the double next to it, both in a chain from one infinity to the other. -/
theorem comparisons_between_all_large :
    let a : Number := .int 9007199254740993
    let b : Number := .float 9007199254740992
    let chain : List Number :=
      [.float (-Double.infinity), .int (-1), .float 0, b, a, .float Double.infinity]
    (a.toValue.NanFree ∧ b.toValue.NanFree) ∧
      (Operation.greater.Holds a b ∧ ¬ Operation.equal.Holds a b ∧
        ¬ Operation.lessEqual.Holds a b) ∧
      Operation.less.Affirms (chain.map Number.toValue) := by
  intro a b chain
  obtain ⟨⟨hless, -, hgreater, -⟩, htwo⟩ := comparisons_between_all
  have ha : a.toValue.NanFree := fun x hx => nomatch hx
  have hb : b.toValue.NanFree := Value.nanFree_float.mpr (by decide)
  have hab : Operation.greater.Holds a b := by
    have hlt : b.less a = true := by decide +kernel
    refine (hgreater [a, b]).affirms_iff.mpr (List.pairwise_pair.mpr ?_)
    exact Number.related_swap.mpr (Number.less_iff.mp hlt)
  obtain ⟨⟨op, -, hunique⟩, hle, -⟩ := htwo a b ha hb
  have hop : Operation.greater = op := hunique _ ⟨by simp, hab⟩
  have hequal : ¬ Operation.equal.Holds a b := fun h => by
    cases (hunique _ ⟨by simp, h⟩).trans hop.symm
  have hless' : ¬ Operation.less.Holds a b := fun h => by
    cases (hunique _ ⟨by simp, h⟩).trans hop.symm
  refine ⟨⟨ha, hb⟩, ⟨hab, hequal, ?_⟩, ?_⟩
  · rw [hle]
    exact not_or.mpr ⟨hless', hequal⟩
  · have hchain : chain.Pairwise fun x y => x.less y = true := by decide +kernel
    exact (hless chain).affirms_iff.mpr (hchain.imp Number.less_iff.mp)

end TreeLisp
