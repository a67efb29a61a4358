import TreeLisp.Operation.Compute
import TreeLisp.Proofs.Alike

/-!
# Operations on values that are alike

An operation makes values that are alike out of arguments that are alike. Where it finds a problem in
one list of arguments, it finds one with the same message in the other, and where it runs into a
fault, it runs into the same one.
-/
namespace TreeLisp

variable {α β γ δ : Type} {P : Permit} {π : Pairing} {v w v' w' : Value} {xs ys : List Value}

/-- Two computations with related results, problems of one wording or the same fault. -/
def ComputesAlike (post : α → β → Prop) (c : Compute α) (d : Compute β) : Prop :=
  match c.run, d.run with
  | .ok (.ok a), .ok (.ok b) => post a b
  | .ok (.error p), .ok (.error q) => p.message = q.message
  | .error f, .error g => f = g
  | _, _ => False

namespace ComputesAlike

theorem result {post : α → β → Prop} {a : α} {b : β} (h : post a b) :
    ComputesAlike post (pure a) (pure b) := h

theorem problem {post : α → β → Prop} {p q : Problem} (h : p.message = q.message) :
    ComputesAlike post (throw p) (throw q) := h

theorem fault {post : α → β → Prop} (f : Fault) :
    ComputesAlike post (throw f : Except Fault α) (throw f : Except Fault β) := rfl

theorem refl (c : Compute α) : ComputesAlike Eq c c := by
  unfold ComputesAlike
  cases c.run with
  | error f => rfl
  | ok r => cases r <;> rfl

theorem bind {post : α → β → Prop} {post' : γ → δ → Prop} {c : Compute α} {d : Compute β}
    {k : α → Compute γ} {l : β → Compute δ} (h : ComputesAlike post c d)
    (hk : ∀ a b, post a b → ComputesAlike post' (k a) (l b)) :
    ComputesAlike post' (c >>= k) (d >>= l) := by
  match c, d, h with
  | .ok (.ok a), .ok (.ok b), h => exact hk a b h
  | .ok (.error p), .ok (.error q), h => exact h
  | .error f, .error g, h => exact h

end ComputesAlike

theorem numbers_alike (op : Operation) (h : List.Forall₂ (Alike P π) xs ys) :
    ComputesAlike Eq (Arithmetic.numbers op xs) (Arithmetic.numbers op ys) := by
  induction h with
  | nil => exact .refl _
  | @cons v w xs ys h hs ih =>
    rw [Arithmetic.numbers, Arithmetic.numbers, h.number_eq]
    cases w.number? with
    | none => exact .problem (h.expects_eq op.name .numbers)
    | some x =>
      refine ih.bind fun as bs heq => ?_
      exact .result (congrArg (x :: ·) heq)

theorem itemsFor_alike (name : String) (h : Alike P π v w) :
    (∃ xs ys, itemsFor name v = .ok xs ∧ itemsFor name w = .ok ys ∧ AllStored P π xs ys) ∨
    ∃ p q, itemsFor name v = .error p ∧ itemsFor name w = .error q ∧ p.message = q.message := by
  have hproblem := h.expects_eq name .list
  cases h with
  | nil => exact .inl ⟨[], [], rfl, rfl, .nil⟩
  | list h => exact .inl ⟨_, _, rfl, rfl, h⟩
  | _ => exact .inr ⟨_, _, rfl, rfl, hproblem⟩

namespace Operation

theorem items_alike (op : Operation) (h : Alike P π v w) :
    ComputesAlike (AllStored P π) (op.items v) (op.items w) := by
  rcases itemsFor_alike op.name h with ⟨xs, ys, hv, hw, hitems⟩ | ⟨p, q, hv, hw, hmessage⟩
  · rw [items, items, hv, hw]
    exact hitems
  · rw [items, items, hv, hw]
    exact hmessage

theorem one_alike (h : List.Forall₂ (Alike P π) xs ys) :
    ComputesAlike (Alike P π) (one xs) (one ys) := by
  match h with
  | .nil => exact .fault _
  | .cons h .nil => exact .result h
  | .cons _ (.cons _ _) => exact .fault _

theorem two_alike (h : AllStored P π xs ys) :
    ComputesAlike (fun a b => Stored P π a.1 b.1 ∧ Stored P π a.2 b.2) (two xs) (two ys) := by
  match h with
  | .nil => exact .fault _
  | .cons _ .nil => exact .fault _
  | .cons h (.cons k .nil) => exact .result ⟨h, k⟩
  | .cons _ (.cons _ (.cons _ _)) => exact .fault _

theorem number_alike (x : Number) : Alike P π x.toValue x.toValue := by
  cases x with
  | int n => exact .int n
  | float x => exact .float x

theorem arithmetic_alike (op : Operation) (f : List Number → Compute Number)
    (h : List.Forall₂ (Alike P π) xs ys) :
    ComputesAlike (Alike P π) (op.arithmetic f xs) (op.arithmetic f ys) := by
  refine (numbers_alike op h).bind fun as bs heq => ?_
  subst heq
  refine (ComputesAlike.refl (f as)).bind fun x y heq => ?_
  subst heq
  exact .result (number_alike x)

theorem comparison_alike (op : Operation) (related : Number → Number → Bool)
    (h : List.Forall₂ (Alike P π) xs ys) :
    ComputesAlike (Alike P π) (op.comparison related xs) (op.comparison related ys) := by
  refine (numbers_alike op h).bind fun as bs heq => ?_
  subst heq
  exact .result (.bool _)

theorem remainder_alike (h : Alike P π v w) (h' : Alike P π v' w') :
    ComputesAlike (Alike P π) (Arithmetic.remainder v v') (Arithmetic.remainder w w') := by
  have hproblem : (Problem.notIntegers v v').message = (Problem.notIntegers w w').message :=
    congrArg₂ (fun n d => "mod expects integers, got " ++ n ++ " and " ++ d) h.text_eq h'.text_eq
  cases h with
  | int n =>
    cases h' with
    | int d =>
      dsimp only [Arithmetic.remainder]
      by_cases hd : d = 0
      · rw [if_pos hd]
        exact .problem rfl
      · rw [if_neg hd]
        refine (ComputesAlike.refl (Arithmetic.modulo n d)).bind fun r r' heq => ?_
        subst heq
        exact .result (.int r)
    | _ => exact .problem hproblem
  | _ => exact .problem hproblem

theorem test_alike (h : List.Forall₂ (Alike P π) xs ys) {holds : Value → Bool}
    (hholds : ∀ v w, Alike P π v w → holds v = holds w) :
    ComputesAlike (Alike P π) (test xs holds) (test ys holds) := by
  refine (one_alike h).bind fun v w hvw => ?_
  rw [hholds v w hvw]
  exact .result (.bool _)

theorem itemAt_alike (hitems : AllStored P π xs ys) (i : Int) :
    ComputesAlike (Alike P π) (itemAt xs i) (itemAt ys i) := by
  unfold itemAt Slice.item
  rw [hitems.length_eq]
  generalize (if i < 0 then i + (ys.length : Int) else i) = place
  have hitem := hitems.getElem? place.toNat
  by_cases hfits : Slice.fitsWord i = true
  · by_cases hplace : place < 0
    · simp only [hfits, hplace, Bool.not_true, if_true]
      exact .fault _
    · simp only [hfits, hplace, Bool.not_true, if_false]
      generalize xs[place.toNat]? = item, ys[place.toNat]? = item' at hitem ⊢
      cases hitem with
      | none => exact .fault _
      | some hitem => exact .result hitem.alike
  · simp only [hfits, Bool.not_false, if_true]
    exact .fault _

theorem nthItem_alike (h : Alike P π v w) (hindex : Alike P π v' w')
    (hitems : AllStored P π xs ys) :
    ComputesAlike (Alike P π) (nthItem v v' xs) (nthItem w w' ys) := by
  have hproblem := hindex.expects_eq nth.name .index
  cases hindex with
  | int i =>
    have houtside : (Problem.outOfRange i v).message = (Problem.outOfRange i w).message :=
      congrArg ("nth index " ++ Text.intText i ++ " out of range for " ++ ·) h.text_eq
    dsimp only [nthItem]
    rw [hitems.length_eq]
    by_cases hi : 0 ≤ i ∧ i < ys.length
    · rw [if_pos hi, if_pos hi]
      exact itemAt_alike hitems i
    · rw [if_neg hi, if_neg hi]
      exact .problem houtside
  | _ => exact .problem hproblem

theorem joined_alike (op : Operation) (h : AllStored P π xs ys) :
    ComputesAlike (AllStored P π) (op.joined xs) (op.joined ys) := by
  induction h with
  | nil => exact .result .nil
  | cons h hs ih =>
    refine (op.items_alike h.alike).bind fun front front' hfront => ?_
    refine ih.bind fun back back' hback => ?_
    exact .result (List.rel_append hfront hback)

theorem displayed_eq (h : List.Forall₂ (Alike P π) xs ys) : displayed xs = displayed ys := by
  have hmap : xs.map Value.display = ys.map Value.display := by
    induction h with
    | nil => rfl
    | cons h hs ih => rw [List.map_cons, List.map_cons, h.display_eq, ih]
  rw [displayed, displayed, hmap]

theorem chained_equal_eq (hπ : π.Distinct) (h : List.Forall₂ (Alike P π) xs ys) :
    Arithmetic.chained Value.equal xs = Arithmetic.chained Value.equal ys := by
  induction h with
  | nil => rfl
  | cons h hs ih =>
    cases hs with
    | nil => rfl
    | cons k hs => rw [Arithmetic.chained, Arithmetic.chained, h.equal_eq hπ k, ih]

theorem compute_alike_of_takesErrors {op : Operation} (hop : op.takesErrors = true)
    (h : List.Forall₂ (Alike P π) xs ys) :
    ComputesAlike (Alike P π) (op.compute xs) (op.compute ys) := by
  cases op with
  | isError => exact test_alike h fun _ _ hvw => hvw.isError_eq
  | errorMessage =>
    refine (one_alike h).bind fun v w hvw => ?_
    have hproblem := hvw.expects_eq errorMessage.name .error
    cases hvw with
    | error message => exact .result (.string message)
    | _ => exact .problem hproblem
  | _ => simp [takesErrors] at hop

theorem compute_alike (hπ : π.Distinct) (op : Operation) (h : AllStored P π xs ys) :
    ComputesAlike (Alike P π) (op.compute xs) (op.compute ys) := by
  have halike : List.Forall₂ (Alike P π) xs ys := h.alike
  cases op with
  | add | sub | mul | div => exact arithmetic_alike _ _ halike
  | less | lessEqual | greater | greaterEqual => exact comparison_alike _ _ halike
  | mod => exact (two_alike h).bind fun a b hab => remainder_alike hab.1.alike hab.2.alike
  | equal =>
    rw [compute, compute, chained_equal_eq hπ halike]
    exact .result (.bool _)
  | not => exact test_alike halike fun _ _ hvw => by rw [hvw.truthy_eq]
  | list => exact .result (.list h)
  | cons =>
    refine (two_alike h).bind fun a b hab => ?_
    refine (items_alike _ hab.2.alike).bind fun tail tail' htail => ?_
    exact .result (.list (.cons hab.1 htail))
  | first =>
    refine (one_alike halike).bind fun v w hvw => ?_
    refine (items_alike _ hvw).bind fun items items' hitems => ?_
    cases hitems with
    | nil => exact .result .nil
    | cons hhead _ => exact .result hhead.alike
  | rest =>
    refine (one_alike halike).bind fun v w hvw => ?_
    refine (items_alike _ hvw).bind fun items items' hitems => ?_
    cases hitems with
    | nil => exact .result (.list .nil)
    | cons _ htail => exact .result (.list htail)
  | nth =>
    refine (two_alike h).bind fun a b hab => ?_
    refine (items_alike _ hab.1.alike).bind fun items items' hitems => ?_
    exact nthItem_alike hab.1.alike hab.2.alike hitems
  | count =>
    refine (one_alike halike).bind fun v w hvw => ?_
    have hlength : ComputesAlike (Alike P π) (do return .int (← count.items v).length)
        (do return .int (← count.items w).length) := by
      refine (items_alike count hvw).bind fun items items' hitems => ?_
      rw [hitems.length_eq]
      exact .result (.int _)
    cases hvw with
    | string text => exact .result (.int _)
    | _ => exact hlength
  | isEmpty =>
    refine (one_alike halike).bind fun v w hvw => ?_
    refine (items_alike _ hvw).bind fun items items' hitems => ?_
    cases hitems <;> exact .result (.bool _)
  | concat =>
    refine (joined_alike _ h).bind fun items items' hitems => ?_
    exact .result (.list hitems)
  | isNil | isList | isSymbol | isString =>
    exact test_alike halike fun _ _ hvw => by cases hvw <;> rfl
  | isNumber => exact test_alike halike fun _ _ hvw => by rw [hvw.number_eq]
  | isFunction => exact test_alike halike fun _ _ hvw => hvw.isFunction_eq
  | isExpander => exact test_alike halike fun _ _ hvw => hvw.isExpander_eq
  | isError | errorMessage => exact compute_alike_of_takesErrors rfl halike
  | str =>
    rw [compute, compute, displayed_eq halike]
    exact .result (.string _)
  | error =>
    rw [compute, compute, displayed_eq halike]
    exact .result (.error _)

end Operation

end TreeLisp
