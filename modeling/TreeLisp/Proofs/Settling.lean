import TreeLisp.Proofs.IntegerLiterals
import TreeLisp.Proofs.IntegerRange

/-!
# Operations behind their checks

Some steps of the operations do not work on everything: taking apart a list of arguments, taking the
item at a position, dividing, meeting a double with an integer, and turning digits into a number.
Each of them has its fault, and each comes behind a check of an earlier step. With as many arguments
as an operation takes, and with integers that fit 64 bits, a computation therefore settles: it comes
to a result or to a problem. Literals have one fault left, which takes a letter outside ASCII.
-/
namespace TreeLisp

variable {α β : Type}

/-- A computation comes to a result with the property or to a problem, and not to a fault. -/
def Compute.Settles (c : Compute α) (post : α → Prop) : Prop :=
  (∃ a, c = pure a ∧ post a) ∨ ∃ p, c = throw p

namespace Compute.Settles

variable {post : α → Prop} {post' : β → Prop} {c : Compute α}

theorem result {a : α} (h : post a) : Settles (pure a) post := .inl ⟨a, rfl, h⟩

theorem problem (p : Problem) : Settles (throw p) post := .inr ⟨p, rfl⟩

theorem bind {k : α → Compute β} (hc : c.Settles post) (hk : ∀ a, post a → (k a).Settles post') :
    (c >>= k).Settles post' := by
  rcases hc with ⟨a, rfl, ha⟩ | ⟨p, rfl⟩
  · exact hk a ha
  · exact problem p

theorem weaken (hc : c.Settles post) : c.Settles fun _ => True :=
  hc.imp_left fun ⟨a, ha, _⟩ => ⟨a, ha, trivial⟩

theorem run_ne_error (hc : c.Settles post) (f : Fault) : c.run ≠ .error f := by
  rcases hc with ⟨a, rfl, -⟩ | ⟨p, rfl⟩
  · exact nofun
  · exact nofun

/-- What holds after a number of steps may depend on that number. -/
theorem foldlM (inv : Nat → α → Prop) {f : α → β → Compute α} {bs : List β} {limit count : Nat}
    {a : α} (hf : ∀ k a, k < limit → inv k a → ∀ b ∈ bs, (f a b).Settles (inv (k + 1)))
    (hlimit : count + bs.length ≤ limit) (ha : inv count a) :
    (bs.foldlM f a).Settles fun _ => True := by
  induction bs generalizing a count with
  | nil => exact result trivial
  | cons b bs ih =>
    have hlength : count + (bs.length + 1) ≤ limit := hlimit
    refine (hf count a (by omega) ha b List.mem_cons_self).bind fun a' ha' => ?_
    refine ih (fun k a hk hinv b hb => hf k a hk hinv b (List.mem_cons_of_mem _ hb)) ?_ ha'
    omega

end Compute.Settles

/-- The absolute value of the least integer. -/
def wordSize : Nat := Nat.pow 2 63

namespace Number

/-- An integer is at most this far from zero. Every double is. -/
def Within (size : Nat) : Number → Prop
  | int n => n.natAbs ≤ size
  | float _ => True

theorem exists_toFloat {x : Number} {size : Nat} (h : x.Within size) (hsize : size < floatLimit) :
    ∃ y, x.toFloat? = some y := by
  cases x with
  | int n =>
    have hn : n.natAbs < floatLimit := Nat.lt_of_le_of_lt h hsize
    refine ⟨Float.ofInt n, ?_⟩
    rw [toFloat?, if_pos hn]
  | float y => exact ⟨y, rfl⟩

theorem exists_combine {onInts : Int → Int → Int} {onFloats : Float → Float → Float}
    {a b : Number} {size size' bound : Nat} (ha : a.Within size) (hb : b.Within size')
    (hsize : size < floatLimit) (hsize' : size' < floatLimit)
    (hints : ∀ m n : Int, m.natAbs ≤ size → n.natAbs ≤ size' → (onInts m n).natAbs ≤ bound) :
    ∃ c, combine? onInts onFloats a b = some c ∧ c.Within bound := by
  obtain ⟨x, hx⟩ := exists_toFloat ha hsize
  obtain ⟨y, hy⟩ := exists_toFloat hb hsize'
  have hfloats : ∃ c, (do some (float (onFloats (← a.toFloat?) (← b.toFloat?)))) = some c ∧
      c.Within bound := ⟨float (onFloats x y), by rw [hx, hy]; rfl, trivial⟩
  cases a with
  | int m =>
    cases b with
    | int n => exact ⟨int (onInts m n), rfl, hints m n ha hb⟩
    | float _ => exact hfloats
  | float _ => exact hfloats

theorem within_of_inRange {x : Number} (h : x.inRange = true) : x.Within wordSize := by
  cases x with
  | int n =>
    simp only [inRange, Bool.and_eq_true, decide_eq_true_eq] at h
    have hleast : leastInt = -2 ^ 63 := rfl
    have hgreatest : greatestInt = 2 ^ 63 - 1 := rfl
    change n.natAbs ≤ 2 ^ 63
    omega
  | float _ => trivial

/-- So many integers of 64 bits can be added and the sum still meet a double. -/
theorem mul_wordSize_lt_floatLimit {count : Nat} (h : count ≤ wordSize) :
    count * wordSize < floatLimit := by
  have hsquare : wordSize * wordSize < floatLimit := by decide +kernel
  exact Nat.lt_of_le_of_lt (Nat.mul_le_mul_right wordSize h) hsquare

end Number

theorem Value.within_of_number {v : Value} {x : Number} (h : v.number? = some x)
    (hv : v.FitsWord) : x.Within wordSize := by
  cases v with
  | int n =>
    cases h
    apply Number.within_of_inRange
    simp only [Number.inRange, Bool.and_eq_true, decide_eq_true_eq]
    exact hv
  | float _ =>
    cases h
    trivial
  | _ => cases h

namespace Arithmetic

open Number

variable {xs : List Number}

theorem numbers_settles (op : Operation) {args : List Value} (hargs : ∀ v ∈ args, v.FitsWord) :
    (numbers op args).Settles fun xs => xs.length = args.length ∧ ∀ x ∈ xs, x.Within wordSize := by
  induction args with
  | nil => exact .result ⟨rfl, fun _ hx => absurd hx List.not_mem_nil⟩
  | cons v rest ih =>
    rw [numbers]
    split
    · exact .problem _
    · next x hx =>
      have hwithin : x.Within wordSize := v.within_of_number hx (hargs v List.mem_cons_self)
      refine (ih fun w hw => hargs w (List.mem_cons_of_mem v hw)).bind fun xs hxs => ?_
      refine .result ⟨?_, List.forall_mem_cons.mpr ⟨hwithin, hxs.2⟩⟩
      rw [List.length_cons, List.length_cons, hxs.1]

theorem combined_settles {result : Option Number} {post : Number → Prop}
    (h : ∃ x, result = some x ∧ post x) : (combined result).Settles post := by
  obtain ⟨x, rfl, hx⟩ := h
  exact .result hx

theorem checked_settles (x : Number) : (checked x).Settles fun y => y.Within wordSize := by
  unfold checked
  split
  · next hx => exact .result (within_of_inRange hx)
  · exact .problem _

theorem wordSize_lt_floatLimit : wordSize < floatLimit := by decide +kernel

-- After k numbers, an integer is at most k times as far from zero as each of them may be.
theorem accumulated_settles {onInts : Int → Int → Int} {onFloats : Float → Float → Float}
    (hints : ∀ m n : Int, (onInts m n).natAbs ≤ m.natAbs + n.natAbs) {start : Number} {count : Nat}
    (hstart : start.Within (count * wordSize)) (hxs : ∀ x ∈ xs, x.Within wordSize)
    (hlength : count + xs.length ≤ wordSize) :
    (xs.foldlM (fun acc x => combined (combine? onInts onFloats acc x)) start).Settles
      fun _ => True := by
  refine Compute.Settles.foldlM (fun k y => y.Within (k * wordSize))
    (fun k acc hk hacc x hx => ?_) hlength hstart
  apply combined_settles
  refine exists_combine hacc (hxs x hx) (mul_wordSize_lt_floatLimit (Nat.le_of_lt hk))
    wordSize_lt_floatLimit fun m n hm hn => ?_
  have hsize := hints m n
  rw [Nat.succ_mul]
  omega

theorem sum_settles (hxs : ∀ x ∈ xs, x.Within wordSize) (hlength : xs.length ≤ wordSize) :
    (sum xs).Settles fun _ => True := by
  have hzero : (Number.int 0).Within (0 * wordSize) := Nat.zero_le _
  have hcount : 0 + xs.length ≤ wordSize := by omega
  have hfold : (xs.foldlM (fun acc x => combined (acc.add? x)) (.int 0)).Settles fun _ => True :=
    accumulated_settles Int.natAbs_add_le hzero hxs hcount
  exact hfold.bind fun y _ => (checked_settles y).weaken

theorem difference_settles (hxs : ∀ x ∈ xs, x.Within wordSize) (hlength : xs.length ≤ wordSize)
    (hne : xs ≠ []) : (difference xs).Settles fun _ => True := by
  match xs with
  | [] => exact absurd rfl hne
  | [x] => exact (checked_settles _).weaken
  | x :: y :: rest =>
    obtain ⟨hx, hrest⟩ := List.forall_mem_cons.mp hxs
    have hone : x.Within (1 * wordSize) := by rwa [Nat.one_mul]
    have hcount : 1 + (y :: rest).length ≤ wordSize := by
      rw [Nat.add_comm]
      exact hlength
    have hfold : ((y :: rest).foldlM (fun acc z => combined (acc.sub? z)) x).Settles
        fun _ => True :=
      accumulated_settles Int.natAbs_sub_le hone hrest hcount
    exact hfold.bind fun y _ => (checked_settles y).weaken

theorem product_settles (hxs : ∀ x ∈ xs, x.Within wordSize) :
    (product xs).Settles fun _ => True := by
  have hone : (Number.int 1).Within wordSize := Nat.one_le_two_pow
  refine Compute.Settles.foldlM (fun _ y => y.Within wordSize)
    (fun _ acc _ hacc x hx => ?_) (Nat.le_of_eq (Nat.zero_add _)) hone
  have hproduct : ∃ y, acc.mul? x = some y ∧ y.Within (wordSize * wordSize) := by
    refine exists_combine hacc (hxs x hx) wordSize_lt_floatLimit wordSize_lt_floatLimit
      fun m n hm hn => ?_
    rw [Int.natAbs_mul]
    exact Nat.mul_le_mul hm hn
  exact (combined_settles hproduct).bind fun y _ => checked_settles y

theorem divideBy_settles {acc x : Number} (hacc : acc.Within wordSize) (hx : x.Within wordSize) :
    (divideBy acc x).Settles fun y => y.Within wordSize := by
  unfold divideBy
  by_cases hzero : x.isZero = true
  · rw [if_pos hzero]
    exact .problem _
  · rw [if_neg hzero, divided, if_neg hzero]
    apply combined_settles
    refine exists_combine hacc hx wordSize_lt_floatLimit wordSize_lt_floatLimit fun m n hm _ => ?_
    rw [Int.natAbs_tdiv]
    exact Nat.le_trans (Nat.div_le_self _ _) hm

theorem quotient_settles (hxs : ∀ x ∈ xs, x.Within wordSize) (hne : xs ≠ []) :
    (quotient xs).Settles fun _ => True := by
  match xs with
  | [] => exact absurd rfl hne
  | [x] =>
    have hone : (Number.int 1).Within wordSize := Nat.one_le_two_pow
    have hdivided := divideBy_settles hone (hxs x List.mem_cons_self)
    exact hdivided.bind fun y _ => (checked_settles y).weaken
  | x :: y :: rest =>
    obtain ⟨hx, hrest⟩ := List.forall_mem_cons.mp hxs
    have hfold : ((y :: rest).foldlM divideBy x).Settles fun _ => True := by
      refine Compute.Settles.foldlM (fun _ w => w.Within wordSize)
        (fun _ _ _ hacc z hz => ?_) (Nat.le_of_eq (Nat.zero_add _)) hx
      exact divideBy_settles hacc (hrest z hz)
    exact hfold.bind fun y _ => (checked_settles y).weaken

theorem remainder_settles (n d : Value) : (remainder n d).Settles fun _ => True := by
  unfold remainder
  split
  · next n d =>
    by_cases hzero : d = 0
    · rw [if_pos hzero]
      exact .problem _
    · rw [if_neg hzero, modulo, if_neg hzero]
      exact .result trivial
  · exact .problem _

end Arithmetic

theorem Slice.exists_item {items : List α} {i : Int} (hi : 0 ≤ i) (hlength : i < items.length)
    (hword : Slice.fitsWord i = true) :
    ∃ a, items[i.toNat]? = some a ∧ Slice.item items i = .ok a := by
  have hlt : i.toNat < items.length := by omega
  have hnonneg : ¬ i < 0 := by omega
  refine ⟨items[i.toNat], List.getElem?_eq_getElem hlt, ?_⟩
  simp only [Slice.item, hword, if_neg hnonneg, List.getElem?_eq_getElem hlt, Bool.not_true,
    Bool.false_eq_true, if_false]

namespace Operation

variable {args : List Value}

theorem one_settles (h : args.length = 1) : (one args).Settles fun v => v ∈ args := by
  obtain ⟨v, rfl⟩ := List.length_eq_one_iff.mp h
  exact .result List.mem_cons_self

theorem two_settles (h : args.length = 2) :
    (two args).Settles fun p => p.1 ∈ args ∧ p.2 ∈ args := by
  obtain ⟨v, w, rfl⟩ := List.length_eq_two.mp h
  exact .result ⟨by simp, by simp⟩

theorem items_settles (op : Operation) (v : Value) : (op.items v).Settles fun _ => True := by
  cases v with
  | nil => exact .result trivial
  | list items => exact .result trivial
  | _ => exact .problem _

theorem joined_settles (op : Operation) (args : List Value) :
    (op.joined args).Settles fun _ => True := by
  induction args with
  | nil => exact .result trivial
  | cons v others ih =>
    exact (op.items_settles v).bind fun _ _ => ih.bind fun _ _ => .result trivial

theorem test_settles (h : args.length = 1) (holds : Value → Bool) :
    (test args holds).Settles fun _ => True :=
  (one_settles h).bind fun _ _ => .result trivial

theorem nthItem_settles {sequence index : Value} {xs : List Value} (h : index.FitsWord) :
    (nthItem sequence index xs).Settles fun _ => True := by
  unfold nthItem
  split
  · next i =>
    by_cases hbounds : 0 ≤ i ∧ i < xs.length
    · have hword : Slice.fitsWord i = true := by
        have hleast : Number.leastInt = -Int.pow 2 63 := rfl
        have hgreatest : Number.greatestInt = Int.pow 2 63 - 1 := rfl
        obtain ⟨hlow, hhigh⟩ := h
        simp only [Slice.fitsWord, decide_eq_true_eq]
        omega
      obtain ⟨v, -, hv⟩ := Slice.exists_item hbounds.1 hbounds.2 hword
      rw [if_pos hbounds, itemAt, hv]
      exact .result trivial
    · rw [if_neg hbounds]
      exact .problem _
  · exact .problem _

section Numeric

variable (op : Operation) (hargs : ∀ v ∈ args, v.FitsWord)
include hargs

theorem arithmetic_settles {f : List Number → Compute Number}
    (hf : ∀ xs : List Number, xs.length = args.length → (∀ x ∈ xs, x.Within wordSize) →
      (f xs).Settles fun _ => True) : (op.arithmetic f args).Settles fun _ => True :=
  (Arithmetic.numbers_settles op hargs).bind fun xs hxs =>
    (hf xs hxs.1 hxs.2).bind fun _ _ => .result trivial

theorem comparison_settles (related : Number → Number → Bool) :
    (op.comparison related args).Settles fun _ => True :=
  (Arithmetic.numbers_settles op hargs).bind fun _ _ => .result trivial

end Numeric

/-- With as many arguments as it takes, an operation on integers of 64 bits does not fault. -/
theorem compute_settles (op : Operation) {call : List Value}
    (harity : op.arity.problem? op.name call = none) (hlength : args.length = call.tail.length)
    (hcount : args.length ≤ wordSize) (hargs : ∀ v ∈ args, v.FitsWord) :
    (op.compute args).Settles fun _ => True := by
  have hexactly {count : Nat} (h : (Arity.exactly count).problem? op.name call = none) :
      args.length = count := by
    have hcall := length_of_exactly h
    rw [hlength, List.length_tail]
    omega
  have hnonempty {xs : List Number} (h : (Arity.atLeast 1).problem? op.name call = none)
      (hxs : xs.length = args.length) : xs ≠ [] := by
    obtain ⟨v, vs, hcall⟩ := tail_of_atLeast_one h
    rw [hlength, hcall] at hxs
    exact List.ne_nil_of_length_eq_add_one hxs
  cases op with
  | add =>
    exact arithmetic_settles _ hargs fun xs hlen hxs =>
      Arithmetic.sum_settles hxs (by omega)
  | sub =>
    exact arithmetic_settles _ hargs fun xs hlen hxs =>
      Arithmetic.difference_settles hxs (by omega) (hnonempty harity hlen)
  | mul => exact arithmetic_settles _ hargs fun xs _ hxs => Arithmetic.product_settles hxs
  | div =>
    exact arithmetic_settles _ hargs fun xs hlen hxs =>
      Arithmetic.quotient_settles hxs (hnonempty harity hlen)
  | mod =>
    exact (two_settles (hexactly harity)).bind fun p _ => Arithmetic.remainder_settles p.1 p.2
  | less | lessEqual | greater | greaterEqual => exact comparison_settles _ hargs _
  | cons =>
    refine (two_settles (hexactly harity)).bind fun p _ => ?_
    exact (items_settles _ p.2).bind fun _ _ => .result trivial
  | first | rest | isEmpty =>
    refine (one_settles (hexactly harity)).bind fun v _ => ?_
    exact (items_settles _ v).bind fun _ _ => .result trivial
  | nth =>
    refine (two_settles (hexactly harity)).bind fun p hp => ?_
    exact (items_settles _ p.1).bind fun _ _ => nthItem_settles (hargs p.2 hp.2)
  | count =>
    refine (one_settles (hexactly harity)).bind fun v _ => ?_
    cases v with
    | string text => exact .result trivial
    | _ => exact (items_settles _ _).bind fun _ _ => .result trivial
  | concat => exact (joined_settles _ args).bind fun _ _ => .result trivial
  | not | isNil | isList | isSymbol | isString | isNumber | isFunction | isExpander | isError =>
    exact test_settles (hexactly harity) _
  | errorMessage =>
    refine (one_settles (hexactly harity)).bind fun v _ => ?_
    cases v with
    | error message => exact .result trivial
    | _ => exact .problem _
  | equal | list | str | error => exact .result trivial

end Operation

namespace Params

/-- Read the parameters from a position on, item by item. The item behind an ampersand is looked at
only if it is the last one. -/
def ofPositions (items : List Value) (i : Nat) : Compute Params :=
  if i < items.length then do
    let item ← Operation.itemAt items i
    match item.name? with
    | none => throw (.paramNotName item)
    | some name =>
      if name = restMarker then
        if i + 2 = items.length then do
          match ← Operation.itemAt items (i + 1 : Nat) with
          | .atom token => pure ⟨[], some token.text⟩
          | _ => throw .restNotLast
        else throw .restNotLast
      else do
        let later ← ofPositions items (i + 1)
        pure ⟨name :: later.names, later.rest⟩
  else pure ⟨[], none⟩
termination_by items.length - i

theorem itemAt_eq_pure {items : List Value} (hitems : items.length ≤ Number.greatestInt) {i : Nat}
    (hi : i < items.length) : Operation.itemAt items i = pure items[i] := by
  have hword : Slice.fitsWord i = true := by
    have hgreatest : Number.greatestInt = Int.pow 2 63 - 1 := rfl
    simp only [Slice.fitsWord, decide_eq_true_eq]
    omega
  obtain ⟨v, hv, hitem⟩ := Slice.exists_item (Int.natCast_nonneg i) (Int.ofNat_lt.mpr hi) hword
  rw [Int.toNat_natCast, List.getElem?_eq_getElem hi] at hv
  rw [Operation.itemAt, hitem, Option.some.inj hv]

/-- No position is looked at that the list does not have. -/
theorem ofPositions_eq {items : List Value} (hitems : items.length ≤ Number.greatestInt) (i : Nat) :
    ofPositions items i = ExceptT.mk (pure (ofItems (items.drop i))) := by
  induction i using ofPositions.induct items with
  | case1 i hi ih =>
    rw [ofPositions, if_pos hi, itemAt_eq_pure hitems hi, pure_bind, List.drop_eq_getElem_cons hi]
    unfold ofItems
    cases items[i].name? with
    | none => rfl
    | some name =>
      by_cases hmarker : name = restMarker
      · simp only [if_pos hmarker]
        by_cases hlast : i + 2 = items.length
        · have hnext : i + 1 < items.length := by omega
          have hend : items.drop (i + 1 + 1) = [] := List.drop_eq_nil_of_le (by omega)
          rw [if_pos hlast, itemAt_eq_pure hitems hnext, pure_bind,
            List.drop_eq_getElem_cons hnext, hend]
          cases items[i + 1] <;> rfl
        · have hlength : (items.drop (i + 1)).length ≠ 1 := by
            rw [List.length_drop]
            omega
          rw [if_neg hlast]
          split
          · next token hlater => exact absurd (congrArg List.length hlater) hlength
          · rfl
      · simp only [if_neg hmarker, ih]
        cases ofItems (items.drop (i + 1)) <;> rfl
  | case2 i hi =>
    have hend : items.drop i = [] := List.drop_eq_nil_of_le (by omega)
    rw [ofPositions, if_neg hi, hend]
    rfl

end Params

namespace Literal

theorem integer_ne_error (text : List Char) (f : Fault) : integer? text ≠ .error f := by
  rw [integer_eq]
  exact nofun

theorem mem_of_mem_splitSign {text : List Char} {c : Char} (h : c ∈ (Text.splitSign text).2) :
    c ∈ text := by
  unfold Text.splitSign at h
  split at h
  · exact List.mem_cons_of_mem _ h
  · exact List.mem_cons_of_mem _ h
  · exact h

theorem letter_of_spellsNumeral {text : List Char} (hspells : spellsNumeral text = true)
    (hnone : Double.ofNumeral? text = none) : 'ı' ∈ text ∨ 'İ' ∈ text := by
  by_contra hletters
  obtain ⟨hdotless, hdotted⟩ := not_or.mp hletters
  have hfold : ∀ c ∈ (Text.splitSign text).2, foldLetter c = c := by
    intro c hc
    apply if_neg
    rintro (rfl | rfl)
    · exact hdotless (mem_of_mem_splitSign hc)
    · exact hdotted (mem_of_mem_splitSign hc)
  rw [spellsNumeral, List.map_congr_left hfold, List.map_id', Option.isSome_iff_exists] at hspells
  obtain ⟨x, hx⟩ := hspells
  unfold Double.ofNumeral? at hnone
  rw [Option.map_eq_none_iff] at hnone
  split at hnone
  · cases hnone
  · rw [hx] at hnone
    cases hnone

theorem letter_of_read_error {text : String} {f : Fault} (h : read text = .error f) :
    f = .numeral text ∧ ('ı' ∈ text.toList ∨ 'İ' ∈ text.toList) := by
  unfold read at h
  dsimp only at h
  repeat' split at h
  all_goals try cases h
  · next hinteger => exact absurd hinteger (integer_ne_error _ _)
  · next hnone hspells => exact ⟨rfl, letter_of_spellsNumeral hspells hnone⟩

end Literal

end TreeLisp
