import TreeLisp.Proofs.Answers
import TreeLisp.Proofs.ExactValues

/-!
# Equality by content

Equality looks at a value through its content: a number is its exact value, a list the contents of
its items, a callable its identity, and anything else itself. NaN has no content, and neither has a
list with NaN somewhere inside. Two values are equal when they have one content in common, so
equality is symmetric and transitive, and the values that equal themselves are those without NaN.
-/
namespace TreeLisp

/-- What equality sees of a value. -/
inductive Content where
  | nil
  | bool (b : Bool)
  | number (x : Extended)
  | string (text : String)
  | atom (token : Token)
  | list (items : List Content)
  | native (n : Native)
  | sugar (s : Sugar)
  | function (serial : Nat)
  | expander (serial : Nat)
  | error (message : String)

namespace Value

mutual

/-- The content of a value, none if there is NaN in it. -/
def content? : Value → Option Content
  | .nil => some .nil
  | .bool b => some (.bool b)
  | .int n => (Number.int n).value?.map .number
  | .float x => (Number.float x).value?.map .number
  | .string text => some (.string text)
  | .atom token => some (.atom token)
  | .list items => (contents? items).map .list
  | .native n => some (.native n)
  | .sugar s => some (.sugar s)
  | .function serial _ _ => some (.function serial)
  | .expander serial _ _ => some (.expander serial)
  | .error message => some (.error message)

def contents? : List Value → Option (List Content)
  | [] => some []
  | v :: later => do
    let content ← content? v
    let contents ← contents? later
    some (content :: contents)

end

def SameContent (v w : Value) : Prop :=
  ∃ content, v.content? = some content ∧ w.content? = some content

theorem contents?_cons_eq_some {v : Value} {later : List Value} {contents : List Content} :
    contents? (v :: later) = some contents ↔
      ∃ first rest, v.content? = some first ∧ contents? later = some rest ∧
        first :: rest = contents := by
  simp [contents?, Option.bind_eq_some_iff]

mutual

theorem equal_iff_sameContent : (v w : Value) → (v.equal w = true ↔ v.SameContent w)
  | .list items, w => by
    cases w with
    | list others => simp [equal, equalItems_iff items others, SameContent, content?]
    | _ => simp [equal, same, number?, SameContent, content?]
  | .int _, w | .float _, w => by
    cases w <;> simp [equal, same, number?, SameContent, content?, Number.equal_iff_value]
  | .nil, w | .bool _, w | .string _, w | .atom _, w | .native _, w | .sugar _, w
  | .function _ _ _, w | .expander _ _ _, w | .error _, w => by
    cases w <;> simp [equal, same, number?, SameContent, content?] <;> exact eq_comm

theorem equalItems_iff : (vs ws : List Value) → (equalItems vs ws = true ↔
    ∃ contents, contents? vs = some contents ∧ contents? ws = some contents)
  | [], [] => by simp [equalItems, contents?]
  | [], _ :: _ => by
    refine iff_of_false (by simp [equalItems]) ?_
    rintro ⟨contents, hvs, hws⟩
    obtain ⟨first, rest, -, -, rfl⟩ := contents?_cons_eq_some.mp hws
    cases hvs
  | _ :: _, [] => by
    refine iff_of_false (by simp [equalItems]) ?_
    rintro ⟨contents, hvs, hws⟩
    obtain ⟨first, rest, -, -, rfl⟩ := contents?_cons_eq_some.mp hvs
    cases hws
  | v :: vs, w :: ws => by
    rw [equalItems, Bool.and_eq_true, equal_iff_sameContent v w, equalItems_iff vs ws]
    simp only [contents?_cons_eq_some]
    constructor
    · rintro ⟨⟨first, hv, hw⟩, rest, hvs, hws⟩
      exact ⟨first :: rest, ⟨first, rest, hv, hvs, rfl⟩, ⟨first, rest, hw, hws, rfl⟩⟩
    · rintro ⟨_, ⟨first, rest, hv, hvs, rfl⟩, ⟨first', rest', hw, hws, hcontents⟩⟩
      obtain ⟨rfl, rfl⟩ := List.cons.inj hcontents
      exact ⟨⟨first', hv, hw⟩, rest', hvs, hws⟩

end

theorem equal_symm {v w : Value} (h : v.equal w = true) : w.equal v = true := by
  obtain ⟨content, hv, hw⟩ := (equal_iff_sameContent v w).mp h
  exact (equal_iff_sameContent w v).mpr ⟨content, hw, hv⟩

theorem equal_trans {u v w : Value} (huv : u.equal v = true) (hvw : v.equal w = true) :
    u.equal w = true := by
  obtain ⟨content, hu, hv⟩ := (equal_iff_sameContent u v).mp huv
  obtain ⟨content', hv', hw⟩ := (equal_iff_sameContent v w).mp hvw
  obtain rfl : content = content' := Option.some.inj (hv.symm.trans hv')
  exact (equal_iff_sameContent u w).mpr ⟨content, hu, hw⟩

/-- The first value is the second one, or an item of it at some depth of lists. -/
inductive ListedIn : Value → Value → Prop where
  | here (v : Value) : ListedIn v v
  | item {w v : Value} {items : List Value} (hv : v ∈ items) (h : ListedIn w v) :
      ListedIn w (.list items)

/-- There is no NaN in the value, at any depth of lists. -/
def NanFree (v : Value) : Prop :=
  ∀ x, (Value.float x).ListedIn v → Double.exact x ≠ .nan

theorem nanFree_float {x : Float} : (Value.float x).NanFree ↔ Double.exact x ≠ .nan := by
  constructor
  · intro h
    exact h x (.here _)
  · intro hx y hy
    cases hy
    exact hx

theorem nanFree_list {items : List Value} :
    (Value.list items).NanFree ↔ ∀ v ∈ items, v.NanFree := by
  constructor
  · intro h v hv x hx
    exact h x (.item hv hx)
  · intro h x hx
    cases hx with
    | item hv hx => exact h _ hv x hx

mutual

theorem isSome_content_iff : (v : Value) → (v.content?.isSome = true ↔ v.NanFree)
  | .list items => by
    rw [content?, Option.isSome_map, isSome_contents_iff items, nanFree_list]
  | .float x => by
    rw [content?, Option.isSome_map, Number.value?, Double.Exact.isSome_value_iff, nanFree_float]
  | .int _ | .nil | .bool _ | .string _ | .atom _ | .native _ | .sugar _
  | .function _ _ _ | .expander _ _ _ | .error _ => by
    refine iff_of_true rfl fun x hx => ?_
    cases hx

theorem isSome_contents_iff : (items : List Value) →
    ((contents? items).isSome = true ↔ ∀ v ∈ items, v.NanFree)
  | [] => by simp [contents?]
  | v :: later => by
    rw [List.forall_mem_cons, ← isSome_content_iff v, ← isSome_contents_iff later, contents?]
    cases v.content? <;> cases contents? later <;> simp

end

theorem equal_self_iff (v : Value) : v.equal v = true ↔ v.NanFree := by
  rw [equal_iff_sameContent, SameContent, ← isSome_content_iff, Option.isSome_iff_exists]
  simp only [and_self]

theorem equal_numbers_iff (a b : Number) :
    a.toValue.equal b.toValue = true ↔ Number.Related (· = ·) a b := by
  rw [← Number.equal_iff]
  cases a <;> cases b <;> simp [Number.toValue, equal, number?]

end Value

theorem Operation.equal_decides (args : List Value) :
    Operation.equal.Decides args (args.Pairwise fun v w => v.equal w = true) := by
  have htrans (u v w : Value) : u.equal v = true → v.equal w = true → u.equal w = true :=
    Value.equal_trans
  exact ⟨_, rfl, Arithmetic.chained_iff_pairwise htrans args⟩

/-- Equality is symmetric and transitive on all values, and a value equals itself exactly when there
is no NaN in it at any depth of lists. Two numbers are equal exactly when they have one exact value.
So `=`, which compares neighbours, tells whether all its arguments equal each other. -/
theorem equality_between_all :
    (∀ v w : Value, v.equal w = true → w.equal v = true) ∧
      (∀ u v w : Value, u.equal v = true → v.equal w = true → u.equal w = true) ∧
      (∀ v : Value, v.equal v = true ↔ v.NanFree) ∧
      (∀ a b : Number, a.toValue.equal b.toValue = true ↔ Number.Related (· = ·) a b) ∧
      ∀ args : List Value,
        Operation.equal.Decides args (args.Pairwise fun v w => v.equal w = true) :=
  ⟨fun _ _ => Value.equal_symm, fun _ _ _ => Value.equal_trans, Value.equal_self_iff,
    Value.equal_numbers_iff, Operation.equal_decides⟩

/-- Lists that mix integers and doubles at the limit where doubles leave out odd integers, and a
list with NaN, which does not equal itself. -/
theorem equality_between_all_mixed :
    let u : Value := .list [.int 9007199254740992, .float 1]
    let v : Value := .list [.float 9007199254740992, .int 1]
    let w : Value := .list [.int 9007199254740992, .int 1]
    let odd : Value := .list [.int 9007199254740993, .int 1]
    let undefined : Value := .list [.list [.float Double.notANumber]]
    (u.equal v = true ∧ v.equal w = true ∧ u.equal w = true ∧ w.equal u = true) ∧
      (v.NanFree ∧ Operation.equal.Affirms [u, v, w]) ∧
      ¬ Operation.equal.Affirms [u, v, odd] ∧
      (¬ undefined.NanFree ∧ ¬ undefined.equal undefined = true) := by
  intro u v w odd undefined
  obtain ⟨hsymm, htrans, hself, -, hall⟩ := equality_between_all
  have huv : u.equal v = true := by decide +kernel
  have hvw : v.equal w = true := by decide +kernel
  have huw : u.equal w = true := htrans u v w huv hvw
  have hodd : ¬ v.equal odd = true := by decide +kernel
  have hnan : ¬ undefined.NanFree := by
    intro h
    exact h Double.notANumber (.item (.head _) (.item (.head _) (.here _))) (by decide)
  have hself' : ¬ undefined.equal undefined = true := fun h => hnan ((hself undefined).mp h)
  refine ⟨⟨huv, hvw, huw, hsymm u w huw⟩, ⟨?_, ?_⟩, ?_, hnan, hself'⟩
  · exact (hself v).mp (htrans v w v hvw (hsymm v w hvw))
  · rw [(hall [u, v, w]).affirms_iff]
    simp [huv, hvw, huw]
  · rw [(hall [u, v, odd]).affirms_iff]
    simp [hodd]

end TreeLisp
