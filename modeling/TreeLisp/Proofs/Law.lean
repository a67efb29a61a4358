import TreeLisp.Proofs.Frames
import TreeLisp.Proofs.Occurrence
import TreeLisp.Proofs.Run

/-!
# Laws of evaluation

A law is a condition on all values that evaluations come to, wherever they occur, together with the
faults that may come up. It may rely on a limit to the length of lists and strings. A run ensures a
law when it leads from a store that is lawful throughout to another one.

A law is sound when everything that evaluations make of lawful parts is lawful: literals, what the
operations compute, and callables.
-/
namespace TreeLisp

variable {α β : Type}

namespace Store.Throughout

variable {p : Value → Prop} {s : Store} {i : FrameId} {name : String} {v : Value}

theorem get (h : s.Throughout p) (hget : s.get? i name = some v) : v.Throughout p := by
  obtain ⟨j, frame, -, hframe, hb⟩ :=
    @Store.exists_binding s (fun _ => True) (fun _ _ _ _ _ _ => trivial) i trivial name v hget
  exact h.frames j frame hframe _ hb

theorem set (h : s.Throughout p) (hv : v.Throughout p) : (s.set i name v).Throughout p where
  frames j frame hframe := by
    obtain ⟨old, hold, -, hbindings⟩ := Store.getElem?_set hframe
    intro b hb
    rw [hbindings] at hb
    split at hb
    · rcases Bindings.mem_insert hb with rfl | hb
      · exact hv
      · exact h.frames j old hold b hb
    · exact h.frames j old hold b hb
  journal := h.journal

theorem addFrame (h : s.Throughout p) (parent : Option FrameId) {bindings : Bindings}
    (hbindings : bindings.Throughout p) : (s.addFrame parent bindings).2.Throughout p where
  frames j frame hframe := by
    rcases Store.getElem?_addFrame_cases hframe with hold | ⟨-, rfl⟩
    · exact h.frames j frame hold
    · exact hbindings
  journal := h.journal

theorem addRecord (h : s.Throughout p) {r : Record} (hr : r.Throughout p) :
    (s.addRecord r).Throughout p where
  frames := h.frames
  journal r' hr' := by
    rcases Array.mem_push.mp hr' with hold | rfl
    · exact h.journal r' hold
    · exact hr

theorem imp {q : Value → Prop} (h : s.Throughout p) (hpq : ∀ w, p w → q w) : s.Throughout q where
  frames i frame hframe b hb := (h.frames i frame hframe b hb).imp hpq
  journal r hr := by
    have hrecord := h.journal r hr
    cases r with
    | expanding name call => exact fun v hv => (hrecord v hv).imp hpq
    | preludeFailed v => exact Value.Throughout.imp hpq hrecord
    | _ => trivial

end Store.Throughout

theorem Bindings.Throughout.insert {p : Value → Prop} {bindings : Bindings}
    (h : bindings.Throughout p) (name : String) {v : Value} (hv : v.Throughout p) :
    (bindings.insert name v).Throughout p := by
  intro b hb
  rcases Bindings.mem_insert hb with rfl | hb
  · exact hv
  · exact h b hb

section Arity

variable {name : String} {call : List Value}

theorem call_of_atLeast_one (h : (Arity.atLeast 1).problem? name call = none) :
    ∃ head v rest, call = head :: v :: rest := by
  have hcount : ¬ argumentCount call < 1 := by simpa [Arity.problem?] using h
  unfold argumentCount at hcount
  match call with
  | [] | [_] => simp at hcount
  | head :: v :: rest => exact ⟨head, v, rest, rfl⟩

theorem call_of_atLeast_two (h : (Arity.atLeast 2).problem? name call = none) :
    ∃ head v w rest, call = head :: v :: w :: rest := by
  have hcount : ¬ argumentCount call < 2 := by simpa [Arity.problem?] using h
  unfold argumentCount at hcount
  match call with
  | [] | [_] | [_, _] => simp at hcount
  | head :: v :: w :: rest => exact ⟨head, v, w, rest, rfl⟩

end Arity

theorem Slice.mem_of_item {items : List α} {position : Int} {a : α}
    (h : Slice.item items position = .ok a) : a ∈ items := by
  unfold Slice.item at h
  generalize (if position < 0 then position + (items.length : Int) else position) = i at h
  dsimp only at h
  split at h
  · cases h
  · split at h
    · cases h
    · split at h
      · next hitem =>
        cases h
        exact List.mem_of_getElem? hitem
      · cases h

theorem Literal.inRange_of_integer {text : List Char} {n : Int}
    (h : Literal.integer? text = .ok (some n)) : (Number.int n).inRange = true := by
  unfold Literal.integer? at h
  dsimp only at h
  split at h
  · split at h
    · cases h
    · next magnitude _ =>
      obtain ⟨hrange, heq⟩ := Option.ite_none_right_eq_some.mp (Except.ok.inj h)
      exact Option.some.inj heq ▸ hrange
  · cases h

def Compute.Yields (c : Compute α) (post : α → Prop) : Prop :=
  ∀ a, c.run = .ok (.ok a) → post a

namespace Compute

theorem yields_any {c : Compute α} : c.Yields fun _ => True := fun _ _ => trivial

namespace Yields

variable {post : α → Prop} {post' : β → Prop}

theorem result {a : α} (h : post a) : Yields (pure a) post := by
  rintro _ ⟨⟩
  exact h

theorem problem (p : Problem) : Yields (throw p) post := nofun

theorem fault (f : Fault) : Yields (throw f : Except Fault α) post := nofun

theorem bind {c : Compute α} {k : α → Compute β} (hc : c.Yields post)
    (hk : ∀ a, post a → (k a).Yields post') : (c >>= k).Yields post' := by
  match c, hc with
  | .ok (.ok a), hc => exact hk a (hc a rfl)
  | .ok (.error p), _ => exact problem p
  | .error f, _ => exact fault f

theorem foldlM {f : α → β → Compute α} (hf : ∀ a b, post a → (f a b).Yields post) {a : α}
    (ha : post a) (bs : List β) : (bs.foldlM f a).Yields post := by
  induction bs generalizing a with
  | nil => exact result ha
  | cons b bs ih => exact (hf a b ha).bind fun _ ha' => ih ha'

end Yields

end Compute

namespace Arithmetic

theorem checked_inRange (x : Number) : (checked x).Yields fun y => y.inRange = true := by
  unfold checked
  split
  · next hx => exact .result hx
  · exact .problem _

theorem sum_inRange (xs : List Number) : (sum xs).Yields fun y => y.inRange = true :=
  Compute.yields_any.bind fun _ _ => checked_inRange _

theorem difference_inRange (xs : List Number) :
    (difference xs).Yields fun y => y.inRange = true := by
  unfold difference
  split
  · exact .fault _
  · exact checked_inRange _
  · exact Compute.yields_any.bind fun _ _ => checked_inRange _

/-- A product is in range before each factor, so it is in range when there is none left. -/
theorem product_inRange (xs : List Number) : (product xs).Yields fun y => y.inRange = true :=
  .foldlM (fun _ _ _ => Compute.yields_any.bind fun _ _ => checked_inRange _) (by decide) xs

theorem quotient_inRange (xs : List Number) : (quotient xs).Yields fun y => y.inRange = true := by
  unfold quotient
  split
  · exact .fault _
  · exact Compute.yields_any.bind fun _ _ => checked_inRange _
  · exact Compute.yields_any.bind fun _ _ => checked_inRange _

end Arithmetic

namespace Operation

variable {p : Value → Prop} {vs : List Value}

theorem one_yields (h : ∀ v ∈ vs, p v) : (one vs).Yields p := by
  unfold one
  split
  · exact .result (h _ List.mem_cons_self)
  · exact .fault _

theorem two_yields (h : ∀ v ∈ vs, p v) : (two vs).Yields fun a => p a.1 ∧ p a.2 := by
  unfold two
  split
  · exact .result ⟨h _ (by simp), h _ (by simp)⟩
  · exact .fault _

end Operation

def Value.extent : Value → Nat
  | .list items => items.length
  | .string text => text.length
  | _ => 0

structure Law where
  /-- What holds of a value. What is inside of the value does not count. -/
  value : Value → Prop
  /-- The numbers of elements that a list or a string may have. -/
  room : Nat → Prop
  /-- The faults that may come up. -/
  fault : Fault → Prop

namespace Law

variable {L : Law} {v w : Value} {vs ws : List Value}

def Lawful (L : Law) (v : Value) : Prop :=
  v.Throughout L.value

def AllLawful (L : Law) (vs : List Value) : Prop :=
  ∀ v ∈ vs, L.Lawful v

/-- What the law says of the value of an evaluation. -/
structure Given (L : Law) (v : Value) : Prop where
  lawful : L.Lawful v
  room : L.room v.extent

theorem AllLawful.nil : L.AllLawful [] := fun _ hv => absurd hv List.not_mem_nil

theorem AllLawful.cons (hv : L.Lawful v) (hvs : L.AllLawful vs) : L.AllLawful (v :: vs) :=
  List.forall_mem_cons.mpr ⟨hv, hvs⟩

theorem AllLawful.head (h : L.AllLawful (v :: vs)) : L.Lawful v :=
  h v List.mem_cons_self

theorem AllLawful.of_cons (h : L.AllLawful (v :: vs)) : L.AllLawful vs :=
  fun w hw => h w (List.mem_cons_of_mem v hw)

theorem AllLawful.append (hvs : L.AllLawful vs) (hws : L.AllLawful ws) : L.AllLawful (vs ++ ws) :=
  List.forall_mem_append.mpr ⟨hvs, hws⟩

theorem AllLawful.tail (h : L.AllLawful vs) : L.AllLawful vs.tail :=
  fun v hv => h v (List.mem_of_mem_tail hv)

theorem AllLawful.drop (h : L.AllLawful vs) (n : Nat) : L.AllLawful (vs.drop n) :=
  fun v hv => h v (List.mem_of_mem_drop hv)

theorem AllLawful.bindPositional {names : List String} (h : L.AllLawful vs) {bindings : Bindings}
    (hbindings : bindings.Throughout L.value) :
    (Closure.bindPositional names vs bindings).Throughout L.value := by
  induction names generalizing vs bindings with
  | nil => exact hbindings
  | cons name names ih =>
    cases vs with
    | nil => exact hbindings
    | cons v vs => exact ih h.of_cons (hbindings.insert name h.head)

theorem Lawful.items (h : L.Lawful (.list vs)) : L.AllLawful vs :=
  (Value.throughout_list.mp h).2

theorem Lawful.functionBody {serial : Nat} {name : String} {c : Closure Value}
    (h : L.Lawful (.function serial name c)) : L.AllLawful c.body :=
  (Value.throughout_function.mp h).2

theorem Lawful.expanderBody {serial : Nat} {name : String} {c : Closure Value}
    (h : L.Lawful (.expander serial name c)) : L.AllLawful c.body :=
  (Value.throughout_expander.mp h).2

theorem items_yields (op : Operation) (h : L.Lawful v) : (op.items v).Yields L.AllLawful := by
  intro items hitems
  cases v with
  | nil =>
    cases hitems
    exact .nil
  | list =>
    cases hitems
    exact h.items
  | _ => cases hitems

theorem joined_yields (op : Operation) (h : L.AllLawful vs) :
    (op.joined vs).Yields L.AllLawful := by
  induction vs with
  | nil => exact .result .nil
  | cons v vs ih =>
    refine (items_yields op h.head).bind fun front hfront => ?_
    exact (ih h.of_cons).bind fun back hback => .result (hfront.append hback)

theorem nthItem_yields {sequence index : Value} (h : L.AllLawful vs) :
    (Operation.nthItem sequence index vs).Yields L.Lawful := by
  unfold Operation.nthItem
  split
  · next i =>
    split
    · unfold Operation.itemAt
      split
      · next v hv => exact .result (h v (Slice.mem_of_item hv))
      · exact .fault _
    · exact .problem _
  · exact .problem _

/-- What evaluations make of lawful parts is lawful, and the faults they come to are allowed. -/
structure Sound (L : Law) : Prop where
  /-- The law says something about integers and about callables of the program only. -/
  ordinary {v : Value} (hint : ∀ n, v ≠ .int n) (hclosure : v.closure? = none) : L.value v
  int {n : Int} (h : (Number.int n).inRange = true) : L.value (.int n)
  remainder {n : Int} (h : L.value (.int n)) (d : Int) : L.value (.int (n.tmod d))
  count {n : Nat} (h : L.room n) : L.value (.int n)
  function (serial : Nat) {c : Closure Value} (h : c.name = anonymous) :
    L.value (.function serial anonymous c)
  expander (serial : Nat) {c : Closure Value} (h : c.name = anonymous) :
    L.value (.expander serial anonymous c)
  renamedFunction (serial : Nat) (c : Closure Value) (name : String) :
    L.value (.function serial name (c.renamed name))
  renamedExpander (serial : Nat) (c : Closure Value) (name : String) :
    L.value (.expander serial name (c.renamed name))
  /-- The call lists of traversals are this short. -/
  few {n : Nat} (h : n ≤ 3) : L.room n
  nesting : L.fault .nesting
  literal {text : String} {f : Fault} (h : Literal.read text = .error f) : L.fault f
  /-- An operation is called with so many arguments as its call list has. -/
  operation {op : Operation} {call args : List Value} {f : Fault}
    (harity : op.arity.problem? op.name call = none) (hroom : L.room call.length)
    (hlength : args.length = call.tail.length) (hargs : ∀ v ∈ args, L.Given v)
    (h : (op.compute args).run = .error f) : L.fault f

namespace Sound

variable (sound : L.Sound)
include sound

theorem lawful (hint : ∀ n, v ≠ .int n) (hclosure : v.closure? = none) (hinner : v.inner = []) :
    L.Lawful v :=
  (Value.throughout_of_inner_nil hinner).mpr (sound.ordinary hint hclosure)

theorem nil : L.Lawful .nil := sound.lawful nofun rfl rfl

theorem bool (b : Bool) : L.Lawful (.bool b) := sound.lawful nofun rfl rfl

theorem string (text : String) : L.Lawful (.string text) := sound.lawful nofun rfl rfl

theorem symbol (name : String) : L.Lawful (.symbol name) := sound.lawful nofun rfl rfl

theorem error (message : String) : L.Lawful (.error message) := sound.lawful nofun rfl rfl

theorem list (h : L.AllLawful vs) : L.Lawful (.list vs) :=
  Value.throughout_list.mpr ⟨sound.ordinary nofun rfl, h⟩

theorem number {x : Number} (h : x.inRange = true) : L.Lawful x.toValue := by
  cases x with
  | int n => exact (Value.throughout_of_inner_nil rfl).mpr (sound.int h)
  | float x => exact sound.lawful nofun rfl rfl

theorem lawful_literal {text : String} (h : Literal.read text = .ok v) : L.Lawful v := by
  unfold Literal.read at h
  simp only [Problem.toValue] at h
  split at h
  · cases h; exact sound.nil
  · split at h
    · cases h; exact sound.bool _
    · split at h
      · cases h; exact sound.bool _
      · split at h
        · cases h
        · next n hn =>
          cases h
          exact sound.number (x := .int n) (Literal.inRange_of_integer hn)
        · split at h
          · cases h; exact sound.lawful nofun rfl rfl
          · split at h
            · cases h
            · cases h; exact sound.error _

theorem lawful_readString (text : String) : L.Lawful (Literal.readString text) := by
  unfold Literal.readString
  split
  · split
    · exact sound.string _
    · exact sound.error _
  · exact sound.error _

theorem lawful_definition (maker : String) {name params : Value} (hname : L.Lawful name)
    (hparams : L.Lawful params) (hbody : L.AllLawful vs) :
    L.Lawful (Sugar.definition maker name params vs) := by
  have hcallable : L.Lawful (.list (.symbol maker :: params :: vs)) :=
    sound.list (.cons (sound.symbol maker) (.cons hparams hbody))
  exact sound.list (.cons (sound.symbol _) (.cons hname (.cons hcallable .nil)))

theorem lawful_block (hbody : L.AllLawful vs) : L.Lawful (Sugar.block vs) :=
  sound.list (.cons (sound.symbol _) hbody)

theorem lawful_clauses (h : L.AllLawful vs) :
    ∃ form, Sugar.clauses vs = .ok form ∧ L.Lawful form := by
  unfold Sugar.clauses
  split
  · next heven =>
    match vs with
    | [] => exact ⟨_, rfl, sound.nil⟩
    | [_] => exact absurd heven (by simp)
    | test :: form :: more =>
      have hmore : L.Lawful (.list (.symbol "cond" :: more)) :=
        sound.list (.cons (sound.symbol _) h.of_cons.of_cons)
      exact ⟨_, rfl, sound.list (.cons (sound.symbol _) (.cons h.head (.cons h.of_cons.head
        (.cons hmore .nil))))⟩
  · exact ⟨_, rfl, sound.error _⟩

/-- Sugar has an expansion for every number of arguments that it takes. -/
theorem lawful_expansion (s : Sugar) (h : L.AllLawful vs)
    (harity : s.arity.problem? s.name vs = none) :
    ∃ form, s.expansion vs = .ok form ∧ L.Lawful form := by
  cases s with
  | defineFunction =>
    obtain ⟨head, name, params, body, rfl⟩ := call_of_atLeast_two harity
    exact ⟨_, rfl, sound.lawful_definition "fn" h.of_cons.head h.of_cons.of_cons.head
      h.of_cons.of_cons.of_cons⟩
  | defineExpander =>
    obtain ⟨head, name, params, body, rfl⟩ := call_of_atLeast_two harity
    exact ⟨_, rfl, sound.lawful_definition "macro" h.of_cons.head h.of_cons.of_cons.head
      h.of_cons.of_cons.of_cons⟩
  | whenTrue =>
    obtain ⟨head, test, body, rfl⟩ := call_of_atLeast_one harity
    exact ⟨_, rfl, sound.list (.cons (sound.symbol _) (.cons h.of_cons.head
      (.cons (sound.lawful_block h.of_cons.of_cons) .nil)))⟩
  | whenFalse =>
    obtain ⟨head, test, body, rfl⟩ := call_of_atLeast_one harity
    exact ⟨_, rfl, sound.list (.cons (sound.symbol _) (.cons h.of_cons.head
      (.cons sound.nil (.cons (sound.lawful_block h.of_cons.of_cons) .nil))))⟩
  | cond => exact sound.lawful_clauses h.tail

theorem lawful_expand (s : Sugar) (h : L.AllLawful vs) :
    ∃ form, s.expand vs = .ok form ∧ L.Lawful form := by
  unfold Sugar.expand
  split
  · exact ⟨_, rfl, sound.error _⟩
  · next harity => exact sound.lawful_expansion s h harity

theorem lawful_argumentBindings (c : Closure Value) (h : L.AllLawful vs) :
    (c.argumentBindings vs).Throughout L.value := by
  have hpositional : (Closure.bindPositional c.params vs []).Throughout L.value :=
    h.bindPositional fun _ hb => absurd hb List.not_mem_nil
  unfold Closure.argumentBindings
  split
  · exact hpositional
  · exact hpositional.insert _ (sound.list (h.drop _))

theorem lawful_arithmetic (op : Operation) {f : List Number → Compute Number}
    (hf : ∀ xs, (f xs).Yields fun x => x.inRange = true) (args : List Value) :
    (op.arithmetic f args).Yields L.Lawful :=
  Compute.yields_any.bind fun xs _ => (hf xs).bind fun _ hx => .result (sound.number hx)

theorem lawful_remainder {n d : Value} (hn : L.Lawful n) :
    (Arithmetic.remainder n d).Yields L.Lawful := by
  unfold Arithmetic.remainder
  split
  · next n d =>
    split
    · exact .problem _
    · next hd =>
      have hvalue : L.value (.int n) := (Value.throughout_of_inner_nil rfl).mp hn
      rw [Arithmetic.modulo, if_neg hd]
      exact .result ((Value.throughout_of_inner_nil rfl).mpr (sound.remainder hvalue d))
  · exact .problem _

theorem lawful_test (args : List Value) (holds : Value → Bool) :
    (Operation.test args holds).Yields L.Lawful :=
  Compute.yields_any.bind fun _ _ => .result (sound.bool _)

theorem lawful_comparison (op : Operation) (related : Number → Number → Bool)
    (args : List Value) : (op.comparison related args).Yields L.Lawful :=
  Compute.yields_any.bind fun _ _ => .result (sound.bool _)

theorem lawful_length {n : Nat} (h : L.room n) : L.Lawful (.int n) :=
  (Value.throughout_of_inner_nil rfl).mpr (sound.count h)

theorem lawful_compute (op : Operation) (h : ∀ v ∈ vs, L.Given v) :
    (op.compute vs).Yields L.Lawful := by
  have hvs : L.AllLawful vs := fun v hv => (h v hv).lawful
  cases op with
  | add => exact sound.lawful_arithmetic _ Arithmetic.sum_inRange vs
  | sub => exact sound.lawful_arithmetic _ Arithmetic.difference_inRange vs
  | mul => exact sound.lawful_arithmetic _ Arithmetic.product_inRange vs
  | div => exact sound.lawful_arithmetic _ Arithmetic.quotient_inRange vs
  | mod => exact (Operation.two_yields hvs).bind fun p hp => sound.lawful_remainder hp.1
  | less | lessEqual | greater | greaterEqual => exact sound.lawful_comparison _ _ vs
  | equal => exact .result (sound.bool _)
  | list => exact .result (sound.list hvs)
  | cons =>
    refine (Operation.two_yields hvs).bind fun p hp => ?_
    exact (items_yields _ hp.2).bind fun tail htail => .result (sound.list (.cons hp.1 htail))
  | first =>
    refine (Operation.one_yields hvs).bind fun v hv => ?_
    refine (items_yields _ hv).bind fun items hitems => ?_
    cases items with
    | nil => exact .result sound.nil
    | cons v vs => exact .result hitems.head
  | rest =>
    refine (Operation.one_yields hvs).bind fun v hv => ?_
    exact (items_yields _ hv).bind fun items hitems => .result (sound.list hitems.tail)
  | nth =>
    refine (Operation.two_yields hvs).bind fun p hp => ?_
    exact (items_yields _ hp.1).bind fun items hitems => nthItem_yields hitems
  | count =>
    refine (Operation.one_yields h).bind fun v hv => ?_
    have hroom := hv.room
    cases v with
    | string text => exact .result (sound.lawful_length hroom)
    | list items => exact .result (sound.lawful_length hroom)
    | nil => exact .result (sound.lawful_length hroom)
    | _ => exact .problem _
  | isEmpty =>
    refine (Operation.one_yields hvs).bind fun v hv => ?_
    exact Compute.yields_any.bind fun _ _ => .result (sound.bool _)
  | concat =>
    exact (joined_yields _ hvs).bind fun items hitems => .result (sound.list hitems)
  | not | isNil | isList | isSymbol | isString | isNumber | isFunction | isExpander | isError =>
    exact sound.lawful_test _ _
  | str => exact .result (sound.string _)
  | error => exact .result (sound.error _)
  | errorMessage =>
    refine Compute.yields_any.bind fun v _ => ?_
    cases v with
    | error message => exact .result (sound.string message)
    | _ => exact .problem _

end Sound

end Law

end TreeLisp
