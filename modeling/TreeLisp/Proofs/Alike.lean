import Mathlib.Data.List.Forall2
import Mathlib.Order.Defs.PartialOrder
import TreeLisp.Params
import TreeLisp.Store
import TreeLisp.Value.Equality

/-!
# Values that are alike

Two evaluations that do the same things in two stores give the same values, except that their frames
and serial numbers differ. A pairing says which frames and serial numbers of one store stand for
which of the other, and two values are alike when they are the same up to the pairing. Everything
that evaluation can find out about a value it finds out about every value like it: its text, its
shape, whether it is true, and which values it is equal to.

What a store and the lists in it may hold is limited by a permit. With the identity as the pairing, a
value that is like itself is one that keeps to the permit all the way down.
-/
namespace TreeLisp

/-- Which frames and serial numbers of two stores stand for each other. -/
structure Pairing where
  frame : FrameId → FrameId → Prop
  serial : Nat → Nat → Prop

namespace Pairing

/-- A later pairing adds to an earlier one. -/
instance : Preorder Pairing where
  le π ρ := (∀ i j, π.frame i j → ρ.frame i j) ∧ ∀ m n, π.serial m n → ρ.serial m n
  le_refl _ := ⟨fun _ _ h => h, fun _ _ h => h⟩
  le_trans _ _ _ h k := ⟨fun i j x => k.1 i j (h.1 i j x), fun m n x => k.2 m n (h.2 m n x)⟩

theorem frame_mono {π ρ : Pairing} (h : π ≤ ρ) {i j : FrameId} (hij : π.frame i j) :
    ρ.frame i j :=
  h.1 i j hij

def identity : Pairing := ⟨Eq, Eq⟩

end Pairing

/-- What may be stored. -/
structure Permit where
  /-- The names that may occur in atoms, parameters and bindings. -/
  name : String → Prop
  /-- Whether errors may be list items and bound values. -/
  error : Prop

/-- The closures agree on everything but their bodies. -/
structure Closure.Aligned (P : Permit) (π : Pairing) (c d : Closure Value) : Prop where
  params : c.params = d.params
  rest : c.rest = d.rest
  name : c.name = d.name
  scope : π.frame c.scope d.scope
  param (x : String) (h : x ∈ c.params) : P.name x
  restName (x : String) (h : c.rest = some x) : P.name x

mutual

inductive Alike (P : Permit) (π : Pairing) : Value → Value → Prop where
  | nil : Alike P π .nil .nil
  | bool (b : Bool) : Alike P π (.bool b) (.bool b)
  | int (n : Int) : Alike P π (.int n) (.int n)
  | float (x : Float) : Alike P π (.float x) (.float x)
  | string (text : String) : Alike P π (.string text) (.string text)
  | atom (token : Token) (h : P.name token.text) : Alike P π (.atom token) (.atom token)
  | list {xs ys : List Value} (h : List.Forall₂ (Stored P π) xs ys) :
      Alike P π (.list xs) (.list ys)
  | native (n : Native) : Alike P π (.native n) (.native n)
  | sugar (s : Sugar) : Alike P π (.sugar s) (.sugar s)
  | function {m n : Nat} {c d : Closure Value} (name : String) (hserial : π.serial m n)
      (hclosure : c.Aligned P π d) (hbody : List.Forall₂ (Stored P π) c.body d.body) :
      Alike P π (.function m name c) (.function n name d)
  | expander {m n : Nat} {c d : Closure Value} (name : String) (hserial : π.serial m n)
      (hclosure : c.Aligned P π d) (hbody : List.Forall₂ (Stored P π) c.body d.body) :
      Alike P π (.expander m name c) (.expander n name d)
  | error (message : String) : Alike P π (.error message) (.error message)

/-- Alike, and permitted as list items and bound values. -/
inductive Stored (P : Permit) (π : Pairing) : Value → Value → Prop where
  | mk {v w : Value} (herror : v.isError = true → P.error) (h : Alike P π v w) : Stored P π v w

end

abbrev AllStored (P : Permit) (π : Pairing) : List Value → List Value → Prop :=
  List.Forall₂ (Stored P π)

variable {P : Permit} {π ρ : Pairing} {v w v' w' : Value} {xs ys xs' ys' : List Value}

theorem Stored.alike : Stored P π v w → Alike P π v w
  | .mk _ h => h

theorem Alike.stored (h : Alike P π v w) (hv : v.isError = false) : Stored P π v w :=
  .mk (fun hv' => absurd (hv.symm.trans hv') Bool.false_ne_true) h

theorem AllStored.alike (h : AllStored P π xs ys) : List.Forall₂ (Alike P π) xs ys :=
  h.imp fun _ _ h => h.alike

theorem AllStored.getElem? (h : AllStored P π xs ys) (i : Nat) :
    Option.Rel (Stored P π) xs[i]? ys[i]? := by
  induction h generalizing i with
  | nil => exact .none
  | cons h hs ih =>
    cases i with
    | zero => exact .some h
    | succ i => exact ih i

theorem AllStored.tail (h : AllStored P π xs ys) : AllStored P π xs.tail ys.tail := by
  cases h with
  | nil => exact .nil
  | cons _ hs => exact hs

theorem Closure.Aligned.mono {c d : Closure Value} (h : π ≤ ρ) (hc : c.Aligned P π d) :
    c.Aligned P ρ d :=
  ⟨hc.params, hc.rest, hc.name, Pairing.frame_mono h hc.scope, hc.param, hc.restName⟩

mutual

theorem Alike.mono (hle : π ≤ ρ) : {v w : Value} → Alike P π v w → Alike P ρ v w
  | .list _, .list _, .list h => .list (AllStored.mono hle h)
  | .function _ _ ⟨_, _, _, _, _⟩, .function _ _ ⟨_, _, _, _, _⟩, .function name hm hc hb =>
    .function name (hle.2 _ _ hm) (hc.mono hle) (AllStored.mono hle hb)
  | .expander _ _ ⟨_, _, _, _, _⟩, .expander _ _ ⟨_, _, _, _, _⟩, .expander name hm hc hb =>
    .expander name (hle.2 _ _ hm) (hc.mono hle) (AllStored.mono hle hb)
  | _, _, .nil => .nil
  | _, _, .bool b => .bool b
  | _, _, .int n => .int n
  | _, _, .float x => .float x
  | _, _, .string text => .string text
  | _, _, .atom token h => .atom token h
  | _, _, .native n => .native n
  | _, _, .sugar s => .sugar s
  | _, _, .error message => .error message

theorem AllStored.mono (hle : π ≤ ρ) :
    {xs ys : List Value} → AllStored P π xs ys → AllStored P ρ xs ys
  | [], [], .nil => .nil
  | _ :: _, _ :: _, .cons (.mk herror h) hs =>
    .cons (.mk herror (h.mono hle)) (AllStored.mono hle hs)

end

theorem Stored.mono (hle : π ≤ ρ) : Stored P π v w → Stored P ρ v w
  | .mk herror h => .mk herror (h.mono hle)

theorem Alike.isError_eq (h : Alike P π v w) : v.isError = w.isError := by
  cases h <;> rfl

theorem Alike.truthy_eq (h : Alike P π v w) : v.truthy = w.truthy := by
  cases h <;> rfl

theorem Alike.isFunction_eq (h : Alike P π v w) : v.isFunction = w.isFunction := by
  cases h <;> rfl

theorem Alike.isExpander_eq (h : Alike P π v w) : v.isExpander = w.isExpander := by
  cases h <;> rfl

theorem Alike.number_eq (h : Alike P π v w) : v.number? = w.number? := by
  cases h <;> rfl

theorem Alike.name_eq (h : Alike P π v w) : v.name? = w.name? := by
  cases h <;> rfl

theorem Alike.permitted_name (h : Alike P π v w) {name : String} (hname : v.name? = some name) :
    P.name name := by
  cases h with
  | atom token hpermit =>
    obtain ⟨kind, text⟩ := token
    cases kind <;> simp [Value.name?] at hname
    exact hname ▸ hpermit
  | _ => simp [Value.name?] at hname

theorem AllStored.headName_eq (h : AllStored P π xs ys) :
    Value.headName? xs = Value.headName? ys := by
  cases h with
  | nil => rfl
  | cons h _ => exact h.alike.name_eq

theorem AllStored.permitted_headName (h : AllStored P π xs ys) {name : String}
    (hname : Value.headName? xs = some name) : P.name name := by
  cases h with
  | nil => simp [Value.headName?] at hname
  | cons h _ => exact h.alike.permitted_name hname

mutual

theorem Alike.text_eq : {v w : Value} → Alike P π v w → v.text = w.text
  | .list _, .list _, .list h => by rw [Value.text, Value.text, AllStored.itemsText_eq h]
  | _, _, .nil => rfl
  | _, _, .bool _ => rfl
  | _, _, .int _ => rfl
  | _, _, .float _ => rfl
  | _, _, .string _ => rfl
  | _, _, .atom _ _ => rfl
  | _, _, .native _ => rfl
  | _, _, .sugar _ => rfl
  | _, _, .function _ _ _ _ => rfl
  | _, _, .expander _ _ _ _ => rfl
  | _, _, .error _ => rfl

theorem AllStored.itemsText_eq :
    {xs ys : List Value} → AllStored P π xs ys → Value.itemsText xs = Value.itemsText ys
  | [], [], .nil => rfl
  | [_], [_], .cons (.mk _ h) .nil => h.text_eq
  | _ :: x :: xs, _ :: y :: ys, .cons (.mk _ h) hs => by
    have hrest : Value.itemsText (x :: xs) = Value.itemsText (y :: ys) := AllStored.itemsText_eq hs
    simp only [Value.itemsText, h.text_eq, hrest]

end

theorem Alike.display_eq (h : Alike P π v w) : v.display = w.display := by
  have htext : v.text = w.text := h.text_eq
  cases h with
  | string text => rfl
  | _ => exact htext

theorem Alike.expects_eq (h : Alike P π v w) (name : String) (what : Expected) :
    (Problem.expects name what v).message = (Problem.expects name what w).message :=
  congrArg (name ++ " expects " ++ what.text ++ ", got " ++ ·) h.text_eq

/-- Different serial numbers stand for different ones. -/
def Pairing.Distinct (π : Pairing) : Prop :=
  ∀ {m n m' n' : Nat}, π.serial m n → π.serial m' n' → (m = m' ↔ n = n')

mutual

theorem Alike.same_eq (hπ : π.Distinct) : {v w v' w' : Value} → Alike P π v w →
    Alike P π v' w' → v.same v' = w.same w'
  | .list _, _, _, _, h, h' => by
    cases h with
    | list h =>
      cases h' with
      | list h' => exact AllStored.sameItems_eq hπ h h'
      | _ => rfl
  | .function _ _ _, _, _, _, h, h' => by
    cases h with
    | function _ hm =>
      cases h' with
      | function _ hm' => simp only [Value.same, Bool.beq_eq_decide_eq, hπ hm hm']
      | _ => rfl
  | .expander _ _ _, _, _, _, h, h' => by
    cases h with
    | expander _ hm =>
      cases h' with
      | expander _ hm' => simp only [Value.same, Bool.beq_eq_decide_eq, hπ hm hm']
      | _ => rfl
  | .nil, _, _, _, h, h' | .bool _, _, _, _, h, h' | .int _, _, _, _, h, h'
  | .float _, _, _, _, h, h' | .string _, _, _, _, h, h' | .atom _, _, _, _, h, h'
  | .native _, _, _, _, h, h' | .sugar _, _, _, _, h, h' | .error _, _, _, _, h, h' => by
    cases h
    cases h' <;> rfl

theorem AllStored.sameItems_eq (hπ : π.Distinct) : {xs ys xs' ys' : List Value} →
    AllStored P π xs ys → AllStored P π xs' ys' →
    Value.sameItems xs xs' = Value.sameItems ys ys'
  | [], [], _, _, .nil, h' => by cases h' <;> rfl
  | _ :: _, _ :: _, [], [], .cons _ _, .nil => rfl
  | _ :: _, _ :: _, _ :: _, _ :: _, .cons (.mk _ h) hs, .cons (.mk _ h') hs' => by
    rw [Value.sameItems, Value.sameItems, h.same_eq hπ h', AllStored.sameItems_eq hπ hs hs']

end

theorem Value.equal_congr {v w v' w' : Value} (hv : ∀ items, v ≠ .list items)
    (hw : ∀ items, w ≠ .list items) (hnumber : v.number? = w.number?)
    (hnumber' : v'.number? = w'.number?) (hsame : v.same v' = w.same w') :
    v.equal v' = w.equal w' := by
  have hleft : ∀ xs ys, v = .list xs → v' = .list ys → False := fun xs _ h _ => hv xs h
  have hright : ∀ xs ys, w = .list xs → w' = .list ys → False := fun xs _ h _ => hw xs h
  rw [Value.equal.eq_2 v v' hleft, Value.equal.eq_2 w w' hright, hnumber, hnumber', hsame]

mutual

theorem Alike.equal_eq (hπ : π.Distinct) : {v w v' w' : Value} → Alike P π v w →
    Alike P π v' w' → v.equal v' = w.equal w'
  | .list _, _, _, _, .list h, h' => by
    cases h' with
    | list h' => exact AllStored.equalItems_eq hπ h h'
    | _ => rfl
  | .nil, _, _, _, h, h' | .bool _, _, _, _, h, h' | .int _, _, _, _, h, h'
  | .float _, _, _, _, h, h' | .string _, _, _, _, h, h' | .atom _, _, _, _, h, h'
  | .native _, _, _, _, h, h' | .sugar _, _, _, _, h, h' | .error _, _, _, _, h, h'
  | .function _ _ _, _, _, _, h, h' | .expander _ _ _, _, _, _, h, h' => by
    exact Value.equal_congr (by simp) (by cases h; simp) h.number_eq h'.number_eq
      (h.same_eq hπ h')

theorem AllStored.equalItems_eq (hπ : π.Distinct) : {xs ys xs' ys' : List Value} →
    AllStored P π xs ys → AllStored P π xs' ys' →
    Value.equalItems xs xs' = Value.equalItems ys ys'
  | [], [], _, _, .nil, h' => by cases h' <;> rfl
  | _ :: _, _ :: _, [], [], .cons _ _, .nil => rfl
  | _ :: _, _ :: _, _ :: _, _ :: _, .cons (.mk _ h) hs, .cons (.mk _ h') hs' => by
    rw [Value.equalItems, Value.equalItems, h.equal_eq hπ h', AllStored.equalItems_eq hπ hs hs']

end

end TreeLisp
