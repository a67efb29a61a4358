import Mathlib.Data.List.Basic
import TreeLisp.Store

/-!
# What occurs in a value and in a store

Values are made of values: a list of its items, a callable of the forms of its body. Conditions on
single values, such as one on integers or one on names, extend to all that occurs in a value, and
from there to a store, in which values are bound and recorded.
-/
namespace TreeLisp

theorem Closure.sizeOf_body_lt (c : Closure Value) : sizeOf c.body < sizeOf c := by
  obtain ⟨params, rest, body, scope, name⟩ := c
  simp only [Closure.mk.sizeOf_spec]
  omega

namespace Value

def closure? : Value → Option (Closure Value)
  | .function _ _ c | .expander _ _ c => some c
  | _ => none

/-- The values that a value is made of. -/
def inner : Value → List Value
  | .list items => items
  | .function _ _ c | .expander _ _ c => c.body
  | _ => []

/-- The first value is the second one or is somewhere inside of it. -/
inductive OccursIn : Value → Value → Prop where
  | here (v : Value) : OccursIn v v
  | inside {w u v : Value} (hu : u ∈ v.inner) (h : OccursIn w u) : OccursIn w v

/-- The condition holds of the value and of all that is inside of it. -/
def Throughout (p : Value → Prop) (v : Value) : Prop :=
  ∀ w, w.OccursIn v → p w

theorem sizeOf_lt_of_mem_inner {u v : Value} (h : u ∈ v.inner) : sizeOf u < sizeOf v := by
  cases v with
  | list items =>
    have hlt : sizeOf u < sizeOf items := List.sizeOf_lt_of_mem h
    simp only [list.sizeOf_spec]
    omega
  | function serial name c =>
    have hlt : sizeOf u < sizeOf c.body := List.sizeOf_lt_of_mem h
    have hbody := c.sizeOf_body_lt
    simp only [function.sizeOf_spec]
    omega
  | expander serial name c =>
    have hlt : sizeOf u < sizeOf c.body := List.sizeOf_lt_of_mem h
    have hbody := c.sizeOf_body_lt
    simp only [expander.sizeOf_spec]
    omega
  | _ => simp [inner] at h

theorem inner_induction {p : Value → Prop} (h : ∀ v, (∀ u ∈ v.inner, p u) → p v) (v : Value) :
    p v := by
  induction hn : sizeOf v using Nat.strongRecOn generalizing v with
  | _ n ih =>
    apply h
    intro u hu
    have hlt : sizeOf u < n := hn ▸ sizeOf_lt_of_mem_inner hu
    exact ih (sizeOf u) hlt u rfl

theorem throughout_iff {p : Value → Prop} {v : Value} :
    v.Throughout p ↔ p v ∧ ∀ u ∈ v.inner, u.Throughout p := by
  constructor
  · intro h
    exact ⟨h v (.here v), fun u hu w hw => h w (.inside hu hw)⟩
  · rintro ⟨hv, hinner⟩ w hw
    cases hw with
    | here => exact hv
    | inside hu hw => exact hinner _ hu w hw

@[simp] theorem throughout_list {p : Value → Prop} {items : List Value} :
    (Value.list items).Throughout p ↔ p (.list items) ∧ ∀ v ∈ items, v.Throughout p :=
  throughout_iff

@[simp] theorem throughout_function {p : Value → Prop} {serial : Nat} {name : String}
    {c : Closure Value} : (Value.function serial name c).Throughout p ↔
      p (.function serial name c) ∧ ∀ v ∈ c.body, v.Throughout p :=
  throughout_iff

@[simp] theorem throughout_expander {p : Value → Prop} {serial : Nat} {name : String}
    {c : Closure Value} : (Value.expander serial name c).Throughout p ↔
      p (.expander serial name c) ∧ ∀ v ∈ c.body, v.Throughout p :=
  throughout_iff

theorem throughout_of_inner_nil {p : Value → Prop} {v : Value} (h : v.inner = []) :
    v.Throughout p ↔ p v := by
  rw [throughout_iff, h]
  simp

@[simp] theorem throughout_symbol {p : Value → Prop} {name : String} :
    (Value.symbol name).Throughout p ↔ p (.symbol name) :=
  throughout_of_inner_nil rfl

@[simp] theorem throughout_native {p : Value → Prop} {n : Native} :
    (Value.native n).Throughout p ↔ p (.native n) :=
  throughout_of_inner_nil rfl

@[simp] theorem throughout_sugar {p : Value → Prop} {s : Sugar} :
    (Value.sugar s).Throughout p ↔ p (.sugar s) :=
  throughout_of_inner_nil rfl

theorem Throughout.imp {p q : Value → Prop} (hpq : ∀ w, p w → q w) {v : Value}
    (h : v.Throughout p) : v.Throughout q :=
  fun w hw => hpq w (h w hw)

end Value

def Bindings.Throughout (p : Value → Prop) (bindings : Bindings) : Prop :=
  ∀ b ∈ bindings, b.2.Throughout p

def Record.Throughout (p : Value → Prop) : Record → Prop
  | .expanding _ call => ∀ v ∈ call, v.Throughout p
  | .preludeFailed v => v.Throughout p
  | _ => True

/-- The condition holds of all values that are bound or recorded. -/
structure Store.Throughout (p : Value → Prop) (s : Store) : Prop where
  frames (i : FrameId) (frame : Frame) (h : s.frames[i]? = some frame) :
    frame.bindings.Throughout p
  journal (r : Record) (h : r ∈ s.journal) : r.Throughout p

end TreeLisp
