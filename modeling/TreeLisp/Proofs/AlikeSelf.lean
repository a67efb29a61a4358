import TreeLisp.Proofs.Occurrence
import TreeLisp.Proofs.Parallel

/-!
# Values that are like themselves

A value is like itself when all names in it are permitted and all its frames and serial numbers
stand for themselves. Where a pairing pairs nothing but equal frames and equal serial numbers, a
value is like no other value.
-/
namespace TreeLisp

variable {P : Permit} {π : Pairing} {v w : Value} {xs ys : List Value}

def anything : Permit := ⟨fun _ => True, True⟩

/-- What a single value takes to be like itself, whatever is inside of it. -/
def Value.Admitted (P : Permit) (π : Pairing) : Value → Prop
  | .atom token => P.name token.text
  | .function serial _ c | .expander serial _ c => π.serial serial serial ∧ c.Aligned P π c
  | _ => True

theorem Closure.Aligned.self {c : Closure Value} (hname : ∀ x, P.name x)
    (hscope : π.frame c.scope c.scope) : c.Aligned P π c :=
  ⟨rfl, rfl, rfl, hscope, fun x _ => hname x, fun x _ => hname x⟩

theorem Alike.self (herror : P.error) (h : v.Throughout (Value.Admitted P π)) : Alike P π v v := by
  induction v using Value.inner_induction with
  | h v ih =>
    obtain ⟨hv, hinner⟩ := Value.throughout_iff.mp h
    have hstored : AllStored P π v.inner v.inner := by
      apply List.forall₂_same.mpr
      intro u hu
      exact .mk (fun _ => herror) (ih u hu (hinner u hu))
    cases v with
    | list items => exact .list hstored
    | function serial name c => exact .function name hv.1 hv.2 hstored
    | expander serial name c => exact .expander name hv.1 hv.2 hstored
    | atom token => exact .atom token hv
    | nil => exact .nil
    | bool b => exact .bool b
    | int n => exact .int n
    | float x => exact .float x
    | string text => exact .string text
    | native n => exact .native n
    | sugar s => exact .sugar s
    | error message => exact .error message

theorem Stored.self (herror : P.error) (h : v.Throughout (Value.Admitted P π)) : Stored P π v v :=
  .mk (fun _ => herror) (.self herror h)

theorem Alike.admitted (h : Alike P π v v) : v.Throughout (Value.Admitted P π) := by
  induction v using Value.inner_induction with
  | h v ih =>
    rw [Value.throughout_iff]
    cases h with
    | list hitems =>
      exact ⟨trivial, fun u hu => ih u hu (List.forall₂_same.mp hitems u hu).alike⟩
    | function name hserial hclosure hbody =>
      exact ⟨⟨hserial, hclosure⟩, fun u hu => ih u hu (List.forall₂_same.mp hbody u hu).alike⟩
    | expander name hserial hclosure hbody =>
      exact ⟨⟨hserial, hclosure⟩, fun u hu => ih u hu (List.forall₂_same.mp hbody u hu).alike⟩
    | atom token hname => exact ⟨hname, fun u hu => absurd hu List.not_mem_nil⟩
    | _ => exact ⟨trivial, fun u hu => absurd hu List.not_mem_nil⟩

theorem Closure.Aligned.eq_of_identity {c d : Closure Value}
    (h : c.Aligned P .identity d) (hbody : c.body = d.body) : c = d := by
  obtain ⟨params, rest, body, scope, name⟩ := c
  obtain ⟨hparams, hrest, hname, hscope, -, -⟩ := h
  cases d
  cases hparams; cases hrest; cases hname; cases hscope; cases hbody
  rfl

mutual

theorem Alike.eq_of_identity :
    {v w : Value} → Alike P .identity v w → v = w
  | .list _, .list _, .list h => congrArg Value.list (AllStored.eq_of_identity h)
  | .function m _ ⟨_, _, _, _, _⟩, .function n _ ⟨_, _, _, _, _⟩, .function _ hserial hc hb => by
    obtain rfl : m = n := hserial
    rw [hc.eq_of_identity (AllStored.eq_of_identity hb)]
  | .expander m _ ⟨_, _, _, _, _⟩, .expander n _ ⟨_, _, _, _, _⟩, .expander _ hserial hc hb => by
    obtain rfl : m = n := hserial
    rw [hc.eq_of_identity (AllStored.eq_of_identity hb)]
  | _, _, .nil => rfl
  | _, _, .bool _ => rfl
  | _, _, .int _ => rfl
  | _, _, .float _ => rfl
  | _, _, .string _ => rfl
  | _, _, .atom _ _ => rfl
  | _, _, .native _ => rfl
  | _, _, .sugar _ => rfl
  | _, _, .error _ => rfl

theorem AllStored.eq_of_identity :
    {xs ys : List Value} → AllStored P .identity xs ys → xs = ys
  | [], [], .nil => rfl
  | _ :: _, _ :: _, .cons (.mk _ h) hs => by
    rw [h.eq_of_identity, AllStored.eq_of_identity hs]

end

theorem Alike.eq_of_le (hπ : π ≤ .identity) (h : Alike P π v w) : v = w :=
  (h.mono hπ).eq_of_identity

theorem AllBound.eq_of_le (hπ : π ≤ .identity) {b c : Bindings} (h : AllBound P π b c) : b = c := by
  induction h with
  | nil => rfl
  | cons hentry _ ih =>
    have hvalue := hentry.value.alike.eq_of_le hπ
    rw [ih, Prod.ext hentry.name hvalue]

theorem Record.Alike.eq_of_le (hπ : π ≤ .identity) {r r' : Record} (h : r.Alike P π r') :
    r = r' := by
  cases h with
  | expanding name h => rw [AllStored.eq_of_identity (AllStored.mono hπ h)]
  | calling name count => rfl
  | preludeFailed h => rw [h.eq_of_le hπ]

end TreeLisp
