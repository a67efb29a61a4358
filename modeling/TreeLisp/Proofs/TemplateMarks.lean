import TreeLisp.Proofs.Equality
import TreeLisp.Proofs.Occurrence
import TreeLisp.Proofs.Stopping
import TreeLisp.Proofs.World

/-!
# Marks in a filled template

A template is filled by replacing the parts that are marked as unquoted. The marks are looked for in
the template and not in what comes of it. So where what is inserted has no mark in it, a list of the
result is headed by one in a single way: the template has the name of the mark as an item behind
others, and all of these are splices of empty lists.
-/
namespace TreeLisp

open Strict

namespace Template

/-- The names that mark a part of a template as unquoted. -/
def markNames : List String :=
  [Mark.unquote.head, Mark.splice.head]

variable (ev : Evaluator) (scope : FrameId)

/-- Filling the first template comes to the second one, which is a part of it, in this store. -/
inductive Reaches : Value → Store → Value → Store → Prop where
  | here (template : Value) (s : Store) : Reaches template s template s
  | item {before after filled : List Value} {item part : Value} {s r t : Store}
      (hlist : argument? .unquote (.list (before ++ item :: after)) = none)
      (hbefore : Passes (fillItems ev scope before) s filled r)
      (hitem : argument? .splice item = none) (h : Reaches item r part t) :
      Reaches (.list (before ++ item :: after)) s part t

/-- The value is what an unquoted part evaluates to when the template is filled. -/
inductive Inserts (template : Value) (s : Store) : Value → Prop where
  | unquote {part form w : Value} {r t : Store} (hpart : Reaches ev scope template s part r)
      (hform : argument? .unquote part = some (.ok form)) (hrun : (ev form scope).run r = .ok w t) :
      Inserts template s w
  | splice {before after filled : List Value} {item form w : Value} {q r t : Store}
      (hpart : Reaches ev scope template s (.list (before ++ item :: after)) q)
      (hlist : argument? .unquote (.list (before ++ item :: after)) = none)
      (hbefore : Passes (fillItems ev scope before) q filled r)
      (hform : argument? .splice item = some (.ok form)) (hrun : (ev form scope).run r = .ok w t) :
      Inserts template s w

/-- A list of the template has the name of a mark behind its first items, and these are splices of
empty lists. -/
def Exposes (template : Value) (s : Store) : Prop :=
  ∃ front name rest r t, front ≠ [] ∧ name ∈ markNames ∧
    Reaches ev scope template s (.list (front ++ .symbol name :: rest)) r ∧
    Passes (fillItems ev scope front) r [] t

/-- An item of a template gives these items of the result. -/
inductive Gives (item : Value) (s : Store) : List Value → Store → Prop where
  | spliced {form : Value} {vs : List Value} {t : Store}
      (hform : argument? .splice item = some (.ok form))
      (hrun : (ev form scope).run s = .ok (.list vs) t) : Gives item s vs t
  | filled {v : Value} {t : Store} (hitem : argument? .splice item = none)
      (hfill : Passes (fill ev scope item) s v t) (hv : v.isError = false) : Gives item s [v] t

end Template

namespace Value

/-- No atom in the value, at any depth of lists, has the name of a mark as its text. -/
def MarkFree (v : Value) : Prop :=
  ∀ token, (Value.atom token).ListedIn v → token.text ∉ Template.markNames

/-- A list in the value, at any depth of lists, is headed by the name of a mark. -/
def Marked (v : Value) : Prop :=
  ∃ items name, name ∈ Template.markNames ∧ headName? items = some name ∧
    (Value.list items).ListedIn v

variable {u v w : Value} {items : List Value} {name : String}

theorem ListedIn.trans (h : u.ListedIn v) (h' : v.ListedIn w) : u.ListedIn w := by
  induction h' with
  | here => exact h
  | item hv _ ih => exact .item hv ih

theorem MarkFree.mono (h : v.MarkFree) (hu : u.ListedIn v) : u.MarkFree :=
  fun token htoken => h token (htoken.trans hu)

theorem not_markFree_symbol (h : name ∈ Template.markNames) : ¬ (Value.symbol name).MarkFree :=
  fun hfree => hfree (Token.ofName name) (.here _) h

theorem headName?_eq_some_iff :
    headName? items = some name ↔ ∃ later, items = .symbol name :: later := by
  cases items with
  | nil => simp [headName?]
  | cons head later =>
    rw [headName?, name?_eq_some_iff]
    simp

theorem MarkFree.not_marked (h : v.MarkFree) : ¬ v.Marked := by
  rintro ⟨items, name, hname, hhead, hitems⟩
  obtain ⟨later, rfl⟩ := headName?_eq_some_iff.mp hhead
  exact not_markFree_symbol hname (h.mono (.trans (.item List.mem_cons_self (.here _)) hitems))

theorem marked_list_iff : (Value.list items).Marked ↔
    (∃ name ∈ Template.markNames, headName? items = some name) ∨ ∃ v ∈ items, v.Marked := by
  constructor
  · rintro ⟨inner, name, hname, hhead, hinner⟩
    cases hinner with
    | here => exact .inl ⟨name, hname, hhead⟩
    | item hv hlisted => exact .inr ⟨_, hv, inner, name, hname, hhead, hlisted⟩
  · rintro (⟨name, hname, hhead⟩ | ⟨v, hv, inner, name, hname, hhead, hlisted⟩)
    · exact ⟨items, name, hname, hhead, .here _⟩
    · exact ⟨inner, name, hname, hhead, .item hv hlisted⟩

end Value

namespace Template

variable {ev : Evaluator} {scope : FrameId} {s t : Store} {template v w item : Value}
  {items later vs : List Value} {name : String}

theorem passes_fill_list : Passes (fill ev scope (.list items)) s v t ↔
    (∃ form, argument? .unquote (.list items) = some (.ok form) ∧
      (ev form scope).run s = .ok v t) ∨
    (argument? .unquote (.list items) = none ∧
      ∃ filled, Passes (fillItems ev scope items) s filled t ∧ .list filled = v) := by
  rw [fill]
  cases hargument : argument? .unquote (.list items) with
  | none =>
    simp only [passes_bind_iff, passes_pure_iff]
    grind
  | some argument =>
    cases argument with
    | error p => simp [not_passes_fail]
    | ok form => simp [passes_lift_iff]

theorem fill_of_not_list (h : ∀ items, template ≠ .list items) :
    fill ev scope template = pure template := by
  rw [fill]
  exact h

theorem passes_fillItems_cons : Passes (fillItems ev scope (item :: later)) s vs t ↔
    ∃ given r others, Gives ev scope item s given r ∧
      Passes (fillItems ev scope later) r others t ∧ given ++ others = vs := by
  rw [fillItems]
  constructor
  · intro h
    cases hargument : argument? .splice item with
    | none =>
      simp only [hargument, passes_bind_iff, passes_accept_iff, passes_pure_iff] at h
      obtain ⟨v, r, hfill, _, _, ⟨hv, rfl, rfl⟩, others, _, hlater, rfl, rfl⟩ := h
      exact ⟨[v], r, others, .filled hargument hfill hv, hlater, rfl⟩
    | some argument =>
      rw [hargument] at h
      cases argument with
      | error p => exact absurd h not_passes_fail
      | ok form =>
        simp only [passes_bind_iff, passes_need_iff] at h
        obtain ⟨v, r, ⟨hrun, -⟩, hspliced⟩ := h
        cases v with
        | list spliced =>
          simp only [passes_bind_iff, passes_pure_iff] at hspliced
          obtain ⟨others, _, hlater, rfl, rfl⟩ := hspliced
          exact ⟨spliced, r, others, .spliced hargument hrun, hlater, rfl⟩
        | _ => exact absurd hspliced not_passes_fail
  · rintro ⟨given, r, others, hgives, hlater, rfl⟩
    cases hgives with
    | spliced hform hrun =>
      simp only [hform, passes_bind_iff, passes_need_iff]
      refine ⟨_, r, ⟨hrun, rfl⟩, ?_⟩
      simp only [passes_bind_iff, passes_pure_iff]
      exact ⟨others, t, hlater, rfl, rfl⟩
    | filled hitem hfill hv =>
      simp only [hitem, passes_bind_iff, passes_accept_iff, passes_pure_iff]
      exact ⟨_, r, hfill, _, r, ⟨hv, rfl, rfl⟩, others, t, hlater, rfl, rfl⟩

theorem passes_fillItems_append {before after : List Value} :
    Passes (fillItems ev scope (before ++ after)) s vs t ↔
      ∃ front r back, Passes (fillItems ev scope before) s front r ∧
        Passes (fillItems ev scope after) r back t ∧ front ++ back = vs := by
  rw [fillItems_append]
  simp only [passes_bind_iff, passes_pure_iff]
  grind

/-- Each item of the result is given by an item of the template. The items before that one give no
more than what is before it in the result. -/
theorem exists_gives {out : List Value}
    (h : Passes (fillItems ev scope items) s (out ++ w :: later) t) :
    ∃ before item after front r given r', items = before ++ item :: after ∧
      Passes (fillItems ev scope before) s front r ∧ Gives ev scope item r given r' ∧ w ∈ given ∧
      ∃ between, out = front ++ between := by
  induction items generalizing s out with
  | nil =>
    rw [fillItems, passes_pure_iff] at h
    simp at h
  | cons item rest ih =>
    obtain ⟨given, r, others, hgives, hrest, heq⟩ := passes_fillItems_cons.mp h
    -- What the first item gives covers the place of the value, or ends before it.
    have hplace : (w ∈ given) ∨ ∃ between, out = given ++ between ∧
        others = between ++ w :: later := by
      rcases List.append_eq_append_iff.mp heq with ⟨between, rfl, rfl⟩ | ⟨covered, rfl, hcovered⟩
      · exact .inr ⟨between, rfl, rfl⟩
      · cases covered with
        | nil => exact .inr ⟨[], by simp, hcovered.symm⟩
        | cons c covered =>
          obtain ⟨rfl, -⟩ := List.cons.inj hcovered
          exact .inl (by simp)
    rcases hplace with hw | ⟨between, rfl, rfl⟩
    · exact ⟨[], item, rest, [], s, given, r, rfl, passes_pure_iff.mpr ⟨rfl, rfl⟩, hgives, hw,
        out, rfl⟩
    · obtain ⟨before, other, after, front, q, given', q', rfl, hbefore, hother, hw, between',
        rfl⟩ := ih hrest
      exact ⟨item :: before, other, after, given ++ front, q, given', q', rfl,
        passes_fillItems_cons.mpr ⟨given, r, front, hgives, hbefore, rfl⟩, hother, hw, between',
        by simp⟩

section Parts

variable {before after filled : List Value} {r : Store}

theorem Inserts.of_item (hlist : argument? .unquote (.list (before ++ item :: after)) = none)
    (hbefore : Passes (fillItems ev scope before) s filled r)
    (hitem : argument? .splice item = none) (h : Inserts ev scope item r w) :
    Inserts ev scope (.list (before ++ item :: after)) s w := by
  cases h with
  | unquote hpart hform hrun => exact .unquote (.item hlist hbefore hitem hpart) hform hrun
  | splice hpart hlist' hbefore' hform hrun =>
    exact .splice (.item hlist hbefore hitem hpart) hlist' hbefore' hform hrun

theorem Exposes.of_item (hlist : argument? .unquote (.list (before ++ item :: after)) = none)
    (hbefore : Passes (fillItems ev scope before) s filled r)
    (hitem : argument? .splice item = none) (h : Exposes ev scope item r) :
    Exposes ev scope (.list (before ++ item :: after)) s := by
  obtain ⟨front, name, rest, q, t, hfront, hname, hpart, hempty⟩ := h
  exact ⟨front, name, rest, q, t, hfront, hname, .item hlist hbefore hitem hpart, hempty⟩

theorem Reaches.listedIn {part : Value} (h : Reaches ev scope template s part r)
    (hfill : Passes (fill ev scope template) s v t) :
    ∃ w u, Passes (fill ev scope part) r w u ∧ w.ListedIn v := by
  induction h generalizing v t with
  | here => exact ⟨v, t, hfill, .here v⟩
  | item hlist hbefore hitem _ ih =>
    rcases passes_fill_list.mp hfill with ⟨form, hform, -⟩ | ⟨-, filled', hitems, rfl⟩
    · rw [hlist] at hform
      cases hform
    · obtain ⟨front, q, back, hfront, hback, rfl⟩ := passes_fillItems_append.mp hitems
      cases hbefore.symm.trans hfront
      obtain ⟨given, q', others, hgives, -, rfl⟩ := passes_fillItems_cons.mp hback
      cases hgives with
      | spliced hform hrun =>
        rw [hitem] at hform
        cases hform
      | filled _ hvalue hv =>
        obtain ⟨w, u, hpart, hlisted⟩ := ih hvalue
        exact ⟨w, u, hpart, .item (by simp) hlisted⟩

end Parts

theorem argument?_ne_none {m : Mark} (h : Value.headName? items = some m.head) :
    argument? m (.list items) ≠ none := by
  simp [argument?, h]

/-- A list of the template that comes to be headed by the name of a mark has the name as an item,
behind splices of empty lists. -/
theorem exposes_of_head (hlist : argument? .unquote (.list items) = none)
    (hsplice : argument? .splice (.list items) = none)
    (hfree : ∀ w, Inserts ev scope (.list items) s w → w.MarkFree)
    (hitems : Passes (fillItems ev scope items) s (.symbol name :: later) t)
    (hname : name ∈ markNames) : Exposes ev scope (.list items) s := by
  have hfirst : Passes (fillItems ev scope items) s ([] ++ .symbol name :: later) t := hitems
  obtain ⟨before, item, after, front, r, given, r', rfl, hbefore, hgives, hmem, between, hout⟩ :=
    exists_gives hfirst
  obtain ⟨rfl, -⟩ := List.append_eq_nil_iff.mp hout.symm
  have hmark := Value.not_markFree_symbol hname
  cases hgives with
  | spliced hform hrun =>
    have hinserted := hfree _ (.splice (.here _ _) hlist hbefore hform hrun)
    exact absurd (hinserted.mono (.item hmem (.here _))) hmark
  | filled hitem hfill hv =>
    obtain rfl := List.mem_singleton.mp hmem
    by_cases hinner : ∃ inner, item = .list inner
    · obtain ⟨inner, rfl⟩ := hinner
      rcases passes_fill_list.mp hfill with ⟨form, hform, hrun⟩ | ⟨-, filled, -, hfilled⟩
      · have hinserted := Inserts.unquote (.here (.list inner) r) hform hrun
        exact absurd (hfree _ (hinserted.of_item hlist hbefore hitem)) hmark
      · cases hfilled
    · rw [fill_of_not_list (not_exists.mp hinner), passes_pure_iff] at hfill
      obtain ⟨rfl, -⟩ := hfill
      refine ⟨before, name, after, s, r, ?_, hname, .here _ _, hbefore⟩
      -- Were the name the first item, then the template would be an unquoted part.
      rintro rfl
      rcases List.mem_pair.mp hname with rfl | rfl
      · exact argument?_ne_none rfl hlist
      · exact argument?_ne_none rfl hsplice

theorem exposes_of_marked (template : Value) (hsplice : argument? .splice template = none)
    (hfree : ∀ w, Inserts ev scope template s w → w.MarkFree)
    (hfill : Passes (fill ev scope template) s v t) (hmarked : v.Marked) :
    Exposes ev scope template s := by
  induction template using Value.inner_induction generalizing s v t with
  | h template ih =>
    by_cases hitems : ∃ items, template = .list items
    · obtain ⟨items, rfl⟩ := hitems
      rcases passes_fill_list.mp hfill with ⟨form, hform, hrun⟩ | ⟨hlist, filled, hfilled, rfl⟩
      · exact absurd hmarked (hfree v (.unquote (.here _ s) hform hrun)).not_marked
      · rcases Value.marked_list_iff.mp hmarked with ⟨name, hname, hhead⟩ | ⟨w, hw, hmarked'⟩
        · obtain ⟨later, rfl⟩ := Value.headName?_eq_some_iff.mp hhead
          exact exposes_of_head hlist hsplice hfree hfilled hname
        · obtain ⟨out, later, rfl⟩ := List.append_of_mem hw
          obtain ⟨before, item, after, front, r, given, r', rfl, hbefore, hgives, hmem, -⟩ :=
            exists_gives hfilled
          cases hgives with
          | spliced hform hrun =>
            have hinserted := hfree _ (.splice (.here _ s) hlist hbefore hform hrun)
            exact absurd hmarked' (hinserted.mono (.item hmem (.here w))).not_marked
          | filled hitem hvalue hv =>
            obtain rfl := List.mem_singleton.mp hmem
            have hinner : item ∈ (Value.list (before ++ item :: after)).inner := by
              simp [Value.inner]
            exact (ih item hinner hitem (fun u hu => hfree u (hu.of_item hlist hbefore hitem))
              hvalue hmarked').of_item hlist hbefore hitem
    · have hnot := not_exists.mp hitems
      rw [fill_of_not_list hnot, passes_pure_iff] at hfill
      obtain ⟨rfl, -⟩ := hfill
      obtain ⟨items, name, -, -, hlisted⟩ := hmarked
      cases hlisted with
      | here => exact absurd rfl (hnot items)
      | item => exact absurd rfl (hnot _)

/-- The items in front give nothing, so the first of them is a splice and not the name of a mark. -/
theorem argument?_of_empty {front : List Value} (hfront : front ≠ [])
    (hempty : Passes (fillItems ev scope front) s [] t) (rest : List Value) :
    argument? .unquote (.list (front ++ rest)) = none := by
  obtain ⟨item, later, rfl⟩ := List.exists_cons_of_ne_nil hfront
  obtain ⟨given, r, others, hgives, -, hgiven⟩ := passes_fillItems_cons.mp hempty
  obtain ⟨rfl, -⟩ := List.append_eq_nil_iff.mp hgiven
  cases hgives with
  | spliced hform hrun =>
    cases item with
    | list inner => simp [argument?, Value.headName?, Value.name?]
    | _ => cases hform

theorem Exposes.marked (h : Exposes ev scope template s)
    (hfill : Passes (fill ev scope template) s v t) : v.Marked := by
  obtain ⟨front, name, rest, r, u, hfront, hname, hpart, hempty⟩ := h
  obtain ⟨w, q, hvalue, hlisted⟩ := hpart.listedIn hfill
  have hlist := argument?_of_empty hfront hempty (.symbol name :: rest)
  rcases passes_fill_list.mp hvalue with ⟨form, hform, -⟩ | ⟨-, filled, hfilled, rfl⟩
  · rw [hlist] at hform
    cases hform
  · obtain ⟨given, r', back, hgiven, hback, rfl⟩ := passes_fillItems_append.mp hfilled
    cases hempty.symm.trans hgiven
    obtain ⟨given, r'', others, hgives, -, rfl⟩ := passes_fillItems_cons.mp hback
    cases hgives with
    | spliced hform => cases hform
    | filled _ hsymbol _ =>
      rw [fill_of_not_list (fun _ h => by cases h), passes_pure_iff] at hsymbol
      obtain ⟨rfl, -⟩ := hsymbol
      exact ⟨_, name, hname, rfl, hlisted⟩

theorem Reaches.eq_of_atom {token : Token} {part : Value} {r : Store}
    (h : Reaches ev scope (.atom token) s part r) : part = .atom token := by
  cases h
  rfl

def spliceBefore (form : Value) (tokens : List Token) : Value :=
  .list (.list [.symbol Mark.splice.head, form] :: tokens.map .atom)

theorem mem_atoms_of_split {form item : Value} {tokens : List Token} {before after : List Value}
    (h : spliceBefore form tokens = .list (before ++ item :: after)) :
    (before = [] ∧ item = .list [.symbol Mark.splice.head, form]) ∨
      ∃ token, item = .atom token := by
  obtain h := Value.list.inj h
  cases before with
  | nil => exact .inl ⟨rfl, (List.cons.inj h).1.symm⟩
  | cons first before =>
    have hmem : item ∈ tokens.map Value.atom := by simp [(List.cons.inj h).2]
    obtain ⟨token, -, htoken⟩ := List.mem_map.mp hmem
    exact .inr ⟨token, htoken.symm⟩

theorem Reaches.eq_of_spliceBefore {form part : Value} {tokens : List Token} {r : Store}
    (h : Reaches ev scope (spliceBefore form tokens) s part r) :
    (part = spliceBefore form tokens ∧ r = s) ∨ ∃ token, part = .atom token := by
  generalize htemplate : spliceBefore form tokens = template at h
  cases h with
  | here => exact .inl ⟨rfl, rfl⟩
  | item _ _ hitem hpart =>
    rcases mem_atoms_of_split htemplate with ⟨-, rfl⟩ | ⟨token, rfl⟩
    · exact absurd hitem (argument?_ne_none rfl)
    · exact .inr ⟨token, hpart.eq_of_atom⟩

theorem Inserts.run_of_spliceBefore {form : Value} {tokens : List Token}
    (h : Inserts ev scope (spliceBefore form tokens) s w) :
    ∃ t, (ev form scope).run s = .ok w t := by
  cases h with
  | unquote hpart hform hrun =>
    rcases hpart.eq_of_spliceBefore with ⟨rfl, -⟩ | ⟨token, rfl⟩
    · have hnone : argument? .unquote (spliceBefore form tokens) = none := by
        simp [argument?, spliceBefore, Value.headName?, Value.name?]
      rw [hnone] at hform
      cases hform
    · cases hform
  | @splice before after filled item form' _ q r t hpart _ hbefore hform hrun =>
    rcases hpart.eq_of_spliceBefore with ⟨htemplate, rfl⟩ | ⟨token, htoken⟩
    · rcases mem_atoms_of_split htemplate.symm with ⟨rfl, rfl⟩ | ⟨token, rfl⟩
      · rw [fillItems, passes_pure_iff] at hbefore
        obtain ⟨-, rfl⟩ := hbefore
        have hargument : argument? .splice (.list [.symbol Mark.splice.head, form]) =
            some (.ok form) := rfl
        cases hargument.symm.trans hform
        exact ⟨t, hrun⟩
      · cases hform
    · cases htoken

theorem eval_quasiquote {head : Value} (h : s.denotes scope head (.native (.form .quasiquote)))
    (template : Value) (n : Nat) :
    (eval (n + 2) (.list [head, template]) scope).run s =
      (settle (fill (eval (n + 1)) scope template)).run s := by
  rw [eval_call h rfl, call_eq_callWith]
  rfl

end Template

open Template

/-- Where no inserted value has the name of a mark in it, a list of the value of a template is
headed by such a name exactly if the template has it as an item behind splices of empty lists. -/
theorem marks_only_behind_empty_splices {scope : FrameId} {s t : Store} {head template v : Value}
    {n : Nat} (hhead : s.denotes scope head (.native (.form .quasiquote)))
    (htemplate : argument? .splice template = none)
    (hfree : ∀ w, Inserts (eval n) scope template s w → w.MarkFree)
    (hrun : (eval (n + 1) (.list [head, template]) scope).run s = .ok v t)
    (hv : v.isError = false) : v.Marked ↔ Exposes (eval n) scope template s := by
  cases n with
  | zero =>
    rw [eval_call_one hhead rfl] at hrun
    cases hrun
  | succ n =>
    rw [eval_quasiquote hhead] at hrun
    have hfill := passes_of_settle hrun hv
    exact ⟨exposes_of_marked template htemplate hfree hfill, fun h => h.marked hfill⟩

/-- The same template twice. Its splice has an item the first time and none the second time. -/
theorem marks_only_behind_empty_splices_both :
    let s (items : List Value) : Store := (World.initial.run [.start]).store.set 1 "y" (.list items)
    let template : Value := .list [.list [.symbol "unquote-splicing", .symbol "y"],
      .symbol "unquote", .symbol "x"]
    let form : Value := .list [.symbol "quasiquote", template]
    let full : Value := .list [.symbol "b", .symbol "unquote", .symbol "x"]
    let bare : Value := .list [.symbol "unquote", .symbol "x"]
    (∀ items, (s items).denotes 1 (.symbol "quasiquote") (.native (.form .quasiquote))) ∧
      argument? .splice template = none ∧
      (∀ items, (Value.list items).MarkFree →
        ∀ w, Inserts (eval 2) 1 template (s items) w → w.MarkFree) ∧
      (eval 3 form 1).run (s [.symbol "b"]) = .ok full (s [.symbol "b"]) ∧
      ¬ Exposes (eval 2) 1 template (s [.symbol "b"]) ∧
      (eval 3 form 1).run (s []) = .ok bare (s []) ∧ bare.Marked := by
  intro s template form full bare
  have hhead (items : List Value) :
      (s items).denotes 1 (.symbol "quasiquote") (.native (.form .quasiquote)) :=
    .inr ⟨"quasiquote", rfl, rfl⟩
  have hy (items : List Value) :
      (eval 2 (.symbol "y") 1).run (s items) = .ok (.list items) (s items) := rfl
  have hinserted (items : List Value) (hfree : (Value.list items).MarkFree) (w : Value)
      (hw : Inserts (eval 2) 1 template (s items) w) : w.MarkFree := by
    have hw' : Inserts (eval 2) 1
        (spliceBefore (.symbol "y") [.ofName "unquote", .ofName "x"]) (s items) w := hw
    obtain ⟨t, hrun⟩ := hw'.run_of_spliceBefore
    cases hrun.symm.trans (hy items)
    exact hfree
  have hb : (Value.list [.symbol "b"]).MarkFree := by
    intro token htoken
    cases htoken with
    | item hmem hlisted =>
      obtain rfl := List.mem_singleton.mp hmem
      cases hlisted
      decide
  have hfull : (eval 3 form 1).run (s [.symbol "b"]) = .ok full (s [.symbol "b"]) := rfl
  have hempty : (eval 3 form 1).run (s []) = .ok bare (s []) := rfl
  have hunmarked : ¬ full.Marked := by
    rw [Value.marked_list_iff]
    rintro (⟨name, hname, hhead⟩ | ⟨v, hv, items, name, -, -, hlisted⟩)
    · cases hhead
      exact absurd hname (by decide)
    · simp only [List.mem_cons, List.not_mem_nil, or_false] at hv
      rcases hv with rfl | rfl | rfl <;> cases hlisted
  refine ⟨hhead, rfl, hinserted, hfull, ?_, hempty, ?_⟩
  · rw [← marks_only_behind_empty_splices (hhead _) rfl (hinserted _ hb) hfull rfl]
    exact hunmarked
  · have hnone : (Value.list []).MarkFree := by
      intro token htoken
      cases htoken with
      | item hmem => cases hmem
    rw [marks_only_behind_empty_splices (hhead []) rfl (hinserted [] hnone) hempty rfl]
    exact ⟨[.list [.symbol "unquote-splicing", .symbol "y"]], "unquote", [.symbol "x"], s [], s [],
      List.cons_ne_nil _ _, by decide, .here _ _, rfl⟩

/-- Only the empty list is inserted, and still the value is a list headed by the name of a mark. -/
theorem empty_splice_uncovers_mark :
    let s := (World.initial.run [.start]).store
    let template : Value := .list [.list [.symbol "unquote-splicing", .list [.symbol "list"]],
      .symbol "unquote", .symbol "x"]
    let v : Value := .list [.symbol "unquote", .symbol "x"]
    (∀ w, Inserts (eval 3) 1 template s w → w.MarkFree) ∧
      (eval 4 (.list [.symbol "quasiquote", template]) 1).run s = .ok v s ∧
      v.isError = false ∧ v.Marked := by
  intro s template v
  have hlist : (eval 3 (.list [.symbol "list"]) 1).run s = .ok (.list []) s := rfl
  refine ⟨fun w hw => ?_, rfl, rfl, _, "unquote", by decide, rfl, .here v⟩
  have hw' : Inserts (eval 3) 1
      (spliceBefore (.list [.symbol "list"]) [.ofName "unquote", .ofName "x"]) s w := hw
  obtain ⟨t, hrun⟩ := hw'.run_of_spliceBefore
  cases hrun.symm.trans hlist
  intro token htoken
  cases htoken with
  | item hmem _ => cases hmem

end TreeLisp
