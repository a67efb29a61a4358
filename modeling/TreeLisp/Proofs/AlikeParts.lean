import TreeLisp.Eval.Forms
import TreeLisp.Eval.Sugar
import TreeLisp.Literal
import TreeLisp.Proofs.Alike

/-!
# Bindings, parameters and forms that are alike

The parts of the evaluator that evaluate nothing themselves make values that are alike out of values
that are alike: they bind arguments, read parameter lists and literals, look at templates and expand
sugar.
-/
namespace TreeLisp

variable {P : Permit} {π ρ : Pairing} {f g v w : Value} {xs ys : List Value}

/-- The same name, bound to values that are alike. -/
structure Bound (P : Permit) (π : Pairing) (b c : String × Value) : Prop where
  name : b.1 = c.1
  permitted : P.name b.1
  value : Stored P π b.2 c.2

abbrev AllBound (P : Permit) (π : Pairing) : Bindings → Bindings → Prop :=
  List.Forall₂ (Bound P π)

theorem AllBound.mono (hle : π ≤ ρ) {b c : Bindings}
    (h : AllBound P π b c) : AllBound P ρ b c :=
  h.imp fun _ _ hbound => ⟨hbound.name, hbound.permitted, hbound.value.mono hle⟩

theorem AllBound.lookup {b c : Bindings} (h : AllBound P π b c)
    (name : String) : Option.Rel (Stored P π) (b.lookup name) (c.lookup name) := by
  induction h with
  | nil => exact .none
  | @cons entry entry' rest rest' hentry _ ih =>
    obtain ⟨key, v⟩ := entry
    obtain ⟨key', w⟩ := entry'
    obtain rfl : key = key' := hentry.name
    rw [List.lookup_cons, List.lookup_cons]
    cases name == key with
    | true => exact .some hentry.value
    | false => exact ih

theorem AllBound.itemsText_eq {b c : Bindings} (h : AllBound P π b c) :
    b.itemsText = c.itemsText := by
  have htexts : b.map (fun e => e.1 ++ ": " ++ e.2.text) =
      c.map (fun e => e.1 ++ ": " ++ e.2.text) := by
    induction h with
    | nil => rfl
    | cons hentry _ ih =>
      rw [List.map_cons, List.map_cons, ih, hentry.name, hentry.value.alike.text_eq]
  rw [Bindings.itemsText, Bindings.itemsText, htexts]

theorem AllBound.insert {b c : Bindings} (h : AllBound P π b c) {name : String}
    (hname : P.name name) (hvalue : Stored P π v w) :
    AllBound P π (b.insert name v) (c.insert name w) := by
  induction h with
  | nil => exact .cons ⟨rfl, hname, hvalue⟩ .nil
  | @cons entry entry' rest rest' hentry hrest ih =>
    obtain ⟨key, old⟩ := entry
    obtain ⟨key', old'⟩ := entry'
    obtain rfl : key = key' := hentry.name
    by_cases hkey : key = name
    · simp only [Bindings.insert, if_pos hkey]
      exact .cons ⟨rfl, hname, hvalue⟩ hrest
    · simp only [Bindings.insert, if_neg hkey]
      exact .cons hentry ih

theorem bindPositional_bound {names : List String} (hnames : ∀ x ∈ names, P.name x)
    (hargs : AllStored P π xs ys) {b c : Bindings} (h : AllBound P π b c) :
    AllBound P π (Closure.bindPositional names xs b) (Closure.bindPositional names ys c) := by
  induction names generalizing xs ys b c with
  | nil => exact h
  | cons name names ih =>
    cases hargs with
    | nil => exact h
    | cons harg hargs =>
      have hname : P.name name := hnames name List.mem_cons_self
      exact ih (fun x hx => hnames x (List.mem_cons_of_mem name hx)) hargs (h.insert hname harg)

theorem Closure.Aligned.argumentBindings {c d : Closure Value} (h : c.Aligned P π d)
    (hargs : AllStored P π xs ys) :
    AllBound P π (c.argumentBindings xs) (d.argumentBindings ys) := by
  have hpositional : AllBound P π (bindPositional c.params xs []) (bindPositional c.params ys []) :=
    bindPositional_bound h.param hargs .nil
  unfold Closure.argumentBindings
  rw [← h.params, ← h.rest]
  cases hrest : c.rest with
  | none => exact hpositional
  | some name =>
    have hlist := Alike.list (List.forall₂_drop c.params.length hargs)
    exact hpositional.insert (h.restName name hrest) (hlist.stored rfl)

theorem Closure.Aligned.countProblem_eq {c d : Closure Value} (h : c.Aligned P π d)
    (hargs : AllStored P π xs ys) : c.countProblem? xs.length = d.countProblem? ys.length := by
  simp only [Closure.countProblem?, h.params, h.rest, h.name, hargs.length_eq]

theorem Params.ofItems_of_no_name {x : Value} (h : x.name? = none) (xs : List Value) :
    ofItems (x :: xs) = .error (.paramNotName x) := by
  simp [ofItems.eq_def (x :: xs), h]

theorem Params.ofItems_of_rest {x : Value} (h : x.name? = some restMarker) (token : Token) :
    ofItems [x, .atom token] = .ok ⟨[], some token.text⟩ := by
  simp [ofItems.eq_def [x, .atom token], h]

theorem Params.ofItems_of_no_rest {x : Value} (h : x.name? = some restMarker) {xs : List Value}
    (hxs : ∀ token, xs ≠ [.atom token]) : ofItems (x :: xs) = .error .restNotLast := by
  simp only [ofItems.eq_def (x :: xs), h, if_pos]

theorem Params.ofItems_of_name {x : Value} {name : String} (h : x.name? = some name)
    (hname : name ≠ restMarker) (xs : List Value) :
    ofItems (x :: xs) = (ofItems xs).map fun p => ⟨name :: p.names, p.rest⟩ := by
  simp [ofItems.eq_def (x :: xs), h, hname]

theorem paramsOfItems_alike (h : AllStored P π xs ys) :
    (∃ p, Params.ofItems xs = .ok p ∧ Params.ofItems ys = .ok p ∧ (∀ x ∈ p.names, P.name x) ∧
      ∀ x, p.rest = some x → P.name x) ∨
    ∃ p q, Params.ofItems xs = .error p ∧ Params.ofItems ys = .error q ∧
      p.message = q.message := by
  induction h with
  | nil => exact .inl ⟨⟨[], none⟩, rfl, rfl, by simp, by simp⟩
  | @cons x y xs ys h hs ih =>
    have heq := h.alike.name_eq
    cases hx : x.name? with
    | none =>
      rw [Params.ofItems_of_no_name hx, Params.ofItems_of_no_name (heq.symm.trans hx)]
      refine .inr ⟨_, _, rfl, rfl, ?_⟩
      exact congrArg ("parameter must be a symbol, got " ++ ·) h.alike.text_eq
    | some name =>
      have hy : y.name? = some name := heq.symm.trans hx
      by_cases hmarker : name = Params.restMarker
      · subst hmarker
        by_cases hrest : ∃ token, xs = [.atom token]
        · obtain ⟨token, rfl⟩ := hrest
          cases hs with
          | cons hatom hnil =>
            cases hnil
            cases hatom.alike with
            | atom token hpermit =>
              refine .inl ⟨⟨[], some token.text⟩, Params.ofItems_of_rest hx token,
                Params.ofItems_of_rest hy token, by simp, ?_⟩
              intro z hz
              exact Option.some.inj hz ▸ hpermit
        · have hno (token : Token) : ys ≠ [.atom token] := by
            rintro rfl
            cases hs with
            | cons hatom hnil =>
              cases hnil
              cases hatom.alike with
              | atom token _ => exact hrest ⟨token, rfl⟩
          exact .inr ⟨.restNotLast, .restNotLast,
            Params.ofItems_of_no_rest hx fun token hxs => hrest ⟨token, hxs⟩,
            Params.ofItems_of_no_rest hy hno, rfl⟩
      · rw [Params.ofItems_of_name hx hmarker, Params.ofItems_of_name hy hmarker]
        rcases ih with ⟨p, hp, hq, hnames, hrest⟩ | ⟨p, q, hp, hq, hmessage⟩
        · rw [hp, hq]
          refine .inl ⟨_, rfl, rfl, ?_, hrest⟩
          rintro z (_ | ⟨_, hz⟩)
          · exact h.alike.permitted_name hx
          · exact hnames z hz
        · rw [hp, hq]
          exact .inr ⟨_, _, rfl, rfl, hmessage⟩

theorem paramsOfValue_alike (h : Alike P π v w) :
    (∃ p, Params.ofValue v = .ok p ∧ Params.ofValue w = .ok p ∧ (∀ x ∈ p.names, P.name x) ∧
      ∀ x, p.rest = some x → P.name x) ∨
    ∃ p q, Params.ofValue v = .error p ∧ Params.ofValue w = .error q ∧
      p.message = q.message := by
  have hmessage : (Problem.paramsNotList v).message = (Problem.paramsNotList w).message :=
    congrArg ("parameter list must be a list, got " ++ ·) h.text_eq
  cases h with
  | list h => exact paramsOfItems_alike h
  | _ => exact .inr ⟨_, _, rfl, rfl, hmessage⟩

theorem argument_alike (m : Mark) (h : Alike P π v w) :
    (Template.argument? m v = none ∧ Template.argument? m w = none) ∨
    (∃ p, Template.argument? m v = some (.error p) ∧ Template.argument? m w = some (.error p)) ∨
    ∃ form form', Template.argument? m v = some (.ok form) ∧
      Template.argument? m w = some (.ok form') ∧ Stored P π form form' := by
  cases h with
  | @list xs ys h =>
    have hhead := AllStored.headName_eq h
    simp only [Template.argument?]
    by_cases hmark : Value.headName? xs = some m.head
    · rw [if_pos hmark, if_pos (hhead.symm.trans hmark)]
      match h with
      | .nil => exact .inr (.inl ⟨_, rfl, rfl⟩)
      | .cons _ .nil => exact .inr (.inl ⟨_, rfl, rfl⟩)
      | .cons _ (.cons hform .nil) => exact .inr (.inr ⟨_, _, rfl, rfl, hform⟩)
      | .cons _ (.cons _ (.cons _ hs)) =>
        refine .inr (.inl ⟨_, rfl, ?_⟩)
        simp only [argumentCount, List.length_cons, hs.length_eq]
    · rw [if_neg hmark, if_neg fun hw => hmark (hhead.trans hw)]
      exact .inl ⟨rfl, rfl⟩
  | _ => exact .inl ⟨rfl, rfl⟩

theorem literal_alike {text : String} (h : Literal.read text = .ok v) : Alike P π v v := by
  unfold Literal.read at h
  simp only [Problem.toValue] at h
  split at h
  · cases h; exact .nil
  · split at h
    · cases h; exact .bool _
    · split at h
      · cases h; exact .bool _
      · split at h
        · cases h
        · cases h; exact .int _
        · split at h
          · cases h; exact .float _
          · split at h
            · cases h
            · cases h; exact .error _

theorem readString_alike (text : String) :
    Alike P π (Literal.readString text) (Literal.readString text) := by
  unfold Literal.readString
  split
  · split
    · exact .string _
    · exact .error _
  · exact .error _

/-- The names that expansions of sugar put into code. -/
def Sugar.inserted : List String := ["def", "fn", "macro", "if", "do", "cond"]

theorem inserted_stored (hinserted : ∀ name ∈ Sugar.inserted, P.name name) {name : String}
    (hname : name ∈ Sugar.inserted) : Stored P π (.symbol name) (.symbol name) :=
  (Alike.atom (Token.ofName name) (hinserted name hname)).stored rfl

theorem definition_alike (hinserted : ∀ name ∈ Sugar.inserted, P.name name) {maker : String}
    (hmaker : maker ∈ Sugar.inserted) (hname : Stored P π f g) (hparams : Stored P π v w)
    (hbody : AllStored P π xs ys) :
    Alike P π (Sugar.definition maker f v xs) (Sugar.definition maker g w ys) := by
  have hdef : "def" ∈ Sugar.inserted := by simp [Sugar.inserted]
  have hcallable := Alike.list (.cons (inserted_stored hinserted hmaker) (.cons hparams hbody))
  exact .list (.cons (inserted_stored hinserted hdef)
    (.cons hname (.cons (hcallable.stored rfl) .nil)))

theorem block_stored (hinserted : ∀ name ∈ Sugar.inserted, P.name name)
    (hbody : AllStored P π xs ys) : Stored P π (Sugar.block xs) (Sugar.block ys) := by
  have hdo : "do" ∈ Sugar.inserted := by simp [Sugar.inserted]
  exact (Alike.list (.cons (inserted_stored hinserted hdo) hbody)).stored rfl

/-- Two expansions that are alike, or one fault in the place of both. -/
inductive ExpandAlike (P : Permit) (π : Pairing) :
    Except Fault Value → Except Fault Value → Prop where
  | form {v w : Value} (h : Alike P π v w) : ExpandAlike P π (.ok v) (.ok w)
  | fault (f : Fault) : ExpandAlike P π (.error f) (.error f)

theorem clauses_alike (hinserted : ∀ name ∈ Sugar.inserted, P.name name) (h : AllStored P π xs ys) :
    ExpandAlike P π (Sugar.clauses xs) (Sugar.clauses ys) := by
  have hif : "if" ∈ Sugar.inserted := by simp [Sugar.inserted]
  have hcond : "cond" ∈ Sugar.inserted := by simp [Sugar.inserted]
  unfold Sugar.clauses
  rw [h.length_eq]
  split
  · match h with
    | .nil => exact .form .nil
    | .cons _ .nil => exact .fault _
    | .cons htest (.cons hform hmore) =>
      have hrest := Alike.list (.cons (inserted_stored hinserted hcond) hmore)
      exact .form (.list (.cons (inserted_stored hinserted hif)
        (.cons htest (.cons hform (.cons (hrest.stored rfl) .nil)))))
  · exact .form (.error _)

theorem expansion_alike (hinserted : ∀ name ∈ Sugar.inserted, P.name name) (s : Sugar)
    (h : AllStored P π xs ys) : ExpandAlike P π (s.expansion xs) (s.expansion ys) := by
  have hif : "if" ∈ Sugar.inserted := by simp [Sugar.inserted]
  have hnil : Stored P π .nil .nil := Alike.nil.stored rfl
  cases s with
  | defineFunction =>
    match h with
    | .nil | .cons _ .nil | .cons _ (.cons _ .nil) => exact .fault _
    | .cons _ (.cons hname (.cons hparams hbody)) =>
      exact .form (definition_alike hinserted (by simp [Sugar.inserted]) hname hparams hbody)
  | defineExpander =>
    match h with
    | .nil | .cons _ .nil | .cons _ (.cons _ .nil) => exact .fault _
    | .cons _ (.cons hname (.cons hparams hbody)) =>
      exact .form (definition_alike hinserted (by simp [Sugar.inserted]) hname hparams hbody)
  | whenTrue =>
    match h with
    | .nil | .cons _ .nil => exact .fault _
    | .cons _ (.cons htest hbody) =>
      exact .form (.list (.cons (inserted_stored hinserted hif)
        (.cons htest (.cons (block_stored hinserted hbody) .nil))))
  | whenFalse =>
    match h with
    | .nil | .cons _ .nil => exact .fault _
    | .cons _ (.cons htest hbody) =>
      exact .form (.list (.cons (inserted_stored hinserted hif)
        (.cons htest (.cons hnil (.cons (block_stored hinserted hbody) .nil)))))
  | cond => exact clauses_alike hinserted h.tail

theorem arityProblem_eq (arity : Arity) (name : String) (h : AllStored P π xs ys) :
    arity.problem? name xs = arity.problem? name ys := by
  have hcount : argumentCount xs = argumentCount ys := by
    rw [argumentCount, argumentCount, h.length_eq]
  unfold Arity.problem?
  rw [hcount]

theorem sugar_alike (hinserted : ∀ name ∈ Sugar.inserted, P.name name) (s : Sugar)
    (h : AllStored P π xs ys) : ExpandAlike P π (s.expand xs) (s.expand ys) := by
  unfold Sugar.expand
  rw [arityProblem_eq s.arity s.name h]
  split
  · exact .form (.error _)
  · exact expansion_alike hinserted s h

end TreeLisp
