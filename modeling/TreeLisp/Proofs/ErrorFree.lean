import TreeLisp.Proofs.AlikeSelf
import TreeLisp.Proofs.SessionParallel
import TreeLisp.Proofs.World

/-!
# Errors are not stored

An error is only ever the whole result of an evaluation: none is an item of a list, a form of a
closure's body or a bound value. To say this of all that happens during an evaluation and not only
of its end, the evaluator is watched: a watched evaluation looks at the form, the store and the
result of every evaluation inside it and raises an alarm over the first error that is stored.

With the identity as the pairing and no errors permitted, values are alike when they are the same
value and no error is inside, so an evaluation that runs in parallel with itself stores no errors.
-/
namespace TreeLisp

mutual

/-- The value is not an error and no list or closure in it holds one. -/
def Value.errorFree : Value → Bool
  | .list items => itemsErrorFree items
  | .function _ _ ⟨_, _, body, _, _⟩ => itemsErrorFree body
  | .expander _ _ ⟨_, _, body, _, _⟩ => itemsErrorFree body
  | .error _ => false
  | _ => true

def Value.itemsErrorFree : List Value → Bool
  | [] => true
  | v :: vs => v.errorFree && itemsErrorFree vs

end

/-- Nothing but the value as a whole can be an error. -/
def Value.sound (v : Value) : Bool :=
  v.isError || v.errorFree

def Bindings.errorFree (bindings : Bindings) : Bool :=
  bindings.all fun b => b.2.errorFree

def Record.errorFree : Record → Bool
  | .expanding _ call => Value.itemsErrorFree call
  | .preludeFailed v => v.sound
  | _ => true

def Store.errorFree (s : Store) : Bool :=
  s.frames.all (fun frame => frame.bindings.errorFree) && s.journal.all Record.errorFree

theorem Value.sound_of_errorFree {v : Value} (h : v.errorFree = true) : v.sound = true := by
  simp [sound, h]

def noErrors : Permit := ⟨fun _ => True, False⟩

mutual

theorem Alike.sound : {v w : Value} → Alike noErrors π v w → v.sound = true
  | .list _, .list _, .list h => AllStored.errorFree h
  | .function _ _ ⟨_, _, _, _, _⟩, .function _ _ ⟨_, _, _, _, _⟩, .function _ _ _ hb =>
    AllStored.errorFree hb
  | .expander _ _ ⟨_, _, _, _, _⟩, .expander _ _ ⟨_, _, _, _, _⟩, .expander _ _ _ hb =>
    AllStored.errorFree hb
  | _, _, .nil => rfl
  | _, _, .bool _ => rfl
  | _, _, .int _ => rfl
  | _, _, .float _ => rfl
  | _, _, .string _ => rfl
  | _, _, .atom _ _ => rfl
  | _, _, .native _ => rfl
  | _, _, .sugar _ => rfl
  | _, _, .error _ => rfl

theorem AllStored.errorFree :
    {xs ys : List Value} → AllStored noErrors π xs ys → Value.itemsErrorFree xs = true
  | [], [], .nil => rfl
  | x :: _, _ :: _, .cons (.mk herror h) hs => by
    have hx : x.isError = false := Bool.eq_false_iff.mpr herror
    have hsound : x.sound = true := h.sound
    have hxs := AllStored.errorFree hs
    simp only [Value.sound, hx, Bool.false_or] at hsound
    rw [Value.itemsErrorFree, hsound, hxs]
    rfl

end

theorem Value.isError_of_errorFree {v : Value} (h : v.errorFree = true) : v.isError = false := by
  cases v <;> first | rfl | simp [errorFree] at h

mutual

theorem alike_of_errorFree :
    (v : Value) → v.errorFree = true → Alike noErrors .identity v v
  | .list items, h => .list (allStored_of_errorFree items h)
  | .function _ _ ⟨_, _, body, _, _⟩, h =>
    .function _ rfl (.self (fun _ => trivial) rfl) (allStored_of_errorFree body h)
  | .expander _ _ ⟨_, _, body, _, _⟩, h =>
    .expander _ rfl (.self (fun _ => trivial) rfl) (allStored_of_errorFree body h)
  | .nil, _ => .nil
  | .bool b, _ => .bool b
  | .int n, _ => .int n
  | .float x, _ => .float x
  | .string text, _ => .string text
  | .atom token, _ => .atom token trivial
  | .native n, _ => .native n
  | .sugar s, _ => .sugar s

theorem allStored_of_errorFree :
    (xs : List Value) → Value.itemsErrorFree xs = true → AllStored noErrors .identity xs xs
  | [], _ => .nil
  | x :: xs, h => by
    obtain ⟨hx, hxs⟩ : x.errorFree = true ∧ Value.itemsErrorFree xs = true := by
      simpa only [Value.itemsErrorFree, Bool.and_eq_true] using h
    have hstored := (alike_of_errorFree x hx).stored (Value.isError_of_errorFree hx)
    exact .cons hstored (allStored_of_errorFree xs hxs)

end

theorem stored_identity_iff {v w : Value} :
    Stored noErrors .identity v w ↔ v = w ∧ v.errorFree = true := by
  constructor
  · intro h
    have hv := AllStored.errorFree (.cons h .nil)
    simp only [Value.itemsErrorFree, Bool.and_true] at hv
    exact ⟨h.alike.eq_of_identity, hv⟩
  · rintro ⟨rfl, hv⟩
    exact (alike_of_errorFree v hv).stored (Value.isError_of_errorFree hv)

theorem alike_identity_iff {v w : Value} :
    Alike noErrors .identity v w ↔ v = w ∧ v.sound = true := by
  constructor
  · exact fun h => ⟨h.eq_of_identity, h.sound⟩
  · rintro ⟨rfl, hv⟩
    rcases Bool.or_eq_true_iff.mp hv with herror | hfree
    · cases v <;> first | exact .error _ | simp [Value.isError] at herror
    · exact alike_of_errorFree v hfree

theorem AllBound.errorFree {b c : Bindings} (h : AllBound noErrors .identity b c) :
    b = c ∧ b.errorFree = true := by
  induction h with
  | nil => exact ⟨rfl, rfl⟩
  | @cons entry entry' rest rest' hentry _ ih =>
    obtain ⟨hvalue, hfree⟩ := stored_identity_iff.mp hentry.value
    obtain ⟨rfl, hrest⟩ := ih
    refine ⟨by rw [Prod.ext hentry.name hvalue], ?_⟩
    simp only [Bindings.errorFree, List.all_cons, Bool.and_eq_true]
    exact ⟨hfree, hrest⟩

theorem Bindings.errorFree_insert {b : Bindings} (h : b.errorFree = true) {v : Value}
    (hv : v.errorFree = true) (name : String) : (b.insert name v).errorFree = true := by
  induction b with
  | nil => simpa [Bindings.insert, Bindings.errorFree] using hv
  | cons entry rest ih =>
    obtain ⟨key, old⟩ := entry
    simp only [Bindings.errorFree, List.all_cons, Bool.and_eq_true] at h ih
    by_cases hkey : key = name
    · simp [Bindings.insert, Bindings.errorFree, hkey, hv, h.2]
    · simp [Bindings.insert, Bindings.errorFree, hkey, h.1, ih h.2]

namespace Store

theorem errorFree_iff {s : Store} : s.errorFree = true ↔
    (∀ (id : FrameId) (frame : Frame), s.frames[id]? = some frame → frame.bindings.errorFree = true) ∧
      s.journal.all Record.errorFree = true := by
  rw [errorFree, Bool.and_eq_true, Array.all_eq_true']
  refine and_congr_left fun _ => ⟨fun h id frame hframe => ?_, fun h frame hframe => ?_⟩
  · exact h frame (Array.mem_of_getElem? hframe)
  · obtain ⟨id, hid⟩ := Array.getElem?_of_mem hframe
    exact h id frame hid

theorem errorFree_chainUpTo {s : Store} (h : s.errorFree = true) (fuel : Nat) (id : FrameId) :
    ∀ frame ∈ chainUpTo s.frames fuel id, frame.bindings.errorFree = true := by
  induction fuel generalizing id with
  | zero => simp [chainUpTo]
  | succ fuel ih =>
    intro frame hframe
    rw [chainUpTo] at hframe
    cases hid : s.frames[id]? with
    | none => simp [hid] at hframe
    | some own =>
      have hown := (errorFree_iff.mp h).1 id own hid
      cases hparent : own.parent with
      | none =>
        simp only [hid, hparent, List.mem_singleton] at hframe
        exact hframe ▸ hown
      | some parent =>
        simp only [hid, hparent, List.mem_cons] at hframe
        rcases hframe with rfl | hframe
        · exact hown
        · exact ih parent frame hframe

theorem errorFree_get {s : Store} (h : s.errorFree = true) {id : FrameId} {name : String}
    {v : Value} (hv : s.get? id name = some v) : v.errorFree = true := by
  obtain ⟨frame, hframe, hlookup⟩ := List.exists_of_findSome?_eq_some hv
  have hbindings := errorFree_chainUpTo h _ id frame hframe
  obtain ⟨before, after, hsplit, -⟩ := List.lookup_eq_some_iff.mp hlookup
  have hmem : (name, v) ∈ frame.bindings := by simp [hsplit]
  exact List.all_eq_true.mp hbindings _ hmem

theorem errorFree_set {s : Store} (h : s.errorFree = true) {v : Value} (hv : v.errorFree = true)
    (id : FrameId) (name : String) : (s.set id name v).errorFree = true := by
  obtain ⟨hframes, hjournal⟩ := errorFree_iff.mp h
  refine errorFree_iff.mpr ⟨fun other frame hframe => ?_, hjournal⟩
  simp only [set, Array.getElem?_modify] at hframe
  split at hframe
  · obtain ⟨old, hold, rfl⟩ := Option.map_eq_some_iff.mp hframe
    exact Bindings.errorFree_insert (hframes other old hold) hv name
  · exact hframes other frame hframe

theorem errorFree_addFrame {s : Store} (h : s.errorFree = true) {bindings : Bindings}
    (hbindings : bindings.errorFree = true) (parent : Option FrameId) :
    (s.addFrame parent bindings).2.errorFree = true := by
  simp only [errorFree, addFrame, Array.all_push, Bool.and_eq_true] at h ⊢
  exact ⟨⟨h.1, hbindings⟩, h.2⟩

theorem errorFree_addRecord {s : Store} (h : s.errorFree = true) {r : Record}
    (hr : r.errorFree = true) : (s.addRecord r).errorFree = true := by
  simp only [errorFree, addRecord, Array.all_push, Bool.and_eq_true] at h ⊢
  exact ⟨h.1, h.2, hr⟩

end Store

/-- Every frame and serial number stands for itself, in one store without errors. -/
def SameErrorFree : Correspondence := fun π s t =>
  π = .identity ∧ s = t ∧ s.errorFree = true

theorem Record.Alike.errorFree {r r' : Record} (h : r.Alike noErrors .identity r') :
    r = r' ∧ r.errorFree = true := by
  cases h with
  | expanding name h => exact ⟨by rw [AllStored.eq_of_identity h], AllStored.errorFree h⟩
  | calling name count => exact ⟨rfl, rfl⟩
  | preludeFailed h => exact ⟨by rw [h.eq_of_identity], h.sound⟩

theorem sameErrorFree_simulation : Simulation noErrors SameErrorFree where
  inserted _ _ := trivial
  argument _ := trivial
  distinct := by
    rintro _ _ _ ⟨rfl, -, -⟩ m n m' n' rfl rfl
    rfl
  get := by
    rintro _ s _ ⟨rfl, rfl, hs⟩ i _ rfl name -
    cases hv : s.get? i name with
    | none => exact .none
    | some v => exact .some (stored_identity_iff.mpr ⟨rfl, Store.errorFree_get hs hv⟩)
  set := by
    rintro _ s _ ⟨rfl, rfl, hs⟩ i _ rfl name - v w hvw
    obtain ⟨rfl, hv⟩ := stored_identity_iff.mp hvw
    exact ⟨rfl, rfl, Store.errorFree_set hs hv i name⟩
  addFrame := by
    rintro _ s _ ⟨rfl, rfl, hs⟩ i _ rfl b c hbc
    obtain ⟨rfl, hb⟩ := AllBound.errorFree hbc
    exact ⟨.identity, le_rfl, rfl, rfl, rfl, Store.errorFree_addFrame hs hb (some i)⟩
  newSerial := by
    rintro _ s _ ⟨rfl, rfl, hs⟩
    exact ⟨.identity, le_rfl, rfl, rfl, rfl, hs⟩
  record := by
    rintro _ s _ ⟨rfl, rfl, hs⟩ r r' hr
    obtain ⟨rfl, hfree⟩ := hr.errorFree
    exact ⟨rfl, rfl, Store.errorFree_addRecord hs hfree⟩

section

variable {ε α β : Type} {excused : ε → Prop} {post : Pairing → α → β → Prop}
  {m : EStateM ε Store α} {m' : EStateM ε Store β} {s : Store}

theorem Parallel.errorFree_after (h : Parallel SameErrorFree excused .identity post m m')
    (hexcused : ∀ e, ¬ excused e) (hs : s.errorFree = true) : (s.after m).errorFree = true := by
  have houtcomes := h s s ⟨rfl, rfl, hs⟩
  unfold Store.after
  generalize m.run s = r, m'.run s = r' at houtcomes ⊢
  cases houtcomes with
  | result _ hstore _ => exact hstore.2.2
  | fault _ _ hstore => exact hstore.2.2
  | excused he => exact absurd he (hexcused _)

end

/-- Raise the alarm when there is an error inside the form or the result, or in the store before or
after the evaluation. -/
def inspect (alarm : Fault) (ev : Evaluator) : Evaluator := fun form scope s =>
  if s.errorFree && form.sound then
    match ev form scope s with
    | .ok v t => if t.errorFree && v.sound then .ok v t else .error alarm t
    | .error f t => if t.errorFree then .error f t else .error alarm t
  else .error alarm s

/-- Evaluate, and inspect every evaluation at every level. -/
def watched (alarm : Fault) : Nat → Evaluator
  | 0 => fun _ _ => throw .nesting
  | bound + 1 => inspect alarm (evalStep (watched alarm bound))

-- The plain evaluation on the left guarantees what the inspection on the right looks for.
theorem inspect_together {ev ev' : Evaluator} (h : Together noErrors SameErrorFree never ev ev')
    (alarm : Fault) : Together noErrors SameErrorFree never ev (inspect alarm ev') := by
  rintro π v w i j hvw hframe s t ⟨rfl, rfl, hs⟩
  have houtcomes := h .identity v w i j hvw hframe s s ⟨rfl, rfl, hs⟩
  obtain ⟨rfl, hv⟩ := alike_identity_iff.mp hvw
  simp only [EStateM.run, inspect, hs, hv, Bool.and_self, if_true] at houtcomes ⊢
  generalize ev v i s = r, ev' v j s = r' at houtcomes ⊢
  cases houtcomes with
  | result hle hstore hpost =>
    obtain ⟨rfl, rfl, hfree⟩ := hstore
    obtain ⟨rfl, hsound⟩ := alike_identity_iff.mp hpost
    simp only [hfree, hsound, Bool.and_self, if_true]
    exact .result hle ⟨rfl, rfl, hfree⟩ hpost
  | fault f hle hstore =>
    obtain ⟨rfl, rfl, hfree⟩ := hstore
    simp only [hfree, if_true]
    exact .fault f hle ⟨rfl, rfl, hfree⟩
  | excused hf => exact absurd hf id

theorem watched_together (alarm : Fault) (bound : Nat) :
    Together noErrors SameErrorFree never (eval bound) (watched alarm bound) := by
  induction bound with
  | zero => exact fun π v w i j _ _ => .fault _
  | succ bound ih =>
    exact inspect_together (evalStep_together sameErrorFree_simulation ih) alarm

theorem watched_eq_eval (alarm : Fault) (bound : Nat) {form : Value} (scope : FrameId) {s : Store}
    (hs : s.errorFree = true) (hform : form.sound = true) :
    (watched alarm bound form scope).run s = (eval bound form scope).run s := by
  have hself := alike_identity_iff.mpr ⟨rfl, hform⟩
  have houtcomes := watched_together alarm bound .identity form form scope scope hself rfl s s
    ⟨rfl, rfl, hs⟩
  generalize (eval bound form scope).run s = r, (watched alarm bound form scope).run s = r'
    at houtcomes ⊢
  cases houtcomes with
  | result _ hstore hpost =>
    obtain ⟨rfl, rfl, -⟩ := hstore
    rw [hpost.eq_of_identity]
  | fault _ _ hstore => rw [hstore.2.1]
  | excused hf => exact absurd hf id

theorem TokenStream.errorFree_of_parse {stream next : TokenStream} {form : Value}
    (h : stream.parse = (.ok (some form), next)) : form.errorFree = true := by
  obtain ⟨d, -, -, rfl, -⟩ := exists_tree_of_parse h
  have hform : Alike noErrors .identity d.form d.form := d.form_alike fun _ => trivial
  have hd : d.form.isError = false := by cases d <;> rfl
  exact (stored_identity_iff.mp (hform.stored hd)).2

theorem evalAll_self_parallel (session : Session) (code : String) :
    Parallel SameErrorFree (Stop.Excused never) .identity
      (fun ρ => List.Forall₂ (Alike noErrors ρ)) (session.evalAll code) (session.evalAll code) :=
  evalAll_parallel (eval_together sameErrorFree_simulation _) (fun _ => trivial) rfl code

theorem evalPrelude_self_parallel (session : Session) (code : String) :
    Parallel SameErrorFree (Stop.Excused never) .identity (fun _ _ _ => True)
      (session.evalPrelude code) (session.evalPrelude code) :=
  evalPrelude_parallel sameErrorFree_simulation (eval_together sameErrorFree_simulation _)
    (fun _ => trivial) rfl code

theorem evalAll_sound (session : Session) (code : String) {s : Store} (hs : s.errorFree = true) :
    match (session.evalAll code).run s with
    | .ok results _ => results.all Value.sound = true
    | .error _ _ => True := by
  have houtcomes := evalAll_self_parallel session code s s ⟨rfl, rfl, hs⟩
  generalize (session.evalAll code).run s = r at houtcomes ⊢
  cases houtcomes with
  | result _ hstore hpost =>
    obtain ⟨rfl, -, -⟩ := hstore
    exact List.all_eq_true.mpr fun v hv => (List.forall₂_same.mp hpost v hv).sound
  | fault _ _ _ => trivial
  | excused _ => trivial

theorem World.errorFree_run (events : List Event) :
    (World.initial.run events).store.errorFree = true := by
  refine World.store_run (p := fun s => s.errorFree = true) ?_ ?_ ?_ ?_ events
  · exact fun s hs => Store.errorFree_addFrame hs rfl (some registry)
  · exact fun code session s hs =>
      (evalPrelude_self_parallel session code).errorFree_after Stop.not_excused hs
  · exact fun code session s hs =>
      (evalAll_self_parallel session code).errorFree_after Stop.not_excused hs
  · have hnatives : nativeBindings.errorFree = true := by decide
    simp [World.initial, Store.initial, Store.empty, Store.errorFree, hnatives]

/-- Whatever any sessions have evaluated, no error is stored: none is bound, and none is in a list
or a closure that is bound or in the journal. The results of a source text are errors as a whole or
not at all. During an evaluation, too, neither the forms evaluated, the expansions among them, nor
the results, nor the stores in between hold an error inside: no alarm goes off, for otherwise the
outcome would depend on the choice of the alarm. -/
theorem errors_not_stored :
    (∀ events : List Event, (World.initial.run events).store.errorFree = true) ∧
    (∀ (events : List Event) (session : Session) (code : String),
      match (session.evalAll code).run (World.initial.run events).store with
      | .ok results _ => results.all Value.sound = true
      | .error _ _ => True) ∧
    (∀ stream : TokenStream,
      match stream.parse with
      | (.ok (some form), _) => form.errorFree = true
      | _ => True) ∧
    (∀ (alarm : Fault) (levels : Nat) (form : Value) (scope : FrameId) (s : Store),
      s.errorFree = true → form.errorFree = true →
        (watched alarm levels form scope).run s = (eval levels form scope).run s) := by
  refine ⟨World.errorFree_run, ?_, ?_, ?_⟩
  · intro events session code
    exact evalAll_sound session code (World.errorFree_run events)
  · intro stream
    split
    · next hparse => exact TokenStream.errorFree_of_parse hparse
    · trivial
  · intro alarm levels form scope s hs hform
    exact watched_eq_eval alarm levels scope hs (Value.sound_of_errorFree hform)

/-- An error among the items of a list to be made is the result in the list's place. -/
theorem errors_not_stored_list_items :
    let s := (World.initial.run [.start]).store
    let form : Value := .list [.symbol "list", .list [.symbol "first"]]
    (s.errorFree = true ∧ form.errorFree = true) ∧
      (watched .miscount 4 form 1).run s = (eval 4 form 1).run s ∧
      ∃ message t, (eval 4 form 1).run s = .ok (.error message) t := by
  intro s form
  have hs : s.errorFree = true := errors_not_stored.1 [.start]
  refine ⟨⟨hs, rfl⟩, errors_not_stored.2.2.2 .miscount 4 form 1 s hs rfl, ?_⟩
  exact ⟨_, _, rfl⟩

end TreeLisp
