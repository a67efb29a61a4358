import TreeLisp.Proofs.ReadFirst
import TreeLisp.Proofs.Repeatable

/-!
# Chains of frames end at the natives

A frame is made below one that is already there, and keeps its parent. So the way from a frame to
its parent, and on from there, comes to ever older frames and ends, whatever the frames bind: the
callables in them may well lead back to frames on the way. It ends at the one frame that has no
parent, where the natives are. A name that is not bound on the way has the meaning that it has there.
-/
namespace TreeLisp

namespace Store

/-- From the frame one comes to its parent, to the parent of that, and so on, along these frames and
no further. -/
inductive Climbs (s : Store) : FrameId → List FrameId → Prop where
  | top {i : FrameId} {frame : Frame} (hframe : s.frames[i]? = some frame)
      (hparent : frame.parent = none) : Climbs s i [i]
  | up {i p : FrameId} {frame : Frame} {path : List FrameId} (hframe : s.frames[i]? = some frame)
      (hparent : frame.parent = some p) (hrest : Climbs s p path) : Climbs s i (i :: path)

variable {s : Store} {i : FrameId} {path : List FrameId}

theorem Grounded.exists_climbs (h : s.Grounded) (hi : i < s.frames.size) :
    ∃ path, s.Climbs i path := by
  induction i using Nat.strongRecOn with
  | _ i ih =>
    have hframe : s.frames[i]? = some s.frames[i] := Array.getElem?_eq_getElem hi
    cases hparent : s.frames[i].parent with
    | none => exact ⟨[i], .top hframe hparent⟩
    | some p =>
      have hlt : p < i := h.parent i _ p hframe hparent
      obtain ⟨path, hpath⟩ := ih p hlt (Nat.lt_trans hlt hi)
      exact ⟨i :: path, .up hframe hparent hpath⟩

namespace Climbs

theorem unique {path' : List FrameId} (h : s.Climbs i path) (h' : s.Climbs i path') :
    path = path' := by
  induction h generalizing path' with
  | top hframe hparent =>
    cases h' with
    | top => rfl
    | up hframe' hparent' =>
      obtain rfl := Option.some.inj (hframe.symm.trans hframe')
      cases hparent.symm.trans hparent'
  | up hframe hparent _ ih =>
    cases h' with
    | top hframe' hparent' =>
      obtain rfl := Option.some.inj (hframe.symm.trans hframe')
      cases hparent.symm.trans hparent'
    | up hframe' hparent' hrest' =>
      obtain rfl := Option.some.inj (hframe.symm.trans hframe')
      obtain rfl := Option.some.inj (hparent.symm.trans hparent')
      rw [ih hrest']

theorem mem_le (h : s.Climbs i path) (hs : s.Grounded) {j : FrameId} (hj : j ∈ path) : j ≤ i := by
  induction h with
  | top => exact Nat.le_of_eq (List.mem_singleton.mp hj)
  | @up i p frame path hframe hparent _ ih =>
    have hlt : p < i := hs.parent i frame p hframe hparent
    rcases List.mem_cons.mp hj with rfl | hj
    · exact Nat.le_refl j
    · exact Nat.le_trans (ih hj) (Nat.le_of_lt hlt)

theorem older (h : s.Climbs i path) (hs : s.Grounded) :
    path.Pairwise fun child ancestor => ancestor < child := by
  induction h with
  | top => exact List.pairwise_singleton _ _
  | @up i p frame path hframe hparent hrest ih =>
    have hlt : p < i := hs.parent i frame p hframe hparent
    exact List.pairwise_cons.mpr ⟨fun j hj => Nat.lt_of_le_of_lt (hrest.mem_le hs hj) hlt, ih⟩

theorem length_le (h : s.Climbs i path) (hs : s.Grounded) : path.length ≤ i + 1 := by
  induction h with
  | top => exact Nat.le_add_left 1 _
  | @up i p frame path hframe hparent _ ih =>
    have hlt : p < i := hs.parent i frame p hframe hparent
    exact Nat.succ_le_succ (Nat.le_trans ih hlt)

theorem exists_last (h : s.Climbs i path) :
    ∃ j frame, path.getLast? = some j ∧ s.frames[j]? = some frame ∧ frame.parent = none := by
  induction h with
  | @top i frame hframe hparent => exact ⟨i, frame, rfl, hframe, hparent⟩
  | @up i p frame path _ _ hrest ih =>
    obtain ⟨j, last, hlast, hframe, hparent⟩ := ih
    refine ⟨j, last, ?_, hframe, hparent⟩
    rw [List.getLast?_cons, hlast]
    rfl

theorem chainUpTo_eq (h : s.Climbs i path) {fuel : Nat} (hfuel : path.length ≤ fuel) :
    (chainUpTo s.frames fuel i).map some = path.map fun j => s.frames[j]? := by
  induction h generalizing fuel with
  | @top i frame hframe hparent =>
    obtain ⟨fuel, rfl⟩ := Nat.exists_eq_add_of_le' hfuel
    simp only [List.length_singleton, chainUpTo, hframe, hparent, List.map_cons, List.map_nil]
  | @up i p frame path hframe hparent _ ih =>
    obtain ⟨fuel, rfl⟩ := Nat.exists_eq_add_of_le' (Nat.le_trans (Nat.le_add_left 1 _) hfuel)
    have hrest := ih (Nat.le_of_succ_le_succ hfuel)
    simp only [chainUpTo, hframe, hparent, List.map_cons, hrest]

/-- What is computed from a chain takes account of every frame on the path. -/
theorem chain_eq (h : s.Climbs i path) (hs : s.Grounded) :
    (s.chain i).map some = path.map fun j => s.frames[j]? :=
  h.chainUpTo_eq (h.length_le hs)

theorem depth_eq (h : s.Climbs i path) (hs : s.Grounded) : s.depth i + 1 = path.length := by
  have hlength := congrArg List.length (h.chain_eq hs)
  rw [List.length_map, List.length_map] at hlength
  have hpos : 0 < path.length := by
    cases h <;> exact Nat.succ_pos _
  rw [depth]
  omega

theorem get?_eq (h : s.Climbs i path) (hs : s.Grounded) (name : String) :
    s.get? i name = path.findSome? fun j => s.own? j name := by
  have hchain := h.chain_eq hs
  rw [get?]
  generalize s.chain i = frames at hchain ⊢
  clear h
  induction path generalizing frames with
  | nil =>
    obtain rfl : frames = [] := List.map_eq_nil_iff.mp hchain
    rfl
  | cons j path ih =>
    cases frames with
    | nil => cases hchain
    | cons frame frames =>
      obtain ⟨hframe, hrest⟩ := List.cons.inj hchain
      have hown : s.own? j name = frame.bindings.lookup name := by
        rw [own?, ← show some frame = s.frames[j]? from hframe]
        rfl
      rw [List.findSome?_cons, List.findSome?_cons, ih frames hrest, hown]

end Climbs

end Store

def Store.IsTop (s : Store) (i : FrameId) : Prop :=
  s.frames[i]?.map Frame.parent = some none

/-- The frames without a parent are frames that were there before. -/
theorem isTop_effect : Effect fun _ s t => ∀ i, t.IsTop i → s.IsTop i where
  refl _ _ _ h := h
  trans h k i hi := h i (k i hi)
  record _ _ _ _ h := h
  serial _ _ _ h := h
  set scope s name v i h := by
    unfold Store.IsTop at h ⊢
    obtain ⟨frame, hframe, hparent⟩ := Option.map_eq_some_iff.mp h
    obtain ⟨old, hold, hsame, -⟩ := Store.getElem?_set hframe
    rw [hold, Option.map_some, ← hsame, hparent]
  child scope parent bindings s t h i hi := by
    have htop := h i hi
    unfold Store.IsTop at htop ⊢
    obtain ⟨frame, hframe, hparent⟩ := Option.map_eq_some_iff.mp htop
    rcases Store.getElem?_addFrame_cases hframe with hold | ⟨-, rfl⟩
    · rw [hold, Option.map_some, hparent]
    · cases hparent

theorem eq_registry_of_isTop (events : List Event) {i : FrameId}
    (h : (World.initial.run events).store.IsTop i) : i = registry := by
  have hall : ∀ j, (World.initial.run events).store.IsTop j → j = registry := by
    refine World.store_run (p := fun s => ∀ j, s.IsTop j → j = registry) ?_ ?_ ?_ ?_ events
    · intro s hs j hj
      have hold := isTop_effect.child registry registry [] s _ fun _ htop => htop
      exact hs j (hold j hj)
    · intro code session s hs j hj
      exact hs j (isTop_effect.evalPrelude_keeps session code s j hj)
    · intro code session s hs j hj
      exact hs j (isTop_effect.evalAll_keeps session code s j hj)
    · intro j hj
      obtain ⟨frame, hframe, -⟩ := Option.map_eq_some_iff.mp hj
      have hlt : j < 1 := (Array.getElem?_eq_some_iff.mp hframe).1
      exact Nat.lt_one_iff.mp hlt
  exact hall i h

theorem nodup_nativeNames : (nativeBindings.map Prod.fst).Nodup := by decide

theorem findSome?_of_unshadowed {s : Store} {path : List FrameId} {name : String} {v : Value}
    (hlast : path.getLast? = some registry) (hroot : s.own? registry name = some v)
    (hshadow : ∀ j ∈ path, j ≠ registry → s.own? j name = none) :
    path.findSome? (fun j => s.own? j name) = some v := by
  induction path with
  | nil => cases hlast
  | cons j rest ih =>
    by_cases hj : j = registry
    · rw [List.findSome?_cons, hj, hroot]
    · have hnone : s.own? j name = none := hshadow j List.mem_cons_self hj
      have hrest : rest.getLast? = some registry := by
        cases rest with
        | nil => exact absurd (Option.some.inj hlast) hj
        | cons => exact hlast
      rw [List.findSome?_cons, hnone]
      exact ih hrest fun k hk => hshadow k (List.mem_cons_of_mem j hk)

/-- The path from the frame leads to ever older frames and ends at the natives, and everything that
is asked of the frame is answered by a walk along the whole path. -/
structure Store.Rooted (s : Store) (i : FrameId) (path : List FrameId) : Prop where
  climbs : s.Climbs i path
  older : path.Pairwise fun child ancestor => ancestor < child
  last : path.getLast? = some registry
  depth : s.depth i + 1 = path.length
  text : s.chainText i = "<Scope chain: " ++
    " -> ".intercalate (path.filterMap fun j => s.frames[j]?.map Frame.text) ++ ">"
  get (name : String) : s.get? i name = path.findSome? fun j => s.own? j name
  isBound (name : String) : s.isBound i name = true ↔ ∃ j ∈ path, s.own? j name ≠ none
  native (b : String × Value) (hb : b ∈ nativeBindings)
    (hshadow : ∀ j ∈ path, j ≠ registry → s.own? j b.1 = none) : s.get? i b.1 = some b.2

theorem Store.Grounded.rooted {s : Store} (h : s.Grounded)
    (hnatives : s.frames[registry]? = some ⟨none, nativeBindings⟩)
    (htop : ∀ i, s.IsTop i → i = registry) {i : FrameId} (hi : i < s.frames.size) :
    ∃ path, s.Rooted i path := by
  obtain ⟨path, hpath⟩ := h.exists_climbs hi
  obtain ⟨j, frame, hlast, hframe, hparent⟩ := hpath.exists_last
  obtain rfl : j = registry := htop j (by rw [IsTop, hframe, Option.map_some, hparent])
  have hget := hpath.get?_eq h
  refine ⟨path, hpath, hpath.older h, hlast, hpath.depth_eq h, ?_, hget, ?_, ?_⟩
  · have htexts := congrArg (List.filterMap (Option.map Frame.text)) (hpath.chain_eq h)
    rw [List.filterMap_map, List.filterMap_map] at htexts
    have hmap :
        (s.chain i).map Frame.text = path.filterMap fun j => s.frames[j]?.map Frame.text := by
      rw [← List.filterMap_eq_map]
      exact htexts
    exact congrArg (fun texts => "<Scope chain: " ++ " -> ".intercalate texts ++ ">") hmap
  · intro name
    rw [isBound, hget name, Option.isSome_iff_ne_none, ne_eq, List.findSome?_eq_none_iff]
    simp
  · intro b hb hshadow
    have hroot : s.own? registry b.1 = some b.2 := by
      simp only [own?, hnatives, Option.bind_some, Bindings.lookup_of_mem nodup_nativeNames hb]
    exact (hget b.1).trans (findSome?_of_unshadowed hlast hroot hshadow)

theorem Store.Grounded.holds_results {s : Store} (h : s.Grounded) {session : Session}
    (hscope : session.scope < s.frames.size) {code : String} {results : List Value}
    (hresults : s.outcome (session.evalAll code) = .ok results) {v : Value} (hv : v ∈ results) :
    (s.after (session.evalAll code)).Holds v := by
  have hself : Store.Mirrored nowhere (.ofStore s) s s :=
    h.mirrored (fun _ _ => rfl) (Nat.le_refl _)
  have htogether : Together anything SameGrounded never (eval session.bound) (eval session.bound) :=
    eval_together sameGrounded_simulation session.bound
  have hframe : (Pairing.ofStore s).frame session.scope session.scope := ⟨rfl, hscope⟩
  have hparallel := evalAll_parallel htogether (fun _ => trivial) hframe code
  have houtcomes := hparallel s s ⟨rfl, rfl, hself⟩
  unfold after
  unfold outcome at hresults
  generalize (session.evalAll code).run s = r at houtcomes hresults ⊢
  cases houtcomes with
  | result _ hstore hpost =>
    obtain ⟨rfl, -, -⟩ := hstore
    cases hresults
    exact holds_of_alike (List.forall₂_same.mp hpost v hv)
  | fault => cases hresults
  | excused he => cases hresults

/-- The frame in which a callable was made is one of the store. What is inside of the value does not
count. -/
def Value.MadeIn (s : Store) (v : Value) : Prop :=
  ∀ c, v.closure? = some c → c.scope < s.frames.size

theorem Store.Holds.madeIn {s : Store} {v : Value} (h : s.Holds v) :
    v.Throughout (Value.MadeIn s) := by
  refine Value.Throughout.imp ?_ h
  intro w hw c hc
  cases w with
  | function | expander =>
    cases hc
    exact hw.2
  | _ => cases hc

/-- After any events of any sessions, every parent is older than its child, and from every frame of
the store a path leads to the natives. The frames of the sessions are frames of the store, and so
are those in which callables were made that are bound anywhere or that are in the results of a
further source text. -/
theorem frames_lead_to_natives (events : List Event) :
    let w := World.initial.run events
    (∀ (i p : FrameId) (frame : Frame), w.store.frames[i]? = some frame →
      frame.parent = some p → p < i) ∧
    (∀ i < w.store.frames.size, ∃ path, w.store.Rooted i path) ∧
    (∀ scope ∈ w.sessions, scope < w.store.frames.size) ∧
    (∀ (i : FrameId) (frame : Frame), w.store.frames[i]? = some frame →
      ∀ b ∈ frame.bindings, b.2.Throughout (Value.MadeIn w.store)) ∧
    (∀ (place levels : Nat) (scope : FrameId) (code : String) (results : List Value),
      w.sessions[place]? = some scope →
      w.store.outcome (Session.evalAll ⟨scope, levels⟩ code) = .ok results →
        let later := World.initial.run (events ++ [.eval place levels code])
        ∀ v ∈ results, v.Throughout (Value.MadeIn later.store)) := by
  intro w
  have hw : w.Grounded := World.Grounded.initial.run World.Intact.initial events
  have hintact : w.Intact := World.Intact.initial.run events
  refine ⟨fun i p frame => hw.store.parent i frame p, ?_, hw.sessions, ?_, ?_⟩
  · intro i hi
    exact hw.store.rooted hintact.natives (fun _ => eq_registry_of_isTop events) hi
  · intro i frame hframe b hb
    exact (hw.store.bound i frame hframe b hb).madeIn
  · intro place levels scope code results hplace hresults later v hv
    have hrun : later = w.step (.eval place levels code) := List.foldl_append
    have hlater : later.store = w.store.after (Session.evalAll ⟨scope, levels⟩ code) :=
      (congrArg World.store hrun).trans (World.store_step_eval hplace levels code)
    have hthere : scope < w.store.frames.size := hw.sessions scope (List.mem_of_getElem? hplace)
    rw [hlater]
    exact (hw.store.holds_results hthere hresults hv).madeIn

/-- A function that another one has made was made in the frame of that one's invocation. The frame
holds an argument and is below the frame of the session. -/
theorem frames_lead_to_natives_invocation :
    let events : List Event :=
      [.start, .eval 0 9 "(def make (fn (x) (fn (y) x)))", .eval 0 9 "(def f (make true))"]
    let s := (World.initial.run events).store
    let f : Value := .function 3 "f" ⟨["y"], none, [.symbol "x"], 2, "f"⟩
    let later := (World.initial.run (events ++ [.eval 0 9 "f"])).store
    s.Rooted 2 [2, 1, registry] ∧ s.get? 2 "x" = some (.bool true) ∧
      s.get? 2 "first" = some (.native (.operation .first)) ∧
      s.outcome (Session.evalAll ⟨1, 9⟩ "f") = .ok [f] ∧ f.Throughout (Value.MadeIn later) := by
  intro events s f later
  let session : Session := ⟨1, 9⟩
  let start := (World.initial.run [.start]).store
  let inner : Value := .list [.symbol "fn", .list [.symbol "y"], .symbol "x"]
  let make : Value := .function 1 "make" ⟨["x"], none, [inner], 1, "make"⟩
  let form : Value := .list [.symbol "def", .symbol "make",
    .list [.symbol "fn", .list [.symbol "x"], inner]]
  let form' : Value := .list [.symbol "def", .symbol "f", .list [.symbol "make", .symbol "true"]]
  let middle : Store := ⟨start.frames.set! 1 ⟨some 0, [("make", make)]⟩, 2, #[]⟩
  let after : Store := ⟨(start.frames.set! 1 ⟨some 0, [("make", make), ("f", f)]⟩).push
    ⟨some 1, [("x", .bool true)]⟩, 4, #[.calling "make" 1]⟩
  have hform : (eval 9 form 1).run start = .ok make middle := rfl
  have hform' : (eval 9 form' 1).run middle = .ok f after := rfl
  have hread : read "(def make (fn (x) (fn (y) x)))" = .ok [form] := rfl
  have hread' : read "(def f (make true))" = .ok [form'] := rfl
  let first := World.initial.run [.start, .eval 0 9 "(def make (fn (x) (fn (y) x)))"]
  have hfirst : first.store = middle :=
    World.store_eval_after_start hread (.next hform (.finish middle))
  have hplace : first.sessions[0]? = some 1 := rfl
  have hafter : session.Evaluates [form'] first.store [f] none after :=
    hfirst ▸ .next hform' (.finish after)
  have hstep := World.store_step_eval_of_evaluates hplace hread' hafter
  have hrun : s = (first.step (.eval 0 9 "(def f (make true))")).store := rfl
  have hstore : s = after := hrun.trans hstep
  have hresults : s.outcome (session.evalAll "f") = .ok [f] := by
    have hread'' : read "f" = .ok [.symbol "f"] := rfl
    have hname : (eval 9 (.symbol "f") 1).run after = .ok f after := rfl
    exact hstore ▸ Session.outcome_evalAll hread'' (.next hname (.finish after))
  have hclimbs : s.Climbs 2 [2, 1, registry] := by
    rw [hstore]
    exact .up rfl rfl (.up rfl rfl (.top rfl rfl))
  have hsize : 2 < s.frames.size := by
    rw [hstore]
    decide
  obtain ⟨-, hrooted, -, -, hfurther⟩ := frames_lead_to_natives events
  have hpath : s.Rooted 2 [2, 1, registry] := by
    obtain ⟨path, hpath⟩ := hrooted 2 hsize
    exact hclimbs.unique hpath.climbs ▸ hpath
  refine ⟨hpath, ?_, ?_, hresults, ?_⟩
  · rw [hpath.get, hstore]
    rfl
  · have hnative : Native.operation .first ∈ Native.all := by decide
    apply hpath.native _ (List.mem_append_left _ (List.mem_map_of_mem hnative))
    rw [hstore]
    intro j hj hne
    simp only [List.mem_cons, List.not_mem_nil, or_false] at hj
    rcases hj with rfl | rfl | rfl
    · rfl
    · rfl
    · exact absurd rfl hne
  · exact hfurther 0 9 1 "f" [f] rfl hresults f List.mem_cons_self

end TreeLisp
