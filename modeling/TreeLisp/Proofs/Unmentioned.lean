import TreeLisp.Proofs.AlikeSelf
import TreeLisp.Proofs.Frames
import TreeLisp.Proofs.SessionParallel
import TreeLisp.Proofs.World

/-!
# Names that are not mentioned

A name that occurs in nothing an evaluation can get to does not matter to it, whatever the name is
bound to and wherever. Evaluation makes no names of its own, apart from those that sugar puts into
code and those under which arguments are passed. So with and without the binding an evaluation looks
up the same names and finds the same values, and the binding itself stays as it was.
-/
namespace TreeLisp

/-- The value is an atom of that text or has a parameter of that name. What is inside of the value
does not count. -/
def Value.mentions (x : String) : Value → Bool
  | .atom token => token.text == x
  | .function _ _ c | .expander _ _ c => c.params.contains x || c.rest == some x
  | _ => false

/-- The frames that an evaluation of a form in a frame can get to: their parents and the frames of
the closures in the form and in what is bound. Bindings of the name `x` are left out. -/
inductive Store.Reaches (s : Store) (x : String) (form : Value) (scope : FrameId) :
    FrameId → Prop where
  | start : Reaches s x form scope scope
  | parent {i p : FrameId} {frame : Frame} (h : Reaches s x form scope i)
      (hframe : s.frames[i]? = some frame) (hp : frame.parent = some p) : Reaches s x form scope p
  | written {w : Value} {c : Closure Value} (hw : w.OccursIn form) (hc : w.closure? = some c) :
      Reaches s x form scope c.scope
  | bound {i : FrameId} {frame : Frame} {b : String × Value} {w : Value} {c : Closure Value}
      (h : Reaches s x form scope i) (hframe : s.frames[i]? = some frame)
      (hb : b ∈ frame.bindings) (hname : b.1 ≠ x) (hw : w.OccursIn b.2)
      (hc : w.closure? = some c) : Reaches s x form scope c.scope

/-- Nothing that an evaluation of the form in the frame can get to mentions the name, what the name
itself is bound to apart. -/
structure Store.Unmentioned (s : Store) (x : String) (form : Value) (scope : FrameId) : Prop where
  written : form.Throughout fun w => w.mentions x = false
  bound (i : FrameId) (frame : Frame) (h : s.Reaches x form scope i)
    (hframe : s.frames[i]? = some frame) (b : String × Value) (hb : b ∈ frame.bindings)
    (hname : b.1 ≠ x) : b.2.Throughout fun w => w.mentions x = false

/-- To see that a name is not mentioned, any collection of frames will do that an evaluation cannot
leave. -/
theorem Store.unmentioned_of_closed {s : Store} {x : String} {form : Value} {scope : FrameId}
    (frames : FrameId → Prop) (hscope : frames scope)
    (hparent : ∀ i frame p, frames i → s.frames[i]? = some frame → frame.parent = some p → frames p)
    (hform : form.Throughout fun w =>
      w.mentions x = false ∧ ∀ c, w.closure? = some c → frames c.scope)
    (hbound : ∀ i frame, frames i → s.frames[i]? = some frame → ∀ b ∈ frame.bindings, b.1 ≠ x →
      b.2.Throughout fun w => w.mentions x = false ∧ ∀ c, w.closure? = some c → frames c.scope) :
    s.Unmentioned x form scope := by
  have hreaches {i : FrameId} (h : s.Reaches x form scope i) : frames i := by
    induction h with
    | start => exact hscope
    | parent _ hframe hp ih => exact hparent _ _ _ ih hframe hp
    | written hw hc => exact (hform _ hw).2 _ hc
    | bound _ hframe hb hname hw hc ih => exact (hbound _ _ ih hframe _ hb hname _ hw).2 _ hc
  constructor
  · exact hform.imp fun w hw => hw.1
  · intro i frame hi hframe b hb hname
    exact (hbound i frame (hreaches hi) hframe b hb hname).imp fun w hw => hw.1

def Bindings.without (x : String) (bindings : Bindings) : Bindings :=
  bindings.filter fun b => b.1 != x

theorem Bindings.without_insert_self (b : Bindings) (x : String) (v : Value) :
    (b.insert x v).without x = b.without x := by
  induction b with
  | nil => simp [Bindings.insert, without]
  | cons entry rest ih =>
    obtain ⟨key, old⟩ := entry
    by_cases hkey : key = x
    · simp [Bindings.insert, without, hkey]
    · simpa [Bindings.insert, without, hkey] using ih

theorem Bindings.without_insert {name x : String} (hname : name ≠ x) (b : Bindings) (v : Value) :
    (b.insert name v).without x = (b.without x).insert name v := by
  induction b with
  | nil => simp [Bindings.insert, without, hname]
  | cons entry rest ih =>
    obtain ⟨key, old⟩ := entry
    by_cases hkey : key = name
    · simp [Bindings.insert, without, hkey, hname]
    · by_cases hx : key = x
      · simpa [Bindings.insert, without, hkey, hx, Ne.symm hname] using ih
      · simpa [Bindings.insert, without, hkey, hx] using ih

theorem Bindings.lookup_without {name x : String} (hname : name ≠ x) (b : Bindings) :
    (b.without x).lookup name = b.lookup name := by
  induction b with
  | nil => rfl
  | cons entry rest ih =>
    obtain ⟨key, old⟩ := entry
    by_cases hx : key = x
    · have hne : (name == key) = false := beq_eq_false_iff_ne.mpr (hx ▸ hname)
      have hdrop : Bindings.without x ((key, old) :: rest) = Bindings.without x rest := by
        simp [without, hx]
      rw [hdrop, ih, List.lookup_cons, hne]
    · have hkeep : Bindings.without x ((key, old) :: rest) =
          (key, old) :: Bindings.without x rest := by
        simp [without, hx]
      rw [hkeep, List.lookup_cons, List.lookup_cons, ih]

namespace Store

/-- The store without the binding of a name in one frame. -/
def without (s : Store) (place : FrameId) (x : String) : Store :=
  { s with frames := s.frames.modify place fun frame =>
      { frame with bindings := frame.bindings.without x } }

variable {s t : Store} {place i : FrameId} {x name : String}

theorem size_without (s : Store) (place : FrameId) (x : String) :
    (s.without place x).frames.size = s.frames.size :=
  Array.size_modify

theorem get?_without (hname : name ≠ x) : (s.without place x).get? i name = s.get? i name := by
  apply get?_congr
  intro k
  simp only [without, Array.getElem?_modify]
  cases hk : s.frames[k]? with
  | none => split <;> exact .none
  | some frame =>
    split
    · exact .some ⟨rfl, Bindings.lookup_without hname _⟩
    · exact .some ⟨rfl, rfl⟩

theorem without_set_self (s : Store) (place : FrameId) (x : String) (v : Value) :
    (s.set place x v).without place x = s.without place x := by
  refine ext_frames (fun k => ?_) rfl rfl
  simp only [without, set, Array.getElem?_modify]
  by_cases hk : place = k
  · simp only [if_pos hk, Option.map_map]
    cases s.frames[k]? with
    | none => rfl
    | some frame =>
      have hbindings := frame.bindings.without_insert_self x v
      simp only [Option.map_some, Function.comp, hbindings]
  · simp only [if_neg hk]

theorem without_set (hname : name ≠ x) (s : Store) (place i : FrameId) (v : Value) :
    (s.set i name v).without place x = (s.without place x).set i name v := by
  refine ext_frames (fun k => ?_) rfl rfl
  simp only [without, set, Array.getElem?_modify]
  by_cases hi : i = k
  · by_cases hplace : place = k
    · simp only [if_pos hi, if_pos hplace, Option.map_map]
      cases s.frames[k]? with
      | none => rfl
      | some frame =>
        have hbindings := frame.bindings.without_insert hname v
        simp only [Option.map_some, Function.comp, hbindings]
    · simp only [if_pos hi, if_neg hplace]
  · simp only [if_neg hi]

theorem without_addFrame (hplace : place < s.frames.size) (parent : Option FrameId)
    (bindings : Bindings) : (s.addFrame parent bindings).2.without place x =
      ((s.without place x).addFrame parent bindings).2 := by
  refine ext_frames (fun k => ?_) rfl rfl
  simp only [without, addFrame, Array.getElem?_modify, Array.getElem?_push, Array.size_modify]
  by_cases hk : place = k
  · have hne : k ≠ s.frames.size := Nat.ne_of_lt (hk ▸ hplace)
    simp only [if_pos hk, if_neg hne]
  · simp only [if_neg hk]

end Store

def unnamed (x : String) : Permit := ⟨(· ≠ x), True⟩

namespace Pairing

/-- Some frames and all serial numbers, each standing for itself. -/
def among (frames : FrameId → Prop) : Pairing := ⟨fun i j => i = j ∧ frames i, Eq⟩

theorem among_le_identity (frames : FrameId → Prop) : among frames ≤ .identity :=
  ⟨fun _ _ h => h.1, fun _ _ h => h⟩

theorem among_mono {frames more : FrameId → Prop} (h : ∀ i, frames i → more i) :
    among frames ≤ among more :=
  ⟨fun i _ hij => ⟨hij.1, h i hij.2⟩, fun _ _ hmn => hmn⟩

end Pairing

/-- The frames are closed under parents, and nothing that they bind, the name `x` apart, mentions
the name or leads out of them. -/
structure Store.Closed (x : String) (frames : FrameId → Prop) (s : Store) : Prop where
  parent (i : FrameId) (frame : Frame) (p : FrameId) (hi : frames i)
    (hframe : s.frames[i]? = some frame) (hp : frame.parent = some p) : frames p
  bound (i : FrameId) (frame : Frame) (hi : frames i) (hframe : s.frames[i]? = some frame)
    (b : String × Value) (hb : b ∈ frame.bindings) (hname : b.1 ≠ x) :
    Stored (unnamed x) (.among frames) b.2 b.2

namespace Store.Closed

variable {x : String} {frames : FrameId → Prop} {s : Store}

theorem get (h : s.Closed x frames) {i : FrameId} (hi : frames i) {name : String}
    (hname : name ≠ x) {v : Value} (hv : s.get? i name = some v) :
    Stored (unnamed x) (.among frames) v v := by
  obtain ⟨k, frame, hk, hframe, hb⟩ := exists_binding h.parent hi hv
  exact h.bound k frame hk hframe (name, v) hb hname

theorem set (h : s.Closed x frames) (i : FrameId) (name : String) {v : Value}
    (hv : Stored (unnamed x) (.among frames) v v) : (s.set i name v).Closed x frames where
  parent k frame p hk hframe hp := by
    obtain ⟨old, hold, hparent, -⟩ := getElem?_set hframe
    exact h.parent k old p hk hold (hparent ▸ hp)
  bound k frame hk hframe b hb hname := by
    obtain ⟨old, hold, -, hbindings⟩ := getElem?_set hframe
    rw [hbindings] at hb
    split at hb
    · rcases Bindings.mem_insert hb with rfl | hb
      · exact hv
      · exact h.bound k old hk hold b hb hname
    · exact h.bound k old hk hold b hb hname

theorem addFrame (h : s.Closed x frames) {i : FrameId} (hi : frames i) {bindings : Bindings}
    (hbindings : AllBound (unnamed x) (.among frames) bindings bindings) :
    (s.addFrame (some i) bindings).2.Closed x fun k => frames k ∨ k = s.frames.size := by
  have hmono : Pairing.among frames ≤ .among fun k => frames k ∨ k = s.frames.size :=
    Pairing.among_mono fun k hk => .inl hk
  -- a frame of the collection that was not there before is the new one
  have hcases {k : FrameId} {frame : Frame} (hk : frames k ∨ k = s.frames.size)
      (hframe : (s.addFrame (some i) bindings).2.frames[k]? = some frame) :
      frames k ∧ s.frames[k]? = some frame ∨ frame = ⟨some i, bindings⟩ := by
    rcases getElem?_addFrame_cases hframe with hold | ⟨-, hnew⟩
    · rcases hk with hk | rfl
      · exact .inl ⟨hk, hold⟩
      · simp at hold
    · exact .inr hnew
  constructor
  · intro k frame p hk hframe hp
    rcases hcases hk hframe with ⟨hk, hold⟩ | rfl
    · exact .inl (h.parent k frame p hk hold hp)
    · exact .inl (Option.some.inj hp ▸ hi)
  · intro k frame hk hframe b hb hname
    rcases hcases hk hframe with ⟨hk, hold⟩ | rfl
    · exact (h.bound k frame hk hold b hb hname).mono hmono
    · exact (List.forall₂_same.mp hbindings b hb).value.mono hmono

end Store.Closed

/-- The stores are the same apart from what `x` is bound to in one frame, and there the bindings are
the given ones. -/
structure Store.DifferAt (x : String) (place : FrameId) (own own' : Option Value) (π : Pairing)
    (s t : Store) : Prop where
  closed : ∃ frames, π = .among frames ∧ s.Closed x frames
  same : s.without place x = t.without place x
  there : place < s.frames.size
  first : s.own? place x = own
  second : t.own? place x = own'

namespace Store.DifferAt

variable {x : String} {place : FrameId} {own own' : Option Value} {π : Pairing} {s t : Store}

theorem size_eq (h : DifferAt x place own own' π s t) : s.frames.size = t.frames.size := by
  have hsize := congrArg (fun u : Store => u.frames.size) h.same
  simpa only [size_without] using hsize

theorem serial_eq (h : DifferAt x place own own' π s t) : s.serial = t.serial := by
  have hserial : (s.without place x).serial = (t.without place x).serial := by rw [h.same]
  exact hserial

theorem get?_eq (h : DifferAt x place own own' π s t) {name : String} (hname : name ≠ x)
    (i : FrameId) : s.get? i name = t.get? i name := by
  calc s.get? i name = (s.without place x).get? i name := (get?_without hname).symm
    _ = (t.without place x).get? i name := by rw [h.same]
    _ = t.get? i name := get?_without hname

theorem set (h : DifferAt x place own own' π s t) (i : FrameId) {name : String}
    (hname : name ≠ x) {v : Value} (hv : Stored (unnamed x) π v v) :
    DifferAt x place own own' π (s.set i name v) (t.set i name v) := by
  obtain ⟨frames, rfl, hclosed⟩ := h.closed
  constructor
  · exact ⟨frames, rfl, hclosed.set i name hv⟩
  · rw [without_set hname, without_set hname, h.same]
  · rw [Store.set, Array.size_modify]
    exact h.there
  · rw [own?_set hname, h.first]
  · rw [own?_set hname, h.second]

theorem addFrame (h : DifferAt x place own own' π s t) {i : FrameId} (hi : π.frame i i)
    {bindings : Bindings} (hbindings : AllBound (unnamed x) π bindings bindings) :
    ∃ ρ, π ≤ ρ ∧ ρ.frame s.frames.size t.frames.size ∧
      DifferAt x place own own' ρ (s.addFrame (some i) bindings).2
        (t.addFrame (some i) bindings).2 := by
  obtain ⟨frames, rfl, hclosed⟩ := h.closed
  have hthere : place < t.frames.size := h.size_eq ▸ h.there
  refine ⟨.among fun k => frames k ∨ k = s.frames.size, Pairing.among_mono fun k hk => .inl hk,
    ⟨h.size_eq, .inr rfl⟩, ?_⟩
  constructor
  · exact ⟨_, rfl, hclosed.addFrame hi.2 hbindings⟩
  · rw [without_addFrame h.there, without_addFrame hthere, h.same]
  · rw [Store.addFrame, Array.size_push]
    exact Nat.lt_succ_of_lt h.there
  · rw [own?_addFrame h.there, h.first]
  · rw [own?_addFrame hthere, h.second]

end Store.DifferAt

theorem differAt_simulation {x : String} (hinserted : x ∉ Sugar.inserted)
    (hargument : ∀ i, x ≠ argumentName i) (place : FrameId) (own own' : Option Value) :
    Simulation (unnamed x) (Store.DifferAt x place own own') where
  inserted name hname := by
    rintro rfl
    exact hinserted hname
  argument i := (hargument i).symm
  distinct := by
    intro π s t h m n m' n' hmn hmn'
    obtain ⟨frames, rfl, -⟩ := h.closed
    rw [show m = n from hmn, show m' = n' from hmn']
  get := by
    intro π s t h i j hframe name hname
    obtain ⟨frames, rfl, hclosed⟩ := h.closed
    obtain ⟨rfl, hi⟩ := hframe
    rw [← h.get?_eq hname i]
    cases hv : s.get? i name with
    | none => exact .none
    | some v => exact .some (hclosed.get hi hname hv)
  set := by
    intro π s t h i j hframe name hname v w hvalue
    have hle : π ≤ .identity := by
      obtain ⟨frames, rfl, -⟩ := h.closed
      exact Pairing.among_le_identity frames
    obtain rfl : i = j := Pairing.frame_mono hle hframe
    obtain rfl : v = w := hvalue.alike.eq_of_le hle
    exact h.set i hname hvalue
  addFrame := by
    intro π s t h i j hframe b c hbindings
    have hle : π ≤ .identity := by
      obtain ⟨frames, rfl, -⟩ := h.closed
      exact Pairing.among_le_identity frames
    obtain rfl : i = j := Pairing.frame_mono hle hframe
    obtain rfl : b = c := hbindings.eq_of_le hle
    exact h.addFrame hframe hbindings
  newSerial := by
    intro π s t h
    obtain ⟨frames, rfl, hclosed⟩ := h.closed
    refine ⟨_, le_rfl, h.serial_eq, ⟨frames, rfl, hclosed.parent, hclosed.bound⟩, ?_, h.there,
      h.first, h.second⟩
    exact congrArg (fun u : Store => { u with serial := u.serial + 1 }) h.same
  record := by
    intro π s t h r r' hrecord
    obtain ⟨frames, rfl, hclosed⟩ := h.closed
    obtain rfl : r = r' := hrecord.eq_of_le (Pairing.among_le_identity frames)
    refine ⟨⟨frames, rfl, hclosed.parent, hclosed.bound⟩, ?_, h.there, h.first, h.second⟩
    exact congrArg (fun u : Store => u.addRecord r) h.same

theorem Store.Unmentioned.admitted {s : Store} {x : String} {form : Value} {scope : FrameId}
    {v : Value} (hmentions : v.Throughout fun w => w.mentions x = false)
    (hscopes : ∀ (w : Value) (c : Closure Value), w.OccursIn v → w.closure? = some c →
      s.Reaches x form scope c.scope) :
    v.Throughout (Value.Admitted (unnamed x) (.among (s.Reaches x form scope))) := by
  have hclosure {w : Value} {c : Closure Value} (hw : w.OccursIn v) (hc : w.closure? = some c)
      (hnot : (c.params.contains x || c.rest == some x) = false) :
      c.Aligned (unnamed x) (.among (s.Reaches x form scope)) c := by
    rw [Bool.or_eq_false_iff, beq_eq_false_iff_ne] at hnot
    refine ⟨rfl, rfl, rfl, ⟨rfl, hscopes w c hw hc⟩, ?_, ?_⟩
    · rintro y hy rfl
      exact Bool.false_ne_true (hnot.1.symm.trans (List.contains_iff_mem.mpr hy))
    · rintro y hy rfl
      exact hnot.2 hy
  intro w hw
  have hnot := hmentions w hw
  cases w with
  | atom token => exact beq_eq_false_iff_ne.mp hnot
  | function serial name c => exact ⟨rfl, hclosure hw rfl hnot⟩
  | expander serial name c => exact ⟨rfl, hclosure hw rfl hnot⟩
  | _ => trivial

theorem Store.Unmentioned.closed {s : Store} {x : String} {form : Value} {scope : FrameId}
    (h : s.Unmentioned x form scope) : s.Closed x (s.Reaches x form scope) where
  parent _ _ _ hi hframe hp := .parent hi hframe hp
  bound i frame hi hframe b hb hname := by
    apply Stored.self trivial
    apply admitted (h.bound i frame hi hframe b hb hname)
    intro w c hw hc
    exact .bound hi hframe hb hname hw hc

/-- Binding or rebinding a name in any frame leaves an evaluation as it is, result, fault and final
store alike, when the name is mentioned in nothing that the evaluation can get to, is not inserted
by sugar and is not one under which arguments are passed. The stores left differ in that binding
only: it is still there as it was made, and where it was not made, it still is not. -/
theorem eval_of_unmentioned (bound : Nat) (form : Value) (scope : FrameId) (s : Store) (x : String)
    (hunmentioned : s.Unmentioned x form scope) (hinserted : x ∉ Sugar.inserted)
    (hargument : ∀ i, x ≠ argumentName i) (place : FrameId) (hplace : place < s.frames.size)
    (v : Value) :
    let run := eval bound form scope
    let t := s.set place x v
    t.outcome run = s.outcome run ∧
      (t.after run).without place x = (s.after run).without place x ∧
      (t.after run).own? place x = some v ∧ (s.after run).own? place x = s.own? place x := by
  intro run t
  have hform : Alike (unnamed x) (.among (s.Reaches x form scope)) form form := by
    apply Alike.self trivial
    exact Store.Unmentioned.admitted hunmentioned.written fun w c hw hc => .written hw hc
  have hstart : Store.DifferAt x place (s.own? place x) (some v)
      (.among (s.Reaches x form scope)) s t :=
    ⟨⟨_, rfl, hunmentioned.closed⟩, (s.without_set_self place x v).symm, hplace, rfl,
      Store.own?_set_self hplace v⟩
  have htogether : Together (unnamed x) (Store.DifferAt x place (s.own? place x) (some v)) never
      (eval bound) (eval bound) :=
    eval_together (differAt_simulation hinserted hargument place _ _) bound
  have houtcomes := htogether _ form form scope scope hform ⟨rfl, .start⟩ s t hstart
  simp only [Store.outcome, Store.after]
  generalize run.run s = r, run.run t = r' at houtcomes ⊢
  cases houtcomes with
  | result _ hstore hpost =>
    obtain ⟨frames, rfl, -⟩ := hstore.closed
    rw [hpost.eq_of_le (Pairing.among_le_identity frames)]
    exact ⟨rfl, hstore.same.symm, hstore.second, hstore.first⟩
  | fault f _ hstore => exact ⟨rfl, hstore.same.symm, hstore.second, hstore.first⟩
  | excused h => exact absurd h id

/-- The native `rest` can be rebound, in the frame of the natives itself, without a change to the
call of a function that does not mention it. -/
theorem eval_of_unmentioned_native :
    let f : Value := .function 0 "f" ⟨["n"], none, [.list [.symbol "list", .symbol "n"]], 1, "f"⟩
    let s := (World.initial.run [.start]).store.set 1 "f" f
    let form : Value := .list [.symbol "f", .list [.symbol "quote", .symbol "y"]]
    let run := eval 4 form 1
    let t := s.set registry "rest" form
    (s.Unmentioned "rest" form 1 ∧ "rest" ∉ Sugar.inserted ∧ (∀ i, "rest" ≠ argumentName i) ∧
        registry < s.frames.size) ∧
      t.outcome run = s.outcome run ∧
      (t.after run).without registry "rest" = (s.after run).without registry "rest" ∧
      (t.after run).own? registry "rest" = some form ∧
      (s.after run).own? registry "rest" = s.own? registry "rest" := by
  intro f s form run t
  have hunmentioned : s.Unmentioned "rest" form 1 := by
    have hframes (i : FrameId) (frame : Frame) (hi : i ≤ 1) (hframe : s.frames[i]? = some frame) :
        frame = ⟨none, nativeBindings⟩ ∨ frame = ⟨some registry, [("f", f)]⟩ := by
      match i, hi with
      | 0, _ => exact .inl (Option.some.inj hframe).symm
      | 1, _ => exact .inr (Option.some.inj hframe).symm
    apply Store.unmentioned_of_closed (fun i => i ≤ 1) (Nat.le_refl 1)
    · intro i frame p hi hframe hp
      rcases hframes i frame hi hframe with rfl | rfl
      · cases hp
      · cases hp
        exact Nat.zero_le 1
    · simp only [form, Value.throughout_list, Value.throughout_symbol, List.forall_mem_cons]
      simp [Value.symbol, Value.mentions, Value.closure?, Token.ofName]
    · intro i frame hi hframe b hb _
      rcases hframes i frame hi hframe with rfl | rfl
      · rcases mem_nativeBindings hb with ⟨n, rfl⟩ | ⟨n, rfl⟩
        · simp only [Value.throughout_native]
          simp [Value.mentions, Value.closure?]
        · simp only [Value.throughout_sugar]
          simp [Value.mentions, Value.closure?]
      · obtain rfl := List.mem_singleton.mp hb
        simp only [f, Value.throughout_function, Value.throughout_list, Value.throughout_symbol,
          List.forall_mem_cons]
        simp [Value.symbol, Value.mentions, Value.closure?, Token.ofName]
  have hinserted : "rest" ∉ Sugar.inserted := by decide
  have hargument (i : Nat) : "rest" ≠ argumentName i := by
    intro h
    have hfirst := congrArg (fun text : String => text.toList.head?) h
    simp [argumentName] at hfirst
  have hthere : registry < s.frames.size := by decide
  exact ⟨⟨hunmentioned, hinserted, hargument, hthere⟩,
    eval_of_unmentioned 4 form 1 s "rest" hunmentioned hinserted hargument registry hthere form⟩

end TreeLisp
