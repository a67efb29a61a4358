import Mathlib.Data.Option.Basic
import TreeLisp.Store

/-!
# Frames and what they bind

Binding a name in a frame changes what the frame says about that name and about no other, and
changes no other frame. What a name means in a frame is decided by the parents of the frames and by
what each of them binds the name to.
-/
namespace TreeLisp

theorem Bindings.mem_insert {b : Bindings} {name : String} {v : Value} {entry : String × Value}
    (h : entry ∈ b.insert name v) : entry = (name, v) ∨ entry ∈ b := by
  induction b with
  | nil => exact .inl (List.mem_singleton.mp h)
  | cons first rest ih =>
    obtain ⟨key, old⟩ := first
    by_cases hkey : key = name
    · rw [Bindings.insert, if_pos hkey] at h
      rcases List.mem_cons.mp h with hnew | hrest
      · exact .inl hnew
      · exact .inr (List.mem_cons_of_mem _ hrest)
    · rw [Bindings.insert, if_neg hkey] at h
      rcases List.mem_cons.mp h with hfirst | hrest
      · exact .inr (hfirst ▸ List.mem_cons_self)
      · exact (ih hrest).imp id (List.mem_cons_of_mem _)

theorem Bindings.lookup_insert_self (b : Bindings) (x : String) (v : Value) :
    (b.insert x v).lookup x = some v := by
  induction b with
  | nil => simp [Bindings.insert]
  | cons entry rest ih =>
    obtain ⟨key, old⟩ := entry
    by_cases hkey : key = x
    · simp [Bindings.insert, hkey]
    · have hne : (x == key) = false := beq_eq_false_iff_ne.mpr (Ne.symm hkey)
      rw [Bindings.insert, if_neg hkey, List.lookup_cons, hne, ih]

theorem Bindings.lookup_insert_of_ne {name x : String} (hname : name ≠ x) (b : Bindings)
    (v : Value) : (b.insert name v).lookup x = b.lookup x := by
  induction b with
  | nil =>
    have hne : (x == name) = false := beq_eq_false_iff_ne.mpr (Ne.symm hname)
    rw [Bindings.insert, List.lookup_cons, hne]
  | cons entry rest ih =>
    obtain ⟨key, old⟩ := entry
    by_cases hkey : key = name
    · have hne : (x == name) = false := beq_eq_false_iff_ne.mpr (Ne.symm hname)
      rw [Bindings.insert, if_pos hkey, List.lookup_cons, List.lookup_cons, hkey, hne]
    · rw [Bindings.insert, if_neg hkey, List.lookup_cons, List.lookup_cons, ih]

theorem Bindings.lookup_of_mem {bindings : Bindings} (hnames : (bindings.map Prod.fst).Nodup)
    {b : String × Value} (h : b ∈ bindings) : bindings.lookup b.1 = some b.2 := by
  obtain ⟨front, back, rfl⟩ := List.append_of_mem h
  apply List.lookup_eq_some_iff.mpr
  refine ⟨front, back, rfl, ?_⟩
  intro other hother
  rw [List.map_append, List.map_cons] at hnames
  have hne := (List.nodup_append.mp hnames).2.2 other.1 (List.mem_map_of_mem hother) b.1
    List.mem_cons_self
  simpa using hne.symm

namespace Store

variable {s t : Store} {i : FrameId} {name : String}

theorem ext_frames (hframes : ∀ i : FrameId, s.frames[i]? = t.frames[i]?)
    (hserial : s.serial = t.serial) (hjournal : s.journal = t.journal) : s = t := by
  obtain ⟨frames, serial, journal⟩ := s
  obtain ⟨frames', serial', journal'⟩ := t
  obtain rfl : frames = frames' := Array.ext_getElem? hframes
  obtain rfl : serial = serial' := hserial
  obtain rfl : journal = journal' := hjournal
  rfl

theorem get?_of_own {frame : Frame} {v : Value} (hframe : s.frames[i]? = some frame)
    (hname : frame.bindings.lookup name = some v) : s.get? i name = some v := by
  obtain ⟨parent, bindings⟩ := frame
  cases parent <;> simp [get?, chain, chainUpTo, hframe, hname]

/-- Names are looked up along chains of frames that have the same parents and, of that name, the
same bindings. -/
theorem get?_congr (h : ∀ i : FrameId, Option.Rel (fun f g : Frame => f.parent = g.parent ∧
      f.bindings.lookup name = g.bindings.lookup name) s.frames[i]? t.frames[i]?) :
    s.get? i name = t.get? i name := by
  rw [get?, get?, chain, chain]
  generalize i + 1 = fuel
  induction fuel generalizing i with
  | zero => rfl
  | succ fuel ih =>
    rw [chainUpTo, chainUpTo]
    have hi := h i
    generalize s.frames[i]? = f?, t.frames[i]? = g? at hi ⊢
    cases hi with
    | none => rfl
    | @some f g hfg =>
      obtain ⟨hparent, hlookup⟩ := hfg
      simp only [hparent]
      cases g.parent with
      | none => simp only [List.findSome?_cons, hlookup]
      | some p => simp only [List.findSome?_cons, hlookup, ih]

theorem getElem?_set {s : Store} {i id : FrameId} {name : String} {v : Value} {frame : Frame}
    (h : (s.set id name v).frames[i]? = some frame) :
    ∃ old, s.frames[i]? = some old ∧ frame.parent = old.parent ∧
      frame.bindings = if id = i then old.bindings.insert name v else old.bindings := by
  simp only [set, Array.getElem?_modify] at h
  split at h
  · next hid =>
    obtain ⟨old, hold, rfl⟩ := Option.map_eq_some_iff.mp h
    exact ⟨old, hold, rfl, (if_pos hid).symm⟩
  · next hid => exact ⟨frame, h, rfl, (if_neg hid).symm⟩

theorem getElem?_addFrame_cases {s : Store} {i : FrameId} {parent : Option FrameId}
    {bindings : Bindings} {frame : Frame}
    (h : (s.addFrame parent bindings).2.frames[i]? = some frame) :
    s.frames[i]? = some frame ∨ i = s.frames.size ∧ frame = ⟨parent, bindings⟩ := by
  simp only [addFrame, Array.getElem?_push] at h
  split at h
  · next hi => exact .inr ⟨hi, (Option.some.inj h).symm⟩
  · exact .inl h

def own? (s : Store) (place : FrameId) (x : String) : Option Value :=
  (s.frames[place]?).bind fun frame => frame.bindings.lookup x

section Own

variable {place : FrameId} {x : String}

theorem own?_set_self (hplace : place < s.frames.size) (v : Value) :
    (s.set place x v).own? place x = some v := by
  simp only [own?, set, Array.getElem?_modify, if_true, Array.getElem?_eq_getElem hplace,
    Option.map_some, Option.bind_some, Bindings.lookup_insert_self]

theorem own?_set (hname : name ≠ x) (s : Store) (place i : FrameId) (v : Value) :
    (s.set i name v).own? place x = s.own? place x := by
  simp only [own?, set, Array.getElem?_modify]
  by_cases hi : i = place
  · simp only [if_pos hi, Option.bind_map, Function.comp_def, Bindings.lookup_insert_of_ne hname]
  · simp only [if_neg hi]

theorem own?_set_of_ne (hi : i ≠ place) (s : Store) (name x : String) (v : Value) :
    (s.set i name v).own? place x = s.own? place x := by
  simp only [own?, set, Array.getElem?_modify, if_neg hi]

theorem own?_addFrame (hplace : place < s.frames.size) (parent : Option FrameId)
    (bindings : Bindings) : (s.addFrame parent bindings).2.own? place x = s.own? place x := by
  have hne : place ≠ s.frames.size := Nat.ne_of_lt hplace
  simp only [own?, addFrame, Array.getElem?_push, if_neg hne]

end Own

def ParentsOlder (s : Store) : Prop :=
  ∀ (i : FrameId) (frame : Frame) (p : FrameId), s.frames[i]? = some frame →
    frame.parent = some p → p < i

/-- Where parents are older, the chain of a frame is the same for every sufficient number of steps,
and in every store in which the frames are still there. -/
theorem ParentsOlder.chainUpTo_eq (h : s.ParentsOlder)
    (hframes : ∀ i < s.frames.size, t.frames[i]? = s.frames[i]?) (hi : i < s.frames.size)
    {m n : Nat} (hm : i < m) (hn : i < n) : chainUpTo t.frames m i = chainUpTo s.frames n i := by
  induction m generalizing i n with
  | zero => exact absurd hm (Nat.not_lt_zero i)
  | succ m ih =>
    obtain ⟨n, rfl⟩ := Nat.exists_eq_succ_of_ne_zero (Nat.ne_zero_of_lt hn)
    have hframe : s.frames[i]? = some s.frames[i] := Array.getElem?_eq_getElem hi
    rw [chainUpTo, chainUpTo, hframes i hi, hframe]
    cases hparent : s.frames[i].parent with
    | none => simp only [hparent]
    | some p =>
      have hlt : p < i := h i _ p hframe hparent
      have hm' : p < m := Nat.lt_of_lt_of_le hlt (Nat.le_of_lt_succ hm)
      have hn' : p < n := Nat.lt_of_lt_of_le hlt (Nat.le_of_lt_succ hn)
      simp only [hparent, ih (Nat.lt_trans hlt hi) hm' hn']

theorem ParentsOlder.get?_addFrame (h : s.ParentsOlder) {parent : FrameId}
    (hparent : parent < s.frames.size) (bindings : Bindings) (name : String) :
    (s.addFrame (some parent) bindings).2.get? s.frames.size name =
      (bindings.lookup name).or (s.get? parent name) := by
  have hnew : (s.addFrame (some parent) bindings).2.frames[s.frames.size]? =
      some ⟨some parent, bindings⟩ := by simp [addFrame]
  have hold (i : FrameId) (hi : i < s.frames.size) :
      (s.addFrame (some parent) bindings).2.frames[i]? = s.frames[i]? := by
    simp [addFrame, Array.getElem?_push, Nat.ne_of_lt hi]
  rw [get?, get?, chain, chain, chainUpTo, hnew]
  simp only [h.chainUpTo_eq hold hparent hparent (Nat.lt_succ_self parent), List.findSome?_cons]
  cases bindings.lookup name <;> rfl

/-- A name that has a value is bound to it in a frame of every collection that holds the frame it
is looked up from and all parents. -/
theorem exists_binding {s : Store} {among : FrameId → Prop}
    (hparent : ∀ i frame p, among i → s.frames[i]? = some frame → frame.parent = some p → among p)
    {id : FrameId} (hid : among id) {name : String} {v : Value} (h : s.get? id name = some v) :
    ∃ i frame, among i ∧ s.frames[i]? = some frame ∧ (name, v) ∈ frame.bindings := by
  obtain ⟨frame, hframe, hlookup⟩ := List.exists_of_findSome?_eq_some h
  obtain ⟨before, after, hsplit, -⟩ := List.lookup_eq_some_iff.mp hlookup
  have hmem : (name, v) ∈ frame.bindings := by simp [hsplit]
  suffices hfound : ∃ i, among i ∧ s.frames[i]? = some frame by
    obtain ⟨i, hi, heq⟩ := hfound
    exact ⟨i, frame, hi, heq, hmem⟩
  clear h
  rw [chain] at hframe
  generalize id + 1 = fuel at hframe
  induction fuel generalizing id with
  | zero => simp [chainUpTo] at hframe
  | succ fuel ih =>
    rw [chainUpTo] at hframe
    cases hown : s.frames[id]? with
    | none => simp [hown] at hframe
    | some own =>
      cases hp : own.parent with
      | none =>
        simp only [hown, hp, List.mem_singleton] at hframe
        exact ⟨id, hid, hframe ▸ hown⟩
      | some parent =>
        simp only [hown, hp, List.mem_cons] at hframe
        rcases hframe with rfl | hframe
        · exact ⟨id, hid, hown⟩
        · exact ih (hparent id own parent hid hown hp) hframe

end Store

theorem mem_nativeBindings {b : String × Value} (h : b ∈ nativeBindings) :
    (∃ n : Native, b = (n.name, .native n)) ∨ ∃ s : Sugar, b = (s.name, .sugar s) := by
  rcases List.mem_append.mp h with hnative | hsugar
  · obtain ⟨n, -, rfl⟩ := List.mem_map.mp hnative
    exact .inl ⟨n, rfl⟩
  · obtain ⟨s, -, rfl⟩ := List.mem_map.mp hsugar
    exact .inr ⟨s, rfl⟩

end TreeLisp
