import TreeLisp.Proofs.Frames
import TreeLisp.Proofs.Mirror

/-!
# Stores that refer to nothing outside

In a grounded store every parent is an older frame, and every callable that is bound somewhere has
its frame and its serial number in the store. A grounded store mirrors itself, frame by frame, and
also mirrors every later store in which its frames are still as they were. Evaluation keeps a store
grounded, and so do all events of all sessions.
-/
namespace TreeLisp

/-- A callable has its frame and its serial number in the store. What is inside of the value does
not count. -/
def Value.Housed (s : Store) : Value → Prop
  | .function serial _ c | .expander serial _ c => serial < s.serial ∧ c.scope < s.frames.size
  | _ => True

namespace Store

/-- The value is one of this store: all callables that occur in it are. -/
def Holds (s : Store) (v : Value) : Prop :=
  v.Throughout (Value.Housed s)

structure Grounded (s : Store) : Prop where
  parent (i : FrameId) (frame : Frame) (p : FrameId) (hframe : s.frames[i]? = some frame)
    (hp : frame.parent = some p) : p < i
  bound (i : FrameId) (frame : Frame) (hframe : s.frames[i]? = some frame) (b : String × Value)
    (hb : b ∈ frame.bindings) : s.Holds b.2

variable {s : Store}

theorem holds_of_inner_nil {v : Value} (h : v.inner = []) (hv : v.Housed s) : s.Holds v :=
  (Value.throughout_of_inner_nil h).mpr hv

@[simp] theorem holds_nil : s.Holds .nil :=
  holds_of_inner_nil rfl trivial

@[simp] theorem holds_bool (b : Bool) : s.Holds (.bool b) :=
  holds_of_inner_nil rfl trivial

@[simp] theorem holds_symbol (name : String) : s.Holds (.symbol name) :=
  holds_of_inner_nil rfl trivial

@[simp] theorem holds_native (n : Native) : s.Holds (.native n) :=
  holds_of_inner_nil rfl trivial

@[simp] theorem holds_list {items : List Value} :
    s.Holds (.list items) ↔ ∀ v ∈ items, s.Holds v := by
  rw [Holds, Value.throughout_list]
  exact and_iff_right trivial

@[simp] theorem holds_function {serial : Nat} {name : String} {c : Closure Value} :
    s.Holds (.function serial name c) ↔
      (serial < s.serial ∧ c.scope < s.frames.size) ∧ ∀ v ∈ c.body, s.Holds v :=
  Value.throughout_function

/-- The only frame of a store has no parent, so the store is grounded when it holds what the frame
binds. -/
theorem grounded_singleton {bindings : Bindings} {serial : Nat} {journal : Array Record}
    (h : ∀ b ∈ bindings, Holds ⟨#[⟨none, bindings⟩], serial, journal⟩ b.2) :
    Grounded ⟨#[⟨none, bindings⟩], serial, journal⟩ := by
  have honly {i : FrameId} {frame : Frame}
      (hframe : (#[⟨none, bindings⟩] : Array Frame)[i]? = some frame) : ⟨none, bindings⟩ = frame := by
    cases i with
    | zero => exact Option.some.inj hframe
    | succ i => cases hframe
  constructor
  · intro i frame p hframe hp
    rw [← honly hframe] at hp
    cases hp
  · intro i frame hframe b hb
    rw [← honly hframe] at hb
    exact h b hb

end Store

def Pairing.ofStore (s : Store) : Pairing :=
  ⟨fun i j => i = j ∧ i < s.frames.size, fun m n => m = n ∧ m < s.serial⟩

theorem Pairing.ofStore_le_identity (s : Store) : ofStore s ≤ .identity :=
  ⟨fun _ _ h => h.1, fun _ _ h => h.1⟩

theorem Value.admitted_iff_housed {s : Store} {v : Value} :
    v.Admitted anything (.ofStore s) ↔ v.Housed s := by
  have hclosure (serial : Nat) (c : Closure Value) :
      (Pairing.ofStore s).serial serial serial ∧ c.Aligned anything (.ofStore s) c ↔
        serial < s.serial ∧ c.scope < s.frames.size := by
    constructor
    · exact fun h => ⟨h.1.2, h.2.scope.2⟩
    · exact fun h => ⟨⟨rfl, h.1⟩, .self (fun _ => trivial) ⟨rfl, h.2⟩⟩
  cases v with
  | function serial name c => exact hclosure serial c
  | expander serial name c => exact hclosure serial c
  | _ => exact Iff.rfl

theorem Store.Holds.alike {s : Store} {v : Value} (h : s.Holds v) :
    Alike anything (.ofStore s) v v :=
  .self trivial (h.imp fun _ hw => Value.admitted_iff_housed.mpr hw)

theorem Store.holds_of_alike {s : Store} {v : Value} (h : Alike anything (.ofStore s) v v) :
    s.Holds v :=
  h.admitted.imp fun _ hw => Value.admitted_iff_housed.mp hw

theorem Store.Holds.stored {s : Store} {v : Value} (h : s.Holds v) :
    Stored anything (.ofStore s) v v :=
  .mk (fun _ => trivial) h.alike

def nowhere (_ : FrameId) : Prop := False

/-- A grounded store mirrors every later one in which all its frames are as they were. -/
theorem Store.Grounded.mirrored {s t : Store} (h : s.Grounded) (hframes : s.Untouched t)
    (hserial : s.serial ≤ t.serial) : Store.Mirrored nowhere (.ofStore s) s t where
  frames := by
    rintro i j ⟨rfl, hi⟩
    have hframe : s.frames[i]? = some s.frames[i] := Array.getElem?_eq_getElem hi
    refine ⟨s.frames[i], s.frames[i], hframe, (hframes i hi).trans hframe, ?_, ?_⟩
    · apply List.forall₂_same.mpr
      intro b hb
      exact ⟨rfl, trivial, (h.bound i _ hframe b hb).stored⟩
    · cases hp : s.frames[i].parent with
      | none => exact .none
      | some p =>
        have hlt : p < i := h.parent i _ p hframe hp
        exact .some ⟨hlt, hlt, rfl, Nat.lt_trans hlt hi⟩
  oneToOne := by
    rintro i j i' j' ⟨rfl, -⟩ ⟨rfl, -⟩
    exact Iff.rfl
  distinct := by
    rintro m n m' n' ⟨rfl, -⟩ ⟨rfl, -⟩
    exact Iff.rfl
  serials := by
    rintro m n ⟨rfl, hm⟩
    exact ⟨hm, Nat.lt_of_lt_of_le hm hserial⟩
  apart _ h := h.elim

theorem Store.grounded_of_mirrored {s : Store} (h : Store.Mirrored nowhere (.ofStore s) s s) :
    s.Grounded := by
  have hframes (i : FrameId) (frame : Frame) (hframe : s.frames[i]? = some frame) :
      Frame.Mirrored (.ofStore s) i i frame frame := by
    have hi : i < s.frames.size := (Array.getElem?_eq_some_iff.mp hframe).1
    obtain ⟨f, g, hf, hg, hmirrored⟩ := h.frames (i := i) (j := i) ⟨rfl, hi⟩
    obtain rfl : f = frame := Option.some.inj (hf.symm.trans hframe)
    obtain rfl : g = f := Option.some.inj (hg.symm.trans hf)
    exact hmirrored
  constructor
  · intro i frame p hframe hp
    have hparent := (hframes i frame hframe).parent
    rw [hp] at hparent
    cases hparent with
    | some hpq => exact hpq.1
  · intro i frame hframe b hb
    have hbound := List.forall₂_same.mp (hframes i frame hframe).bindings b hb
    exact holds_of_alike hbound.value.alike

/-- One grounded store, in which everything stands for itself. -/
def SameGrounded : Correspondence := fun π s t =>
  π = .ofStore s ∧ s = t ∧ Store.Mirrored nowhere π s t

theorem Pairing.ofStore_addFrame (s : Store) (parent : Option FrameId) (bindings : Bindings) :
    ofStore (s.addFrame parent bindings).2 =
      (ofStore s).link s.frames.size s.frames.size := by
  have hsize : (s.addFrame parent bindings).2.frames.size = s.frames.size + 1 := Array.size_push _
  rw [ofStore, ofStore, link, hsize]
  congr
  funext i j
  apply propext
  change i = j ∧ i < s.frames.size + 1 ↔ (i = j ∧ i < s.frames.size) ∨ _
  grind

theorem Pairing.ofStore_newSerial (s : Store) :
    ofStore { s with serial := s.serial + 1 } = (ofStore s).linkSerial s.serial s.serial := by
  rw [ofStore, ofStore, linkSerial]
  congr
  funext m n
  apply propext
  grind

theorem sameGrounded_simulation : Simulation anything SameGrounded where
  inserted _ _ := trivial
  argument _ := trivial
  distinct h := h.2.2.distinct
  get h _ _ hframe name _ := h.2.2.get hframe name
  set := by
    rintro _ s _ ⟨rfl, rfl, h⟩ i _ ⟨rfl, hi⟩ name - v w hvalue
    obtain rfl : v = w := hvalue.alike.eq_of_le (Pairing.ofStore_le_identity s)
    have hsame : Pairing.ofStore (s.set i name v) = .ofStore s := by
      rw [Pairing.ofStore, Pairing.ofStore, Store.set, Array.size_modify]
    exact ⟨hsame.symm, rfl, h.set ⟨rfl, hi⟩ name hvalue⟩
  addFrame := by
    rintro _ s _ ⟨rfl, rfl, h⟩ i _ ⟨rfl, hi⟩ b c hbindings
    obtain rfl : b = c := hbindings.eq_of_le (Pairing.ofStore_le_identity s)
    refine ⟨_, Pairing.le_link _ _ _, .inr ⟨rfl, rfl⟩, ?_, rfl, h.addFrame ⟨rfl, hi⟩ hbindings⟩
    exact (Pairing.ofStore_addFrame s (some i) b).symm
  newSerial := by
    rintro _ s _ ⟨rfl, rfl, h⟩
    exact ⟨_, Pairing.le_linkSerial _ _ _, .inr ⟨rfl, rfl⟩, (Pairing.ofStore_newSerial s).symm, rfl,
      h.newSerial⟩
  record := by
    rintro _ s _ ⟨rfl, rfl, h⟩ r r' hrecord
    obtain rfl : r = r' := hrecord.eq_of_le (Pairing.ofStore_le_identity s)
    exact ⟨rfl, rfl, h.addRecord r r⟩

end TreeLisp
