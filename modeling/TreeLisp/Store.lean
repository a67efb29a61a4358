import TreeLisp.Journal

/-!
# Frames and the store

A frame binds names to values and may have a parent, in which names that it does not bind are
looked up. All frames of all sessions live in one store and are only ever added; the parent of a
frame is fixed when the frame is made, and is older than the frame. A frame keeps its names in the
order in which they were first bound.
-/
namespace TreeLisp

abbrev Bindings := List (String × Value)

/-- Bind a name: a new name goes to the end, a known one keeps its place. -/
def Bindings.insert (name : String) (value : Value) : Bindings → Bindings
  | [] => [(name, value)]
  | (key, old) :: rest =>
    if key = name then (name, value) :: rest else (key, old) :: Bindings.insert name value rest

def Bindings.itemsText (bindings : Bindings) : String :=
  ", ".intercalate (bindings.map fun b => b.1 ++ ": " ++ b.2.text)

structure Frame where
  parent : Option FrameId
  bindings : Bindings

def Frame.text (f : Frame) : String :=
  "\x7b" ++ f.bindings.itemsText ++ "\x7d"

structure Store where
  frames : Array Frame
  /-- The serial number of the next callable. -/
  serial : Nat
  journal : Array Record

namespace Store

def empty : Store := ⟨#[], 0, #[]⟩

/-- Follow the parents from a frame outward for at most `fuel` frames. -/
def chainUpTo (frames : Array Frame) : Nat → FrameId → List Frame
  | 0, _ => []
  | fuel + 1, id =>
    match frames[id]? with
    | none => []
    | some frame =>
      match frame.parent with
      | none => [frame]
      | some parent => frame :: chainUpTo frames fuel parent

/-- The frame and its ancestors, innermost first. Parents are older than their children, so there
are at most as many as the frame's own number and one. -/
def chain (s : Store) (id : FrameId) : List Frame :=
  chainUpTo s.frames (id + 1) id

def get? (s : Store) (id : FrameId) (name : String) : Option Value :=
  (s.chain id).findSome? fun frame => frame.bindings.lookup name

def isBound (s : Store) (id : FrameId) (name : String) : Bool :=
  (s.get? id name).isSome

def bindsOwn (s : Store) (id : FrameId) (name : String) : Bool :=
  match s.frames[id]? with
  | some frame => (frame.bindings.lookup name).isSome
  | none => false

def depth (s : Store) (id : FrameId) : Nat :=
  (s.chain id).length - 1

/-- Bind a name in the frame itself, whatever its ancestors bind. -/
def set (s : Store) (id : FrameId) (name : String) (value : Value) : Store :=
  { s with frames := s.frames.modify id fun frame =>
      { frame with bindings := frame.bindings.insert name value } }

def addFrame (s : Store) (parent : Option FrameId) (bindings : Bindings) : FrameId × Store :=
  (s.frames.size, { s with frames := s.frames.push ⟨parent, bindings⟩ })

def addRecord (s : Store) (r : Record) : Store :=
  { s with journal := s.journal.push r }

/-- A frame as it prints, with a hint at its parent. -/
def frameText (s : Store) (id : FrameId) : String :=
  match s.frames[id]? with
  | none => ""
  | some frame => if frame.parent.isSome then frame.text ++ " -> ..." else frame.text

def chainText (s : Store) (id : FrameId) : String :=
  "<Scope chain: " ++ " -> ".intercalate ((s.chain id).map Frame.text) ++ ">"

end Store

def nativeBindings : Bindings :=
  Native.all.map (fun n => (n.name, Value.native n)) ++
    Sugar.all.map (fun s => (s.name, Value.sugar s))

/-- The frame of the natives, the oldest of every store. -/
def registry : FrameId := 0

def Store.initial : Store :=
  { Store.empty with frames := #[⟨none, nativeBindings⟩] }

end TreeLisp
