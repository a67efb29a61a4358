import Mathlib.Data.List.Basic
import Mathlib.Data.List.Induction
import TreeLisp.Proofs.Frames

/-!
# Frames answer from their history

Frames are made and names are set in them, in any order and any number of times. What a frame says
about a name is then a matter of what has been done, and not of how it is kept: it is the value that
the name was set to last in the nearest frame, up from this one, in which it was ever set. A frame
lists its names once, in the order in which they were first set, and prints them so.
-/
namespace TreeLisp

/-- The value is the one that the name was set to last. -/
def LastSet (sets : List (String × Value)) (x : String) (v : Value) : Prop :=
  ∃ earlier later, sets = earlier ++ (x, v) :: later ∧ x ∉ later.map Prod.fst

def EverSet (sets : List (String × Value)) (x : String) : Prop :=
  x ∈ sets.map Prod.fst

section

variable {sets : List (String × Value)} {x : String} {v : Value}

theorem lastSet_iff_lookup : LastSet sets x v ↔ sets.reverse.lookup x = some v := by
  rw [List.lookup_eq_some_iff]
  constructor
  · rintro ⟨earlier, later, rfl, hlater⟩
    refine ⟨later.reverse, earlier.reverse, by simp, ?_⟩
    intro entry hentry
    have hne : entry.1 ≠ x := by
      rintro rfl
      exact hlater (List.mem_map_of_mem (List.mem_reverse.mp hentry))
    exact bne_iff_ne.mpr hne.symm
  · rintro ⟨later, earlier, hsets, hlater⟩
    refine ⟨earlier.reverse, later.reverse, ?_, ?_⟩
    · rw [← List.reverse_reverse sets, hsets]
      simp
    · intro hmem
      obtain ⟨entry, hentry, rfl⟩ := List.mem_map.mp hmem
      exact bne_iff_ne.mp (hlater entry (List.mem_reverse.mp hentry)) rfl

theorem lookup_reverse_eq_none_iff : sets.reverse.lookup x = none ↔ ¬ EverSet sets x := by
  rw [List.lookup_eq_none_iff, EverSet, List.mem_map]
  constructor
  · rintro h ⟨entry, hentry, rfl⟩
    exact bne_iff_ne.mp (h entry (List.mem_reverse.mpr hentry)) rfl
  · intro h entry hentry
    exact bne_iff_ne.mpr fun hx => h ⟨entry, List.mem_reverse.mp hentry, hx.symm⟩

end

namespace Bindings

def ofSets (sets : List (String × Value)) : Bindings :=
  sets.foldl (fun b entry => b.insert entry.1 entry.2) []

theorem ofSets_concat (sets : List (String × Value)) (x : String) (v : Value) :
    ofSets (sets ++ [(x, v)]) = (ofSets sets).insert x v := by
  rw [ofSets, List.foldl_append]
  rfl

theorem map_fst_insert (b : Bindings) (x : String) (v : Value) :
    (b.insert x v).map Prod.fst =
      if x ∈ b.map Prod.fst then b.map Prod.fst else b.map Prod.fst ++ [x] := by
  induction b with
  | nil => rfl
  | cons entry rest ih =>
    obtain ⟨key, old⟩ := entry
    by_cases hkey : key = x
    · subst hkey
      simp [Bindings.insert]
    · have hiff : x ∈ ((key, old) :: rest).map Prod.fst ↔ x ∈ rest.map Prod.fst := by
        simp only [List.map_cons, List.mem_cons]
        exact or_iff_right (Ne.symm hkey)
      rw [Bindings.insert, if_neg hkey, List.map_cons, ih]
      simp only [hiff]
      split <;> rfl

theorem lookup_ofSets (sets : List (String × Value)) (x : String) :
    (ofSets sets).lookup x = sets.reverse.lookup x := by
  induction sets using List.reverseRecOn with
  | nil => rfl
  | append_singleton sets entry ih =>
    obtain ⟨name, v⟩ := entry
    rw [ofSets_concat, List.reverse_append, List.reverse_singleton, List.singleton_append,
      List.lookup_cons]
    by_cases hname : name = x
    · subst hname
      rw [lookup_insert_self, beq_self_eq_true]
    · rw [lookup_insert_of_ne hname, ih, beq_eq_false_iff_ne.mpr (Ne.symm hname)]

theorem mem_names_ofSets (sets : List (String × Value)) (x : String) :
    x ∈ (ofSets sets).map Prod.fst ↔ x ∈ sets.map Prod.fst := by
  induction sets using List.reverseRecOn with
  | nil => rfl
  | append_singleton sets entry ih =>
    obtain ⟨name, v⟩ := entry
    rw [ofSets_concat, map_fst_insert, List.map_append, List.mem_append, ← ih]
    split
    · next hmem =>
      refine ⟨.inl, ?_⟩
      rintro (hx | hx)
      · exact hx
      · exact List.mem_singleton.mp hx ▸ hmem
    · rw [List.mem_append]
      rfl

/-- What is in the bindings tells how the names were set: each name that was set is there once, the
names are in the order in which they were first set, and each has the value that it was set to
last. -/
structure Records (b : Bindings) (sets : List (String × Value)) : Prop where
  once : (b.map Prod.fst).Nodup
  order : (b.map Prod.fst).Pairwise fun x y =>
    (sets.map Prod.fst).idxOf x < (sets.map Prod.fst).idxOf y
  mem_iff (x : String) (v : Value) : (x, v) ∈ b ↔ LastSet sets x v

theorem order_ofSets (sets : List (String × Value)) :
    ((ofSets sets).map Prod.fst).Pairwise fun x y =>
      (sets.map Prod.fst).idxOf x < (sets.map Prod.fst).idxOf y := by
  induction sets using List.reverseRecOn with
  | nil => exact .nil
  | append_singleton sets entry ih =>
    obtain ⟨name, v⟩ := entry
    -- The first sets of the earlier names are where they were.
    have hold : ∀ x ∈ (ofSets sets).map Prod.fst,
        ((sets ++ [(name, v)]).map Prod.fst).idxOf x = (sets.map Prod.fst).idxOf x := by
      intro x hx
      rw [List.map_append, List.idxOf_append_of_mem ((mem_names_ofSets sets x).mp hx)]
    have hkept : ((ofSets sets).map Prod.fst).Pairwise fun x y =>
        ((sets ++ [(name, v)]).map Prod.fst).idxOf x <
          ((sets ++ [(name, v)]).map Prod.fst).idxOf y := by
      refine ih.imp_of_mem ?_
      intro x y hx hy hlt
      rw [hold x hx, hold y hy]
      exact hlt
    rw [ofSets_concat, map_fst_insert]
    split
    · exact hkept
    · next hnew =>
      refine List.pairwise_append.mpr ⟨hkept, List.pairwise_singleton _ _, ?_⟩
      intro x hx y hy
      obtain rfl := List.mem_singleton.mp hy
      have hnot : y ∉ sets.map Prod.fst := fun h => hnew ((mem_names_ofSets sets y).mpr h)
      have hlt : (sets.map Prod.fst).idxOf x < (sets.map Prod.fst).length :=
        List.idxOf_lt_length_iff.mpr ((mem_names_ofSets sets x).mp hx)
      rw [hold x hx, List.map_append, List.idxOf_append_of_notMem hnot]
      exact Nat.lt_of_lt_of_le hlt (Nat.le_add_right _ _)

theorem ofSets_records (sets : List (String × Value)) : (ofSets sets).Records sets := by
  have horder := order_ofSets sets
  have honce : ((ofSets sets).map Prod.fst).Nodup := by
    refine horder.imp ?_
    rintro x y hlt rfl
    exact Nat.lt_irrefl _ hlt
  refine ⟨honce, horder, ?_⟩
  intro x v
  rw [lastSet_iff_lookup, ← lookup_ofSets]
  refine ⟨lookup_of_mem honce, ?_⟩
  intro h
  obtain ⟨front, back, hsplit, -⟩ := List.lookup_eq_some_iff.mp h
  rw [hsplit]
  exact List.mem_append_right front List.mem_cons_self

end Bindings

/-- What has been done to frames so far: frames were made, below others or on their own, and names
were set in them. There are `n` frames after it, numbered in the order in which they were made. -/
inductive FrameHistory : Nat → Type where
  | start : FrameHistory 0
  | make {n : Nat} (h : FrameHistory n) (parent : Option (Fin n)) : FrameHistory (n + 1)
  | set {n : Nat} (h : FrameHistory n) (place : Fin n) (name : String) (value : Value) :
      FrameHistory n

namespace FrameHistory

def store {n : Nat} : FrameHistory n → Store
  | start => .empty
  | make h parent => (h.store.addFrame (parent.map Fin.val) []).2
  | set h place name value => h.store.set place name value

/-- The frame below which a frame was made. -/
def parent? {n : Nat} : FrameHistory n → FrameId → Option FrameId
  | start, _ => none
  | @make n h parent, i => if i = n then parent.map Fin.val else h.parent? i
  | set h _ _ _, i => h.parent? i

/-- A frame and its ancestors, innermost first. -/
def line {n : Nat} : FrameHistory n → FrameId → List FrameId
  | start, _ => []
  | @make n h parent, i => if i = n then n :: parent.elim [] (fun p => h.line p) else h.line i
  | set h _ _ _, i => h.line i

/-- The names and values that were set in a frame, the latest last. -/
def setsIn {n : Nat} : FrameHistory n → FrameId → List (String × Value)
  | start, _ => []
  | make h _, i => h.setsIn i
  | set h place name value, i => if place = i then h.setsIn i ++ [(name, value)] else h.setsIn i

variable {n : Nat}

theorem size_store (h : FrameHistory n) : h.store.frames.size = n := by
  induction h with
  | start => rfl
  | make h parent ih => simp [store, Store.addFrame, ih]
  | set h place name value ih => simp [store, Store.set, ih]

theorem setsIn_of_le (h : FrameHistory n) {i : Nat} (hi : n ≤ i) : h.setsIn i = [] := by
  induction h with
  | start => rfl
  | make h parent ih => exact ih (Nat.le_of_succ_le hi)
  | set h place name value ih =>
    have hplace : place.val ≠ i := by omega
    rw [setsIn, if_neg hplace, ih hi]

theorem parent?_lt (h : FrameHistory n) {i p : Nat} (hp : h.parent? i = some p) : p < i := by
  induction h with
  | start => cases hp
  | @make n h parent ih =>
    rw [parent?] at hp
    split at hp
    · next hi =>
      obtain ⟨q, -, rfl⟩ := Option.map_eq_some_iff.mp hp
      exact hi ▸ q.isLt
    · exact ih hp
  | set h place name value ih => exact ih hp

theorem line_make_of_lt (h : FrameHistory n) (parent : Option (Fin n)) {i : Nat} (hi : i < n) :
    (h.make parent).line i = h.line i := by
  rw [line, if_neg (Nat.ne_of_lt hi)]

theorem line_eq (h : FrameHistory n) {i : Nat} (hi : i < n) :
    h.line i = i :: (h.parent? i).elim [] h.line := by
  induction h with
  | start => exact absurd hi (Nat.not_lt_zero i)
  | @make n h parent ih =>
    by_cases hnew : i = n
    · subst hnew
      rw [line, parent?, if_pos rfl, if_pos rfl]
      cases parent with
      | none => rfl
      | some p =>
        rw [Option.map_some, Option.elim_some, Option.elim_some, line_make_of_lt h _ p.isLt]
    · have hlt : i < n := by omega
      rw [line_make_of_lt h parent hlt, ih hlt, parent?, if_neg hnew]
      cases hp : h.parent? i with
      | none => rfl
      | some p =>
        have hold : p < n := Nat.lt_trans (h.parent?_lt hp) hlt
        rw [Option.elim_some, Option.elim_some, line_make_of_lt h parent hold]
  | set h place name value ih => exact ih hi

def frame (h : FrameHistory n) (i : FrameId) : Frame :=
  ⟨h.parent? i, .ofSets (h.setsIn i)⟩

theorem getElem?_frames (h : FrameHistory n) {i : Nat} (hi : i < n) :
    h.store.frames[i]? = some (h.frame i) := by
  induction h with
  | start => exact absurd hi (Nat.not_lt_zero i)
  | @make n h parent ih =>
    simp only [store, Store.addFrame, Array.getElem?_push, h.size_store, frame, parent?, setsIn]
    by_cases hnew : i = n
    · rw [if_pos hnew, if_pos hnew, h.setsIn_of_le (Nat.le_of_eq hnew.symm)]
      rfl
    · have hlt : i < n := by omega
      rw [if_neg hnew, if_neg hnew, ih hlt]
      rfl
  | set h place name value ih =>
    simp only [store, Store.set, Array.getElem?_modify, ih hi, frame, parent?, setsIn]
    split
    · rw [Option.map_some, Bindings.ofSets_concat]
    · rfl

theorem chain_store (h : FrameHistory n) {i : Nat} (hi : i < n) :
    h.store.chain i = (h.line i).map h.frame := by
  rw [Store.chain]
  have hfuel : i < i + 1 := Nat.lt_succ_self i
  generalize i + 1 = fuel at hfuel
  induction fuel generalizing i with
  | zero => exact absurd hfuel (Nat.not_lt_zero i)
  | succ fuel ih =>
    rw [Store.chainUpTo, h.getElem?_frames hi, h.line_eq hi]
    simp only [frame, List.map_cons]
    cases hp : h.parent? i with
    | none => rfl
    | some p =>
      have hlt : p < i := h.parent?_lt hp
      have hp' : p < fuel := Nat.lt_of_lt_of_le hlt (Nat.le_of_lt_succ hfuel)
      simp only [Option.elim_some, ih (Nat.lt_trans hlt hi) hp']

theorem get?_store (h : FrameHistory n) {i : Nat} (hi : i < n) (x : String) :
    h.store.get? i x = (h.line i).findSome? fun a => (h.setsIn a).reverse.lookup x := by
  rw [Store.get?, h.chain_store hi, List.findSome?_map]
  congr 1
  funext a
  exact Bindings.lookup_ofSets (h.setsIn a) x

theorem get?_set_of_notMem (h : FrameHistory n) {i : Nat} (hi : i < n) {place : Fin n}
    (hplace : place.val ∉ h.line i) (name : String) (v : Value) (x : String) :
    (h.set place name v).store.get? i x = h.store.get? i x := by
  have hsame : ∀ a ∈ h.line i, ((h.set place name v).setsIn a).reverse.lookup x =
      (h.setsIn a).reverse.lookup x := by
    intro a ha
    have hne : place.val ≠ a := fun heq => hplace (heq ▸ ha)
    rw [setsIn, if_neg hne]
  rw [get?_store _ hi, get?_store _ hi, ← List.head?_filterMap, ← List.head?_filterMap]
  exact congrArg List.head? (List.filterMap_congr hsame)

theorem frameText_store (h : FrameHistory n) {i : Nat} (hi : i < n) :
    h.store.frameText i =
      (h.frame i).text ++ if (h.parent? i).isSome then " -> ..." else "" := by
  simp only [Store.frameText, h.getElem?_frames hi, frame]
  split
  · rfl
  · exact (String.append_empty).symm

theorem chainText_store (h : FrameHistory n) {i : Nat} (hi : i < n) :
    h.store.chainText i =
      "<Scope chain: " ++ " -> ".intercalate ((h.line i).map fun a => (h.frame a).text) ++ ">" := by
  have htexts : (h.store.chain i).map Frame.text = (h.line i).map fun a => (h.frame a).text := by
    rw [h.chain_store hi, List.map_map]
    rfl
  exact congrArg (fun texts => "<Scope chain: " ++ " -> ".intercalate texts ++ ">") htexts

end FrameHistory

/-- Whatever was done to frames, a frame answers with the value that the name was set to last in the
nearest frame of its line in which it was ever set, and has no answer where there is none. A set
changes the answers of no frame that does not have the frame of the set in its line. Each frame
binds the names that were set in it once, in the order of the first sets, to the values of the last
ones, and it prints these bindings, alone or along its line. -/
theorem frames_answer_from_history {n : Nat} (h : FrameHistory n) :
    (∀ (s : Fin n) (x : String) (v : Value), h.store.get? s x = some v ↔
      ∃ nearer a farther, h.line s = nearer ++ a :: farther ∧ LastSet (h.setsIn a) x v ∧
        ∀ b ∈ nearer, ¬ EverSet (h.setsIn b) x) ∧
    (∀ (s : Fin n) (x : String), h.store.get? s x = none ↔
      ∀ a ∈ h.line s, ¬ EverSet (h.setsIn a) x) ∧
    (∀ place s : Fin n, place.val ∉ h.line s → ∀ (name : String) (v : Value) (x : String),
      (h.set place name v).store.get? s x = h.store.get? s x) ∧
    ∃ bindings : FrameId → Bindings, ∀ s : Fin n,
      h.store.frames[s.val]? = some ⟨h.parent? s, bindings s⟩ ∧
      (bindings s).Records (h.setsIn s) ∧
      h.store.frameText s = "\x7b" ++ (bindings s).itemsText ++ "\x7d" ++
        (if (h.parent? s).isSome then " -> ..." else "") ∧
      h.store.chainText s = "<Scope chain: " ++ " -> ".intercalate
        ((h.line s).map fun a => "\x7b" ++ (bindings a).itemsText ++ "\x7d") ++ ">" := by
  refine ⟨?_, ?_, ?_, fun a => .ofSets (h.setsIn a), ?_⟩
  · intro s x v
    rw [h.get?_store s.isLt, List.findSome?_eq_some_iff]
    simp only [lastSet_iff_lookup, lookup_reverse_eq_none_iff]
  · intro s x
    rw [h.get?_store s.isLt, List.findSome?_eq_none_iff]
    simp only [lookup_reverse_eq_none_iff]
  · intro place s hplace name v x
    exact h.get?_set_of_notMem s.isLt hplace name v x
  · intro s
    exact ⟨h.getElem?_frames s.isLt, Bindings.ofSets_records _, h.frameText_store s.isLt,
      h.chainText_store s.isLt⟩

/-- Two frames below a third: a set in one of them is not seen by the other, which sees the later of
two sets above it, although that was made when it already existed. -/
theorem frames_answer_from_history_siblings :
    let h : FrameHistory 3 :=
      ((((FrameHistory.start.make none).set 0 "x" (.int 1)).make (some 0)).make (some 0)).set
        0 "x" (.int 2)
    1 ∉ h.line (2 : Fin 3) ∧
      (h.set 1 "x" .nil).store.get? (2 : Fin 3) "x" = h.store.get? (2 : Fin 3) "x" ∧
      h.store.get? (2 : Fin 3) "x" = some (.int 2) := by
  intro h
  have hplace : 1 ∉ h.line (2 : Fin 3) := by decide
  have hanswer : h.store.get? (2 : Fin 3) "x" = some (.int 2) := by
    refine ((frames_answer_from_history h).1 2 "x" (.int 2)).mpr ⟨[2], 0, [], rfl, ?_, ?_⟩
    · exact ⟨[("x", .int 1)], [], rfl, List.not_mem_nil⟩
    · intro b hb
      obtain rfl := List.mem_singleton.mp hb
      exact List.not_mem_nil
  exact ⟨hplace, (frames_answer_from_history h).2.2.1 1 2 hplace "x" .nil "x", hanswer⟩

end TreeLisp
