import TreeLisp.Proofs.AlikeSelf
import TreeLisp.Proofs.Confinement
import TreeLisp.Proofs.SessionParallel

/-!
# Stores that mirror each other

Two stores mirror each other where the frames that a pairing names have the same names bound to
values that are alike, and parents that are paired again. The stores may differ in everything else.
Evaluations in paired frames then run in parallel: they depend on nothing but the frames that can be
reached from where they start.
-/
namespace TreeLisp

namespace Pairing

def link (π : Pairing) (i j : FrameId) : Pairing :=
  ⟨fun a b => π.frame a b ∨ a = i ∧ b = j, π.serial⟩

def linkSerial (π : Pairing) (m n : Nat) : Pairing :=
  ⟨π.frame, fun a b => π.serial a b ∨ a = m ∧ b = n⟩

theorem le_link (π : Pairing) (i j : FrameId) : π ≤ π.link i j :=
  ⟨fun _ _ h => .inl h, fun _ _ h => h⟩

theorem le_linkSerial (π : Pairing) (m n : Nat) : π ≤ π.linkSerial m n :=
  ⟨fun _ _ h => h, fun _ _ h => .inl h⟩

end Pairing

/-- The frames bind the same names to values that are alike, and their parents are older than they
are and paired. -/
structure Frame.Mirrored (π : Pairing) (i j : FrameId) (f g : Frame) : Prop where
  bindings : AllBound anything π f.bindings g.bindings
  parent : Option.Rel (fun p q => p < i ∧ q < j ∧ π.frame p q) f.parent g.parent

theorem Frame.Mirrored.mono {π ρ : Pairing} (hle : π ≤ ρ) {i j : FrameId} {f g : Frame}
    (h : Frame.Mirrored π i j f g) : Frame.Mirrored ρ i j f g := by
  obtain ⟨hbindings, hparent⟩ := h
  refine ⟨hbindings.mono hle, ?_⟩
  generalize f.parent = p, g.parent = q at hparent ⊢
  cases hparent with
  | none => exact .none
  | some h => exact .some ⟨h.1, h.2.1, Pairing.frame_mono hle h.2.2⟩

/-- Paired frames are there in both stores and mirror each other, and what is paired is paired one
to one. Some frames of the first store are set apart and never paired. -/
structure Store.Mirrored (apart : FrameId → Prop) (π : Pairing) (s t : Store) : Prop where
  frames {i j : FrameId} (h : π.frame i j) :
    ∃ f g, s.frames[i]? = some f ∧ t.frames[j]? = some g ∧ Frame.Mirrored π i j f g
  oneToOne {i j i' j' : FrameId} (h : π.frame i j) (h' : π.frame i' j') : i = i' ↔ j = j'
  distinct : π.Distinct
  serials {m n : Nat} (h : π.serial m n) : m < s.serial ∧ n < t.serial
  apart (i : FrameId) (h : apart i) : i < s.frames.size ∧ ∀ j, ¬ π.frame i j

namespace Store.Mirrored

variable {apart : FrameId → Prop} {π : Pairing} {s t : Store} {i j : FrameId}

theorem lt_size (h : Mirrored apart π s t) (hframe : π.frame i j) :
    i < s.frames.size ∧ j < t.frames.size := by
  obtain ⟨f, g, hf, hg, -⟩ := h.frames hframe
  exact ⟨(Array.getElem?_eq_some_iff.mp hf).1, (Array.getElem?_eq_some_iff.mp hg).1⟩

-- Parents are older, so the two chains have room enough whatever their lengths.
theorem findSome_chainUpTo (h : Mirrored apart π s t) (name : String) (m n : Nat) (hi : i < m)
    (hj : j < n) (hframe : π.frame i j) :
    Option.Rel (Stored anything π)
      ((chainUpTo s.frames m i).findSome? fun frame => frame.bindings.lookup name)
      ((chainUpTo t.frames n j).findSome? fun frame => frame.bindings.lookup name) := by
  induction m generalizing i j n with
  | zero => exact absurd hi (Nat.not_lt_zero i)
  | succ m ih =>
    obtain ⟨n, rfl⟩ := Nat.exists_eq_succ_of_ne_zero (Nat.ne_zero_of_lt hj)
    obtain ⟨f, g, hf, hg, hbindings, hparent⟩ := h.frames hframe
    have hlookup := hbindings.lookup name
    obtain ⟨p, b⟩ := f
    obtain ⟨q, c⟩ := g
    simp only [chainUpTo, hf, hg] at hparent hlookup ⊢
    cases hparent with
    | none =>
      simp only [List.findSome?_cons, List.findSome?_nil]
      generalize b.lookup name = x, c.lookup name = y at hlookup ⊢
      cases hlookup with
      | none => exact .none
      | some hvw => exact .some hvw
    | some hpq =>
      obtain ⟨hp, hq, hparents⟩ := hpq
      simp only [List.findSome?_cons]
      generalize b.lookup name = x, c.lookup name = y at hlookup ⊢
      cases hlookup with
      | none =>
        have hp' := Nat.lt_of_lt_of_le hp (Nat.le_of_lt_succ hi)
        exact ih n hp' (Nat.lt_of_lt_of_le hq (Nat.le_of_lt_succ hj)) hparents
      | some hvw => exact .some hvw

theorem get (h : Mirrored apart π s t) (hframe : π.frame i j) (name : String) :
    Option.Rel (Stored anything π) (s.get? i name) (t.get? j name) :=
  h.findSome_chainUpTo name (i + 1) (j + 1) (Nat.lt_succ_self i) (Nat.lt_succ_self j) hframe

theorem frameText_eq (h : Mirrored apart π s t) (hframe : π.frame i j) :
    s.frameText i = t.frameText j := by
  obtain ⟨⟨p, b⟩, ⟨q, c⟩, hf, hg, hbindings, hparent⟩ := h.frames hframe
  have htext : b.itemsText = c.itemsText := hbindings.itemsText_eq
  simp only [frameText, hf, hg, Frame.text, htext]
  cases hparent <;> rfl

theorem set (h : Mirrored apart π s t) (hframe : π.frame i j) (name : String) {v w : Value}
    (hvalue : Stored anything π v w) : Mirrored apart π (s.set i name v) (t.set j name w) where
  frames {i' j'} hframe' := by
    obtain ⟨f, g, hf, hg, hmirrored⟩ := h.frames hframe'
    have hsame := h.oneToOne hframe hframe'
    simp only [Store.set, Array.getElem?_modify, hf, hg]
    by_cases hi : i = i'
    · rw [if_pos hi, if_pos (hsame.mp hi)]
      exact ⟨_, _, rfl, rfl, hmirrored.bindings.insert trivial hvalue, hmirrored.parent⟩
    · rw [if_neg hi, if_neg fun hj => hi (hsame.mpr hj)]
      exact ⟨f, g, rfl, rfl, hmirrored⟩
  oneToOne := h.oneToOne
  distinct := h.distinct
  serials := h.serials
  apart k hk := by
    rw [Store.set, Array.size_modify]
    exact h.apart k hk

theorem addFrame (h : Mirrored apart π s t) (hframe : π.frame i j) {b c : Bindings}
    (hbindings : AllBound anything π b c) :
    Mirrored apart (π.link s.frames.size t.frames.size) (s.addFrame (some i) b).2
      (t.addFrame (some j) c).2 where
  frames := by
    rintro i' j' (hold | ⟨rfl, rfl⟩)
    · obtain ⟨f, g, hf, hg, hmirrored⟩ := h.frames hold
      obtain ⟨hi', hj'⟩ := h.lt_size hold
      refine ⟨f, g, ?_, ?_, hmirrored.mono (π.le_link _ _)⟩
      · rw [getElem?_addFrame hi', hf]
      · rw [getElem?_addFrame hj', hg]
    · obtain ⟨hi, hj⟩ := h.lt_size hframe
      refine ⟨⟨some i, b⟩, ⟨some j, c⟩, by simp [Store.addFrame], by simp [Store.addFrame], ?_⟩
      exact ⟨hbindings.mono (π.le_link _ _), .some ⟨hi, hj, .inl hframe⟩⟩
  oneToOne := by
    rintro i₁ j₁ i₂ j₂ (h₁ | ⟨rfl, rfl⟩) (h₂ | ⟨rfl, rfl⟩)
    · exact h.oneToOne h₁ h₂
    · obtain ⟨hi, hj⟩ := h.lt_size h₁
      exact iff_of_false (Nat.ne_of_lt hi) (Nat.ne_of_lt hj)
    · obtain ⟨hi, hj⟩ := h.lt_size h₂
      exact iff_of_false (Nat.ne_of_gt hi) (Nat.ne_of_gt hj)
    · exact iff_of_true rfl rfl
  distinct := h.distinct
  serials := h.serials
  apart k hk := by
    obtain ⟨hlt, hnot⟩ := h.apart k hk
    constructor
    · rw [Store.addFrame, Array.size_push]
      exact Nat.lt_succ_of_lt hlt
    · rintro j' (hold | ⟨rfl, -⟩)
      · exact hnot j' hold
      · exact Nat.lt_irrefl _ hlt

theorem newSerial (h : Mirrored apart π s t) :
    Mirrored apart (π.linkSerial s.serial t.serial) { s with serial := s.serial + 1 }
      { t with serial := t.serial + 1 } where
  frames {i' j'} hframe := by
    obtain ⟨f, g, hf, hg, hmirrored⟩ := h.frames hframe
    exact ⟨f, g, hf, hg, hmirrored.mono (π.le_linkSerial _ _)⟩
  oneToOne := h.oneToOne
  distinct := by
    rintro m₁ n₁ m₂ n₂ (h₁ | ⟨rfl, rfl⟩) (h₂ | ⟨rfl, rfl⟩)
    · exact h.distinct h₁ h₂
    · obtain ⟨hm, hn⟩ := h.serials h₁
      exact iff_of_false (Nat.ne_of_lt hm) (Nat.ne_of_lt hn)
    · obtain ⟨hm, hn⟩ := h.serials h₂
      exact iff_of_false (Nat.ne_of_gt hm) (Nat.ne_of_gt hn)
    · exact iff_of_true rfl rfl
  serials := by
    rintro m n (hold | ⟨rfl, rfl⟩)
    · obtain ⟨hm, hn⟩ := h.serials hold
      exact ⟨Nat.lt_succ_of_lt hm, Nat.lt_succ_of_lt hn⟩
    · exact ⟨Nat.lt_succ_self _, Nat.lt_succ_self _⟩
  apart := h.apart

theorem addRecord (h : Mirrored apart π s t) (r r' : Record) :
    Mirrored apart π (s.addRecord r) (t.addRecord r') :=
  ⟨h.frames, h.oneToOne, h.distinct, h.serials, h.apart⟩

theorem apart_mono {apart apart' : FrameId → Prop} {π : Pairing} {s t : Store}
    (h : Mirrored apart π s t) (hle : ∀ i, apart' i → apart i) : Mirrored apart' π s t :=
  ⟨h.frames, h.oneToOne, h.distinct, h.serials, fun i hi => h.apart i (hle i hi)⟩

theorem addFrame_apart {apart : FrameId → Prop} {π : Pairing} {s t : Store}
    (h : Mirrored apart π s t) (parent : Option FrameId) (bindings : Bindings) :
    Mirrored (fun i => apart i ∨ i = s.frames.size) π (s.addFrame parent bindings).2 t where
  frames hframe := by
    obtain ⟨f, g, hf, hg, hmirrored⟩ := h.frames hframe
    refine ⟨f, g, ?_, hg, hmirrored⟩
    rw [getElem?_addFrame (h.lt_size hframe).1, hf]
  oneToOne := h.oneToOne
  distinct := h.distinct
  serials := h.serials
  apart := by
    have hsize : (s.addFrame parent bindings).2.frames.size = s.frames.size + 1 :=
      Array.size_push _
    rw [hsize]
    rintro i (hi | rfl)
    · exact ⟨Nat.lt_succ_of_lt (h.apart i hi).1, (h.apart i hi).2⟩
    · exact ⟨Nat.lt_succ_self _, fun j hframe => Nat.lt_irrefl _ (h.lt_size hframe).1⟩

end Store.Mirrored

theorem mirrored_simulation (apart : FrameId → Prop) :
    Simulation anything (Store.Mirrored apart) where
  inserted _ _ := trivial
  argument _ := trivial
  distinct h := h.distinct
  get h _ _ hframe name _ := h.get hframe name
  set h _ _ hframe name _ _ _ hvalue := h.set hframe name hvalue
  addFrame h _ _ hframe _ _ hbindings :=
    ⟨_, Pairing.le_link _ _ _, .inr ⟨rfl, rfl⟩, h.addFrame hframe hbindings⟩
  newSerial h := ⟨_, Pairing.le_linkSerial _ _ _, .inr ⟨rfl, rfl⟩, h.newSerial⟩
  record h r r' _ := h.addRecord r r'

end TreeLisp
