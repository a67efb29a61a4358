import TreeLisp.Proofs.Grounded
import TreeLisp.Proofs.Nesting

/-!
# Runs with enough levels

How a run ends is settled as soon as it has enough levels: with any number of them it ends in this
way or for lack of levels. Two ways to a result can then be compared without counting levels. They
agree when they come to an end in the same cases and end alike, up to the numbers of the frames and
callables that they have made.
-/
namespace TreeLisp

variable {α : Type}

/-- With few levels the run ends for lack of them, or as it does with more. -/
def Levelled (run : Nat → Run α) : Prop :=
  ∀ m n, m ≤ n → ∀ s, (∃ t, (run m).run s = .error .nesting t) ∨ (run n).run s = (run m).run s

theorem Parallel.nests_or_eq {m m' : Run α} {post : Pairing → α → α → Prop}
    (hpost : ∀ a b, post .identity a b → a = b)
    (h : Parallel SameStore lacksLevels .identity post m m') (s : Store) :
    (∃ t, m.run s = .error .nesting t) ∨ m'.run s = m.run s := by
  have houtcomes := h s s ⟨rfl, rfl⟩
  generalize m.run s = r, m'.run s = r' at houtcomes ⊢
  cases houtcomes with
  | result _ hstore hab =>
    obtain ⟨rfl, rfl⟩ := hstore
    right
    rw [hpost _ _ hab]
  | fault e _ hstore =>
    right
    rw [hstore.2]
  | @excused e t _ he =>
    left
    obtain rfl : e = .nesting := he
    exact ⟨t, rfl⟩

theorem levelled_of_parallel {run : Nat → Run α} {post : Pairing → α → α → Prop}
    (hpost : ∀ a b, post .identity a b → a = b)
    (h : ∀ m n, m ≤ n → Parallel SameStore lacksLevels .identity post (run m) (run n)) :
    Levelled run :=
  fun m n hle s => (h m n hle).nests_or_eq hpost s

theorem levelled_settle {run : Nat → Strict Value}
    (h : ∀ m n, m ≤ n →
      StrictParallel SameStore lacksLevels .identity (Alike anything) (run m) (run n)) :
    Levelled fun n => Strict.settle (run n) :=
  levelled_of_parallel (fun _ _ => Alike.eq_of_identity) fun m n hle => (h m n hle).settle

theorem eval_levelled (form : Value) (scope : FrameId) : Levelled fun n => eval n form scope := by
  apply levelled_of_parallel fun _ _ => Alike.eq_of_identity
  intro m n hle
  exact eval_together_of_le hle .identity form form scope scope (.refl form) rfl

namespace Store

/-- With enough levels the run ends in this way, and with any number of them it does so or ends for
lack of levels. -/
structure EndsWith (s : Store) (run : Nat → Run α) (r : EStateM.Result Fault Store α) : Prop where
  reached : ∃ n, (run n).run s = r
  enough (t : Store) : r ≠ .error .nesting t
  always (n : Nat) : (run n).run s = r ∨ ∃ t, (run n).run s = .error .nesting t

variable {s : Store} {run run' : Nat → Run α} {r r' : EStateM.Result Fault Store α}

theorem EndsWith.eq_of_enough (h : s.EndsWith run r) {n : Nat}
    (hn : ∀ t, (run n).run s ≠ .error .nesting t) : (run n).run s = r := by
  rcases h.always n with heq | ⟨t, ht⟩
  · exact heq
  · exact absurd ht (hn t)

theorem EndsWith.unique (h : s.EndsWith run r) (h' : s.EndsWith run r') : r = r' := by
  obtain ⟨n, rfl⟩ := h.reached
  exact h'.eq_of_enough h.enough

end Store

theorem Levelled.eq_of_enough {run : Nat → Run α} (h : Levelled run) {s : Store} {m n : Nat}
    (hm : ∀ t, (run m).run s ≠ .error .nesting t) (hle : m ≤ n) :
    (run n).run s = (run m).run s :=
  (h m n hle s).resolve_left fun ⟨t, ht⟩ => hm t ht

theorem Levelled.endsWith {run : Nat → Run α} (h : Levelled run) {s : Store} {n : Nat}
    (hn : ∀ t, (run n).run s ≠ .error .nesting t) : s.EndsWith run ((run n).run s) := by
  refine ⟨⟨n, rfl⟩, hn, fun m => ?_⟩
  rcases Nat.le_total n m with hle | hle
  · exact .inl (h.eq_of_enough hn hle)
  · exact (h m n hle s).symm.imp Eq.symm id

theorem Levelled.endsWith_of_eq {run : Nat → Run α} (h : Levelled run) {s : Store} {n : Nat}
    {r : EStateM.Result Fault Store α} (hn : (run n).run s = r)
    (henough : ∀ t, r ≠ .error .nesting t) : s.EndsWith run r := by
  subst hn
  exact h.endsWith henough

theorem Levelled.exists_enough {run : Nat → Run α} (h : Levelled run) {s : Store}
    {r : EStateM.Result Fault Store α} (hr : s.EndsWith run r) :
    ∃ m, ∀ n, m ≤ n → (run n).run s = r := by
  obtain ⟨m, rfl⟩ := hr.reached
  exact ⟨m, fun n hle => h.eq_of_enough hr.enough hle⟩

theorem eval_of_more_levels {s t : Store} {form v : Value} {scope : FrameId} {n m : Nat}
    (h : (eval n form scope).run s = .ok v t) (hle : n ≤ m) :
    (eval m form scope).run s = .ok v t := by
  have heq := (eval_levelled form scope).eq_of_enough (s := s) (m := n) (by simp [h]) hle
  exact heq.trans h

theorem endsWith_eval {s t : Store} {form v : Value} {scope : FrameId} {n : Nat}
    (h : (eval n form scope).run s = .ok v t) :
    s.EndsWith (fun n => eval n form scope) (.ok v t) := by
  have hends := (eval_levelled form scope).endsWith (s := s) (n := n) (by simp [h])
  rwa [h] at hends

abbrev EndAlike (π : Pairing) :
    EStateM.Result Fault Store Value → EStateM.Result Fault Store Value → Prop :=
  Outcomes (Store.Mirrored nowhere) never π (Alike anything)

theorem EndAlike.enough_iff {π : Pairing} {r r' : EStateM.Result Fault Store Value}
    (h : EndAlike π r r') :
    (∀ t, r ≠ .error .nesting t) ↔ ∀ t, r' ≠ .error .nesting t := by
  cases h with
  | result _ _ _ => simp
  | fault e _ _ => simp
  | excused he => exact absurd he id

/-- Two runs from one store come to an end in the same cases, and then end alike. What is paired at
the start is so at the end. -/
structure Store.Agree (s : Store) (π : Pairing) (run run' : Nat → Run Value) : Prop where
  ends : (∃ r, s.EndsWith run r) ↔ ∃ r', s.EndsWith run' r'
  alike {r r' : EStateM.Result Fault Store Value} (h : s.EndsWith run r)
    (h' : s.EndsWith run' r') : EndAlike π r r'

/-- Two runs agree when either of them, once it has enough levels, ends like the other one with
some number of levels. -/
theorem Levelled.agree {run run' : Nat → Run Value} {s : Store} {π : Pairing}
    (hrun : Levelled run) (hrun' : Levelled run')
    (h : ∀ n, (∀ t, (run n).run s ≠ .error .nesting t) →
      ∃ n', EndAlike π ((run n).run s) ((run' n').run s))
    (h' : ∀ n', (∀ t, (run' n').run s ≠ .error .nesting t) →
      ∃ n, EndAlike π ((run n).run s) ((run' n').run s)) : s.Agree π run run' := by
  constructor
  · constructor
    · rintro ⟨r, hr⟩
      obtain ⟨n, rfl⟩ := hr.reached
      obtain ⟨n', halike⟩ := h n hr.enough
      exact ⟨_, hrun'.endsWith (halike.enough_iff.mp hr.enough)⟩
    · rintro ⟨r', hr'⟩
      obtain ⟨n', rfl⟩ := hr'.reached
      obtain ⟨n, halike⟩ := h' n' hr'.enough
      exact ⟨_, hrun.endsWith (halike.enough_iff.mpr hr'.enough)⟩
  · intro r r' hr hr'
    obtain ⟨n, rfl⟩ := hr.reached
    obtain ⟨n', halike⟩ := h n hr.enough
    rwa [hr'.eq_of_enough (halike.enough_iff.mp hr.enough)] at halike

/-- Two runs agree when they end alike with any number of levels but zero. -/
theorem Levelled.agree_of_alike {run run' : Nat → Run Value} {s : Store} {π : Pairing}
    (hrun : Levelled run) (hrun' : Levelled run')
    (h : ∀ n, EndAlike π ((run (n + 1)).run s) ((run' (n + 1)).run s)) : s.Agree π run run' := by
  apply hrun.agree hrun'
  · intro n hn
    have hmore := hrun.eq_of_enough hn n.le_succ
    exact ⟨n + 1, hmore ▸ h n⟩
  · intro n hn
    have hmore := hrun'.eq_of_enough hn n.le_succ
    exact ⟨n + 1, hmore ▸ h n⟩

end TreeLisp
