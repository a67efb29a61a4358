import Mathlib.Data.Nat.Init
import Mathlib.Tactic.Common
import TreeLisp.Reader

/-!
# The grammar of forms

A form is an atom, a mark before a form, or a sequence of forms between parentheses. A parse tree
records how a sequence of tokens is a form; each sequence has at most one, and no form is the
beginning of another. So the forms at the front of a sequence of tokens, as many as there are, are
determined too.
-/
namespace TreeLisp

/-- How a sequence of tokens is a form. -/
inductive ParseTree where
  | atom (t : Token) (h : t.kind = .symbol ∨ t.kind = .string)
  | mark (t : Token) (m : Mark) (h : t.kind = .mark m) (d : ParseTree)
  | list (first : Token) (hfirst : first.kind = .opening) (ds : List ParseTree) (last : Token)
      (hlast : last.kind = .closing)

namespace ParseTree

mutual

def tokens : ParseTree → List Token
  | .atom t _ => [t]
  | .mark t _ _ d => t :: d.tokens
  | .list first _ ds last _ => first :: (allTokens ds ++ [last])

def allTokens : List ParseTree → List Token
  | [] => []
  | d :: ds => d.tokens ++ allTokens ds

end

mutual

def form : ParseTree → Value
  | .atom t _ => .atom t
  | .mark _ m _ d => .list [.symbol m.head, d.form]
  | .list _ _ ds _ _ => .list (allForms ds)

def allForms : List ParseTree → List Value
  | [] => []
  | d :: ds => d.form :: allForms ds

end

end ParseTree

/-- The tokens are a sequence of forms. -/
def Derives (tokens : List Token) (forms : List Value) : Prop :=
  ∃ ds, ParseTree.allTokens ds = tokens ∧ ParseTree.allForms ds = forms

namespace ParseTree

theorem exists_tokens_eq_cons (d : ParseTree) :
    ∃ t ts, d.tokens = t :: ts ∧ t.kind ≠ .closing := by
  cases d with
  | atom t h =>
    refine ⟨t, [], rfl, ?_⟩
    rcases h with h | h <;> simp [h]
  | mark t m h d => exact ⟨t, d.tokens, rfl, by simp [h]⟩
  | list first hfirst ds last hlast =>
    exact ⟨first, allTokens ds ++ [last], rfl, by simp [hfirst]⟩

theorem tokens_ne_nil (d : ParseTree) : d.tokens ≠ [] := by
  obtain ⟨t, ts, h, -⟩ := d.exists_tokens_eq_cons
  simp [h]

theorem length_le_allTokens (ds : List ParseTree) : ds.length ≤ (allTokens ds).length := by
  induction ds with
  | nil => exact Nat.le_refl _
  | cons d ds ih =>
    have hpos : 0 < d.tokens.length := List.length_pos_iff.mpr d.tokens_ne_nil
    simp only [List.length_cons, allTokens, List.length_append]
    omega

theorem allTokens_append (ds es : List ParseTree) :
    allTokens (ds ++ es) = allTokens ds ++ allTokens es := by
  induction ds with
  | nil => rfl
  | cons d ds ih => simp only [List.cons_append, allTokens, ih, List.append_assoc]

/-- No form starts with the first of these tokens. -/
def NoStart (rest : List Token) : Prop :=
  ∀ t ∈ rest.head?, t.kind = .closing

theorem NoStart.ne_tokens_append {rest : List Token} (h : NoStart rest) (d : ParseTree)
    (tail : List Token) : rest ≠ d.tokens ++ tail := by
  rintro rfl
  obtain ⟨t, ts, ht, hkind⟩ := d.exists_tokens_eq_cons
  exact hkind (h t (by simp [ht]))

def first : ParseTree → Token
  | .atom t _ => t
  | .mark t _ _ _ => t
  | .list t _ _ _ _ => t

theorem first_eq_of_append {d e : ParseTree} {rest rest' : List Token}
    (h : d.tokens ++ rest = e.tokens ++ rest') : d.first = e.first := by
  have hhead := congrArg List.head? h
  cases d <;> cases e <;> simpa [tokens, first] using hhead

mutual

/-- The tokens of a form determine its tree, whatever follows them. -/
theorem tokens_append_inj : (d e : ParseTree) → (rest rest' : List Token) →
    d.tokens ++ rest = e.tokens ++ rest' → d = e ∧ rest = rest'
  | .atom t h, .atom u k, rest, rest', heq => by
    simpa [tokens] using heq
  | .mark t m h d, .mark u n k e, rest, rest', heq => by
    simp only [tokens, List.cons_append, List.cons.injEq] at heq
    obtain ⟨rfl, htail⟩ := heq
    obtain ⟨rfl, hrest⟩ := tokens_append_inj d e rest rest' htail
    have hm : m = n := by simpa [h] using k
    subst hm
    exact ⟨rfl, hrest⟩
  | .list t h ds t' h', .list u k es u' k', rest, rest', heq => by
    simp only [tokens, List.cons_append, List.append_assoc, List.nil_append,
      List.cons.injEq] at heq
    obtain ⟨rfl, htail⟩ := heq
    obtain ⟨rfl, hrest⟩ := allTokens_append_inj ds es (t' :: rest) (u' :: rest')
      (by simp [NoStart, h']) (by simp [NoStart, k']) htail
    simp only [List.cons.injEq] at hrest
    obtain ⟨rfl, hrest⟩ := hrest
    exact ⟨rfl, hrest⟩
  -- Trees of two shapes start with tokens of two kinds.
  | .atom t h, .mark u m k e, rest, rest', heq => by
    obtain rfl : t = u := first_eq_of_append heq
    simp [k] at h
  | .atom t h, .list u k es u' k', rest, rest', heq => by
    obtain rfl : t = u := first_eq_of_append heq
    simp [k] at h
  | .mark t m h d, .atom u k, rest, rest', heq => by
    obtain rfl : t = u := first_eq_of_append heq
    simp [h] at k
  | .mark t m h d, .list u k es u' k', rest, rest', heq => by
    obtain rfl : t = u := first_eq_of_append heq
    simp [h] at k
  | .list t h ds t' h', .atom u k, rest, rest', heq => by
    obtain rfl : t = u := first_eq_of_append heq
    simp [h] at k
  | .list t h ds t' h', .mark u m k e, rest, rest', heq => by
    obtain rfl : t = u := first_eq_of_append heq
    simp [h] at k

theorem allTokens_append_inj : (ds es : List ParseTree) → (rest rest' : List Token) →
    NoStart rest → NoStart rest' → allTokens ds ++ rest = allTokens es ++ rest' →
    ds = es ∧ rest = rest'
  | [], [], _, _, _, _, heq => ⟨rfl, heq⟩
  | [], e :: es, rest, rest', h, _, heq => by
    simp only [allTokens, List.nil_append, List.append_assoc] at heq
    exact absurd heq (h.ne_tokens_append e _)
  | d :: ds, [], rest, rest', _, h', heq => by
    simp only [allTokens, List.nil_append, List.append_assoc] at heq
    exact absurd heq.symm (h'.ne_tokens_append d _)
  | d :: ds, e :: es, rest, rest', h, h', heq => by
    simp only [allTokens, List.append_assoc] at heq
    obtain ⟨rfl, htail⟩ := tokens_append_inj d e _ _ heq
    obtain ⟨rfl, hrest⟩ := allTokens_append_inj ds es rest rest' h h' htail
    exact ⟨rfl, hrest⟩

end

theorem allTokens_inj {ds es : List ParseTree} (h : allTokens ds = allTokens es) : ds = es := by
  have heq : allTokens ds ++ [] = allTokens es ++ [] := by rw [h]
  exact (allTokens_append_inj ds es [] [] (by simp [NoStart]) (by simp [NoStart]) heq).1

/-- No form stands at the front of these tokens. -/
def Stuck (ts : List Token) : Prop :=
  ∀ (d : ParseTree) (tail : List Token), ts ≠ d.tokens ++ tail

/-- There are forms at the front of every sequence, and then no further one. -/
theorem exists_front (ts : List Token) : ∃ ds rest, ts = allTokens ds ++ rest ∧ Stuck rest := by
  induction hn : ts.length using Nat.strong_induction_on generalizing ts with
  | _ n ih =>
    by_cases hstuck : Stuck ts
    · exact ⟨[], ts, rfl, hstuck⟩
    · unfold Stuck at hstuck
      push Not at hstuck
      obtain ⟨d, tail, rfl⟩ := hstuck
      have hpos : 0 < d.tokens.length := List.length_pos_iff.mpr d.tokens_ne_nil
      rw [List.length_append] at hn
      obtain ⟨ds, rest, rfl, hrest⟩ := ih tail.length (by omega) tail rfl
      exact ⟨d :: ds, rest, (List.append_assoc _ _ _).symm, hrest⟩

theorem prefix_of_stuck {ds : List ParseTree} {rest : List Token} (hstuck : Stuck rest)
    (es : List ParseTree) (tail : List Token)
    (h : allTokens es ++ tail = allTokens ds ++ rest) : es <+: ds := by
  induction es generalizing ds with
  | nil => exact List.nil_prefix
  | cons e es ih =>
    cases ds with
    | nil =>
      simp only [allTokens, List.nil_append, List.append_assoc] at h
      exact absurd h.symm (hstuck e _)
    | cons d ds =>
      simp only [allTokens, List.append_assoc] at h
      obtain ⟨rfl, htail⟩ := tokens_append_inj e d _ _ h
      exact (List.prefix_cons_inj e).mpr (ih htail)

end ParseTree

end TreeLisp
