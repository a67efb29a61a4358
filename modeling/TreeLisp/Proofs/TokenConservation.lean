import TreeLisp.Proofs.Parsing

/-!
# A token stream loses and repeats nothing

Everything that is done with a stream comes down to looking at the next token and taking it. Reading
a form does so too: by recursive descent it looks at a token, decides, takes it and goes on. Written
in this way it gives the same answer and leaves the same stream as reading with a stack of contexts.
So whatever is asked of a stream, the tokens that were taken, the one that is held back and those to
come are the tokens that there were, in their order; and a look at the next token changes no later
answer.
-/
namespace TreeLisp.TokenStream

section

variable {s : TokenStream} {t : Token} {rest : List Token}

theorem held_eq_nil {held : List Token} (h : (t :: held).length ≤ 1) : held = [] := by
  apply List.eq_nil_of_length_eq_zero
  rw [List.length_cons] at h
  omega

theorem peek_of_cons (hbuffer : s.buffer.length ≤ 1) (h : s.remaining = t :: rest) :
    s.peek = (.ok (some t), ⟨[t], rest, s.failure⟩) := by
  obtain ⟨buffer, pending, failure⟩ := s
  cases buffer with
  | nil =>
    obtain rfl : pending = t :: rest := h
    rfl
  | cons first held =>
    obtain rfl := held_eq_nil hbuffer
    obtain ⟨rfl, rfl⟩ := List.cons.inj h
    rfl

theorem eq_of_remaining_nil (h : s.remaining = []) : s = ⟨[], [], s.failure⟩ := by
  obtain ⟨buffer, pending, failure⟩ := s
  obtain ⟨rfl, rfl⟩ := List.append_eq_nil_iff.mp h
  rfl

theorem peek_of_nil (h : s.remaining = []) (hfailure : s.failure = none) :
    s.peek = (.ok none, exhausted) := by
  rw [eq_of_remaining_nil h, hfailure]
  rfl

theorem peek_of_failure (h : s.remaining = []) {e : ReadError} (hfailure : s.failure = some e) :
    s.peek = (.error e, exhausted) := by
  rw [eq_of_remaining_nil h, hfailure]
  rfl

/-- No error is to come, and one token at most is held back. -/
structure Steady (s : TokenStream) : Prop where
  failure : s.failure = none
  buffer : s.buffer.length ≤ 1

theorem Steady.peek_eq (h : s.Steady) :
    s.peek = (.ok s.remaining.head?, ⟨s.remaining.head?.toList, s.remaining.tail, none⟩) := by
  cases hs : s.remaining with
  | nil => rw [peek_of_nil hs h.failure]; rfl
  | cons t rest => rw [peek_of_cons h.buffer hs, h.failure]; rfl

theorem Steady.advance_eq (h : s.Steady) :
    s.advance = (.ok s.remaining.head?, ⟨[], s.remaining.tail, none⟩) := by
  obtain ⟨buffer, pending, failure⟩ := s
  obtain ⟨rfl, hbuffer⟩ := h
  cases buffer with
  | nil => cases pending <;> rfl
  | cons first held =>
    obtain rfl := held_eq_nil hbuffer
    rfl

end

/-- A stream, and the tokens that were taken out of it so far, in order. -/
structure Tape where
  taken : List Token
  stream : TokenStream

namespace Tape

abbrev Reading := EStateM ReadError Tape

def look : Reading (Option Token) := fun tape =>
  match tape.stream.peek with
  | (.ok t?, s) => .ok t? ⟨tape.taken, s⟩
  | (.error e, s) => .error e ⟨tape.taken, s⟩

def take : Reading (Option Token) := fun tape =>
  match tape.stream.advance with
  | (.ok t?, s) => .ok t? ⟨tape.taken ++ t?.toList, s⟩
  | (.error e, s) => .error e ⟨tape.taken, s⟩

/-- The list that a mark makes of the form behind it, which must be there. -/
def marked (m : Mark) (text : String) : Option Value → Reading (Option Value)
  | none => throw (.missingForm text)
  | some v => return some (.list [.symbol m.head, v])

def itemThen (later : Reading (List Value)) : Option Value → Reading (List Value)
  | none => return []
  | some v => do
    let vs ← later
    return v :: vs

mutual

/-- Read the next form, none at the end of the stream, with at most `fuel` steps of descent. -/
def form : Nat → Reading (Option Value)
  | 0 => return none
  | fuel + 1 => do
    match ← look with
    | none => return none
    | some t =>
      match t.kind with
      | .symbol | .string =>
        let _ ← take
        return some (.atom t)
      | .mark m =>
        let _ ← take
        marked m t.text (← form fuel)
      | .opening =>
        let _ ← take
        return some (.list (← items fuel))
      | .closing => throw .unexpectedClosing

def items : Nat → Reading (List Value)
  | 0 => return []
  | fuel + 1 => do
    match ← look with
    | none => throw .unmatchedOpening
    | some t =>
      if t.kind = .closing then
        let _ ← take
        return []
      else itemThen (items fuel) (← form fuel)

end

/-- The tape when its next token is held back. -/
def held (tape : Tape) (t : Token) (rest : List Token) : Tape :=
  ⟨tape.taken, ⟨[t], rest, tape.stream.failure⟩⟩

def past (tape : Tape) (t : Token) (rest : List Token) : Tape :=
  ⟨tape.taken ++ [t], ⟨[], rest, tape.stream.failure⟩⟩

section

variable {α β : Type} {tape next : Tape}

theorem bind_of_ok {run : Reading α} {a : α} (h : run tape = .ok a next) (k : α → Reading β) :
    (run >>= k) tape = k a next := by
  change EStateM.bind run k tape = k a next
  rw [EStateM.bind, h]

theorem bind_of_error {run : Reading α} {e : ReadError} (h : run tape = .error e next)
    (k : α → Reading β) : (run >>= k) tape = .error e next := by
  change EStateM.bind run k tape = .error e next
  rw [EStateM.bind, h]

end

section

variable {fuel : Nat} {tape : Tape} {t : Token} {rest : List Token}

theorem look_of_cons (hbuffer : tape.stream.buffer.length ≤ 1)
    (h : tape.stream.remaining = t :: rest) : look tape = .ok (some t) (tape.held t rest) := by
  rw [look, peek_of_cons hbuffer h]
  rfl

theorem look_of_nil (h : tape.stream.remaining = []) (hfailure : tape.stream.failure = none) :
    look tape = .ok none ⟨tape.taken, exhausted⟩ := by
  rw [look, peek_of_nil h hfailure]

theorem look_of_failure (h : tape.stream.remaining = []) {e : ReadError}
    (hfailure : tape.stream.failure = some e) : look tape = .error e ⟨tape.taken, exhausted⟩ := by
  rw [look, peek_of_failure h hfailure]

theorem take_held : take (tape.held t rest) = .ok (some t) (tape.past t rest) := rfl

theorem form_atom (hbuffer : tape.stream.buffer.length ≤ 1)
    (h : tape.stream.remaining = t :: rest)
    (hkind : t.kind = .symbol ∨ t.kind = .string) :
    form (fuel + 1) tape = .ok (some (.atom t)) (tape.past t rest) := by
  rw [form, bind_of_ok (look_of_cons hbuffer h)]
  rcases hkind with hkind | hkind <;> simp only [hkind] <;> rfl

theorem form_mark (hbuffer : tape.stream.buffer.length ≤ 1)
    (h : tape.stream.remaining = t :: rest) {m : Mark} (hkind : t.kind = .mark m) :
    form (fuel + 1) tape = (form fuel >>= marked m t.text) (tape.past t rest) := by
  rw [form, bind_of_ok (look_of_cons hbuffer h)]
  simp only [hkind]
  rw [bind_of_ok take_held]

theorem form_opening (hbuffer : tape.stream.buffer.length ≤ 1)
    (h : tape.stream.remaining = t :: rest) (hkind : t.kind = .opening) :
    form (fuel + 1) tape =
      (items fuel >>= fun vs => pure (some (.list vs))) (tape.past t rest) := by
  rw [form, bind_of_ok (look_of_cons hbuffer h)]
  simp only [hkind]
  rw [bind_of_ok take_held]

theorem form_closing (hbuffer : tape.stream.buffer.length ≤ 1)
    (h : tape.stream.remaining = t :: rest) (hkind : t.kind = .closing) :
    form (fuel + 1) tape = .error .unexpectedClosing (tape.held t rest) := by
  rw [form, bind_of_ok (look_of_cons hbuffer h)]
  simp only [hkind]
  rfl

theorem items_closing (hbuffer : tape.stream.buffer.length ≤ 1)
    (h : tape.stream.remaining = t :: rest) (hkind : t.kind = .closing) :
    items (fuel + 1) tape = .ok [] (tape.past t rest) := by
  rw [items, bind_of_ok (look_of_cons hbuffer h)]
  simp only [if_pos hkind]
  rfl

theorem items_form (hbuffer : tape.stream.buffer.length ≤ 1)
    (h : tape.stream.remaining = t :: rest) (hkind : t.kind ≠ .closing) :
    items (fuel + 1) tape = (form fuel >>= itemThen (items fuel)) (tape.held t rest) := by
  rw [items, bind_of_ok (look_of_cons hbuffer h)]
  simp only [if_neg hkind]

end

/-- A closing parenthesis at the front of the tokens is not one that the contexts await. -/
def Expects (contexts : List Context) (ts : List Token) : Prop :=
  ∀ t rest, ts = t :: rest → t.kind = .closing → shift contexts t = none

/-- What comes of looking for a form at the front of the tokens, by what reading in any contexts
makes of the same tokens: it hands the form on, it is at the end, or it stops at the same error. -/
inductive FormRead (failure : Option ReadError) (ts : List Token) :
    EStateM.Result ReadError Tape (Option Value) → Prop where
  | form {v : Value} {taken rest : List Token} (hrest : rest.length < ts.length)
      (hparse : ∀ contexts, Expects contexts ts →
        parseIn failure contexts ts = proceed failure rest (deliver contexts v)) :
      FormRead failure ts (.ok (some v) ⟨taken, ⟨[], rest, failure⟩⟩)
  | atEnd {taken : List Token} (hnil : ts = []) (hfailure : failure = none) :
      FormRead failure ts (.ok none ⟨taken, exhausted⟩)
  | error {e : ReadError} {taken : List Token} {left : TokenStream}
      (hparse : ∀ contexts, Expects contexts ts → parseIn failure contexts ts = (.error e, left)) :
      FormRead failure ts (.error e ⟨taken, left⟩)

/-- The same for the items of a list, with which reading in an open list goes on. -/
inductive ItemsRead (failure : Option ReadError) (ts : List Token) :
    EStateM.Result ReadError Tape (List Value) → Prop where
  | items {vs : List Value} {taken rest : List Token} (hrest : rest.length < ts.length)
      (hparse : ∀ before outer, parseIn failure (.list before :: outer) ts =
        proceed failure rest (deliver outer (.list (before.reverse ++ vs)))) :
      ItemsRead failure ts (.ok vs ⟨taken, ⟨[], rest, failure⟩⟩)
  | error {e : ReadError} {taken : List Token} {left : TokenStream}
      (hparse : ∀ before outer,
        parseIn failure (.list before :: outer) ts = (.error e, left)) :
      ItemsRead failure ts (.error e ⟨taken, left⟩)

theorem expects_nil (ts : List Token) : Expects [] ts := by
  intro t rest _ hkind
  simp only [shift, hkind]

theorem expects_mark (m : Mark) (text : String) (outer : List Context) (ts : List Token) :
    Expects (.mark m text :: outer) ts := by
  intro t rest _ hkind
  simp only [shift, hkind]

section

variable {failure : Option ReadError} {t : Token} {rest : List Token} {tape : Tape}

theorem FormRead.marked {m : Mark} (hkind : t.kind = .mark m) {run : Reading (Option Value)}
    (h : FormRead failure rest (run tape)) :
    FormRead failure (t :: rest) ((run >>= marked m t.text) tape) := by
  have hmark (contexts : List Context) : parseIn failure contexts (t :: rest) =
      parseIn failure (.mark m t.text :: contexts) rest :=
    parseIn_mark failure contexts hkind rest
  generalize hresult : run tape = result at h
  cases h with
  | form hlater hparse =>
    rw [bind_of_ok hresult]
    refine .form (Nat.lt_succ_of_lt hlater) fun contexts _ => ?_
    exact (hmark contexts).trans (hparse _ (expects_mark m t.text contexts rest))
  | atEnd hnil hfailure =>
    rw [bind_of_ok hresult]
    subst hnil hfailure
    exact .error fun contexts _ => hmark contexts
  | error hparse =>
    rw [bind_of_error hresult]
    refine .error fun contexts _ => ?_
    exact (hmark contexts).trans (hparse _ (expects_mark m t.text contexts rest))

theorem ItemsRead.listed (hkind : t.kind = .opening) {run : Reading (List Value)}
    (h : ItemsRead failure rest (run tape)) :
    FormRead failure (t :: rest) ((run >>= fun vs => pure (some (.list vs))) tape) := by
  have hopening (contexts : List Context) : parseIn failure contexts (t :: rest) =
      parseIn failure (.list [] :: contexts) rest :=
    parseIn_opening failure contexts hkind rest
  generalize hresult : run tape = result at h
  cases h with
  | items hlater hparse =>
    rw [bind_of_ok hresult]
    refine .form (Nat.lt_succ_of_lt hlater) fun contexts _ => ?_
    exact (hopening contexts).trans (hparse [] contexts)
  | error hparse =>
    rw [bind_of_error hresult]
    exact .error fun contexts _ => (hopening contexts).trans (hparse [] contexts)

theorem FormRead.itemThen (hkind : t.kind ≠ .closing) {run : Reading (Option Value)}
    {later : Reading (List Value)} (h : FormRead failure (t :: rest) (run tape))
    (hitems : ∀ (taken left : List Token), left.length < (t :: rest).length →
      ItemsRead failure left (later ⟨taken, ⟨[], left, failure⟩⟩)) :
    ItemsRead failure (t :: rest) ((run >>= itemThen later) tape) := by
  have hexpects (contexts : List Context) : Expects contexts (t :: rest) := by
    rintro _ _ hfirst hclosing
    obtain ⟨rfl, -⟩ := List.cons.inj hfirst
    exact absurd hclosing hkind
  generalize hresult : run tape = result at h
  cases h with
  | @form v taken left hlater hparse =>
    rw [bind_of_ok hresult]
    -- The form goes to the open list, and the further items follow it there.
    have hdelivered (before : List Value) (outer : List Context) :
        parseIn failure (.list before :: outer) (t :: rest) =
          parseIn failure (.list (v :: before) :: outer) left :=
      hparse (.list before :: outer) (hexpects _)
    have hleft := hitems taken left hlater
    change ItemsRead failure (t :: rest)
      ((later >>= fun vs => pure (v :: vs)) ⟨taken, ⟨[], left, failure⟩⟩)
    generalize hresults : later ⟨taken, ⟨[], left, failure⟩⟩ = results at hleft
    cases hleft with
    | items hlast hparse' =>
      rw [bind_of_ok hresults]
      refine .items (Nat.lt_trans hlast hlater) fun before outer => ?_
      rw [hdelivered, hparse', List.reverse_cons, List.append_assoc, List.singleton_append]
    | error hparse' =>
      rw [bind_of_error hresults]
      exact .error fun before outer => (hdelivered before outer).trans (hparse' _ outer)
  | atEnd hnil => cases hnil
  | error hparse =>
    rw [bind_of_error hresult]
    exact .error fun before outer => hparse _ (hexpects _)

end

/-- With two steps for each token and one more for a form, or two more for the items of a list, the
descent comes to the end that reading with contexts comes to. -/
structure Agrees (fuel : Nat) : Prop where
  form (tape : Tape) (hbuffer : tape.stream.buffer.length ≤ 1)
    (hfuel : 2 * tape.stream.remaining.length < fuel) :
    FormRead tape.stream.failure tape.stream.remaining (form fuel tape)
  items (tape : Tape) (hbuffer : tape.stream.buffer.length ≤ 1)
    (hfuel : 2 * tape.stream.remaining.length + 1 < fuel) :
    ItemsRead tape.stream.failure tape.stream.remaining (items fuel tape)

theorem formRead_succ {fuel : Nat} (h : Agrees fuel) (tape : Tape)
    (hbuffer : tape.stream.buffer.length ≤ 1)
    (hfuel : 2 * tape.stream.remaining.length < fuel + 1) :
    FormRead tape.stream.failure tape.stream.remaining (form (fuel + 1) tape) := by
  cases hremaining : tape.stream.remaining with
  | nil =>
    cases hfailure : tape.stream.failure with
    | none =>
      rw [form, bind_of_ok (look_of_nil hremaining hfailure)]
      exact .atEnd rfl rfl
    | some e =>
      rw [form, bind_of_error (look_of_failure hremaining hfailure)]
      exact .error fun contexts _ => rfl
  | cons t rest =>
    rw [hremaining, List.length_cons] at hfuel
    cases hkind : t.kind with
    | symbol =>
      rw [form_atom hbuffer hremaining (.inl hkind)]
      exact .form (Nat.lt_succ_self _) fun contexts _ => parseIn_atom _ contexts (.inl hkind) rest
    | string =>
      rw [form_atom hbuffer hremaining (.inr hkind)]
      exact .form (Nat.lt_succ_self _) fun contexts _ => parseIn_atom _ contexts (.inr hkind) rest
    | mark m =>
      rw [form_mark hbuffer hremaining hkind]
      have hrest : 2 * rest.length < fuel := by omega
      exact (h.form (tape.past t rest) (Nat.zero_le 1) hrest).marked hkind
    | opening =>
      rw [form_opening hbuffer hremaining hkind]
      have hrest : 2 * rest.length + 1 < fuel := by omega
      exact (h.items (tape.past t rest) (Nat.zero_le 1) hrest).listed hkind
    | closing =>
      rw [form_closing hbuffer hremaining hkind]
      exact .error fun contexts hexpects => parseIn_of_no_shift _ (hexpects t rest rfl hkind) rest

theorem itemsRead_succ {fuel : Nat} (h : Agrees fuel) (tape : Tape)
    (hbuffer : tape.stream.buffer.length ≤ 1)
    (hfuel : 2 * tape.stream.remaining.length + 1 < fuel + 1) :
    ItemsRead tape.stream.failure tape.stream.remaining (items (fuel + 1) tape) := by
  cases hremaining : tape.stream.remaining with
  | nil =>
    cases hfailure : tape.stream.failure with
    | none =>
      rw [items, bind_of_ok (look_of_nil hremaining hfailure)]
      exact .error fun before outer => rfl
    | some e =>
      rw [items, bind_of_error (look_of_failure hremaining hfailure)]
      exact .error fun before outer => rfl
  | cons t rest =>
    rw [hremaining, List.length_cons] at hfuel
    by_cases hkind : t.kind = .closing
    · rw [items_closing hbuffer hremaining hkind]
      refine .items (Nat.lt_succ_self _) fun before outer => ?_
      rw [parseIn_closing _ before outer hkind, List.append_nil]
    · rw [items_form hbuffer hremaining hkind]
      have hfirst : 2 * (t :: rest).length < fuel := by
        rw [List.length_cons]
        omega
      refine (h.form (tape.held t rest) (Nat.le_refl 1) hfirst).itemThen hkind ?_
      intro taken left hleft
      have hlt : left.length < rest.length + 1 := hleft
      have hfurther : 2 * left.length + 1 < fuel := by omega
      exact h.items ⟨taken, ⟨[], left, tape.stream.failure⟩⟩ (Nat.zero_le 1) hfurther

theorem agrees (fuel : Nat) : Agrees fuel := by
  induction fuel with
  | zero => exact ⟨fun _ _ h => absurd h (Nat.not_lt_zero _), fun _ _ h => absurd h (Nat.not_lt_zero _)⟩
  | succ fuel ih => exact ⟨formRead_succ ih, itemsRead_succ ih⟩

def descend : Reading (Option Value) := fun tape =>
  form (2 * tape.stream.remaining.length + 1) tape

/-- The answer of a reading and the stream that it leaves behind. -/
def outcome {α : Type} : EStateM.Result ReadError Tape α → Except ReadError α × TokenStream
  | .ok a tape => (.ok a, tape.stream)
  | .error e tape => (.error e, tape.stream)

theorem outcome_descend (tape : Tape) (hbuffer : tape.stream.buffer.length ≤ 1) :
    outcome (descend tape) = tape.stream.parse := by
  have hread := (agrees _).form tape hbuffer (Nat.lt_succ_self _)
  have hexpects := expects_nil tape.stream.remaining
  rw [descend, parse]
  generalize form _ tape = result at hread
  cases hread with
  | form _ hparse => rw [hparse [] hexpects]; rfl
  | atEnd hnil hfailure => rw [hnil, hfailure]; rfl
  | error hparse => rw [hparse [] hexpects]; rfl

/-- All tokens, those that were taken and those that were not. -/
def whole (tape : Tape) : List Token :=
  tape.taken ++ tape.stream.remaining

def ending {α : Type} : EStateM.Result ReadError Tape α → Tape
  | .ok _ tape => tape
  | .error _ tape => tape

/-- No token is lost, repeated or moved. -/
def Conserves {α : Type} (run : Reading α) : Prop :=
  ∀ tape, (ending (run tape)).whole = tape.whole

section

variable {α β : Type}

theorem conserves_pure (a : α) : Conserves (pure a) := fun _ => rfl

theorem conserves_throw (e : ReadError) : Conserves (throw e : Reading α) := fun _ => rfl

theorem conserves_bind {run : Reading α} {k : α → Reading β} (hrun : Conserves run)
    (hk : ∀ a, Conserves (k a)) : Conserves (run >>= k) := by
  intro tape
  have htape := hrun tape
  cases hresult : run tape with
  | ok a next =>
    rw [hresult] at htape
    rw [bind_of_ok hresult, hk a next]
    exact htape
  | error e next =>
    rw [hresult] at htape
    rw [bind_of_error hresult]
    exact htape

theorem conserves_look : Conserves look := by
  rintro ⟨taken, ⟨buffer, pending, failure⟩⟩
  cases buffer with
  | cons t held => rfl
  | nil =>
    cases pending with
    | cons t rest => rfl
    | nil => cases failure <;> rfl

theorem conserves_take : Conserves take := by
  rintro ⟨taken, ⟨buffer, pending, failure⟩⟩
  cases buffer with
  | cons t held => exact List.append_assoc taken [t] (held ++ pending)
  | nil =>
    cases pending with
    | cons t rest => exact List.append_assoc taken [t] rest
    | nil =>
      cases failure with
      | none => exact List.append_assoc taken [] []
      | some e => rfl

theorem conserves_marked (m : Mark) (text : String) (v : Option Value) :
    Conserves (marked m text v) := by
  cases v with
  | none => exact conserves_throw _
  | some v => exact conserves_pure _

theorem conserves_itemThen {later : Reading (List Value)} (hlater : Conserves later)
    (v : Option Value) : Conserves (itemThen later v) := by
  cases v with
  | none => exact conserves_pure _
  | some v => exact conserves_bind hlater fun _ => conserves_pure _

theorem conserves_form_items (fuel : Nat) : Conserves (form fuel) ∧ Conserves (items fuel) := by
  induction fuel with
  | zero => exact ⟨conserves_pure _, conserves_pure _⟩
  | succ fuel ih =>
    constructor
    · rw [form]
      refine conserves_bind conserves_look ?_
      rintro (_ | t)
      · exact conserves_pure _
      · cases hkind : t.kind with
        | symbol => simp only [hkind]; exact conserves_bind conserves_take fun _ => conserves_pure _
        | string => simp only [hkind]; exact conserves_bind conserves_take fun _ => conserves_pure _
        | mark m =>
          simp only [hkind]
          exact conserves_bind conserves_take fun _ =>
            conserves_bind ih.1 fun v => conserves_marked m t.text v
        | opening =>
          simp only [hkind]
          exact conserves_bind conserves_take fun _ =>
            conserves_bind ih.2 fun _ => conserves_pure _
        | closing => simp only [hkind]; exact conserves_throw _
    · rw [items]
      refine conserves_bind conserves_look ?_
      rintro (_ | t)
      · exact conserves_throw _
      · by_cases hkind : t.kind = .closing
        · simp only [if_pos hkind]
          exact conserves_bind conserves_take fun _ => conserves_pure _
        · simp only [if_neg hkind]
          exact conserves_bind ih.1 fun v => conserves_itemThen ih.2 v

theorem conserves_descend : Conserves descend :=
  fun tape => (conserves_form_items _).1 tape

end

end Tape

inductive Request where
  | peek
  | advance
  | parse
deriving DecidableEq, Repr

inductive Reply where
  | token (t : Option Token)
  | form (v : Option Value)

/-- The reply of a stream, or the error, and the stream after it. -/
def Request.serve : Request → TokenStream → Except ReadError Reply × TokenStream
  | peek, s => s.peek.map (Except.map .token) id
  | advance, s => s.advance.map (Except.map .token) id
  | parse, s => s.parse.map (Except.map .form) id

def after (s : TokenStream) (requests : List Request) : TokenStream :=
  requests.foldl (fun s r => (r.serve s).2) s

/-- The replies and errors, one for each request. -/
def answers : TokenStream → List Request → List (Except ReadError Reply)
  | _, [] => []
  | s, r :: later => (r.serve s).1 :: answers (r.serve s).2 later

/-- The same request, noting the tokens that are taken. -/
def Request.read : Request → Tape.Reading Reply
  | peek => .token <$> Tape.look
  | advance => .token <$> Tape.take
  | parse => .form <$> Tape.descend

def Tape.after (tape : Tape) (requests : List Request) : Tape :=
  requests.foldl (fun tape r => ending (r.read tape)) tape

open Tape

theorem outcome_map {α β : Type} (f : α → β) (run : Reading α) (tape : Tape) :
    outcome ((f <$> run) tape) = (outcome (run tape)).map (Except.map f) id := by
  change outcome (EStateM.map f run tape) = _
  rw [EStateM.map]
  cases run tape <;> rfl

theorem outcome_look (tape : Tape) : outcome (look tape) = tape.stream.peek := by
  rw [look]
  rcases tape.stream.peek with ⟨_ | _, s⟩ <;> rfl

theorem outcome_take (tape : Tape) : outcome (take tape) = tape.stream.advance := by
  rw [take]
  rcases tape.stream.advance with ⟨_ | _, s⟩ <;> rfl

theorem outcome_read (r : Request) (tape : Tape) (hbuffer : tape.stream.buffer.length ≤ 1) :
    outcome (r.read tape) = r.serve tape.stream := by
  cases r with
  | peek => rw [Request.read, outcome_map, outcome_look]; rfl
  | advance => rw [Request.read, outcome_map, outcome_take]; rfl
  | parse => rw [Request.read, outcome_map, outcome_descend tape hbuffer]; rfl

theorem conserves_read (r : Request) : Conserves r.read := by
  cases r with
  | peek => exact conserves_bind conserves_look fun _ => conserves_pure _
  | advance => exact conserves_bind conserves_take fun _ => conserves_pure _
  | parse => exact conserves_bind conserves_descend fun _ => conserves_pure _

theorem stream_ending {α : Type} (result : EStateM.Result ReadError Tape α) :
    (ending result).stream = (outcome result).2 := by
  cases result <;> rfl

theorem whole_after (tape : Tape) (requests : List Request) :
    (tape.after requests).whole = tape.whole := by
  induction requests generalizing tape with
  | nil => rfl
  | cons r later ih => exact (ih _).trans (conserves_read r tape)

section

variable {s s' : TokenStream}

theorem steady_parseIn (contexts : List Context) (ts : List Token) :
    (parseIn none contexts ts).2.Steady := by
  induction ts generalizing contexts with
  | nil =>
    rw [parseIn]
    split <;> exact ⟨rfl, Nat.zero_le 1⟩
  | cons t rest ih =>
    cases hshift : shift contexts t with
    | none =>
      rw [parseIn_of_no_shift none hshift]
      exact ⟨rfl, Nat.le_refl 1⟩
    | some next =>
      rw [parseIn_of_shift none hshift]
      cases next with
      | inl form => exact ⟨rfl, Nat.zero_le 1⟩
      | inr next => exact ih next

theorem Steady.serve (h : s.Steady) (r : Request) : (r.serve s).2.Steady := by
  cases r with
  | peek =>
    rw [Request.serve, h.peek_eq]
    exact ⟨rfl, Option.length_toList_le⟩
  | advance =>
    rw [Request.serve, h.advance_eq]
    exact ⟨rfl, Nat.zero_le 1⟩
  | parse =>
    rw [Request.serve, parse, h.failure]
    exact steady_parseIn [] s.remaining

theorem Steady.after (h : s.Steady) (requests : List Request) : (s.after requests).Steady := by
  induction requests generalizing s with
  | nil => exact h
  | cons r later ih => exact ih (h.serve r)

theorem steady_ofTokens (ts : List Token) : (ofTokens ts).Steady :=
  ⟨rfl, Nat.zero_le 1⟩

theorem stream_after {tape : Tape} (h : tape.stream.Steady) (requests : List Request) :
    (tape.after requests).stream = tape.stream.after requests := by
  induction requests generalizing tape with
  | nil => rfl
  | cons r later ih =>
    have hnext : (ending (r.read tape)).stream = (r.serve tape.stream).2 := by
      rw [stream_ending, outcome_read r tape h.buffer]
    change (Tape.after (ending (r.read tape)) later).stream = (r.serve tape.stream).2.after later
    rw [ih (hnext ▸ h.serve r), hnext]

/-- Whether the next token is held back or still to come makes no difference to what follows. -/
theorem serve_congr (h : s.Steady) (h' : s'.Steady) (hremaining : s.remaining = s'.remaining)
    (r : Request) : r.serve s = r.serve s' := by
  cases r with
  | peek => rw [Request.serve, Request.serve, h.peek_eq, h'.peek_eq, hremaining]
  | advance => rw [Request.serve, Request.serve, h.advance_eq, h'.advance_eq, hremaining]
  | parse => rw [Request.serve, Request.serve, parse, parse, h.failure, h'.failure, hremaining]

theorem answers_congr (h : s.Steady) (h' : s'.Steady) (hremaining : s.remaining = s'.remaining)
    (requests : List Request) : answers s requests = answers s' requests := by
  cases requests with
  | nil => rfl
  | cons r later => rw [answers, answers, serve_congr h h' hremaining]

theorem answers_append (s : TokenStream) (requests later : List Request) :
    answers s (requests ++ later) = answers s requests ++ answers (s.after requests) later := by
  induction requests generalizing s with
  | nil => rfl
  | cons r requests ih =>
    rw [List.cons_append, answers, answers, ih]
    rfl

theorem length_answers (s : TokenStream) (requests : List Request) :
    (answers s requests).length = requests.length := by
  induction requests generalizing s with
  | nil => rfl
  | cons r later ih => rw [answers, List.length_cons, List.length_cons, ih]

theorem remaining_peek (h : s.Steady) : s.peek.2.remaining = s.remaining := by
  rw [h.peek_eq]
  cases s.remaining <;> rfl

theorem answers_without_peek (h : s.Steady) (requests later : List Request) :
    answers s (requests ++ later) =
      (answers s (requests ++ .peek :: later)).eraseIdx requests.length := by
  have hsteady := h.after requests
  have hlater : answers (s.after requests).peek.2 later = answers (s.after requests) later := by
    apply answers_congr (hsteady.serve .peek) hsteady
    exact remaining_peek hsteady
  have hlength := length_answers s requests
  rw [answers_append, answers_append, List.eraseIdx_append_of_length_le (Nat.le_of_eq hlength),
    hlength, Nat.sub_self]
  exact congrArg _ hlater.symm

end

/-- Whatever is asked of a stream of tokens, in any order and also after errors: the tokens that were
taken, the one that is held back, if any, and those to come are the tokens that there were. The next
token is the answer to a look at it and to taking it. A look that is left out changes no other
answer. -/
theorem tokens_conserved (ts : List Token) (requests : List Request) :
    let s := (ofTokens ts).after requests
    let tape := (Tape.mk [] (ofTokens ts)).after requests
    (tape.stream = s ∧ ∀ r : Request, outcome (r.read tape) = r.serve s) ∧
    tape.taken ++ s.buffer ++ s.pending = ts ∧
    s.buffer.length ≤ 1 ∧
    s.peek.1 = .ok s.remaining.head? ∧ s.advance.1 = .ok s.remaining.head? ∧
    ∀ later, answers (ofTokens ts) (requests ++ later) =
      (answers (ofTokens ts) (requests ++ .peek :: later)).eraseIdx requests.length := by
  intro s tape
  have hstart := steady_ofTokens ts
  have hsteady : s.Steady := hstart.after requests
  have hstream : tape.stream = s := stream_after hstart requests
  have hwhole : tape.whole = ts := whole_after _ requests
  refine ⟨⟨hstream, ?_⟩, ?_, hsteady.buffer, ?_, ?_, answers_without_peek hstart requests⟩
  · intro r
    rw [outcome_read r tape (hstream ▸ hsteady.buffer), hstream]
  · rw [List.append_assoc, ← hwhole, whole, hstream]
    rfl
  · rw [hsteady.peek_eq]
  · rw [hsteady.advance_eq]

end TreeLisp.TokenStream
