import Mathlib.Data.List.TakeWhile
import TreeLisp.Command
import TreeLisp.FileTree

/-!
# The root of the prelude

The search path for the prelude is split at its separators, and the first of its entries that is not
blank decides. Without such an entry the packaged directory would be the one to take, and it is
taken when the path is unset or empty. A path that is made of separators and blanks only has no entry
either, but is taken for a path that has one. The path that is found is looked at, whether it is an
entry or the packaged directory, and a system that refuses to tell what stands there ends the search.
-/
namespace TreeLisp

namespace Text

/-- The text is what is left of the piece without the blanks at its two ends. -/
def Trims (piece text : List Char) : Prop :=
  ∃ front back, piece = front ++ text ++ back ∧ (∀ c ∈ front ++ back, isBlank c = true) ∧
    (∀ c ∈ text.head?, isBlank c = false) ∧ ∀ c ∈ text.getLast?, isBlank c = false

theorem trims_nil_iff {piece : List Char} : Trims piece [] ↔ ∀ c ∈ piece, isBlank c = true := by
  constructor
  · rintro ⟨front, back, rfl, hblank, -⟩ c hc
    rw [List.append_nil] at hc
    exact hblank c hc
  · intro hblank
    refine ⟨piece, [], by simp, by simpa using hblank, ?_, ?_⟩
    · rintro c ⟨⟩
    · rintro c ⟨⟩

theorem head_dropWhile_isBlank {cs : List Char} {c : Char}
    (h : (cs.dropWhile isBlank).head? = some c) : isBlank c = false := by
  have hnot := List.head?_dropWhile_not isBlank cs
  rw [h] at hnot
  exact hnot

theorem dropWhile_isBlank_of_head {cs : List Char} (h : ∀ c ∈ cs.head?, isBlank c = false) :
    cs.dropWhile isBlank = cs := by
  cases cs with
  | nil => rfl
  | cons c rest => rw [List.dropWhile_cons, h c rfl]; rfl

theorem trims_trimmed (piece : List Char) :
    Trims piece (trimmed (String.ofList piece)).toList := by
  -- The blanks in front are dropped first, then those at the end of what is kept.
  have hfront := List.takeWhile_append_dropWhile (p := isBlank) (l := piece)
  have hkept := List.takeWhile_append_dropWhile (p := isBlank)
    (l := (piece.dropWhile isBlank).reverse)
  have hhead : ∀ c, (piece.dropWhile isBlank).head? = some c → isBlank c = false := fun _ =>
    head_dropWhile_isBlank
  rw [trimmed, String.toList_ofList, String.toList_ofList]
  generalize piece.dropWhile isBlank = kept at hfront hkept hhead ⊢
  have hsplit : (kept.reverse.dropWhile isBlank).reverse ++
      (kept.reverse.takeWhile isBlank).reverse = kept := by
    rw [← List.reverse_append, hkept, List.reverse_reverse]
  refine ⟨piece.takeWhile isBlank, (kept.reverse.takeWhile isBlank).reverse, ?_, ?_, ?_, ?_⟩
  · rw [List.append_assoc, hsplit, hfront]
  · intro c hc
    rcases List.mem_append.mp hc with hc | hc
    · exact List.mem_takeWhile_imp hc
    · exact List.mem_takeWhile_imp (List.mem_reverse.mp hc)
  · intro c hc
    apply hhead
    rw [← hsplit, List.head?_append, Option.mem_def.mp hc]
    rfl
  · intro c hc
    rw [List.getLast?_reverse] at hc
    exact head_dropWhile_isBlank hc

theorem Trims.trimmed_eq {piece text : List Char} (h : Trims piece text) :
    trimmed (String.ofList piece) = String.ofList text := by
  obtain ⟨front, back, rfl, hblank, hhead, hlast⟩ := h
  have hfront : ∀ c ∈ front, isBlank c = true := fun c hc => hblank c (List.mem_append_left _ hc)
  have hback : ∀ c ∈ back, isBlank c = true := fun c hc => hblank c (List.mem_append_right _ hc)
  rw [trimmed, String.toList_ofList, List.append_assoc, List.dropWhile_append_of_pos hfront]
  cases text with
  | nil => rw [List.nil_append, List.dropWhile_eq_nil_iff.mpr hback]; rfl
  | cons c rest =>
    have hstart : (c :: rest ++ back).dropWhile isBlank = c :: rest ++ back :=
      dropWhile_isBlank_of_head hhead
    have hend : (c :: rest).reverse.dropWhile isBlank = (c :: rest).reverse := by
      apply dropWhile_isBlank_of_head
      rwa [List.head?_reverse]
    have hback' : ∀ c ∈ back.reverse, isBlank c = true := fun c hc =>
      hback c (List.mem_reverse.mp hc)
    rw [hstart, List.reverse_append, List.dropWhile_append_of_pos hback', hend,
      List.reverse_reverse]

theorem trimmed_eq_iff {piece : List Char} {text : String} :
    trimmed (String.ofList piece) = text ↔ Trims piece text.toList := by
  constructor
  · rintro rfl
    exact trims_trimmed piece
  · intro h
    rw [h.trimmed_eq, String.ofList_toList]

end Text

theorem Path.pieces_eq_splitOn (separator : Char) (cs : List Char) :
    pieces separator cs = cs.splitOn separator := by
  induction cs with
  | nil => rfl
  | cons c rest ih =>
    rw [List.splitOn_cons_eq_if_modifyHead, pieces, ih]
    by_cases hc : c = separator
    · rw [if_pos hc, if_pos (beq_iff_eq.mpr hc)]
    · rw [if_neg hc, if_neg (mt beq_iff_eq.mp hc)]
      cases hpieces : rest.splitOn separator with
      | nil => exact absurd hpieces (List.splitOn_ne_nil _ _)
      | cons piece later => rfl

theorem FileSystem.isDir_of_directory {files : FileSystem} {p : Path}
    (h : files.look p = .ok .directory) : files.isDir p = .ok true := by
  rw [isDir, stands, h]
  rfl

theorem FileSystem.isDir_of_refused {files : FileSystem} {p : Path} {e : FileError}
    (h : files.look p = .error e) (hkept : e.meansAbsent = false) : files.isDir p = .error e := by
  rw [isDir, stands, h]
  simp [hkept]

theorem FileSystem.isDir_of_ne {files : FileSystem} {p : Path} (h : files.look p ≠ .ok .directory)
    (habsent : ∀ e, files.look p = .error e → e.meansAbsent = true) : files.isDir p = .ok false := by
  rw [isDir, stands]
  cases hlook : files.look p with
  | error e => simp [habsent e hlook]
  | ok node =>
    cases node with
    | directory => exact absurd hlook h
    | file content => rfl

namespace Settings

/-- The entry is the first one between the separators of the value that is not empty when
trimmed. -/
def FirstEntry (system value entry : String) : Prop :=
  ∃ blank piece later, value.toList.splitOn (separator system) = blank ++ piece :: later ∧
    (∀ b ∈ blank, Text.Trims b []) ∧ Text.Trims piece entry.toList ∧ entry ≠ ""

def entries (system value : String) : List String :=
  ((value.toList.splitOn (separator system)).map fun piece =>
    Text.trimmed (String.ofList piece)).filter fun entry => entry ≠ ""

variable {system value entry : String}

theorem searchPath_eq (system value : String) :
    searchPath system value = (entries system value).map Path.ofText := by
  rw [searchPath, Path.pieces_eq_splitOn]
  rfl

theorem head_entries_iff :
    (entries system value).head? = some entry ↔ FirstEntry system value entry := by
  rw [entries, List.head?_filter, List.find?_eq_some_iff_append]
  constructor
  · rintro ⟨hentry, before, after, hmap, hbefore⟩
    obtain ⟨blank, tail, hsplit, rfl, htail⟩ := List.map_eq_append_iff.mp hmap
    obtain ⟨piece, later, rfl, hpiece, -⟩ := List.map_eq_cons_iff.mp htail
    refine ⟨blank, piece, later, hsplit, ?_, Text.trimmed_eq_iff.mp hpiece, of_decide_eq_true hentry⟩
    intro b hb
    have hempty : Text.trimmed (String.ofList b) = "" := by
      simpa using hbefore _ (List.mem_map_of_mem hb)
    exact Text.trimmed_eq_iff.mp hempty
  · rintro ⟨blank, piece, later, hsplit, hblank, hpiece, hentry⟩
    refine ⟨decide_eq_true hentry, blank.map fun piece => Text.trimmed (String.ofList piece),
      later.map fun piece => Text.trimmed (String.ofList piece), ?_, ?_⟩
    · rw [hsplit, List.map_append, List.map_cons, Text.trimmed_eq_iff.mpr hpiece]
    · intro a ha
      obtain ⟨b, hb, rfl⟩ := List.mem_map.mp ha
      rw [(hblank b hb).trimmed_eq]
      rfl

theorem FirstEntry.unique {other : String} (h : FirstEntry system value entry)
    (h' : FirstEntry system value other) : entry = other :=
  Option.some.inj ((head_entries_iff.mpr h).symm.trans (head_entries_iff.mpr h'))

/-- The value has no entry: it is made of separators and blanks. -/
def NoEntry (system value : String) : Prop :=
  ∀ c ∈ value.toList, c = separator system ∨ Text.isBlank c = true

instance (system value : String) : Decidable (NoEntry system value) :=
  decidable_of_iff (value.toList.all fun c => c == separator system || Text.isBlank c)
    (by simp [NoEntry])

theorem blank_pieces_iff (mark : Char) (cs : List Char) :
    (∀ piece ∈ cs.splitOn mark, ∀ c ∈ piece, Text.isBlank c = true) ↔
      ∀ c ∈ cs, c = mark ∨ Text.isBlank c = true := by
  induction cs with
  | nil => simp
  | cons c rest ih =>
    rw [List.splitOn_cons_eq_if_modifyHead, List.forall_mem_cons, ← ih]
    by_cases hc : c = mark
    · simp [hc]
    · rw [if_neg (mt beq_iff_eq.mp hc)]
      cases hpieces : rest.splitOn mark with
      | nil => exact absurd hpieces (List.splitOn_ne_nil _ _)
      | cons piece later => simp [hc, and_assoc]

theorem entries_eq_nil_iff : entries system value = [] ↔ NoEntry system value := by
  rw [entries, List.filter_eq_nil_iff, NoEntry, ← blank_pieces_iff]
  simp only [List.forall_mem_map, decide_eq_true_eq, not_not, Text.trimmed_eq_iff]
  exact forall₂_congr fun _ _ => Text.trims_nil_iff

theorem noEntry_iff : NoEntry system value ↔ ∀ entry, ¬ FirstEntry system value entry := by
  rw [← entries_eq_nil_iff, ← List.head?_eq_none_iff, Option.eq_none_iff_forall_ne_some]
  exact forall_congr' fun _ => not_congr head_entries_iff

theorem exists_firstEntry (h : ¬ NoEntry system value) : ∃ entry, FirstEntry system value entry :=
  not_forall_not.mp (mt noEntry_iff.mpr h)

theorem noEntry_empty (system : String) : NoEntry system "" := by
  intro c hc
  exact absurd hc List.not_mem_nil

theorem FirstEntry.ne_empty (h : FirstEntry system value entry) : value ≠ "" := by
  rintro rfl
  exact noEntry_iff.mp (noEntry_empty system) entry h

theorem searchPath_of_noEntry (h : NoEntry system value) : searchPath system value = [] := by
  rw [searchPath_eq, entries_eq_nil_iff.mpr h, List.map_nil]

theorem searchPath_of_firstEntry (h : FirstEntry system value entry) :
    ∃ later, searchPath system value = Path.ofText entry :: later := by
  obtain ⟨later, hentries⟩ := List.head?_eq_some_iff.mp (head_entries_iff.mpr h)
  exact ⟨later.map Path.ofText, by rw [searchPath_eq, hentries, List.map_cons]⟩

/-- The root that the search path asks for: its first entry, or the parent of that when it is not a
directory, and the packaged directory when there is no entry. -/
inductive Chosen (host : Host) : Path → Prop where
  | directory {value entry : String}
      (hvalue : host.environment.lookup "KELP_PRELUDE_PATH" = some value)
      (hentry : FirstEntry host.system value entry)
      (hdir : host.files.look (.ofText entry) = .ok .directory) : Chosen host (.ofText entry)
  | parent {value entry : String}
      (hvalue : host.environment.lookup "KELP_PRELUDE_PATH" = some value)
      (hentry : FirstEntry host.system value entry)
      (hdir : host.files.look (.ofText entry) ≠ .ok .directory) :
      Chosen host (Path.ofText entry).parent
  | packaged (hnone : ∀ value entry, host.environment.lookup "KELP_PRELUDE_PATH" = some value →
      ¬ FirstEntry host.system value entry) : Chosen host host.packaged

/-- The path that is looked at: the first entry, or the packaged directory when the search path is
unset or empty. -/
inductive Tested (host : Host) : Path → Prop where
  | entry {value entry : String}
      (hvalue : host.environment.lookup "KELP_PRELUDE_PATH" = some value)
      (hentry : FirstEntry host.system value entry) : Tested host (.ofText entry)
  | packaged (hunset : host.environment.lookup "KELP_PRELUDE_PATH" = none ∨
      host.environment.lookup "KELP_PRELUDE_PATH" = some "") : Tested host host.packaged

/-- What comes of a search that does not end with the root that is asked for: the search path has no
entry and is not empty, the system refuses to tell what stands at the path that is looked at, or the
packaged directory is not there. -/
inductive Deviates (host : Host) : Except SettingError Path → Prop where
  | noEntry {value : String}
      (hvalue : host.environment.lookup "KELP_PRELUDE_PATH" = some value) (hne : value ≠ "")
      (hnone : NoEntry host.system value) : Deviates host (.error .noPreludePath)
  | refused {p : Path} {e : FileError} (hp : Tested host p) (he : host.files.look p = .error e)
      (hkept : e.meansAbsent = false) : Deviates host (.error (.file e))
  | unpackaged (hunset : host.environment.lookup "KELP_PRELUDE_PATH" = none ∨
      host.environment.lookup "KELP_PRELUDE_PATH" = some "")
      (hdir : host.files.look host.packaged ≠ .ok .directory)
      (habsent : ∀ e, host.files.look host.packaged = .error e → e.meansAbsent = true) :
      Deviates host (.ok host.packaged.parent)

section

variable {host : Host}

theorem entry_unique {value' other : String}
    (hvalue : host.environment.lookup "KELP_PRELUDE_PATH" = some value)
    (hentry : FirstEntry host.system value entry)
    (hvalue' : host.environment.lookup "KELP_PRELUDE_PATH" = some value')
    (hother : FirstEntry host.system value' other) : entry = other := by
  obtain rfl := Option.some.inj (hvalue.symm.trans hvalue')
  exact hentry.unique hother

theorem Chosen.unique {root other : Path} (h : Chosen host root) (h' : Chosen host other) :
    root = other := by
  -- Two entries are the same one, which is a directory for both or for none.
  cases h with
  | directory hvalue hentry hdir =>
    cases h' with
    | directory hvalue' hentry' => rw [entry_unique hvalue hentry hvalue' hentry']
    | parent hvalue' hentry' hdir' =>
      rw [entry_unique hvalue hentry hvalue' hentry'] at hdir
      exact absurd hdir hdir'
    | packaged hnone => exact absurd hentry (hnone _ _ hvalue)
  | parent hvalue hentry hdir =>
    cases h' with
    | directory hvalue' hentry' hdir' =>
      rw [entry_unique hvalue hentry hvalue' hentry'] at hdir
      exact absurd hdir' hdir
    | parent hvalue' hentry' => rw [entry_unique hvalue hentry hvalue' hentry']
    | packaged hnone => exact absurd hentry (hnone _ _ hvalue)
  | packaged hnone =>
    cases h' with
    | directory hvalue hentry => exact absurd hentry (hnone _ _ hvalue)
    | parent hvalue hentry => exact absurd hentry (hnone _ _ hvalue)
    | packaged => rfl

theorem chosen_of_noEntry (hvalue : host.environment.lookup "KELP_PRELUDE_PATH" = some value)
    (h : NoEntry host.system value) : Chosen host host.packaged := by
  apply Chosen.packaged
  intro other entry hother
  obtain rfl := Option.some.inj (hvalue.symm.trans hother)
  exact noEntry_iff.mp h entry

theorem chosen_of_unset (hunset : host.environment.lookup "KELP_PRELUDE_PATH" = none ∨
    host.environment.lookup "KELP_PRELUDE_PATH" = some "") : Chosen host host.packaged := by
  rcases hunset with hnone | hempty
  · apply Chosen.packaged
    intro value entry hvalue
    cases hnone.symm.trans hvalue
  · exact chosen_of_noEntry hempty (noEntry_empty host.system)

theorem tested_or_noEntry (host : Host) :
    (∃ p, Tested host p) ∨ ∃ value,
      host.environment.lookup "KELP_PRELUDE_PATH" = some value ∧ value ≠ "" ∧
        NoEntry host.system value := by
  cases hvalue : host.environment.lookup "KELP_PRELUDE_PATH" with
  | none => exact .inl ⟨_, .packaged (.inl hvalue)⟩
  | some value =>
    by_cases hnone : NoEntry host.system value
    · by_cases hne : value = ""
      · exact .inl ⟨_, .packaged (.inr (hne ▸ hvalue))⟩
      · exact .inr ⟨value, rfl, hne, hnone⟩
    · obtain ⟨entry, hentry⟩ := exists_firstEntry hnone
      exact .inl ⟨_, .entry hvalue hentry⟩

theorem exists_chosen (host : Host) : ∃ root, Chosen host root := by
  rcases tested_or_noEntry host with ⟨p, hp⟩ | ⟨value, hvalue, -, hnone⟩
  · cases hp with
    | @entry value entry hvalue hentry =>
      by_cases hdir : host.files.look (.ofText entry) = .ok .directory
      · exact ⟨_, .directory hvalue hentry hdir⟩
      · exact ⟨_, .parent hvalue hentry hdir⟩
    | packaged hunset => exact ⟨_, chosen_of_unset hunset⟩
  · exact ⟨_, chosen_of_noEntry hvalue hnone⟩

theorem paths_of_tested {p : Path} (h : Tested host p) : ∃ later,
    paths host.system host.environment "KELP_PRELUDE_PATH" [host.packaged] = p :: later := by
  cases h with
  | entry hvalue hentry =>
    obtain ⟨later, hpath⟩ := searchPath_of_firstEntry hentry
    exact ⟨later, by simp only [paths, hvalue, if_neg hentry.ne_empty, hpath]⟩
  | packaged hunset =>
    rcases hunset with hnone | hempty
    · exact ⟨[], by simp only [paths, hnone]⟩
    · exact ⟨[], by simp only [paths, hempty, if_true]⟩

theorem preludeRoot_of_isDir {p : Path} (h : Tested host p) {isDir : Bool}
    (hdir : host.files.isDir p = .ok isDir) :
    preludeRoot host = .ok (if isDir then p else p.parent) := by
  obtain ⟨later, hpaths⟩ := paths_of_tested h
  simp only [preludeRoot, hpaths, hdir]

theorem preludeRoot_of_refused {p : Path} (h : Tested host p) {e : FileError}
    (hdir : host.files.isDir p = .error e) : preludeRoot host = .error (.file e) := by
  obtain ⟨later, hpaths⟩ := paths_of_tested h
  simp only [preludeRoot, hpaths, hdir]

theorem preludeRoot_of_noEntry (hvalue : host.environment.lookup "KELP_PRELUDE_PATH" = some value)
    (hne : value ≠ "") (hnone : NoEntry host.system value) :
    preludeRoot host = .error .noPreludePath := by
  simp only [preludeRoot, paths, hvalue, if_neg hne, searchPath_of_noEntry hnone]

theorem Deviates.preludeRoot_eq {outcome : Except SettingError Path} (h : Deviates host outcome) :
    preludeRoot host = outcome := by
  cases h with
  | noEntry hvalue hne hnone => exact preludeRoot_of_noEntry hvalue hne hnone
  | refused hp he hkept => exact preludeRoot_of_refused hp (FileSystem.isDir_of_refused he hkept)
  | unpackaged hunset hdir habsent =>
    exact preludeRoot_of_isDir (.packaged hunset) (FileSystem.isDir_of_ne hdir habsent)

/-- The path that is looked at leads to the root, unless the system refuses or the packaged directory
is not there. -/
theorem Tested.chosen_or_deviates {p : Path} (h : Tested host p) :
    (∃ root, Chosen host root ∧ preludeRoot host = .ok root) ∨
      ∃ outcome, Deviates host outcome := by
  by_cases habsent : ∀ e, host.files.look p = .error e → e.meansAbsent = true
  · by_cases hdir : host.files.look p = .ok .directory
    · have hroot := preludeRoot_of_isDir h (FileSystem.isDir_of_directory hdir)
      refine .inl ⟨p, ?_, hroot⟩
      cases h with
      | entry hvalue hentry => exact .directory hvalue hentry hdir
      | packaged hunset => exact chosen_of_unset hunset
    · have hroot := preludeRoot_of_isDir h (FileSystem.isDir_of_ne hdir habsent)
      cases h with
      | entry hvalue hentry => exact .inl ⟨_, .parent hvalue hentry hdir, hroot⟩
      | packaged hunset => exact .inr ⟨_, .unpackaged hunset hdir habsent⟩
  · simp only [not_forall] at habsent
    obtain ⟨e, he, hkept⟩ := habsent
    exact .inr ⟨_, .refused h he (Bool.eq_false_iff.mpr hkept)⟩

end

end Settings

end TreeLisp
