import Coppermind.Reconciler.PassSpec
import Coppermind.Reconciler.Tree
import Coppermind.Lib.Run

/-!
# Absence

A pass makes a note missing or deleted when no file of the walk speaks for it.  A file that names
a note speaks for it unless a cheap pass takes the file at its stat: as the file of the note whose
row records that path and stat, or as one that named no known note when an earlier pass read it.
What a stat vouches for is then what the file said to an earlier mirror, and the note it names is
called absent when no other file keeps it in view.

`InView` lists the files that do, by the memory, the rows and what the walk found of the file.
`passes_keep_named_notes` says that a run of passes in which every note so taken is in view
elsewhere meets every named note with its row kept.
-/

namespace Coppermind.Reconciler

open Coppermind.Lib Coppermind.Lib.Text Coppermind.Frontmatter Coppermind.Schema Coppermind.Notes

section Speaks

variable (lib : Libraries) (schema : FrontmatterSchema) (settings : Settings)

/-- A readable Markdown file outside the ignored directories whose frontmatter carries `id`. -/
structure Names (sighting : Sighting) (id : NoteId) : Prop where
  markdown : isMarkdown sighting.path = true
  visible : isIgnored sighting.path = false
  carries : ∃ size mtime data frontmatter body,
    sighting.located = .found .regular size mtime (.bytes data) ∧
    parseBytes lib.yaml data = .ok (some (frontmatter, body)) ∧
    carriedIdentity lib schema frontmatter = id

/-- A cheap pass takes the file at its stat: the row at its path matches it or, where no row claims
the path, an earlier pass remembered it. -/
def atItsStat (known : Known) (sighting : Sighting) : Bool :=
  match sighting.located with
  | .found _ size mtime _ =>
    !known.full &&
      match known.index.byPath sighting.path with
      | some entry => unchanged entry size mtime
      | none =>
        (pathExclusion settings sighting.path).isNone &&
          getStat known.memory sighting.path == some (size, mtime)
  | _ => false

/-- A cheap pass takes the file at its stat, and not for `id`. -/
def takenAtStat (known : Known) (id : NoteId) (sighting : Sighting) : Bool :=
  atItsStat settings known sighting &&
    (known.index.byPath sighting.path).all (·.noteId != id)

/-- A file the walk does not pass over by its path alone. -/
structure IsWalked (known : Known) (sighting : Sighting) : Prop where
  visible : isIgnored sighting.path = false
  listed : isMarkdown sighting.path = true ∨
    PyStr.suffix (PyStr.name sighting.path) = PyStr.lit ".canvas" ∨
    (pathExclusion settings sighting.path).isSome = true ∨
    (known.index.byPath sighting.path).isSome = true

/-- The identity a file's bytes name: the one their frontmatter carries or, where they do not
parse, the one a line of their broken frontmatter shows. -/
def namedBy (data : FileBytes) : Option (Entries × Text) → Option NoteId
  | some (frontmatter, _) => some (carriedIdentity lib schema frontmatter)
  | none => brokenIdentity schema data

/-- Bytes that name no note the mirror knows but `id`. -/
def NamesNoOther (known : Known) (id : NoteId) (read : ReadResult) : Prop :=
  ∀ data parsed other, read = .bytes data → parseBytes lib.yaml data = .ok parsed →
    namedBy lib schema data parsed = some other → known.index.knows other = true → other = id

/-- A file that keeps the note in view, whatever a stat vouches for elsewhere. -/
inductive InView (known : Known) (id : NoteId) (sighting : Sighting) : Prop
  /-- Its bytes name the note, and it is not taken at its stat. -/
  | named {size mtime data parsed}
      (located : sighting.located = .found .regular size mtime (.bytes data))
      (parses : parseBytes lib.yaml data = .ok parsed)
      (names : namedBy lib schema data parsed = some id)
      (untaken : takenAtStat settings known id sighting = false)
  /-- It lies at the path of the note's own row, and its bytes name no other known note. -/
  | ownPath {entry} (row : known.index.byPath sighting.path = some entry)
      (own : entry.noteId = id)
      (noOther : ∀ kind size mtime read, sighting.located = .found kind size mtime read →
        NamesNoOther lib schema known id read)
  /-- It is gone before its stat is taken. -/
  | gone (located : sighting.located = .vanished)
  /-- It is gone before its bytes are read. -/
  | goneSince {size mtime} (located : sighting.located = .found .regular size mtime .vanished)
      (untaken : atItsStat settings known sighting = false)
  /-- No row claims its path, and its stat is refused. -/
  | refused (unclaimed : known.index.byPath sighting.path = none)
      (located : sighting.located = .refused)
  /-- No row claims its path, and there is nothing of it to read. -/
  | shut {kind size mtime read} (unclaimed : known.index.byPath sighting.path = none)
      (located : sighting.located = .found kind size mtime read)
      (closed : kind = .other ∨ kind = .directory ∧ isMarkdown sighting.path = true ∨
        kind = .regular ∧ read = .refused)
      (untaken : atItsStat settings known sighting = false)
  /-- A device may still be writing it, and no row vouches for it. -/
  | settling {size mtime read} (located : sighting.located = .found .regular size mtime read)
      (quiet : known.quiet.any (·.holds mtime sighting.clock) = true)
      (claimed : ∀ entry, known.index.byPath sighting.path = some entry →
        atItsStat settings known sighting = false)
      (unclaimed : known.index.byPath sighting.path = none →
        (isMarkdown sighting.path = true ∨ (pathExclusion settings sighting.path).isSome = true) ∧
          ∀ data parsed other, read = .bytes data → parseBytes lib.yaml data = .ok parsed →
            namedBy lib schema data parsed = some other → known.index.knows other = false)

/-- What a file adds to a scan keeps a note from being called absent. -/
def Finding.speaksFor (finding : Finding) (id : NoteId) : Bool :=
  finding.trusted == some id || finding.observation.any (·.noteId == id) || finding.deferred

/-- A file that names a known note keeps it in view, unless it is taken at its stat. -/
theorem Names.inView {known : Known} {sighting : Sighting} {id : NoteId}
    (h : Names lib schema sighting id) (htaken : takenAtStat settings known id sighting = false) :
    InView lib schema settings known id sighting := by
  obtain ⟨-, -, size, mtime, data, frontmatter, body, hlocated, hparse, rfl⟩ := h
  exact .named hlocated hparse rfl htaken

theorem Names.isWalked {sighting : Sighting} {id : NoteId} (h : Names lib schema sighting id)
    (known : Known) : IsWalked settings known sighting :=
  ⟨h.visible, Or.inl h.markdown⟩

/-- Bytes that name a known note are an observation of it. -/
theorem findingOf_named {known : Known} {sighting : Sighting} {size : Nat} {mtime : Instant}
    {data : FileBytes} {parsed : Option (Entries × Text)} {id : NoteId}
    (hnames : namedBy lib schema data parsed = some id) (hknown : known.index.knows id = true) :
    (findingOf lib schema settings known sighting size mtime data parsed).speaksFor id = true := by
  cases parsed with
  | none =>
    have hbroken : brokenIdentity schema data = some id := hnames
    simp [findingOf, observe, hbroken, hknown, unparsedObservation, Finding.speaksFor]
  | some read =>
    obtain ⟨frontmatter, body⟩ := read
    obtain rfl : carriedIdentity lib schema frontmatter = id := Option.some.inj hnames
    simp [findingOf, observe, hknown, Finding.speaksFor]

/-- Bytes at the path of a row that name no other known note are an observation of the row's. -/
theorem findingOf_ownPath {known : Known} {sighting : Sighting} {size : Nat} {mtime : Instant}
    {data : FileBytes} {parsed : Option (Entries × Text)} {entry : MirrorEntry}
    (hrow : known.index.byPath sighting.path = some entry)
    (hother : ∀ other, namedBy lib schema data parsed = some other →
      known.index.knows other = true → other = entry.noteId) :
    (findingOf lib schema settings known sighting size mtime data parsed).speaksFor
      entry.noteId = true := by
  by_cases hknown : ∃ other, namedBy lib schema data parsed = some other ∧
      known.index.knows other = true
  · obtain ⟨other, hnames, hknown⟩ := hknown
    obtain rfl := hother other hnames hknown
    exact findingOf_named lib schema settings hnames hknown
  have hunknown : ∀ other, namedBy lib schema data parsed = some other →
      known.index.knows other = false := by
    intro other hnames
    by_contra h
    exact hknown ⟨other, hnames, by simpa using h⟩
  cases parsed with
  | none =>
    cases hbroken : brokenIdentity schema data with
    | none => simp [findingOf, observe, hbroken, hrow, unparsedObservation, Finding.speaksFor]
    | some other =>
      have hno := hunknown other hbroken
      simp [findingOf, observe, hbroken, hno, hrow, unparsedObservation, Finding.speaksFor]
  | some read =>
    obtain ⟨frontmatter, body⟩ := read
    have hno := hunknown _ rfl
    simp [findingOf, observe, hno, hrow, unparsedObservation, Finding.speaksFor]

/-- Bytes at an unclaimed path that name no known note wait while the file settles. -/
theorem findingOf_settling {known : Known} {sighting : Sighting} {size : Nat} {mtime : Instant}
    {data : FileBytes} {parsed : Option (Entries × Text)} (id : NoteId)
    (hrow : known.index.byPath sighting.path = none)
    (hquiet : known.quiet.any (·.holds mtime sighting.clock) = true)
    (hlisted : isMarkdown sighting.path = true ∨
      (pathExclusion settings sighting.path).isSome = true)
    (hunknown : ∀ other, namedBy lib schema data parsed = some other →
      known.index.knows other = false) :
    (findingOf lib schema settings known sighting size mtime data parsed).speaksFor id = true := by
  have hmarkdown (hrule : pathExclusion settings sighting.path = none) :
      isMarkdown sighting.path = true :=
    hlisted.resolve_right (by simp [hrule])
  have hobserve : ∀ o, observe lib schema known.index sighting.path sighting.fileName data parsed
      mtime none ≠ .observation o := by
    intro o ho
    cases parsed with
    | none =>
      cases hbroken : brokenIdentity schema data with
      | none => simp [observe, hbroken] at ho
      | some other => simp [observe, hbroken, hunknown other hbroken] at ho
    | some read =>
      obtain ⟨frontmatter, body⟩ := read
      simp [observe, hunknown _ rfl] at ho
  simp only [findingOf, hrow, hquiet]
  cases ho : observe lib schema known.index sighting.path sighting.fileName data parsed mtime none with
  | observation o => exact absurd ho (hobserve o)
  | candidate c =>
    cases hrule : pathExclusion settings sighting.path with
    | some rule => simp [Finding.speaksFor]
    | none => cases frontmatterExclusion parsed <;> simp [hmarkdown hrule, Finding.speaksFor]
  | unknown =>
    cases hrule : pathExclusion settings sighting.path with
    | some rule => simp [Finding.speaksFor]
    | none => cases frontmatterExclusion parsed <;> simp [hmarkdown hrule, Finding.speaksFor]

/-- The loop's tests on the path alone let a walked file pass. -/
theorem IsWalked.notSkipped {known : Known} {sighting : Sighting}
    (h : IsWalked settings known sighting) :
    (!isMarkdown sighting.path &&
      PyStr.suffix (PyStr.name sighting.path) != PyStr.lit ".canvas" &&
      (pathExclusion settings sighting.path).isNone &&
      (known.index.byPath sighting.path).isNone) = false := by
  rcases h.listed with h | h | h | h
  · simp [h]
  · simp [h]
  · simp [Option.isNone_eq_false_iff.2 h]
  · simp [Option.isNone_eq_false_iff.2 h]

/-- What the loop does with a file it could stat, at a path a row claims. -/
theorem openFile_claimed {known : Known} {sighting : Sighting} {entry : MirrorEntry}
    {kind : FileKind} {size : Nat} {mtime : Instant} {read : ReadResult}
    (hwalked : IsWalked settings known sighting)
    (hrow : known.index.byPath sighting.path = some entry)
    (hlocated : sighting.located = .found kind size mtime read) :
    openFile settings known sighting =
      if atItsStat settings known sighting then
        .decided { trusted := some entry.noteId, held := some entry.noteId }
      else if kind ≠ .regular then .decided (unopened (some entry) sighting.path true)
      else if known.quiet.any (·.holds mtime sighting.clock) then
        .decided { held := some entry.noteId, deferred := true }
      else
        match read with
        | .vanished => .decided { deferred := true, held := some entry.noteId }
        | .refused => .decided (unopened (some entry) sighting.path
            !known.quiet.any (·.holds mtime sighting.clock))
        | .bytes data => .read size mtime data := by
  simp only [openFile, atItsStat, hwalked.visible, hlocated, hrow, Option.any_some,
    Option.map_some, Option.isNone_some, Option.isSome_some, Bool.and_false, Bool.false_and,
    Bool.true_and, Bool.false_eq_true, and_false, if_false]
  cases read <;> rfl

/-- What the loop does with a file it could stat, at a path no row claims. -/
theorem openFile_unclaimed {known : Known} {sighting : Sighting} {kind : FileKind} {size : Nat}
    {mtime : Instant} {read : ReadResult} (hwalked : IsWalked settings known sighting)
    (hrow : known.index.byPath sighting.path = none)
    (hlocated : sighting.located = .found kind size mtime read)
    (hkind : kind = .directory → isMarkdown sighting.path = true) :
    openFile settings known sighting =
      if atItsStat settings known sighting then
        .decided
          { remembered := some (size, mtime)
            deferred := known.quiet.any (·.holds mtime sighting.clock) }
      else if kind ≠ .regular then .decided (unopened none sighting.path true)
      else
        match read with
        | .vanished => .decided { deferred := true }
        | .refused => .decided (unopened none sighting.path
            !known.quiet.any (·.holds mtime sighting.clock))
        | .bytes data => .read size mtime data := by
  have hdirectory : ¬(kind = .directory ∧ (!isMarkdown sighting.path) = true ∧
      (known.index.byPath sighting.path).isNone = true) := by
    rintro ⟨hdir, hno, -⟩
    rw [hkind hdir] at hno
    cases hno
  simp only [openFile, hwalked.visible, hwalked.notSkipped, hlocated, hdirectory,
    Bool.false_eq_true, if_false]
  simp only [atItsStat, hlocated, hrow, Option.any_none, Option.map_none, Option.isNone_none,
    Option.isSome_none, Bool.and_false, Bool.and_true, Bool.false_and, Bool.false_eq_true,
    if_false, Bool.and_assoc]
  cases read <;> rfl

/-- What the loop makes of a file whose bytes it reads. -/
theorem scanFile_read {known : Known} {sighting : Sighting} {size : Nat} {mtime : Instant}
    {data : FileBytes} {finding : Finding}
    (hopen : openFile settings known sighting = .read size mtime data)
    (h : scanFile lib schema settings known sighting = .ok finding) :
    ∃ parsed, parseBytes lib.yaml data = .ok parsed ∧
      finding = findingOf lib schema settings known sighting size mtime data parsed := by
  simp only [scanFile, hopen] at h
  cases hparse : parseBytes lib.yaml data with
  | error raised =>
    rw [hparse] at h
    cases h
  | ok parsed =>
    rw [hparse] at h
    cases h
    exact ⟨parsed, rfl, rfl⟩

theorem scanFile_decided {known : Known} {sighting : Sighting} {decided finding : Finding}
    (hopen : openFile settings known sighting = .decided decided)
    (h : scanFile lib schema settings known sighting = .ok finding) : finding = decided := by
  simp only [scanFile, hopen] at h
  cases h
  rfl

/-- Nothing but a row's own note is held by a file that cannot be opened. -/
theorem unopened_speaksFor (entry : MirrorEntry) (path : RelPath) (unparsed : Bool) :
    (unopened (some entry) path unparsed).speaksFor entry.noteId = true := by
  simp [unopened, unreadable, Finding.speaksFor]

/-- What is at the path of a note's own row speaks for it, unless it is read and names another. -/
theorem scanFile_ownPath {known : Known} {sighting : Sighting} {entry : MirrorEntry}
    {finding : Finding} (hwalked : IsWalked settings known sighting)
    (hrow : known.index.byPath sighting.path = some entry)
    (hother : ∀ kind size mtime read, sighting.located = .found kind size mtime read →
      NamesNoOther lib schema known entry.noteId read)
    (h : scanFile lib schema settings known sighting = .ok finding) :
    finding.speaksFor entry.noteId = true := by
  cases hlocated : sighting.located with
  | vanished =>
    have hopen : openFile settings known sighting =
        .decided { deferred := true, held := some entry.noteId } := by
      simp [openFile, hwalked.visible, hrow, hlocated]
    simp [scanFile_decided lib schema settings hopen h, Finding.speaksFor]
  | refused =>
    have hopen : openFile settings known sighting =
        .decided (unopened (some entry) sighting.path false) := by
      simp [openFile, hwalked.visible, hrow, hlocated]
    simp [scanFile_decided lib schema settings hopen h, unopened_speaksFor]
  | found kind size mtime read =>
    have hopen := openFile_claimed settings hwalked hrow hlocated
    by_cases hstat : atItsStat settings known sighting = true
    · rw [if_pos hstat] at hopen
      simp [scanFile_decided lib schema settings hopen h, Finding.speaksFor]
    rw [if_neg hstat] at hopen
    by_cases hkind : kind ≠ .regular
    · rw [if_pos hkind] at hopen
      simp [scanFile_decided lib schema settings hopen h, unopened_speaksFor]
    rw [if_neg hkind] at hopen
    by_cases hquiet : known.quiet.any (·.holds mtime sighting.clock) = true
    · rw [if_pos hquiet] at hopen
      simp [scanFile_decided lib schema settings hopen h, Finding.speaksFor]
    rw [if_neg hquiet] at hopen
    cases read with
    | vanished => simp [scanFile_decided lib schema settings hopen h, Finding.speaksFor]
    | refused => simp [scanFile_decided lib schema settings hopen h, unopened_speaksFor]
    | bytes data =>
      obtain ⟨parsed, hparse, rfl⟩ := scanFile_read lib schema settings hopen h
      exact findingOf_ownPath lib schema settings hrow fun other =>
        hother _ _ _ _ hlocated data parsed other rfl hparse

/-- A file that keeps a known note in view speaks for it. -/
theorem scanFile_speaksFor {known : Known} {sighting : Sighting} {id : NoteId} {finding : Finding}
    (hwalked : IsWalked settings known sighting)
    (hview : InView lib schema settings known id sighting) (hknown : known.index.knows id = true)
    (h : scanFile lib schema settings known sighting = .ok finding) :
    finding.speaksFor id = true := by
  cases hview with
  | @named size mtime data parsed hlocated hparse hnames huntaken =>
    cases hrow : known.index.byPath sighting.path with
    | some entry =>
      have hopen := openFile_claimed settings hwalked hrow hlocated
      by_cases hstat : atItsStat settings known sighting = true
      · -- The row the stat vouches for is the note's own.
        obtain rfl : entry.noteId = id := by simpa [takenAtStat, hstat, hrow] using huntaken
        rw [if_pos hstat] at hopen
        simp [scanFile_decided lib schema settings hopen h, Finding.speaksFor]
      rw [if_neg hstat, if_neg (by simp)] at hopen
      by_cases hquiet : known.quiet.any (·.holds mtime sighting.clock) = true
      · rw [if_pos hquiet] at hopen
        simp [scanFile_decided lib schema settings hopen h, Finding.speaksFor]
      rw [if_neg hquiet] at hopen
      obtain ⟨parsed', hparse', rfl⟩ := scanFile_read lib schema settings hopen h
      obtain rfl : parsed = parsed' := Except.ok.inj (hparse.symm.trans hparse')
      exact findingOf_named lib schema settings hnames hknown
    | none =>
      have hopen := openFile_unclaimed settings hwalked hrow hlocated (by simp)
      have hstat : ¬atItsStat settings known sighting = true := by
        simpa [takenAtStat, hrow] using huntaken
      rw [if_neg hstat, if_neg (by simp)] at hopen
      obtain ⟨parsed', hparse', rfl⟩ := scanFile_read lib schema settings hopen h
      obtain rfl : parsed = parsed' := Except.ok.inj (hparse.symm.trans hparse')
      exact findingOf_named lib schema settings hnames hknown
  | ownPath hrow hown hother =>
    subst hown
    exact scanFile_ownPath lib schema settings hwalked hrow hother h
  | gone hlocated =>
    have hopen : openFile settings known sighting =
        .decided { deferred := true, held := (known.index.byPath sighting.path).map (·.noteId) } := by
      have hskip := hwalked.notSkipped
      simp only [openFile, hwalked.visible, hskip, hlocated, Bool.false_eq_true, if_false]
    simp [scanFile_decided lib schema settings hopen h, Finding.speaksFor]
  | goneSince hlocated huntaken =>
    cases hrow : known.index.byPath sighting.path with
    | some entry =>
      have hopen := openFile_claimed settings hwalked hrow hlocated
      rw [if_neg (by simp [huntaken]), if_neg (by simp)] at hopen
      split at hopen
      all_goals simp [scanFile_decided lib schema settings hopen h, Finding.speaksFor]
    | none =>
      have hopen := openFile_unclaimed settings hwalked hrow hlocated (by simp)
      rw [if_neg (by simp [huntaken]), if_neg (by simp)] at hopen
      simp [scanFile_decided lib schema settings hopen h, Finding.speaksFor]
  | refused hrow hlocated =>
    have hopen : openFile settings known sighting =
        .decided (unopened none sighting.path false) := by
      have hskip := hwalked.notSkipped
      simp only [openFile, hwalked.visible, hskip, hlocated, Bool.false_eq_true, if_false]
      rw [hrow]
    simp [scanFile_decided lib schema settings hopen h, unopened, Finding.speaksFor]
  | @shut kind size mtime read hrow hlocated hclosed huntaken =>
    have hopen := openFile_unclaimed settings hwalked hrow hlocated (by
      rintro rfl
      simpa using hclosed)
    rw [if_neg (by simp [huntaken])] at hopen
    by_cases hkind : kind ≠ .regular
    · rw [if_pos hkind] at hopen
      simp [scanFile_decided lib schema settings hopen h, unopened, Finding.speaksFor]
    · obtain rfl : read = .refused := by simpa [not_ne_iff.1 hkind] using hclosed
      rw [if_neg hkind] at hopen
      simp [scanFile_decided lib schema settings hopen h, unopened, Finding.speaksFor]
  | @settling size mtime read hlocated hquiet hclaimed hunclaimed =>
    cases hrow : known.index.byPath sighting.path with
    | some entry =>
      have hopen := openFile_claimed settings hwalked hrow hlocated
      rw [if_neg (by simp [hclaimed entry hrow]), if_neg (by simp), if_pos hquiet] at hopen
      simp [scanFile_decided lib schema settings hopen h, Finding.speaksFor]
    | none =>
      obtain ⟨hlisted, hunknown⟩ := hunclaimed hrow
      have hopen := openFile_unclaimed settings hwalked hrow hlocated (by simp)
      by_cases hstat : atItsStat settings known sighting = true
      · rw [if_pos hstat] at hopen
        simp [scanFile_decided lib schema settings hopen h, Finding.speaksFor, hquiet]
      rw [if_neg hstat, if_neg (by simp)] at hopen
      cases read with
      | vanished => simp [scanFile_decided lib schema settings hopen h, Finding.speaksFor]
      | refused => simp [scanFile_decided lib schema settings hopen h, unopened, Finding.speaksFor]
      | bytes data =>
        obtain ⟨parsed, hparse, rfl⟩ := scanFile_read lib schema settings hopen h
        exact findingOf_settling lib schema settings id hrow hquiet hlisted fun other =>
          hunknown data parsed other rfl hparse

/-- A known note that a file of the walk keeps in view is not absent. -/
theorem isAbsent_of_inView {known : Known} {walk : List Sighting} {result : ScanResult}
    {id : NoteId} (hscan : scan lib schema settings known walk = .ok result)
    (hknown : known.index.knows id = true) {sighting : Sighting} (hmem : sighting ∈ walk)
    (hwalked : IsWalked settings known sighting)
    (hview : InView lib schema settings known id sighting) : isAbsent result id = false := by
  obtain ⟨f, hf, -, hscanned⟩ := scan_mem hscan hmem
  have hspeaks := scanFile_speaksFor lib schema settings hwalked hview hknown hscanned
  simp only [Finding.speaksFor, Bool.or_eq_true] at hspeaks
  by_cases hdeferred : f.2.deferred = true
  · have hpos : 0 < result.deferred := List.countP_pos_iff.2 ⟨f, hf, hdeferred⟩
    have hne : (result.deferred == 0) = false := by
      rw [beq_eq_false_iff_ne]
      omega
    rw [isAbsent, hne, Bool.false_and]
  · have hseen : result.seen id = true :=
      List.any_eq_true.2 ⟨f, hf, by simpa using hspeaks.resolve_right hdeferred⟩
    rw [isAbsent, hseen, Bool.not_true, Bool.and_false]

end Speaks

section Kept

variable {lib : Libraries} {db : Database} {schema : FrontmatterSchema} {settings : Settings}

/-- The state an observation gives a row is `ok` or `unparsed`. -/
theorem observedValues_state (o : Observation) :
    ⟨.state, .ok⟩ ∈ observedValues lib schema o ∨ ⟨.state, .unparsed⟩ ∈ observedValues lib schema o := by
  unfold observedValues
  cases o.state with
  | unreadable => simp
  | unparsed => simp
  | ok title frontmatter body => simp

/-- The update of an observed note leaves it neither missing nor deleted, if it changes it. -/
theorem settledRow_observed (pass : Pass) (row : Row) (o : Observation) :
    let row' := settledRow pass row (valuesFor lib schema row (some o))
    row' = row ∨ row'.state = .ok ∨ row'.state = .unparsed := by
  intro row'
  by_cases h : valuesFor lib schema row (some o) = [] ∨ pass.scanStarted < row.updatedAt
  · exact Or.inl (if_pos h)
  have hrow : row' = (valuesFor lib schema row (some o)).apply pass.now row := if_neg h
  refine Or.inr ?_
  have hcell {v : NoteState} (hv : ⟨.state, v⟩ ∈ observedValues lib schema o) : row'.state = v := by
    rw [hrow]
    rcases changing_apply_cells (observedValues_nodup lib schema o) hv pass.now row with h | h
    · exact h
    · exact h.2.trans (beq_iff_eq.1 h.1)
  exact (observedValues_state o).imp hcell hcell

/-- The row of a note the mirror knows, after a pass. -/
def KeptRow (s s' : State) (id : NoteId) : Prop :=
  ∀ row, s.row? id = some row → ∃ row', s'.row? id = some row' ∧
    (row'.state = .missing ∨ row'.state = .deleted → row' = row)

theorem KeptRow.of_eq {s s' : State} {id : NoteId}
    (h : ∀ row, s.row? id = some row → s'.row? id = some row) : KeptRow s s' id :=
  fun row hrow => ⟨row, h row hrow, fun _ => rfl⟩

/-- A pass that returns keeps the row of a note that is not absent. -/
theorem Passed.keptRow {pass : Pass} {s s₁ s' : State} {walk : List Sighting} {result : ScanResult}
    {progress : Progress} (h : Passed lib db schema settings pass s walk result progress s₁ s')
    {id : NoteId} (hpresent : isAbsent result id = false) : KeptRow s s' id := by
  intro row hrow
  have hrow₁ : s₁.row? id = some row := (h.added lib db schema settings).row? hrow
  by_cases hpending : id ∈ pending result (mirrorIndex pass s)
  · obtain ⟨removed, hvalues, hrow', -⟩ := h.settled.pending id hpending row hrow₁
    have hchosen : (chosen result (mirrorIndex pass s) id).isSome = true := by
      simpa [hpresent] using (List.mem_filter.1 hpending).2
    obtain ⟨o, ho⟩ := Option.isSome_iff_exists.1 hchosen
    rw [ho] at hvalues
    cases hvalues
    refine ⟨_, hrow', fun hgone => ?_⟩
    rcases @settledRow_observed lib schema pass row o with h | h | h
    · exact h
    all_goals
      rw [h] at hgone
      rcases hgone with hgone | hgone <;> cases hgone
  · exact ⟨row, (h.settled.others id hpending).1.trans hrow₁, fun _ => rfl⟩

end Kept

section Runs

variable (lib : Libraries) (db : Database) (schema : FrontmatterSchema) (settings : Settings)

/-- The state after a pass, returned or raised. -/
def afterPass (s : State) (pass : Pass) : State :=
  finalState (reconcileOnce lib db schema settings pass s)

/-- Where a cheap pass takes a file that names a note at its stat, another file of the walk keeps
the note in view. -/
def SparesNamed (s : State) (pass : Pass) : Prop :=
  let known := knownOf pass (recovered lib schema pass s)
  ∀ walk, pass.walk = some walk → ∀ sighting ∈ walk, ∀ id, Names lib schema sighting id →
    known.index.knows id = true → takenAtStat settings known id sighting = true →
      ∃ other ∈ walk, IsWalked settings known other ∧ InView lib schema settings known id other

/-- A pass sets no note missing or deleted that a file of its walk names. -/
def KeepsNamed (s : State) (pass : Pass) : Prop :=
  ∀ walk, pass.walk = some walk → ∀ sighting ∈ walk, ∀ id, Names lib schema sighting id →
    (mirrorIndex pass (recovered lib schema pass s)).knows id = true →
      KeptRow (recovered lib schema pass s) (afterPass lib db schema settings s pass) id

theorem afterPass_keyed {s : State} (hkeyed : s.Keyed) (pass : Pass) :
    (afterPass lib db schema settings s pass).Keyed := by
  have hadded := recovered_added lib schema pass s
  refine wp_final (P := State.Keyed) (wp_mono (reconcileOnce_wp lib db schema settings pass hkeyed)
    ?_ ?_)
  · rintro _ s' ⟨walk, result, progress, s₁, h⟩
    have hkeyed₁ : s₁.Keyed := (h.added lib db schema settings).keyed (hadded.keyed hkeyed)
    rw [State.Keyed, h.settled.keys]
    exact hkeyed₁
  · rintro _ s' ⟨s₁, hadded₁, hrows, -⟩
    rw [State.Keyed, hrows]
    exact hadded₁.keyed (hadded.keyed hkeyed)

/-- One pass. -/
theorem pass_keepsNamed {s : State} (hkeyed : s.Keyed) {pass : Pass}
    (hspares : SparesNamed lib schema settings s pass) :
    KeepsNamed lib db schema settings s pass := by
  intro walk hwalk sighting hmem id hnames hknown
  refine wp_final (P := fun s' => KeptRow (recovered lib schema pass s) s' id)
    (wp_mono (reconcileOnce_wp lib db schema settings pass hkeyed) ?_ ?_)
  · rintro _ s' ⟨walk', result, progress, s₁, h⟩
    obtain rfl : walk = walk' := Option.some.inj (hwalk.symm.trans h.walked)
    apply h.keptRow
    cases htaken : takenAtStat settings (knownOf pass (recovered lib schema pass s)) id sighting with
    | true =>
      obtain ⟨other, hother, hwalked, hview⟩ :=
        hspares walk hwalk sighting hmem id hnames hknown htaken
      exact isAbsent_of_inView lib schema settings h.scanned hknown hother hwalked hview
    | false =>
      exact isAbsent_of_inView lib schema settings h.scanned hknown hmem
        (hnames.isWalked lib schema settings _) (hnames.inView lib schema settings htaken)
  · rintro _ s' ⟨s₁, hadded, hrows, -⟩
    refine KeptRow.of_eq fun row hrow => ?_
    rw [row?_of_rows hrows]
    exact hadded.row? hrow

/-- **No false deletion**: in every run of passes in which no file that names a note is taken at
its stat with nothing else speaking for the note, no pass sets a note missing or deleted that a
file of its walk names. -/
theorem passes_keep_named_notes {passes : List Pass} {s : State} (hkeyed : s.Keyed)
    (h : Along (afterPass lib db schema settings) (SparesNamed lib schema settings) s passes) :
    Along (afterPass lib db schema settings) (KeepsNamed lib db schema settings) s passes :=
  h.imp (I := State.Keyed)
    (fun _ pass hkeyed _ => afterPass_keyed lib db schema settings hkeyed pass)
    (fun _ _ hkeyed => pass_keepsNamed lib db schema settings hkeyed) hkeyed

end Runs

section Copies

/-- The identifier two copies of a file carry. -/
def copiedId : String := "00000000000000000000000000"

def copyAt (path : String) : File :=
  { path := PyStr.lit path, fileName := PyStr.lit path, mtime := 0
    data := .utf8 ("---\nid: " ++ copiedId ++ "\ndate: x\n---\nbody\n").toList }

/-- Nothing was ever removed, filed or excluded. -/
def plainWorld : Surroundings where
  lib := plainLibraries
  db := ⟨fun _ => true⟩
  schema := plainSchema
  settings := ⟨[], [], []⟩
  purging := []
  history := ⟨true, fun _ => []⟩
  filing := fun _ => .absent
  manifests := fun _ => .unreadable

def cheapTurn (started : Instant) : Turn where
  full := false
  quietPeriod := 0
  scanStarted := started
  now := started
  localNow := ⟨⟨2024, 1, 1⟩, 0, 0, 0, 0, none⟩
  newId := fun _ => []
  writtenAt := started

def emptyStore : State := ⟨[], [], [], [], [], [], [], []⟩

/-- The first pass adopts one copy and remembers the other. -/
def bothCopies : Pass := plainWorld.pass (cheapTurn 1) [copyAt "a.md", copyAt "b.md"]

def afterPlain (s : State) (pass : Pass) : State :=
  afterPass plainWorld.lib plainWorld.db plainWorld.schema plainWorld.settings s pass

/-- The state of a note. -/
def State.stateOf (s : State) (id : NoteId) : Option NoteState := (s.row? id).map (·.state)

/-- A file that names a note and is not taken at its stat. -/
def namesUntaken (known : Known) (id : NoteId) (sighting : Sighting) : Bool :=
  isMarkdown sighting.path && !isIgnored sighting.path &&
    !takenAtStat plainWorld.settings known id sighting &&
    match sighting.located with
    | .found .regular _ _ (.bytes data) =>
      match parseBytes plainWorld.lib.yaml data with
      | .ok parsed => namedBy plainWorld.lib plainWorld.schema data parsed == some id
      | .error _ => false
    | _ => false

theorem inView_of_namesUntaken {known : Known} {id : NoteId} {sighting : Sighting}
    (h : namesUntaken known id sighting = true) :
    IsWalked plainWorld.settings known sighting ∧
      InView plainWorld.lib plainWorld.schema plainWorld.settings known id sighting := by
  simp only [namesUntaken, Bool.and_eq_true, Bool.not_eq_true'] at h
  obtain ⟨⟨⟨hmarkdown, hvisible⟩, huntaken⟩, hread⟩ := h
  refine ⟨⟨hvisible, Or.inl hmarkdown⟩, ?_⟩
  split at hread
  · next hlocated =>
    split at hread
    · next hparse => exact .named hlocated hparse (beq_iff_eq.1 hread) huntaken
    · cases hread
  · cases hread

/-- Every note of the mirror is named by a file of the walk that is not taken at its stat. -/
def allNamed (s : State) (pass : Pass) (walk : List Sighting) : Bool :=
  let known := knownOf pass (recovered plainWorld.lib plainWorld.schema pass s)
  known.index.all fun entry => walk.any (namesUntaken known entry.noteId)

theorem sparesNamed_of_allNamed {s : State} {pass : Pass} {walk : List Sighting}
    (hwalk : pass.walk = some walk) (h : allNamed s pass walk = true) :
    SparesNamed plainWorld.lib plainWorld.schema plainWorld.settings s pass := by
  intro walk' hwalk' _ _ id _ hknown _
  obtain rfl : walk = walk' := Option.some.inj (hwalk.symm.trans hwalk')
  obtain ⟨entry, hentry, hid⟩ := List.any_eq_true.1 hknown
  obtain ⟨sighting, hmem, hnames⟩ := List.any_eq_true.1 (List.all_eq_true.1 h entry hentry)
  rw [beq_iff_eq] at hid
  exact ⟨sighting, hmem, inView_of_namesUntaken (hid ▸ hnames)⟩

/-- Both copies are there again: the second is taken at its stat, the first names the note. -/
theorem passes_keep_named_notes_sample :
    Along afterPlain (KeepsNamed plainWorld.lib plainWorld.db plainWorld.schema plainWorld.settings)
      emptyStore [bothCopies, plainWorld.pass (cheapTurn 2) [copyAt "a.md", copyAt "b.md"]] :=
  passes_keep_named_notes _ _ _ _ List.nodup_nil
    ⟨sparesNamed_of_allNamed rfl (by decide +kernel),
      sparesNamed_of_allNamed rfl (by decide +kernel), trivial⟩

/-- The second pass finds only the copy an earlier one remembered, and calls its note missing. -/
theorem remembered_copy_called_missing :
    ¬Along afterPlain (KeepsNamed plainWorld.lib plainWorld.db plainWorld.schema plainWorld.settings)
      emptyStore [bothCopies, plainWorld.pass (cheapTurn 2) [copyAt "b.md"]] := by
  intro h
  obtain ⟨-, hkeeps, -⟩ := h
  have hnames : Names plainWorld.lib plainWorld.schema ((copyAt "b.md").sighting 2)
      (PyStr.lit copiedId) :=
    ⟨by decide +kernel, by decide +kernel, _, _, _, _, _, rfl, rfl, by decide +kernel⟩
  have hkept := hkeeps _ rfl _ List.mem_cons_self _ hnames (by decide +kernel)
  have hbefore : (recovered plainWorld.lib plainWorld.schema
      (plainWorld.pass (cheapTurn 2) [copyAt "b.md"]) (afterPlain emptyStore bothCopies)).stateOf
        (PyStr.lit copiedId) = some .ok := by decide +kernel
  have hafter : (afterPlain (afterPlain emptyStore bothCopies)
      (plainWorld.pass (cheapTurn 2) [copyAt "b.md"])).stateOf (PyStr.lit copiedId) =
        some .missing := by decide +kernel
  obtain ⟨row, hrow, hok⟩ := Option.map_eq_some_iff.1 hbefore
  obtain ⟨row', hrow', hsame⟩ := hkept row hrow
  obtain ⟨row'', hrow'', hmissing⟩ := Option.map_eq_some_iff.1 hafter
  obtain rfl : row' = row'' := Option.some.inj (hrow'.symm.trans hrow'')
  rw [← hsame (Or.inl hmissing), hmissing] at hok
  cases hok

end Copies

end Coppermind.Reconciler
