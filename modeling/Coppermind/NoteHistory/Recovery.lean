import Coppermind.NoteHistory.Evidence
import Coppermind.Reconciler.Absence

/-!
# What lost rows are seeded from

`GitHistory.refresh` keeps what `_load` found as long as HEAD, the key and the wanted identities
allow it.  `recover_rows` seeds the row of a lost note from its retained receipt, from the newest
removal in the history, or from a return that was observed after the receipt.
-/

namespace Coppermind.NoteHistory

open Coppermind.Lib Coppermind.Lib.Text Coppermind.Frontmatter Coppermind.Schema
open Coppermind.Notes (NoteId RelPath FileBytes Instant Libraries Row)
open Coppermind.Reconciler (Receipt ObservedReturn Pass State History recoverRows recoveredRow
  recoveredFrom newestReceipts lost evidence)

/-- `GitHistory`: what the last walk found, and the status. -/
structure GitHistory where
  head : Option CommitId := none
  key : Option Text := none
  wanted : List NoteId := []
  removed : Removed := []
  available : Bool := false
  statusHead : Option CommitId := none

section Refresh

variable (lib : Libraries) (repo : Repo) (reading : Reading) (isValueError : String → Bool)

/-- The `except` clause of `refresh`. -/
def GitHistory.failed (h : GitHistory) (head : Option CommitId) : GitHistory :=
  { h with removed := [], head := none, available := false, statusHead := head }

def GitHistory.ready (h : GitHistory) (head : CommitId) : GitHistory :=
  { h with available := true, statusHead := some head }

/-- What was found before serves again. -/
def GitHistory.serves (h : GitHistory) (head : CommitId) (key : Text) (wanted : List NoteId) :
    Bool :=
  h.head == some head && h.key == some key && wanted.all (· ∈ h.wanted)

/-- `refresh`; `head` is what `git rev-parse` answers, if it does. -/
def refresh (head : Option CommitId) (key : Text) (enabled : Bool)
    (wanted : Option (List NoteId)) (h : GitHistory) : Except Failure GitHistory :=
  if !enabled then .ok (h.failed none)
  else
    match head, wanted with
    | none, _ => .ok (h.failed none)
    | some head, none =>
      if !h.available && h.statusHead == some head then .ok h else .ok (h.ready head)
    | some head, some wanted =>
      if h.serves head key wanted then .ok (h.ready head)
      else
        match load lib repo reading key head wanted with
        | .ok removed =>
          .ok ({ h with removed, head := some head, key := some key, wanted }.ready head)
        | .error .unavailable => .ok (h.failed (some head))
        | .error (.python className) =>
          if isValueError className then .ok (h.failed (some head))
          else .error (.python className)

/-- What is kept was found by `_load`. -/
structure GitHistory.Sound (h : GitHistory) : Prop where
  none : h.head = none → h.removed = []
  some : ∀ head, h.head = some head → ∃ reading key, h.key = some key ∧
    load lib repo reading key head h.wanted = .ok h.removed

/-- The states a history can reach, however each refresh goes. -/
inductive Reached : GitHistory → Prop
  | new : Reached {}
  | refresh {h h' : GitHistory} {reading : Reading} {head : Option CommitId} {key : Text}
      {enabled : Bool} {wanted : Option (List NoteId)} (hreached : Reached h)
      (hrefresh : NoteHistory.refresh lib repo reading isValueError head key enabled wanted h =
        .ok h') : Reached h'

variable {lib repo reading isValueError} {h h' : GitHistory} {head : CommitId} {key : Text}
  {enabled : Bool} {wanted : List NoteId}

theorem GitHistory.Sound.ready (hsound : h.Sound lib repo) (head : CommitId) :
    (h.ready head).Sound lib repo := ⟨hsound.none, hsound.some⟩

theorem GitHistory.sound_failed (h : GitHistory) (head : Option CommitId) :
    (h.failed head).Sound lib repo :=
  ⟨fun _ => rfl, fun _ hhead => by cases hhead⟩

/-- A refresh keeps only what it finds. -/
theorem sound_refresh {head : Option CommitId} {wanted : Option (List NoteId)}
    (hsound : h.Sound lib repo)
    (hrefresh : refresh lib repo reading isValueError head key enabled wanted h = .ok h') :
    h'.Sound lib repo := by
  unfold refresh at hrefresh
  split at hrefresh
  · obtain rfl := Except.ok.inj hrefresh
    exact h.sound_failed _
  · cases head with
    | none =>
      obtain rfl := Except.ok.inj hrefresh
      exact h.sound_failed _
    | some head =>
      cases wanted with
      | none =>
        dsimp only at hrefresh
        split at hrefresh
        · obtain rfl := Except.ok.inj hrefresh
          exact hsound
        · obtain rfl := Except.ok.inj hrefresh
          exact hsound.ready head
      | some wanted =>
        dsimp only at hrefresh
        split at hrefresh
        · obtain rfl := Except.ok.inj hrefresh
          exact hsound.ready head
        · cases hload : load lib repo reading key head wanted with
          | ok removed =>
            rw [hload] at hrefresh
            obtain rfl := Except.ok.inj hrefresh
            refine ⟨fun hnone => (by cases hnone), fun head' hhead => ?_⟩
            obtain rfl := Option.some.inj hhead
            exact ⟨reading, key, rfl, hload⟩
          | error e =>
            rw [hload] at hrefresh
            cases e with
            | unavailable =>
              obtain rfl := Except.ok.inj hrefresh
              exact h.sound_failed _
            | python className =>
              dsimp only at hrefresh
              split at hrefresh
              · obtain rfl := Except.ok.inj hrefresh
                exact h.sound_failed _
              · cases hrefresh

theorem Reached.sound (hreached : Reached lib repo isValueError h) : h.Sound lib repo := by
  induction hreached with
  | new => exact ⟨fun _ => rfl, fun _ hhead => by cases hhead⟩
  | refresh _ hrefresh ih => exact sound_refresh ih hrefresh

/-- The history of HEAD can be read, or was read for these identities before. -/
def Readable (lib : Libraries) (repo : Repo) (reading : Reading) (head : CommitId) (key : Text)
    (enabled : Bool) (wanted : List NoteId) (h : GitHistory) : Prop :=
  enabled = true ∧ (h.serves head key wanted = true ∨
    ∃ removed, load lib repo reading key head wanted = .ok removed)

/-- What a refresh for these identities leaves: what `_load` finds for more of them, or nothing where
the history cannot be read. -/
theorem refresh_wanted (hsound : h.Sound lib repo)
    (hrefresh : refresh lib repo reading isValueError (some head) key enabled (some wanted) h =
      .ok h') :
    (Readable lib repo reading head key enabled wanted h ∧ ∃ reading wanted', wanted ⊆ wanted' ∧
      load lib repo reading key head wanted' = .ok h'.removed) ∨
    (¬Readable lib repo reading head key enabled wanted h ∧ h'.removed = []) := by
  unfold refresh at hrefresh
  cases henabled : enabled with
  | false =>
    rw [henabled] at hrefresh
    obtain rfl := Except.ok.inj hrefresh
    exact Or.inr ⟨fun hread => (Bool.false_ne_true hread.1).elim, rfl⟩
  | true =>
    rw [henabled] at hrefresh
    dsimp only at hrefresh
    rw [if_neg (by simp)] at hrefresh
    cases hserves : h.serves head key wanted with
    | true =>
      rw [hserves] at hrefresh
      obtain rfl := Except.ok.inj hrefresh
      refine Or.inl ⟨⟨rfl, Or.inl hserves⟩, ?_⟩
      simp only [GitHistory.serves, Bool.and_eq_true, beq_iff_eq, List.all_eq_true,
        decide_eq_true_eq] at hserves
      obtain ⟨⟨hhead, hkey⟩, hwanted⟩ := hserves
      obtain ⟨reading', key', hkey', hload⟩ := hsound.some head hhead
      rw [hkey] at hkey'
      obtain rfl := Option.some.inj hkey'
      exact ⟨reading', h.wanted, fun id hid => hwanted id hid, hload⟩
    | false =>
      rw [hserves, if_neg Bool.false_ne_true] at hrefresh
      cases hload : load lib repo reading key head wanted with
      | ok removed =>
        rw [hload] at hrefresh
        obtain rfl := Except.ok.inj hrefresh
        exact Or.inl ⟨⟨rfl, Or.inr ⟨removed, hload⟩⟩, reading, wanted, fun _ hid => hid, hload⟩
      | error e =>
        have hunread : ¬Readable lib repo reading head key true wanted h := by
          rintro ⟨-, hserves' | ⟨removed, hok⟩⟩
          · rw [hserves] at hserves'
            cases hserves'
          · rw [hload] at hok
            cases hok
        rw [hload] at hrefresh
        refine Or.inr ⟨hunread, ?_⟩
        cases e with
        | unavailable =>
          obtain rfl := Except.ok.inj hrefresh
          rfl
        | python className =>
          dsimp only at hrefresh
          split at hrefresh
          · obtain rfl := Except.ok.inj hrefresh
            rfl
          · cases hrefresh

end Refresh

section Recovered

variable (lib : Libraries) (schema : FrontmatterSchema)

/-- A candidate as the reconciler reads it. -/
def Candidate.removal (c : Candidate) : Reconciler.Removal := ⟨c.commit, c.path, c.data⟩

/-- What the reconciler reads of a history. -/
def viewOf (h : GitHistory) : History where
  available := h.available
  removed id := (candidates h.removed id).map Candidate.removal

/-- What a row is seeded from: a removal, or a return that was observed later. -/
structure Origin where
  removal : Receipt
  later : Option ObservedReturn

/-- The observation of a note after its removal. -/
def observed (s : State) (id : NoteId) : Option ObservedReturn :=
  (s.returns.find? (·.1 == id)).map (·.2)

/-- The variables of the loop of `recover_rows` when it makes the row. -/
def originOf (pass : Pass) (s : State) (receipt : Receipt) : Origin :=
  let found := recoveredFrom lib pass (observed s receipt.noteId) receipt
  ⟨found.1, found.2.2.filter fun later => found.1.recordedAt < later.recordedAt⟩

/-- The path and the contents of a row are those of its origin. -/
def Shows (row : Row) (origin : Origin) : Prop :=
  row.id = origin.removal.noteId ∧
    row.path = origin.later.elim origin.removal.path (·.path) ∧
    row.contentHash = origin.later.elim origin.removal.contentHash (·.contentHash)

variable (repo : Repo) (head : CommitId)

/-- When a removal took place: a retained one when it was recorded, any other with its commit. -/
def removedAt (receipt : Receipt) (commit : CommitId) : Instant :=
  if commit = receipt.removalCommit then receipt.recordedAt
  else (((repo.snapshot head).log.find? (·.id == commit)).map (·.time)).getD receipt.recordedAt

/-- A commit stands above another in the log. -/
def Above (commit other : CommitId) : Prop :=
  ∃ newer c older, (repo.snapshot head).log = newer ++ c :: older ∧ c.id = other ∧
    commit ∈ newer.map (·.id)

/-- The log names the commit. -/
def Logged (commit : CommitId) : Prop := commit ∈ (repo.snapshot head).log.map (·.id)

/-- A removal is newer than another, each a commit and when it took place: by the log where it names
both commits, and else by time. -/
def Newer (removal other : CommitId × Instant) : Prop :=
  Logged repo head removal.1 ∧ Logged repo head other.1 ∧ Above repo head removal.1 other.1 ∨
    ¬(Logged repo head removal.1 ∧ Logged repo head other.1) ∧ other.2 < removal.2

/-- The removals of a note: those in the log, each with the time of its commit, and the one its
receipt retains, when that was recorded. -/
inductive IsRemoval (receipt : Receipt) : CommitId × Instant → Prop
  | logged (c : Commit) (hc : c ∈ (repo.snapshot head).log)
      (hdeletes : Deletes lib repo schema.roles.idKey receipt.noteId c) :
      IsRemoval receipt (c.id, c.time)
  | retained : IsRemoval receipt (receipt.removalCommit, receipt.recordedAt)

/-- No removal of the note is newer than this one. -/
def NoNewer (receipt : Receipt) (removal : CommitId × Instant) : Prop :=
  ∀ other, IsRemoval lib schema repo head receipt other → ¬Newer repo head other removal

/-- The contents are of no removal that is older than another one or than an observation. -/
def Freshest (s : State) (receipt : Receipt) (origin : Origin) : Prop :=
  let commit := origin.removal.removalCommit
  let time := removedAt repo head receipt commit
  origin.later = none → NoNewer lib schema repo head receipt (commit, time) ∧
    ∀ later, observed s receipt.noteId = some later → later.recordedAt ≤ time

/-- The newest removal is not the receipt's, or is not looked for, and there is something newer
than what is used instead. -/
inductive Misled (readable : Prop) (s : State) (receipt : Receipt) : Prop
  /-- The history is not read, or HEAD holds the note: an older receipt counts. -/
  | unread (hunread : ¬readable ∨ Held lib repo schema.roles.idKey head receipt.noteId)
      (c : Commit) (hc : c ∈ (repo.snapshot head).log)
      (hdeletes : Deletes lib repo schema.roles.idKey receipt.noteId c)
      (hnewer : Newer repo head (c.id, c.time) (receipt.removalCommit, receipt.recordedAt))
      (hlater : ∀ later, observed s receipt.noteId = some later →
        later.recordedAt ≤ receipt.recordedAt)
  /-- Another removal is the newest one of the log, and the note was observed after it. -/
  | dropped (hread : readable) (hgone : ¬Held lib repo schema.roles.idKey head receipt.noteId)
      (commit : Commit)
      (hnewest : Newest lib repo schema.roles.idKey head receipt.noteId commit)
      (hother : commit.id ≠ receipt.removalCommit) (later : ObservedReturn)
      (hobserved : observed s receipt.noteId = some later) (hlater : commit.time < later.recordedAt)
  /-- Another removal is the newest one of the log, and the receipt's is newer. -/
  | older (hread : readable) (hgone : ¬Held lib repo schema.roles.idKey head receipt.noteId)
      (commit : Commit)
      (hnewest : Newest lib repo schema.roles.idKey head receipt.noteId commit)
      (hother : commit.id ≠ receipt.removalCommit)
      (hnewer : Newer repo head (receipt.removalCommit, receipt.recordedAt)
        (commit.id, commit.time))

variable {lib schema repo head} {reading : Reading} {isValueError : String → Bool}
  {pass : Pass} {s s' : State} {receipt : Receipt} {removed : Removed} {wanted : List NoteId}

/-- The path and the digest of a seeded row are those it is given. -/
theorem seeded_cells {id : NoteId} {path : RelPath} {title : Option PyStr} {digest : PyStr}
    {size : Nat} {shown frontmatter : Entries} {state : Notes.NoteState} {reason : Option PyStr}
    {now : Instant} {row : Row}
    (h : Notes.newRow id ([⟨.path, path⟩, ⟨.title, title⟩, ⟨.contentHash, digest⟩,
      ⟨.sizeBytes, size⟩, ⟨.frontmatter, shown⟩] ++ Notes.mirrorColumns lib.py schema frontmatter ++
        [⟨.state, state⟩, ⟨.stateReason, reason⟩]) now now = row) :
    row.id = id ∧ row.path = path ∧ row.contentHash = digest := by
  subst h
  have hnodup : (([⟨.path, path⟩, ⟨.title, title⟩, ⟨.contentHash, digest⟩, ⟨.sizeBytes, size⟩,
      ⟨.frontmatter, shown⟩] ++ Notes.mirrorColumns lib.py schema frontmatter ++
        [⟨.state, state⟩, ⟨.stateReason, reason⟩] : Notes.Values).map (·.1)).Nodup := by
    rw [List.map_append, List.map_append]
    obtain hcolumns | hcolumns := Notes.mirrorColumns_columns lib.py schema frontmatter
    · rw [hcolumns]
      simp only [List.map_cons, List.map_nil]
      decide
    · rw [hcolumns]
      simp only [List.map_cons, List.map_nil]
      decide
  have hcell := fun (c : Notes.Column) (v : c.Cell) hmem =>
    Notes.apply_cells_of_mem (c := c) (v := v) hnodup hmem now ⟨id, Notes.emptyCells, now, now⟩
  exact ⟨rfl, hcell .path path (by simp), hcell .contentHash digest (by simp)⟩

theorem recoveredRow_shows {row : Row} (h : recoveredRow lib schema pass s.returns receipt = .ok row) :
    Shows row (originOf lib pass s receipt) := by
  unfold recoveredRow at h
  dsimp only at h
  unfold originOf observed
  dsimp only
  generalize recoveredFrom lib pass ((s.returns.find? (·.1 == receipt.noteId)).map (·.2)) receipt =
    found at h ⊢
  cases hparse : Reconciler.mustParse lib found.1.data with
  | error e =>
    rw [hparse] at h
    cases h
  | ok parsed =>
    rw [hparse] at h
    simp only [bind, Except.bind] at h
    cases hlater : found.2.2.filter fun later => found.1.recordedAt < later.recordedAt with
    | some later =>
      rw [hlater] at h
      exact seeded_cells (Except.ok.inj h)
    | none =>
      rw [hlater] at h
      exact seeded_cells (Except.ok.inj h)

/-- The rows a recovery adds, one for each lost receipt. -/
theorem recoverRows_rows (h : recoverRows lib schema pass s = .ok () s') :
    ∃ rows, s'.rows = s.rows ++ rows ∧
      List.Forall₂ (fun receipt row => Shows row (originOf lib pass s receipt)) (lost pass s)
        rows := by
  have hwp : wp (recoverRows lib schema pass) (fun _ s' => ∃ rows, s'.rows = s.rows ++ rows ∧
      List.Forall₂ (fun receipt row => Shows row (originOf lib pass s receipt)) (lost pass s) rows)
      (fun _ _ => True) s := by
    unfold recoverRows
    simp only [wp_bind, wp_get, Reconciler.wp_liftExcept]
    cases hrows : (lost pass s).mapM (recoveredRow lib schema pass s.returns) with
    | error e => trivial
    | ok rows =>
      have hshown : List.Forall₂ (fun receipt row => Shows row (originOf lib pass s receipt))
          (lost pass s) rows := (mapM_eq_ok.1 hrows).imp fun _ _ hrow => recoveredRow_shows hrow
      simp only [wp_raiseIf, wp_modify]
      split
      · trivial
      · exact ⟨rows, rfl, hshown⟩
  unfold wp at hwp
  rwa [h] at hwp

theorem newest_unique {id : NoteId} {key : Text} {c c' : Commit}
    (h : Newest lib repo key head id c) (h' : Newest lib repo key head id c') : c = c' := by
  obtain ⟨newer, older, hlog, hdeletes, hnewer⟩ := h
  obtain ⟨newer', older', hlog', hdeletes', hnewer'⟩ := h'
  rw [hlog] at hlog'
  obtain ⟨between, rfl, hrest⟩ | ⟨between, rfl, hrest⟩ := List.append_eq_append_iff.1 hlog'
  · cases between with
    | nil => exact (List.cons.inj hrest).1
    | cons b between =>
      obtain ⟨rfl, -⟩ := List.cons.inj hrest
      exact absurd hdeletes (hnewer' c (by simp))
  · cases between with
    | nil => exact (List.cons.inj hrest).1.symm
    | cons b between =>
      obtain ⟨rfl, -⟩ := List.cons.inj hrest
      exact absurd hdeletes' (hnewer c' (by simp))

theorem not_above_self (commit : CommitId) : ¬Above repo head commit commit := by
  rintro ⟨newer, c, older, hlog, rfl, habove⟩
  have hdistinct := (repo.snapshot head).distinct
  rw [hlog, List.map_append, List.map_cons, List.nodup_append] at hdistinct
  exact hdistinct.2.2 _ habove _ List.mem_cons_self rfl

theorem not_newer_self (removal : CommitId × Instant) : ¬Newer repo head removal removal := by
  rintro (⟨-, -, habove⟩ | ⟨-, hlt⟩)
  · exact not_above_self _ habove
  · exact lt_irrefl _ hlt

/-- Nothing above the newest commit that deletes the note deletes it. -/
theorem not_above_newest {id : NoteId} {key : Text} {c commit : Commit}
    (h : Newest lib repo key head id commit) (hc : c ∈ (repo.snapshot head).log)
    (hdeletes : Deletes lib repo key id c) : ¬Above repo head c.id commit.id := by
  obtain ⟨newer, older, hlog, -, hnewer⟩ := h
  rintro ⟨newer', c', older', hlog', hid, habove⟩
  have hdistinct := (repo.snapshot head).distinct
  have hmem : c ∈ newer' := by
    obtain ⟨n, hn, hnid⟩ := List.mem_map.1 habove
    have hlogged : n ∈ (repo.snapshot head).log := hlog' ▸ List.mem_append_left _ hn
    exact List.inj_on_of_nodup_map hdistinct hlogged hc hnid ▸ hn
  rw [hlog] at hlog'
  obtain ⟨between, rfl, hrest⟩ | ⟨between, rfl, hrest⟩ := List.append_eq_append_iff.1 hlog'
  · cases between with
    | nil => exact hnewer c (by simpa using hmem) hdeletes
    | cons b between =>
      -- One name would stand twice in the log.
      obtain ⟨rfl, hrest⟩ := List.cons.inj hrest
      rw [hlog, hrest] at hdistinct
      simp [hid, List.nodup_append] at hdistinct
  · exact hnewer c (List.mem_append_left _ hmem) hdeletes

theorem logged_of_mem {c : Commit} (hc : c ∈ (repo.snapshot head).log) : Logged repo head c.id :=
  List.mem_map.2 ⟨c, hc, rfl⟩

/-- Beside the newest removal of the log, only the receipt's may be newer. -/
theorem noNewer_newest {commit : Commit} (time : Instant)
    (h : Newest lib repo schema.roles.idKey head receipt.noteId commit) :
    NoNewer lib schema repo head receipt (commit.id, time) ↔
      ¬Newer repo head (receipt.removalCommit, receipt.recordedAt) (commit.id, time) := by
  have hcommit : Logged repo head commit.id := by
    obtain ⟨newer, older, hlog, -⟩ := h
    exact logged_of_mem (by simp [hlog])
  constructor
  · exact fun hnone => hnone _ .retained
  · rintro hreceipt other (⟨c, hc, hdeletes⟩ | _)
    · rintro (⟨-, -, habove⟩ | ⟨hunlogged, -⟩)
      · exact not_above_newest h hc hdeletes habove
      · exact hunlogged ⟨logged_of_mem hc, hcommit⟩
    · exact hreceipt

/-- Beside the receipt's removal, only one of the log may be newer. -/
theorem noNewer_receipt : NoNewer lib schema repo head receipt
      (receipt.removalCommit, receipt.recordedAt) ↔
    ∀ c ∈ (repo.snapshot head).log, Deletes lib repo schema.roles.idKey receipt.noteId c →
      ¬Newer repo head (c.id, c.time) (receipt.removalCommit, receipt.recordedAt) := by
  constructor
  · exact fun hnone c hc hdeletes => hnone _ (.logged c hc hdeletes)
  · rintro hlogged other (⟨c, hc, hdeletes⟩ | _)
    · exact hlogged c hc hdeletes
    · exact not_newer_self _

/-- The newest removal took place with its commit. -/
theorem removedAt_of_newest {id : NoteId} {key : Text} {commit : Commit}
    (h : Newest lib repo key head id commit) (hother : commit.id ≠ receipt.removalCommit) :
    removedAt repo head receipt commit.id = commit.time := by
  obtain ⟨newer, older, hlog, -⟩ := h
  have hmem : commit ∈ (repo.snapshot head).log := by simp [hlog]
  cases hfind : (repo.snapshot head).log.find? (·.id == commit.id) with
  | none => exact absurd (beq_self_eq_true _) (List.find?_eq_none.1 hfind commit hmem)
  | some found =>
    have hid : found.id = commit.id := by simpa using List.find?_some hfind
    have heq := List.inj_on_of_nodup_map (repo.snapshot head).distinct
      (List.mem_of_find?_eq_some hfind) hmem hid
    rw [removedAt, if_neg hother, hfind, heq]
    rfl

/-- Where the receipt itself counts, unless a return was observed after it. -/
theorem freshest_receipt (h : originOf lib pass s receipt = ⟨receipt,
      (observed s receipt.noteId).filter fun later => receipt.recordedAt < later.recordedAt⟩) :
    Freshest lib schema repo head s receipt (originOf lib pass s receipt) ↔
      ((∀ later, observed s receipt.noteId = some later → later.recordedAt ≤ receipt.recordedAt) →
        NoNewer lib schema repo head receipt (receipt.removalCommit, receipt.recordedAt)) := by
  have hnone : ((observed s receipt.noteId).filter fun later =>
      receipt.recordedAt < later.recordedAt) = none ↔
        ∀ later, observed s receipt.noteId = some later → later.recordedAt ≤ receipt.recordedAt := by
    rw [Option.filter_eq_none_iff]
    simp
  rw [h]
  unfold Freshest removedAt
  dsimp only
  rw [hnone, if_pos rfl]
  constructor
  · intro hfresh hlater
    exact (hfresh hlater).1
  · intro hfresh hlater
    exact ⟨hfresh hlater, hlater⟩

theorem originOf_of_nil (hview : pass.history.removed receipt.noteId = []) :
    originOf lib pass s receipt = ⟨receipt,
      (observed s receipt.noteId).filter fun later => receipt.recordedAt < later.recordedAt⟩ := by
  unfold originOf recoveredFrom
  rw [hview]
  rfl

/-- A receipt that is used because nothing else is looked for. -/
theorem freshest_unsought {readable : Prop}
    (hunread : ¬readable ∨ Held lib repo schema.roles.idKey head receipt.noteId)
    (hview : pass.history.removed receipt.noteId = []) :
    Freshest lib schema repo head s receipt (originOf lib pass s receipt) ↔
      ¬Misled lib schema repo head readable s receipt := by
  rw [freshest_receipt (originOf_of_nil hview), noNewer_receipt]
  constructor
  · rintro hfresh (⟨-, c, hc, hdeletes, hnewer, hlater⟩ | ⟨hread, hgone, -⟩ | ⟨hread, hgone, -⟩)
    · exact hfresh hlater c hc hdeletes hnewer
    · exact hunread.elim (fun h => h hread) hgone
    · exact hunread.elim (fun h => h hread) hgone
  · intro hmisled hlater c hc hdeletes hnewer
    exact hmisled (.unread hunread c hc hdeletes hnewer hlater)

/-- Where the history was read, the receipt is weighed against the newest removal. -/
theorem freshest_read {readable : Prop} (hread : readable)
    (hload : load lib repo reading schema.roles.idKey head wanted = .ok removed)
    (hwanted : receipt.noteId ∈ wanted) (hview : pass.history.removed receipt.noteId =
      (candidates removed receipt.noteId).map Candidate.removal) :
    Freshest lib schema repo head s receipt (originOf lib pass s receipt) ↔
      ¬Misled lib schema repo head readable s receipt := by
  obtain ⟨hiff, hfrom⟩ := load_candidates hload hwanted
  cases hfound : candidates removed receipt.noteId with
  | nil =>
    rw [hfound] at hiff hview
    by_cases hheld : Held lib repo schema.roles.idKey head receipt.noteId
    · exact freshest_unsought (.inr hheld) hview
    · have hnever : ∀ c ∈ (repo.snapshot head).log,
          ¬Deletes lib repo schema.roles.idKey receipt.noteId c := by
        intro c hc hdeletes
        exact hiff.2 ⟨hheld, c, hc, hdeletes⟩ rfl
      have hnewest : ∀ c, ¬Newest lib repo schema.roles.idKey head receipt.noteId c := by
        rintro c ⟨newer, older, hlog, hdeletes, -⟩
        exact hnever c (by simp [hlog]) hdeletes
      rw [freshest_receipt (originOf_of_nil hview), noNewer_receipt]
      constructor
      · rintro - (⟨-, c, hc, hdeletes, -⟩ | ⟨-, -, c, hc, -⟩ | ⟨-, -, c, hc, -⟩)
        · exact hnever c hc hdeletes
        · exact hnewest c hc
        · exact hnewest c hc
      · intro _ _ c hc hdeletes
        exact absurd hdeletes (hnever c hc)
  | cons first rest =>
    rw [hfound] at hiff hview hfrom
    obtain ⟨hgone, -⟩ := hiff.1 (List.cons_ne_nil _ _)
    obtain ⟨commit, hnewest, hcommit, -⟩ := hfrom first List.mem_cons_self
    by_cases hsame : first.commit = receipt.removalCommit
    · have horigin : originOf lib pass s receipt = ⟨receipt, (observed s receipt.noteId).filter
          fun later => receipt.recordedAt < later.recordedAt⟩ := by
        unfold originOf recoveredFrom
        rw [hview]
        simp [Candidate.removal, hsame]
      have hnone : NoNewer lib schema repo head receipt
          (receipt.removalCommit, receipt.recordedAt) := by
        have hid : commit.id = receipt.removalCommit := hcommit.symm.trans hsame
        rw [← hid, noNewer_newest _ hnewest, hid]
        exact not_newer_self _
      rw [freshest_receipt horigin]
      constructor
      · rintro - (⟨hunread | hheld, -⟩ | ⟨-, -, commit', hnewest', hother, -⟩ |
          ⟨-, -, commit', hnewest', hother, -⟩)
        · exact hunread hread
        · exact hgone hheld
        · rw [newest_unique hnewest' hnewest, ← hcommit] at hother
          exact hother hsame
        · rw [newest_unique hnewest' hnewest, ← hcommit] at hother
          exact hother hsame
      · exact fun _ _ => hnone
    · have horigin : (originOf lib pass s receipt).later = none ∧
          (originOf lib pass s receipt).removal.removalCommit = commit.id := by
        have hnewer : recoveredFrom lib pass (observed s receipt.noteId) receipt =
            ({ receipt with
                path := first.path, contentHash := lib.hash first.data
                removalCommit := first.commit, data := first.data, recordedAt := pass.now },
              .missing, none) := by
          unfold recoveredFrom
          rw [hview]
          exact if_pos hsame
        unfold originOf
        rw [hnewer]
        exact ⟨rfl, hcommit⟩
      have hother : commit.id ≠ receipt.removalCommit := hcommit ▸ hsame
      have htime := removedAt_of_newest hnewest hother
      unfold Freshest
      dsimp only
      rw [horigin.1, horigin.2, htime, noNewer_newest _ hnewest]
      constructor
      · rintro hweighed (⟨hunread | hheld, -⟩ |
          ⟨-, -, commit', hnewest', -, later, hobserved, hlater⟩ |
          ⟨-, -, commit', hnewest', -, hnewer⟩)
        · exact hunread hread
        · exact hgone hheld
        · rw [newest_unique hnewest' hnewest] at hlater
          exact absurd ((hweighed rfl).2 later hobserved) (Int.not_le.2 hlater)
        · rw [newest_unique hnewest' hnewest] at hnewer
          exact (hweighed rfl).1 hnewer
      · intro hmisled _
        refine ⟨fun hnewer => hmisled (.older hread hgone commit hnewest hother hnewer), ?_⟩
        intro later hobserved
        by_contra hlater
        exact hmisled (.dropped hread hgone commit hnewest hother later hobserved
          (Int.not_le.1 hlater))

/-- **Evidence is of the newest removal**, with exactly the path and the bytes asked for. -/
theorem evidence_newest {key : Text} {id : NoteId}
    (h : load lib repo reading key head wanted = .ok removed) (hid : id ∈ wanted)
    {path : RelPath} {digest : PyStr} {now : Instant}
    (hevidence : evidence lib ((candidates removed id).map Candidate.removal) id path digest now =
      some receipt) :
    receipt.noteId = id ∧ receipt.path = path ∧ lib.hash receipt.data = digest ∧
      ∃ commit, Newest lib repo key head id commit ∧ receipt.removalCommit = commit.id ∧
        ∃ d ∈ commit.deletions, d.isNote = true ∧ d.path = path ∧
          receipt.data = repo.objects d.blob := by
  obtain ⟨removal, hfound, rfl⟩ := Option.map_eq_some_iff.1 hevidence
  have hmatch := List.find?_some hfound
  rw [Bool.and_eq_true, beq_iff_eq, beq_iff_eq] at hmatch
  obtain ⟨hpath, hdigest⟩ := hmatch
  have hmem := (List.takeWhile_sublist _).subset (List.mem_of_find?_eq_some hfound)
  obtain ⟨c, hc, rfl⟩ := List.mem_map.1 hmem
  obtain ⟨commit, hnewest, hcommit, hdata, -, d, hd, hnote, hblob, hdpath⟩ :=
    (load_candidates h hid).2 c hc
  exact ⟨rfl, rfl, hdigest, commit, hnewest, hcommit, d, hd, hnote, hdpath.trans hpath,
    hdata.trans (congrArg _ hblob.symm)⟩

/-- The rows a recovery adds show their origins, which are the freshest but for receipts that are
misled. -/
theorem recoverRows_freshest {h h' : GitHistory} {enabled : Bool}
    (hreached : Reached lib repo isValueError h)
    (hrefresh : refresh lib repo reading isValueError (some head) schema.roles.idKey enabled
      (some ((lost pass s).map (·.noteId))) h = .ok h')
    (hview : pass.history = viewOf h') (hrun : recoverRows lib schema pass s = .ok () s') :
    ∃ rows, s'.rows = s.rows ++ rows ∧
      List.Forall₂ (fun receipt row => Shows row (originOf lib pass s receipt)) (lost pass s) rows ∧
      ((∀ receipt ∈ lost pass s,
          Freshest lib schema repo head s receipt (originOf lib pass s receipt)) ↔
        ∀ receipt ∈ lost pass s, ¬Misled lib schema repo head
          (Readable lib repo reading head schema.roles.idKey enabled
            ((lost pass s).map (·.noteId)) h) s receipt) := by
  obtain ⟨rows, hrows, hshown⟩ := recoverRows_rows hrun
  refine ⟨rows, hrows, hshown, forall₂_congr fun receipt hreceipt => ?_⟩
  have hmem : receipt.noteId ∈ (lost pass s).map (·.noteId) := List.mem_map.2 ⟨receipt, hreceipt, rfl⟩
  obtain ⟨hread, reading', wanted, hwanted, hload⟩ | ⟨hunread, hnone⟩ :=
    refresh_wanted hreached.sound hrefresh
  · refine freshest_read hread hload (hwanted hmem) ?_
    rw [hview]
    rfl
  · refine freshest_unsought (.inl hunread) ?_
    rw [hview, viewOf, hnone]
    rfl

/-- What `_load` finds for the identities it is asked for. -/
def FindsNewest (lib : Libraries) (repo : Repo) (key : Text) (head : CommitId)
    (wanted : List NoteId) (removed : Removed) : Prop :=
  ∀ id ∈ wanted, (candidates removed id ≠ [] ↔ ¬Held lib repo key head id ∧
      ∃ commit ∈ (repo.snapshot head).log, Deletes lib repo key id commit) ∧
    ∀ c ∈ candidates removed id, ∃ commit, Newest lib repo key head id commit ∧
      c.commit = commit.id ∧ c.data = repo.objects c.blob ∧ carries lib repo key id c.blob = true ∧
        ∃ d ∈ commit.deletions, d.isNote = true ∧ d.blob = c.blob ∧ d.path = c.path

/-- What `evidence` answers from what was found. -/
def GivesNewest (lib : Libraries) (repo : Repo) (key : Text) (head : CommitId)
    (wanted : List NoteId) (removed : Removed) : Prop :=
  ∀ id ∈ wanted, ∀ path digest now receipt,
    evidence lib ((candidates removed id).map Candidate.removal) id path digest now = some receipt →
      receipt.noteId = id ∧ receipt.path = path ∧ lib.hash receipt.data = digest ∧
        ∃ commit, Newest lib repo key head id commit ∧ receipt.removalCommit = commit.id ∧
          ∃ d ∈ commit.deletions, d.isNote = true ∧ d.path = path ∧
            receipt.data = repo.objects d.blob

/-- A call of `recover_rows` that returned: the state of the history before and after its refresh, and
the store before and after. -/
structure Recovery (lib : Libraries) (schema : FrontmatterSchema) (repo : Repo) (head : CommitId)
    (isValueError : String → Bool) where
  reading : Reading
  enabled : Bool
  before : GitHistory
  after : GitHistory
  pass : Pass
  store : State
  store' : State
  reached : Reached lib repo isValueError before
  refreshed : refresh lib repo reading isValueError (some head) schema.roles.idKey enabled
    (some ((lost pass store).map (·.noteId))) before = .ok after
  view : pass.history = viewOf after
  ran : recoverRows lib schema pass store = .ok () store'

/-- The history is read in this call. -/
def Recovery.Reads (r : Recovery lib schema repo head isValueError) : Prop :=
  Readable lib repo r.reading head schema.roles.idKey r.enabled
    ((lost r.pass r.store).map (·.noteId)) r.before

/-- Every row it seeds is of the newest removal, or of an observation after the receipt. -/
def Recovery.Fresh (r : Recovery lib schema repo head isValueError) : Prop :=
  ∀ receipt ∈ lost r.pass r.store,
    Freshest lib schema repo head r.store receipt (originOf lib r.pass r.store receipt)

/-- The rows it adds show what they are seeded from. -/
def Recovery.Shown (r : Recovery lib schema repo head isValueError) : Prop :=
  ∃ rows, r.store'.rows = r.store.rows ++ rows ∧
    List.Forall₂ (fun receipt row => Shows row (originOf lib r.pass r.store receipt))
      (lost r.pass r.store) rows

/-- **Deletion evidence is the newest one**: what is found, what is given out, and, but for the
receipts that are misled, what rows are seeded from. -/
theorem deletionEvidence_iff (lib : Libraries) (schema : FrontmatterSchema) (repo : Repo)
    (head : CommitId) (isValueError : String → Bool) :
    (∀ reading key wanted removed, load lib repo reading key head wanted = .ok removed →
      FindsNewest lib repo key head wanted removed ∧
        GivesNewest lib repo key head wanted removed) ∧
    ∀ r : Recovery lib schema repo head isValueError, r.Shown ∧
      (r.Fresh ↔ ∀ receipt ∈ lost r.pass r.store,
        ¬Misled lib schema repo head r.Reads r.store receipt) := by
  constructor
  · intro reading key wanted removed hload
    exact ⟨fun id hid => load_candidates hload hid,
      fun id hid path digest now receipt hevidence => evidence_newest hload hid hevidence⟩
  · intro r
    obtain ⟨rows, hrows, hshown, hiff⟩ :=
      recoverRows_freshest r.reached r.refreshed r.view r.ran
    exact ⟨⟨rows, hrows, hshown⟩, hiff⟩

end Recovered

section Samples

open Coppermind.Notes (plainLibraries plainSchema)

def sampleId : Text := "01ARZ3NDEKTSV4RRFFQ69G5FAW".toList

/-- A note with one line of body. -/
def sampleNote (line : String) : FileBytes :=
  .utf8 ("---\nid: ".toList ++ sampleId ++ "\n---\n".toList ++ line.toList ++ [lf])

def sampleDeletion (blob : String) : Deletion := ⟨"100644".toList, blob.toList, PyStr.lit "Notes/a.md"⟩

/-- A note that was deleted twice, the first time at 10 and the second time at 30. -/
def deletedTwice : Snapshot where
  log := [⟨PyStr.lit "c3", 30, [sampleDeletion "new"]⟩, ⟨PyStr.lit "c1", 10, [sampleDeletion "old"]⟩]
  distinct := by decide
  tree := []

def sampleRepo : Repo where
  snapshot _ := deletedTwice
  objects blob := sampleNote (String.ofList blob)

def sampleReading : Reading := ⟨true, fun _ => none⟩

/-- The receipt of the first removal. -/
def firstReceipt : Receipt where
  noteId := PyStr.ofText sampleId
  path := PyStr.lit "Notes/a.md"
  contentHash := plainLibraries.hash (sampleNote "old")
  removalCommit := PyStr.lit "c1"
  data := sampleNote "old"
  recordedAt := 11

/-- The note as it was seen at 40, after its second removal. -/
def laterReturn : ObservedReturn where
  path := PyStr.lit "Notes/a.md"
  contentHash := plainLibraries.hash (sampleNote "newest")
  frontmatter := []
  sizeBytes := 0
  title := none
  recordedAt := 40

/-- A store that has lost its rows. -/
def emptied (returns : List (NoteId × ObservedReturn)) : State :=
  { Reconciler.emptyStore with receipts := [firstReceipt], returns }

/-- A pass over this history. -/
def passWith (h : GitHistory) : Pass :=
  { Reconciler.plainWorld with history := viewOf h }.pass (Reconciler.cheapTurn 50) []

def sampleRefresh : Except Failure GitHistory :=
  refresh plainLibraries sampleRepo sampleReading (fun _ => false) (some (PyStr.lit "c3"))
    plainSchema.roles.idKey true (some [PyStr.ofText sampleId]) {}

/-- The history once it is read. -/
def walked : GitHistory := sampleRefresh.toOption.getD {}

theorem sampleRefresh_eq : sampleRefresh = .ok walked := by
  have hok : sampleRefresh.isOk = true := by decide +kernel
  unfold walked
  cases h : sampleRefresh with
  | error e =>
    rw [h] at hok
    cases hok
  | ok h => rfl

/-- Whether a run returned. -/
def returned (x : EStateM.Result Reconciler.Raised State Unit) : Bool :=
  match x with
  | .ok _ _ => true
  | .error _ _ => false

theorem eq_ok_of_returned {x : EStateM.Result Reconciler.Raised State Unit}
    (h : returned x = true) : x = .ok () (finalState x) := by
  cases x with
  | ok _ _ => rfl
  | error _ _ => cases h

/-- The recovery of that store, where it was observed like this. -/
def recoveryOf (returns : List (NoteId × ObservedReturn))
    (hran : returned (recoverRows plainLibraries plainSchema (passWith walked) (emptied returns)) =
      true) :
    Recovery plainLibraries plainSchema sampleRepo (PyStr.lit "c3") fun _ => false where
  reading := sampleReading
  enabled := true
  before := {}
  after := walked
  pass := passWith walked
  store := emptied returns
  store' := finalState (recoverRows plainLibraries plainSchema (passWith walked) (emptied returns))
  reached := .new
  refreshed := sampleRefresh_eq
  view := rfl
  ran := eq_ok_of_returned hran

/-- The first removal is newer than none. -/
theorem firstReceipt_oldest {id : NoteId} {key : Text} (commit : Commit)
    (hnewest : Newest plainLibraries sampleRepo key (PyStr.lit "c3") id commit) :
    ¬Newer sampleRepo (PyStr.lit "c3") (firstReceipt.removalCommit, firstReceipt.recordedAt)
      (commit.id, commit.time) := by
  have hfirst : Logged sampleRepo (PyStr.lit "c3") firstReceipt.removalCommit := by
    unfold Logged
    decide
  obtain ⟨newer, older, hlog, -⟩ := hnewest
  rintro (⟨-, -, newer', c, older', hlog', -, habove⟩ | ⟨hunlogged, -⟩)
  · change deletedTwice.log = _ at hlog'
    cases newer' with
    | nil => cases habove
    | cons x rest =>
      obtain ⟨rfl, hrest⟩ := List.cons.inj hlog'
      cases rest with
      | nil => exact absurd (List.mem_singleton.1 habove) (by decide)
      | cons y rest =>
        obtain ⟨-, hnil⟩ := List.cons.inj hrest
        simp at hnil
  · exact hunlogged ⟨hfirst, logged_of_mem (by rw [hlog]; simp)⟩

/-- Without an observation, the row is that of the second removal. -/
theorem deletionEvidence_iff_twice :
    ∃ hran, (recoveryOf [] hran).Fresh := by
  have hran : returned (recoverRows plainLibraries plainSchema (passWith walked) (emptied [])) =
      true := by decide +kernel
  refine ⟨hran, ((deletionEvidence_iff plainLibraries plainSchema sampleRepo (PyStr.lit "c3")
    fun _ => false).2 (recoveryOf [] hran)).2.2 ?_⟩
  rintro receipt hreceipt (⟨hunread | ⟨e, he, -⟩, -⟩ | ⟨-, -, commit, -, -, later, hobserved, -⟩ |
    ⟨-, -, commit, hnewest, -, hnewer⟩)
  · have hok : (load plainLibraries sampleRepo sampleReading plainSchema.roles.idKey
        (PyStr.lit "c3") [PyStr.ofText sampleId]).isOk = true := by decide +kernel
    refine hunread ⟨rfl, Or.inr ?_⟩
    change ∃ removed, load plainLibraries sampleRepo sampleReading plainSchema.roles.idKey
      (PyStr.lit "c3") [PyStr.ofText sampleId] = .ok removed
    cases hload : load plainLibraries sampleRepo sampleReading plainSchema.roles.idKey
        (PyStr.lit "c3") [PyStr.ofText sampleId] with
    | error e =>
      rw [hload] at hok
      cases hok
    | ok removed => exact ⟨removed, rfl⟩
  · cases he
  · cases hobserved
  · obtain rfl : receipt = firstReceipt := List.mem_singleton.1 hreceipt
    exact firstReceipt_oldest commit hnewest hnewer

/-- The note was seen at 40; its row is that of the removal at 30. -/
theorem recoverRows_drops : ∃ hran,
    ¬(recoveryOf [(PyStr.ofText sampleId, laterReturn)] hran).Fresh := by
  have hran : returned (recoverRows plainLibraries plainSchema (passWith walked)
      (emptied [(PyStr.ofText sampleId, laterReturn)])) = true := by decide +kernel
  refine ⟨hran, fun hfresh => ?_⟩
  have hlost : firstReceipt ∈
      lost (passWith walked) (emptied [(PyStr.ofText sampleId, laterReturn)]) :=
    List.mem_singleton.2 rfl
  have hnone : (originOf plainLibraries (passWith walked)
      (emptied [(PyStr.ofText sampleId, laterReturn)]) firstReceipt).later.isNone = true := by
    decide +kernel
  have hcommit : (originOf plainLibraries (passWith walked)
      (emptied [(PyStr.ofText sampleId, laterReturn)]) firstReceipt).removal.removalCommit =
        PyStr.lit "c3" := by
    decide +kernel
  have hlater := (hfresh firstReceipt hlost (Option.isNone_iff_eq_none.1 hnone)).2 laterReturn rfl
  change (40 : Int) ≤ removedAt sampleRepo (PyStr.lit "c3") firstReceipt (originOf plainLibraries
    (passWith walked) (emptied [(PyStr.ofText sampleId, laterReturn)])
      firstReceipt).removal.removalCommit at hlater
  rw [hcommit] at hlater
  exact absurd hlater (by decide +kernel)

end Samples

end Coppermind.NoteHistory
