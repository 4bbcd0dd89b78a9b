import Coppermind.Lib.Effect
import Coppermind.Lib.Grouped
import Coppermind.Notes.Adoption

/-!
# Removals in the Git history

`GitHistory._load` reads the deletions of the first-parent history, newest first, groups them by
blob and reads the blobs until every wanted identity has one.  What it finds for an identity is of
the newest commit that deleted a file carrying it, and it finds nothing for an identity that HEAD
still holds.
-/

namespace Coppermind.NoteHistory

open Coppermind.Lib Coppermind.Lib.Text Coppermind.Frontmatter Coppermind.Schema
open Coppermind.Artifacts (isValidId)
open Coppermind.Notes (NoteId RelPath FileBytes Instant Libraries)

/-- The name of a commit. -/
abbrev CommitId := PyStr

/-- The name of a blob. -/
abbrev Blob := Text

/-- A file that a commit deletes. -/
structure Deletion where
  mode : Text
  blob : Blob
  path : RelPath

/-- A commit, with what it deletes of its first parent's tree. -/
structure Commit where
  id : CommitId
  time : Instant
  deletions : List Deletion

/-- An entry of `git ls-tree -r`. -/
structure TreeEntry where
  mode : Text
  kind : Text
  blob : Blob
  path : RelPath

/-- The first-parent history of a commit, newest first, and its tree. -/
structure Snapshot where
  log : List Commit
  distinct : (log.map (·.id)).Nodup
  tree : List TreeEntry

/-- A repository: what its names stand for. -/
structure Repo where
  snapshot : CommitId → Snapshot
  objects : Blob → FileBytes

/-- How reading a repository goes. -/
structure Reading where
  /-- `git log` and `git ls-tree` answer. -/
  lists : Bool
  /-- How many of these blobs are read before reading them fails, if it does. -/
  cut : List Blob → Option Nat

/-- What ends reading history: `HistoryUnavailable`, or an exception of a class. -/
inductive Failure where
  | unavailable
  | python (className : String)

/-- A field of `git log --raw -z`, without the line feed before it. -/
inductive Field where
  | commit (id : CommitId)
  | raw (mode : Text) (blob : Blob)
  | path (path : RelPath)

/-- `(commit, blob, path)`. -/
structure Removal where
  commit : CommitId
  blob : Blob
  path : RelPath

/-- `(commit, blob, path, data)`. -/
structure Candidate where
  commit : CommitId
  blob : Blob
  path : RelPath
  data : FileBytes

/-- `removed`, newest candidates first under each identity. -/
abbrev Removed := List (NoteId × List Candidate)

def deletionFields (deletions : List Deletion) : List Field :=
  deletions.flatMap fun d => [.raw d.mode d.blob, .path d.path]

/-- The fields of a commit in `git log --raw -z --diff-filter=D`. -/
def Commit.fields (commit : Commit) : List Field :=
  .commit commit.id :: deletionFields commit.deletions

/-- The mode of a regular file. -/
def isRegular (mode : Text) : Bool := mode == "100644".toList || mode == "100755".toList

/-- `path.endswith(".md")`. -/
def isMarkdown (path : RelPath) : Bool := (PyStr.lit ".md").isSuffixOf path

def Deletion.isNote (d : Deletion) : Bool := isRegular d.mode && isMarkdown d.path

def TreeEntry.isNote (e : TreeEntry) : Bool :=
  e.kind == "blob".toList && isRegular e.mode && isMarkdown e.path

/-- The loop over the fields; a field with a mode takes the one after it as its path. -/
def removalsOf : CommitId → List Field → List Removal
  | _, [] => []
  | commit, .raw mode blob :: .path path :: rest =>
    if isRegular mode && isMarkdown path then ⟨commit, blob, path⟩ :: removalsOf commit rest
    else removalsOf commit rest
  | _, .commit id :: rest => removalsOf id rest
  | commit, _ :: rest => removalsOf commit rest

section Load

variable (lib : Libraries) (repo : Repo) (reading : Reading) (key : Text)

/-- `identity`. -/
def identity (data : FileBytes) : Except Failure (Option NoteId) :=
  match data with
  | .other _ => .ok none
  | .utf8 text =>
    match Notes.parse lib.yaml text with
    | .error (.frontmatter _) => .ok none
    | .error (.python className) => .error (.python className)
    | .ok (frontmatter, _) =>
      match frontmatter.get? key with
      | some (.str value) => .ok (if isValidId value then some (PyStr.ofText value) else none)
      | _ => .ok none

/-- `blobs`: what is yielded, and whether that is all. -/
def blobs (names : List Blob) : List Blob × Bool :=
  match reading.cut names with
  | some n => (names.take n, false)
  | none => (names, true)

/-- The identities of the notes in the tree, each blob of which is read. -/
def liveIds (names : List Blob) : Except Failure (List NoteId) := do
  let ids ← (blobs reading names).1.mapM fun blob => identity lib key (repo.objects blob)
  if (blobs reading names).2 then return ids.filterMap id else throw .unavailable

/-- The candidates a blob gives: of its deletions the ones of the newest commit. -/
def candidatesOf (blob : Blob) (deletions : List Removal) : List Candidate :=
  (deletions.filter fun r => deletions.head?.any fun latest => r.commit == latest.commit).map
    fun r => ⟨r.commit, blob, r.path, repo.objects blob⟩

/-- The loop over the deleted blobs: what is found, and the identities still outstanding. -/
def seek : List (Blob × List Removal) → List NoteId → Removed →
    Except Failure (Removed × List NoteId)
  | [], outstanding, removed => .ok (removed, outstanding)
  | (blob, deletions) :: rest, outstanding, removed => do
    match ← identity lib key (repo.objects blob) with
    | none => seek rest outstanding removed
    | some id =>
      if id ∈ outstanding then
        let removed := removed ++ [(id, candidatesOf repo blob deletions)]
        let outstanding := outstanding.filter (· ≠ id)
        if outstanding = [] then return (removed, []) else seek rest outstanding removed
      else seek rest outstanding removed

/-- The deleted blobs are read until nothing is outstanding. -/
def search (byBlob : List (Blob × List Removal)) (outstanding : List NoteId) :
    Except Failure Removed :=
  if outstanding = [] then .ok []
  else do
    let read := blobs reading (byBlob.map (·.1))
    let (removed, left) ← seek lib repo key (byBlob.take read.1.length) outstanding []
    if !read.2 && left ≠ [] then throw .unavailable else return removed

/-- The notes of the tree. -/
def Snapshot.notes (snapshot : Snapshot) : List Blob :=
  (snapshot.tree.filter (·.isNote)).map (·.blob)

/-- `_load`. -/
def load (head : CommitId) (wanted : List NoteId) : Except Failure Removed :=
  if !reading.lists then .error .unavailable
  else do
    let snapshot := repo.snapshot head
    let removals := removalsOf [] (snapshot.log.flatMap Commit.fields)
    let live ← liveIds lib repo reading key snapshot.notes
    search lib repo reading key (grouped (·.blob) removals) (wanted.filter (· ∉ live))

/-- `removed.get(id, [])`. -/
def candidates (removed : Removed) (id : NoteId) : List Candidate :=
  ((removed.find? (·.1 == id)).map (·.2)).getD []

/-- The file with this blob carries the identity. -/
def carries (id : NoteId) (blob : Blob) : Bool :=
  match identity lib key (repo.objects blob) with
  | .ok (some carried) => carried == id
  | _ => false

/-- The commit deletes a note that carries the identity. -/
def Deletes (id : NoteId) (commit : Commit) : Prop :=
  ∃ d ∈ commit.deletions, d.isNote = true ∧ carries lib repo key id d.blob = true

/-- The tree holds a note that carries the identity. -/
def Held (head : CommitId) (id : NoteId) : Prop :=
  ∃ e ∈ (repo.snapshot head).tree, e.isNote = true ∧ carries lib repo key id e.blob = true

/-- The newest commit that deletes a note which carries the identity. -/
def Newest (head : CommitId) (id : NoteId) (commit : Commit) : Prop :=
  ∃ newer older, (repo.snapshot head).log = newer ++ commit :: older ∧
    Deletes lib repo key id commit ∧ ∀ c ∈ newer, ¬Deletes lib repo key id c

end Load

section Fields

/-- The notes a commit deletes. -/
def Commit.removals (commit : Commit) : List Removal :=
  (commit.deletions.filter (·.isNote)).map fun d => ⟨commit.id, d.blob, d.path⟩

theorem removalsOf_deletions (commit : CommitId) (deletions : List Deletion) (rest : List Field) :
    removalsOf commit (deletionFields deletions ++ rest) =
      ((deletions.filter (·.isNote)).map fun d => ⟨commit, d.blob, d.path⟩) ++
        removalsOf commit rest := by
  induction deletions with
  | nil => rfl
  | cons d deletions ih =>
    change (if d.isNote then
      ⟨commit, d.blob, d.path⟩ :: removalsOf commit (deletionFields deletions ++ rest)
      else removalsOf commit (deletionFields deletions ++ rest)) = _
    by_cases hnote : d.isNote = true
    · rw [List.filter_cons_of_pos hnote, if_pos hnote]
      exact congrArg _ ih
    · rw [List.filter_cons_of_neg hnote, if_neg hnote]
      exact ih

/-- The removals are those of the commits, in the order of the log. -/
theorem removalsOf_log (first : CommitId) (log : List Commit) :
    removalsOf first (log.flatMap Commit.fields) = log.flatMap Commit.removals := by
  induction log generalizing first with
  | nil => rfl
  | cons commit log ih =>
    rw [List.flatMap_cons, List.flatMap_cons, Commit.fields, List.cons_append]
    change removalsOf commit.id _ = _
    rw [removalsOf_deletions, ih]
    rfl

end Fields

section Found

variable {lib : Libraries} {repo : Repo} {reading : Reading} {key : Text} {head : CommitId}
  {wanted outstanding outstanding' : List NoteId} {removed removed' : Removed} {id : NoteId}
  {groups : List (Blob × List Removal)}

theorem carries_iff {blob : Blob} {carried : Option NoteId}
    (h : identity lib key (repo.objects blob) = .ok carried) :
    carries lib repo key id blob = true ↔ carried = some id := by
  unfold carries
  rw [h]
  cases carried with
  | none => simp
  | some other => simp

theorem candidates_append_of_ne {other : NoteId} (h : other ≠ id) (found : List Candidate) :
    candidates (removed ++ [(other, found)]) id = candidates removed id := by
  unfold candidates
  rw [List.find?_append]
  have hnone : [(other, found)].find? (·.1 == id) = none := by simp [h]
  rw [hnone, Option.or_none]

theorem candidates_append_self (h : id ∉ removed.map (·.1)) (found : List Candidate) :
    candidates (removed ++ [(id, found)]) id = found := by
  unfold candidates
  have hnone : removed.find? (·.1 == id) = none := by
    rw [List.find?_eq_none]
    intro e he heq
    exact h (List.mem_map.2 ⟨e, he, by simpa using heq⟩)
  rw [List.find?_append, hnone]
  simp

/-- What the loop finds for an identity that is outstanding: the first blob that carries it. -/
def firstFound (lib : Libraries) (repo : Repo) (key : Text) (groups : List (Blob × List Removal))
    (id : NoteId) : Option (Blob × List Removal) :=
  groups.find? fun group => carries lib repo key id group.1

/-- **The loop over the blobs**: each outstanding identity gets the candidates of the first blob that
carries it, and stays outstanding where no blob does. -/
theorem seek_found (h : seek lib repo key groups outstanding removed = .ok (removed', outstanding'))
    (hapart : ∀ id ∈ outstanding, id ∉ removed.map (·.1)) :
    (∀ id ∈ outstanding, candidates removed' id = (firstFound lib repo key groups id).elim []
      fun group => candidatesOf repo group.1 group.2) ∧
    (∀ id ∉ outstanding, candidates removed' id = candidates removed id) ∧
    ∀ id, id ∈ outstanding' ↔ id ∈ outstanding ∧ firstFound lib repo key groups id = none := by
  induction groups generalizing outstanding removed with
  | nil =>
    obtain ⟨rfl, rfl⟩ := Prod.mk.inj (Except.ok.inj h)
    refine ⟨fun id hid => ?_, fun _ _ => rfl, fun id => by simp [firstFound]⟩
    unfold candidates
    have hnone : removed.find? (·.1 == id) = none := by
      rw [List.find?_eq_none]
      intro e he heq
      exact hapart id hid (List.mem_map.2 ⟨e, he, by simpa using heq⟩)
    rw [hnone]
    rfl
  | cons group rest ih =>
    obtain ⟨blob, deletions⟩ := group
    rw [seek] at h
    cases hidentity : identity lib key (repo.objects blob) with
    | error e =>
      rw [hidentity] at h
      cases h
    | ok carried =>
      rw [hidentity] at h
      have hskip : ∀ id, carries lib repo key id blob = false →
          firstFound lib repo key ((blob, deletions) :: rest) id =
            firstFound lib repo key rest id := by
        intro id hcarries
        exact List.find?_cons_of_neg (by simp [hcarries])
      have hcarries : ∀ id, carries lib repo key id blob = true ↔ carried = some id :=
        fun id => carries_iff hidentity
      have hpass : (∀ id ∈ outstanding, carried ≠ some id) →
          seek lib repo key rest outstanding removed = .ok (removed', outstanding') →
          (∀ id ∈ outstanding, candidates removed' id =
            (firstFound lib repo key ((blob, deletions) :: rest) id).elim [] fun group =>
              candidatesOf repo group.1 group.2) ∧
          (∀ id ∉ outstanding, candidates removed' id = candidates removed id) ∧
          ∀ id, id ∈ outstanding' ↔ id ∈ outstanding ∧
            firstFound lib repo key ((blob, deletions) :: rest) id = none := by
        intro hother hrest
        obtain ⟨hfound, hkept, hleft⟩ := ih hrest hapart
        have hsame : ∀ id ∈ outstanding, firstFound lib repo key ((blob, deletions) :: rest) id =
            firstFound lib repo key rest id := fun id hid =>
          hskip id (Bool.eq_false_iff.2 fun hc => hother id hid ((hcarries id).1 hc))
        refine ⟨fun id hid => by rw [hsame id hid, hfound id hid], hkept, fun id => ?_⟩
        rw [hleft id]
        constructor
        · rintro ⟨hid, hnone⟩
          exact ⟨hid, (hsame id hid).trans hnone⟩
        · rintro ⟨hid, hnone⟩
          exact ⟨hid, (hsame id hid).symm.trans hnone⟩
      cases carried with
      | none => exact hpass (fun _ _ h => by cases h) h
      | some other =>
        change (if other ∈ outstanding then _ else _) = _ at h
        by_cases hmem : other ∈ outstanding
        · rw [if_pos hmem] at h
          have hfresh := hapart other hmem
          have hfirst : firstFound lib repo key ((blob, deletions) :: rest) other =
              some (blob, deletions) :=
            List.find?_cons_of_pos ((hcarries other).2 rfl)
          have hnext : ∀ id, other ≠ id → firstFound lib repo key ((blob, deletions) :: rest) id =
              firstFound lib repo key rest id := fun id hne =>
            hskip id (Bool.eq_false_iff.2 fun hc => hne (Option.some.inj ((hcarries id).1 hc)))
          have hremaining : ∀ id, id ∈ outstanding.filter (· ≠ other) ↔ id ∈ outstanding ∧ id ≠ other := by
            intro id
            simp
          by_cases hlast : outstanding.filter (· ≠ other) = []
          · -- Nothing else is outstanding: the loop ends.
            rw [if_pos hlast] at h
            obtain ⟨rfl, rfl⟩ := Prod.mk.inj (Except.ok.inj h)
            have honly : ∀ id ∈ outstanding, id = other := by
              intro id hid
              by_contra hne
              have hin := (hremaining id).2 ⟨hid, hne⟩
              rw [hlast] at hin
              cases hin
            refine ⟨fun id hid => ?_, fun id hid => ?_, fun id => ?_⟩
            · obtain rfl := honly id hid
              rw [hfirst, candidates_append_self hfresh]
              rfl
            · apply candidates_append_of_ne
              rintro rfl
              exact hid hmem
            · constructor
              · intro hid
                cases hid
              · rintro ⟨hid, hnone⟩
                obtain rfl := honly id hid
                rw [hfirst] at hnone
                cases hnone
          · rw [if_neg hlast] at h
            obtain ⟨hfound, hkept, hleft⟩ := ih h (by
              intro id hid hin
              obtain ⟨hid, hne⟩ := (hremaining id).1 hid
              rw [List.map_append, List.mem_append] at hin
              obtain hin | hin := hin
              · exact hapart id hid hin
              · exact hne (by simpa using hin))
            refine ⟨fun id hid => ?_, fun id hid => ?_, fun id => ?_⟩
            · by_cases hne : other = id
              · subst hne
                have hnot : other ∉ outstanding.filter (· ≠ other) := by simp
                rw [hkept _ hnot, hfirst, candidates_append_self hfresh]
                rfl
              · rw [hfound id ((hremaining id).2 ⟨hid, Ne.symm hne⟩), hnext id hne]
            · have hnot : id ∉ outstanding.filter (· ≠ other) := fun h => hid ((hremaining id).1 h).1
              rw [hkept id hnot]
              apply candidates_append_of_ne
              rintro rfl
              exact hid hmem
            · rw [hleft id, hremaining id]
              by_cases hne : other = id
              · subst hne
                simp [hfirst]
              · simp [hnext id hne, Ne.symm hne]
        · rw [if_neg hmem] at h
          refine hpass ?_ h
          rintro id hid heq
          exact hmem (Option.some.inj heq ▸ hid)

theorem mem_liveIds {names : List Blob} {live : List NoteId}
    (h : liveIds lib repo reading key names = .ok live) :
    id ∈ live ↔ ∃ blob ∈ names, carries lib repo key id blob = true := by
  unfold liveIds blobs at h
  cases hcut : reading.cut names with
  | some n =>
    rw [hcut] at h
    cases hids : (names.take n).mapM fun blob => identity lib key (repo.objects blob) <;>
      rw [hids] at h <;> cases h
  | none =>
    rw [hcut] at h
    cases hids : names.mapM fun blob => identity lib key (repo.objects blob) with
    | error e =>
      rw [hids] at h
      cases h
    | ok ids =>
      rw [hids] at h
      obtain rfl := Except.ok.inj h
      have hall := mapM_eq_ok.1 hids
      rw [List.mem_filterMap]
      constructor
      · rintro ⟨carried, hmem, rfl⟩
        obtain ⟨blob, hblob, hok⟩ := forall₂_mem_left hall.flip hmem
        exact ⟨blob, hblob, (carries_iff hok).2 rfl⟩
      · rintro ⟨blob, hblob, hc⟩
        obtain ⟨carried, hmem, hok⟩ := forall₂_mem_left hall hblob
        exact ⟨carried, hmem, (carries_iff hok).1 hc⟩

theorem deletes_iff {commit : Commit} : Deletes lib repo key id commit ↔
    ∃ r ∈ commit.removals, carries lib repo key id r.blob = true := by
  unfold Deletes Commit.removals
  simp only [List.mem_map, List.mem_filter]
  constructor
  · rintro ⟨d, hd, hnote, hcarries⟩
    exact ⟨_, ⟨d, ⟨hd, hnote⟩, rfl⟩, hcarries⟩
  · rintro ⟨-, ⟨d, ⟨hd, hnote⟩, rfl⟩, hcarries⟩
    exact ⟨d, hd, hnote, hcarries⟩

theorem commit_of_mem_removals {commit : Commit} {r : Removal} (h : r ∈ commit.removals) :
    r.commit = commit.id := by
  obtain ⟨d, -, rfl⟩ := List.mem_map.1 h
  rfl

/-- The notes the history of a commit deletes, newest first. -/
def Snapshot.removals (snapshot : Snapshot) : List Removal := snapshot.log.flatMap Commit.removals

/-- The first removal of a file with the identity. -/
def firstRemoval (lib : Libraries) (repo : Repo) (key : Text) (head : CommitId) (id : NoteId) :
    Option Removal :=
  (repo.snapshot head).removals.find? fun r => carries lib repo key id r.blob

/-- What the search finds for an outstanding identity. -/
theorem search_found (h : search lib repo reading key groups outstanding = .ok removed) :
    (∀ id ∈ outstanding, candidates removed id = (firstFound lib repo key groups id).elim []
      fun group => candidatesOf repo group.1 group.2) ∧
    ∀ id ∉ outstanding, candidates removed id = [] := by
  unfold search at h
  split at h
  · next hnone =>
    obtain rfl := Except.ok.inj h
    exact ⟨fun id hid => absurd (hnone ▸ hid) List.not_mem_nil, fun _ _ => rfl⟩
  · cases hseek : seek lib repo key (groups.take (blobs reading (groups.map (·.1))).1.length)
        outstanding [] with
    | error e =>
      change (seek lib repo key _ outstanding []).bind _ = _ at h
      rw [hseek] at h
      cases h
    | ok result =>
      obtain ⟨found, left⟩ := result
      change (seek lib repo key _ outstanding []).bind _ = _ at h
      rw [hseek] at h
      change (if _ then Except.error Failure.unavailable else Except.ok found) = Except.ok removed at h
      split at h
      · cases h
      · next hread =>
        obtain rfl := Except.ok.inj h
        obtain ⟨hfound, hkept, hleft⟩ := seek_found hseek (by simp)
        refine ⟨fun id hid => ?_, fun id hid => hkept id hid⟩
        rw [hfound id hid]
        congr 1
        unfold firstFound
        -- Either every blob was read, or what was read was enough.
        by_cases hleft' : left = []
        · have hsome : firstFound lib repo key (groups.take
              (blobs reading (groups.map (·.1))).1.length) id ≠ none := by
            intro hnone
            have hin := (hleft id).2 ⟨hid, hnone⟩
            rw [hleft'] at hin
            cases hin
          obtain ⟨group, hgroup⟩ := Option.ne_none_iff_exists'.1 hsome
          unfold firstFound at hgroup
          have hall : groups.find? (fun group => carries lib repo key id group.1) = some group := by
            rw [← List.take_append_drop (blobs reading (groups.map (·.1))).1.length groups,
              List.find?_append, hgroup, Option.some_or]
          rw [hgroup, hall]
        · have hcomplete : (blobs reading (groups.map (·.1))).2 = true := by
            simpa [hleft'] using hread
          unfold blobs at hcomplete ⊢
          cases hcut : reading.cut (groups.map (·.1)) with
          | some n =>
            rw [hcut] at hcomplete
            cases hcomplete
          | none =>
            dsimp only
            rw [List.length_map, List.take_length]

/-- What `_load` returned: nothing for what HEAD holds, and else the copies that the commit of the
first removal deleted with its blob. -/
theorem candidates_load (h : load lib repo reading key head wanted = .ok removed)
    (hid : id ∈ wanted) : (Held lib repo key head id ∧ candidates removed id = []) ∨
      (¬Held lib repo key head id ∧ candidates removed id =
        (firstRemoval lib repo key head id).elim [] fun first =>
          (((repo.snapshot head).removals.filter fun r => r.blob = first.blob).filter
            fun r => r.commit == first.commit).map
              fun r => ⟨r.commit, first.blob, r.path, repo.objects first.blob⟩) := by
  unfold load at h
  split at h
  · cases h
  · change (liveIds lib repo reading key (repo.snapshot head).notes).bind (fun live =>
      search lib repo reading key (grouped (·.blob) (removalsOf [] _))
        (wanted.filter (· ∉ live))) = _ at h
    rw [removalsOf_log] at h
    cases hlive : liveIds lib repo reading key (repo.snapshot head).notes with
    | error e =>
      rw [hlive] at h
      cases h
    | ok live =>
      rw [hlive] at h
      obtain ⟨hfound, hnone⟩ := search_found h
      have hheld : id ∈ live ↔ Held lib repo key head id := by
        rw [mem_liveIds hlive]
        unfold Held Snapshot.notes
        simp only [List.mem_map, List.mem_filter]
        constructor
        · rintro ⟨-, ⟨e, ⟨he, hnote⟩, rfl⟩, hc⟩
          exact ⟨e, he, hnote, hc⟩
        · rintro ⟨e, he, hnote, hc⟩
          exact ⟨_, ⟨e, ⟨he, hnote⟩, rfl⟩, hc⟩
      by_cases hid' : id ∈ live
      · exact Or.inl ⟨hheld.1 hid', hnone id (by simp [hid'])⟩
      · refine Or.inr ⟨fun h => hid' (hheld.2 h), ?_⟩
        rw [hfound id (by simp [hid, hid'])]
        unfold firstFound firstRemoval
        rw [find?_grouped Removal.blob (carries lib repo key id)]
        change (((repo.snapshot head).removals.find? fun r => carries lib repo key id r.blob).map
          fun first => (first.blob, (repo.snapshot head).removals.filter
            fun r => r.blob = first.blob)).elim [] _ = _
        cases hfirst : (repo.snapshot head).removals.find? fun r => carries lib repo key id r.blob with
        | none => rfl
        | some first =>
          have hhead := head?_filter_key Removal.blob hfirst
          change candidatesOf repo first.blob _ = _
          unfold candidatesOf
          rw [hhead]
          rfl

/-- **What `_load` finds** for an identity it was asked for. -/
theorem load_candidates (h : load lib repo reading key head wanted = .ok removed)
    (hid : id ∈ wanted) :
    (candidates removed id ≠ [] ↔ ¬Held lib repo key head id ∧
      ∃ commit ∈ (repo.snapshot head).log, Deletes lib repo key id commit) ∧
    ∀ c ∈ candidates removed id, ∃ commit, Newest lib repo key head id commit ∧
      c.commit = commit.id ∧ c.data = repo.objects c.blob ∧ carries lib repo key id c.blob = true ∧
        ∃ d ∈ commit.deletions, d.isNote = true ∧ d.blob = c.blob ∧ d.path = c.path := by
  obtain ⟨hheld, hnone⟩ | ⟨hheld, hsome⟩ := candidates_load h hid
  · rw [hnone]
    simp [hheld]
  rw [hsome]
  cases hfirst : firstRemoval lib repo key head id with
  | none =>
    refine ⟨⟨fun hne => absurd rfl hne, ?_⟩, by simp⟩
    rintro ⟨-, commit, hcommit, hdeletes⟩
    obtain ⟨r, hr, hcarries⟩ := deletes_iff.1 hdeletes
    exact absurd hcarries (List.find?_eq_none.1 hfirst r (List.mem_flatMap.2 ⟨commit, hcommit, hr⟩))
  | some first =>
    obtain ⟨newer, commit, older, hlog, hmem, hnewer⟩ := exists_of_find?_flatMap hfirst
    have hcarries := List.find?_some hfirst
    have hdeletes : Deletes lib repo key id commit := deletes_iff.2 ⟨first, hmem, hcarries⟩
    have hin : commit ∈ (repo.snapshot head).log := by simp [hlog]
    have hnewest : Newest lib repo key head id commit := by
      refine ⟨newer, older, hlog, hdeletes, fun c hc hdeleted => ?_⟩
      obtain ⟨r, hr, hcarried⟩ := deletes_iff.1 hdeleted
      rw [hnewer c hc r hr] at hcarried
      cases hcarried
    have hof : ∀ r ∈ (repo.snapshot head).removals, r.commit = commit.id → r ∈ commit.removals := by
      intro r hr hid
      obtain ⟨c, hc, hmemc⟩ := List.mem_flatMap.1 hr
      have hidc : r.commit = c.id := commit_of_mem_removals hmemc
      obtain rfl := List.inj_on_of_nodup_map (repo.snapshot head).distinct hc hin
        (hidc.symm.trans hid)
      exact hmemc
    have hfirstid : first.commit = commit.id := commit_of_mem_removals hmem
    rw [Option.elim_some]
    refine ⟨⟨fun _ => ⟨hheld, commit, hin, hdeletes⟩, fun _ => ?_⟩, ?_⟩
    · intro hempty
      have hmemfirst : first ∈ ((repo.snapshot head).removals.filter fun r =>
          r.blob = first.blob).filter fun r => r.commit == first.commit := by
        simp [Snapshot.removals, hlog, hmem]
      rw [List.map_eq_nil_iff] at hempty
      rw [hempty] at hmemfirst
      cases hmemfirst
    · intro c hc
      obtain ⟨r, hr, rfl⟩ := List.mem_map.1 hc
      simp only [List.mem_filter, decide_eq_true_eq, beq_iff_eq] at hr
      obtain ⟨⟨hr, hblob⟩, hcommit⟩ := hr
      obtain ⟨d, hd, rfl⟩ := List.mem_map.1 (hof r hr (hcommit.trans hfirstid))
      obtain ⟨hd, hnote⟩ := List.mem_filter.1 hd
      exact ⟨commit, hnewest, hcommit.trans hfirstid, rfl, hcarries, d, hd, hnote, hblob, rfl⟩

end Found

end Coppermind.NoteHistory
