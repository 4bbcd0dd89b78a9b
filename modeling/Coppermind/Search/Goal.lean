import Coppermind.Search.Recording

/-!
# The index that a mirror at rest leads to

Of a world, `goal` says which document the index is to have at a key: what a stale row reads as, or
what the index has already, unless it is obsolete.  While nothing else changes, cleaning, recording
a batch and indexing an artifact leave the goal as it is, and open no row.
-/

namespace Coppermind.Search

open Coppermind.Lib Coppermind.Lib.Text Coppermind.Frontmatter

section Goals

variable (env : Env) (w : World)

/-- The path of the row, whatever its mark says. -/
def homeOf (row : Stale) : PyStr :=
  if row.kind = .source then (projectionOf w row.id).1 else row.path

/-- A mark made of the manifest as it is has the path that the manifest records. -/
def Faithful : Prop :=
  ∀ key m, w.unreadable.find key = some m → m.kind = .source →
    m.observation.takeWhile (· ≠ bar) = (w.manifests m.refId).state →
      m.path = (projectionOf w m.refId).1

/-- What the record of an artifact is indexed as, where it is of the row's revision. -/
def currentRecord (a : ArtifactRow) : Option Document :=
  match w.records a.id with
  | .ok (some r) =>
    if searchVersion r.revision r.extractorVersion ≠
        searchVersion a.currentRevision a.extractorVersion then none
    else some (artifactDocument a.id r)
  | _ => none

/-- What a pass can read of the key. -/
def fresh (key : Key) : Option Document :=
  match key.1 with
  | .artifact => ((w.artifacts.find key.2).filter (staleArtifact w)).bind (currentRecord w)
  | _ => (staleAt env w key).bind fun row => if isKnown w row then none else readyOf env w row

/-- What is left of the key when the index was cleaned. -/
def kept (key : Key) : Option Document :=
  ((w.documents.find key).filter fun d => !obsolete env env.settings.notesFolder w d).map (follow w)

/-- **The goal** at a key. -/
def goal (key : Key) : Option Document := ((fresh env w key).map Document.cut).or (kept env w key)

/-- A try of the row ends in a document or in a mark. -/
def isOpen (row : Stale) : Bool :=
  !isKnown w row && ((readyOf env w row).isSome || (failedOf env w row).isSome)

/-- A try of the row gives nothing that lasts. -/
def isStuck (row : Stale) : Bool :=
  !isKnown w row && !((readyOf env w row).isSome || (failedOf env w row).isSome)

end Goals

section Standing

variable {env : Env} {w w' : World} {row : Stale} {key : Key} {d : Document}

theorem placeOf_of_unmarked (h : w.unreadable.find row.key = none) : placeOf w row =
    if row.kind = .source then projectionOf w row.id else (row.path, none) := by
  unfold placeOf
  rw [h]
  cases row.kind <;> rfl

/-- The mark of a row does not move it. -/
theorem placeOf_path (h : Faithful w) : (placeOf w row).1 = homeOf w row := by
  unfold placeOf homeOf
  cases hkind : row.kind with
  | source =>
    cases hmark : (w.unreadable.find row.key).filter
        (·.observation.takeWhile (· ≠ bar) = manifestSeen w row) with
    | none => rfl
    | some m =>
      obtain ⟨hfind, hseen⟩ := Option.filter_eq_some_iff.1 hmark
      have hkey : m.key = row.key := (Table.find_eq_some.1 hfind).2
      have hid : m.refId = row.id := congrArg Prod.snd hkey
      have hm : m.kind = .source := (congrArg Prod.fst hkey).trans hkind
      have hpath := h row.key m hfind hm (by
        rw [hid]
        simpa [manifestSeen, hkind] using hseen)
      rw [hid] at hpath
      exact hpath
  | _ => rfl

theorem Beside.homeOf (h : Beside w w') : homeOf w' row = homeOf w row := by
  rw [h]
  rfl

theorem placeOf_beside (hb : Beside w w') (h : Faithful w) (h' : Faithful w') :
    (placeOf w' row).1 = (placeOf w row).1 := by
  rw [placeOf_path h, placeOf_path h', hb.homeOf]

theorem observationOf_beside (hb : Beside w w') (h : Faithful w) (h' : Faithful w') :
    observationOf w' row = observationOf w row := by
  unfold observationOf
  rw [placeOf_beside hb h h']
  rw [hb]
  rfl

theorem markOf_beside (hb : Beside w w') (h : Faithful w) (h' : Faithful w') (f : Fault) :
    markOf w' row f = markOf w row f := by
  unfold markOf
  rw [placeOf_beside hb h h', observationOf_beside hb h h']

theorem readEntry_beside (hb : Beside w w') (path : PyStr) :
    readEntry env w' row path = readEntry env w row path := by
  rw [hb]
  rfl

/-- Where a row has a path, its mark does not matter to a try. -/
theorem tried_beside (hb : Beside w w') (h : Faithful w) (h' : Faithful w')
    (hpath : ¬(row.kind = .source ∧ (placeOf w row).1 = [])) :
    tried env w' row = tried env w row := by
  have hpath' : ¬(row.kind = .source ∧ (placeOf w' row).1 = []) := by
    rw [placeOf_beside hb h h']
    exact hpath
  unfold tried entryOf
  rw [if_neg hpath, if_neg hpath', placeOf_beside hb h h', readEntry_beside hb]
  congr 1
  funext answer
  cases answer with
  | ok d => rfl
  | error f => exact congrArg (Attempt.failed · f.durable) (markOf_beside hb h h' f)

/-- Without a path nothing is read. -/
theorem readyOf_of_pathless (h : row.kind = .source ∧ (placeOf w row).1 = []) :
    readyOf env w row = none := by
  unfold readyOf tried entryOf
  rw [if_pos h]
  rfl

/-- **What is read of a row** does not depend on the index. -/
theorem readyOf_beside (hb : Beside w w') (h : Faithful w) (h' : Faithful w') :
    readyOf env w' row = readyOf env w row := by
  by_cases hpath : row.kind = .source ∧ (placeOf w row).1 = []
  · rw [readyOf_of_pathless hpath, readyOf_of_pathless]
    rw [placeOf_beside hb h h']
    exact hpath
  · unfold readyOf
    rw [tried_beside hb h h' hpath]

/-- A row whose mark is as it was stands as it stood. -/
theorem placeOf_of_same (hb : Beside w w')
    (hmark : w'.unreadable.find row.key = w.unreadable.find row.key) :
    placeOf w' row = placeOf w row := by
  unfold placeOf manifestSeen
  rw [hmark]
  rw [hb]
  rfl

theorem isKnown_of_same (hb : Beside w w')
    (hmark : w'.unreadable.find row.key = w.unreadable.find row.key) :
    isKnown w' row = isKnown w row := by
  unfold isKnown observationOf
  rw [hmark, placeOf_of_same hb hmark]
  rw [hb]
  rfl

theorem tried_of_same (hb : Beside w w')
    (hmark : w'.unreadable.find row.key = w.unreadable.find row.key) :
    tried env w' row = tried env w row := by
  unfold tried entryOf markOf observationOf
  rw [placeOf_of_same hb hmark, readEntry_beside hb]
  rw [hb]
  rfl

/-- A row that failed for the moment fails so without its mark, too. -/
theorem tried_of_forgotten {m : Mark} (hb : Beside w w') (h : Faithful w) (h' : Faithful w')
    (hmark : w'.unreadable.find row.key = none) (htried : tried env w row = .ok (.failed m false)) :
    tried env w' row = .ok (.failed m false) := by
  by_cases hpath : row.kind = .source ∧ (placeOf w row).1 = []
  · have hplace : placeOf w' row = placeOf w row := by
      rw [placeOf_of_unmarked hmark, if_pos hpath.1]
      have hproj : projectionOf w' row.id = projectionOf w row.id := by
        rw [hb]
        rfl
      rw [hproj]
      unfold tried entryOf at htried
      rw [if_pos hpath] at htried
      unfold placeOf at htried ⊢
      rw [hpath.1] at htried ⊢
      cases hold : (w.unreadable.find row.key).filter
          (·.observation.takeWhile (· ≠ bar) = manifestSeen w row) with
      | none => rfl
      | some old =>
        rw [hold] at htried
        cases Except.ok.inj htried
    unfold tried entryOf markOf observationOf at htried ⊢
    rw [hplace, readEntry_beside hb]
    rw [hb]
    exact htried
  · rw [tried_beside hb h h' hpath]
    exact htried

theorem readyOf_of_same (hb : Beside w w')
    (hmark : w'.unreadable.find row.key = w.unreadable.find row.key) :
    readyOf env w' row = readyOf env w row := by
  unfold readyOf
  rw [tried_of_same hb hmark]

theorem isOpen_of_same (hb : Beside w w')
    (hmark : w'.unreadable.find row.key = w.unreadable.find row.key) :
    isOpen env w' row = isOpen env w row := by
  unfold isOpen failedOf
  rw [isKnown_of_same hb hmark, readyOf_of_same hb hmark, tried_of_same hb hmark]

theorem isStuck_of_same (hb : Beside w w')
    (hmark : w'.unreadable.find row.key = w.unreadable.find row.key) :
    isStuck env w' row = isStuck env w row := by
  unfold isStuck failedOf
  rw [isKnown_of_same hb hmark, readyOf_of_same hb hmark, tried_of_same hb hmark]

theorem Beside.currentRecord (h : Beside w w') (a : ArtifactRow) :
    currentRecord w' a = currentRecord w a := by
  rw [h]
  rfl

theorem Beside.obsolete (h : Beside w w') (d : Document) :
    obsolete env env.settings.notesFolder w' d = obsolete env env.settings.notesFolder w d := by
  rw [h]
  rfl

theorem Beside.follow (h : Beside w w') (d : Document) : follow w' d = follow w d := by
  rw [h]
  rfl

end Standing

section Toward

/-- A step on the way: the goal stands, and nothing is opened or made stale. -/
structure Toward (env : Env) (w w' : World) : Prop where
  beside : Beside w w'
  faithful : Faithful w'
  goal : ∀ key, goal env w' key = goal env w key
  opened : ∀ key row, staleAt env w' key = some row → isOpen env w' row = true →
    staleAt env w key = some row ∧ isOpen env w row = true
  stuck : ∀ key row, staleAt env w' key = some row → isStuck env w' row = true →
    staleAt env w key = some row ∧ isStuck env w row = true
  artifact : ∀ a ∈ w.artifacts.rows, staleArtifact w' a = true → staleArtifact w a = true

/-- Cleaning changes nothing. -/
def Tidy (env : Env) (w : World) : Prop := ∀ key, kept env w key = w.documents.find key

variable {env : Env} {w w' w'' : World} {row : Stale} {key : Key} {d : Document}

theorem Toward.refl (h : Faithful w) : Toward env w w where
  beside := .refl w
  faithful := h
  goal _ := rfl
  opened _ _ hstale hopen := ⟨hstale, hopen⟩
  stuck _ _ hstale hstuck := ⟨hstale, hstuck⟩
  artifact _ _ ha := ha

theorem Beside.trans (h : Beside w w') (h' : Beside w' w'') : Beside w w'' := by
  unfold Beside at h h' ⊢
  rw [h', h]

theorem Beside.artifacts (h : Beside w w') : w'.artifacts = w.artifacts := by
  rw [h]

theorem Toward.trans (h : Toward env w w') (h' : Toward env w' w'') : Toward env w w'' where
  beside := h.beside.trans h'.beside
  faithful := h'.faithful
  goal key := (h'.goal key).trans (h.goal key)
  opened key row hstale hopen :=
    have hmid := h'.opened key row hstale hopen
    h.opened key row hmid.1 hmid.2
  stuck key row hstale hstuck :=
    have hmid := h'.stuck key row hstale hstuck
    h.stuck key row hmid.1 hmid.2
  artifact a ha hstale :=
    h.artifact a ha (h'.artifact a (by rw [h.beside.artifacts]; exact ha) hstale)

theorem follow_version (w : World) (d : Document) : (follow w d).version = d.version := by
  unfold follow
  split <;> rfl

theorem follow_follow (w : World) (d : Document) : follow w (follow w d) = follow w d := by
  obtain ⟨kind, id, path, title, body, version⟩ := d
  cases kind with
  | note =>
    unfold follow
    dsimp only
    cases w.notes.find id <;> rfl
  | _ => rfl

theorem obsolete_follow (d : Document) : obsolete env env.settings.notesFolder w (follow w d) =
    obsolete env env.settings.notesFolder w d := by
  have hkey := follow_key w d
  have hkind : (follow w d).kind = d.kind := congrArg Prod.fst hkey
  have hid : (follow w d).refId = d.refId := congrArg Prod.snd hkey
  unfold obsolete
  rw [hkey, hkind, hid, follow_version]

theorem clean_find :
    (clean env env.settings.notesFolder w).documents.find key = kept env w key := by
  unfold clean kept
  rw [Table.find_adjust, Table.find_delete]

theorem kept_of_none (hd : w.documents.find key = none) : kept env w key = none := by
  unfold kept
  rw [hd]
  rfl

theorem kept_of_obsolete (hd : w.documents.find key = some d)
    (hobs : obsolete env env.settings.notesFolder w d = true) : kept env w key = none := by
  unfold kept
  rw [hd, Option.filter_some, hobs]
  rfl

theorem kept_of_current (hd : w.documents.find key = some d)
    (hobs : obsolete env env.settings.notesFolder w d = false) :
    kept env w key = some (follow w d) := by
  unfold kept
  rw [hd, Option.filter_some, hobs]
  rfl

/-- What was kept is kept. -/
theorem kept_clean : kept env (clean env env.settings.notesFolder w) key = kept env w key := by
  have hb : Beside w (clean env env.settings.notesFolder w) := rfl
  cases hd : w.documents.find key with
  | none =>
    rw [kept_of_none hd]
    exact kept_of_none (clean_find.trans (kept_of_none hd))
  | some d =>
    cases hobs : obsolete env env.settings.notesFolder w d with
    | true =>
      rw [kept_of_obsolete hd hobs]
      exact kept_of_none (clean_find.trans (kept_of_obsolete hd hobs))
    | false =>
      rw [kept_of_current hd hobs]
      refine (kept_of_current (clean_find.trans (kept_of_current hd hobs)) ?_).trans ?_
      · rw [hb.obsolete, obsolete_follow, hobs]
      · rw [hb.follow, follow_follow]

/-- A document of a wanted row is obsolete only at another version. -/
theorem version_ne_of_obsolete (hrow : wanted env w d.key = some row)
    (hobs : obsolete env env.settings.notesFolder w d = true) : d.version ≠ row.version := by
  obtain ⟨kind, id, path, title, body, version⟩ := d
  cases kind with
  | note =>
    exfalso
    simp only [wanted, Document.key, Option.map_eq_some_iff, Option.filter_eq_some_iff,
      Bool.and_eq_true] at hrow
    obtain ⟨n, ⟨hn, -, hreviewed⟩, -⟩ := hrow
    simp [obsolete, eligible, Document.key, hn, hreviewed] at hobs
  | source =>
    simp only [wanted, Document.key, Option.map_eq_some_iff, Option.filter_eq_some_iff] at hrow
    obtain ⟨s, ⟨hs, helig⟩, rfl⟩ := hrow
    obtain rfl : s.id = id := (Table.find_eq_some.1 hs).2
    simpa [obsolete, Document.key, helig, currentSource, hs, sourceRow] using hobs
  | artifact => cases hrow

theorem staleAt_clean :
    staleAt env (clean env env.settings.notesFolder w) key = staleAt env w key := by
  have hb : Beside w (clean env env.settings.notesFolder w) := rfl
  unfold staleAt
  rw [hb.wanted, clean_find]
  cases hrow : wanted env w key with
  | none => rfl
  | some row =>
    rw [Option.filter_some, Option.filter_some]
    cases hd : w.documents.find key with
    | none => rw [kept_of_none hd]
    | some d =>
      obtain rfl := (Table.find_eq_some.1 hd).2
      cases hobs : obsolete env env.settings.notesFolder w d with
      | true =>
        rw [kept_of_obsolete hd hobs]
        simp [version_ne_of_obsolete hrow hobs]
      | false =>
        rw [kept_of_current hd hobs]
        simp [follow_version]

theorem staleArtifact_clean {a : ArtifactRow} (ha : a ∈ w.artifacts.rows) :
    staleArtifact (clean env env.settings.notesFolder w) a = staleArtifact w a := by
  have hfind : w.artifacts.find a.id = some a := Table.find_of_mem ha
  unfold staleArtifact
  rw [clean_find]
  cases hd : w.documents.find (.artifact, a.id) with
  | none => rw [kept_of_none hd]
  | some d =>
    have hkey := (Table.find_eq_some.1 hd).2
    have hobs : obsolete env env.settings.notesFolder w d = false := by
      have hkind : d.kind = .artifact := congrArg Prod.fst hkey
      unfold obsolete
      rw [hkind, hkey]
      simp [eligible, hfind]
    rw [kept_of_current hd hobs]
    simp [follow_version]

theorem fresh_congr (hb : Beside w w') (hstale : staleAt env w' key = staleAt env w key)
    (hartifact : ∀ a ∈ w.artifacts.rows, key = (.artifact, a.id) →
      staleArtifact w' a = staleArtifact w a)
    (hrow : ∀ row, staleAt env w key = some row →
      (if isKnown w' row then none else readyOf env w' row) =
        if isKnown w row then none else readyOf env w row) :
    fresh env w' key = fresh env w key := by
  have hrows : ((staleAt env w' key).bind fun row =>
      if isKnown w' row then none else readyOf env w' row) =
      (staleAt env w key).bind fun row => if isKnown w row then none else readyOf env w row := by
    rw [hstale]
    cases h : staleAt env w key with
    | none => rfl
    | some row => exact hrow row h
  obtain ⟨kind, id⟩ := key
  cases kind with
  | artifact =>
    unfold fresh
    dsimp only
    rw [hb.artifacts]
    cases hfind : w.artifacts.find id with
    | none => rfl
    | some a =>
      obtain ⟨ha, rfl⟩ := Table.find_eq_some.1 hfind
      rw [Option.filter_some, Option.filter_some, hartifact a ha rfl]
      split
      · exact hb.currentRecord a
      · rfl
  | _ => exact hrows

/-- **Cleaning** is a step on the way. -/
theorem toward_clean (h : Faithful w) :
    Toward env w (clean env env.settings.notesFolder w) := by
  have hb : Beside w (clean env env.settings.notesFolder w) := rfl
  refine ⟨hb, h, ?_, ?_, ?_, ?_⟩
  · intro key
    unfold goal
    rw [kept_clean, fresh_congr hb staleAt_clean fun a ha _ => staleArtifact_clean ha]
    intro row _
    rw [isKnown_of_same hb rfl, readyOf_of_same hb rfl]
  · intro key row hstale hopen
    rw [staleAt_clean] at hstale
    rw [isOpen_of_same hb rfl] at hopen
    exact ⟨hstale, hopen⟩
  · intro key row hstale hstuck
    rw [staleAt_clean] at hstale
    rw [isStuck_of_same hb rfl] at hstuck
    exact ⟨hstale, hstuck⟩
  · intro a ha hstale
    rw [staleArtifact_clean ha] at hstale
    exact hstale

theorem tidy_clean : Tidy env (clean env env.settings.notesFolder w) := by
  intro key
  rw [kept_clean, clean_find]

theorem follow_cut (w : World) (d : Document) : follow w d.cut = (follow w d).cut := by
  obtain ⟨kind, id, path, title, body, version⟩ := d
  cases kind <;> rfl

theorem kept_congr (hb : Beside w w') (hd : w'.documents.find key = w.documents.find key) :
    kept env w' key = kept env w key := by
  unfold kept
  rw [hd]
  simp only [hb.obsolete]
  rw [(funext hb.follow : follow w' = follow w)]

theorem staleAt_congr (hb : Beside w w') (hd : w'.documents.find key = w.documents.find key) :
    staleAt env w' key = staleAt env w key := by
  unfold staleAt
  rw [hb.wanted, hd]

theorem staleArtifact_congr {a : ArtifactRow}
    (hd : w'.documents.find (.artifact, a.id) = w.documents.find (.artifact, a.id)) :
    staleArtifact w' a = staleArtifact w a := by
  unfold staleArtifact
  rw [hd]

theorem wanted_of_staleAt (h : staleAt env w key = some row) : wanted env w key = some row :=
  (Option.filter_eq_some_iff.1 h).1

/-- What was read stays when the index is cleaned. -/
theorem kept_ready (hb : Beside w w') (h : staleAt env w key = some row)
    (hready : readyOf env w row = some d) (hd : w'.documents.find key = some d.cut) :
    kept env w' key = some d.cut := by
  obtain ⟨rfl, hversion, -, hfollow⟩ := readyOf_spec h hready
  have hobs : obsolete env env.settings.notesFolder w' d.cut = false := by
    rw [hb.obsolete]
    by_contra hne
    have hwanted : wanted env w d.cut.key = some row := wanted_of_staleAt h
    exact version_ne_of_obsolete hwanted (by simpa using hne) hversion
  rw [kept_of_current hd hobs, hb.follow, follow_cut, hfollow]

end Toward

section Recorded

variable {env : Env} {w : World} {row : Stale} {batch : List Stale} {key : Key} {d : Document}
  {change : Change} (h : AtRest env w batch change)

include h

/-- The row of the batch with a key. -/
theorem AtRest.eq_of_staleAt {row' : Stale} (hrow' : row' ∈ batch)
    (hstale : staleAt env w row'.key = some row) : row' = row :=
  Option.some.inj ((h.stale row' hrow').symm.trans hstale)

theorem record_document (key : Key) :
    (∃ row ∈ batch, row.key = key ∧ ∃ d, readyOf env w row = some d ∧
      (record env env.settings.notesFolder w change).documents.find key = some d.cut) ∨
    (record env env.settings.notesFolder w change).documents.find key = w.documents.find key ∧
      ∀ row ∈ batch, row.key = key → readyOf env w row = none := by
  by_cases hread : ∃ row ∈ batch, row.key = key ∧ (readyOf env w row).isSome
  · obtain ⟨row, hrow, rfl, hsome⟩ := hread
    obtain ⟨d, hready⟩ := Option.isSome_iff_exists.1 hsome
    exact Or.inl ⟨row, hrow, rfl, d, hready, record_ready h hrow hready⟩
  · have hnone : ∀ row ∈ batch, row.key = key → readyOf env w row = none := by
      intro row hrow hkey
      by_contra hne
      exact hread ⟨row, hrow, hkey, Option.isSome_iff_ne_none.2 hne⟩
    refine Or.inr ⟨record_documents_other h ?_, hnone⟩
    intro row hrow d hready hkey
    rw [hnone row hrow hkey] at hready
    cases hready

/-- **A row that is stale still** was stale, and nothing was read of it. -/
theorem staleAt_record
    (hstale : staleAt env (record env env.settings.notesFolder w change) key = some row) :
    staleAt env w key = some row ∧ (row ∈ batch → readyOf env w row = none) ∧
      (record env env.settings.notesFolder w change).documents.find key =
        w.documents.find key := by
  rcases record_document h key with ⟨row', hrow', rfl, d, hready, hd⟩ | ⟨hd, hnone⟩
  · exfalso
    have hwanted := wanted_of_staleAt hstale
    rw [beside_record.wanted, wanted_of_staleAt (h.stale row' hrow')] at hwanted
    obtain rfl := Option.some.inj hwanted
    have hall := unindexed_of_staleAt hstale
    rw [hd, Option.all_some] at hall
    have hversion : d.cut.version = row'.version :=
      (readyOf_spec (h.stale row' hrow') hready).2.1
    simp [hversion] at hall
  · rw [staleAt_congr beside_record hd] at hstale
    exact ⟨hstale, fun hrow => hnone row hrow (staleAt_cases hstale).1, hd⟩

/-- The mark of a row that was not tried stays. -/
theorem mark_of_untried (hstale : staleAt env w row.key = some row) (hrow : row ∉ batch) :
    (record env env.settings.notesFolder w change).unreadable.find row.key =
      w.unreadable.find row.key := by
  have hne : ∀ row' ∈ batch, row'.key ≠ row.key := by
    intro row' hrow' hkey
    rw [← hkey] at hstale
    exact hrow (h.eq_of_staleAt hrow' hstale ▸ hrow')
  have hcandidate : row.key ∈ change.candidates := by
    refine h.candidates row (mem_staleRows.2 hstale) ?_
    intro hmem
    obtain ⟨m, hm, hkey⟩ := List.mem_map.1 hmem
    obtain ⟨row', hrow', htransient⟩ := List.mem_filterMap.1 hm
    obtain ⟨f, rfl⟩ := transientOf_spec htransient
    exact hne row' hrow' hkey
  rw [record_marks_other h fun row' hrow' hkey => absurd hkey (hne row' hrow')]
  unfold forgotten
  rw [Table.find_delete]
  cases hmark : w.unreadable.find row.key with
  | none => rfl
  | some m =>
    have hkey : m.key = row.key := (Table.find_eq_some.1 hmark).2
    rw [Option.filter_some]
    simp [hkey, hcandidate]

/-- The mark of a row that failed for the moment stays or goes. -/
theorem mark_of_transient {m : Mark} (hrow : row ∈ batch)
    (htried : tried env w row = .ok (.failed m false)) :
    (record env env.settings.notesFolder w change).unreadable.find row.key =
        w.unreadable.find row.key ∨
      (record env env.settings.notesFolder w change).unreadable.find row.key = none := by
  have hother : ∀ row' ∈ batch, row'.key = row.key →
      readyOf env w row' = none ∧ failedOf env w row' = none := by
    intro row' hrow' hkey
    obtain rfl := h.eq_of_key hrow' hrow hkey
    unfold readyOf failedOf
    rw [htried]
    exact ⟨rfl, rfl⟩
  rw [record_marks_other h hother]
  unfold forgotten
  rw [Table.find_delete]
  cases hmark : w.unreadable.find row.key with
  | none => exact Or.inl rfl
  | some m =>
    rw [Option.filter_some]
    split
    · exact Or.inl rfl
    · exact Or.inr rfl

variable (hf : Faithful w)

include hf

theorem faithful_record : Faithful (record env env.settings.notesFolder w change) := by
  have hb : Beside w (record env env.settings.notesFolder w change) := beside_record
  intro key m hm hkind hseen
  have hproj : projectionOf (record env env.settings.notesFolder w change) m.refId =
      projectionOf w m.refId := by
    rw [hb]
    rfl
  have hstate : ((record env env.settings.notesFolder w change).manifests m.refId) =
      w.manifests m.refId := by
    rw [hb]
  rw [hstate] at hseen
  rw [hproj]
  rcases record_marks h hm with hold | ⟨row, hrow, f, rfl⟩
  · exact hf key m hold hkind hseen
  · have hsource : row.kind = .source := hkind
    change (placeOf w row).1 = _
    rw [placeOf_path hf]
    unfold homeOf
    rw [if_pos hsource]
    rfl

/-- A row that failed is known. -/
theorem isKnown_record {m : Mark} (hrow : row ∈ batch) (hfailed : failedOf env w row = some m) :
    isKnown (record env env.settings.notesFolder w change) row = true := by
  have hb : Beside w (record env env.settings.notesFolder w change) := beside_record
  obtain ⟨m', hm', hseen⟩ := record_failed h hrow hfailed
  obtain ⟨f, rfl⟩ := failedOf_spec hfailed
  have hf' := faithful_record h hf
  unfold isKnown
  rw [hm', Option.any_some, placeOf_beside hb hf hf', observationOf_beside hb hf hf', hseen]
  exact decide_eq_true rfl

/-- **A row that is tried and stale still** is known, or failed for the moment. -/
theorem standing_record (hrow : row ∈ batch) (hready : readyOf env w row = none) :
    isKnown (record env env.settings.notesFolder w change) row = true ∨
      failedOf env w row = none ∧
        readyOf env (record env env.settings.notesFolder w change) row = none ∧
        failedOf env (record env env.settings.notesFolder w change) row = none := by
  have hb : Beside w (record env env.settings.notesFolder w change) := beside_record
  obtain ⟨attempt, htried⟩ := h.tried row hrow
  rcases tried_cases htried with ⟨d, rfl⟩ | ⟨f, hattempt⟩
  · unfold readyOf at hready
    rw [htried] at hready
    cases hready
  · subst hattempt
    cases hdurable : f.durable with
    | true =>
      refine Or.inl (isKnown_record h hf hrow (m := markOf w row f) ?_)
      unfold failedOf
      rw [htried, hdurable]
    | false =>
      rw [hdurable] at htried
      have htried' : tried env (record env env.settings.notesFolder w change) row =
          .ok (.failed (markOf w row f) false) := by
        rcases mark_of_transient h hrow htried with hsame | hnone
        · rw [tried_of_same hb hsame, htried]
        · exact tried_of_forgotten hb hf (faithful_record h hf) hnone htried
      refine Or.inr ⟨?_, ?_, ?_⟩
      · unfold failedOf
        rw [htried]
      · unfold readyOf
        rw [htried']
      · unfold failedOf
        rw [htried']

/-- **Of the batch** no row is open afterwards. -/
theorem opened_record
    (hstale : staleAt env (record env env.settings.notesFolder w change) key = some row)
    (hopen : isOpen env (record env env.settings.notesFolder w change) row = true) :
    staleAt env w key = some row ∧ isOpen env w row = true ∧ row ∉ batch := by
  obtain ⟨hold, hnone, -⟩ := staleAt_record h hstale
  obtain ⟨rfl, -⟩ := staleAt_cases hold
  by_cases hrow : row ∈ batch
  · exfalso
    unfold isOpen at hopen
    rcases standing_record h hf hrow (hnone hrow) with hknown | ⟨-, hready, hfailed⟩
    · simp [hknown] at hopen
    · simp [hready, hfailed] at hopen
  · rw [isOpen_of_same beside_record (mark_of_untried h hold hrow)] at hopen
    exact ⟨hold, hopen, hrow⟩

variable (hknown : ∀ row ∈ batch, isKnown w row = false)

include hknown

theorem goal_record (key : Key) :
    goal env (record env env.settings.notesFolder w change) key = goal env w key := by
  have hb : Beside w (record env env.settings.notesFolder w change) := beside_record
  unfold goal
  rcases record_document h key with ⟨row, hrow, rfl, d, hready, hd⟩ | ⟨hd, hnone⟩
  · have hstale := h.stale row hrow
    have hgone : staleAt env (record env env.settings.notesFolder w change) row.key = none := by
      cases hnew : staleAt env (record env env.settings.notesFolder w change) row.key with
      | none => rfl
      | some row' =>
        obtain ⟨hold, hnone, -⟩ := staleAt_record h hnew
        obtain rfl := h.eq_of_staleAt hrow hold
        rw [hnone hrow] at hready
        cases hready
    have hkind : row.key.1 ≠ .artifact := by
      intro hkind
      rcases (staleAt_cases hstale).2 with ⟨n, -, -, rfl⟩ | ⟨s, -, -, rfl⟩ <;> cases hkind
    have hfresh : fresh env w row.key = some d := by
      unfold fresh
      split
      · next hk => exact absurd hk hkind
      · rw [hstale, Option.bind_some, hknown row hrow]
        exact hready
    have hfresh' : fresh env (record env env.settings.notesFolder w change) row.key = none := by
      unfold fresh
      split
      · next hk => exact absurd hk hkind
      · rw [hgone, Option.bind_none]
    rw [hfresh, hfresh', kept_ready hb hstale hready hd]
    rfl
  · rw [kept_congr hb hd, fresh_congr hb (staleAt_congr hb hd)]
    · intro a _ hkey
      subst hkey
      exact staleArtifact_congr hd
    · intro row hstale
      obtain ⟨rfl, -⟩ := staleAt_cases hstale
      by_cases hrow : row ∈ batch
      · rw [readyOf_beside hb hf (faithful_record h hf), hnone row hrow rfl]
        simp
      · have hmark := mark_of_untried h hstale hrow
        rw [isKnown_of_same hb hmark, readyOf_of_same hb hmark]

/-- **Recording** is a step on the way. -/
theorem toward_record : Toward env w (record env env.settings.notesFolder w change) where
  beside := beside_record
  faithful := faithful_record h hf
  goal := goal_record h hf hknown
  opened key row hstale hopen :=
    have hold := opened_record h hf hstale hopen
    ⟨hold.1, hold.2.1⟩
  stuck key row hstale hstuck := by
    obtain ⟨hold, hnone, -⟩ := staleAt_record h hstale
    obtain ⟨rfl, -⟩ := staleAt_cases hold
    refine ⟨hold, ?_⟩
    by_cases hrow : row ∈ batch
    · unfold isStuck at hstuck ⊢
      rcases standing_record h hf hrow (hnone hrow) with hk | ⟨hfailed, -, -⟩
      · simp [hk] at hstuck
      · simp [hknown row hrow, hnone hrow, hfailed]
    · rw [isStuck_of_same beside_record (mark_of_untried h hold hrow)] at hstuck
      exact hstuck
  artifact a _ hstale := by
    have hd : (record env env.settings.notesFolder w change).documents.find (.artifact, a.id) =
        w.documents.find (.artifact, a.id) := by
      rcases record_document h (.artifact, a.id) with ⟨row, hrow, hkey, -⟩ | ⟨hd, -⟩
      · have hrowstale := h.stale row hrow
        rw [hkey] at hrowstale
        cases hrowstale
      · exact hd
    rw [staleArtifact_congr hd] at hstale
    exact hstale

omit hf hknown in
theorem tidy_record (htidy : Tidy env w) :
    Tidy env (record env env.settings.notesFolder w change) := by
  intro key
  have hb : Beside w (record env env.settings.notesFolder w change) := beside_record
  rcases record_document h key with ⟨row, hrow, rfl, d, hready, hd⟩ | ⟨hd, -⟩
  · rw [kept_ready hb (h.stale row hrow) hready hd, hd]
  · rw [kept_congr hb hd, htidy key, hd]

end Recorded

section Artifacts

variable {env : Env} {w : World} {a : ArtifactRow} {d : Document} {key : Key}

theorem currentRecord_spec (h : currentRecord w a = some d) :
    d.key = (.artifact, a.id) ∧
      d.version = searchVersion a.currentRevision a.extractorVersion := by
  unfold currentRecord at h
  split at h
  · next r _ =>
    split at h
    · cases h
    · next hversion =>
      obtain rfl := Option.some.inj h
      exact ⟨rfl, not_not.1 hversion⟩
  · cases h

variable (ha : a ∈ w.artifacts.rows) (hd : currentRecord w a = some d)

include ha hd

theorem upsert_artifact (folder : Text) :
    (upsertDocument env folder w d).documents.find key =
      if key = (.artifact, a.id) then some d.cut else w.documents.find key := by
  have helig : eligible env folder w (.artifact, a.id) = true := by
    have hfind : w.artifacts.find a.id = some a := Table.find_of_mem ha
    change (w.artifacts.find a.id).isSome = true
    rw [hfind]
    rfl
  rw [upsertDocument_documents, (currentRecord_spec hd).1, if_pos helig]

omit ha in
theorem upsert_artifact_mark (folder : Text) (hkey : key ≠ (.artifact, a.id)) :
    (upsertDocument env folder w d).unreadable.find key = w.unreadable.find key := by
  rw [upsertDocument_unreadable, (currentRecord_spec hd).1, if_neg hkey]

/-- An artifact that is indexed is not stale. -/
theorem not_stale_upsert (folder : Text) :
    staleArtifact (upsertDocument env folder w d) a = false := by
  unfold staleArtifact
  rw [upsert_artifact ha hd, if_pos rfl, Option.all_some]
  have hversion : d.cut.version = searchVersion a.currentRevision a.extractorVersion :=
    (currentRecord_spec hd).2
  simp [hversion]

theorem staleArtifact_upsert_other (folder : Text) {b : ArtifactRow} (hne : b.id ≠ a.id) :
    staleArtifact (upsertDocument env folder w d) b = staleArtifact w b := by
  apply staleArtifact_congr
  rw [upsert_artifact ha hd, if_neg fun h => hne (congrArg Prod.snd h)]

theorem kept_upsert (folder : Text) :
    kept env (upsertDocument env folder w d) (.artifact, a.id) = some d.cut := by
  have hb : Beside w (upsertDocument env folder w d) := rfl
  have hkind : d.kind = .artifact := congrArg Prod.fst (currentRecord_spec hd).1
  have hobs : obsolete env env.settings.notesFolder w d.cut = false := by
    have hfind : w.artifacts.find a.id = some a := Table.find_of_mem ha
    have hkey : d.cut.key = (.artifact, a.id) := (currentRecord_spec hd).1
    unfold obsolete
    rw [hkey, show d.cut.kind = Kind.artifact from hkind]
    simp [eligible, hfind]
  have hfollow : follow w d.cut = d.cut := by
    unfold follow
    rw [show d.cut.kind = Kind.artifact from hkind]
  rw [kept_of_current (d := d.cut), hb.follow, hfollow]
  · rw [upsert_artifact ha hd, if_pos rfl]
  · rw [hb.obsolete, hobs]

theorem staleAt_upsert (folder : Text) :
    staleAt env (upsertDocument env folder w d) key = staleAt env w key := by
  have hb : Beside w (upsertDocument env folder w d) := rfl
  by_cases hkey : key = (.artifact, a.id)
  · subst hkey
    rfl
  · refine staleAt_congr hb ?_
    rw [upsert_artifact ha hd, if_neg hkey]

/-- **Indexing** an artifact that is stale is a step on the way. -/
theorem toward_upsert (folder : Text) (hf : Faithful w) (hstale : staleArtifact w a = true) :
    Toward env w (upsertDocument env folder w d) := by
  have hb : Beside w (upsertDocument env folder w d) := rfl
  have hrow : ∀ {key row}, staleAt env w key = some row → row.key ≠ (.artifact, a.id) := by
    intro key row hrow hkey
    rw [(staleAt_cases hrow).1] at hkey
    rw [hkey] at hrow
    cases hrow
  refine ⟨hb, ?_, ?_, ?_, ?_, ?_⟩
  · intro key m hm
    refine hf key m ?_
    rw [upsertDocument_unreadable] at hm
    split at hm
    · cases hm
    · exact hm
  · intro key
    by_cases hkey : key = (.artifact, a.id)
    · subst hkey
      have hfind : w.artifacts.find a.id = some a := Table.find_of_mem ha
      have hfresh : fresh env w (.artifact, a.id) = some d := by
        unfold fresh
        dsimp only
        rw [hfind, Option.filter_some, hstale]
        exact hd
      have hfresh' : fresh env (upsertDocument env folder w d) (.artifact, a.id) = none := by
        unfold fresh
        dsimp only
        rw [hb.artifacts, hfind, Option.filter_some, not_stale_upsert ha hd]
        rfl
      unfold goal
      rw [hfresh, hfresh', kept_upsert ha hd]
      rfl
    · have hdoc : (upsertDocument env folder w d).documents.find key = w.documents.find key := by
        rw [upsert_artifact ha hd, if_neg hkey]
      unfold goal
      rw [kept_congr hb hdoc, fresh_congr hb (staleAt_upsert ha hd folder)]
      · intro b _ hb'
        subst hb'
        exact staleArtifact_congr hdoc
      · intro row hrow'
        have hmark := @upsert_artifact_mark env _ _ _ _ hd folder (hrow hrow')
        rw [isKnown_of_same hb hmark, readyOf_of_same hb hmark]
  · intro key row hrow' hopen
    rw [staleAt_upsert ha hd] at hrow'
    rw [isOpen_of_same hb (upsert_artifact_mark hd folder (hrow hrow'))] at hopen
    exact ⟨hrow', hopen⟩
  · intro key row hrow' hstuck
    rw [staleAt_upsert ha hd] at hrow'
    rw [isStuck_of_same hb (upsert_artifact_mark hd folder (hrow hrow'))] at hstuck
    exact ⟨hrow', hstuck⟩
  · intro b hbrow hb'
    by_cases hid : b.id = a.id
    · rw [List.inj_on_of_nodup_map w.artifacts.keyed hbrow ha hid]
      exact hstale
    · rw [staleArtifact_upsert_other ha hd folder hid] at hb'
      exact hb'

theorem tidy_upsert (folder : Text) (htidy : Tidy env w) :
    Tidy env (upsertDocument env folder w d) := by
  intro key
  have hb : Beside w (upsertDocument env folder w d) := rfl
  by_cases hkey : key = (.artifact, a.id)
  · subst hkey
    rw [kept_upsert ha hd, upsert_artifact ha hd, if_pos rfl]
  · have hdoc : (upsertDocument env folder w d).documents.find key = w.documents.find key := by
      rw [upsert_artifact ha hd, if_neg hkey]
    rw [kept_congr hb hdoc, htidy key, hdoc]

end Artifacts

end Coppermind.Search
