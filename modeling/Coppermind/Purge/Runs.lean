import Coppermind.Purge.Lawful
import Coppermind.Dossiers.Identity

/-!
# Runs of purges

The operations one at a time, with any step failing or being the last, and anything happening to
the disk and the rows between them.
-/

namespace Coppermind.Purge

open Coppermind.Lib
open Coppermind.Notes (Instant FileBytes)

/-- Between two operations everything but the receipts may become anything. -/
def outside (next w : World) : World :=
  { next with receipts := w.receipts, quarantined := w.quarantined }

/-- One turn: an operation starts, takes a step, fails at one or is killed, or, between two
operations, the rest of the world moves on. -/
def serve (env : Env) :
    Scene Site World Raised Record Call → Turn Call World → Scene Site World Raised Record Call :=
  turn outside (fun site _ => site.isNone) (operation env)

/-- What one turn of a purge may do to files, rows and records. -/
structure Lawful (env : Env) (w w' : World) : Prop where
  /-- A file that is removed is listed, with the digest of its bytes. -/
  files : ∀ p data, w.disk.lookup p = some (.file data) → w'.disk.lookup p = none →
    ∃ item, Removable env w item ∧ ∃ f ∈ item.files, f.place = p ∧ env.digest data = f.hash
  /-- A folder that is removed is listed and empty; nothing else is removed. -/
  folders : ∀ p node, w.disk.lookup p = some node → (∀ data, node ≠ .file data) →
    w'.disk.lookup p = none →
    w.disk.removable p = true ∧ ∃ item, Removable env w item ∧ p ∈ item.directoryPlaces
  /-- Only pages of dossiers are written. -/
  pages : ∀ p node, w'.disk.lookup p = some node →
    w.disk.lookup p = some node ∨ PageOf (homes w.ledger) p
  /-- The row of a note that is removed is listed, deleted, and no file carries the identity. -/
  notes : ∀ n ∈ w.notes, n ∉ w'.notes → ∃ token record item, Applying token record w ∧
    item ∈ record.items ∧ item.kind = .note ∧ item.id = n.id ∧
      item.row = some (env.noteFingerprint n) ∧ n.live = false ∧ ¬Names env w.disk n.id
  /-- The row of a source that is removed is listed, and no note on the disk or in a row that is
  not deleted names the source or the note that it opened with. -/
  sources : ∀ s ∈ w.sources, s ∉ w'.sources → ∃ token record item, Applying token record w ∧
    item ∈ record.items ∧ item.kind = .source ∧ item.id = s.id ∧
      item.row = some (env.sourceFingerprint s) ∧ ¬Cites env w.disk s.id ∧
      w.linked s.id = false ∧ (∀ n ∈ w.notes, n.live = true → s.id ∉ n.sourceIds) ∧
      ∀ opening ∈ item.opening, ¬Names env w.disk opening ∧ w.live opening = false
  /-- No row of a note, a source, a link or an artifact is added. -/
  rows : w'.notes ⊆ w.notes ∧ w'.sources ⊆ w.sources ∧ w'.links ⊆ w.links ∧
    w'.artifacts = w.artifacts
  /-- The row of a dossier that is added is what the catalog says. -/
  mirrored : ∀ row ∈ w'.entityRows, row ∈ w.entityRows ∨ ∃ e ∈ w.ledger.entities, row = .of e
  /-- The row of a dossier that is removed is listed, or is not what the catalog says. -/
  unmirrored : ∀ row ∈ w.entityRows, row ∉ w'.entityRows →
    (∀ e ∈ w.ledger.entities, row ≠ .of e) ∨ ∃ token record item, Applying token record w ∧
      item ∈ record.items ∧ item.kind = .entity ∧ item.id = PyStr.ofText row.id
  /-- The records of the context service lose what they have of listed notes, and nothing else. -/
  records : w'.context = w.context ∨ ∃ token record, Applying token record w ∧
    Forgetting env (record.idsOf .note) w.context w'.context

section Effects

variable {env : Env} {w w' : World}

/-- A step that leaves the rows alone, the files too but for pages of dossiers, and the records of
the context service too but for what they have of listed notes. -/
theorem Lawful.of_rows (hrows : SameRows w w')
    (hdisk : ∀ p, w'.disk.lookup p = w.disk.lookup p ∨
      PageOf (homes w.ledger) p ∧ ∃ data, w'.disk.lookup p = some (.file data))
    (hcontext : w'.context = w.context ∨ ∃ token record, Applying token record w ∧
      Forgetting env (record.idsOf .note) w.context w'.context) : Lawful env w w' := by
  have hkept : ∀ p node, w.disk.lookup p = some node → w'.disk.lookup p ≠ none := by
    intro p node hp hnone
    obtain hsame | ⟨-, data, hdata⟩ := hdisk p
    · rw [hsame, hp] at hnone
      cases hnone
    · rw [hnone] at hdata
      cases hdata
  exact
    { files := fun p data h h' => absurd h' (hkept p _ h)
      folders := fun p node h _ h' => absurd h' (hkept p _ h)
      pages := fun p node h => (hdisk p).imp (fun hsame => hsame.symm.trans h) And.left
      notes := fun n hn h => absurd (hrows.notes ▸ hn) h
      sources := fun s hs h => absurd (hrows.sources ▸ hs) h
      rows := ⟨hrows.notes ▸ List.Subset.refl _, hrows.sources ▸ List.Subset.refl _,
        hrows.links ▸ List.Subset.refl _, hrows.artifacts⟩
      mirrored := fun row hrow => Or.inl (hrows.entityRows ▸ hrow)
      unmirrored := fun row hrow h => absurd (hrows.entityRows ▸ hrow) h
      records := hcontext }

theorem Lawful.refl : Lawful env w w :=
  Lawful.of_rows ⟨rfl, rfl, rfl, rfl, rfl⟩ (fun _ => Or.inl rfl) (Or.inl rfl)

/-- A step that changes nothing of what a lawful step is about. -/
theorem Lawful.of_same (hdisk : w'.disk = w.disk) (hrows : SameRows w w')
    (hcontext : w'.context = w.context) : Lawful env w w' :=
  Lawful.of_rows hrows (fun p => Or.inl (by rw [hdisk])) (Or.inl hcontext)

/-- A step that removes one node from the disk. -/
theorem Lawful.of_erase {place : List PyStr}
    (hfile : ∀ data, w.disk.lookup place = some (.file data) →
      ∃ item, Removable env w item ∧ ∃ f ∈ item.files, f.place = place ∧ env.digest data = f.hash)
    (hfolder : ∀ node, w.disk.lookup place = some node → (∀ data, node ≠ .file data) →
      w.disk.removable place = true ∧ ∃ item, Removable env w item ∧ place ∈ item.directoryPlaces) :
    Lawful env w { w with disk := w.disk.erase place } where
  mirrored row hrow := Or.inl hrow
  unmirrored row hrow h := absurd hrow h
  records := Or.inl rfl
  files p data h h' := by
    by_cases hp : p = place
    · subst hp
      exact hfile data h
    · change (w.disk.erase place).lookup p = none at h'
      rw [AList.lookup_erase_ne hp, h] at h'
      cases h'
  folders p node h hnode h' := by
    by_cases hp : p = place
    · subst hp
      exact hfolder node h hnode
    · change (w.disk.erase place).lookup p = none at h'
      rw [AList.lookup_erase_ne hp, h] at h'
      cases h'
  pages p node h := Or.inl (shrunk_erase w.disk place p node h)
  notes n hn h := absurd hn h
  sources s hs h := absurd hs h
  rows := ⟨List.Subset.refl _, List.Subset.refl _, List.Subset.refl _, rfl⟩

/-- What the check of a resumed purge says of the row of a note. -/
theorem note_of_resumable {refs : References} (hrefs : references env w.disk = .ok refs)
    {item : Item} (h : resumable env w refs item = true) (hkind : item.kind = .note)
    {n : NoteRow} (hn : n ∈ w.notes) (hid : item.id = n.id) :
    item.row = some (env.noteFingerprint n) ∧ n.live = false ∧ ¬Names env w.disk n.id := by
  simp only [resumable, hkind, hid, Bool.and_eq_true, Bool.not_eq_true', World.live,
    World.note?_of_mem hn, Option.any_some, Option.all_some, decide_eq_true_eq,
    decide_eq_false_iff_not] at h
  obtain ⟨⟨hids, hlive⟩, hrow⟩ := h
  exact ⟨hrow.symm, hlive, fun hnames => hids (((references_spec hrefs).2.1 _).2 hnames)⟩

/-- What the check of a resumed purge says of the row of a source. -/
theorem source_of_resumable {refs : References} (hrefs : references env w.disk = .ok refs)
    {item : Item} (h : resumable env w refs item = true) (hkind : item.kind = .source)
    {s : SourceRow} (hs : s ∈ w.sources) (hid : item.id = s.id) :
    item.row = some (env.sourceFingerprint s) ∧ ¬Cites env w.disk s.id ∧
      w.linked s.id = false ∧ (∀ n ∈ w.notes, n.live = true → s.id ∉ n.sourceIds) ∧
      ∀ opening ∈ item.opening, ¬Names env w.disk opening ∧ w.live opening = false := by
  simp only [resumable, hkind, hid, Bool.and_eq_true, Bool.not_eq_true', World.source?_of_mem hs,
    Option.all_some, decide_eq_true_eq, isProtected, Bool.or_eq_false_iff,
    decide_eq_false_iff_not, List.any_eq_false] at h
  obtain ⟨⟨⟨⟨hcited, hlinked⟩, hnotes⟩, hopening⟩, hrow⟩ := h
  obtain ⟨-, hids, hcites⟩ := references_spec hrefs
  refine ⟨hrow.symm, fun hc => hcited ((hcites _).2 hc), hlinked, ?_, ?_⟩
  · intro n hn hlive hmem
    exact hnotes n hn (by simp [hlive, hmem])
  · intro opening ho
    rw [Option.mem_def.1 ho] at hopening
    simp only [Option.all_some, Bool.and_eq_true, Bool.not_eq_true', decide_eq_false_iff_not]
      at hopening
    exact ⟨fun hnames => hopening.1 ((hids _).2 hnames), hopening.2⟩

/-- **An allowed step** is lawful. -/
theorem lawful_effect {site : Site} (h : Allowed env site w) :
    Lawful env w (effect site w) := by
  cases site with
  | unlink f =>
    obtain ⟨⟨item, hremovable, hf⟩, data, hdata, hhash⟩ := h
    apply Lawful.of_erase
    · intro data' hdata'
      rw [file?, hdata'] at hdata
      obtain rfl := Option.some.inj hdata
      exact ⟨item, hremovable, f, hf, rfl, hhash⟩
    · intro node hnode hnofile
      rw [file?, hnode] at hdata
      cases node with
      | file data' => exact absurd rfl (hnofile data')
      | _ => cases hdata
  | rmdir place =>
    obtain ⟨item, hremovable, hplace⟩ := h
    change Lawful env w { w with disk := if _ then _ else _ }
    split
    · next hempty =>
      apply Lawful.of_erase
      · intro data hdata
        rw [Volume.removable, hdata] at hempty
        cases hempty
      · exact fun _ _ _ => ⟨hempty, item, hremovable, hplace⟩
    · exact Lawful.refl
  | commit items =>
    obtain ⟨token, record, refs, happlying, rfl, hrefs, hresumable⟩ := h
    have hlisted (kind : Kind) (id : PyStr)
        (hgone : ¬(id ∉ (record.items.filter (·.kind = kind)).map Item.id)) :
        ∃ item ∈ record.items, item.kind = kind ∧ item.id = id := by
      obtain ⟨item, hitem, hid⟩ := List.mem_map.1 (not_not.1 hgone)
      obtain ⟨hmem, hkind⟩ := List.mem_filter.1 hitem
      exact ⟨item, hmem, by simpa using hkind, hid⟩
    have hsame : Lawful env w w := Lawful.refl
    refine ⟨hsame.files, hsame.folders, hsame.pages, fun n hn hgone => ?_, fun s hs hgone => ?_,
      ⟨fun _ h => List.mem_of_mem_filter h, fun _ h => List.mem_of_mem_filter h,
        fun _ h => List.mem_of_mem_filter h, rfl⟩,
      fun row hrow => Or.inl (List.mem_of_mem_filter hrow), fun row hrow hgone => ?_, Or.inl rfl⟩
    · obtain ⟨item, hitem, hkind, hid⟩ := hlisted .note n.id fun hid =>
        hgone (List.mem_filter.2 ⟨hn, by simpa using hid⟩)
      exact ⟨token, record, item, happlying, hitem, hkind, hid,
        note_of_resumable hrefs (hresumable item hitem) hkind hn hid⟩
    · obtain ⟨item, hitem, hkind, hid⟩ := hlisted .source s.id fun hid =>
        hgone (List.mem_filter.2 ⟨hs, by simpa using hid⟩)
      exact ⟨token, record, item, happlying, hitem, hkind, hid,
        source_of_resumable hrefs (hresumable item hitem) hkind hs hid⟩
    · obtain ⟨item, hitem, hkind, hid⟩ := hlisted .entity (PyStr.ofText row.id)
        fun hid => hgone (List.mem_filter.2 ⟨hrow, by simpa using hid⟩)
      exact Or.inr ⟨token, record, item, happlying, hitem, hkind, hid⟩
  | page id data =>
    refine Lawful.of_rows ⟨rfl, rfl, rfl, rfl, rfl⟩ (fun p => ?_) (Or.inl rfl)
    obtain hsame | ⟨hwritten, hpage⟩ := @lookup_writePage w id data p
    · exact Or.inl hsame
    · exact Or.inr ⟨hpage, data, hwritten⟩
  | mirror =>
    have hsame : Lawful env w w := Lawful.refl
    refine ⟨hsame.files, hsame.folders, hsame.pages, hsame.notes, hsame.sources, hsame.rows,
      fun row hrow => ?_, fun row _ hgone => Or.inl fun e he hrow => hgone ?_, Or.inl rfl⟩
    · obtain ⟨e, he, rfl⟩ := List.mem_map.1 hrow
      exact Or.inr ⟨e, he, rfl⟩
    · exact hrow ▸ List.mem_map_of_mem he
  | writeBook => exact Lawful.of_rows ⟨rfl, rfl, rfl, rfl, rfl⟩ (fun _ => Or.inl rfl) (Or.inr h)
  | dropCompletion =>
    exact Lawful.of_rows ⟨rfl, rfl, rfl, rfl, rfl⟩ (fun _ => Or.inl rfl) (Or.inr h)
  | dropCorrection =>
    exact Lawful.of_rows ⟨rfl, rfl, rfl, rfl, rfl⟩ (fun _ => Or.inl rfl) (Or.inr h)
  | dropJob => exact Lawful.of_rows ⟨rfl, rfl, rfl, rfl, rfl⟩ (fun _ => Or.inl rfl) (Or.inr h)
  | emptyDossiers =>
    exact Lawful.of_rows ⟨rfl, rfl, rfl, rfl, rfl⟩ (fun _ => Or.inl rfl) (Or.inr h)
  | _ => exact Lawful.of_same rfl ⟨rfl, rfl, rfl, rfl, rfl⟩ rfl

end Effects

section Samples

/-- An artifact manifest is the identifier of an archive that its owner removed at the epoch. -/
def sampleEnv : Env where
  yaml := Dossiers.headYaml
  idKey := "id".toList
  sourcesKey := "sources".toList
  digest := fun
    | .utf8 text => PyStr.ofText text
    | .other _ => []
  noteFingerprint := fun n => n.id
  sourceFingerprint := fun s => s.id
  entityDigest := fun e => PyStr.ofText e.id
  manifest := fun _ => none
  archive := fun
    | .utf8 text => some ⟨some (PyStr.ofText text), true, 0, some (PyStr.lit "removed in Admin"),
        none, none, none⟩
    | .other _ => none
  claim := fun _ => none
  claimName := fun provider external => provider ++ external
  recovery := fun _ => none
  dossiers := Dossiers.sampleEnv
  decimal := id
  refreshed := fun w drawn => .ok (w.memory drawn, [])

def sampleId : PyStr := PyStr.lit "01ARZ3NDEKTSV4RRFFQ69G5FAV"

def sampleManifest : List PyStr := Area.artifacts.at [sampleId, manifestName]

def sampleContext : Context where
  books := fun _ => none
  dossiers := none
  completions := ∅
  corrections := ∅
  jobs := ∅
  jobs_filed := by
    intro name job h
    rw [AList.lookup_empty] at h
    cases h

/-- A store that holds one removed artifact. -/
def sampleWorld : World where
  disk := [⟨Area.notes.at [], .folder⟩, ⟨Area.sources.at [], .folder⟩,
    ⟨Area.artifacts.at [], .folder⟩, ⟨Area.artifacts.at [sampleId], .folder⟩,
    ⟨sampleManifest, .file (.utf8 "01ARZ3NDEKTSV4RRFFQ69G5FAV".toList)⟩].toAList
  notes := []
  sources := []
  artifacts := []
  links := []
  entityRows := []
  ledger := {}
  context := sampleContext
  receipts := fun _ => ∅
  quarantined := []
  retentionDays := 1
  notes_keyed := List.nodup_nil
  sources_keyed := List.nodup_nil
  ledger_keyed := List.nodup_nil

def sampleToken : PyStr := List.replicate 64 0x61

def sampleCall (request : Request) : Call := ⟨request, 2 * day, sampleToken, [], 0, fun _ _ => false⟩

/-- A preview, and its confirmation up to the step before the first removal. -/
def sampleTurns : List (Turn Call World) :=
  .start (sampleCall .preview) :: List.replicate 17 .resume ++
    .start (sampleCall (.confirm sampleToken)) :: List.replicate 21 .resume

end Samples

/-- A turn of a run of operations leaves the store alone or is a command, taken where it is
allowed. -/
theorem allowed_turn (env : Env) (w : World) (past : List (Turn Call World))
    {t : Turn Call World} (ht : ∀ next, t ≠ .event next) :
    (serve env (past.foldl (serve env) ⟨w, none⟩) t).world =
        (past.foldl (serve env) ⟨w, none⟩).world ∨
      ∃ site, Allowed env site (past.foldl (serve env) ⟨w, none⟩).world ∧
        (serve env (past.foldl (serve env) ⟨w, none⟩) t).world =
          effect site (past.foldl (serve env) ⟨w, none⟩).world := by
  generalize hscene : past.foldl (serve env) ⟨w, none⟩ = scene
  have hone : OneAtATime (fun _ _ => True) (fun _ => Allowed env) (fun _ => True) scene := by
    rw [← hscene]
    exact oneAtATime_run (P := fun _ _ => True) (fun call w _ => wp_operation w)
      (fun _ _ _ => rfl) (fun _ _ _ h => h) (fun _ _ _ _ _ => trivial)
      (fun _ _ _ _ _ _ => trivial) (Along.of_forall fun _ _ _ => trivial) trivial
  have hperforms : Performing effect scene := by
    rw [← hscene]
    refine stepping_run (P := fun site f => f = effect site)
      (fun call => steps_operation fun _ => rfl) ?_ past
    exact fun r hr => absurd hr (Option.not_mem_none r)
  have hturn : (serve env scene t).world = scene.world ∨ ∃ call site,
      (fun (_ : Call) => Allowed env) call site scene.world ∧
        (serve env scene t).world = effect site scene.world :=
    turn_commanded hone hperforms ht
  obtain hsame | ⟨call, site, hallowed, heffect⟩ := hturn
  · exact Or.inl hsame
  · exact Or.inr ⟨site, hallowed, heffect⟩

end Coppermind.Purge
