import Coppermind.Purge.Operation

/-!
# What nothing names any more

`Names` and `Cites` are what the notes tree says, note by note; `references` reads exactly that.
Every item that `candidates` lists passes the checks of a resumed purge: nothing uses it, and its
row, where it has one, is the row that was listed.
-/

namespace Coppermind.Purge

open Coppermind.Lib Coppermind.Lib.Text Coppermind.Frontmatter Coppermind.Schema
open Coppermind.Notes (Instant FileBytes)

section Names

variable (env : Env) (d : Disk)

/-- A note of the tree, no generated page, says `P`. -/
def Says (P : Entries → Prop) : Prop :=
  ∃ path ∈ markdown d, ∃ fields, fieldsAt env d path = .ok fields ∧
    pageSource? env fields = none ∧ P fields

/-- A note of the tree carries the identity. -/
def Names (id : PyStr) : Prop := Says env d fun fields => (fields.get? env.idKey).bind str? = some id

/-- A note of the tree cites the source. -/
def Cites (id : PyStr) : Prop := Says env d fun fields =>
  ∃ sources, citations? env fields = some sources ∧ id ∈ sources

variable {env d}

/-- What one note adds to what was read. -/
theorem reference_spec {refs refs' : References} {path : Parts}
    (h : reference env d refs path = .ok refs') :
    ∃ fields, fieldsAt env d path = .ok fields ∧
      (∀ id, id ∈ refs'.ids ↔ id ∈ refs.ids ∨
        pageSource? env fields = none ∧ (fields.get? env.idKey).bind str? = some id) ∧
      ∀ id, id ∈ refs'.cited ↔ id ∈ refs.cited ∨
        pageSource? env fields = none ∧ ∃ sources, citations? env fields = some sources ∧
          id ∈ sources := by
  unfold reference at h
  cases hfields : fieldsAt env d path with
  | error e =>
    rw [hfields] at h
    cases h
  | ok fields =>
    rw [hfields] at h
    refine ⟨fields, rfl, ?_⟩
    simp only [bind, Except.bind] at h
    cases hpage : pageSource? env fields with
    | some source =>
      rw [hpage] at h
      obtain rfl := Except.ok.inj h
      simp
    | none =>
      rw [hpage] at h
      cases hcites : citations? env fields with
      | none =>
        rw [hcites] at h
        cases h
      | some sources =>
        rw [hcites] at h
        obtain rfl := Except.ok.inj h
        simp

theorem references_loop {paths : List Parts} {refs refs' : References}
    (h : paths.foldlM (reference env d) refs = .ok refs') :
    (∀ path ∈ paths, ∃ fields, fieldsAt env d path = .ok fields) ∧
      (∀ id, id ∈ refs'.ids ↔ id ∈ refs.ids ∨ ∃ path ∈ paths, ∃ fields,
        fieldsAt env d path = .ok fields ∧ pageSource? env fields = none ∧
          (fields.get? env.idKey).bind str? = some id) ∧
      ∀ id, id ∈ refs'.cited ↔ id ∈ refs.cited ∨ ∃ path ∈ paths, ∃ fields,
        fieldsAt env d path = .ok fields ∧ pageSource? env fields = none ∧
          ∃ sources, citations? env fields = some sources ∧ id ∈ sources := by
  induction paths generalizing refs with
  | nil =>
    obtain rfl := Except.ok.inj h
    simp
  | cons path paths ih =>
    rw [List.foldlM_cons] at h
    cases hone : reference env d refs path with
    | error e =>
      rw [hone] at h
      cases h
    | ok refs₁ =>
      rw [hone] at h
      obtain ⟨hread, hids, hcited⟩ := ih h
      obtain ⟨fields, hfields, hids₁, hcited₁⟩ := reference_spec hone
      refine ⟨List.forall_mem_cons.2 ⟨⟨fields, hfields⟩, hread⟩, fun id => ?_, fun id => ?_⟩
      · rw [hids, hids₁, or_assoc]
        simp [hfields]
      · rw [hcited, hcited₁, or_assoc]
        simp [hfields]

/-- Every note of the tree can be read. -/
def Readable (env : Env) (d : Disk) : Prop :=
  ∀ path ∈ markdown d, ∃ fields, fieldsAt env d path = .ok fields

/-- **What `references` reads** is what the notes of the tree say. -/
theorem references_spec {refs : References} (h : references env d = .ok refs) :
    Readable env d ∧ (∀ id, id ∈ refs.ids ↔ Names env d id) ∧
      ∀ id, id ∈ refs.cited ↔ Cites env d id := by
  unfold references at h
  split at h
  · obtain ⟨hread, hids, hcited⟩ := references_loop h
    refine ⟨hread, fun id => ?_, fun id => ?_⟩
    · rw [hids]
      simp [Names, Says]
    · rw [hcited]
      simp [Cites, Says]
  · cases h

end Names

section Removed

/-- Nothing was added or changed on the way from `d` to `d'`. -/
def Shrunk (d' d : Disk) : Prop := ∀ p node, d'.lookup p = some node → d.lookup p = some node

variable {env : Env} {d d' d'' : Disk}

theorem Shrunk.refl (d : Disk) : Shrunk d d := fun _ _ h => h

theorem Shrunk.trans (h : Shrunk d'' d') (h' : Shrunk d' d) : Shrunk d'' d :=
  fun p node hp => h' p node (h p node hp)

theorem shrunk_erase (d : Disk) (place : List PyStr) : Shrunk (d.erase place) d := by
  intro p node hp
  by_cases h : p = place
  · subst h
    rw [AList.lookup_erase] at hp
    cases hp
  · rwa [AList.lookup_erase_ne h] at hp

theorem Shrunk.has (h : Shrunk d' d) {p : List PyStr} (hp : d'.has p = true) :
    d.has p = true := by
  obtain ⟨node, hnode⟩ := has_iff.1 hp
  exact has_iff.2 ⟨node, h p node hnode⟩

theorem Shrunk.linked (h : Shrunk d' d) {p : List PyStr} (hp : d.linked p = false) :
    d'.linked p = false := by
  rw [Volume.linked, List.any_eq_false] at hp ⊢
  intro q hq hlink
  obtain ⟨node, hnode, hislink⟩ := (Option.any_eq_true _ _).1 hlink
  exact hp q hq ((Option.any_eq_true _ _).2 ⟨node, h q node hnode, hislink⟩)

theorem Shrunk.resolve (h : Shrunk d' d) {area : Area} {path : Parts} {place : List PyStr}
    (hr : resolve d area path = some place) : resolve d' area path = some place := by
  unfold Purge.resolve at hr ⊢
  split at hr
  · cases hr
  · next hsafe =>
    rw [if_neg hsafe]
    split at hr
    · cases hr
    · next hlink =>
      rw [if_neg (by rw [h.linked (Bool.not_eq_true _ ▸ hlink)]; simp)]
      exact hr

theorem resolve_place {area : Area} {path : Parts} {place : List PyStr}
    (h : Purge.resolve d area path = some place) : place = area.at path := by
  unfold Purge.resolve at h
  split at h
  · cases h
  · split at h
    · cases h
    · exact (Option.some.inj h).symm

theorem resolve_linked {area : Area} {path : Parts} {place : List PyStr}
    (h : Purge.resolve d area path = some place) : d.linked place = false := by
  obtain rfl := resolve_place h
  unfold Purge.resolve at h
  split at h
  · cases h
  · split at h
    · cases h
    · next hlinked => exact Bool.not_eq_true _ ▸ hlinked

theorem mem_walk {area : Area} {path p : Parts} :
    p ∈ walk d area path ↔ d.has (area.at p) = true ∧ path <+: p ∧ p ≠ path := by
  rw [walk, mem_sortedPaths, List.mem_map]
  constructor
  · rintro ⟨q, hq, rfl⟩
    obtain ⟨hhas, hbelow, hne⟩ := mem_under.1 hq
    obtain ⟨rest, rfl⟩ := hbelow
    refine ⟨hhas, ⟨rest, rfl⟩, fun heq => hne ?_⟩
    simp only [Area.at, List.cons_append, List.tail_cons] at heq ⊢
    rw [heq]
  · rintro ⟨hhas, hbelow, hne⟩
    refine ⟨area.at p, mem_under.2 ⟨hhas, ?_, ?_⟩, rfl⟩
    · obtain ⟨rest, rfl⟩ := hbelow
      exact ⟨rest, rfl⟩
    · intro heq
      exact hne (Area.at_inj.1 heq).2

theorem Shrunk.walk (h : Shrunk d' d) {area : Area} {path p : Parts}
    (hp : p ∈ Purge.walk d' area path) : p ∈ Purge.walk d area path := by
  rw [mem_walk] at hp ⊢
  exact ⟨h.has hp.1, hp.2⟩

theorem Shrunk.markdown (h : Shrunk d' d) {path : Parts} (hp : path ∈ Purge.markdown d') :
    path ∈ Purge.markdown d := by
  rw [Purge.markdown, List.mem_filter] at hp ⊢
  exact ⟨h.walk hp.1, hp.2⟩

/-- What a file says stays as long as it stands. -/
theorem Shrunk.fieldsAt (h : Shrunk d' d) {path : Parts} {fields : Entries}
    (hfields : fieldsAt env d path = .ok fields) (hhas : d'.has (Area.notes.at path) = true) :
    Purge.fieldsAt env d' path = .ok fields := by
  unfold Purge.fieldsAt resolveOr at hfields ⊢
  cases hr : Purge.resolve d .notes path with
  | none =>
    rw [hr] at hfields
    cases hfields
  | some place =>
    rw [hr] at hfields
    rw [h.resolve hr]
    obtain rfl := resolve_place hr
    obtain ⟨node, hnode⟩ := has_iff.1 hhas
    have hfile : file? d' (Area.notes.at path) = file? d (Area.notes.at path) := by
      rw [file?, file?, hnode, h _ node hnode]
    simp only [bind, Except.bind, readText, readBytes] at hfields ⊢
    rw [hfile]
    exact hfields

/-- **Removing files** makes no note say anything new. -/
theorem Shrunk.stated (h : Shrunk d' d) (hread : Readable env d) {P : Entries → Prop}
    (hs : Says env d' P) : Says env d P := by
  obtain ⟨path, hpath, fields, hfields, hpage, hP⟩ := hs
  obtain ⟨fields', hfields'⟩ := hread path (h.markdown hpath)
  have hhas : d'.has (Area.notes.at path) = true := (mem_walk.1 (List.mem_filter.1 hpath).1).1
  have hsame := h.fieldsAt hfields' hhas
  rw [hfields] at hsame
  obtain rfl := Except.ok.inj hsame
  exact ⟨path, h.markdown hpath, fields, hfields', hpage, hP⟩

end Removed

section Candidates

variable {env : Env} {w : World} {refs : References} {cutoff : Instant} {saved : List Saved}
  {complete abandoned : List Record} {item : Item}

theorem mem_reduceOption_of_mapM {ε α β : Type} {f : α → Except ε (Option β)} {xs : List α}
    {ys : List (Option β)} (h : xs.mapM f = .ok ys) {y : β} (hy : y ∈ ys.reduceOption) :
    ∃ x ∈ xs, f x = .ok (some y) := by
  obtain ⟨x, hx, hf⟩ := forall₂_mem_left (mapM_eq_ok.1 h).flip (List.reduceOption_mem_iff.1 hy)
  exact ⟨x, hx, hf⟩

/-- A note that is found by its id is the one of its row. -/
theorem World.note?_of_mem {n : NoteRow} (hn : n ∈ w.notes) : w.note? n.id = some n := by
  have hsome : (w.note? n.id).isSome := List.find?_isSome.2 ⟨n, hn, by simp⟩
  obtain ⟨m, hm⟩ := Option.isSome_iff_exists.1 hsome
  have hid : m.id = n.id := by simpa using List.find?_some hm
  have hmn : m = n := List.inj_on_of_nodup_map w.notes_keyed (List.mem_of_find?_eq_some hm) hn hid
  rw [hm, hmn]

theorem World.source?_of_mem {s : SourceRow} (hs : s ∈ w.sources) :
    w.source? s.id = some s := by
  have hsome : (w.source? s.id).isSome := List.find?_isSome.2 ⟨s, hs, by simp⟩
  obtain ⟨t, ht⟩ := Option.isSome_iff_exists.1 hsome
  have hid : t.id = s.id := by simpa using List.find?_some ht
  have hts : t = s :=
    List.inj_on_of_nodup_map w.sources_keyed (List.mem_of_find?_eq_some ht) hs hid
  rw [ht, hts]

theorem World.entity?_of_mem {e : Dossiers.Entity} (he : e ∈ w.ledger.entities) :
    w.entity? (PyStr.ofText e.id) = some e := by
  have hsome : (w.entity? (PyStr.ofText e.id)).isSome := List.find?_isSome.2 ⟨e, he, by simp⟩
  obtain ⟨f, hf⟩ := Option.isSome_iff_exists.1 hsome
  have hid : PyStr.ofText f.id = PyStr.ofText e.id := by simpa using List.find?_some hf
  have hids : f.id = e.id := List.map_injective_iff.2 (fun a b => Char.toNat_inj.1) hid
  have hfe : f = e := List.inj_on_of_nodup_map w.ledger_keyed (List.mem_of_find?_eq_some hf) he hids
  rw [hf, hfe]

/-- The identity, the row and the age of the item of a note. -/
theorem planNote_spec {note : NoteRow} (h : planNote env w refs cutoff saved note = .ok (some item)) :
    ∃ deletedAt, deletedAt? refs saved note = some deletedAt ∧ deletedAt ≤ cutoff ∧
      noteItem env w saved note deletedAt = .ok item := by
  unfold planNote at h
  cases hdeleted : deletedAt? refs saved note with
  | none =>
    rw [hdeleted] at h
    cases h
  | some deletedAt =>
    rw [hdeleted] at h
    dsimp only at h
    split at h
    · cases h
    · next hcutoff =>
      refine ⟨deletedAt, rfl, not_lt.1 hcutoff, ?_⟩
      cases hitem : noteItem env w saved note deletedAt with
      | error e =>
        rw [hitem] at h
        cases h
      | ok item' =>
        rw [hitem] at h
        obtain rfl := Option.some.inj (Except.ok.inj h)
        rfl

/-- What the item of a note lists. -/
theorem noteItem_spec {note : NoteRow} {deletedAt : Instant}
    (h : noteItem env w saved note deletedAt = .ok item) :
    item.kind = .note ∧ item.id = note.id ∧ item.row = some (env.noteFingerprint note) ∧
      item.candidate.deletedAt = some deletedAt ∧ item.directories = [] ∧
      ∃ paths : List Parts, (∀ path ∈ recoveryFiles w.disk note.id, path ∈ paths) ∧
        paths.mapM (listed env w.disk .state) = .ok item.files := by
  unfold noteItem at h
  simp only [bind, Except.bind, pure, Except.pure] at h
  split at h
  · cases h
  · next files hfiles =>
    obtain rfl := Except.ok.inj h
    exact ⟨rfl, rfl, rfl, rfl, rfl, _, fun path hpath => by simp [hpath], hfiles⟩

/-- A note counts as deleted when its row says so and no file carries its identity. -/
theorem deletedAt?_spec {note : NoteRow} {deletedAt : Instant}
    (h : deletedAt? refs saved note = some deletedAt) :
    note.live = false ∧ note.id ∉ refs.ids ∧ note.updatedAt ≤ deletedAt := by
  unfold deletedAt? at h
  split at h
  · cases h
  · next hgone =>
    obtain ⟨hlive, hids⟩ := not_or.1 hgone
    refine ⟨by simpa using hlive, hids, ?_⟩
    split at h
    · obtain rfl := Option.some.inj h
      exact le_rfl
    · split at h
      · cases h
      · obtain rfl := Option.some.inj h
        exact le_max_left _ _

theorem resumable_of_planNote {note : NoteRow} (hn : note ∈ w.notes)
    (h : planNote env w refs cutoff saved note = .ok (some item)) :
    resumable env w refs item = true := by
  obtain ⟨deletedAt, hdeleted, -, hitem⟩ := planNote_spec h
  obtain ⟨hkind, hid, hrow, -, -, -⟩ := noteItem_spec hitem
  obtain ⟨hlive, hids, -⟩ := deletedAt?_spec hdeleted
  simp [resumable, hkind, hid, hrow, World.live, World.note?_of_mem hn, hlive, hids]

/-- The opening of a source is the identity of a note that is gone. -/
theorem provedOpening_spec {source : SourceRow} {state : Bundle} {opening : PyStr}
    (h : provedOpening w refs complete abandoned source state = .ok (some opening)) :
    opening ∉ refs.ids ∧ w.live opening = false := by
  cases state with
  | damaged => cases h
  | ok manifest =>
    simp only [provedOpening] at h
    split at h
    · cases h
    · next opening' _ =>
      split at h
      · cases h
      · next hids =>
        split at h
        · cases h
        · next hgone =>
          split at h
          · cases h
          · obtain rfl := Option.some.inj (Except.ok.inj h)
            exact ⟨hids, by simpa using fun hl => hgone (Or.inl hl)⟩
  | empty =>
    simp only [provedOpening] at h
    split at h
    · cases h
    · next opening' _ =>
      split at h
      · cases h
      · next hgone =>
        obtain rfl := Option.some.inj (Except.ok.inj h)
        exact ⟨fun hids => hgone (Or.inr (Or.inr hids)),
          by simpa using fun hl => hgone (Or.inr (Or.inl hl))⟩

theorem planSource_spec {source : SourceRow}
    (h : planSource env w refs complete abandoned source = .ok (some item)) :
    isProtected w refs source.id = false ∧ isValidId source.id = true ∧
      resolveTree w .sources [source.id] = .ok () ∧
      ∃ opening,
        provedOpening w refs complete abandoned source (bundle env w.disk source.id) =
          .ok (some opening) ∧
        sourceItem env w refs source (bundle env w.disk source.id) opening = .ok item := by
  unfold planSource at h
  cases hprotected : isProtected w refs source.id with
  | true =>
    rw [hprotected] at h
    cases h
  | false =>
    rw [hprotected] at h
    cases hvalid : isValidId source.id with
    | false =>
      rw [hvalid] at h
      cases h
    | true =>
      rw [hvalid] at h
      cases htree : resolveTree w .sources [source.id] with
      | error e =>
        simp only [htree, bind, Except.bind] at h
        cases h
      | ok u =>
        simp only [htree, bind, Except.bind] at h
        cases hopening : provedOpening w refs complete abandoned source
            (bundle env w.disk source.id) with
        | error e =>
          simp only [hopening] at h
          cases h
        | ok found =>
          simp only [hopening] at h
          cases found with
          | none => cases h
          | some opening =>
            refine ⟨rfl, rfl, rfl, opening, rfl, ?_⟩
            cases hitem : sourceItem env w refs source (bundle env w.disk source.id) opening with
            | error e =>
              simp only [hitem] at h
              cases h
            | ok item' =>
              simp only [hitem] at h
              obtain rfl := Option.some.inj (Except.ok.inj h)
              rfl

/-- What the item of a source lists. -/
theorem sourceItem_spec {source : SourceRow} {state : Bundle} {opening : PyStr}
    (h : sourceItem env w refs source state opening = .ok item) :
    item.kind = .source ∧ item.id = source.id ∧ item.row = some (env.sourceFingerprint source) ∧
      item.opening = some opening ∧
      item.directories = foldersUnder w.disk .sources [source.id] ++ [[source.id]] ∧
      ∃ bundleFiles claims pages,
        (filesUnder w.disk .sources [source.id]).mapM (listed env w.disk .sources) =
          .ok bundleFiles ∧
        claimFiles env w source = .ok claims ∧
        (sortedSet (refs.pagesOf source.id ++ recordedPath state)).mapM
          (projectionFile env w source.id) = .ok pages ∧
        item.files = bundleFiles ++ claims ++ pages.flatten := by
  unfold sourceItem at h
  simp only [bind, Except.bind, pure, Except.pure] at h
  split at h
  · cases h
  · next bundleFiles hbundle =>
    split at h
    · cases h
    · next claims hclaims =>
      split at h
      · cases h
      · next pages hpages =>
        obtain rfl := Except.ok.inj h
        exact ⟨rfl, rfl, rfl, rfl, rfl, bundleFiles, claims, pages, hbundle, hclaims, hpages, rfl⟩

theorem resumable_of_planSource {source : SourceRow} (hs : source ∈ w.sources)
    (h : planSource env w refs complete abandoned source = .ok (some item)) :
    resumable env w refs item = true := by
  obtain ⟨hprotected, -, -, opening, hopening, hitem⟩ := planSource_spec h
  obtain ⟨hkind, hid, hrow, hopens, -, -⟩ := sourceItem_spec hitem
  obtain ⟨hids, hlive⟩ := provedOpening_spec hopening
  simp [resumable, hkind, hid, hrow, hopens, hprotected, World.source?_of_mem hs, hlive, hids]

theorem planArchive_spec {id : PyStr} (h : planArchive env w cutoff id = .ok (some item)) :
    ∃ archive reason, removedArchive? env w id = some (archive, reason) ∧
      archive.removedAt ≤ cutoff ∧ archiveItem env w id archive reason = .ok item := by
  unfold planArchive at h
  cases hremoved : removedArchive? env w id with
  | none =>
    rw [hremoved] at h
    cases h
  | some found =>
    rw [hremoved] at h
    obtain ⟨archive, reason⟩ := found
    dsimp only at h
    split at h
    · cases h
    · next hcutoff =>
      refine ⟨archive, reason, rfl, not_lt.1 hcutoff, ?_⟩
      cases hitem : archiveItem env w id archive reason with
      | error e =>
        rw [hitem] at h
        cases h
      | ok item' =>
        rw [hitem] at h
        obtain rfl := Option.some.inj (Except.ok.inj h)
        rfl

theorem archiveItem_spec {id : PyStr} {archive : Archive} {reason : PyStr}
    (h : archiveItem env w id archive reason = .ok item) :
    item.kind = .artifact ∧ item.id = id ∧
      item.candidate.deletedAt = some archive.removedAt ∧
      item.directories = foldersUnder w.disk .artifacts [id] ++ [[id]] ∧
      resolveTree w .artifacts [id] = .ok () ∧
      (filesUnder w.disk .artifacts [id]).mapM (listed env w.disk .artifacts) = .ok item.files := by
  unfold archiveItem at h
  simp only [bind, Except.bind, pure, Except.pure] at h
  split at h
  · cases h
  · next htree =>
    split at h
    · cases h
    · next files hfiles =>
      obtain rfl := Except.ok.inj h
      exact ⟨rfl, rfl, rfl, rfl, htree, hfiles⟩

theorem resumable_of_planArchive {id : PyStr} (h : planArchive env w cutoff id = .ok (some item)) :
    resumable env w refs item = true := by
  obtain ⟨archive, reason, hremoved, -, hitem⟩ := planArchive_spec h
  obtain ⟨hkind, hid, -⟩ := archiveItem_spec hitem
  unfold removedArchive? at hremoved
  split at hremoved
  · cases hremoved
  · next hheld =>
    simp only [not_or] at hheld
    simp [resumable, hkind, hid, hheld.2]

theorem standing_spec {α : Type} {area : Area} {path : Parts} {value value' : α}
    (h : standing w area path value = .ok (some value')) :
    value' = value ∧ resolve w.disk area path = some (area.at path) ∧
      w.disk.has (area.at path) = true := by
  unfold standing resolveOr at h
  cases hr : resolve w.disk area path with
  | none =>
    rw [hr] at h
    cases h
  | some place =>
    rw [hr] at h
    obtain rfl := resolve_place hr
    have hvalue := Except.ok.inj h
    split at hvalue
    · next hhas => exact ⟨(Option.some.inj hvalue).symm, rfl, hhas⟩
    · cases hvalue

/-- What is left of an item is its own, without a row. -/
theorem residual_spec {old : Item} (h : residual env w old = .ok (some item)) :
    item.kind = old.kind ∧ item.id = old.id ∧ item.opening = old.opening ∧ item.row = none ∧
      (∀ f ∈ item.files, f ∈ old.files) ∧ (∀ path ∈ item.directories, path ∈ old.directories ∧
        resolve w.disk item.directoryRoot path = some (item.directoryRoot.at path)) ∧
      verifyFiles env w.disk item = .ok () := by
  unfold residual at h
  simp only [bind, Except.bind, pure, Except.pure] at h
  split at h
  · cases h
  · next files hfiles =>
    split at h
    · cases h
    · next directories hdirectories =>
      split at h
      · cases h
      · split at h
        · next hverify =>
          obtain rfl := Option.some.inj (Except.ok.inj h)
          refine ⟨rfl, rfl, rfl, rfl, fun f hf => ?_, fun path hpath => ?_, hverify⟩
          · obtain ⟨f', hf', hstands⟩ := mem_reduceOption_of_mapM hfiles hf
            exact (standing_spec hstands).1 ▸ hf'
          · obtain ⟨path', hpath', hstands⟩ := mem_reduceOption_of_mapM hdirectories hpath
            obtain ⟨rfl, hresolve, -⟩ := standing_spec hstands
            exact ⟨hpath', hresolve⟩
        · cases h
        · cases h

theorem resumable_of_residual {old : Item} (hunused : stillUnused w refs old = true)
    (h : residual env w old = .ok (some item)) : resumable env w refs item = true := by
  obtain ⟨hkind, hid, hopening, -, -⟩ := residual_spec h
  unfold stillUnused at hunused
  unfold resumable World.live
  rw [hkind, hid, hopening]
  cases hk : old.kind <;> simp_all [World.live]

theorem planEntity_spec {noteIds : List PyStr} {e : Dossiers.Entity}
    (h : planEntity env w cutoff noteIds e = .ok (some item)) :
    item.kind = .entity ∧ item.id = PyStr.ofText e.id ∧ item.row = some (env.entityDigest e) ∧
      item.directories = [] ∧ ∃ path, partsOf (PyStr.ofText e.path) = some path ∧
        (item.files = [] ∨ ∃ f, listed env w.disk .notes path = .ok f ∧ item.files = [f]) := by
  unfold planEntity at h
  dsimp only at h
  split at h
  · cases h
  · split at h
    · cases h
    · next path hpath =>
      cases hplace : resolveOr w.disk .notes path with
      | error e =>
        simp only [hplace, bind, Except.bind] at h
        cases h
      | ok place =>
        simp only [hplace, bind, Except.bind, pure, Except.pure] at h
        split at h
        · cases h
        · next goes hgoes =>
          cases goes with
          | false => cases h
          | true =>
            simp only [↓reduceIte] at h
            split at h
            · cases h
            · next files hfiles =>
              obtain rfl := Option.some.inj (Except.ok.inj h)
              refine ⟨rfl, rfl, rfl, rfl, path, hpath, ?_⟩
              unfold pageFiles at hfiles
              split at hfiles
              · cases hf : listed env w.disk .notes path with
                | error e =>
                  rw [hf] at hfiles
                  cases hfiles
                | ok f =>
                  rw [hf] at hfiles
                  obtain rfl := Except.ok.inj hfiles
                  exact Or.inr ⟨f, rfl, rfl⟩
              · exact Or.inl (Except.ok.inj hfiles).symm

theorem resumable_of_planEntity {noteIds : List PyStr} {e : Dossiers.Entity}
    (he : e ∈ w.ledger.entities) (h : planEntity env w cutoff noteIds e = .ok (some item)) :
    resumable env w refs item = true := by
  obtain ⟨hkind, hid, hrow, -⟩ := planEntity_spec h
  simp [resumable, hkind, hid, hrow, World.entity?_of_mem he]

variable (env w refs cutoff saved complete abandoned) in
/-- Where a listed item comes from. -/
inductive Planned (item : Item) : Prop where
  | note (n : NoteRow) (hn : n ∈ w.notes)
    (h : planNote env w refs cutoff saved n = .ok (some item))
  | source (s : SourceRow) (hs : s ∈ w.sources)
    (h : planSource env w refs complete abandoned s = .ok (some item))
  | archive (id : PyStr) (h : planArchive env w cutoff id = .ok (some item))
  | leftover (old : Item) (hold : old ∈ heldItems abandoned)
    (hunused : stillUnused w refs old = true) (h : residual env w old = .ok (some item))
  | entity (e : Dossiers.Entity) (he : e ∈ w.ledger.entities) (noteIds : List PyStr)
    (h : planEntity env w cutoff noteIds e = .ok (some item))

theorem mem_planLeftovers {rest items items' : List Item}
    (h : planLeftovers env w refs items rest = .ok items') (hitem : item ∈ items') :
    item ∈ items ∨ ∃ old ∈ rest, stillUnused w refs old = true ∧
      residual env w old = .ok (some item) := by
  induction rest generalizing items with
  | nil =>
    obtain rfl := Except.ok.inj h
    exact Or.inl hitem
  | cons old rest ih =>
    rw [planLeftovers] at h
    have hlater (items : List Item) (h : planLeftovers env w refs items rest = .ok items') :
        item ∈ items ∨ ∃ old' ∈ old :: rest, stillUnused w refs old' = true ∧
          residual env w old' = .ok (some item) := by
      obtain hmem | ⟨old', hold', hfrom⟩ := ih h
      · exact Or.inl hmem
      · exact Or.inr ⟨old', List.mem_cons_of_mem _ hold', hfrom⟩
    split at h
    · exact hlater items h
    · next hskip =>
      cases hres : residual env w old with
      | error e =>
        simp only [hres, bind, Except.bind] at h
        cases h
      | ok found =>
        simp only [hres, bind, Except.bind] at h
        cases found with
        | none => exact hlater items h
        | some item' =>
          obtain hmem | hfrom := hlater _ h
          · obtain hmem | hmem := List.mem_append.1 hmem
            · exact Or.inl hmem
            · obtain rfl := List.mem_singleton.1 hmem
              refine Or.inr ⟨old, List.mem_cons_self, ?_, hres⟩
              rw [not_or] at hskip
              simpa using hskip.2
          · exact Or.inr hfrom

/-- **Everything that is listed** is a deleted note, an unused source, a removed archive, a
leftover or a dossier. -/
theorem planned_of_mem {items : List Item} {kept : Kept}
    (h : candidatesFrom env w refs cutoff saved complete abandoned = .ok (items, kept))
    (hitem : item ∈ items) : Planned env w refs cutoff saved complete abandoned item := by
  unfold candidatesFrom at h
  cases hplan : plan env w refs cutoff saved complete abandoned with
  | error e =>
    simp only [hplan, bind, Except.bind] at h
    cases h
  | ok planned =>
    obtain ⟨listed, kept'⟩ := planned
    simp only [hplan, bind, Except.bind, pure, Except.pure] at h
    split at h
    · cases h
    · next entities hentities =>
      obtain ⟨rfl, -⟩ := Prod.ext_iff.1 (Except.ok.inj h)
      obtain hmem | hmem := List.mem_append.1 hitem
      · unfold plan at hplan
        simp only [bind, Except.bind, pure, Except.pure] at hplan
        split at hplan
        · cases hplan
        · next notes hnotes =>
          split at hplan
          · cases hplan
          · next sources hsources =>
            split at hplan
            · cases hplan
            · next removed hremoved =>
              split at hplan
              · cases hplan
              · next all hall =>
                obtain ⟨rfl, -⟩ := Prod.ext_iff.1 (Except.ok.inj hplan)
                obtain hfirst | ⟨old, hold, hunused, hres⟩ := mem_planLeftovers hall hmem
                · obtain hfirst | hfirst := List.mem_append.1 hfirst
                  · obtain hfirst | hfirst := List.mem_append.1 hfirst
                    · obtain ⟨n, hn, hnote⟩ := mem_reduceOption_of_mapM hnotes hfirst
                      exact .note n hn hnote
                    · obtain ⟨s, hs, hsource⟩ := mem_reduceOption_of_mapM hsources hfirst
                      exact .source s hs hsource
                  · obtain ⟨id, -, harchive⟩ := mem_reduceOption_of_mapM hremoved hfirst
                    exact .archive id harchive
                · exact .leftover old hold hunused hres
      · obtain ⟨e, he, hentity⟩ := mem_reduceOption_of_mapM hentities hmem
        exact .entity e he _ hentity

/-- **What is listed may be resumed**: the check of a resumed purge accepts a fresh list. -/
theorem Planned.resumable (h : Planned env w refs cutoff saved complete abandoned item) :
    Purge.resumable env w refs item = true := by
  cases h with
  | note n hn h => exact resumable_of_planNote hn h
  | source s hs h => exact resumable_of_planSource hs h
  | archive id h => exact resumable_of_planArchive h
  | leftover old hold hunused h => exact resumable_of_residual hunused h
  | entity e he noteIds h => exact resumable_of_planEntity he h

end Candidates

end Coppermind.Purge
