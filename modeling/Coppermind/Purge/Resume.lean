import Coppermind.Purge.Intact

/-!
# An interrupted purge is finished

Whatever attempts of a confirmation failed or were killed, and wherever, one more attempt that
nothing disturbs carries the purge out: what is listed is gone, from the records of the context
service too, and all the rest is as it was when the first attempt began, but for the catalog of the
dossiers, their rows, and the pages of those that stay.
-/

namespace Coppermind.Purge

open Coppermind.Lib
open Coppermind.Lib.Task (look lookOr forEach wp_perform_alone wp_look_alone wp_lookOr_alone
  wp_forEach)

/-- No step fails. -/
abbrev calm : Weather Site World := .alone fun _ => False

section Removing

variable {env : Env} {record : Record} {item : Item} {s : World} {places rest : List (List PyStr)}
  {d d' d'' : Disk} {K : Site → World → Prop} {E : Raised → World → Prop}

/-- The disk `d'` is `d` without the places. -/
def Erased (places : List (List PyStr)) (d d' : Disk) : Prop :=
  ∀ p, d'.lookup p = if p ∈ places then none else d.lookup p

theorem Erased.nil : Erased [] d d := fun p => by simp

theorem erased_erase {place : List PyStr} : Erased [place] d (d.erase place) := by
  intro p
  by_cases h : p = place
  · subst h
    simp
  · simp [h, AList.lookup_erase_ne h]

theorem erased_missing {place : List PyStr} (h : d.has place = false) : Erased [place] d d := by
  intro p
  by_cases hp : p = place
  · subst hp
    simpa [Volume.has] using h
  · simp [hp]

theorem Erased.append (h : Erased places d d') (h' : Erased rest d' d'') :
    Erased (places ++ rest) d d'' := by
  intro p
  rw [h' p, h p]
  by_cases hp : p ∈ places
  · simp [hp]
  · simp [hp]

theorem Erased.cleared (h : Erased places d d') {listed : List (List PyStr)}
    (hlisted : places ⊆ listed) {pages : List PyStr → Prop} : Cleared listed pages d d' := by
  intro p
  rw [h p]
  split
  · next hp => exact Or.inr (Or.inl ⟨hlisted hp, rfl⟩)
  · exact Or.inl rfl

theorem Erased.has (h : Erased places d d') {p : List PyStr} (hp : p ∈ places) :
    d'.has p = false := by
  rw [Volume.has, h p, if_pos hp]
  rfl

/-- The store with another disk. -/
def World.withDisk (w : World) (d : Disk) : World := { w with disk := d }

@[simp] theorem World.withDisk_disk : (s.withDisk d).disk = d := rfl

theorem wp_unlinkFile_calm {f : Listed} (h : verifyFile env s.disk f = .ok ()) :
    Task.wp calm (fun _ _ => True)
      (fun _ s' => ∃ d, s' = s.withDisk d ∧ Erased [f.place] s.disk d) E (unlinkFile env f) s := by
  unfold unlinkFile
  rw [Task.wp_bind]
  have hread : (do
      verifyFile env s.disk f
      return s.disk.has f.place : Except Raised Bool) = .ok (s.disk.has f.place) := by
    rw [h]
    rfl
  refine wp_lookOr_alone trivial ?_ ?_ nofun
  · intro present hpresent
    obtain rfl := Except.ok.inj (hread.symm.trans hpresent)
    split
    · rw [Task.wp_bind, wp_perform_alone]
      refine ⟨trivial, ?_, nofun⟩
      rw [wp_look_alone]
      exact ⟨trivial, ⟨_, rfl, erased_erase⟩, nofun⟩
    · next hmissing => exact ⟨s.disk, rfl, erased_missing (Bool.not_eq_true _ ▸ hmissing)⟩
  · intro e herror
    rw [hread] at herror
    cases herror

theorem wp_removeDirectory_calm {area : Area} {path : Parts}
    (hresolve : resolve s.disk area path = some (area.at path))
    (hempty : s.disk.has (area.at path) = true → s.disk.removable (area.at path) = true) :
    Task.wp calm (fun _ _ => True)
      (fun _ s' => ∃ d, s' = s.withDisk d ∧ Erased [area.at path] s.disk d) E
      (removeDirectory area path) s := by
  unfold removeDirectory
  rw [Task.wp_bind]
  have hread : (do
      let place ← resolveOr s.disk area path
      return s.disk.has place : Except Raised Bool) = .ok (s.disk.has (area.at path)) := by
    rw [resolveOr, hresolve]
    rfl
  refine wp_lookOr_alone trivial ?_ ?_ nofun
  · intro present hpresent
    obtain rfl := Except.ok.inj (hread.symm.trans hpresent)
    split
    · next hhas =>
      have hremovable := hempty hhas
      rw [Task.wp_bind, Task.wp_alone]
      refine ⟨trivial, ?_, nofun⟩
      rw [if_pos hremovable, Task.wp_done, wp_look_alone]
      refine ⟨trivial, ⟨_, ?_, erased_erase⟩, nofun⟩
      simp [effect, hremovable, World.withDisk]
    · next hmissing => exact ⟨s.disk, rfl, erased_missing (Bool.not_eq_true _ ▸ hmissing)⟩
  · intro e herror
    rw [hread] at herror
    cases herror

/-- **The files of an intact item** are removed. -/
theorem wp_unlinkFiles_calm (h : Intact env item s.disk) :
    Task.wp calm (fun _ _ => True)
      (fun _ s' => ∃ d, s' = s.withDisk d ∧ Erased item.filePlaces s.disk d) E
      (forEach (unlinkFile env) item.files) s := by
  refine wp_forEach (I := fun past s' => ∃ d, s' = s.withDisk d ∧
    Erased (past.map Listed.place) s.disk d) ?_ ⟨s.disk, rfl, Erased.nil⟩
  rintro past f rest hsplit s' ⟨d, rfl, herased⟩
  have hf : f ∈ item.files := by
    rw [hsplit]
    simp
  have hpast : past.map Listed.place ⊆ item.places := by
    intro p hp
    refine List.mem_append_left _ ?_
    rw [Item.filePlaces, hsplit, List.map_append]
    exact List.mem_append_left _ hp
  have hcleared : Cleared item.places (fun _ => False) s.disk d := herased.cleared hpast
  have hverify : verifyFile env d f = .ok () :=
    hcleared.verifyFile nofun (List.mem_append_left _ (List.mem_map_of_mem hf)) (h.files f hf)
  refine Task.wp_mono (wp_unlinkFile_calm (s := s.withDisk d) hverify) (fun _ _ h => h) ?_
    fun _ _ h => h
  rintro _ s'' ⟨d', rfl, herased'⟩
  refine ⟨d', rfl, ?_⟩
  rw [List.map_append]
  exact herased.append herased'

/-- **The folders of an intact item** whose files are gone are removed. -/
theorem wp_removeDirectories_calm (h : Intact env item s.disk)
    (hfiles : ∀ p ∈ item.filePlaces, s.disk.has p = false) :
    Task.wp calm (fun _ _ => True)
      (fun _ s' => ∃ d, s' = s.withDisk d ∧ Erased item.directoryPlaces s.disk d) E
      (forEach (removeDirectory item.directoryRoot) (deepestFirst item.directories)) s := by
  refine Task.wp_mono (wp_forEach (I := fun past s' => ∃ d, s' = s.withDisk d ∧
    Erased (past.map item.directoryRoot.at) s.disk d) ?_ ⟨s.disk, rfl, Erased.nil⟩)
    (fun _ _ h => h) ?_ fun _ _ h => h
  · rintro past path rest hsplit s' ⟨d, rfl, herased⟩
    have hmem : ∀ q, q ∈ item.directories ↔ q ∈ past ∨ q = path ∨ q ∈ rest := by
      intro q
      rw [← mem_deepestFirst, hsplit]
      simp
    have hplace : item.directoryRoot.at path ∈ item.directoryPlaces :=
      List.mem_map_of_mem ((hmem path).2 (Or.inr (Or.inl rfl)))
    have hpast : past.map item.directoryRoot.at ⊆ item.places := by
      intro p hp
      obtain ⟨q, hq, rfl⟩ := List.mem_map.1 hp
      exact List.mem_append_right _ (List.mem_map_of_mem ((hmem q).2 (Or.inl hq)))
    have hcleared : Cleared item.places (fun _ => False) s.disk d := herased.cleared hpast
    have hintact : Intact env item d := h.cleared nofun hcleared fun _ hp => hp
    have hresolve : resolve d item.directoryRoot path = some (item.directoryRoot.at path) :=
      hintact.resolved path ((hmem path).2 (Or.inr (Or.inl rfl)))
    have hempty : d.has (item.directoryRoot.at path) = true →
        d.removable (item.directoryRoot.at path) = true := by
      intro hhas
      obtain ⟨node, hnode⟩ := has_iff.1 hhas
      obtain rfl := hintact.folders _ hplace node hnode
      -- what stands under the folder is listed, and listed places that are deeper are gone
      have hunder : d.under (item.directoryRoot.at path) = [] := by
        have hdeeper : ∀ p ∈ rest.map item.directoryRoot.at,
            p.length ≤ (item.directoryRoot.at path).length := by
          intro p hp
          obtain ⟨q, hq, rfl⟩ := List.mem_map.1 hp
          have hsorted : (past ++ path :: rest).Pairwise fun p q => q.length ≤ p.length :=
            hsplit ▸ deepestFirst_sorted
          have hlength := (List.pairwise_cons.1 (List.pairwise_append.1 hsorted).2.1).1 q hq
          simpa [Area.at] using hlength
        have henclosed : Enclosed d item.directoryPlaces := by
          intro place hplace' p hp hbelow
          obtain hfile | hfolder := List.mem_append.1 (hintact.enclosed place hplace' p hp hbelow)
          · obtain ⟨node, hnode⟩ := has_iff.1 hp
            have hbefore := has_iff.2 ⟨node, hcleared.shrunk id hnode⟩
            rw [hfiles p hfile] at hbefore
            cases hbefore
          · exact hfolder
        refine under_deepest hdeeper hplace henclosed fun p hp hremain => ?_
        obtain ⟨q, hq, rfl⟩ := List.mem_map.1 hp
        obtain hq | rfl | hq := (hmem q).1 hq
        · exact herased.has (List.mem_map_of_mem hq)
        · exact absurd List.mem_cons_self hremain
        · exact absurd (List.mem_cons_of_mem _ (List.mem_map_of_mem hq)) hremain
      rw [Volume.removable, hnode, hunder]
      rfl
    refine Task.wp_mono (wp_removeDirectory_calm (s := s.withDisk d) hresolve hempty)
      (fun _ _ h => h) ?_ fun _ _ h => h
    rintro _ s'' ⟨d', rfl, herased'⟩
    refine ⟨d', rfl, ?_⟩
    rw [List.map_append]
    exact herased.append herased'
  · rintro _ s' ⟨d, rfl, herased⟩
    refine ⟨d, rfl, fun p => ?_⟩
    rw [herased p, Item.directoryPlaces]
    simp only [List.mem_map, mem_deepestFirst]

theorem wp_unlinkItem_calm (h : Intact env item s.disk) :
    Task.wp calm (fun _ _ => True)
      (fun _ s' => ∃ d, s' = s.withDisk d ∧ Erased item.places s.disk d) E
      (unlinkItem env item) s := by
  unfold unlinkItem
  apply Task.wp_seq (wp_unlinkFiles_calm h)
  rintro _ s' ⟨d, rfl, herased⟩
  have hcleared : Cleared item.places (fun _ => False) s.disk d :=
    herased.cleared fun _ hp => List.mem_append_left _ hp
  have hintact : Intact env item d := h.cleared nofun hcleared fun _ hp => hp
  refine Task.wp_mono (wp_removeDirectories_calm (s := s.withDisk d) hintact
    fun p hp => herased.has hp) (fun _ _ h => h) ?_ fun _ _ h => h
  rintro _ s'' ⟨d', rfl, herased'⟩
  exact ⟨d', rfl, herased.append herased'⟩

/-- **What a receipt lists** is removed. -/
theorem wp_unlinkItems_calm (h : ∀ item ∈ record.items, Intact env item s.disk) :
    Task.wp calm (fun _ _ => True)
      (fun _ s' => ∃ d, s' = s.withDisk d ∧ Erased record.places s.disk d) E
      (forEach (unlinkItem env) record.items) s := by
  refine wp_forEach (I := fun past s' => ∃ d, s' = s.withDisk d ∧
    Erased (past.flatMap Item.places) s.disk d) ?_ ⟨s.disk, rfl, Erased.nil⟩
  rintro past item rest hsplit s' ⟨d, rfl, herased⟩
  have hitem : item ∈ record.items := by
    rw [hsplit]
    simp
  have hpast : past.flatMap Item.places ⊆ record.places := by
    intro p hp
    rw [Record.places, hsplit, List.flatMap_append]
    exact List.mem_append_left _ hp
  have hcleared : Cleared record.places (fun _ => False) s.disk d := herased.cleared hpast
  have hintact : Intact env item d :=
    (h item hitem).cleared nofun hcleared fun p hp => List.mem_flatMap.2 ⟨item, hitem, hp⟩
  refine Task.wp_mono (wp_unlinkItem_calm (s := s.withDisk d) hintact) (fun _ _ h => h) ?_
    fun _ _ h => h
  rintro _ s'' ⟨d', rfl, herased'⟩
  refine ⟨d', rfl, ?_⟩
  rw [List.flatMap_append, List.flatMap_singleton]
  exact herased.append herased'

end Removing

section Completing

/-- A receipt, carried out. -/
def Record.finished (r : Record) : Record :=
  { r with state := .complete, error := none, completed := r.ids }

/-- The store `w'` is `w` after the purge. -/
structure Purged (env : Env) (record r : Record) (w w' : World) : Prop where
  places : ∀ p ∈ record.places, w'.disk.lookup p = none
  others : ∀ p, p ∉ record.places → w'.disk.lookup p = w.disk.lookup p ∨
    record.Page w.ledger p ∧ ∃ data, w'.disk.lookup p = some (.file data)
  notes : w'.notes = (w.commit record.items).notes
  sources : w'.sources = (w.commit record.items).sources
  links : w'.links = (w.commit record.items).links
  artifacts : w'.artifacts = w.artifacts
  dossiers : homes w'.ledger = record.staying w.ledger
  entityRows : w'.entityRows = w'.ledger.entities.map EntityRow.of
  context : record.Forgotten env w w'
  receipt : (w'.receipts .done).lookup record.token = some (some r)
  elsewhere : ∀ folder, folder ≠ .done → (w'.receipts folder).lookup record.token = none

/-- A call finds the purge unfinished, and no other. -/
structure Finds (call : Call) (record r : Record) (w : World) : Prop where
  request : call.request = .confirm record.token
  found : readReceipt call w record.token = .ok r
  unfinished : r.state.unfinished = true
  others : ∀ other ∈ records call w .root, other.state.unfinished = true →
    other.token = record.token

variable {env : Env} {call : Call} {record r : Record} {w s : World}
  {E : Raised → World → Prop}

theorem Waning.saved (h : Waning env record w s) (hr : r.Same record) {files : Receipts}
    (hsaving : Saving r s files) : Waning env record w (s.withReceipts files) := by
  refine { h with receipts := fun folder r' hr' => ?_ }
  obtain hold | ⟨-, rfl⟩ := hsaving.saysNoMore folder record.token r' hr'
  · exact h.receipts folder r' hold
  · exact hr

theorem Waning.withDisk (h : Waning env record w s) {d : Disk}
    (hd : Cleared record.places (record.Page w.ledger) s.disk d) :
    Waning env record w (s.withDisk d) :=
  { h with disk := h.disk.trans hd }

/-- What is intact and unused passes the check of a resumed purge. -/
theorem verifyItem_ok {refs : References} {item : Item} (h : Intact env item s.disk)
    (hresumable : resumable env s refs item = true) : verifyItem env s refs item = .ok () := by
  unfold verifyItem verifyFiles
  rw [if_pos hresumable, forM_eq_ok.2 h.files]
  have hbeside : (beside s.disk item).all (· ∈ item.files.map fun f => (f.area, f.path)) = true :=
    List.all_eq_true.2 fun p hp => by simpa using h.beside p hp
  exact if_pos hbeside

theorem wp_commitRows_calm (h : Checked env r.items s) :
    Task.wp calm (fun _ _ => True) (fun _ s' => s' = s.commit r.items) E
      (commitRows env r true) s := by
  obtain ⟨refs, hrefs, hresumable⟩ := h
  unfold commitRows
  rw [Task.wp_bind, wp_look_alone]
  refine ⟨trivial, ?_, nofun⟩
  rw [Task.wp_bind, wp_look_alone]
  refine ⟨trivial, ?_, nofun⟩
  rw [Task.wp_bind, Task.wp_raiseIf, if_neg (by simp), Task.wp_bind]
  refine wp_lookOr_alone trivial ?_ ?_ nofun
  · intro refs' hrefs'
    obtain rfl := Except.ok.inj (hrefs.symm.trans hrefs')
    have hunused : r.items.any (inUse s refs) = false :=
      List.any_eq_false.2 fun item hitem => by
        rw [inUse_of_resumable (hresumable item hitem)]
        simp
    rw [Task.wp_bind]
    refine wp_lookOr_alone trivial ?_ ?_ nofun
    · intro _ _
      rw [Task.wp_bind, wp_perform_alone]
      refine ⟨trivial, ?_, nofun⟩
      rw [wp_look_alone]
      exact ⟨trivial, rfl, nofun⟩
    · intro e herror
      rw [hunused] at herror
      cases herror
  · intro e herror
    rw [hrefs] at herror
    cases herror

/-- What follows the commit of the rows. -/
theorem wp_removeFiles_calm (hr : r.Same record)
    (hapart : Apart record.places (record.Page w.ledger))
    (hintact : ∀ item ∈ record.items, Intact env item s.disk)
    (hlegible : s.context.Legible env) (h : Waning env record w s) :
    Task.wp calm (fun _ _ => True)
      (fun _ s' => (Waning env record w s' ∧ record.Scrubbed s'.ledger ∧
          record.Forgotten env w s') ∧
        (s'.notes = s.notes ∧ s'.sources = s.sources ∧ s'.links = s.links ∧
          s'.entityRows = s'.ledger.entities.map EntityRow.of) ∧
        ∀ p ∈ record.places, s'.disk.lookup p = none)
      E (removeFiles env call r) s := by
  unfold removeFiles
  rw [hr.items]
  apply Task.wp_seq (wp_unlinkItems_calm hintact)
  rintro _ s' ⟨d, rfl, herased⟩
  have hcleared := h.withDisk (herased.cleared fun _ hp => hp)
  have hraised : (∃ _ : Site, False) ∨ ¬(s.withDisk d).context.Legible env → False := by
    rintro (⟨_, hfalse⟩ | hread)
    · exact hfalse
    · exact hread hlegible
  apply Task.wp_seq (Task.wp_mono (E := E) (wp_purgeEntities hr hcleared hapart fun hfault =>
    (hraised hfault).elim) (fun _ _ _ => trivial) (fun _ _ h => h) fun _ _ h => h)
  rintro _ s' ⟨⟨hwaning, hscrubbed, hforgotten⟩, hrows, hplaces⟩
  have hmirrored : Waning env record w (effect .mirror s') := hwaning.effect rfl trivial
  rw [Task.wp_bind, wp_look_alone]
  refine ⟨trivial, ?_, nofun⟩
  rw [wp_perform_alone]
  refine ⟨trivial, ⟨⟨hmirrored, hscrubbed, hforgotten⟩,
    ⟨hrows.notes, hrows.sources, hrows.links, rfl⟩, fun p hp => ?_⟩, nofun⟩
  change s'.disk.lookup p = none
  rw [hplaces p hp, World.withDisk_disk, herased p, if_pos hp]

/-- **From the first save on**, a purge that nothing disturbs is finished. -/
theorem wp_carryOut_calm (hr : r.Same record)
    (hapart : Apart record.places (record.Page w.ledger))
    (hintact : ∀ item ∈ record.items, Intact env item s.disk)
    (hchecked : Checked env record.items s) (hlegible : s.context.Legible env)
    (h : Waning env record w s) :
    Task.wp calm (fun _ _ => True) (fun a s' => a = r.finished ∧ Purged env record r.finished w s')
      (fun _ _ => False) (carryOut env call r true) s := by
  unfold carryOut
  dsimp only
  rw [Task.wp_bind]
  refine wp_save (fun _ _ _ _ => trivial) nofun fun files hfiles => ?_
  have hsame {state : State} {completed : List PyStr} :
      ({ r with state := state, error := none, completed := completed } : Record).Same record :=
    ⟨hr.token, hr.items, hr.createdAt, hr.retentionDays⟩
  have happlying := h.saved hsame hfiles.toSaving
  rw [Task.wp_bind, Task.wp_catchRaised]
  have hchecked' : Checked env r.items (s.withReceipts files) := hr.items ▸ hchecked
  refine Task.wp_mono (E := fun _ _ => False) (wp_commitRows_calm hchecked')
    (fun _ _ _ => trivial) ?_ fun _ _ h => h.elim
  rintro _ s' rfl
  have hcommitted : Waning env record w (effect (.commit r.items) (s.withReceipts files)) :=
    happlying.effect rfl hr.items
  rw [Task.wp_bind, Task.wp_catchRaised]
  refine Task.wp_mono (E := fun _ _ => False) (wp_removeFiles_calm hsame hapart hintact hlegible
    hcommitted) (fun _ _ _ => trivial) ?_ fun _ _ h => h.elim
  rintro _ s' ⟨⟨hwaning, hscrubbed, hforgotten⟩, ⟨hnotes, hsources, hlinks, hmirrored⟩, hplaces⟩
  rw [Task.wp_bind, Task.wp_catchRaised]
  refine wp_save (fun _ _ _ _ => trivial) nofun fun files' hfiles' => ?_
  refine ⟨rfl, hplaces, fun p hp => ?_, ?_, ?_, ?_, ?_, ?_, hmirrored, hforgotten, ?_, ?_⟩
  · obtain hkept | ⟨hlisted, -⟩ | hpage := hwaning.disk p
    · exact Or.inl hkept
    · exact absurd hlisted hp
    · exact Or.inr hpage
  · exact hnotes.trans (hr.items ▸ h.notes)
  · exact hsources.trans (hr.items ▸ h.sources)
  · exact hlinks.trans (hr.items ▸ h.links)
  · exact hwaning.artifacts
  · rw [← hwaning.staying, Record.staying, List.filter_eq_self.2]
    · rfl
    · intro e he
      obtain ⟨x, hx, rfl⟩ := List.mem_map.1 he
      exact decide_eq_true (hscrubbed x hx)
  · exact hr.token ▸ hfiles'.here
  · exact fun folder hfolder => hr.token ▸ hfiles'.elsewhere folder hfolder

/-- **An undisturbed attempt** finishes the purge. -/
theorem wp_confirm_calm (hfinds : Finds call record r s)
    (hapart : Apart record.places (record.Page w.ledger))
    (hintact : ∀ item ∈ record.items, Intact env item s.disk)
    (hchecked : Checked env record.items s) (hlegible : s.context.Legible env)
    (h : Waning env record w s) :
    Task.wp calm (fun _ _ => True) (fun a s' => a = r.finished ∧ Purged env record r.finished w s')
      (fun _ _ => False) (confirm env call record.token) s := by
  have hr : r.Same record := by
    obtain ⟨folder, hreceipt⟩ := readReceipt_spec hfinds.found
    exact h.receipts folder r hreceipt
  unfold confirm
  rw [Task.wp_bind]
  refine wp_lookOr_alone trivial ?_ ?_ nofun
  · intro r' hr'
    obtain rfl := Except.ok.inj (hfinds.found.symm.trans hr')
    rw [Task.wp_bind, wp_look_alone]
    refine ⟨trivial, ?_, nofun⟩
    have hothers : (records call s .root).any
        (fun other => other.token ≠ record.token && other.state.unfinished) = false := by
      refine List.any_eq_false.2 fun other hother hboth => ?_
      simp only [Bool.and_eq_true, decide_eq_true_eq] at hboth
      exact hboth.1 (hfinds.others other hother hboth.2)
    rw [Task.wp_bind, Task.wp_raiseIf, hothers, if_neg Bool.false_ne_true]
    have hresumed : Task.wp calm (fun _ _ => True)
        (fun a s' => a = r.finished ∧ Purged env record r.finished w s') (fun _ _ => False) (do
          let refs ← lookOr .references (.osError none) fun w => references env w.disk
          look .rows .sqlalchemyError fun _ => ()
          lookOr .verify (.osError none) fun w => r.items.forM (verifyItem env w refs)
          carryOut env call r true) s := by
      obtain ⟨refs, hrefs, hresumable⟩ := id hchecked
      rw [Task.wp_bind]
      refine wp_lookOr_alone trivial ?_ ?_ nofun
      · intro refs' hrefs'
        obtain rfl := Except.ok.inj (hrefs.symm.trans hrefs')
        rw [Task.wp_bind, wp_look_alone]
        refine ⟨trivial, ?_, nofun⟩
        rw [Task.wp_bind]
        refine wp_lookOr_alone trivial ?_ ?_ nofun
        · exact fun _ _ => wp_carryOut_calm hr hapart hintact hchecked hlegible h
        · intro e herror
          have hverified : r.items.forM (verifyItem env s refs) = .ok () :=
            forM_eq_ok.2 fun item hitem =>
              verifyItem_ok (hintact item (hr.items ▸ hitem)) (hresumable item (hr.items ▸ hitem))
          rw [hverified] at herror
          cases herror
      · intro e herror
        rw [hrefs] at herror
        cases herror
    have hunfinished := hfinds.unfinished
    cases hstate : r.state with
    | applying => exact hresumed
    | failed => exact hresumed
    | preview =>
      rw [hstate] at hunfinished
      cases hunfinished
    | complete =>
      rw [hstate] at hunfinished
      cases hunfinished
    | abandoned =>
      rw [hstate] at hunfinished
      cases hunfinished
  · intro e herror
    rw [hfinds.found] at herror
    cases herror

end Completing

section Attempts

variable {env : Env} {call : Call} {record r : Record} {w w' : World} {fails : Site → Prop}

/-- A store in which the purge can be carried out. -/
structure Ready (env : Env) (record : Record) (w : World) : Prop where
  receipts : ∀ folder r, w.receipt? folder record.token = some r → r.Same record
  items : ∀ item ∈ record.items, Intact env item w.disk
  /-- No dossier that stays has its page at a listed place. -/
  pages : ∀ p, record.Page w.ledger p → p ∉ record.places
  legible : w.context.Legible env
  noted : record.noted w.ledger = true → record.Scrubbed w.ledger

/-- The turns of a run that attempts to carry out one purge. -/
def Attempting (record : Record) (_ : Scene Site World Raised Record Call)
    (t : Turn Call World) : Prop :=
  (∀ next, t ≠ .event next) ∧ ∀ call, t = .start call → call.request = .confirm record.token

theorem Ready.apart (h : Ready env record w) :
    Apart record.places (record.Page w.ledger) := by
  intro p hp
  refine ⟨?_, h.pages p hp⟩
  obtain ⟨e, -, path, -, rfl⟩ := hp
  exact ⟨path, rfl⟩

theorem Ready.waning (h : Ready env record w) : Waning env record w w :=
  { receipts := h.receipts
    disk := Cleared.refl
    notes := rfl
    sources := rfl
    links := rfl
    artifacts := rfl
    staying := rfl
    context := .refl
    settled := fun _ => rfl
    noted := fun hnoted => ⟨h.noted hnoted, by rw [Record.Forgotten, if_pos hnoted]⟩ }

/-- **An attempt**, wherever it fails or is killed, keeps what is left. -/
theorem wp_operation_waning (hapart : Apart record.places (record.Page w.ledger))
    (hcall : call.request = .confirm record.token) (h : Waning env record w w') :
    Task.wp (.alone fails) (fun _ => Waning env record w) (fun _ => Waning env record w)
      (fun _ => Waning env record w) (operation env call) w' := by
  have hcarry {r : Record} (hr : r.Same record) (resuming : Bool) :
      Task.wp (.alone fails) (fun _ => Waning env record w) (fun _ => Waning env record w)
        (fun _ => Waning env record w) (carryOut env call r resuming) w' :=
    wp_carryOut_waning hr hapart h
  have hreport (e : Raised) (s : World) (hs : Waning env record w s) :
      Task.wp (.alone fails) (fun _ => Waning env record w) (fun _ => Waning env record w)
        (fun _ => Waning env record w) (report call e) s := by
    unfold report
    rw [hcall]
    cases reported? e with
    | none => exact hs
    | some e' => exact hs
  unfold operation
  rw [Task.wp_catchRaised]
  refine Task.wp_mono (E := fun _ => Waning env record w) ?_ (fun _ _ h => h) (fun _ _ h => h)
    hreport
  unfold answer
  rw [hcall]
  dsimp only
  unfold confirm
  rw [Task.wp_bind]
  refine wp_lookOr_alone (K := fun _ => Waning env record w) h ?_ (fun _ _ => h) fun _ => h
  intro r hread
  have hr : r.Same record := by
    obtain ⟨folder, hreceipt⟩ := readReceipt_spec hread
    exact h.receipts folder r hreceipt
  rw [Task.wp_bind, wp_look_alone]
  refine ⟨h, ?_, fun _ => h⟩
  rw [Task.wp_bind, Task.wp_raiseIf]
  split
  · exact h
  have hresumed : Task.wp (.alone fails) (fun _ => Waning env record w)
      (fun _ => Waning env record w) (fun _ => Waning env record w) (do
        let refs ← lookOr .references (.osError none) fun w => references env w.disk
        look .rows .sqlalchemyError fun _ => ()
        lookOr .verify (.osError none) fun w => r.items.forM (verifyItem env w refs)
        carryOut env call r true) w' := by
    rw [Task.wp_bind]
    refine wp_lookOr_alone (K := fun _ => Waning env record w) h ?_ (fun _ _ => h) fun _ => h
    intro refs _
    rw [Task.wp_bind, wp_look_alone]
    refine ⟨h, ?_, fun _ => h⟩
    rw [Task.wp_bind]
    refine wp_lookOr_alone (K := fun _ => Waning env record w) h ?_ (fun _ _ => h) fun _ => h
    exact fun _ _ => hcarry hr true
  cases r.state with
  | complete => exact h
  | abandoned => exact h
  | applying => exact hresumed
  | failed => exact hresumed
  | preview =>
    dsimp only
    rw [Task.wp_bind, wp_look_alone]
    refine ⟨h, ?_, fun _ => h⟩
    rw [Task.wp_bind, Task.wp_raiseIf]
    split
    · exact h
    · apply Task.wp_seq (wp_candidates (fun _ _ => h) fun _ => h)
      rintro ⟨items, kept⟩ s ⟨rfl, -⟩
      rw [Task.wp_bind, Task.wp_raiseIf]
      split
      · exact h
      · exact hcarry hr false

end Attempts

section Samples

/-- The list of a purge of the archive of the sample. -/
def sampleItem : Item where
  candidate :=
    { kind := .artifact, id := sampleId, title := sampleId, path := [], origins := []
      providers := [] }
  row := none
  files := [⟨.artifacts, [sampleId, manifestName], sampleId⟩]
  directories := [[sampleId]]

def sampleRecord : Record where
  token := sampleToken
  state := .applying
  createdAt := 0
  retentionDays := 1
  items := [sampleItem]
  kept := none
  completed := []

/-- A store whose purge was interrupted as soon as its receipt was saved. -/
def sampleBegun : World :=
  sampleWorld.setReceipts .root (AList.singleton sampleToken (some sampleRecord))

def sampleCut : List (Turn Call World) :=
  .start (sampleCall (.confirm sampleToken)) :: List.replicate 17 .resume ++ [.kill]

theorem sampleItem_intact : Intact sampleEnv sampleItem sampleWorld.disk where
  files f hf := by
    obtain rfl := List.mem_singleton.1 hf
    rfl
  beside := by decide +kernel
  resolved := by decide +kernel
  folders place hplace node hnode := by
    obtain rfl := List.mem_singleton.1 hplace
    have hfolder : sampleWorld.disk.lookup (Area.artifacts.at [sampleId]) = some .folder := by
      decide +kernel
    exact (Option.some.inj (hfolder.symm.trans hnode)).symm
  enclosed place hplace p hhas hbelow := by
    have hkeys : ∀ q ∈ sampleWorld.disk.keys, place <+: q → q ∈ sampleItem.places := by
      obtain rfl := List.mem_singleton.1 hplace
      decide +kernel
    exact hkeys p (AList.mem_keys.1 (AList.lookup_isSome.1 hhas)) hbelow

theorem sampleBegun_ready : Ready sampleEnv sampleRecord sampleBegun where
  receipts folder r hr := by
    have hroot : sampleBegun.receipt? .root sampleToken = some sampleRecord := by decide +kernel
    have hdone : sampleBegun.receipt? .done sampleToken = none := by decide +kernel
    have habandoned : sampleBegun.receipt? .abandoned sampleToken = none := by decide +kernel
    change sampleBegun.receipt? folder sampleToken = some r at hr
    cases folder with
    | root =>
      obtain rfl := Option.some.inj (hroot.symm.trans hr)
      exact .rfl
    | done =>
      rw [hdone] at hr
      cases hr
    | abandoned =>
      rw [habandoned] at hr
      cases hr
  items item hitem := by
    obtain rfl := List.mem_singleton.1 hitem
    exact sampleItem_intact
  pages p hp := by
    obtain ⟨e, he, -⟩ := hp
    cases he
  legible :=
    { books := fun book => ⟨[], rfl⟩
      corrections := fun name found h => by
        rw [show sampleBegun.context.corrections = ∅ from rfl, AList.lookup_empty] at h
        cases h
      jobs := fun name found h => by
        rw [show sampleBegun.context.jobs = ∅ from rfl, AList.lookup_empty] at h
        cases h }
  noted h := by cases h

theorem sampleCut_attempting :
    Along (serve sampleEnv) (Attempting sampleRecord) ⟨sampleBegun, none⟩ sampleCut := by
  apply Along.of_forall
  intro t ht scene
  simp only [sampleCut, List.mem_append, List.mem_cons, List.mem_replicate, List.not_mem_nil,
    or_false] at ht
  rcases ht with (rfl | ⟨-, rfl⟩) | rfl
  · refine ⟨fun next h => (by cases h), fun call hcall => ?_⟩
    obtain rfl := Turn.start.inj hcall
    rfl
  · exact ⟨fun next h => (by cases h), fun call h => (by cases h)⟩
  · exact ⟨fun next h => (by cases h), fun call h => (by cases h)⟩

theorem sampleCut_finds : Finds (sampleCall (.confirm sampleToken)) sampleRecord sampleRecord
    (sampleCut.foldl (serve sampleEnv) ⟨sampleBegun, none⟩).world where
  request := rfl
  found := readReceipt_root (by decide +kernel) (by decide +kernel)
  unfinished := rfl
  others := by decide +kernel

theorem sampleCut_checked : Checked sampleEnv sampleRecord.items
    (sampleCut.foldl (serve sampleEnv) ⟨sampleBegun, none⟩).world := by
  have hmarkdown :
      markdown (sampleCut.foldl (serve sampleEnv) ⟨sampleBegun, none⟩).world.disk = [] := by
    decide +kernel
  have hfolders : isDir (sampleCut.foldl (serve sampleEnv) ⟨sampleBegun, none⟩).world.disk
        (Area.notes.at []) = true ∧
      isDir (sampleCut.foldl (serve sampleEnv) ⟨sampleBegun, none⟩).world.disk
        (Area.sources.at []) = true := by decide +kernel
  refine ⟨{}, ?_, by decide +kernel⟩
  unfold references
  rw [if_pos hfolders, hmarkdown]
  rfl

end Samples

end Coppermind.Purge
