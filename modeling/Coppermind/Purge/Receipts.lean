import Coppermind.Purge.Runs

/-!
# What the receipts say along a run

At most one purge is unfinished, and what a receipt lists of notes was last touched a retention
period before the preview: no step of any operation changes that, so it holds at every point of
every run, also where an operation was killed between two files of receipts.
-/

namespace Coppermind.Purge

open Coppermind.Lib
open Coppermind.Lib.Task (perform look lookOr forEach catchRaised steps_pure steps_raised
  steps_bind steps_perform steps_forEach wp_perform_alone wp_look_alone wp_lookOr_alone)
open Coppermind.Notes (Instant FileBytes)

variable {env : Env} {call : Call} {w w' : World} {record r : Record} {token : PyStr}
  {fails : Site → Prop}

/-- At most one purge is unfinished. -/
def Single (w : World) : Prop :=
  ∀ t t' r r', w.receipt? .root t = some r → r.state.unfinished = true →
    w.receipt? .root t' = some r' → r'.state.unfinished = true → t = t'

/-- The rows of the notes that a receipt lists, by their fingerprints, were left alone for the
retention period. -/
def Record.Due (env : Env) (r : Record) : Prop :=
  ∀ item ∈ r.items, item.kind = .note → ∀ fingerprint, item.row = some fingerprint →
    ∃ n, env.noteFingerprint n = fingerprint ∧ n.updatedAt + r.retentionDays * day ≤ r.createdAt

def Retained (env : Env) (w : World) : Prop :=
  ∀ folder t r, w.receipt? folder t = some r → r.Due env

/-- What holds of the receipts at every point of a run. -/
structure Filed (env : Env) (w : World) : Prop where
  single : Single w
  retained : Retained env w

theorem Record.Same.due (h : r.Same record) (hdue : record.Due env) : r.Due env := by
  intro item hitem hkind fingerprint hrow
  rw [h.createdAt, h.retentionDays]
  exact hdue item (h.items ▸ hitem) hkind fingerprint hrow

theorem receipt?_iff {folder : Folder} :
    w.receipt? folder token = some r ↔
      (w.receipts folder).lookup token = some (some r) ∧ r.token = token := by
  unfold World.receipt?
  rw [Option.filter_eq_some_iff, Option.join_eq_some_iff]
  simp

/-- The files of receipts say what they said, or what one receipt says. -/
def SaysNoMore (record : Record) (w' w : World) : Prop :=
  ∀ folder t r, w'.receipt? folder t = some r → w.receipt? folder t = some r ∨
    t = record.token ∧ r = record ∧ folder = record.state.folder

theorem saysNoMore_erase {folder : Folder} :
    SaysNoMore record (w.setReceipts folder ((w.receipts folder).erase token)) w := by
  intro folder' t r h
  rw [receipt?_iff] at h ⊢
  obtain ⟨hlookup, htoken⟩ := h
  refine Or.inl ⟨?_, htoken⟩
  change (Function.update w.receipts folder _ folder').lookup t = _ at hlookup
  by_cases hf : folder' = folder
  · subst hf
    rw [Function.update_self] at hlookup
    by_cases ht : t = token
    · subst ht
      rw [AList.lookup_erase] at hlookup
      cases hlookup
    · rwa [AList.lookup_erase_ne ht] at hlookup
  · rwa [Function.update_of_ne hf] at hlookup

theorem saysNoMore_write : SaysNoMore record (effect (.write record) w) w := by
  intro folder t r h
  rw [receipt?_iff] at h ⊢
  obtain ⟨hlookup, htoken⟩ := h
  change (Function.update w.receipts record.state.folder _ folder).lookup t = _ at hlookup
  by_cases hf : folder = record.state.folder
  · subst hf
    rw [Function.update_self] at hlookup
    by_cases ht : t = record.token
    · subst ht
      rw [AList.lookup_insert] at hlookup
      exact Or.inr ⟨rfl, (Option.some.inj (Option.some.inj hlookup)).symm, rfl⟩
    · rw [AList.lookup_insert_ne ht] at hlookup
      exact Or.inl ⟨hlookup, htoken⟩
  · rw [Function.update_of_ne hf] at hlookup
    exact Or.inl ⟨hlookup, htoken⟩

theorem World.receipt?_congr (h : w'.receipts = w.receipts) (folder : Folder) (t : PyStr) :
    w'.receipt? folder t = w.receipt? folder t := by
  rw [World.receipt?, World.receipt?, h]

theorem Filed.congr (h : Filed env w) (hreceipts : w'.receipts = w.receipts) : Filed env w' where
  single t t' r r' hr hu hr' hu' := h.single t t' r r'
    (World.receipt?_congr hreceipts .root t ▸ hr) hu (World.receipt?_congr hreceipts .root t' ▸ hr')
    hu'
  retained folder t r hr := h.retained folder t r (World.receipt?_congr hreceipts folder t ▸ hr)

/-- A receipt that is not unfinished may be saved at any time. -/
theorem Filed.saysNoMore (h : Filed env w) (hmore : SaysNoMore record w' w)
    (hdue : record.Due env) (hstate : record.state.unfinished = false) : Filed env w' where
  single t t' r r' hr hu hr' hu' := by
    obtain hr | ⟨-, rfl, -⟩ := hmore .root t r hr
    · obtain hr' | ⟨-, rfl, -⟩ := hmore .root t' r' hr'
      · exact h.single t t' r r' hr hu hr' hu'
      · rw [hstate] at hu'
        cases hu'
    · rw [hstate] at hu
      cases hu
  retained folder t r hr := by
    obtain hr | ⟨-, rfl, -⟩ := hmore folder t r hr
    · exact h.retained folder t r hr
    · exact hdue

/-- The receipts while a purge is carried out: no other is unfinished. -/
structure Alone (env : Env) (record : Record) (w : World) : Prop where
  retained : Retained env w
  due : record.Due env
  others : ∀ t r, w.receipt? .root t = some r → r.state.unfinished = true → t = record.token

theorem Alone.filed (h : Alone env record w) : Filed env w where
  single t t' r r' hr hu hr' hu' := (h.others t r hr hu).trans (h.others t' r' hr' hu').symm
  retained := h.retained

theorem Alone.saysNoMore (h : Alone env record w) (hr : r.Same record)
    (hmore : SaysNoMore r w' w) : Alone env record w' where
  retained folder t r' hr' := by
    obtain hold | ⟨-, rfl, -⟩ := hmore folder t r' hr'
    · exact h.retained folder t r' hold
    · exact hr.due h.due
  due := h.due
  others t r' hr' hu := by
    obtain hold | ⟨rfl, -, -⟩ := hmore .root t r' hr'
    · exact h.others t r' hold hu
    · exact hr.token

theorem Alone.congr (h : Alone env record w) (hreceipts : w'.receipts = w.receipts) :
    Alone env record w' where
  retained folder t r hr := h.retained folder t r (World.receipt?_congr hreceipts folder t ▸ hr)
  due := h.due
  others t r hr hu := h.others t r (World.receipt?_congr hreceipts .root t ▸ hr) hu

/-- **Every step of a confirmation** keeps its purge the only one. -/
theorem Alone.effect (h : Alone env record w) {site : Site} (hsite : site.carries record) :
    Alone env record (effect site w) := by
  cases site with
  | write r => exact h.saysNoMore hsite saysNoMore_write
  | discard folder t => exact h.saysNoMore .rfl saysNoMore_erase
  | quarantine folder t =>
    have hmore : SaysNoMore record (Purge.effect (.quarantine folder t) w) w :=
      @saysNoMore_erase w _ t folder
    exact h.saysNoMore .rfl hmore
  | _ => exact h.congr rfl

theorem carries_of_plain {site : Site} (h : site.plain = false) : site.carries record := by
  cases site with
  | catalog => trivial
  | page => trivial
  | writeBook => trivial
  | dropCompletion => trivial
  | dropCorrection => trivial
  | dropJob => trivial
  | emptyDossiers => trivial
  | _ => cases h

/-- Removing files of receipts changes nothing of what the others say. -/
theorem Filed.effect (h : Filed env w) {site : Site} (hsite : site.removes = false)
    (hwrite : ∀ r, site = .write r → r.Due env ∧ r.state.unfinished = false) :
    Filed env (effect site w) := by
  have hempty : (⟨[], .preview, 0, 0, [], none, [], [], none⟩ : Record).Due env := nofun
  cases site with
  | write r => exact h.saysNoMore saysNoMore_write (hwrite r rfl).1 (hwrite r rfl).2
  | discard folder t => exact h.saysNoMore saysNoMore_erase hempty rfl
  | quarantine folder t =>
    have hmore : SaysNoMore ⟨[], .preview, 0, 0, [], none, [], [], none⟩
        (Purge.effect (.quarantine folder t) w) w :=
      @saysNoMore_erase w _ t folder
    exact h.saysNoMore hmore hempty rfl
  | _ => exact h.congr rfl

/-- A receipt that is on file says what it says wherever it is found. -/
theorem load_receipt? {folder : Folder} (h : load call w folder token = some r) :
    w.receipt? folder token = some r := by
  unfold load at h
  split at h
  · cases h
  · exact h

/-- A receipt that is read is on file. -/
theorem readReceipt_spec (h : readReceipt call w token = .ok r) :
    ∃ folder, w.receipt? folder token = some r := by
  unfold readReceipt at h
  cases hlocate : locate w token with
  | error e =>
    simp only [hlocate, bind, Except.bind] at h
    cases h
  | ok folder =>
    simp only [hlocate, bind, Except.bind] at h
    split at h
    · next r' hr => exact ⟨folder, load_receipt? (hr.trans (congrArg some (Except.ok.inj h)))⟩
    · cases h

/-- A receipt in the root is found first. -/
theorem readReceipt_root {call : Call} {w : World} {token : PyStr} {r : Record}
    (htoken : isToken token = true) (h : load call w .root token = some r) :
    readReceipt call w token = .ok r := by
  have hroot : ((w.receipts .root).lookup token).isSome = true := by
    rw [(receipt?_iff.1 (load_receipt? h)).1]
    rfl
  have hfind : [Folder.root, .done, .abandoned].find?
      (fun folder => ((w.receipts folder).lookup token).isSome) = some .root :=
    List.find?_cons_of_pos hroot
  unfold readReceipt locate
  rw [htoken, hfind]
  simp only [Bool.not_true, Bool.false_eq_true, if_false, bind, Except.bind]
  rw [h]

/-- What `save` does along the way. -/
theorem Saving.saysNoMore {files : Receipts} (h : Saving record w files) :
    ∀ folder t r, (w.withReceipts files).receipt? folder t = some r →
      w.receipt? folder t = some r ∨ t = record.token ∧ r = record := by
  intro folder t r hr
  rw [receipt?_iff] at hr ⊢
  obtain ⟨hlookup, htoken⟩ := hr
  change (files folder).lookup t = _ at hlookup
  by_cases ht : t = record.token
  · subst ht
    obtain hold | hnew := h.own folder _ hlookup
    · exact Or.inl ⟨hold, htoken⟩
    · exact Or.inr ⟨rfl, Option.some.inj hnew⟩
  · rw [h.others folder t ht] at hlookup
    exact Or.inl ⟨hlookup, htoken⟩

theorem Filed.saving {files : Receipts} (h : Filed env w) (hsaving : Saving record w files)
    (hdue : record.Due env) (hstate : record.state.unfinished = false) :
    Filed env (w.withReceipts files) where
  single t t' r r' hr hu hr' hu' := by
    obtain hr | ⟨-, rfl⟩ := hsaving.saysNoMore .root t r hr
    · obtain hr' | ⟨-, rfl⟩ := hsaving.saysNoMore .root t' r' hr'
      · exact h.single t t' r r' hr hu hr' hu'
      · rw [hstate] at hu'
        cases hu'
    · rw [hstate] at hu
      cases hu
  retained folder t r hr := by
    obtain hr | ⟨-, rfl⟩ := hsaving.saysNoMore folder t r hr
    · exact h.retained folder t r hr
    · exact hdue

/-- Saving a receipt that is not unfinished. -/
theorem wp_save_filed (h : Filed env w) (hdue : record.Due env)
    (hstate : record.state.unfinished = false) :
    Task.wp (.alone fails) (fun _ => Filed env) (fun _ => Filed env) (fun _ => Filed env)
      (save record) w :=
  wp_save (fun _ _ _ hr => h.saving hr hdue hstate) (fun _ _ _ hr => h.saving hr hdue hstate)
    fun _ hr => h.saving hr.toSaving hdue hstate

/-- **A preview** lists notes that were left alone for the retention period. -/
theorem due_of_candidates {refs : References} {saved : List Saved}
    {complete abandoned : List Record} {items : List Item} {kept : Kept}
    (h : candidatesFrom env w refs (call.now - w.retentionDays * day) saved complete abandoned =
      .ok (items, kept)) :
    (⟨token, .preview, call.now, w.retentionDays, items, some kept, [], [], none⟩ :
      Record).Due env := by
  intro item hitem hkind fingerprint hrow
  cases planned_of_mem h hitem with
  | note m hm hplan =>
    obtain ⟨deletedAt, hdeleted, hcutoff, hitem⟩ := planNote_spec hplan
    obtain ⟨-, -, hrow', -⟩ := noteItem_spec hitem
    obtain ⟨-, -, hupdated⟩ := deletedAt?_spec hdeleted
    exact ⟨m, Option.some.inj (hrow'.symm.trans hrow),
      Int.add_le_of_le_sub_right (le_trans hupdated hcutoff)⟩
  | source s hs hplan =>
    obtain ⟨-, -, -, opening, -, hitem⟩ := planSource_spec hplan
    exact absurd ((sourceItem_spec hitem).1 ▸ hkind) (by decide)
  | archive id hplan =>
    obtain ⟨archive, reason, -, -, hitem⟩ := planArchive_spec hplan
    exact absurd ((archiveItem_spec hitem).1 ▸ hkind) (by decide)
  | leftover old hold hunused hres =>
    rw [(residual_spec hres).2.2.2.1] at hrow
    cases hrow
  | entity e he noteIds hplan =>
    exact absurd ((planEntity_spec hplan).1 ▸ hkind) (by decide)

section Operations

/-- Steps of reading touch no file of receipts. -/
theorem wp_preview_filed (h : Filed env w) :
    Task.wp (.alone fails) (fun _ => Filed env) (fun _ => Filed env) (fun _ => Filed env)
      (preview env call) w := by
  unfold preview
  rw [Task.wp_bind, wp_look_alone]
  refine ⟨h, ?_, fun _ => h⟩
  split
  · exact h
  · have hrefresh : Task.wp (.alone fails) (fun _ => Filed env) (fun _ => Filed env)
        (fun _ => Filed env) (refresh env call) w :=
      Task.wp_of_keeping (steps_refresh fun site hremoves hsaves s hs =>
        hs.effect hremoves fun r hr => by rw [hr] at hsaves; cases hsaves) h
    apply Task.wp_seq hrefresh
    intro _ w hrefreshed
    apply Task.wp_seq (wp_candidates (fun _ _ => hrefreshed) fun _ => hrefreshed)
    rintro ⟨items, kept⟩ s ⟨rfl, refs, saved, complete, abandoned, -, hfound⟩
    rw [Task.wp_bind, wp_look_alone]
    refine ⟨hrefreshed, ?_, fun _ => hrefreshed⟩
    apply Task.wp_seq (wp_save_filed hrefreshed (due_of_candidates hfound) rfl)
    intro _ s hs
    refine Task.wp_of_keeping (steps_bind (steps_forEach fun old _ => ?_) fun _ => steps_pure _) hs
    exact steps_perform (fun s hs => hs.effect rfl nofun) _

theorem wp_abandon_filed (h : Filed env w) :
    Task.wp (.alone fails) (fun _ => Filed env) (fun _ => Filed env) (fun _ => Filed env)
      (abandon call token) w := by
  unfold abandon
  rw [Task.wp_bind]
  refine wp_lookOr_alone (K := fun _ => Filed env) h ?_ (fun _ _ => h) fun _ => h
  rintro ⟨folder, found⟩ hfound
  have hload : load call w folder token = found := by
    cases hlocate : locate w token with
    | error e =>
      simp only [hlocate, bind, Except.bind] at hfound
      cases hfound
    | ok folder' =>
      simp only [hlocate, bind, Except.bind] at hfound
      cases hfound
      rfl
  cases found with
  | none =>
    dsimp only
    rw [Task.wp_bind, wp_perform_alone]
    have hquarantined : Filed env (effect (.quarantine folder token) w) := h.effect rfl nofun
    refine ⟨h, ?_, fun _ => h⟩
    rw [Task.wp_bind, wp_look_alone]
    refine ⟨hquarantined, ?_, fun _ => hquarantined⟩
    rw [Task.wp_bind, wp_look_alone]
    exact ⟨hquarantined, hquarantined, fun _ => hquarantined⟩
  | some record =>
    dsimp only
    rw [Task.wp_bind, Task.wp_raiseIf]
    split
    · exact h
    · rw [Task.wp_bind, wp_look_alone]
      refine ⟨h, ?_, fun _ => h⟩
      have hdue : record.Due env := h.retained folder token record (load_receipt? hload)
      exact Task.wp_seq (wp_save_filed h (Record.Same.due ⟨rfl, rfl, rfl, rfl⟩ hdue) rfl)
        fun _ _ hs => hs

/-- A confirmation goes on only where no other purge is unfinished. -/
theorem wp_confirm_filed (hseen : ∀ t, call.blind .root t = false) (h : Filed env w) :
    Task.wp (.alone fails) (fun _ => Filed env) (fun _ => Filed env) (fun _ => Filed env)
      (confirm env call token) w := by
  unfold confirm
  rw [Task.wp_bind]
  refine wp_lookOr_alone (K := fun _ => Filed env) h ?_ (fun _ _ => h) fun _ => h
  intro record hread
  obtain ⟨folder, hreceipt⟩ := readReceipt_spec hread
  have htoken : record.token = token := (receipt?_iff.1 hreceipt).2
  rw [Task.wp_bind, wp_look_alone]
  refine ⟨h, ?_, fun _ => h⟩
  rw [Task.wp_bind, Task.wp_raiseIf]
  split
  · exact h
  next hothers =>
  have halone : Alone env record w := by
    refine ⟨h.retained, h.retained folder token record hreceipt, fun t r hr hu => ?_⟩
    rw [htoken]
    by_contra hne
    refine hothers (List.any_eq_true.2 ⟨r, ?_, ?_⟩)
    · refine List.mem_filterMap.2 ⟨t, ?_, ?_⟩
      · rw [List.mem_insertionSort, ← AList.mem_keys, ← AList.lookup_isSome,
          (receipt?_iff.1 hr).1]
        rfl
      · rw [load, hseen t]
        exact hr
    · simp [(receipt?_iff.1 hr).2, hne, hu]
  have hcarry (resuming : Bool) {s : World} (hs : Alone env record s) :
      Task.wp (.alone fails) (fun _ => Filed env) (fun _ => Filed env) (fun _ => Filed env)
        (carryOut env call record resuming) s :=
    Task.wp_mono (Task.wp_of_keeping
      (steps_carryOut
        (fun site _ hsite s (hs : Alone env record s) => hs.effect hsite)
        (fun site hsite s (hs : Alone env record s) => hs.effect (carries_of_plain hsite)) resuming)
      hs)
      (fun _ _ h => h.filed) (fun _ _ h => h.filed) fun _ _ h => h.filed
  have hresumed : Task.wp (.alone fails) (fun _ => Filed env) (fun _ => Filed env)
      (fun _ => Filed env) (do
        let refs ← lookOr .references (.osError none) fun w => references env w.disk
        look .rows .sqlalchemyError fun _ => ()
        lookOr .verify (.osError none) fun w => record.items.forM (verifyItem env w refs)
        carryOut env call record true) w := by
    rw [Task.wp_bind]
    refine wp_lookOr_alone (K := fun _ => Filed env) h ?_ (fun _ _ => h) fun _ => h
    intro refs _
    rw [Task.wp_bind, wp_look_alone]
    refine ⟨h, ?_, fun _ => h⟩
    rw [Task.wp_bind]
    refine wp_lookOr_alone (K := fun _ => Filed env) h ?_ (fun _ _ => h) fun _ => h
    intro _ _
    exact hcarry true halone
  cases record.state with
  | complete => exact h
  | abandoned => exact h
  | applying => exact hresumed
  | failed => exact hresumed
  | preview =>
    dsimp only
    rw [Task.wp_bind, wp_look_alone]
    refine ⟨h, ?_, fun _ => h⟩
    rw [Task.wp_bind, Task.wp_raiseIf]
    split
    · exact h
    · apply Task.wp_seq (wp_candidates (fun _ _ => h) fun _ => h)
      rintro ⟨items, kept⟩ s ⟨rfl, -⟩
      rw [Task.wp_bind, Task.wp_raiseIf]
      split
      · exact h
      · exact hcarry false halone

/-- **Every operation** keeps what holds of the receipts. -/
theorem wp_operation_filed (hseen : ∀ t, call.blind .root t = false) (h : Filed env w) :
    Task.wp (.alone fails) (fun _ => Filed env) (fun _ => Filed env) (fun _ => Filed env)
      (operation env call) w := by
  unfold operation
  rw [Task.wp_catchRaised]
  refine Task.wp_mono (E := fun _ => Filed env) ?_ (fun _ _ h => h) (fun _ _ h => h) ?_
  · unfold answer
    split
    · exact wp_preview_filed h
    · exact wp_confirm_filed hseen h
    · exact wp_abandon_filed h
  · intro e s hs
    unfold report
    split
    · exact hs
    · split
      · refine Task.wp_seq (R := fun _ => Filed env) ?_ fun _ _ hs => hs
        unfold previewFailure
        rw [Task.wp_catchRaised, Task.wp_bind, wp_look_alone]
        refine ⟨hs, ?_, fun _ => hs⟩
        exact wp_save_filed hs nofun rfl
      · exact hs

end Operations

/-- The operations that start in a run read every receipt that may be unfinished. -/
def Seeing (_ : Scene Site World Raised Record Call) (t : Turn Call World) : Prop :=
  ∀ call, t = .start call → ∀ token, call.blind .root token = false

section Samples

/-- A note that was deleted at the epoch. -/
def sampleNote : NoteRow where
  id := PyStr.lit "N"
  cells := fun
    | .path => PyStr.lit "N.md"
    | .title => none
    | .contentHash => []
    | .sizeBytes => 0
    | .mtime => none
    | .frontmatter => []
    | .schemaVersion => 1
    | .type => none
    | .context => none
    | .account => []
    | .date => none
    | .reviewed => false
    | .filed => false
    | .sourceIds => []
    | .artifactIds => []
    | .tags => []
    | .state => .deleted
    | .stateReason => none
  firstSeenAt := 0
  updatedAt := 0
  filedSourceIds := []

def sampleStore : World :=
  { sampleWorld with notes := [sampleNote], notes_keyed := List.nodup_singleton _ }

/-- A preview, and its confirmation up to the commit of the rows. -/
def sampleCommitted : List (Turn Call World) :=
  .start (sampleCall .preview) :: List.replicate 20 .resume ++
    .start (sampleCall (.confirm sampleToken)) :: List.replicate 18 .resume

end Samples

/-- **One purge at a time, after the retention period**: in every run of the operations from a
store where it holds, at most one purge is unfinished, and a row of a note that goes has the
fingerprint of a deleted row that was left alone for the retention period before the preview. -/
theorem purges_retain (env : Env) {w : World} (hw : Filed env w) {past : List (Turn Call World)}
    (hrun : Along (serve env) Seeing ⟨w, none⟩ past) {t : Turn Call World}
    (ht : ∀ next, t ≠ .event next) :
    Single (past.foldl (serve env) ⟨w, none⟩).world ∧
      ∀ n ∈ (past.foldl (serve env) ⟨w, none⟩).world.notes,
        n ∉ (serve env (past.foldl (serve env) ⟨w, none⟩) t).world.notes →
        n.live = false ∧ ∃ token record listed,
          Applying token record (past.foldl (serve env) ⟨w, none⟩).world ∧
            env.noteFingerprint listed = env.noteFingerprint n ∧
            listed.updatedAt + record.retentionDays * day ≤ record.createdAt := by
  have hfiled : Filed env (past.foldl (serve env) ⟨w, none⟩).world := by
    have hone : OneAtATime (fun _ _ => True) (fun _ _ => Filed env) (Filed env)
        (past.foldl (serve env) ⟨w, none⟩) := by
      have hevent : ∀ next s, Filed env s → Filed env (outside next s) :=
        fun next s hs => hs.congr rfl
      exact oneAtATime_along (P := Seeing)
        (fun _ call hsees s hs => wp_operation_filed (hsees call rfl) hs)
        (fun _ _ _ => rfl) (fun _ next _ => hevent next) (fun _ _ => trivial) hrun hw
    exact hone.world
  refine ⟨hfiled.single, fun n hn hgone => ?_⟩
  obtain hsame | ⟨site, hallowed, heffect⟩ := allowed_turn env w past ht
  · rw [hsame] at hgone
    exact absurd hn hgone
  rw [heffect] at hgone
  obtain ⟨token, record, item, happlying, hitem, hkind, -, hrow, hlive, -⟩ :=
    (lawful_effect hallowed).notes n hn hgone
  obtain ⟨listed, hlisted, hdue⟩ :=
    hfiled.retained .root token record happlying.1 item hitem hkind _ hrow
  exact ⟨hlive, token, record, listed, happlying, hlisted, hdue⟩

theorem sampleStore_filed : Filed sampleEnv sampleStore where
  single t t' r r' h := by cases h
  retained folder t r h := by cases h

theorem sampleCommitted_seeing : Along (serve sampleEnv) Seeing ⟨sampleStore, none⟩ sampleCommitted := by
  apply Along.of_forall
  rintro t ht scene call rfl token
  simp only [sampleCommitted, List.mem_append, List.mem_cons, List.mem_replicate,
    Turn.start.injEq, reduceCtorEq, and_false, or_false] at ht
  obtain rfl | rfl := ht
  · rfl
  · rfl

/-- The next turn of the sample removes the row of its note, which is due. -/
theorem purges_retain_sample :
    (sampleCommitted.foldl (serve sampleEnv) ⟨sampleStore, none⟩).world.notes.length = 1 ∧
      (serve sampleEnv (sampleCommitted.foldl (serve sampleEnv) ⟨sampleStore, none⟩)
        .resume).world.notes.length = 0 ∧
      Single (sampleCommitted.foldl (serve sampleEnv) ⟨sampleStore, none⟩).world :=
  ⟨by decide +kernel, by decide +kernel,
    (@purges_retain sampleEnv sampleStore sampleStore_filed sampleCommitted sampleCommitted_seeing
      .resume (by intro next h; cases h)).1⟩

end Coppermind.Purge
