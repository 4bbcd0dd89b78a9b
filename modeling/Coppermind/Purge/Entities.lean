import Coppermind.Purge.Steps

/-!
# What a purge does beside its list

`forgetNotes` goes through the records of the context service, `projectAll` through the dossiers.
Wherever the one is cut, it leaves records that are `Forgetting`; wherever the other is, the same
dossiers in the catalog and some of their pages written.
-/

namespace Coppermind.Purge

open Coppermind.Lib
open Coppermind.Lib.Task (perform look lookOr forEach wp_perform_alone wp_look_alone
  wp_lookOr_alone wp_forEach)
open Coppermind.Notes (Instant FileBytes)

section Records

variable {env : Env} {ids : List PyStr} {fails : Site → Prop} {K : Site → World → Prop}
  {E : Raised → World → Prop} {w : World} {c c' : Context}

/-- `K` holds before every step, and `E` where a step raises, of a task that forgets the notes. -/
structure Covers (env : Env) (ids : List PyStr) (fails : Site → Prop) (K : Site → World → Prop)
    (E : Raised → World → Prop) (w : World) : Prop where
  step : ∀ site c, site.beside = true → Forgetting env ids w.context c →
    Forgetting env ids c (effect site (w.withContext c)).context → K site (w.withContext c)
  raised : ∀ e c, Forgetting env ids w.context c →
    (∃ site, fails site) ∨ ¬c.Legible env → E e (w.withContext c)

theorem Covers.later (h : Covers env ids fails K E w) (hc : Forgetting env ids w.context c) :
    Covers env ids fails K E (w.withContext c) where
  step site _ hsite hleft hnext := h.step site _ hsite (hc.trans hleft) hnext
  raised e _ hleft := h.raised e _ (hc.trans hleft)

/-- A step that only reads. -/
theorem Covers.reads (h : Covers env ids fails K E w) {site : Site} (hsite : site.beside = true)
    (hsame : ∀ w, effect site w = w) : K site w :=
  h.step site w.context hsite .refl (by rw [hsame]; exact .refl)

theorem Covers.fault (h : Covers env ids fails K E w) {site : Site} (hf : fails site) (e : Raised) :
    E e w :=
  h.raised e w.context .refl (Or.inl ⟨site, hf⟩)

theorem Covers.illegible (h : Covers env ids fails K E w) (hread : ¬w.context.Legible env)
    (e : Raised) : E e w :=
  h.raised e w.context .refl (Or.inr hread)

/-- A step that writes or removes one record. -/
theorem Covers.perform (h : Covers env ids fails K E w) {site : Site} (hsite : site.beside = true)
    (heffect : effect site w = w.withContext c) (hc : Forgetting env ids w.context c)
    {Q : Unit → World → Prop} (hQ : Q () (w.withContext c)) :
    Task.wp (.alone fails) K Q E (Task.perform effect site (.osError none)) w := by
  refine wp_perform_alone.2 ⟨?_, heffect ▸ hQ, fun hf => h.fault hf _⟩
  refine h.step site w.context hsite .refl ?_
  change Forgetting env ids w.context (effect site w).context
  rw [heffect]
  exact hc

theorem wp_rewriteBook (h : Covers env ids fails K E w) (book : Book) :
    Task.wp (.alone fails) K
      (fun _ s => ∃ members, w.context.read env book = .ok members ∧
        s = w.withContext (w.context.writeBook book (without ids members)))
      E (rewriteBook env ids book) w := by
  unfold rewriteBook
  rw [Task.wp_bind]
  refine wp_lookOr_alone (h.reads rfl fun _ => rfl) (fun members hread => ?_)
    (fun e herror => h.illegible (fun hlegible => ?_) e) fun hf => h.fault hf _
  · exact h.perform rfl rfl (forgetting_writeBook hread) ⟨members, hread, rfl⟩
  · obtain ⟨members, hread⟩ := hlegible.books book
    rw [hread] at herror
    cases herror

/-- The three records are rewritten, one after the other. -/
theorem wp_rewriteBooks (h : Covers env ids fails K E w) :
    Task.wp (.alone fails) K
      (fun _ s => ∃ c, s = w.withContext c ∧ Forgetting env ids w.context c ∧
        ∀ book, Rewritten env ids w.context c book)
      E (forEach (rewriteBook env ids) [.finalized, .associations, .calendarFollowups]) w := by
  refine Task.wp_mono (wp_forEach (I := fun past s => ∃ c, s = w.withContext c ∧
    Forgetting env ids w.context c ∧ (∀ book ∈ past, Rewritten env ids w.context c book) ∧
      ∀ book ∉ past, c.books book = w.context.books book) ?_
    ⟨w.context, rfl, .refl, by simp, fun _ _ => rfl⟩) (fun _ _ h => h) ?_ fun _ _ h => h
  · rintro past book rest hsplit s ⟨c, rfl, hc, hdone, hleft⟩
    refine Task.wp_mono (wp_rewriteBook (h.later hc) book) (fun _ _ h => h) ?_ fun _ _ h => h
    rintro _ s ⟨members, hread, rfl⟩
    have hnodup : (past ++ book :: rest).Nodup := by
      rw [← hsplit]
      decide
    have hnew : book ∉ past := fun hpast =>
      (List.nodup_append.1 hnodup).2.2 book hpast book List.mem_cons_self rfl
    refine ⟨_, rfl, hc.trans (forgetting_writeBook hread), fun book' hbook' => ?_,
      fun book' hbook' => ?_⟩
    · obtain hpast | hlast := List.mem_append.1 hbook'
      · obtain ⟨members', hread', hwritten⟩ := hdone book' hpast
        refine ⟨members', hread', (Function.update_of_ne ?_ _ _).trans hwritten⟩
        rintro rfl
        exact hnew hpast
      · obtain rfl := List.mem_singleton.1 hlast
        refine ⟨members, ?_, Function.update_self _ _ _⟩
        rw [← Context.read_congr (hleft book' hnew)]
        exact hread
    · refine (Function.update_of_ne ?_ _ _).trans (hleft book' fun hpast => ?_)
      · rintro rfl
        exact hbook' (List.mem_append_right _ (List.mem_singleton.2 rfl))
      · exact hbook' (List.mem_append_left _ hpast)
  · rintro _ s ⟨c, rfl, hc, hdone, -⟩
    refine ⟨c, rfl, hc, fun book => hdone book ?_⟩
    cases book <;> decide

theorem wp_dropCompletions (h : Covers env ids fails K E w) :
    Task.wp (.alone fails) K
      (fun _ s => s = w.withContext { w.context with
        completions := w.context.completions \ ids.toFinset })
      E (forEach (fun id => perform effect (.dropCompletion id) (.osError none)) ids) w := by
  refine wp_forEach (I := fun past s => s = w.withContext { w.context with
    completions := w.context.completions \ past.toFinset }) ?_ ?_
  · rintro past id rest hsplit s rfl
    have hid : id ∈ ids := by
      rw [hsplit]
      simp
    have hpast : Forgetting env ids w.context
        { w.context with completions := w.context.completions \ past.toFinset } := by
      refine forgetting_completions (Finset.sdiff_subset_sdiff (Finset.Subset.refl _)
        fun x hx => ?_) Finset.sdiff_subset
      rw [List.mem_toFinset] at hx ⊢
      rw [hsplit]
      exact List.mem_append_left _ hx
    refine (h.later hpast).perform rfl rfl (forgetting_dropCompletion hid) ?_
    have hset : (w.context.completions \ past.toFinset).erase id =
        w.context.completions \ (past ++ [id]).toFinset := by
      ext x
      simp only [Finset.mem_sdiff, Finset.mem_erase, List.mem_toFinset, List.mem_append,
        List.mem_singleton, not_or]
      tauto
    rw [← hset]
    rfl
  · simp [World.withContext]

/-- One correction is read, and goes where it names one of the notes. -/
theorem wp_checkCorrection (h : Covers env ids fails K E w) {name : PyStr} {found : Option Json}
    (hfound : w.context.corrections.lookup name = some found) :
    Task.wp (.alone fails) K
      (fun _ s => s = if correctsOne ids found = true
        then w.withContext (w.context.dropCorrection name) else w)
      E (checkCorrection ids name) w := by
  unfold checkCorrection
  rw [Task.wp_bind]
  refine wp_lookOr_alone (h.reads rfl fun _ => rfl) (fun note hread => ?_)
    (fun e herror => h.illegible (fun hlegible => ?_) e) fun hf => h.fault hf _
  · rw [hfound, Option.join_some] at hread
    have hone : correctsOne ids found = note.any (· ∈ ids) := by
      rw [correctsOne, hread]
      cases note <;> rfl
    rw [hone]
    split
    · next hids =>
      refine h.perform rfl rfl (forgetting_dropCorrection fun found' hfound' => ?_) rfl
      obtain rfl := Option.some.inj (hfound.symm.trans hfound')
      rw [hone, hids]
    · rfl
  · obtain ⟨note, hnote⟩ := hlegible.corrections name found hfound
    rw [hfound, Option.join_some, hnote] at herror
    cases herror

theorem wp_checkCorrections (h : Covers env ids fails K E w) :
    Task.wp (.alone fails) K
      (fun _ s => ∃ corrections, s = w.withContext { w.context with corrections := corrections } ∧
        Dropped (correctsOne ids) w.context.corrections corrections)
      E (forEach (checkCorrection ids) w.context.corrections.keys) w := by
  refine Task.wp_mono (wp_forEach (I := fun past s => ∃ corrections,
    s = w.withContext { w.context with corrections := corrections } ∧
    Dropping (correctsOne ids) w.context.corrections corrections ∧
    (∀ name ∉ past, corrections.lookup name = w.context.corrections.lookup name) ∧
    ∀ name ∈ past, ∀ found, corrections.lookup name = some found →
      correctsOne ids found = false) ?_
    ⟨_, rfl, .refl, fun _ _ => rfl, by simp⟩) (fun _ _ h => h) ?_ fun _ _ h => h
  · rintro past name rest hsplit s ⟨corrections, rfl, hdropping, hleft, hdone⟩
    have hc : Forgetting env ids w.context { w.context with corrections := corrections } :=
      forgetting_corrections hdropping
    have hnew : name ∉ past := by
      have hnodup := w.context.corrections.keys_nodup
      rw [hsplit] at hnodup
      exact fun hpast => (List.nodup_append.1 hnodup).2.2 name hpast name List.mem_cons_self rfl
    obtain ⟨found, hfound⟩ : ∃ found, corrections.lookup name = some found := by
      rw [hleft name hnew, ← Option.isSome_iff_exists, AList.lookup_isSome, AList.mem_keys, hsplit]
      simp
    refine Task.wp_mono (wp_checkCorrection (h.later hc) hfound) (fun _ _ h => h) ?_ fun _ _ h => h
    rintro _ s rfl
    split
    · next hone =>
      refine ⟨corrections.erase name, rfl, hdropping.trans (dropping_erase fun found' hfound' => ?_),
        fun name' hname' => ?_, fun name' hname' found' hfound' => ?_⟩
      · obtain rfl := Option.some.inj (hfound.symm.trans hfound')
        exact hone
      · rw [List.mem_append, List.mem_singleton, not_or] at hname'
        rw [AList.lookup_erase_ne hname'.2]
        exact hleft name' hname'.1
      · by_cases hsame : name' = name
        · subst hsame
          rw [AList.lookup_erase] at hfound'
          cases hfound'
        · rw [AList.lookup_erase_ne hsame] at hfound'
          obtain hpast | hlast := List.mem_append.1 hname'
          · exact hdone name' hpast found' hfound'
          · exact absurd (List.mem_singleton.1 hlast) hsame
    · next hone =>
      refine ⟨corrections, rfl, hdropping, fun name' hname' => hleft name' fun hpast =>
        hname' (List.mem_append_left _ hpast), fun name' hname' found' hfound' => ?_⟩
      obtain hpast | hlast := List.mem_append.1 hname'
      · exact hdone name' hpast found' hfound'
      · obtain rfl := List.mem_singleton.1 hlast
        obtain rfl := Option.some.inj (hfound.symm.trans hfound')
        exact Bool.not_eq_true _ ▸ hone
  · rintro _ s ⟨corrections, rfl, hdropping, -, hdone⟩
    refine ⟨corrections, rfl, hdropping.all fun name found hfound => hdone name ?_ found hfound⟩
    rw [← AList.mem_keys, ← AList.lookup_isSome, hdropping.lookup hfound]
    rfl

theorem readJob_eq_ok {name : PyStr} {job : EnrichmentJob} :
    c.readJob name = .ok job ↔ c.jobs.lookup name = some (some job) := by
  unfold Context.readJob
  rw [← Option.join_eq_some_iff]
  cases (c.jobs.lookup name).join with
  | none => exact ⟨fun h => (by cases h), fun h => (by cases h)⟩
  | some job' => simp

/-- What is read of the jobs: each file that is there, under the id of its job. -/
theorem readJobs_spec {jobs : List EnrichmentJob} (h : c.readJobs = .ok jobs) :
    (∀ job ∈ jobs, c.jobs.lookup job.id = some (some job)) ∧
      ∀ name found, c.jobs.lookup name = some found → ∃ job ∈ jobs, found = some job := by
  have hmapped := mapM_eq_ok.1 h
  constructor
  · intro job hjob
    obtain ⟨name, -, hname⟩ := forall₂_mem_left hmapped.flip hjob
    have hlookup := readJob_eq_ok.1 hname
    rwa [c.jobs_filed name job hlookup]
  · intro name found hfound
    have hname : name ∈ c.jobs.keys.insertionSort (· ≤ ·) := by
      rw [List.mem_insertionSort, ← AList.mem_keys, ← AList.lookup_isSome, hfound]
      rfl
    obtain ⟨job, hjob, hread⟩ := forall₂_mem_left hmapped hname
    exact ⟨job, hjob, Option.some.inj (hfound.symm.trans (readJob_eq_ok.1 hread))⟩

theorem readJobs_raised {e : Raised} (h : c.readJobs = .error e) : ¬c.Legible env := by
  intro hlegible
  have hread : ∀ name ∈ c.jobs.keys.insertionSort (· ≤ ·), ∃ job,
      c.jobs.lookup name = some (some job) := by
    intro name hname
    rw [List.mem_insertionSort, ← AList.mem_keys, ← AList.lookup_isSome] at hname
    obtain ⟨found, hfound⟩ := Option.isSome_iff_exists.1 hname
    obtain ⟨job, rfl⟩ := Option.isSome_iff_exists.1 (hlegible.jobs name found hfound)
    exact ⟨job, hfound⟩
  unfold Context.readJobs at h
  generalize c.jobs.keys.insertionSort (· ≤ ·) = names at h hread
  induction names generalizing e with
  | nil => cases h
  | cons name names ih =>
    obtain ⟨job, hjob⟩ := hread name List.mem_cons_self
    rw [List.mapM_cons, readJob_eq_ok.2 hjob] at h
    simp only [bind, Except.bind] at h
    split at h
    · next e' he' => exact ih he' fun name hname => hread name (List.mem_cons_of_mem _ hname)
    · cases h

theorem wp_dropJobs (h : Covers env ids fails K E w) {jobs : List EnrichmentJob}
    (hread : w.context.readJobs = .ok jobs) :
    Task.wp (.alone fails) K
      (fun _ s => ∃ c, s = w.withContext c ∧ Forgetting env ids w.context c ∧
        c.books = w.context.books ∧ c.completions = w.context.completions ∧
        c.corrections = w.context.corrections ∧ Dropped (jobOfOne ids) w.context.jobs c.jobs)
      E (forEach (fun job : EnrichmentJob => perform effect (.dropJob job.id) (.osError none))
        (jobs.filter (·.noteId ∈ ids))) w := by
  obtain ⟨hfiled, hall⟩ := readJobs_spec hread
  refine Task.wp_mono (wp_forEach (I := fun past s => ∃ c, s = w.withContext c ∧
    Forgetting env ids w.context c ∧ c.books = w.context.books ∧
    c.completions = w.context.completions ∧ c.corrections = w.context.corrections ∧
    ∀ job ∈ past, c.jobs.lookup job.id = none) ?_
    ⟨w.context, rfl, .refl, rfl, rfl, rfl, by simp⟩) (fun _ _ h => h) ?_ fun _ _ h => h
  · rintro past job rest hsplit s ⟨c, rfl, hc, hbooks, hcompletions, hcorrections, hdone⟩
    obtain ⟨hjob, hnote⟩ : job ∈ jobs ∧ job.noteId ∈ ids := by
      have hmem : job ∈ jobs.filter (·.noteId ∈ ids) := by
        rw [hsplit]
        simp
      simpa using List.mem_filter.1 hmem
    have hone : ∀ found, c.jobs.lookup job.id = some found → jobOfOne ids found = true := by
      intro found hfound
      obtain rfl := Option.some.inj ((hfiled job hjob).symm.trans (hc.jobs.lookup hfound))
      simpa [jobOfOne] using hnote
    have hnext : Forgetting env ids c (c.dropJob job.id) := forgetting_dropJob hone
    refine (h.later hc).perform rfl rfl hnext ?_
    refine ⟨_, rfl, hc.trans hnext, hbooks, hcompletions, hcorrections, fun job' hjob' => ?_⟩
    change (c.jobs.erase job.id).lookup job'.id = none
    by_cases hsame : job'.id = job.id
    · rw [hsame, AList.lookup_erase]
    · rw [AList.lookup_erase_ne hsame]
      obtain hpast | hlast := List.mem_append.1 hjob'
      · exact hdone job' hpast
      · exact absurd (congrArg _ (List.mem_singleton.1 hlast)) hsame
  · rintro _ s ⟨c, rfl, hc, hbooks, hcompletions, hcorrections, hdone⟩
    refine ⟨c, rfl, hc, hbooks, hcompletions, hcorrections,
      hc.jobs.all fun name found hfound => ?_⟩
    obtain ⟨job, hjob, rfl⟩ := hall name found (hc.jobs.lookup hfound)
    have hname := w.context.jobs_filed name job (hc.jobs.lookup hfound)
    by_contra hone
    have hnote : job.noteId ∈ ids := by simpa [jobOfOne] using hone
    have hgone := hdone job (List.mem_filter.2 ⟨hjob, by simpa using hnote⟩)
    rw [hname, hfound] at hgone
    cases hgone

/-- **The records of the context service**, step by step: at every cut some of what is there of the
notes is gone, and in the end all of it. -/
theorem wp_forgetNotes {Q : Unit → World → Prop} (h : Covers env ids fails K E w)
    (hQ : ∀ c, Forgotten env ids w.context c → Q () (w.withContext c)) :
    Task.wp (.alone fails) K Q E (forgetNotes env ids) w := by
  unfold forgetNotes
  apply Task.wp_seq (wp_rewriteBooks h)
  rintro _ _ ⟨c₁, rfl, hc₁, hbooks⟩
  have h₁ := h.later hc₁
  apply Task.wp_seq (wp_dropCompletions h₁)
  rintro _ _ rfl
  have hc₂ : Forgetting env ids c₁
      { c₁ with completions := c₁.completions \ ids.toFinset } :=
    forgetting_completions (Finset.Subset.refl _) Finset.sdiff_subset
  have h₂ := h₁.later hc₂
  rw [Task.wp_bind]
  refine wp_look_alone.2 ⟨h₂.reads rfl fun _ => rfl, ?_, fun hf => h₂.fault hf _⟩
  apply Task.wp_seq (wp_checkCorrections h₂)
  rintro _ _ ⟨corrections, rfl, hcorrections⟩
  have h₃ := h₂.later (forgetting_corrections hcorrections.dropping)
  rw [Task.wp_bind]
  refine wp_lookOr_alone (h₃.reads rfl fun _ => rfl) (fun jobs hjobs => ?_)
    (fun e herror => h₃.illegible (readJobs_raised herror) e) fun hf => h₃.fault hf _
  apply Task.wp_seq (wp_dropJobs h₃ hjobs)
  rintro _ _ ⟨c, rfl, hc₄, hbooks', hcompletions', hcorrections', hdropped⟩
  have hc : Forgotten env ids w.context c.emptyDossiers :=
    { books := fun book => by
        obtain ⟨members, hread, hwritten⟩ := hbooks book
        exact ⟨members, hread, (congrFun hbooks' book).trans hwritten⟩
      dossiers := rfl
      completions := hcompletions'.trans
        (sdiff_of_between hc₁.completions.1 hc₁.completions.2)
      corrections := by
        change Dropped _ _ c.corrections
        rw [hcorrections']
        exact hc₁.corrections.dropped hcorrections
      jobs := hc₁.jobs.dropped hdropped }
  exact (h₃.later hc₄).perform rfl rfl forgetting_emptyDossiers (hQ _ hc)

end Records

/-- Two stores with the same rows. -/
structure SameRows (w w' : World) : Prop where
  notes : w'.notes = w.notes
  sources : w'.sources = w.sources
  links : w'.links = w.links
  artifacts : w'.artifacts = w.artifacts
  entityRows : w'.entityRows = w.entityRows

section Pages

variable {env : Env} {call : Call} {fails : Site → Prop} {K : Site → World → Prop}
  {E : Raised → World → Prop} {w s : World} {dossiers : List (Text × Text)}

theorem lookup_writePage {id : Text} {data : FileBytes} {p : List PyStr} :
    (w.writePage id data).lookup p = w.disk.lookup p ∨
      (w.writePage id data).lookup p = some (.file data) ∧ PageOf (homes w.ledger) p := by
  unfold World.writePage
  split
  · next place hplace =>
    obtain ⟨e, he, hpage⟩ := Option.bind_eq_some_iff.1 hplace
    obtain ⟨path, hpath, hresolve⟩ := Option.bind_eq_some_iff.1 hpage
    obtain rfl := resolve_place hresolve
    by_cases hp : p = Area.notes.at path
    · refine Or.inr ⟨by rw [hp, AList.lookup_insert], home e, ?_, path, hpath, hp⟩
      exact List.mem_map_of_mem (Dossiers.find?_eq_some he).1
    · exact Or.inl (AList.lookup_insert_ne hp)
  · exact Or.inl rfl

/-- The store `s` is `w` with the catalog of the dossiers and some of their pages written. -/
structure Paged (dossiers : List (Text × Text)) (w s : World) : Prop where
  rest : s = { w with disk := s.disk, ledger := s.ledger, ledger_keyed := s.ledger_keyed }
  homes : homes s.ledger = dossiers
  disk : ∀ p, s.disk.lookup p = w.disk.lookup p ∨
    PageOf dossiers p ∧ ∃ data, s.disk.lookup p = some (.file data)

theorem Paged.rows (h : Paged dossiers w s) : SameRows w s := by
  constructor <;> rw [h.rest]

theorem Paged.context (h : Paged dossiers w s) : s.context = w.context := by rw [h.rest]

theorem Paged.receipts (h : Paged dossiers w s) : s.receipts = w.receipts := by rw [h.rest]

theorem Paged.catalog {m : Memory} (h : Paged dossiers w s)
    (hm : Purge.homes m.ledger = dossiers) : Paged dossiers w (effect (.catalog m) s) where
  rest := by
    change s.withCatalog m = _
    rw [World.withCatalog]
    exact congrArg (fun s : World => { s with ledger := m.ledger, ledger_keyed := m.keyed }) h.rest
  homes := hm
  disk := h.disk

theorem Paged.page {id : Text} {data : FileBytes} (h : Paged dossiers w s) :
    Paged dossiers w (effect (.page id data) s) where
  rest := congrArg (fun t : World => { t with disk := s.writePage id data }) h.rest
  homes := h.homes
  disk p := by
    change (s.writePage id data).lookup p = _ ∨ _ ∧ ∃ data', (s.writePage id data).lookup p = _
    obtain hsame | ⟨hwritten, hpage⟩ := @lookup_writePage s id data p
    · rw [hsame]
      exact h.disk p
    · exact Or.inr ⟨h.homes ▸ hpage, data, hwritten⟩

variable {seen : Dossiers.Seen} {m : Memory}

theorem wp_project (h : Paged dossiers w s) (hm : homes m.ledger = dossiers)
    (hK : ∀ site s, site.projects = true → Paged dossiers w s → K site s) (id : Text) :
    Task.wp (.alone fails) K (fun m s => homes m.ledger = dossiers ∧ Paged dossiers w s) E
      (project env call seen id m) s := by
  unfold project
  apply Task.wp_seq (R := fun sight s => homes sight.memory.ledger = dossiers ∧ Paged dossiers w s)
  · rw [Task.wp_catchRaised]
    refine wp_look_alone.2 ⟨hK _ _ rfl h, ⟨homes_sight.trans hm, h⟩, fun _ => ?_⟩
    exact ⟨(m.homes_troubled id).trans hm, h⟩
  · rintro sight s ⟨hsight, h⟩
    cases sight with
    | kept m => exact ⟨hsight, h⟩
    | write m block page =>
      have hm : homes m.revised.ledger = dossiers := hsight
      have hfailed : homes (m.revised.troubled id).ledger = dossiers :=
        (m.revised.homes_troubled id).trans hm
      have hsaved := h.catalog hm
      dsimp only
      rw [Task.wp_catchRaised, Task.wp_bind]
      refine wp_perform_alone.2 ⟨hK _ _ rfl h, ?_, fun _ => ⟨hfailed, h⟩⟩
      rw [Task.wp_bind]
      refine wp_perform_alone.2 ⟨hK _ _ rfl hsaved, ?_, fun _ => ⟨hfailed, hsaved⟩⟩
      exact ⟨(m.revised.homes_written id block).trans hm, hsaved.page⟩

/-- **The pages of the dossiers**, step by step: wherever it is cut, the catalog has the same
dossiers. -/
theorem wp_projectAll {after : Text → Memory → Memory} (h : Paged dossiers w s)
    (hm : homes m.ledger = dossiers)
    (hafter : ∀ id m, homes (after id m).ledger = homes m.ledger)
    (hK : ∀ site s, site.projects = true → Paged dossiers w s → K site s) (ids : List Text) :
    Task.wp (.alone fails) K (fun m s => homes m.ledger = dossiers ∧ Paged dossiers w s) E
      (projectAll env call seen after ids m) s := by
  induction ids generalizing m s with
  | nil => exact ⟨hm, h⟩
  | cons id ids ih =>
    apply Task.wp_seq (wp_project h hm hK id)
    rintro m s ⟨hm, h⟩
    exact ih h ((hafter id m).trans hm)

end Pages

end Coppermind.Purge
