import Coppermind.Reconciler.Absence

/-!
# Files that hold deletions back

A pass that could not read some file calls no note absent.  Over a tree at rest whose regular
files can all be read, what is left to hold deletions back is an entry that is no regular file,
named like a note and claimed by no row: a directory, a FIFO, a link that leads nowhere.  The scan
looks such an entry up in the stats it remembers before it looks at its type, and never puts it
there, so it defers every pass it meets.

`odd_entries_defer_iff` says that of every run over a tree at rest.
-/

namespace Coppermind.Reconciler

open Coppermind.Lib Coppermind.Lib.Text Coppermind.Frontmatter Coppermind.Schema Coppermind.Notes

section Memory

variable {memory : Memory} {path path' : RelPath} {stat : Stat}

theorem getStat_cons (entry : RelPath × Stat) :
    getStat (entry :: memory) path = if entry.1 = path then some entry.2 else getStat memory path := by
  unfold getStat
  rw [List.find?_cons]
  by_cases h : entry.1 = path
  · rw [beq_iff_eq.2 h, if_pos h]
    rfl
  · rw [beq_eq_false_iff_ne.2 h, if_neg h]

theorem getStat_map_set :
    getStat (memory.map fun entry => if entry.1 == path then (path, stat) else entry) path' =
      if path' = path then (getStat memory path).map fun _ => stat else getStat memory path' := by
  induction memory with
  | nil => split <;> rfl
  | cons entry memory ih =>
    rw [List.map_cons, getStat_cons, getStat_cons, getStat_cons, ih]
    by_cases hentry : entry.1 = path
    · by_cases hpath : path' = path
      · simp [hentry, hpath]
      · simp [hentry, hpath, Ne.symm hpath]
    · by_cases hpath : path' = path
      · subst hpath
        simp [hentry]
      · simp [hentry, hpath]

theorem getStat_eq_none_iff : getStat memory path = none ↔ memory.any (·.1 == path) = false := by
  rw [getStat, Option.map_eq_none_iff, List.find?_eq_none, List.any_eq_false]

theorem getStat_append (entry : RelPath × Stat) :
    getStat (memory ++ [entry]) path =
      (getStat memory path).orElse fun _ => if entry.1 = path then some entry.2 else none := by
  induction memory with
  | nil => rw [List.nil_append, getStat_cons]; rfl
  | cons e memory ih =>
    rw [List.cons_append, getStat_cons, getStat_cons, ih]
    split <;> rfl

theorem getStat_setStat :
    getStat (setStat memory path stat) path' =
      if path' = path then some stat else getStat memory path' := by
  unfold setStat
  by_cases h : memory.any (·.1 == path) = true
  · rw [if_pos h, getStat_map_set]
    have hsome : getStat memory path ≠ none := by
      rw [Ne, getStat_eq_none_iff, h]
      exact Bool.noConfusion
    obtain ⟨old, hold⟩ := Option.ne_none_iff_exists'.1 hsome
    rw [hold, Option.map_some]
  · rw [if_neg h, getStat_append]
    by_cases hpath : path' = path
    · subst hpath
      rw [getStat_eq_none_iff.2 (Bool.eq_false_iff.2 h), if_pos rfl]
      simp
    · rw [if_neg (Ne.symm hpath), if_neg hpath]
      cases getStat memory path' <;> rfl

theorem length_le_setStat : memory.length ≤ (setStat memory path stat).length := by
  unfold setStat
  split
  · rw [List.length_map]
  · rw [List.length_append]
    omega

theorem getStat_remember_of_ne (hne : path' ≠ path) :
    getStat (remember memory path stat) path' = getStat memory path' := by
  unfold remember
  split
  · rw [getStat_setStat, if_neg hne]
  · rfl

theorem getStat_remember_self (h : memory.length < unidentifiedLimit) :
    getStat (remember memory path stat) path = some stat := by
  rw [remember, if_pos h, getStat_setStat, if_pos rfl]

theorem length_le_remember : memory.length ≤ (remember memory path stat).length := by
  unfold remember
  split
  · exact length_le_setStat
  · exact le_rfl

/-- The stats a scan keeps, put into a memory one after the other. -/
def keepStats (memory : Memory) (findings : List (RelPath × Finding)) : Memory :=
  findings.foldl (fun memory f =>
    match f.2.remembered with
    | some stat => remember memory f.1 stat
    | none => memory) memory

theorem unidentified_eq (scan : ScanResult) : scan.unidentified = keepStats [] scan.findings := rfl

theorem keepStats_cons (f : RelPath × Finding) (findings : List (RelPath × Finding)) :
    keepStats memory (f :: findings) =
      keepStats (match f.2.remembered with
        | some stat => remember memory f.1 stat
        | none => memory) findings := rfl

theorem length_le_keepStats (findings : List (RelPath × Finding)) :
    memory.length ≤ (keepStats memory findings).length := by
  induction findings generalizing memory with
  | nil => exact le_rfl
  | cons f findings ih =>
    rw [keepStats_cons]
    refine le_trans ?_ ih
    split
    · exact length_le_remember
    · exact le_rfl

/-- A path whose files are not remembered keeps the stat it had. -/
theorem getStat_keepStats_of_forgotten {findings : List (RelPath × Finding)}
    (h : ∀ f ∈ findings, f.1 = path → f.2.remembered = none) :
    getStat (keepStats memory findings) path = getStat memory path := by
  induction findings generalizing memory with
  | nil => rfl
  | cons f findings ih =>
    rw [keepStats_cons, ih fun f' hf' => h f' (List.mem_cons_of_mem _ hf')]
    split
    · next stat hstat =>
      refine getStat_remember_of_ne fun hpath => ?_
      rw [h f List.mem_cons_self hpath.symm] at hstat
      cases hstat
    · rfl

/-- A file that is remembered is found in a memory that never filled up. -/
theorem getStat_keepStats_of_remembered {findings : List (RelPath × Finding)}
    {f : RelPath × Finding} (hf : f ∈ findings) (hstat : f.2.remembered = some stat)
    (hnodup : (findings.map (·.1)).Nodup)
    (hroom : (keepStats memory findings).length < unidentifiedLimit) :
    getStat (keepStats memory findings) f.1 = some stat := by
  induction findings generalizing memory with
  | nil => cases hf
  | cons f' findings ih =>
    rw [List.map_cons, List.nodup_cons] at hnodup
    rw [keepStats_cons] at hroom ⊢
    rcases List.mem_cons.1 hf with rfl | hf
    · rw [getStat_keepStats_of_forgotten, hstat]
      · apply getStat_remember_self
        refine lt_of_le_of_lt ?_ hroom
        exact le_trans length_le_remember (by rw [hstat]; exact length_le_keepStats findings)
      · intro g hg hpath
        exact absurd (hpath ▸ List.mem_map_of_mem (f := (·.1)) hg) hnodup.1
    · exact ih hf hnodup.2 hroom

end Memory

section Reports

variable (lib : Libraries) (db : Database) (schema : FrontmatterSchema) (settings : Settings)

theorem countRow_deferred (counts : Counts) (row : Row) (observed : Option Observation)
    (receipt : Option Receipt) : (countRow counts row observed receipt).deferred = counts.deferred := by
  unfold countRow
  split
  · split <;> rfl
  · split
    · split <;> rfl
    · rfl

theorem keepRecord_frame (pass : Pass) (observed : Option Observation) (receipt : Option Receipt)
    (updated : Row) : Frame State.memory (keepRecord pass observed receipt updated) := by
  constructor
  intro s
  cases receipt with
  | none =>
    by_cases h : observed.isSome = true
    · simp only [keepRecord, h, if_true, rememberReturn, wp_modify]
      split <;> rfl
    · simp only [keepRecord, h]
      rfl
  | some receipt =>
    simp only [keepRecord, saveReceipt, wp_bind, wp_get]
    cases retained s.receipts receipt with
    | none => rfl
    | some previous =>
      rw [wp_raiseIf]
      split <;> rfl

/-- One pending row leaves the remembered stats and the count of deferred files alone. -/
theorem updatePending_deferred (pass : Pass) (observed : Option Observation) (row : Row)
    (counts : Counts) (s : State) :
    wp (updatePending lib schema pass observed row counts)
      (fun counts' s' => counts'.deferred = counts.deferred ∧ s'.memory = s.memory)
      (fun _ s' => s'.memory = s.memory) s := by
  unfold updatePending
  simp only [wp_bind, wp_get, wp_liftExcept]
  cases pendingValues lib schema pass s.receipts row observed with
  | error e => trivial
  | ok removed =>
    dsimp only
    by_cases hvalues : removed.values = []
    · rw [if_pos hvalues]
      exact ⟨rfl, rfl⟩
    · rw [if_neg hvalues]
      simp only [wp_bind, wp_raiseIf]
      by_cases hadmits : (!removed.values.admitted) = true
      · rw [if_pos hadmits]
        trivial
      · rw [if_neg hadmits]
        by_cases hguard : pass.scanStarted < row.updatedAt
        · rw [if_pos hguard]
          exact ⟨rfl, rfl⟩
        · rw [if_neg hguard]
          simp only [wp_bind, wp_modify, wp_raiseIf, wp_pure]
          refine (keepRecord_frame pass observed removed.receipt _).wp (fun _ s₁ h₁ => ?_)
            fun _ _ h₁ => h₁
          refine (recordReview_frame schema pass observed row.id removed.values).wp
            (fun _ s₂ h₂ => ?_) fun _ s₂ h₂ => ?_
          · simp only [mirrored, Prod.mk.injEq] at h₂
            have hmemory := h₂.2.2.1.trans h₁
            split
            · exact hmemory
            · exact ⟨countRow_deferred _ _ _ _, hmemory⟩
          · simp only [mirrored, Prod.mk.injEq] at h₂
            exact h₂.2.2.1.trans h₁

/-- So does the loop over them. -/
theorem updateAll_deferred (pass : Pass) (scan : ScanResult) (index : Index) (ids : List NoteId)
    (counts : Counts) (s : State) :
    wp (updateAll lib schema pass scan index ids counts)
      (fun counts' s' => counts'.deferred = counts.deferred ∧ s'.memory = s.memory)
      (fun _ s' => s'.memory = s.memory) s := by
  induction ids generalizing counts s with
  | nil => exact ⟨rfl, rfl⟩
  | cons id rest ih =>
    simp only [updateAll, wp_bind, wp_get]
    cases s.row? id with
    | none => exact ih counts s
    | some row =>
      simp only [wp_bind]
      refine wp_mono (updatePending_deferred lib schema pass _ row counts s)
        (fun counts₁ s₁ h₁ => ?_) fun _ _ h₁ => h₁
      refine wp_mono (ih counts₁ s₁) (fun _ s' h => ?_) fun _ _ h => h.trans h₁.2
      exact ⟨h.1.trans h₁.1, h.2.trans h₁.2⟩

/-- What adoptions leave of the remembered stats: those of their own files may have been added. -/
def OnlyRemembers (candidates : List Candidate) (memory memory' : Memory) : Prop :=
  memory.length ≤ memory'.length ∧
    ∀ path, (∀ c ∈ candidates, c.path ≠ path) → getStat memory' path = getStat memory path

theorem OnlyRemembers.cons {candidate : Candidate} {rest : List Candidate}
    {memory memory₁ memory' : Memory}
    (h : memory₁ = memory ∨ memory₁ = remember memory candidate.path candidate.statSeen)
    (h' : OnlyRemembers rest memory₁ memory') : OnlyRemembers (candidate :: rest) memory memory' := by
  rcases h with rfl | rfl
  · exact ⟨h'.1, fun path hpath => h'.2 path fun c hc => hpath c (List.mem_cons_of_mem _ hc)⟩
  · refine ⟨le_trans length_le_remember h'.1, fun path hpath => ?_⟩
    rw [h'.2 path fun c hc => hpath c (List.mem_cons_of_mem _ hc)]
    exact getStat_remember_of_ne (Ne.symm (hpath candidate List.mem_cons_self))

theorem adoptAll_remembers (pass : Pass) (candidates : List Candidate) (p : Progress) (s : State) :
    wp (adoptAll lib db schema pass candidates p)
      (fun _ s' => OnlyRemembers candidates s.memory s'.memory)
      (fun _ s' => OnlyRemembers candidates s.memory s'.memory) s := by
  induction candidates generalizing p s with
  | nil => exact ⟨le_rfl, fun _ _ => rfl⟩
  | cons candidate rest ih =>
    have hrest {s₁ : State} (h : s₁.memory = s.memory ∨
        s₁.memory = remember s.memory candidate.path candidate.statSeen) (p : Progress) :
        wp (adoptAll lib db schema pass rest p)
          (fun _ s' => OnlyRemembers (candidate :: rest) s.memory s'.memory)
          (fun _ s' => OnlyRemembers (candidate :: rest) s.memory s'.memory) s₁ :=
      wp_mono (ih p s₁) (fun _ _ h' => h'.cons h) fun _ _ h' => h'.cons h
    have hnone : OnlyRemembers (candidate :: rest) s.memory s.memory := ⟨le_rfl, fun _ _ => rfl⟩
    simp only [adoptAll, wp_bind, wp_get]
    cases adoptNote lib db schema s.rows candidate (pass.adoptions candidate) pass.localNow with
    | metadataUnavailable => exact hnone
    | failed text =>
      simp only [wp_bind, wp_modify]
      exact hrest (Or.inr rfl) _
    | changed cause => exact hrest (Or.inl rfl) _
    | invalid cause =>
      simp only [wp_bind, wp_modify]
      exact hrest (Or.inr rfl) _
    | collision cause =>
      simp only [wp_bind, wp_modify]
      exact hrest (Or.inr rfl) _
    | adopted row text =>
      simp only [wp_bind, wp_modify]
      split
      · exact hnone
      · refine hrest (Or.inl ?_) _
        rfl

/-- What the scan of a pass leaves of the remembered stats. -/
def KeepsStats (pass : Pass) (s s' : State) : Prop :=
  ∃ walk result, pass.walk = some walk ∧
    scan lib schema settings (knownOf pass (recovered lib schema pass s)) walk = .ok result ∧
    OnlyRemembers result.candidates result.unidentified s'.memory

/-- **Reports**: a pass reports as deferred what its scan found deferred, and keeps the stats its
scan remembered, with those of the files it failed to adopt. -/
theorem reconcileOnce_reports (pass : Pass) (s : State) :
    wp (reconcileOnce lib db schema settings pass)
      (fun counts s' => KeepsStats lib schema settings pass s s' ∧
        ∀ walk result, pass.walk = some walk →
          scan lib schema settings (knownOf pass (recovered lib schema pass s)) walk = .ok result →
          counts.deferred = result.deferred)
      (fun _ s' => s'.memory = s.memory ∨ KeepsStats lib schema settings pass s s') s := by
  unfold reconcileOnce
  rw [wp_bind]
  refine wp_mono (wp_and wp_run (recoverRows_wp lib schema pass s)) ?_ ?_
  · rintro _ s₀ ⟨hrun, -, hmemory⟩
    have hrecovered : recovered lib schema pass s = s₀ := by rw [recovered, hrun, finalState]
    unfold KeepsStats
    rw [hrecovered]
    simp only [wp_bind, wp_get, wp_liftExcept, wp_modify, wp_transaction, wp_pure]
    cases hwalk : pass.walk with
    | none => exact Or.inl hmemory
    | some walk =>
      simp only [Option.elim_some]
      cases hscan : scan lib schema settings (knownOf pass s₀) walk with
      | error e =>
        unfold knownOf at hscan
        rw [hscan]
        exact Or.inl hmemory
      | ok result =>
        have hknown := hscan
        unfold knownOf at hknown
        rw [hknown]
        refine wp_mono (adoptAll_remembers lib db schema pass result.candidates {} _) ?_ ?_
        · intro progress s₁ hadopted
          rw [wp_raiseIf]
          split
          · exact Or.inr ⟨walk, result, rfl, hscan, hadopted⟩
          refine wp_mono (updateAll_deferred lib schema pass result (mirrorIndex pass s₀) _ _ _)
            ?_ ?_
          · rintro counts s' ⟨hdeferred, hkept⟩
            refine ⟨⟨walk, result, rfl, hscan, ?_⟩, ?_⟩
            · rw [hkept]
              exact hadopted
            · intro walk' result' hwalk' hscan'
              obtain rfl := Option.some.inj hwalk'
              obtain rfl := Except.ok.inj (hscan.symm.trans hscan')
              exact hdeferred
          · intro _ s' hkept
            refine Or.inr ⟨walk, result, rfl, hscan, ?_⟩
            rw [State.rollback, hkept]
            exact hadopted
        · intro _ s' hadopted
          exact Or.inr ⟨walk, result, rfl, hscan, hadopted⟩
  · rintro _ s₀ ⟨-, rfl⟩
    exact Or.inl rfl

end Reports

section Rest

variable (lib : Libraries) (db : Database) (schema : FrontmatterSchema) (settings : Settings)

/-- An entry of a walk that is no regular file. -/
def Sighting.isOdd (sighting : Sighting) : Bool :=
  match sighting.located with
  | .found .regular _ _ _ => false
  | _ => true

/-- An entry of a tree at rest whose regular files can all be read. -/
structure Rests (known : Known) (sighting : Sighting) : Prop where
  readable : ∀ size mtime read, sighting.located = .found .regular size mtime read →
    ∃ data, read = .bytes data
  /-- What was written within the quiet period, the store itself has written and recorded. -/
  quiet : ∀ kind size mtime read, sighting.located = .found kind size mtime read →
    known.quiet.any (·.holds mtime sighting.clock) = true →
      (known.index.byPath sighting.path).any (unchanged · size mtime) = true
  unclaimed : sighting.isOdd = true → known.index.occupants sighting.path = []
  named : sighting.isOdd = true → isMarkdown sighting.path = true ∨
    ∃ size mtime read, sighting.located = .found .directory size mtime read

/-- A pass with this memory does not stop at an odd entry: the walk ignores it, it is a folder not
named like a note, or no rule excludes it and its stat is remembered. -/
def Passable (memory : Memory) (entry : RelPath × Located) : Prop :=
  isIgnored entry.1 = true ∨ isMarkdown entry.1 = false ∨
    ∃ kind size mtime read, entry.2 = .found kind size mtime read ∧
      pathExclusion settings entry.1 = none ∧ getStat memory entry.1 = some (size, mtime)

/-- What a cheap pass adds for an odd entry at rest that no row claims. -/
def oddFinding (memory : Memory) (sighting : Sighting) : Finding :=
  if isIgnored sighting.path || !isMarkdown sighting.path then {}
  else
    match sighting.located with
    | .found _ size mtime _ =>
      if (pathExclusion settings sighting.path).isNone &&
          getStat memory sighting.path == some (size, mtime) then
        { remembered := some (size, mtime) }
      else { deferred := true, unparsed := true }
    | _ => { deferred := true }

variable {lib schema settings} {known : Known} {sighting : Sighting} {finding : Finding}

/-- A file that was read defers the pass only while it settles. -/
theorem findingOf_deferred {size : Nat} {mtime : Instant} {data : FileBytes}
    {parsed : Option (Entries × Text)}
    (hquiet : known.quiet.any (·.holds mtime sighting.clock) = false) :
    (findingOf lib schema settings known sighting size mtime data parsed).deferred = false := by
  unfold findingOf
  simp only [hquiet, Bool.false_eq_true, if_false]
  split
  · rfl
  · split
    · rfl
    · split
      · rfl
      · split
        · split <;> rfl
        · rfl

/-- Nothing is deferred at a regular file at rest. -/
theorem scanFile_regular (hfull : known.full = false) (hrests : Rests known sighting)
    (hodd : sighting.isOdd = false)
    (h : scanFile lib schema settings known sighting = .ok finding) : finding.deferred = false := by
  obtain ⟨size, mtime, read, hlocated⟩ : ∃ size mtime read,
      sighting.located = .found .regular size mtime read := by
    unfold Sighting.isOdd at hodd
    split at hodd
    · next size mtime read hlocated => exact ⟨size, mtime, read, hlocated⟩
    · cases hodd
  obtain ⟨data, rfl⟩ := hrests.readable size mtime read hlocated
  simp only [scanFile, openFile, hlocated, hfull, reduceCtorEq, false_and, if_false, ne_eq,
    not_true_eq_false, Bool.not_false, Bool.true_and] at h
  cases hquiet : known.quiet.any (·.holds mtime sighting.clock) with
  | true =>
    -- The row vouches for the stat, so the file is not opened.
    have hvouched := hrests.quiet .regular size mtime _ hlocated hquiet
    simp only [hvouched, if_true] at h
    split at h
    · next hopen =>
      cases h
      repeat' split at hopen
      all_goals cases hopen
      all_goals rfl
    · next hopen =>
      repeat' split at hopen
      all_goals cases hopen
  | false =>
    simp only [hquiet, Bool.and_false, Bool.false_eq_true, if_false] at h
    split at h
    · next hopen =>
      cases h
      repeat' split at hopen
      all_goals cases hopen
      all_goals rfl
    · next hopen =>
      repeat' split at hopen
      all_goals cases hopen
      cases hparse : parseBytes lib.yaml data with
      | error e =>
        rw [hparse] at h
        cases h
      | ok parsed =>
        rw [hparse] at h
        cases h
        exact findingOf_deferred hquiet

theorem byPath_unclaimed {index : Index} {path : RelPath} (h : index.occupants path = []) :
    index.byPath path = none := by
  rw [Index.byPath, h]

theorem scanFile_odd (hfull : known.full = false) (hrests : Rests known sighting)
    (hodd : sighting.isOdd = true) :
    scanFile lib schema settings known sighting = .ok (oddFinding settings known.memory sighting) := by
  have hentry := byPath_unclaimed (hrests.unclaimed hodd)
  have hdirectory : isMarkdown sighting.path = false →
      ∃ size mtime read, sighting.located = .found .directory size mtime read := by
    intro hmarkdown
    refine (hrests.named hodd).resolve_left ?_
    rw [hmarkdown]
    exact Bool.false_ne_true
  have hopen : openFile settings known sighting =
      .decided (oddFinding settings known.memory sighting) := by
    unfold openFile oddFinding
    simp only [hentry, hfull]
    by_cases hignored : isIgnored sighting.path = true
    · simp [hignored]
    cases hmarkdown : isMarkdown sighting.path with
    | false =>
      obtain ⟨size, mtime, read, hlocated⟩ := hdirectory hmarkdown
      simp [hignored, hlocated]
    | true =>
      simp only [hignored, Bool.not_true, Bool.false_and, Bool.false_eq_true, if_false]
      cases hlocated : sighting.located with
      | vanished => rfl
      | refused => rfl
      | found kind size mtime read =>
        have hkind : kind ≠ .regular := by
          rintro rfl
          rw [Sighting.isOdd, hlocated] at hodd
          cases hodd
        have hquiet : known.quiet.any (·.holds mtime sighting.clock) = false := by
          refine Bool.eq_false_iff.2 fun hsettling => ?_
          have hvouched := hrests.quiet kind size mtime read hlocated hsettling
          rw [hentry] at hvouched
          cases hvouched
        simp [hkind, hquiet, unopened, unreadable]
        split <;> rfl
  rw [scanFile, hopen]

/-- An odd entry defers the pass unless it is passable. -/
theorem oddFinding_deferred (memory : Memory) :
    (oddFinding settings memory sighting).deferred = false ↔
      Passable settings memory (sighting.path, sighting.located) := by
  unfold oddFinding Passable
  by_cases hskipped : (isIgnored sighting.path || !isMarkdown sighting.path) = true
  · rw [if_pos hskipped]
    rw [Bool.or_eq_true, Bool.not_eq_true'] at hskipped
    exact iff_of_true rfl (hskipped.imp id Or.inl)
  · rw [if_neg hskipped]
    rw [Bool.or_eq_true, Bool.not_eq_true', not_or] at hskipped
    rw [or_iff_right hskipped.1, or_iff_right hskipped.2]
    cases hlocated : sighting.located with
    | vanished => simp
    | refused => simp
    | found kind size mtime read =>
      by_cases hkept : pathExclusion settings sighting.path = none ∧
          getStat memory sighting.path = some (size, mtime)
      · simp [hkept.1, hkept.2]
      · have hguard : ((pathExclusion settings sighting.path).isNone &&
            getStat memory sighting.path == some (size, mtime)) = false := by
          simpa [Option.isNone_iff_eq_none] using hkept
        simp only [hguard]
        refine iff_of_false Bool.noConfusion ?_
        rintro ⟨kind', size', mtime', read', heq, hrule, hrecall⟩
        cases heq
        exact hkept ⟨hrule, hrecall⟩

/-- It leaves its stat behind where the memory holds that stat already, and nothing elsewhere. -/
theorem oddFinding_remembered (memory : Memory) {stat : Stat} :
    (oddFinding settings memory sighting).remembered = some stat ↔
      (isIgnored sighting.path || !isMarkdown sighting.path) = false ∧
        ∃ kind read, sighting.located = .found kind stat.1 stat.2 read ∧
          pathExclusion settings sighting.path = none ∧ getStat memory sighting.path = some stat := by
  unfold oddFinding
  by_cases hskipped : (isIgnored sighting.path || !isMarkdown sighting.path) = true
  · simp [hskipped]
  · rw [if_neg hskipped, and_iff_right (Bool.eq_false_iff.2 hskipped)]
    cases hlocated : sighting.located with
    | vanished => simp
    | refused => simp
    | found kind size mtime read =>
      by_cases hkept : pathExclusion settings sighting.path = none ∧
          getStat memory sighting.path = some (size, mtime)
      · simp only [hkept.1, hkept.2, Option.isNone_none, beq_self_eq_true, Bool.and_self, if_true]
        constructor
        · rintro h
          cases h
          exact ⟨_, _, rfl, trivial, rfl⟩
        · rintro ⟨-, -, -, -, h⟩
          exact h
      · have hguard : ((pathExclusion settings sighting.path).isNone &&
            getStat memory sighting.path == some (size, mtime)) = false := by
          simpa [Option.isNone_iff_eq_none] using hkept
        simp only [hguard]
        refine iff_of_false (fun h => by cases h) ?_
        rintro ⟨kind', read', heq, hrule, hrecall⟩
        cases heq
        exact hkept ⟨hrule, hrecall⟩

theorem oddFinding_candidate (memory : Memory) :
    (oddFinding settings memory sighting).candidate = none := by
  unfold oddFinding
  repeat' split
  all_goals rfl

theorem findingOf_candidate {size : Nat} {mtime : Instant} {data : FileBytes}
    {parsed : Option (Entries × Text)} {c : Candidate}
    (h : (findingOf lib schema settings known sighting size mtime data parsed).candidate = some c) :
    c.path = sighting.path := by
  have hobserve : ∀ c', observe lib schema known.index sighting.path sighting.fileName data parsed
      mtime (known.index.byPath sighting.path) = .candidate c' → c'.path = sighting.path := by
    intro c' hc'
    unfold observe at hc'
    dsimp only at hc'
    repeat' split at hc'
    all_goals cases hc'
    rfl
  unfold findingOf at h
  dsimp only at h
  split at h
  · cases h
  · split at h
    · cases h
    · split at h
      · cases h
      · split at h
        · next c' hc' =>
          repeat' split at h
          all_goals cases h
          exact hobserve _ hc'
        · split at h <;> cases h

/-- A candidate is the file it was found at. -/
theorem scanFile_candidate {c : Candidate}
    (h : scanFile lib schema settings known sighting = .ok finding)
    (hc : finding.candidate = some c) : c.path = sighting.path := by
  have hdecided : ∀ f, openFile settings known sighting = .decided f → f.candidate = none := by
    intro f hf
    unfold openFile unopened at hf
    dsimp only at hf
    repeat' split at hf
    all_goals cases hf
    all_goals rfl
  unfold scanFile at h
  split at h
  · next f hf =>
    cases h
    rw [hdecided _ hf] at hc
    cases hc
  · next size mtime data hread =>
    cases hparse : parseBytes lib.yaml data with
    | error e =>
      rw [hparse] at h
      cases h
    | ok parsed =>
      rw [hparse] at h
      cases h
      exact findingOf_candidate hc

end Rest

section Walks

variable (lib : Libraries) (schema : FrontmatterSchema) (settings : Settings)

/-- The entries of a walk that are no regular files. -/
def oddEntries (walk : List Sighting) : List (RelPath × Located) :=
  (walk.filter (·.isOdd)).map fun sighting => (sighting.path, sighting.located)

/-- A walk over a tree at rest. -/
structure RestingWalk (known : Known) (walk : List Sighting) : Prop where
  cheap : known.full = false
  paths : (walk.map (·.path)).Nodup
  rests : ∀ sighting ∈ walk, Rests known sighting

variable {lib schema settings} {known : Known} {walk : List Sighting} {result : ScanResult}

theorem mem_oddEntries {entry : RelPath × Located} :
    entry ∈ oddEntries walk ↔
      ∃ sighting ∈ walk, sighting.isOdd = true ∧ (sighting.path, sighting.located) = entry := by
  simp only [oddEntries, List.mem_map, List.mem_filter, and_assoc]

theorem findings_paths (h : scan lib schema settings known walk = .ok result) :
    result.findings.map (·.1) = walk.map (·.path) := by
  have hall := scan_eq_ok.1 h
  generalize result.findings = findings at hall ⊢
  clear h
  induction hall with
  | nil => rfl
  | cons hfile _ ih => rw [List.map_cons, List.map_cons, hfile.1, ih]

/-- Each finding of a scan is what one file of the walk adds. -/
theorem mem_findings (h : scan lib schema settings known walk = .ok result) {f : RelPath × Finding}
    (hf : f ∈ result.findings) : ∃ sighting ∈ walk, f.1 = sighting.path ∧
      scanFile lib schema settings known sighting = .ok f.2 := by
  have hall := scan_eq_ok.1 h
  obtain ⟨sighting, hmem, hscanned⟩ := forall₂_mem_left hall.flip hf
  exact ⟨sighting, hmem, hscanned⟩

/-- The finding at a path is the one of the file with that path. -/
theorem finding_at (hnodup : (walk.map (·.path)).Nodup)
    (h : scan lib schema settings known walk = .ok result) {sighting : Sighting}
    (hmem : sighting ∈ walk) {f : RelPath × Finding} (hf : f ∈ result.findings)
    (hpath : f.1 = sighting.path) : scanFile lib schema settings known sighting = .ok f.2 := by
  obtain ⟨sighting', hmem', hpath', hscanned⟩ := mem_findings h hf
  obtain rfl : sighting = sighting' :=
    List.inj_on_of_nodup_map hnodup hmem hmem' (hpath.symm.trans hpath')
  exact hscanned

/-- A scan of a tree at rest defers nothing just where all odd entries are passable. -/
theorem RestingWalk.deferred_iff (hrest : RestingWalk known walk)
    (h : scan lib schema settings known walk = .ok result) :
    result.deferred = 0 ↔ ∀ entry ∈ oddEntries walk, Passable settings known.memory entry := by
  rw [ScanResult.deferred, List.countP_eq_zero]
  constructor
  · intro hall entry hentry
    obtain ⟨sighting, hmem, hodd, rfl⟩ := mem_oddEntries.1 hentry
    obtain ⟨f, hf, -, hscanned⟩ := scan_mem h hmem
    rw [scanFile_odd hrest.cheap (hrest.rests sighting hmem) hodd] at hscanned
    apply (oddFinding_deferred known.memory).1
    rw [Except.ok.inj hscanned]
    exact Bool.eq_false_iff.2 (hall f hf)
  · intro hall f hf
    obtain ⟨sighting, hmem, -, hscanned⟩ := mem_findings h hf
    rw [Bool.not_eq_true]
    cases hodd : sighting.isOdd with
    | false => exact scanFile_regular hrest.cheap (hrest.rests sighting hmem) hodd hscanned
    | true =>
      rw [scanFile_odd hrest.cheap (hrest.rests sighting hmem) hodd] at hscanned
      rw [← Except.ok.inj hscanned]
      exact (oddFinding_deferred known.memory).2 (hall _ (mem_oddEntries.2 ⟨_, hmem, hodd, rfl⟩))

/-- No candidate of a scan stands at the path of an odd entry. -/
theorem RestingWalk.candidate_path (hrest : RestingWalk known walk)
    (h : scan lib schema settings known walk = .ok result) {sighting : Sighting}
    (hmem : sighting ∈ walk) (hodd : sighting.isOdd = true) {c : Candidate}
    (hc : c ∈ result.candidates) : c.path ≠ sighting.path := by
  intro hpath
  obtain ⟨f, hf, hfc⟩ := List.mem_filterMap.1 hc
  obtain ⟨sighting', hmem', hpath', hscanned'⟩ := mem_findings h hf
  have hsame : f.1 = sighting.path := hpath'.trans ((scanFile_candidate hscanned' hfc).symm.trans hpath)
  have hscanned := finding_at hrest.paths h hmem hf hsame
  rw [scanFile_odd hrest.cheap (hrest.rests sighting hmem) hodd] at hscanned
  rw [← Except.ok.inj hscanned, oddFinding_candidate] at hfc
  cases hfc

/-- A scan of a tree at rest leaves an odd entry passable just where it met it so. -/
theorem RestingWalk.passable_iff (hrest : RestingWalk known walk)
    (h : scan lib schema settings known walk = .ok result)
    (hroom : result.unidentified.length < unidentifiedLimit) {entry : RelPath × Located}
    (hentry : entry ∈ oddEntries walk) :
    Passable settings result.unidentified entry ↔ Passable settings known.memory entry := by
  obtain ⟨sighting, hmem, hodd, rfl⟩ := mem_oddEntries.1 hentry
  obtain ⟨f, hf, hpath, hscanned⟩ := scan_mem h hmem
  rw [scanFile_odd hrest.cheap (hrest.rests sighting hmem) hodd] at hscanned
  have hfinding : oddFinding settings known.memory sighting = f.2 := Except.ok.inj hscanned
  unfold Passable
  by_cases hskipped : (isIgnored sighting.path || !isMarkdown sighting.path) = true
  · rw [Bool.or_eq_true, Bool.not_eq_true'] at hskipped
    exact iff_of_true (hskipped.imp id Or.inl) (hskipped.imp id Or.inl)
  refine or_congr_right (or_congr_right ?_)
  refine exists_congr fun kind => exists_congr fun size => exists_congr fun mtime =>
    exists_congr fun read => and_congr_right fun hlocated => and_congr_right fun hrule => ?_
  have hremembered : f.2.remembered = some (size, mtime) ↔
      getStat known.memory sighting.path = some (size, mtime) := by
    rw [← hfinding, oddFinding_remembered]
    constructor
    · rintro ⟨-, -, -, -, -, hrecall⟩
      exact hrecall
    · intro hrecall
      exact ⟨Bool.eq_false_iff.2 hskipped, kind, read, hlocated, hrule, hrecall⟩
  have hnodup : (result.findings.map (·.1)).Nodup := by
    rw [findings_paths h]
    exact hrest.paths
  rw [unidentified_eq] at hroom ⊢
  rw [← hremembered]
  constructor
  · intro hrecall
    cases hstat : f.2.remembered with
    | some stat =>
      rw [← hpath, getStat_keepStats_of_remembered hf hstat hnodup hroom] at hrecall
      exact hrecall
    | none =>
      rw [getStat_keepStats_of_forgotten] at hrecall
      · cases hrecall
      · intro f' hf' hpath'
        have hscanned' := finding_at hrest.paths h hmem hf' hpath'
        rw [scanFile_odd hrest.cheap (hrest.rests sighting hmem) hodd] at hscanned'
        rw [← Except.ok.inj hscanned', hfinding, hstat]
  · intro hstat
    rw [← hpath]
    exact getStat_keepStats_of_remembered hf hstat hnodup hroom

end Walks

section Gone

variable {lib : Libraries} {db : Database} {schema : FrontmatterSchema} {settings : Settings}

/-- The row of a note that nothing on disk carries, as a pass leaves it. -/
def IsGone (row : Row) : Prop := row.state = .missing ∨ row.state = .deleted

theorem apply_state_append (values : Values) (state : NoteState) (reason : Option PyStr)
    (now : Instant) (row : Row) :
    (Values.apply (values ++ [⟨.state, state⟩, ⟨.stateReason, reason⟩]) now row).state =
      state := by
  show (List.foldl Values.assign row.cells _) .state = state
  rw [List.foldl_append]
  simp [Values.assign]

theorem settledRow_of_gone {pass : Pass} {row : Row} {values : Values}
    (hclock : row.updatedAt ≤ pass.scanStarted) (hempty : values = [] → IsGone row)
    (hstate : values ≠ [] → IsGone (values.apply pass.now row)) :
    IsGone (settledRow pass row values) := by
  unfold settledRow
  split
  · next h => exact hempty (h.resolve_right (not_lt.2 hclock))
  · next h => exact hstate (not_or.1 h).1

/-- The update of an absent note leaves it missing or deleted. -/
theorem absentValues_gone {pass : Pass} {row : Row} (reason : Option PyStr)
    (hclock : row.updatedAt ≤ pass.scanStarted) :
    IsGone (settledRow pass row (absentValues lib schema row reason)) := by
  cases reason with
  | some reason =>
    have hnodup : (List.map (·.1) ([⟨.state, .missing⟩, ⟨.stateReason, some reason⟩] :
        Values)).Nodup := by
      simp
    have hmissing : ((missingValues row reason).apply pass.now row).state = .missing := by
      rcases changing_apply_cells hnodup List.mem_cons_self pass.now row with h | h
      · exact h
      · exact h.2.trans (beq_iff_eq.1 h.1)
    refine settledRow_of_gone hclock (fun hnil => Or.inl ?_) fun _ => Or.inl hmissing
    rw [show missingValues row reason = [] from hnil] at hmissing
    exact hmissing
  | none =>
    unfold absentValues valuesFor
    dsimp only
    split
    · next hmissing =>
      exact settledRow_of_gone hclock (fun _ => Or.inl hmissing.1) fun hne => absurd rfl hne
    · exact settledRow_of_gone hclock (fun hnil => by cases hnil) fun _ =>
        Or.inl (apply_state_append [] _ _ _ _)

theorem removedValues_gone {pass : Pass} {receipts : List Receipt} {row : Row} {removed : Removed}
    (hclock : row.updatedAt ≤ pass.scanStarted)
    (h : removedValues lib schema pass receipts row = .ok removed) :
    IsGone (settledRow pass row removed.values) := by
  unfold removedValues at h
  split at h
  · split at h
    · next hdeleted =>
      cases h
      exact settledRow_of_gone hclock (fun _ => Or.inr hdeleted.1) fun hne => absurd rfl hne
    · cases h
      refine settledRow_of_gone hclock (fun hnil => by cases hnil) fun _ => Or.inr ?_
      exact apply_state_append [] _ _ _ _
  · split at h
    · next hdeleted =>
      split at h
      · next removal _ _ =>
        refine settledRow_of_gone hclock (fun _ => Or.inr hdeleted) fun _ => Or.inr ?_
        unfold latestRemoval at h
        cases hparse : mustParse lib removal.data with
        | error e =>
          rw [hparse] at h
          cases h
        | ok parsed =>
          rw [hparse] at h
          cases h
          exact apply_state_append _ _ _ _ _
      · split at h
        · cases h
          exact absentValues_gone _ hclock
        · cases h
          exact settledRow_of_gone hclock (fun _ => Or.inr hdeleted) fun hne => absurd rfl hne
    · cases h
      exact absentValues_gone _ hclock

theorem observed_of_unseen {result : ScanResult} {id : NoteId} (h : result.seen id = false) :
    result.observed id = [] := by
  rw [ScanResult.observed, List.filter_eq_nil_iff]
  intro o ho
  obtain ⟨f, hf, hfo⟩ := List.mem_filterMap.1 ho
  have hunseen := List.any_eq_false.1 h f hf
  rw [hfo] at hunseen
  intro hid
  exact hunseen (by simp [beq_iff_eq.1 hid])

/-- A pass that defers nothing leaves every note nothing on disk carries missing or deleted, unless
its row was written since the scan started. -/
theorem Passed.gone {pass : Pass} {s s₁ s' : State} {walk : List Sighting} {result : ScanResult}
    {progress : Progress} (h : Passed lib db schema settings pass s walk result progress s₁ s')
    (hdeferred : result.deferred = 0) {id : NoteId} {row : Row}
    (hknown : (mirrorIndex pass s).knows id = true) (hunseen : result.seen id = false)
    (hrow : s.row? id = some row) (hclock : row.updatedAt ≤ pass.scanStarted) :
    ∃ row', s'.row? id = some row' ∧ IsGone row' := by
  have habsent : isAbsent result id = true := by simp [isAbsent, hdeferred, hunseen]
  have hpending : id ∈ pending result (mirrorIndex pass s) := by
    obtain ⟨entry, hentry, hid⟩ := List.any_eq_true.1 hknown
    refine List.mem_filter.2 ⟨List.mem_map.2 ⟨entry, hentry, beq_iff_eq.1 hid⟩, ?_⟩
    rw [habsent, Bool.or_true]
  have hrow₁ : s₁.row? id = some row := (h.added lib db schema settings).row? hrow
  obtain ⟨removed, hvalues, hrow', -⟩ := h.settled.pending id hpending row hrow₁
  have hchosen : chosen result (mirrorIndex pass s) id = none := by
    rw [chosen, choiceOf, observed_of_unseen hunseen]
  rw [hchosen] at hvalues
  exact ⟨_, hrow', removedValues_gone hclock hvalues⟩

end Gone

section Runs

variable (lib : Libraries) (db : Database) (schema : FrontmatterSchema) (settings : Settings)

/-- A cheap pass over a tree at rest with these odd entries, which leaves room in the memory. -/
structure Resting (odd : List (RelPath × Located)) (s : State) (pass : Pass) : Prop where
  walked : ∃ walk, pass.walk = some walk ∧
    RestingWalk (knownOf pass (recovered lib schema pass s)) walk ∧
    ∀ entry, entry ∈ oddEntries walk ↔ entry ∈ odd
  room : (afterPass lib db schema settings s pass).memory.length < unidentifiedLimit

/-- A pass that returns defers nothing, and leaves every note its scan found nothing for missing or
deleted, unless the row was written since the scan started. -/
def ReportsAbsence (s : State) (pass : Pass) (counts : Counts) (s' : State) : Prop :=
  counts.deferred = 0 ∧
    let s₀ := recovered lib schema pass s
    ∀ walk result, pass.walk = some walk →
      scan lib schema settings (knownOf pass s₀) walk = .ok result →
      ∀ id row, (mirrorIndex pass s₀).knows id = true → result.seen id = false →
        s₀.row? id = some row → row.updatedAt ≤ pass.scanStarted →
          ∃ row', s'.row? id = some row' ∧ IsGone row'

variable {lib db schema settings} {odd : List (RelPath × Located)}

theorem recovered_memory (pass : Pass) (s : State) :
    (recovered lib schema pass s).memory = s.memory := by
  refine wp_final (P := fun s' => s'.memory = s.memory)
    (wp_mono (recoverRows_wp lib schema pass s) (fun _ _ h => h.2) fun _ _ h => ?_)
  rw [h]

theorem passable_congr {memory memory' : Memory} {entry : RelPath × Located}
    (h : getStat memory entry.1 = getStat memory' entry.1) :
    Passable settings memory entry ↔ Passable settings memory' entry := by
  unfold Passable
  rw [h]

/-- One pass leaves the odd entries passable that it met so, and no others. -/
theorem Resting.passable_iff {s : State} {pass : Pass}
    (h : Resting lib db schema settings odd s pass) {entry : RelPath × Located}
    (hentry : entry ∈ odd) :
    Passable settings (afterPass lib db schema settings s pass).memory entry ↔
      Passable settings s.memory entry := by
  obtain ⟨walk, hwalk, hrest, hodd⟩ := h.walked
  have hscanned : ∀ s', KeepsStats lib schema settings pass s s' →
      s'.memory.length < unidentifiedLimit →
      (Passable settings s'.memory entry ↔ Passable settings s.memory entry) := by
    rintro s' ⟨walk', result, hwalk', hscan, hlength, hrecall⟩ hroom
    obtain rfl : walk = walk' := Option.some.inj (hwalk.symm.trans hwalk')
    have hentry' := (hodd entry).2 hentry
    obtain ⟨sighting, hmem, hisOdd, hsighting⟩ := mem_oddEntries.1 hentry'
    have hpath : getStat s'.memory entry.1 = getStat result.unidentified entry.1 := by
      apply hrecall
      intro c hc
      rw [← hsighting]
      exact hrest.candidate_path hscan hmem hisOdd hc
    rw [passable_congr hpath, hrest.passable_iff hscan (lt_of_le_of_lt hlength hroom) hentry',
      show (knownOf pass (recovered lib schema pass s)).memory = s.memory from
        recovered_memory pass s]
  have hroom := h.room
  revert hroom
  refine wp_final (P := fun s' => s'.memory.length < unidentifiedLimit →
      (Passable settings s'.memory entry ↔ Passable settings s.memory entry))
    (wp_mono (reconcileOnce_reports lib db schema settings pass s) ?_ ?_)
  · rintro counts s' ⟨hkeeps, -⟩ hroom
    exact hscanned s' hkeeps hroom
  · rintro _ s' (hmemory | hkeeps) hroom
    · rw [hmemory]
    · exact hscanned s' hkeeps hroom

/-- One pass over a tree at rest. -/
theorem Resting.reportsAbsence_iff {s s' : State} {pass : Pass} {counts : Counts} (hkeyed : s.Keyed)
    (h : Resting lib db schema settings odd s pass)
    (hrun : reconcileOnce lib db schema settings pass s = .ok counts s') :
    ReportsAbsence lib schema settings s pass counts s' ↔
      ∀ entry ∈ odd, Passable settings s.memory entry := by
  obtain ⟨walk, hwalk, hrest, hodd⟩ := h.walked
  obtain ⟨walk', result, progress, s₁, hpassed⟩ :=
    wp_ok (reconcileOnce_wp lib db schema settings pass hkeyed) hrun
  obtain rfl : walk = walk' := Option.some.inj (hwalk.symm.trans hpassed.walked)
  have hdeferred : counts.deferred = result.deferred :=
    (wp_ok (reconcileOnce_reports lib db schema settings pass s) hrun).2 walk result hwalk
      hpassed.scanned
  have hmemory : (knownOf pass (recovered lib schema pass s)).memory = s.memory :=
    recovered_memory pass s
  have hiff := hrest.deferred_iff hpassed.scanned
  simp only [hodd, hmemory] at hiff
  rw [← hiff]
  constructor
  · intro hreports
    exact hdeferred.symm.trans hreports.1
  · intro hzero
    refine ⟨hdeferred.trans hzero, ?_⟩
    intro s₀ walk' result' hwalk' hscan' id row hknown hunseen hrow hclock
    obtain rfl := Option.some.inj (hwalk.symm.trans hwalk')
    obtain rfl := Except.ok.inj (hpassed.scanned.symm.trans hscan')
    exact hpassed.gone hzero hknown hunseen hrow hclock

/-- **Deletions held back**: in every run of cheap passes over a tree at rest whose regular files
can all be read, a pass that returns defers nothing, and calls what nothing on disk carries absent,
just where no entry that is no regular file stands in its way: each lies in an ignored folder, or is
a folder not named like a note, or had its stat remembered before the run and no rule excludes it. -/
theorem odd_entries_defer_iff {passes : List Pass} {s : State} (hkeyed : s.Keyed)
    (h : Along (afterPass lib db schema settings) (Resting lib db schema settings odd) s passes) :
    Along (afterPass lib db schema settings) (fun s' pass => ∀ counts s'',
      reconcileOnce lib db schema settings pass s' = .ok counts s'' →
        (ReportsAbsence lib schema settings s' pass counts s'' ↔
          ∀ entry ∈ odd, Passable settings s.memory entry)) s passes := by
  refine h.imp (I := fun s' => s'.Keyed ∧
    ∀ entry ∈ odd, (Passable settings s'.memory entry ↔ Passable settings s.memory entry)) ?_ ?_
    ⟨hkeyed, fun _ _ => Iff.rfl⟩
  · rintro s' pass ⟨hkeyed', hsame⟩ hresting
    exact ⟨afterPass_keyed lib db schema settings hkeyed' pass,
      fun entry hentry => (hresting.passable_iff hentry).trans (hsame entry hentry)⟩
  · rintro s' pass ⟨hkeyed', hsame⟩ hresting counts s'' hrun
    rw [hresting.reportsAbsence_iff hkeyed' hrun]
    exact forall₂_congr hsame

end Runs

section Fifo

/-- A FIFO in the notes filesystem, named like a note. -/
def fifo : RelPath × Located := (PyStr.lit "x.md", .found .other 0 0 .refused)

def fifoPass (started : Instant) : Pass :=
  { plainWorld.pass (cheapTurn started) [] with
    walk := some [⟨fifo.1, fifo.1, fifo.2, started⟩] }

/-- The mirror knows one note, whose file is gone. -/
def oneNote : State :=
  { emptyStore with
    rows := [newRow (PyStr.lit "A") [⟨.path, PyStr.lit "a.md"⟩, ⟨.state, .ok⟩] 0 0] }

/-- A pass over nothing but the FIFO is one over a tree at rest. -/
theorem fifoPass_resting {s : State} {started : Instant}
    (hclaims : ((mirrorIndex (fifoPass started) (recovered plainWorld.lib plainWorld.schema
      (fifoPass started) s)).occupants fifo.1) = [])
    (hroom : (afterPlain s (fifoPass started)).memory.length < unidentifiedLimit) :
    Resting plainWorld.lib plainWorld.db plainWorld.schema plainWorld.settings [fifo] s
      (fifoPass started) := by
  refine ⟨⟨_, rfl, ⟨rfl, List.nodup_singleton _, ?_⟩, fun entry => Iff.rfl⟩, hroom⟩
  intro sighting hmem
  obtain rfl := List.mem_singleton.1 hmem
  exact
    { readable := fun size mtime read h => by cases h
      quiet := fun kind size mtime read _ h => by cases h
      unclaimed := fun _ => hclaims
      named := fun _ => Or.inl (show isMarkdown fifo.1 = true by decide +kernel) }

theorem fifo_run_resting : Along afterPlain
    (Resting plainWorld.lib plainWorld.db plainWorld.schema plainWorld.settings [fifo]) oneNote
    [fifoPass 1, fifoPass 2] :=
  ⟨fifoPass_resting (by decide +kernel) (by decide +kernel),
    fifoPass_resting (by decide +kernel) (by decide +kernel), trivial⟩

theorem odd_entries_defer_sample : Along afterPlain (fun s' pass => ∀ counts s'',
    reconcileOnce plainWorld.lib plainWorld.db plainWorld.schema plainWorld.settings pass s' =
        .ok counts s'' →
      (ReportsAbsence plainWorld.lib plainWorld.schema plainWorld.settings s' pass counts s'' ↔
        ∀ entry ∈ [fifo], Passable plainWorld.settings oneNote.memory entry)) oneNote
    [fifoPass 1, fifoPass 2] :=
  odd_entries_defer_iff (List.nodup_singleton _) fifo_run_resting

/-- The second pass defers the FIFO as the first did, and the note stays as if its file were there. -/
theorem fifo_defers_every_pass :
    Along afterPlain
      (Resting plainWorld.lib plainWorld.db plainWorld.schema plainWorld.settings [fifo]) oneNote
      [fifoPass 1, fifoPass 2] ∧
    ∃ counts s', reconcileOnce plainWorld.lib plainWorld.db plainWorld.schema plainWorld.settings
        (fifoPass 2) (afterPlain oneNote (fifoPass 1)) = .ok counts s' ∧
      counts.deferred = 1 ∧ s'.stateOf (PyStr.lit "A") = some .ok := by
  refine ⟨fifo_run_resting, ?_⟩
  have hreturned : (match reconcileOnce plainWorld.lib plainWorld.db plainWorld.schema
      plainWorld.settings (fifoPass 2) (afterPlain oneNote (fifoPass 1)) with
    | .ok counts s' => counts.deferred == 1 && s'.stateOf (PyStr.lit "A") == some .ok
    | .error _ _ => false) = true := by decide +kernel
  split at hreturned
  · next counts s' hrun =>
    rw [Bool.and_eq_true, beq_iff_eq, beq_iff_eq] at hreturned
    exact ⟨counts, s', hrun, hreturned⟩
  · cases hreturned

end Fifo

end Coppermind.Reconciler
