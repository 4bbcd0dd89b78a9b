import Coppermind.Search.Goal

/-!
# The index converges

While the mirror and the files rest, passes bring the index to its goal, whatever order their rows
come in and wherever some of them are cut.  A pass that answers settles, of each kind, a batch of
the rows that can be settled, less those that take a place in the batch and give nothing.
-/

namespace Coppermind.Search

open Coppermind.Lib Coppermind.Lib.Text Coppermind.Frontmatter
open Coppermind.Lib.Task (wp_seq wp_look_still wp_still_looks)

section Counting

/-- **A batch**: what is left behind it, where some of its places are taken in vain. -/
theorem length_filter_drop {α : Type} (l : List α) (p : α → Bool) (n : Nat) :
    ((l.drop n).filter p).length ≤ (l.filter p).length - (n - (l.filter (!p ·)).length) := by
  have hp : (l.filter p).length = ((l.take n).filter p).length + ((l.drop n).filter p).length := by
    rw [← List.length_append, ← List.filter_append, List.take_append_drop]
  have hn : (l.filter (!p ·)).length =
      ((l.take n).filter (!p ·)).length + ((l.drop n).filter (!p ·)).length := by
    rw [← List.length_append, ← List.filter_append, List.take_append_drop]
  have htake := List.length_eq_length_filter_add (l := l.take n) p
  have hdrop := List.length_eq_length_filter_add (l := l.drop n) p
  rw [List.length_take] at htake
  rw [List.length_drop] at hdrop
  omega

variable (env : Env) (w : World)

/-- The rows of a kind that can be settled. -/
def opens : Kind → Nat
  | .note => ((staleNotes env env.settings.notesFolder w).filter (isOpen env w)).length
  | .source => ((staleSources env env.settings.notesFolder w).filter (isOpen env w)).length
  | .artifact =>
    ((w.artifacts.rows.filter (staleArtifact w)).filter fun a => (currentRecord w a).isSome).length

/-- The rows of a kind that a try does not settle. -/
def stucks : Kind → Nat
  | .note => ((staleNotes env env.settings.notesFolder w).filter (isStuck env w)).length
  | .source => ((staleSources env env.settings.notesFolder w).filter (isStuck env w)).length
  | .artifact =>
    ((w.artifacts.rows.filter (staleArtifact w)).filter fun a => !(currentRecord w a).isSome).length

variable {env w} {w' : World}

theorem nodup_staleNotes : (staleNotes env env.settings.notesFolder w).Nodup :=
  List.Nodup.of_map _ staleNotes_nodup

theorem nodup_staleSources : (staleSources env env.settings.notesFolder w).Nodup :=
  List.Nodup.of_map _ staleSources_nodup

theorem nodup_artifacts : w.artifacts.rows.Nodup := List.Nodup.of_map _ w.artifacts.keyed

section Fewer

variable {p p' : Stale → Bool} (h : ∀ key row, staleAt env w' key = some row → p' row = true →
  staleAt env w key = some row ∧ p row = true)

include h

theorem staleNotes_le : ((staleNotes env env.settings.notesFolder w').filter p').length ≤
    ((staleNotes env env.settings.notesFolder w).filter p).length := by
  refine List.Nodup.length_le_of_subset (nodup_staleNotes.filter _) fun row hrow => ?_
  obtain ⟨hmem, hp⟩ := List.mem_filter.1 hrow
  obtain ⟨hkind, hstale⟩ := mem_staleNotes.1 hmem
  obtain ⟨hold, hpOld⟩ := h _ row hstale hp
  exact List.mem_filter.2 ⟨mem_staleNotes.2 ⟨hkind, hold⟩, hpOld⟩

theorem staleSources_le : ((staleSources env env.settings.notesFolder w').filter p').length ≤
    ((staleSources env env.settings.notesFolder w).filter p).length := by
  refine List.Nodup.length_le_of_subset (nodup_staleSources.filter _) fun row hrow => ?_
  obtain ⟨hmem, hp⟩ := List.mem_filter.1 hrow
  obtain ⟨hkind, hstale⟩ := mem_staleSources.1 hmem
  obtain ⟨hold, hpOld⟩ := h _ row hstale hp
  exact List.mem_filter.2 ⟨mem_staleSources.2 ⟨hkind, hold⟩, hpOld⟩

end Fewer

theorem Toward.artifacts_le (h : Toward env w w') (q : Option Document → Bool) :
    ((w'.artifacts.rows.filter (staleArtifact w')).filter fun a => q (currentRecord w' a)).length ≤
      ((w.artifacts.rows.filter (staleArtifact w)).filter fun a => q (currentRecord w a)).length := by
  refine List.Nodup.length_le_of_subset ((nodup_artifacts.filter _).filter _) fun a ha => ?_
  obtain ⟨hmem, hcurrent⟩ := List.mem_filter.1 ha
  obtain ⟨hrow, hstale⟩ := List.mem_filter.1 hmem
  rw [h.beside.artifacts] at hrow
  rw [h.beside.currentRecord] at hcurrent
  exact List.mem_filter.2 ⟨List.mem_filter.2 ⟨hrow, h.artifact a hrow hstale⟩, hcurrent⟩

theorem Toward.opens_le (h : Toward env w w') (kind : Kind) :
    opens env w' kind ≤ opens env w kind := by
  cases kind with
  | note => exact staleNotes_le h.opened
  | source => exact staleSources_le h.opened
  | artifact => exact h.artifacts_le Option.isSome

theorem Toward.stucks_le (h : Toward env w w') (kind : Kind) :
    stucks env w' kind ≤ stucks env w kind := by
  cases kind with
  | note => exact staleNotes_le h.stuck
  | source => exact staleSources_le h.stuck
  | artifact => exact h.artifacts_le (!Option.isSome ·)

theorem fresh_of_row {key : Key} (hkind : key.1 ≠ .artifact) :
    fresh env w key = (staleAt env w key).bind fun row =>
      if isKnown w row then none else readyOf env w row := by
  unfold fresh
  split
  · next hk => exact absurd hk hkind
  · rfl

/-- Where nothing is open, no stale row is. -/
theorem isOpen_of_settled (h : ∀ kind, opens env w kind = 0) {key : Key} {row : Stale}
    (hstale : staleAt env w key = some row) : isOpen env w row = false := by
  have hkey := (staleAt_cases hstale).1
  rw [← hkey] at hstale
  rw [Bool.eq_false_iff]
  intro hopen
  have hempty : ∀ rows : List Stale, (rows.filter (isOpen env w)).length = 0 → row ∉ rows :=
    fun rows hlength hrow =>
      List.filter_eq_nil_iff.1 (List.eq_nil_of_length_eq_zero hlength) row hrow hopen
  cases hkind : row.kind with
  | note => exact hempty _ (h .note) (mem_staleNotes.2 ⟨hkind, hstale⟩)
  | source => exact hempty _ (h .source) (mem_staleSources.2 ⟨hkind, hstale⟩)
  | artifact =>
    have hartifact : row.key = (.artifact, row.id) := congrArg (·, row.id) hkind
    rw [hartifact] at hstale
    cases hstale

/-- Where nothing is open, nothing can be read. -/
theorem fresh_of_settled (h : ∀ kind, opens env w kind = 0) (key : Key) :
    fresh env w key = none := by
  by_cases hkind : key.1 = .artifact
  · obtain ⟨kind, id⟩ := key
    obtain rfl : kind = .artifact := hkind
    cases hfresh : fresh env w (.artifact, id) with
    | none => rfl
    | some d =>
      exfalso
      obtain ⟨a, hfilter, hread⟩ := Option.bind_eq_some_iff.1 hfresh
      obtain ⟨hfind, hstale⟩ := Option.filter_eq_some_iff.1 hfilter
      have hmem := List.mem_filter.2 ⟨(Table.find_eq_some.1 hfind).1, hstale⟩
      have hempty := List.eq_nil_of_length_eq_zero (h .artifact)
      exact List.filter_eq_nil_iff.1 hempty a hmem (by rw [hread]; rfl)
  · rw [fresh_of_row hkind, Option.bind_eq_none_iff]
    intro row hstale
    have hopen := isOpen_of_settled h hstale
    unfold isOpen at hopen
    split
    · rfl
    · next hknown =>
      cases hready : readyOf env w row with
      | none => rfl
      | some d => simp [hknown, hready] at hopen

/-- **A settled index** is its goal. -/
theorem goal_of_settled (h : ∀ kind, opens env w kind = 0) (htidy : Tidy env w) (key : Key) :
    w.documents.find key = goal env w key := by
  unfold goal
  rw [fresh_of_settled h, htidy key]
  rfl

end Counting

section Batches

variable {env : Env} {w : World} {row : Stale} {rows shuffled : List Stale} {batch : List Stale}
  {change : Change} {call : Call}

theorem perm_shuffle (rows : List Stale) : (call.shuffle rows).Perm rows :=
  List.perm_insertionSort _ rows

theorem mem_batchOf (h : row ∈ batchOf w 0 rows) : row ∈ rows ∧ isKnown w row = false := by
  obtain ⟨hrow, hknown⟩ := List.mem_filter.1 (List.mem_of_mem_take h)
  exact ⟨hrow, by simpa using hknown⟩

theorem batchOf_sublist : (batchOf w 0 rows).Sublist rows :=
  (List.take_sublist _ _).trans List.filter_sublist

theorem isKnown_of_isOpen (h : isOpen env w row = true) : isKnown w row = false := by
  unfold isOpen at h
  simp only [Bool.and_eq_true, Bool.not_eq_true'] at h
  exact h.1

/-- **What a pass reads** at rest is what it records. -/
theorem atRest_of_reads {before after : Reading} {known : List Key}
    (hnotes : Reads env w
      (batchOf w 0 (call.shuffle (staleNotes env env.settings.notesFolder w))) {} before)
    (hsources : Reads env w
      (batchOf w 0 (call.shuffle (staleSources env env.settings.notesFolder w))) before after) :
    AtRest env w
      (batchOf w 0 (call.shuffle (staleNotes env env.settings.notesFolder w)) ++
        batchOf w 0 (call.shuffle (staleSources env env.settings.notesFolder w)))
      { known := known
        candidates := ((call.shuffle (staleNotes env env.settings.notesFolder w) ++
          call.shuffle (staleSources env env.settings.notesFolder w)).map Stale.key).filter
            (· ∉ after.transient.map Mark.key)
        failed := after.failed
        ready := after.ready } where
  stale row hrow := by
    rcases List.mem_append.1 hrow with hrow | hrow
    · exact (mem_staleNotes.1 ((perm_shuffle _).mem_iff.1 (mem_batchOf hrow).1)).2
    · exact (mem_staleSources.1 ((perm_shuffle _).mem_iff.1 (mem_batchOf hrow).1)).2
  keys := by
    rw [List.map_append, List.nodup_append]
    refine ⟨?_, ?_, ?_⟩
    · exact (((perm_shuffle _).map _).nodup_iff.2 staleNotes_nodup).sublist (batchOf_sublist.map _)
    · exact (((perm_shuffle _).map _).nodup_iff.2 staleSources_nodup).sublist
        (batchOf_sublist.map _)
    · intro key hkey key' hkey' heq
      obtain ⟨row, hrow, rfl⟩ := List.mem_map.1 hkey
      obtain ⟨row', hrow', rfl⟩ := List.mem_map.1 hkey'
      have hnote := (mem_staleNotes.1 ((perm_shuffle _).mem_iff.1 (mem_batchOf hrow).1)).1
      have hsource := (mem_staleSources.1 ((perm_shuffle _).mem_iff.1 (mem_batchOf hrow').1)).1
      have hkind : row.kind = row'.kind := congrArg Prod.fst heq
      rw [hnote, hsource] at hkind
      cases hkind
  ready := by
    rw [hsources.ready, hnotes.ready, List.filterMap_append]
    rfl
  failed := by
    rw [hsources.failed, hnotes.failed, List.filterMap_append]
    rfl
  tried row hrow := by
    rcases List.mem_append.1 hrow with hrow | hrow
    · exact hnotes.tried row hrow
    · exact hsources.tried row hrow
  candidates row hrow hfree := by
    have htransient : after.transient = (batchOf w 0 (call.shuffle (staleNotes env
        env.settings.notesFolder w)) ++ batchOf w 0 (call.shuffle (staleSources env
        env.settings.notesFolder w))).filterMap (transientOf env w) := by
      rw [hsources.transient, hnotes.transient, List.filterMap_append]
      rfl
    rw [List.mem_filter, htransient]
    refine ⟨List.mem_map.2 ⟨row, ?_, rfl⟩, decide_eq_true hfree⟩
    rcases List.mem_append.1 hrow with hrow | hrow
    · exact List.mem_append.2 (Or.inl ((perm_shuffle _).mem_iff.2 hrow))
    · exact List.mem_append.2 (Or.inr ((perm_shuffle _).mem_iff.2 hrow))

/-- **A batch that was recorded** is settled, but for what failed for the moment. -/
theorem settled_batch (h : AtRest env w batch change) (hf : Faithful w) {rows' : List Stale}
    (hperm : shuffled.Perm rows) (hnodup : rows'.Nodup)
    (hstale : ∀ row ∈ rows',
      staleAt env (record env env.settings.notesFolder w change) row.key = some row)
    (hrows : ∀ row ∈ rows', staleAt env w row.key = some row → row ∈ rows)
    (hbatch : ∀ row ∈ batchOf w 0 shuffled, row ∈ batch) :
    (rows'.filter (isOpen env (record env env.settings.notesFolder w change))).length ≤
      (rows.filter (isOpen env w)).length -
        (catchUpBatch - (rows.filter (isStuck env w)).length) := by
  have hopen : (rows.filter (isOpen env w)).length =
      ((shuffled.filter (!isKnown w ·)).filter (isOpen env w)).length := by
    rw [List.filter_filter, ← (hperm.filter _).length_eq]
    refine congrArg List.length (List.filter_congr fun row _ => ?_)
    cases hrow : isOpen env w row with
    | true => simp [isKnown_of_isOpen hrow]
    | false => rfl
  have hstuck : (rows.filter (isStuck env w)).length =
      ((shuffled.filter (!isKnown w ·)).filter fun row => !isOpen env w row).length := by
    rw [List.filter_filter, ← (hperm.filter _).length_eq]
    refine congrArg List.length (List.filter_congr fun row _ => ?_)
    unfold isStuck isOpen
    cases isKnown w row <;> simp
  rw [hopen, hstuck]
  refine le_trans (List.Nodup.length_le_of_subset (hnodup.filter _) ?_) (length_filter_drop _ _ _)
  intro row hrow
  obtain ⟨hmem, hrowOpen⟩ := List.mem_filter.1 hrow
  obtain ⟨hold, holdOpen, hnot⟩ := opened_record h hf (hstale row hmem) hrowOpen
  have hfiltered : row ∈ shuffled.filter (!isKnown w ·) :=
    List.mem_filter.2 ⟨hperm.mem_iff.2 (hrows row hmem hold), by simp [isKnown_of_isOpen holdOpen]⟩
  rw [← List.take_append_drop catchUpBatch (shuffled.filter (!isKnown w ·))] at hfiltered
  rcases List.mem_append.1 hfiltered with htake | hdrop
  · exact absurd (hbatch row htake) hnot
  · exact List.mem_filter.2 ⟨hdrop, holdOpen⟩

end Batches

section Passing

variable {env : Env} {w v : World} {a : ArtifactRow} {call : Call} {n : Nat}

/-- On the way from a world, and tidy where that one was. -/
def OnWay (env : Env) (w v : World) : Prop := Toward env w v ∧ (Tidy env w → Tidy env v)

theorem OnWay.trans {u : World} (h : OnWay env w v) (h' : OnWay env v u) : OnWay env w u :=
  ⟨h.1.trans h'.1, fun htidy => h'.2 (h.2 htidy)⟩

theorem OnWay.refl (hf : Faithful w) : OnWay env w w := ⟨Toward.refl hf, id⟩

/-- One artifact. -/
theorem wp_indexArtifact (ha : a ∈ v.artifacts.rows) (hstale : staleArtifact v a = true)
    (hv : OnWay env w v) :
    Task.wp .still (fun _ s => OnWay env w s)
      (fun _ s => OnWay env v s ∧ (s = v ∨ ∃ d, currentRecord v a = some d ∧
        s = upsertDocument env "Notes".toList v d) ∧
          (staleArtifact s a = true → currentRecord s a = none))
      (fun _ s => OnWay env w s) (indexArtifact env a) v := by
  have hf := hv.1.faithful
  unfold indexArtifact
  refine wp_seq (R := fun found s => s = v ∧ v.records a.id = .ok found) ?_ ?_
  · rw [Task.wp_lookOr]
    refine ⟨hv, fun s hs => ⟨fun _ => ?_, fun hfails => hfails.elim⟩⟩
    obtain rfl : s = v := hs
    cases hrecord : s.records a.id with
    | ok found => exact ⟨rfl, rfl⟩
    | error e => exact hv
  · intro found s hfound
    obtain ⟨rfl, hrecord⟩ := hfound
    cases found with
    | none =>
      refine ⟨OnWay.refl hf, Or.inl rfl, fun _ => ?_⟩
      unfold currentRecord
      rw [hrecord]
    | some r =>
      dsimp only
      split
      · next hversion =>
        refine ⟨OnWay.refl hf, Or.inl rfl, fun _ => ?_⟩
        unfold currentRecord
        rw [hrecord]
        exact if_pos hversion
      · next hversion =>
        have hd : currentRecord s a = some (artifactDocument a.id r) := by
          unfold currentRecord
          rw [hrecord]
          exact if_neg hversion
        refine wp_seq (R := fun _ s' => s' = upsertDocument env "Notes".toList s
          (artifactDocument a.id r)) ?_ fun _ s' hs' => ?_
        · refine ⟨hv, fun s' hs' => ⟨fun _ => ?_, fun hfails => hfails.elim⟩⟩
          obtain rfl : s' = s := hs'
          rfl
        · subst hs'
          refine ⟨⟨toward_upsert ha hd _ hf hstale, tidy_upsert ha hd _⟩, Or.inr ⟨_, hd, rfl⟩, ?_⟩
          intro hagain
          rw [not_stale_upsert ha hd] at hagain
          cases hagain

/-- **The artifacts of a pass** are indexed where their records are current. -/
theorem wp_indexArtifacts {stale : List ArtifactRow} (hids : (stale.map ArtifactRow.id).Nodup)
    (hrows : ∀ a ∈ stale, a ∈ v.artifacts.rows ∧ staleArtifact v a = true) (hv : OnWay env w v) :
    Task.wp .still (fun _ s => OnWay env w s)
      (fun _ s => OnWay env v s ∧
        ∀ a ∈ stale, staleArtifact s a = true → currentRecord s a = none)
      (fun _ s => OnWay env w s) (indexArtifacts env n stale) v := by
  induction stale generalizing n v with
  | nil => exact ⟨OnWay.refl hv.1.faithful, fun a ha => absurd ha List.not_mem_nil⟩
  | cons a rest ih =>
    obtain ⟨ha, hrest⟩ := List.forall_mem_cons.1 hrows
    obtain ⟨hid, hids⟩ := List.nodup_cons.1 hids
    refine wp_seq (wp_indexArtifact ha.1 ha.2 hv) fun one s hs => ?_
    obtain ⟨hway, hone, hsettled⟩ := hs
    have hrest' : ∀ b ∈ rest, b ∈ s.artifacts.rows ∧ staleArtifact s b = true := by
      intro b hb
      obtain ⟨hbrow, hbstale⟩ := hrest b hb
      rw [hway.1.beside.artifacts]
      refine ⟨hbrow, ?_⟩
      rcases hone with rfl | ⟨d, hd, rfl⟩
      · exact hbstale
      · rw [staleArtifact_upsert_other ha.1 hd]
        · exact hbstale
        · intro heq
          exact hid (heq ▸ List.mem_map.2 ⟨b, hb, rfl⟩)
    refine Task.wp_mono (ih hids hrest' (hv.trans hway)) (fun _ _ h => h) ?_ fun _ _ h => h
    intro _ s' hs'
    refine ⟨hway.trans hs'.1, List.forall_mem_cons.2 ⟨fun hstale => ?_, hs'.2⟩⟩
    rw [hs'.1.1.beside.currentRecord]
    refine hsettled (hs'.1.1.artifact a ?_ hstale)
    rw [hway.1.beside.artifacts]
    exact ha.1

/-- The artifacts of a pass, and what is left of them. -/
theorem wp_catchUpArtifacts (hv : OnWay env w v) :
    Task.wp .still (fun _ s => OnWay env w s)
      (fun _ s => OnWay env v s ∧
        opens env s .artifact ≤ opens env v .artifact - (catchUpBatch - stucks env v .artifact))
      (fun _ s => OnWay env w s) (catchUpArtifacts env) v := by
  have hperm := List.perm_insertionSort (fun a b : ArtifactRow => a.id ≤ b.id)
    (v.artifacts.rows.filter (staleArtifact v))
  have hmem : ∀ a ∈ staleArtifacts v, a ∈ v.artifacts.rows ∧ staleArtifact v a = true := by
    intro a ha
    exact List.mem_filter.1 (hperm.mem_iff.1 (List.mem_of_mem_take ha))
  have hids : ((staleArtifacts v).map ArtifactRow.id).Nodup := by
    have hall : ((v.artifacts.rows.filter (staleArtifact v)).map ArtifactRow.id).Nodup :=
      v.artifacts.keyed.sublist (List.filter_sublist.map _)
    exact ((hperm.map _).nodup_iff.2 hall).sublist ((List.take_sublist _ _).map _)
  unfold catchUpArtifacts
  refine wp_seq (R := fun stale s => s = v ∧ stale = staleArtifacts v)
    (wp_look_still hv ⟨rfl, rfl⟩) fun stale s hs => ?_
  obtain ⟨rfl, rfl⟩ := hs
  refine Task.wp_mono (wp_indexArtifacts hids hmem hv) (fun _ _ h => h) ?_ fun _ _ h => h
  intro _ s' hs'
  obtain ⟨hway, hdone⟩ := hs'
  refine ⟨hway, ?_⟩
  have hopen : opens env s .artifact = (((s.artifacts.rows.filter (staleArtifact s)).insertionSort
      fun a b => a.id ≤ b.id).filter fun a => (currentRecord s a).isSome).length :=
    ((hperm.filter _).length_eq).symm
  have hstuck : stucks env s .artifact = (((s.artifacts.rows.filter (staleArtifact s)).insertionSort
      fun a b => a.id ≤ b.id).filter fun a => !(currentRecord s a).isSome).length :=
    ((hperm.filter _).length_eq).symm
  rw [hopen, hstuck]
  refine le_trans (List.Nodup.length_le_of_subset ((nodup_artifacts.filter _).filter _) ?_)
    (length_filter_drop _ _ _)
  intro a ha
  obtain ⟨hfiltered, hcurrent⟩ := List.mem_filter.1 ha
  obtain ⟨hrow, hstale⟩ := List.mem_filter.1 hfiltered
  rw [hway.1.beside.artifacts] at hrow
  have hsorted := hperm.mem_iff.2 (List.mem_filter.2 ⟨hrow, hway.1.artifact a hrow hstale⟩)
  rw [← List.take_append_drop catchUpBatch ((s.artifacts.rows.filter
    (staleArtifact s)).insertionSort fun a b => a.id ≤ b.id)] at hsorted
  rcases List.mem_append.1 hsorted with htake | hdrop
  · rw [hdone a htake hstale] at hcurrent
    cases hcurrent
  · refine List.mem_filter.2 ⟨hdrop, ?_⟩
    rw [hway.1.beside.currentRecord] at hcurrent
    exact hcurrent

/-- The rows of one kind. -/
theorem wp_readStale_still {attempted : Nat} {reading : Reading} {rows : List Stale}
    (hv : OnWay env w v) :
    Task.wp .still (fun _ s => OnWay env w s)
      (fun after s => s = v ∧ readAll env v attempted reading rows = .ok after)
      (fun _ s => OnWay env w s) (readStale env v.unreadable.rows attempted reading rows) v := by
  have hlooks : Task.Steps (fun _ f => f = id)
      (readStale env v.unreadable.rows attempted reading rows) :=
    steps_readStale (P := fun _ f => f = id) (fun _ _ => rfl) _ _ _
  refine Task.wp_mono (wp_still_looks hlooks (K := fun _ s => OnWay env w s) (fun _ => hv)
    fun _ => hv) (fun _ _ h => h) ?_ fun _ _ h => h
  intro after s hs
  rw [run_readStale] at hs
  exact ⟨hs.1, (Prod.mk.inj hs.2).1⟩

/-- What a pass that answers leaves. -/
structure Settled (env : Env) (w w' : World) : Prop where
  toward : Toward env w w'
  tidy : Tidy env w'
  opens : ∀ kind, opens env w' kind ≤ opens env w kind - (catchUpBatch - stucks env w kind)

/-- **A pass at rest** is on the way at each of its steps, and settles a batch where it answers. -/
theorem wp_catchUp (hf : Faithful w) :
    Task.wp .still (fun _ s => OnWay env w s) (fun _ s => Settled env w s)
      (fun _ s => OnWay env w s) (catchUp env call) w := by
  have hstart : OnWay env w w := OnWay.refl hf
  have hclean : OnWay env w (clean env env.settings.notesFolder w) :=
    ⟨toward_clean hf, fun _ => tidy_clean⟩
  unfold catchUp
  refine wp_seq (R := fun folder s => folder = env.settings.notesFolder ∧ s = w)
    (wp_look_still hstart ⟨rfl, rfl⟩) fun folder s hs => ?_
  obtain ⟨rfl, rfl⟩ := hs
  refine wp_seq (R := fun _ s' => s' = clean env env.settings.notesFolder s) ?_
    fun removed s' hs' => ?_
  · refine ⟨hstart, fun s' hs' => ⟨fun _ => ?_, fun hfails => hfails.elim⟩⟩
    obtain rfl : s' = s := hs'
    rfl
  generalize hw₁ : clean env env.settings.notesFolder s = w₁ at hs' hclean
  subst hs'
  have hf₁ : Faithful s' := hclean.1.faithful
  have htidy₁ : Tidy env s' := hw₁ ▸ tidy_clean
  refine wp_seq (R := fun known s => s = s' ∧ known = s'.unreadable.rows)
    (wp_look_still hclean ⟨rfl, rfl⟩) fun known t ht => ?_
  obtain ⟨rfl, rfl⟩ := ht
  refine wp_seq (R := fun notes u => u = t ∧
    notes = call.shuffle (staleNotes env env.settings.notesFolder t))
    (wp_look_still hclean ⟨rfl, rfl⟩) fun notes u hu => ?_
  obtain ⟨rfl, rfl⟩ := hu
  refine wp_seq (R := fun sources t => t = u ∧
    sources = call.shuffle (staleSources env env.settings.notesFolder u))
    (wp_look_still hclean ⟨rfl, rfl⟩) fun sources t ht => ?_
  obtain ⟨rfl, rfl⟩ := ht
  refine wp_seq (wp_readStale_still hclean) fun before u hu => ?_
  obtain ⟨rfl, hbefore⟩ := hu
  refine wp_seq (wp_readStale_still hclean) fun after t ht => ?_
  obtain ⟨rfl, hafter⟩ := ht
  have hnotes := reads_of_readAll hbefore
  have hsources := reads_of_readAll hafter
  have hrest := @atRest_of_reads env t call before after (t.unreadable.rows.map Mark.key)
    hnotes hsources
  dsimp only
  generalize hchange : Change.mk _ _ _ _ = change at hrest ⊢
  have hknown : ∀ row ∈ batchOf t 0 (call.shuffle (staleNotes env env.settings.notesFolder t)) ++
      batchOf t 0 (call.shuffle (staleSources env env.settings.notesFolder t)),
      isKnown t row = false := by
    intro row hrow
    rcases List.mem_append.1 hrow with hrow | hrow <;> exact (mem_batchOf hrow).2
  have hrecord : OnWay env s (record env env.settings.notesFolder t change) :=
    hclean.trans ⟨toward_record hrest hf₁ hknown, tidy_record hrest⟩
  refine wp_seq (R := fun _ u => u = record env env.settings.notesFolder t change) ?_
    fun indexed u hu => ?_
  · refine ⟨hclean, fun s' hs' => ⟨fun _ => ?_, fun hfails => hfails.elim⟩⟩
    obtain rfl : s' = t := hs'
    rfl
  subst hu
  refine wp_seq (wp_catchUpArtifacts hrecord) fun artifacts u hu => ?_
  obtain ⟨hway, hartifacts⟩ := hu
  have htoward := (hrecord.trans hway).1
  refine ⟨htoward, hway.2 (tidy_record hrest htidy₁), fun kind => ?_⟩
  have hopen := hclean.1.opens_le kind
  have hstuck := hclean.1.stucks_le kind
  cases kind with
  | note =>
    have hbatch := settled_batch hrest hf₁ (perm_shuffle _) nodup_staleNotes
      (fun row hrow => (mem_staleNotes.1 hrow).2)
      (fun row hrow hold => mem_staleNotes.2 ⟨(mem_staleNotes.1 hrow).1, hold⟩)
      (fun row hrow => List.mem_append.2 (Or.inl hrow))
    have hlast := hway.1.opens_le .note
    unfold opens stucks at *
    dsimp only at *
    omega
  | source =>
    have hbatch := settled_batch hrest hf₁ (perm_shuffle _) nodup_staleSources
      (fun row hrow => (mem_staleSources.1 hrow).2)
      (fun row hrow hold => mem_staleSources.2 ⟨(mem_staleSources.1 hrow).1, hold⟩)
      (fun row hrow => List.mem_append.2 (Or.inr hrow))
    have hlast := hway.1.opens_le .source
    unfold opens stucks at *
    dsimp only at *
    omega
  | artifact =>
    have hopen' := hrecord.1.opens_le .artifact
    have hstuck' := hrecord.1.stucks_le .artifact
    omega

end Passing

section Rounds

/-- A pass while nothing else changes: it runs to its end, or is killed at a step or fails there. -/
inductive Round where
  | whole (call : Call)
  | cut (call : Call) (steps : Nat)

variable (env : Env)

/-- The world that a round leaves. -/
def Round.leaves (w : World) : Round → World
  | .whole call => ((catchUp env call).run w).2
  | .cut call steps =>
    (((catchUp env call).pauses w)[steps]?.map Prod.snd).getD ((catchUp env call).run w).2

/-- It is a whole pass that does not raise. -/
def Round.answers (w : World) : Round → Bool
  | .whole call => ((catchUp env call).run w).1.isOk
  | .cut _ _ => false

def after (w : World) (rounds : List Round) : World := rounds.foldl (Round.leaves env) w

/-- How many of the rounds answer. -/
def completed (w : World) : List Round → Nat
  | [] => 0
  | r :: rest => (r.answers env w).toNat + completed (r.leaves env w) rest

variable {env} {w : World} {rounds : List Round}

theorem onWay_leaves (hf : Faithful w) (r : Round) : OnWay env w (r.leaves env w) := by
  have hpass : ∀ call : Call, OnWay env w ((catchUp env call).run w).2 := by
    intro call
    rcases Task.run_of_wp (@wp_catchUp env w call hf) with
      ⟨a, s, hrun, hsettled⟩ | ⟨e, s, hrun, hway⟩
    · rw [hrun]
      exact ⟨hsettled.toward, fun _ => hsettled.tidy⟩
    · rw [hrun]
      exact hway
  cases r with
  | whole call => exact hpass call
  | cut call steps =>
    rw [Round.leaves]
    cases hpause : ((catchUp env call).pauses w)[steps]? with
    | none => exact hpass call
    | some p =>
      obtain ⟨site, s⟩ := p
      exact Task.pauses_of_wp (wp_catchUp hf) (List.mem_of_getElem? hpause)

theorem settled_leaves (hf : Faithful w) {r : Round} (h : r.answers env w = true) :
    Settled env w (r.leaves env w) := by
  cases r with
  | cut call steps => cases h
  | whole call =>
    rcases Task.run_of_wp (@wp_catchUp env w call hf) with
      ⟨a, s, hrun, hsettled⟩ | ⟨e, s, hrun, -⟩
    · rw [Round.leaves, hrun]
      exact hsettled
    · rw [Round.answers, hrun] at h
      cases h

/-- **A run of rounds** stays on the way, and each that answers settles its batch. -/
theorem rounds_settle (hf : Faithful w) :
    OnWay env w (after env w rounds) ∧
      (0 < completed env w rounds → Tidy env (after env w rounds)) ∧
      ∀ kind, opens env (after env w rounds) kind ≤
        opens env w kind - completed env w rounds * (catchUpBatch - stucks env w kind) := by
  induction rounds generalizing w with
  | nil =>
    refine ⟨OnWay.refl hf, fun h => absurd h (lt_irrefl 0), fun kind => ?_⟩
    rw [completed, Nat.zero_mul, Nat.sub_zero]
    exact le_rfl
  | cons r rest ih =>
    have hway := @onWay_leaves env _ hf r
    obtain ⟨hrest, htidy, hopens⟩ := ih hway.1.faithful
    refine ⟨hway.trans hrest, fun hanswered => ?_, fun kind => ?_⟩
    · cases hr : r.answers env w with
      | true => exact hrest.2 (settled_leaves hf hr).tidy
      | false =>
        rw [completed, hr] at hanswered
        exact htidy (by simpa using hanswered)
    · refine (hopens kind).trans ?_
      have hstuck := hway.1.stucks_le kind
      have hbatch : completed env (r.leaves env w) rest * (catchUpBatch - stucks env w kind) ≤
          completed env (r.leaves env w) rest *
            (catchUpBatch - stucks env (r.leaves env w) kind) :=
        Nat.mul_le_mul_left _ (by omega)
      have hopen := hway.1.opens_le kind
      rw [completed, Nat.add_mul]
      cases hr : r.answers env w with
      | true =>
        have hsettled := (settled_leaves hf hr).opens kind
        rw [Bool.toNat_true, Nat.one_mul]
        omega
      | false =>
        rw [Bool.toNat_false, Nat.zero_mul]
        omega

/-- Enough passes leave nothing open. -/
theorem settled_after (hf : Faithful w) (henough : ∀ kind, opens env w kind ≤
    completed env w rounds * (catchUpBatch - stucks env w kind)) (kind : Kind) :
    opens env (after env w rounds) kind = 0 := by
  have hopens := (@rounds_settle env w rounds hf).2.2 kind
  have hbound := henough kind
  omega

/-- **Convergence**: while the mirror and the files rest, passes in any order, whatever of them are
cut at whatever step, bring the index to its goal, once enough of them answered for the rows that
can be settled. -/
theorem catchUp_converges (env : Env) (w : World) (rounds : List Round) (hf : Faithful w)
    (hone : 0 < completed env w rounds)
    (henough : ∀ kind, opens env w kind ≤
      completed env w rounds * (catchUpBatch - stucks env w kind)) (key : Key) :
    (after env w rounds).documents.find key = goal env w key := by
  obtain ⟨hway, htidy, -⟩ := @rounds_settle env w rounds hf
  rw [goal_of_settled (settled_after hf henough) (htidy hone), hway.1.goal key]

/-- A pass that was killed before it recorded the note, and one that answers. -/
def sampleRounds : List Round := [.cut sampleCall 7, .whole sampleCall]

/-- The sample converges: the note is in the index. -/
theorem catchUp_converges_sample :
    (after sampleEnv sampleWorld sampleRounds).documents.find (.note, PyStr.lit "n1") =
        goal sampleEnv sampleWorld (.note, PyStr.lit "n1") ∧
      goal sampleEnv sampleWorld (.note, PyStr.lit "n1") = some sampleDocument ∧
      ((Round.cut sampleCall 7).leaves sampleEnv sampleWorld).documents.find
        (.note, PyStr.lit "n1") = none :=
  ⟨catchUp_converges sampleEnv sampleWorld sampleRounds (fun _ _ h => by cases h)
      (by decide +kernel) (fun kind => by cases kind <;> decide +kernel) _,
    by decide +kernel, by decide +kernel⟩

end Rounds

section Publication

/-- What the index has to be, of a mirror at rest: it describes nothing but what is published, and
all of it that can be read. -/
structure Publishes (env : Env) (w w' : World) : Prop where
  only : ∀ key d, w'.documents.find key = some d →
    eligible env env.settings.notesFolder w key = true ∧ follow w d = d ∧
      (d.kind = .source → currentSource w d.refId d.version = true)
  note : ∀ n ∈ w.notes.rows, n.state = .ok →
    reviewedNote env env.settings.notesFolder n = true → isKnown w (noteRow n) = false →
      (readNote env w n.path n.id n.contentHash).isOk →
        ∃ d, w'.documents.find (.note, n.id) = some d ∧ d.version = n.contentHash ∧ d.path = n.path
  source : ∀ s ∈ w.sources.rows,
    eligible env env.settings.notesFolder w (.source, s.id) = true →
      isKnown w (sourceRow s) = false → (projectionOf w s.id).1 ≠ [] →
        (readProjection env w (projectionOf w s.id).1 s.id s.currentRevision).isOk →
          ∃ d, w'.documents.find (.source, s.id) = some d ∧
            d.version = sourceVersion s.currentRevision
  artifact : ∀ a ∈ w.artifacts.rows, (currentRecord w a).isSome →
    ∃ d, w'.documents.find (.artifact, a.id) = some d ∧
      d.version = searchVersion a.currentRevision a.extractorVersion

variable {env : Env} {w w' : World} {row : Stale} {key : Key} {d : Document}

theorem exists_of_isOk {ε α : Type} {x : Except ε α} (h : x.isOk) : ∃ a, x = .ok a := by
  cases x with
  | ok a => exact ⟨a, rfl⟩
  | error e => cases h

/-- What a row without a lasting obstacle reads as. -/
theorem readyOf_of_read (hf : Faithful w) (hpath : ¬(row.kind = .source ∧ homeOf w row = []))
    (hread : readEntry env w row (homeOf w row) = .ok d) : readyOf env w row = some d := by
  unfold readyOf tried entryOf
  rw [placeOf_path hf, if_neg hpath, hread]
  rfl

/-- **The goal of a wanted row** that can be read is its version. -/
theorem goal_of_read (hrow : wanted env w key = some row)
    (hknown : isKnown w row = false) (hready : readyOf env w row = some d) :
    ∃ d', goal env w key = some d' ∧ d'.version = row.version ∧ follow w d' = d' := by
  have hkind : key.1 ≠ .artifact := by
    intro hkind
    unfold wanted at hrow
    rw [hkind] at hrow
    cases hrow
  unfold goal
  rw [fresh_of_row hkind]
  cases hstale : staleAt env w key with
  | some row' =>
    have hsame := wanted_of_staleAt hstale
    rw [hrow] at hsame
    obtain rfl := Option.some.inj hsame
    rw [Option.bind_some, hknown]
    obtain ⟨-, hversion, -, hfollow⟩ := readyOf_spec hstale hready
    refine ⟨d.cut, ?_, hversion, ?_⟩
    · rw [if_neg Bool.false_ne_true, hready]
      rfl
    · rw [follow_cut, hfollow]
  | none =>
    unfold staleAt at hstale
    rw [hrow, Option.filter_some] at hstale
    cases hd : w.documents.find key with
    | none =>
      rw [hd] at hstale
      cases hstale
    | some old =>
      have hversion : old.version = row.version := by
        rw [hd] at hstale
        by_contra hne
        simp [hne] at hstale
      have hobs : obsolete env env.settings.notesFolder w old = false := by
        by_contra hne
        have hold : old.key = key := (Table.find_eq_some.1 hd).2
        exact version_ne_of_obsolete (by rw [hold]; exact hrow) (by simpa using hne) hversion
      refine ⟨follow w old, ?_, ?_, follow_follow w old⟩
      · rw [kept_of_current hd hobs]
        rfl
      · rw [follow_version, hversion]

theorem goal_of_record {a : ArtifactRow} (ha : a ∈ w.artifacts.rows)
    (hd : currentRecord w a = some d) :
    ∃ d', goal env w (.artifact, a.id) = some d' ∧
      d'.version = searchVersion a.currentRevision a.extractorVersion := by
  have hfind : w.artifacts.find a.id = some a := Table.find_of_mem ha
  have hfresh : fresh env w (.artifact, a.id) =
      if staleArtifact w a then some d else none := by
    unfold fresh
    dsimp only
    rw [hfind, Option.filter_some]
    split
    · exact hd
    · rfl
  unfold goal
  rw [hfresh]
  cases hstale : staleArtifact w a with
  | true => exact ⟨d.cut, rfl, (currentRecord_spec hd).2⟩
  | false =>
    unfold staleArtifact at hstale
    cases hold : w.documents.find (.artifact, a.id) with
    | none =>
      rw [hold] at hstale
      cases hstale
    | some old =>
      rw [hold] at hstale
      have hkey : old.key = (.artifact, a.id) := (Table.find_eq_some.1 hold).2
      have hobs : obsolete env env.settings.notesFolder w old = false := by
        unfold obsolete
        rw [show old.kind = Kind.artifact from congrArg Prod.fst hkey, hkey]
        simp [eligible, hfind]
      refine ⟨follow w old, ?_, ?_⟩
      · rw [kept_of_current hold hobs]
        rfl
      · rw [follow_version]
        simpa using hstale

theorem follow_path {n : NoteRow} (hkind : d.kind = .note) (hn : w.notes.find d.refId = some n) :
    (follow w d).path = n.path := by
  unfold follow
  rw [hkind, hn]
  rfl

/-- A document that cleaning keeps is of something that is published. -/
theorem published_of_current (hobs : obsolete env env.settings.notesFolder w d = false) :
    eligible env env.settings.notesFolder w d.key = true ∧
      (d.kind = .source → currentSource w d.refId d.version = true) := by
  unfold obsolete at hobs
  split at hobs
  · simp only [Bool.or_eq_false_iff, Bool.not_eq_false'] at hobs
    exact ⟨hobs.1, fun _ => hobs.2⟩
  · next hkind =>
    simp only [Bool.not_eq_false'] at hobs
    exact ⟨hobs, fun h => absurd h hkind⟩

/-- A document of a tidy index is of something that is published. -/
theorem published_of_tidy (hb : Beside w w') (htidy : Tidy env w')
    (hd : w'.documents.find key = some d) :
    eligible env env.settings.notesFolder w key = true ∧ follow w d = d ∧
      (d.kind = .source → currentSource w d.refId d.version = true) := by
  have hkept := htidy key
  unfold kept at hkept
  rw [hd, Option.filter_some] at hkept
  cases hobs : obsolete env env.settings.notesFolder w' d with
  | true =>
    rw [hobs] at hkept
    cases hkept
  | false =>
    rw [hobs] at hkept
    have hfollow : follow w' d = d := Option.some.inj hkept
    rw [hb.obsolete] at hobs
    rw [hb.follow] at hfollow
    obtain ⟨helig, hcurrent⟩ := published_of_current hobs
    rw [(Table.find_eq_some.1 hd).2] at helig
    exact ⟨helig, hfollow, hcurrent⟩

/-- **Publication**: of a mirror at rest, the index that enough passes leave describes nothing but
what is published, each note under its path and each source at its current revision, and it
describes everything published that can be read, at its version. -/
theorem catchUp_publishes (env : Env) (w : World) (rounds : List Round) (hf : Faithful w)
    (hone : 0 < completed env w rounds)
    (henough : ∀ kind, opens env w kind ≤
      completed env w rounds * (catchUpBatch - stucks env w kind)) :
    Publishes env w (after env w rounds) := by
  obtain ⟨hway, htidy, -⟩ := @rounds_settle env w rounds hf
  have hgoal : ∀ key, (after env w rounds).documents.find key = goal env w key := fun key => by
    rw [goal_of_settled (settled_after hf henough) (htidy hone), hway.1.goal key]
  refine ⟨?_, ?_, ?_, ?_⟩
  · intro key d hd
    exact published_of_tidy hway.1.beside (htidy hone) hd
  · intro n hn hstate hreviewed hknown hread
    obtain ⟨d, hd⟩ := exists_of_isOk hread
    have hfind : w.notes.find n.id = some n := Table.find_of_mem hn
    have hwanted : wanted env w (.note, n.id) = some (noteRow n) := by
      unfold wanted
      dsimp only
      rw [hfind, Option.filter_some, hstate, hreviewed]
      rfl
    obtain ⟨d', hd', hversion, hfollow⟩ := goal_of_read hwanted hknown
      (readyOf_of_read hf (fun h => by cases h.1) hd)
    have hkey := (Table.find_eq_some.1 ((hgoal (.note, n.id)).trans hd')).2
    refine ⟨d', (hgoal _).trans hd', hversion, ?_⟩
    rw [← hfollow, follow_path (congrArg Prod.fst hkey)]
    rw [show d'.refId = n.id from congrArg Prod.snd hkey]
    exact hfind
  · intro s hs helig hknown hpath hread
    obtain ⟨d, hd⟩ := exists_of_isOk hread
    have hfind : w.sources.find s.id = some s := Table.find_of_mem hs
    have hwanted : wanted env w (.source, s.id) = some (sourceRow s) := by
      unfold wanted
      dsimp only
      rw [hfind, Option.filter_some, helig]
      rfl
    obtain ⟨d', hd', hversion, -⟩ := goal_of_read hwanted hknown
      (readyOf_of_read hf (fun h => hpath h.2) hd)
    exact ⟨d', (hgoal _).trans hd', hversion⟩
  · intro a ha hcurrent
    obtain ⟨d, hd⟩ := Option.isSome_iff_exists.1 hcurrent
    obtain ⟨d', hd', hversion⟩ := @goal_of_record env w d a ha hd
    exact ⟨d', (hgoal _).trans hd', hversion⟩

/-- The sample publishes: its note is published and can be read. -/
theorem catchUp_publishes_sample :
    Publishes sampleEnv sampleWorld (after sampleEnv sampleWorld sampleRounds) ∧
      isKnown sampleWorld (noteRow sampleNote) = false ∧
      (readNote sampleEnv sampleWorld sampleNote.path sampleNote.id sampleNote.contentHash).isOk :=
  ⟨catchUp_publishes sampleEnv sampleWorld sampleRounds (fun _ _ h => by cases h)
      (by decide +kernel) (fun kind => by cases kind <;> decide +kernel),
    by decide +kernel, by decide +kernel⟩

end Publication

end Coppermind.Search
