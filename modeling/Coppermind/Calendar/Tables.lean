import Coppermind.Calendar.Archive
import Coppermind.Calendar.Merge

/-!
# What the tables of the mirror hold

The merge of a list of exports is what `mergeEvents` makes of their events, one export after
another, and the evidence that the people of those events give.  `Holds` says it of the mirror and
`Stores` of the catalog file; writing the catalog and rebuilding the mirror lead from one to the
other, and the transaction of an import adds one export.
-/

namespace Coppermind.Calendar

open Coppermind.Lib

variable {env : ArchiveEnv}

/-- An export, as it is merged: its receipt, and its events with their provenance. -/
structure Export where
  id : ImportId
  events : List CalendarEvent

section Evidence

variable {rows rows' : Evidence} {eventId : Text} {source : ImportId} {contact : Text}
  {record : ContactEvidence} {people : List CalendarPerson} {event : CalendarEvent}

/-- The evidence that the people of an event give. -/
def giveEvidence (env : ArchiveEnv) (source : ImportId) (rows : Evidence) (event : CalendarEvent) :
    Evidence :=
  match event.identity env.toEnv with
  | .ok identity => addPeople env identity source rows event.people
  | .error _ => rows

/-- The evidence that the people of the events of exports give. -/
def evidenceOfExports (env : ArchiveEnv) (exports : List Export) : Evidence :=
  exports.foldl (fun rows x => x.events.foldl (giveEvidence env x.id) rows) ∅

/-- Every row stands under its own identity. -/
def Keyed (env : ArchiveEnv) (rows : Evidence) : Prop :=
  ∀ k e, view rows k = some e → k = env.evidenceId e.1 e.2

/-- Someone gave evidence. -/
def Given (rows : Evidence) : Prop := ∃ k e, view rows k = some e

theorem mem_iff_view {k : Text} : k ∈ rows ↔ (view rows k).isSome = true :=
  AList.lookup_isSome.symm

theorem addEvidence_congr (h : view rows = view rows') :
    view (addEvidence env rows contact record) = view (addEvidence env rows' contact record) := by
  unfold addEvidence
  have hmem : env.evidenceId contact record ∈ rows ↔ env.evidenceId contact record ∈ rows' := by
    rw [mem_iff_view, mem_iff_view, h]
  by_cases hin : env.evidenceId contact record ∈ rows
  · rw [if_pos hin, if_pos (hmem.1 hin)]
    exact h
  · rw [if_neg hin, if_neg fun h => hin (hmem.2 h), view_insert, view_insert, h]

theorem addEvidence_keyed (h : Keyed env rows) : Keyed env (addEvidence env rows contact record) := by
  simp only [addEvidence]
  split
  · exact h
  · intro k e he
    rw [view_insert] at he
    by_cases hk : k = env.evidenceId contact record
    · rw [hk, Function.update_self] at he
      obtain rfl := Option.some.inj he
      exact hk
    · rw [Function.update_of_ne hk] at he
      exact h k e he

theorem addEvidence_given : Given (addEvidence env rows contact record) := by
  simp only [addEvidence]
  split
  · next hin =>
    rw [mem_iff_view] at hin
    obtain ⟨e, he⟩ := Option.isSome_iff_exists.1 hin
    exact ⟨_, e, he⟩
  · exact ⟨env.evidenceId contact record, _, by rw [view_insert, Function.update_self]⟩

/-- What holds of rows and survives one more piece of evidence survives the people of an event. -/
theorem addPeople_induction {P : Evidence → Prop}
    (hstep : ∀ rows contact record, P rows → P (addEvidence env rows contact record))
    (h : P rows) : P (addPeople env eventId source rows people) := by
  induction people generalizing rows with
  | nil => exact h
  | cons person rest ih =>
    rw [addPeople]
    split
    · exact ih h
    · exact ih (hstep _ _ _ h)

theorem addPeople_congr (h : view rows = view rows') :
    view (addPeople env eventId source rows people) =
      view (addPeople env eventId source rows' people) := by
  induction people generalizing rows rows' with
  | nil => exact h
  | cons person rest ih =>
    rw [addPeople, addPeople]
    split
    · exact ih h
    · exact ih (addEvidence_congr h)

theorem addPeople_keyed (h : Keyed env rows) :
    Keyed env (addPeople env eventId source rows people) :=
  addPeople_induction (fun _ _ _ => addEvidence_keyed) h

theorem addPeople_keeps (h : Given rows) : Given (addPeople env eventId source rows people) :=
  addPeople_induction (fun _ _ _ _ => addEvidence_given) h

/-- A person with a contact gives evidence. -/
theorem addPeople_given (h : ∃ person ∈ people, person.contactId env ≠ none) :
    Given (addPeople env eventId source rows people) := by
  induction people generalizing rows with
  | nil =>
    obtain ⟨person, hperson, -⟩ := h
    cases hperson
  | cons person rest ih =>
    rw [addPeople]
    split
    · next hnone =>
      apply ih
      obtain ⟨other, hother, hcontact⟩ := h
      obtain rfl | hother := List.mem_cons.1 hother
      · exact absurd hnone hcontact
      · exact ⟨other, hother, hcontact⟩
    · exact addPeople_keeps addEvidence_given

theorem giveEvidence_keyed (h : Keyed env rows) :
    Keyed env (giveEvidence env source rows event) := by
  unfold giveEvidence
  split
  · exact addPeople_keyed h
  · exact h

theorem keyed_evidenceOfExports (exports : List Export) :
    Keyed env (evidenceOfExports env exports) := by
  have hevents : ∀ (events : List CalendarEvent) (source : ImportId) (rows : Evidence),
      Keyed env rows → Keyed env (events.foldl (giveEvidence env source) rows) := by
    intro events source
    induction events with
    | nil => exact fun _ h => h
    | cons event rest ih => exact fun _ h => ih _ (giveEvidence_keyed h)
  have hexports : ∀ (exports : List Export) (rows : Evidence), Keyed env rows →
      Keyed env (exports.foldl (fun rows x => x.events.foldl (giveEvidence env x.id) rows) rows) := by
    intro exports
    induction exports with
    | nil => exact fun _ h => h
    | cons x rest ih => exact fun _ h => ih _ (hevents _ _ _ h)
  apply hexports
  intro k e he
  rw [view_empty] at he
  cases he

theorem evidenceOfExports_snoc (exports : List Export) (x : Export) :
    evidenceOfExports env (exports ++ [x]) =
      x.events.foldl (giveEvidence env x.id) (evidenceOfExports env exports) := by
  simp [evidenceOfExports]

/-- Rows that were added under fresh identities were inserted. -/
theorem foldl_addEvidence {l : List (Text × ContactEvidence)} {rows : Evidence}
    (hnodup : (l.map fun e => env.evidenceId e.1 e.2).Nodup)
    (hfresh : ∀ e ∈ l, env.evidenceId e.1 e.2 ∉ rows) :
    l.foldl (fun rows e => addEvidence env rows e.1 e.2) rows =
      (l.map fun e => (env.evidenceId e.1 e.2, e)).foldl (fun d e => d.insert e.1 e.2) rows := by
  induction l generalizing rows with
  | nil => rfl
  | cons e l ih =>
    rw [List.map_cons, List.nodup_cons] at hnodup
    have hadd : addEvidence env rows e.1 e.2 = rows.insert (env.evidenceId e.1 e.2) e :=
      if_neg (hfresh e List.mem_cons_self)
    rw [List.foldl_cons, List.map_cons, List.foldl_cons, hadd]
    apply ih hnodup.2
    intro other hother hmem
    rw [AList.mem_insert] at hmem
    obtain heq | hmem := hmem
    · exact hnodup.1 (heq ▸ List.mem_map_of_mem hother)
    · exact hfresh other (List.mem_cons_of_mem _ hother) hmem

end Evidence

section Merged

variable {exports : List Export} {d d' : Events} {m m' : Mirror} {c : Catalog}

/-- The dictionary is the merge of the events of the exports, in their order. -/
structure Merges (env : ArchiveEnv) (exports : List Export) (d : Events) : Prop where
  merged : mergeEvents env.toEnv ∅ (exports.flatMap (·.events)) = .ok d
  hashed : ∀ k v, view d k = some v → ∃ h, v.semanticHash env.toEnv = .ok h
  witnessed : ∀ k v, view d k = some v → (∃ person ∈ v.people, person.contactId env ≠ none) →
    Given (evidenceOfExports env exports)

/-- The mirror holds the merge of the exports. -/
structure Holds (env : ArchiveEnv) (m : Mirror) (exports : List Export) : Prop where
  events : ∃ d, Merges env exports d ∧ view m.events = view d
  evidence : view m.evidence = view (evidenceOfExports env exports)
  conflicts : m.conflicts = []
  aliases : m.aliases = []
  imports : m.imports = exports.map (·.id)

/-- The catalog stores the merge of the exports. -/
structure Stores (env : ArchiveEnv) (c : Catalog) (exports : List Export) : Prop where
  events : ∃ d, Merges env exports d ∧ Tabulates c.events (view d)
  evidence : Tabulates (c.contactRecords.map fun e => (env.evidenceId e.1 e.2, e))
    (view (evidenceOfExports env exports))
  conflicts : c.conflicts = []
  aliases : c.aliases = []
  imports : c.imports = exports.map (·.id)

theorem merges_nil : Merges env [] ∅ where
  merged := rfl
  hashed k v hv := by
    rw [view_empty] at hv
    cases hv
  witnessed k v hv := by
    rw [view_empty] at hv
    cases hv

theorem stores_empty : Stores env Catalog.empty [] where
  events := by
    refine ⟨∅, merges_nil, List.nodup_nil, ?_⟩
    intro k v
    rw [view_empty]
    exact iff_of_false List.not_mem_nil (by simp)
  evidence := by
    refine ⟨List.nodup_nil, ?_⟩
    intro k v
    rw [evidenceOfExports, List.foldl_nil, view_empty]
    exact iff_of_false List.not_mem_nil (by simp)
  conflicts := rfl
  aliases := rfl
  imports := rfl

theorem holds_empty (signature : Signature) :
    Holds env { Mirror.empty with signature } [] where
  events := ⟨∅, merges_nil, rfl⟩
  evidence := rfl
  conflicts := rfl
  aliases := rfl
  imports := rfl

/-- What a mirror holds is no matter of its signature. -/
theorem Holds.of_signature (h : Holds env m exports) (signature : Signature) :
    Holds env { m with signature } exports :=
  ⟨h.events, h.evidence, h.conflicts, h.aliases, h.imports⟩

/-- **`write_catalog`** stores what the mirror holds. -/
theorem stores_catalogOf (h : Holds env m exports) :
    Stores env (catalogOf m (exports.map (·.id))) exports where
  events := by
    obtain ⟨d, hd, hview⟩ := h.events
    refine ⟨d, hd, ?_⟩
    rw [← hview]
    exact (tabulates_entries m.events).perm ((List.perm_insertionSort _ _).map _)
  evidence := by
    have hkeyed : Keyed env m.evidence := by
      intro k e he
      rw [h.evidence] at he
      exact keyed_evidenceOfExports exports k e he
    have hperm : ((catalogOf m (exports.map (·.id))).contactRecords.map
        fun e => (env.evidenceId e.1 e.2, e)).Perm (m.evidence.entries.map fun e => (e.1, e.2)) := by
      have hsorted := (List.perm_insertionSort (fun a b : Sigma fun _ : Text => _ =>
        (toLex (a.2.1, a.1) : Text ×ₗ Text) ≤ toLex (b.2.1, b.1)) m.evidence.entries).map
          fun e => (env.evidenceId e.2.1 e.2.2, e.2)
      have hpairs : (m.evidence.entries.map fun e => (env.evidenceId e.2.1 e.2.2, e.2)) =
          m.evidence.entries.map fun e => (e.1, e.2) := by
        apply List.map_congr_left
        intro e he
        rw [← hkeyed e.1 e.2 (mem_entries_iff_view.1 he)]
      rw [hpairs] at hsorted
      rw [catalogOf, List.map_map]
      exact hsorted
    rw [← h.evidence]
    exact (tabulates_entries m.evidence).perm hperm
  conflicts := h.conflicts
  aliases := h.aliases
  imports := rfl

theorem foldlM_putEvent {l : List (Text × CalendarEvent)} {rows : Events}
    (h : ∀ e ∈ l, ∃ x, e.2.semanticHash env.toEnv = .ok x) :
    l.foldlM (fun rows e => putEvent env rows e.1 e.2) rows =
      .ok (l.foldl (fun d e => d.insert e.1 e.2) rows) := by
  induction l generalizing rows with
  | nil => rfl
  | cons e l ih =>
    obtain ⟨x, hx⟩ := h e List.mem_cons_self
    have hput : putEvent env rows e.1 e.2 = .ok (rows.insert e.1 e.2) := by
      rw [putEvent, hx]
      rfl
    rw [List.foldlM_cons, hput]
    exact ih fun e he => h e (List.mem_cons_of_mem _ he)

theorem evidenceOfEvents_of_none {events : List CalendarEvent} {rows : Evidence}
    (h : ∀ e ∈ events, ∀ person ∈ e.people, person.contactId env = none) :
    evidenceOfEvents env rows events = .ok rows := by
  induction events with
  | nil => rfl
  | cons event rest ih =>
    have hall : (event.people.all fun person => (person.contactId env).isNone) = true := by
      rw [List.all_eq_true]
      intro person hperson
      rw [h event List.mem_cons_self person hperson]
      rfl
    rw [evidenceOfEvents, if_pos hall]
    exact ih fun e he => h e (List.mem_cons_of_mem _ he)

/-- **`rebuild`** makes a mirror that holds what the catalog stores. -/
theorem rebuild_holds {stamp : Nat} (h : Stores env c exports) :
    ∃ m, rebuild env (some (stamp, c)) = .ok m ∧ Holds env m exports ∧
      m.signature = .file stamp := by
  obtain ⟨d, hd, htable⟩ := h.events
  have hevents : c.events.foldlM (fun rows e => putEvent env rows e.1 e.2) ∅ =
      .ok (c.events.foldl (fun d e => d.insert e.1 e.2) ∅) := by
    apply foldlM_putEvent
    intro e he
    exact hd.hashed e.1 e.2 ((htable.mem_iff e.1 e.2).1 he)
  generalize hrows : c.events.foldl (fun d e => d.insert e.1 e.2) (∅ : Events) = rows at hevents
  have hview : view rows = view d := by
    rw [← hrows]
    exact htable.view_foldl_insert
  by_cases hnone : c.contactRecords = []
  · have hempty : ∀ k, view (evidenceOfExports env exports) k = none := by
      intro k
      cases he : view (evidenceOfExports env exports) k with
      | none => rfl
      | some e =>
        have hmem := (h.evidence.mem_iff k e).2 he
        rw [hnone] at hmem
        cases hmem
    have hpeople : ∀ e ∈ rows.entries.map (·.2), ∀ person ∈ e.people,
        person.contactId env = none := by
      intro e he person hperson
      obtain ⟨⟨k, v⟩, hmem, rfl⟩ := List.mem_map.1 he
      by_contra hcontact
      have hv := mem_entries_iff_view.1 hmem
      rw [hview] at hv
      obtain ⟨k', e', he'⟩ := hd.witnessed k v hv ⟨person, hperson, hcontact⟩
      rw [hempty] at he'
      cases he'
    refine ⟨⟨rows, ∅, c.conflicts, c.aliases, c.imports, .file stamp⟩, ?_, ?_, rfl⟩
    · simp only [rebuild, hevents, bind, Except.bind, if_pos hnone,
        evidenceOfEvents_of_none hpeople, pure, Except.pure]
    · refine ⟨⟨d, hd, hview⟩, ?_, h.conflicts, h.aliases, h.imports⟩
      funext k
      exact (view_empty k).trans (hempty k).symm
  · have hadd := @foldl_addEvidence env c.contactRecords ∅
      (by simpa [Function.comp_def] using h.evidence.nodup) (fun _ _ => AList.notMem_empty _)
    refine ⟨⟨rows, c.contactRecords.foldl (fun rows e => addEvidence env rows e.1 e.2) ∅,
      c.conflicts, c.aliases, c.imports, .file stamp⟩, ?_, ?_, rfl⟩
    · simp only [rebuild, hevents, bind, Except.bind, if_neg hnone, pure, Except.pure]
    · refine ⟨⟨d, hd, hview⟩, ?_, h.conflicts, h.aliases, h.imports⟩
      show view (c.contactRecords.foldl (fun rows e => addEvidence env rows e.1 e.2) ∅) = _
      rw [hadd]
      exact h.evidence.view_foldl_insert

end Merged

section Import

variable {exports : List Export} {m m' : Mirror} {d : Events} {rows rows' : Events}
  {evidence evidence' : Evidence} {count count' : Nat} {event : CalendarEvent} {limits : Limits}
  {source : ImportId} {k : Text}

/-- What a merge makes of an event and of the version stored under its identity. -/
def mergedOf (env : Env) (previous : Option CalendarEvent) (event : CalendarEvent) :
    Except Raised CalendarEvent :=
  match previous with
  | none => pure event
  | some previous => do
    if ← conflicts env event previous then
      throw (.calendarImportError (conflictMessage event previous))
    else
      let newer := decide ((← previous.revision env) < (← event.revision env))
      pure (mergedEvent event previous newer)

theorem mergeEventInto_eq {env : Env} (hid : event.identity env = .ok k) :
    mergeEventInto env d event =
      (mergedOf env (d.lookup k) event).map fun v => assign d k v := by
  simp only [mergeEventInto, hid, bind, Except.bind, mergedOf]
  cases hd : d.lookup k with
  | none => rfl
  | some previous =>
    dsimp only
    cases conflicts env event previous with
    | error e => rfl
    | ok conflict =>
      cases conflict with
      | true => rfl
      | false =>
        cases previous.revision env with
        | error e => rfl
        | ok r =>
          cases event.revision env with
          | error e => rfl
          | ok r' => rfl

theorem mergedOf_cases {env : Env} {previous : Option CalendarEvent} {v : CalendarEvent}
    (h : mergedOf env previous event = .ok v) :
    v.people = event.people ∨ ∃ p, previous = some p ∧ v.people = p.people := by
  cases previous with
  | none =>
    obtain rfl := Except.ok.inj h
    exact Or.inl rfl
  | some p =>
    simp only [mergedOf, bind, Except.bind] at h
    cases hconflict : conflicts env event p with
    | error e =>
      rw [hconflict] at h
      cases h
    | ok conflict =>
      rw [hconflict] at h
      cases conflict with
      | true => cases h
      | false =>
        cases hr : p.revision env with
        | error e =>
          rw [hr] at h
          cases h
        | ok r =>
          cases hr' : event.revision env with
          | error e =>
            rw [hr, hr'] at h
            cases h
          | ok r' =>
            rw [hr, hr'] at h
            obtain rfl := Except.ok.inj h
            by_cases hnewer : r < r'
            · left
              simp [mergedEvent, hnewer]
            · right
              exact ⟨p, rfl, by simp [mergedEvent, hnewer]⟩

/-- The row of an event is merged as its dictionary would be. -/
theorem mergedRow_eq {previous : Option CalendarEvent}
    (hid : event.identity env.toEnv = .ok k) :
    mergedRow env previous event = mergedOf env.toEnv previous event := by
  have hlookup : ∀ current : Events, current.lookup k = previous →
      (do
        match (← mergeEvents env.toEnv current [event]).lookup k with
        | none => throw Raised.keyError
        | some merged => pure merged) = mergedOf env.toEnv previous event := by
    intro current hcurrent
    rw [mergeEvents, List.foldlM_cons, mergeEventInto_eq hid, hcurrent]
    cases mergedOf env.toEnv previous event with
    | error e => rfl
    | ok v =>
      have hv : (assign current k v).lookup k = some v := by
        rw [← view_apply, view_assign, Function.update_self]
      simp only [Except.map, bind, Except.bind, List.foldlM_nil, pure, Except.pure, hv]
  unfold mergedRow
  rw [hid]
  cases previous with
  | none => exact hlookup ∅ (AList.lookup_empty k)
  | some p =>
    apply hlookup (assign ∅ k p)
    rw [← view_apply, view_assign, Function.update_self]

/-- What one event of an import leaves, where the tables hold a merge. -/
theorem importEvent_ok (hrows : view rows = view d)
    (h : importEvent env limits source (rows, evidence, count) event =
      .ok (rows', evidence', count')) :
    ∃ k v, event.identity env.toEnv = .ok k ∧ mergeEventInto env.toEnv d event =
      .ok (assign d k v) ∧ view rows' = Function.update (view d) k (some v) ∧
      evidence' = giveEvidence env source evidence event ∧
      ((∃ x, v.semanticHash env.toEnv = .ok x) ∨ view d k = some v) ∧
      (v.people = event.people ∨ ∃ p, view d k = some p ∧ v.people = p.people) := by
  simp only [importEvent, bind, Except.bind] at h
  cases hid : event.identity env.toEnv with
  | error e =>
    rw [hid] at h
    cases h
  | ok k =>
    rw [hid] at h
    dsimp only at h
    generalize (if (rows.lookup k).isNone = true then count + 1 else count) = counted at h
    split at h
    · cases h
    have hlookup : rows.lookup k = d.lookup k := by
      rw [← view_apply, hrows, view_apply]
    rw [mergedRow_eq hid, hlookup] at h
    cases hmerged : mergedOf env.toEnv (d.lookup k) event with
    | error e =>
      rw [hmerged] at h
      cases h
    | ok v =>
      rw [hmerged] at h
      dsimp only at h
      have hmerge : mergeEventInto env.toEnv d event = .ok (assign d k v) := by
        rw [mergeEventInto_eq hid, hmerged]
        rfl
      have hgive : giveEvidence env source evidence event =
          addPeople env k source evidence event.people := by
        rw [giveEvidence, hid]
      refine ⟨k, v, rfl, hmerge, ?_⟩
      rw [hgive]
      by_cases hsame : some v = d.lookup k
      · rw [if_pos hsame] at h
        obtain ⟨rfl, hrest⟩ := Prod.mk.inj (Except.ok.inj h)
        obtain ⟨rfl, -⟩ := Prod.mk.inj hrest
        have hheld : view d k = some v := hsame.symm
        refine ⟨?_, rfl, Or.inr hheld, mergedOf_cases hmerged⟩
        rw [hrows, ← hheld, Function.update_eq_self]
      · rw [if_neg hsame] at h
        cases hhash : v.semanticHash env.toEnv with
        | error e =>
          simp only [putEvent, hhash, bind, Except.bind] at h
          cases h
        | ok x =>
          simp only [putEvent, hhash, bind, Except.bind, pure, Except.pure] at h
          obtain ⟨rfl, hrest⟩ := Prod.mk.inj (Except.ok.inj h)
          obtain ⟨rfl, -⟩ := Prod.mk.inj hrest
          refine ⟨?_, rfl, Or.inl ⟨x, rfl⟩, mergedOf_cases hmerged⟩
          rw [view_insert, hrows]

/-- What the tables of a transaction hold while it goes over the events of an export. -/
structure Midway (env : ArchiveEnv) (rows : Events) (evidence : Evidence) (d : Events)
    (given : Evidence) : Prop where
  rows : view rows = view d
  evidence : view evidence = view given
  hashed : ∀ k v, view d k = some v → ∃ h, v.semanticHash env.toEnv = .ok h
  witnessed : ∀ k v, view d k = some v → (∃ person ∈ v.people, person.contactId env ≠ none) →
    Given given

theorem giveEvidence_congr {a b : Evidence} (h : view a = view b) :
    view (giveEvidence env source a event) = view (giveEvidence env source b event) := by
  unfold giveEvidence
  split
  · exact addPeople_congr h
  · exact h

/-- **One event** of an import. -/
theorem importEvent_midway {given : Evidence} (hin : Midway env rows evidence d given)
    (h : importEvent env limits source (rows, evidence, count) event =
      .ok (rows', evidence', count')) :
    ∃ d', mergeEventInto env.toEnv d event = .ok d' ∧
      Midway env rows' evidence' d' (giveEvidence env source given event) := by
  obtain ⟨k, v, hid, hmerge, hrows, rfl, hhash, hpeople⟩ := importEvent_ok hin.rows h
  have hgive : giveEvidence env source given event =
      addPeople env k source given event.people := by
    rw [giveEvidence, hid]
  refine ⟨assign d k v, hmerge, ?_, giveEvidence_congr hin.evidence, ?_, ?_⟩
  · rw [hrows, view_assign]
  · intro k' v' hv'
    rw [view_assign] at hv'
    by_cases hk : k' = k
    · rw [hk, Function.update_self] at hv'
      obtain rfl := Option.some.inj hv'
      obtain hhash | hheld := hhash
      · exact hhash
      · exact hin.hashed k v hheld
    · rw [Function.update_of_ne hk] at hv'
      exact hin.hashed k' v' hv'
  · intro k' v' hv' hperson
    rw [hgive]
    rw [view_assign] at hv'
    by_cases hk : k' = k
    · rw [hk, Function.update_self] at hv'
      obtain rfl := Option.some.inj hv'
      obtain hown | ⟨p, hp, hown⟩ := hpeople
      · rw [hown] at hperson
        exact addPeople_given hperson
      · rw [hown] at hperson
        exact addPeople_keeps (hin.witnessed k p hp hperson)
    · rw [Function.update_of_ne hk] at hv'
      exact addPeople_keeps (hin.witnessed k' v' hv' hperson)

/-- **The loop over the events** of an import. -/
theorem importEvents_midway {given : Evidence} {events : List CalendarEvent}
    {tables : Events × Evidence × Nat} (hin : Midway env rows evidence d given)
    (h : events.foldlM (importEvent env limits source) (rows, evidence, count) = .ok tables) :
    ∃ d', mergeEvents env.toEnv d events = .ok d' ∧
      Midway env tables.1 tables.2.1 d' (events.foldl (giveEvidence env source) given) := by
  induction events generalizing rows evidence count d given with
  | nil =>
    obtain rfl := Except.ok.inj h
    exact ⟨d, rfl, hin⟩
  | cons event rest ih =>
    rw [List.foldlM_cons] at h
    cases hstep : importEvent env limits source (rows, evidence, count) event with
    | error e =>
      rw [hstep] at h
      cases h
    | ok next =>
      rw [hstep] at h
      obtain ⟨rows', evidence', count'⟩ := next
      obtain ⟨d₁, hmerge, hin₁⟩ := importEvent_midway hin hstep
      obtain ⟨d', hrest, hin'⟩ := ih hin₁ h
      refine ⟨d', ?_, hin'⟩
      rw [mergeEvents, List.foldlM_cons, hmerge]
      exact hrest

/-- **An import** adds one export to what the mirror holds. -/
theorem importEvents_holds {events : List CalendarEvent} (hm : Holds env m exports)
    (h : importEvents env limits source events m = .ok m') :
    Holds env { m' with imports := m.imports ++ [source] } (exports ++ [⟨source, events⟩]) := by
  obtain ⟨d, hd, hview⟩ := hm.events
  simp only [importEvents, bind, Except.bind] at h
  cases htables : events.foldlM (importEvent env limits source)
      (m.events, m.evidence, m.events.entries.length) with
  | error e =>
    rw [htables] at h
    cases h
  | ok tables =>
    rw [htables] at h
    dsimp only at h
    rw [hm.conflicts] at h
    obtain rfl := Except.ok.inj h
    obtain ⟨d', hmerge, hin⟩ :=
      importEvents_midway ⟨hview, hm.evidence, hd.hashed, hd.witnessed⟩ htables
    have hevidence := @evidenceOfExports_snoc env exports ⟨source, events⟩
    refine ⟨⟨d', ⟨?_, hin.hashed, ?_⟩, hin.rows⟩, ?_, rfl, hm.aliases, ?_⟩
    · have hfirst : (exports.flatMap (·.events)).foldlM (mergeEventInto env.toEnv) ∅ = .ok d :=
        hd.merged
      rw [List.flatMap_append, mergeEvents, List.foldlM_append, hfirst, List.flatMap_singleton]
      exact hmerge
    · rw [hevidence]
      exact hin.witnessed
    · rw [hevidence]
      exact hin.evidence
    · rw [List.map_append, hm.imports]
      rfl

end Import

end Coppermind.Calendar
