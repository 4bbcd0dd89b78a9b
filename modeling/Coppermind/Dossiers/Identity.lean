import Coppermind.Dossiers.Operations

/-!
# Identities over whole runs

The catalog and the ledger in memory keep sound identities in every run of the service, whatever
devices and people change between two steps, whichever steps fail and wherever the process is
killed, as long as the merges of each migration settle and the dossiers that each purge restores
are separate.
-/

namespace Coppermind.Dossiers

open Coppermind.Lib Coppermind.Lib.Text Coppermind.Lib.Task Coppermind.Frontmatter
open Coppermind.Notes (Instant FileBytes)

/-- What is about to be merged or restored leaves identities sound. -/
def Clear (env : Env) (call : Call) (site : Site) (w : World) : Prop :=
  match site, call with
  | .migrate, _ =>
    Redirects.Settles (merges env w.outside.corrections w.outside.addresses w.draft.ledger)
  | .scrub, .purge _ entityIds _ => Separate entityIds w.draft.ledger
  | _, _ => True

instance (env : Env) (call : Call) (site : Site) (w : World) : Decidable (Clear env call site w) := by
  unfold Clear
  split <;> infer_instance

/-- A turn that takes the next step of a call takes one that is clear. -/
def ClearTurn (env : Env) (scene : Scene Site World Raised Unit Call) (t : Turn Call Outside) :
    Prop :=
  match t, scene.site? with
  | .resume, some (call, site) => Clear env call site scene.world
  | _, _ => True

instance (env : Env) (scene : Scene Site World Raised Unit Call) (t : Turn Call Outside) :
    Decidable (ClearTurn env scene t) := by
  unfold ClearTurn
  split <;> infer_instance

/-- The service, its calls one at a time, and everything outside changing between their steps. -/
def serve (env : Env) :
    Scene Site World Raised Unit Call → Turn Call Outside → Scene Site World Raised Unit Call :=
  turn replaceOutside (fun _ _ => true) (Call.job env)

/-- The ledgers of a world are good. -/
structure Intact (env : Env) (w : World) : Prop where
  catalog : ∀ l, w.catalog = some l → Good env ⟨l, w.draft.drawn⟩
  draft : Good env w.draft

/-- A call expects the pages and the rest outside to change, its steps to be clear, and any of them
to fail. -/
def callWeather (env : Env) (call : Call) : Weather Site World where
  others := fun _ w w' => w'.catalog = w.catalog ∧ w'.draft = w.draft
  takes := fun site w _ => Clear env call site w
  fails := fun _ => True

section Steps

variable {env : Env} {call : Call} {w w' : World}

theorem Good.later {d : Draft} (h : Good env d) {drawn : Nat} (hle : d.drawn ≤ drawn) :
    Good env ⟨d.ledger, drawn⟩ := by
  refine ⟨h.sound, ?_⟩
  intro e he
  obtain ⟨i, hi, hid⟩ := h.drawn e he
  exact ⟨i, Nat.lt_of_lt_of_le hi hle, hid⟩

theorem good_empty (drawn : Nat) : Good env ⟨{}, drawn⟩ where
  sound :=
    { distinct := List.nodup_nil
      named := fun _ he => by cases he
      ends := fun _ => .root rfl
      exclusive := fun _ he => by cases he }
  drawn := fun _ he => by cases he

/-- A later draft in memory. -/
theorem Intact.draft_grown (h : Intact env w) {d : Draft} (hd : Grown env w.draft d) :
    Intact env { w with draft := d } where
  catalog := fun l hl => (h.catalog l hl).later hd.1
  draft := hd.2

theorem Intact.others (site : Site) (w w' : World) (h : Intact env w)
    (hothers : (callWeather env call).others site w w') : Intact env w' := by
  obtain ⟨hcatalog, hdraft⟩ := hothers
  refine ⟨?_, hdraft ▸ h.draft⟩
  intro l hl
  rw [hdraft]
  exact h.catalog l (hcatalog ▸ hl)

/-- The calls below keep the ledgers good in the weather of their call. -/
abbrev KeepsIntact (env : Env) (call : Call) {α : Type} (job : Job α) : Prop :=
  Task.Keeps (callWeather env call) (Intact env) job

theorem keeps_read {α : Type} (site : Site) (e : Raised) (f : World → α) :
    KeepsIntact env call (look site e f) := Task.keeps_look Intact.others site e f

theorem keeps_readOr {α : Type} (site : Site) (e : Raised) (f : World → Except Raised α) :
    KeepsIntact env call (lookOr site e f) := Task.keeps_lookOr Intact.others site e f

/-- **One change in memory**. -/
theorem keeps_edit {site : Site} {e : Raised} {f : Draft → Outside → Except Raised Draft}
    (h : ∀ w d', Good env w.draft → Clear env call site w → f w.draft w.outside = .ok d' →
      Grown env w.draft d') : KeepsIntact env call (edit site e f) := by
  apply Task.keeps_step (Intact.others site) ?_ ?_ (Task.keeps_raised e)
  · intro w hw htakes
    cases hf : f w.draft w.outside with
    | ok d' => exact hw.draft_grown (h w d' hw.draft htakes hf)
    | error _ => exact hw
  · intro w
    cases f w.draft w.outside with
    | ok _ => exact Task.keeps_done ()
    | error e' => exact Task.keeps_raised e'

theorem keeps_editEntity {site : Site} {id : Text} {f : Entity → Entity}
    (hf : ∀ e, core (f e) = core e) : KeepsIntact env call (editEntity site id f) := by
  apply keeps_edit
  intro w d' hgood _ h
  obtain rfl := Except.ok.inj h
  exact hgood.modify hf (Nat.le_refl _)

theorem keeps_load : KeepsIntact env call load := by
  apply Task.keeps_act Intact.others
  intro w hw _
  refine ⟨hw.catalog, ?_⟩
  change Good env ⟨w.catalog.getD {}, w.draft.drawn⟩
  cases hcatalog : w.catalog with
  | none => exact good_empty _
  | some l => exact hw.catalog l hcatalog

theorem keeps_save : KeepsIntact env call save := by
  apply Task.keeps_bind
  · apply keeps_edit
    intro w d' hgood _ h
    obtain rfl := Except.ok.inj h
    exact hgood.of_core (Nat.le_refl _) rfl
  · intro _
    apply Task.keeps_act Intact.others
    intro w hw _
    refine ⟨?_, hw.draft⟩
    intro l hl
    obtain rfl := Option.some.inj hl
    exact hw.draft

theorem keeps_requireNoPurge : KeepsIntact env call requireNoPurge :=
  Task.keeps_bind (keeps_read _ _ _) fun _ => Task.keeps_raiseIf _ _

theorem keeps_mirror : KeepsIntact env call mirror :=
  Task.keeps_act Intact.others fun _ h _ => h

end Steps

section Pages

variable {env : Env} {call : Call}

theorem keeps_observe (id : Text) : KeepsIntact env call (observe env id) := by
  apply Task.keeps_bind (keeps_readOr _ _ _)
  intro path
  split
  · apply Task.keeps_bind (keeps_readOr _ _ _)
    intro raw
    apply Task.keeps_bind
    · apply keeps_edit
      intro w d' hgood _ h
      split at h
      · cases h
      · exact observePage_grown hgood h
    · exact fun _ => Task.keeps_pure _
  · apply Task.keeps_bind
    · apply keeps_edit
      intro w d' hgood _ h
      split at h
      · cases h
      · obtain rfl := Except.ok.inj h
        exact observeGone_grown hgood
    · exact fun _ => Task.keeps_pure _

theorem intact_putPage (path : Text) (page : FileBytes) (w : World) (h : Intact env w) :
    Intact env (putPage path page w) := ⟨h.catalog, h.draft⟩

theorem keeps_createPage (id path wanted : Text) :
    KeepsIntact env call (createPage id path wanted) := by
  apply Task.keeps_step (Intact.others _) ?_ ?_ (Task.keeps_raised _)
  · intro w hw _
    split
    · exact hw
    · exact intact_putPage _ _ w hw
  · intro w
    split
    · exact Task.keeps_raised _
    · exact Task.keeps_done _

theorem keeps_replacePage (id path wanted : Text) (raw : FileBytes) :
    KeepsIntact env call (replacePage id path wanted raw) := by
  apply Task.keeps_bind (Task.keeps_act Intact.others fun _ h _ => h)
  intro _
  apply Task.keeps_bind (keeps_readOr _ _ _)
  intro same
  split
  · apply Task.keeps_bind
    · exact Task.keeps_act Intact.others fun w h _ => intact_putPage _ _ w h
    · exact fun _ => Task.keeps_pure _
  · exact Task.keeps_pure _

theorem keeps_projectRead (id : Text) (raw : Option FileBytes) :
    KeepsIntact env call (projectRead env id raw) := by
  apply Task.keeps_bind (keeps_readOr _ _ _)
  intro plan
  cases plan with
  | nothing => exact Task.keeps_pure _
  | settled =>
    apply keeps_editEntity
    exact fun _ => rfl
  | write path block wanted =>
    apply Task.keeps_bind
    · apply keeps_editEntity
      exact fun _ => rfl
    · intro _
      apply Task.keeps_bind keeps_save
      intro _
      have hsettled : ∀ written : Bool, KeepsIntact env call
          (if written = true then
            editEntity (.settle id) id fun e =>
              { e with generated := some block, pending := none, problem := none }
          else pure ()) := by
        intro written
        split
        · apply keeps_editEntity
          exact fun _ => rfl
        · exact Task.keeps_pure _
      cases raw with
      | none =>
        apply Task.keeps_bind (keeps_createPage _ _ _)
        exact fun _ => Task.keeps_bind (Task.keeps_pure true) hsettled
      | some raw => exact Task.keeps_bind (keeps_replacePage _ _ _ _) hsettled

theorem keeps_problemText (text : String) (id : Text) :
    KeepsIntact env call (problemText text id) := by
  apply keeps_editEntity
  exact fun _ => rfl

theorem keeps_project (id : Text) : KeepsIntact env call (project env id) := by
  apply Task.keeps_catchRaised
  · exact Task.keeps_bind (keeps_observe id) fun raw => keeps_projectRead id raw
  · exact fun _ => keeps_problemText _ id

theorem keeps_projectSeen (seen : Seen) (id : Text) :
    KeepsIntact env call (projectSeen env seen id) := by
  unfold projectSeen
  split
  · exact keeps_project id
  · exact Task.keeps_catchRaised (keeps_projectRead id _) fun _ => keeps_problemText _ id

theorem keeps_projectAll (ids : List Text) : KeepsIntact env call (projectAll env ids) := by
  induction ids with
  | nil => exact Task.keeps_pure _
  | cons id ids ih => exact Task.keeps_bind (keeps_project id) fun _ => ih

theorem keeps_projectAllSeen (seen : Seen) (ids : List Text) :
    KeepsIntact env call (projectAllSeen env seen ids) := by
  induction ids with
  | nil => exact Task.keeps_pure _
  | cons id ids ih => exact Task.keeps_bind (keeps_projectSeen seen id) fun _ => ih

theorem keeps_observeAll (ids : List Text) (seen : Seen) :
    KeepsIntact env call (observeAll env ids seen) := by
  induction ids generalizing seen with
  | nil => exact Task.keeps_pure _
  | cons id ids ih =>
    apply Task.keeps_bind
    · apply Task.keeps_catchRaised
      · exact Task.keeps_bind (keeps_observe id) fun _ => Task.keeps_pure _
      · exact fun _ => Task.keeps_bind (keeps_problemText _ id) fun _ => Task.keeps_pure _
    · exact fun _ => ih _

end Pages

section Calls

variable {env : Env} {call : Call}

/-- **A pass**: what devices wrote, what notes contribute, the migration, and the pages. -/
theorem keeps_refreshLocked : KeepsIntact env call (refreshLocked env) := by
  apply Task.keeps_bind keeps_requireNoPurge
  intro _
  apply Task.keeps_bind (keeps_read _ _ _)
  intro before
  apply Task.keeps_bind (keeps_read _ _ _)
  intro ids
  apply Task.keeps_bind (keeps_observeAll ids [])
  intro seen
  apply Task.keeps_bind
  · apply keeps_edit
    intro w d' hgood _ h
    exact contribute_grown hgood h
  intro _
  apply Task.keeps_bind
  · apply keeps_edit
    intro w d' hgood hclear h
    obtain rfl := Except.ok.inj h
    exact migrate_grown hgood hclear
  intro _
  apply Task.keeps_bind (keeps_read _ _ _)
  intro ids
  apply Task.keeps_bind (keeps_projectAllSeen seen ids)
  intro _
  apply Task.keeps_bind (keeps_read _ _ _)
  intro after
  simp only
  split
  · exact keeps_mirror
  · exact Task.keeps_bind keeps_save fun _ => keeps_mirror

theorem keeps_refresh : KeepsIntact env call (refresh env) := by
  apply Task.keeps_bind (keeps_read _ _ _)
  intro pending
  split
  · exact Task.keeps_pure _
  · exact Task.keeps_bind keeps_load fun _ => keeps_refreshLocked

theorem keeps_create (request : EntityInput) : KeepsIntact env call (create env request) := by
  apply Task.keeps_bind keeps_requireNoPurge
  intro _
  apply Task.keeps_bind keeps_load
  intro _
  apply Task.keeps_bind
  · apply keeps_edit
    intro w d' hgood _ h
    cases hmake : make env w.draft request false with
    | error e =>
      rw [hmake] at h
      cases h
    | ok made =>
      obtain ⟨draft, id⟩ := made
      rw [hmake] at h
      obtain rfl := Except.ok.inj h
      exact (make_ok hgood hmake).1.receipt _ _ _ _
  intro _
  apply Task.keeps_bind keeps_save
  intro _
  apply Task.keeps_bind (keeps_read _ _ _)
  intro ids
  apply Task.keeps_bind (keeps_projectAll _)
  intro _
  exact Task.keeps_bind keeps_save fun _ => keeps_mirror

theorem keeps_change (id : Text) (request : EntityChange) :
    KeepsIntact env call (change env id request) := by
  apply Task.keeps_bind keeps_load
  intro _
  apply Task.keeps_bind keeps_refreshLocked
  intro _
  apply Task.keeps_bind
  · apply Task.keeps_step (Intact.others _) ?_ ?_ (Task.keeps_raised _)
    · intro w hw _
      split
      · next draft ids hdecide => exact hw.draft_grown (decideChange_grown hw.draft hdecide)
      · exact hw
    · intro w
      split
      · exact Task.keeps_done _
      · exact Task.keeps_done _
      · exact Task.keeps_raised _
  intro ids
  cases ids with
  | none => exact Task.keeps_pure _
  | some ids =>
    apply Task.keeps_bind keeps_save
    intro _
    apply Task.keeps_bind (keeps_projectAll _)
    intro _
    exact Task.keeps_bind keeps_save fun _ => keeps_mirror

theorem keeps_follow (noteId path hash before body : Text) :
    KeepsIntact env call (follow noteId path hash before body) := by
  apply Task.keeps_bind (keeps_read _ _ _)
  intro pending
  split
  · exact Task.keeps_pure _
  · apply Task.keeps_bind keeps_load
    intro _
    apply Task.keeps_bind (keeps_read _ _ _)
    intro old
    apply Task.keeps_bind
    · apply keeps_edit
      intro w d' hgood _ h
      obtain rfl := Except.ok.inj h
      exact hgood.of_core (Nat.le_refl _) (map_core fun _ _ => rfl)
    intro _
    apply Task.keeps_bind (keeps_read _ _ _)
    intro new
    split
    · exact Task.keeps_pure _
    · exact keeps_save

theorem keeps_purgePages (ids : List Text) : KeepsIntact env call (purgePages env ids) := by
  induction ids with
  | nil => exact Task.keeps_pure _
  | cons id ids ih =>
    apply Task.keeps_bind (keeps_project id)
    intro _
    apply Task.keeps_bind
    · apply keeps_editEntity
      intro e
      split <;> rfl
    · exact fun _ => ih

/-- **A purge** scrubs the ledger of its own call. -/
theorem keeps_purge (noteIds entityIds : List Text) (token : Text) :
    KeepsIntact env (.purge noteIds entityIds token) (purge env noteIds entityIds token) := by
  apply Task.keeps_bind keeps_load
  intro _
  apply Task.keeps_bind (keeps_read _ _ _)
  intro done
  split
  · exact Task.keeps_pure _
  · apply Task.keeps_bind
    · apply keeps_edit
      intro w d' hgood hclear h
      obtain rfl := Except.ok.inj h
      exact purge_grown hgood hclear
    intro _
    apply Task.keeps_bind (Task.keeps_act Intact.others fun _ h _ => h)
    intro _
    apply Task.keeps_bind keeps_save
    intro _
    apply Task.keeps_bind (keeps_read _ _ _)
    intro ids
    apply Task.keeps_bind (keeps_purgePages ids)
    intro _
    apply Task.keeps_bind
    · apply keeps_edit
      intro w d' hgood _ h
      obtain rfl := Except.ok.inj h
      exact hgood.of_core (Nat.le_refl _) rfl
    · exact fun _ => keeps_save

theorem keeps_job (call : Call) : KeepsIntact env call (call.job env) := by
  cases call with
  | create request => exact keeps_create request
  | change id request => exact keeps_change id request
  | refresh => exact keeps_refresh
  | follow noteId path hash before body => exact keeps_follow noteId path hash before body
  | purge noteIds entityIds token => exact keeps_purge noteIds entityIds token

end Calls

/-- **Sound identities**: in every run from the empty store whose migrations and purges are clear,
every redirect of the catalog and of the ledger in memory names a dossier, the redirects from any
dossier are followed to their end, and no address belongs to two dossiers that are no redirects. -/
theorem identities_sound (env : Env) (outside : Outside) {turns : List (Turn Call Outside)}
    (hrun : Along (serve env) (ClearTurn env) ⟨World.initial outside, none⟩ turns) :
    ∀ ledger,
      ((turns.foldl (serve env) ⟨World.initial outside, none⟩).world.catalog = some ledger ∨
        (turns.foldl (serve env) ⟨World.initial outside, none⟩).world.draft.ledger = ledger) →
      Sound ledger ∧ ∀ id, ∃ found, resolve ledger id = .ok found := by
  have hstart : Intact env (World.initial outside) := by
    refine ⟨?_, good_empty 0⟩
    intro l hl
    cases hl
  have hway : OnTheWay (callWeather env) (Intact env)
      (turns.foldl (serve env) ⟨World.initial outside, none⟩) := by
    apply onTheWay_run ?_ ?_ ?_ ?_ ?_ (fun _ _ => trivial) hrun ⟨hstart, trivial⟩
    · exact fun _ _ _ => ⟨rfl, rfl⟩
    · exact fun _ _ _ _ _ h h' => ⟨h'.1.trans h.1, h'.2.trans h.2⟩
    · exact fun _ call _ w hw => keeps_job call w hw
    · intro scene o _ _ hI
      exact ⟨⟨hI.catalog, hI.draft⟩, fun _ _ _ => ⟨rfl, rfl⟩⟩
    · intro scene hclear call site hsite
      unfold ClearTurn at hclear
      rw [hsite] at hclear
      exact hclear
  intro ledger hledger
  have hsound : Sound ledger := by
    obtain hcatalog | hdraft := hledger
    · exact (hway.1.catalog ledger hcatalog).sound
    · exact hdraft ▸ hway.1.draft.sound
  exact ⟨hsound, hsound.resolve⟩

section Samples

/-- YAML of the heads of pages: one line for each key, lists between brackets. -/
def headYaml : RoundTrip where
  load := fun block => .ok (.mapping ⟨some block, entriesOf block⟩)
  loadGuessIndent := fun block => .ok (.mapping ⟨some block, entriesOf block⟩, none, none)
  keyPosition := fun _ _ => (0, 0)
  dump := fun _ m => .ok (m.entries.flatMap fun (key, value) =>
    textOf key ++ ": ".toList ++ textOf value ++ [lf])
where
  textOf : Value → Text
    | .str text => text
    | .seq _ items => '[' :: (", ".toList).intercalate (items.map fun
      | .str text => text
      | _ => []) ++ [']']
    | _ => []
  valueOf (text : Text) : Value :=
    if text.head? = some '[' then
      if text.length = 2 then .seq false []
      else .seq false (((text.drop 1).dropLast.splitOn ',').map fun item => .str (strip item))
    else .str text
  entriesOf (block : Text) : Entries :=
    (splitLines block).filterMap fun line =>
      (cutAt ": ".toList line).map fun (key, value) => (.str key, valueOf (strip value))

def sampleEnv : Env where
  lower := id
  unescape := id
  unicode := ⟨id, List.map Char.toUpper, List.map Char.toLower⟩
  lib := headYaml
  str := fun _ => []
  newId := fun n => List.replicate (n + 1) 'e'
  newId_injective := by
    intro m n h
    have hlength := congrArg List.length h
    simpa using hlength
  digestText := id
  digestList := List.flatten
  digestPreview := fun p => p.subject
  digestCorrection := fun c => c.name ++ c.sameAs
  contentHash := fun
    | .utf8 text => text
    | .other _ => []

/-- Four contacts with one address each. -/
def sampleOutside (corrections : List (Text × ContactCorrection)) : Outside where
  pages := fun _ => none
  notes := []
  fields := []
  legacy := []
  corrections := corrections
  addresses := fun contact =>
    if contact = ['x'] then ["a@x".toList]
    else if contact = ['u'] then ["aa@x".toList]
    else if contact = ['y'] then ["b@x".toList]
    else ["bb@x".toList]
  getNote := fun id => .error (.notFound id)
  purgePending := false
  now := 0

/-- A dossier is created, and the process killed before its page is written. -/
def created (name : String) (emails : List String) : List (Turn Call Outside) :=
  [.start (.create { kind := .person, name := name.toList, emails := emails.map String.toList }),
    .resume, .resume, .resume, .resume, .resume, .kill]

def asked (id : String) (request : EntityChange) : List (Turn Call Outside) :=
  .start (.change id.toList request) :: List.replicate 100 .resume

/-- The catalog a run ends with. -/
def sampleCatalog (corrections : List (Text × ContactCorrection)) (turns : List (Turn Call Outside)) :
    Option Ledger :=
  (turns.foldl (serve sampleEnv) ⟨World.initial (sampleOutside corrections), none⟩).world.catalog

def refreshed : List (Turn Call Outside) :=
  created "A" ["a@x", "aa@x"] ++ created "B" ["b@x", "bb@x"] ++
    .start .refresh :: List.replicate 60 .resume

def purged : List (Turn Call Outside) :=
  refreshed ++ .start (.purge [] ["ee".toList] "t".toList) :: List.replicate 60 .resume

/-- The second contact is the same as the first. -/
def oneWay : Outside := sampleOutside [(['x'], ⟨[], ['y'], []⟩)]

theorem purged_clear : Along (serve sampleEnv) (ClearTurn sampleEnv) ⟨World.initial oneWay, none⟩
    purged := by decide +kernel

/-- A merge, a purge of the dossier merged into, and clear steps all the way. -/
theorem identities_sound_sample :
    (purged.foldl (serve sampleEnv) ⟨World.initial oneWay, none⟩).world.catalog.isSome = true ∧
      ∀ ledger,
        ((purged.foldl (serve sampleEnv) ⟨World.initial oneWay, none⟩).world.catalog = some ledger ∨
          (purged.foldl (serve sampleEnv) ⟨World.initial oneWay, none⟩).world.draft.ledger = ledger) →
        Sound ledger ∧ ∀ id, ∃ found, resolve ledger id = .ok found :=
  ⟨by decide +kernel, identities_sound sampleEnv oneWay purged_clear⟩

/-- Two contacts of one dossier and two of another, each pair merged in its own direction. -/
def crossed : List (Text × ContactCorrection) := [(['x'], ⟨[], ['y'], []⟩), (['v'], ⟨[], ['u'], []⟩)]

/-- A is merged into B, which gives up A's address; D takes it; B is retired and purged. -/
def takenOver : List (Turn Call Outside) :=
  created "A" ["a@x"] ++ created "B" ["b@x"] ++
    asked "e" { version := 2, action := .merge, target := some "ee".toList, preview := some ['e'] } ++
    asked "ee" { version := 3, action := .aliases, emails := some ["b@x".toList] } ++
    created "D" ["a@x"] ++ asked "ee" { version := 4, action := .retire } ++
    .start (.purge [] ["ee".toList] "t".toList) :: List.replicate 60 .resume

theorem crossed_hangs : (sampleCatalog crossed refreshed).map (resolve · ['e']) =
    some (.error .hangs) := by decide +kernel

theorem takenOver_shares : (sampleCatalog [] takenOver).map (fun l => l.entities.map core) =
    some [(['e'], ["a@x".toList], none), ("eee".toList, ["a@x".toList], none)] := by
  decide +kernel

/-- **Unsound identities**: a migration that merges two dossiers into each other saves redirects
that go round, and a purge that restores a dossier saves an address that two dossiers have. -/
theorem unclear_steps_unsound :
    (∃ ledger, sampleCatalog crossed refreshed = some ledger ∧
      resolve ledger ['e'] = .error .hangs ∧ ¬Sound ledger) ∧
    ∃ ledger, sampleCatalog [] takenOver = some ledger ∧ ¬Sound ledger := by
  constructor
  · obtain ⟨ledger, hledger, hhangs⟩ := Option.map_eq_some_iff.1 crossed_hangs
    refine ⟨ledger, hledger, hhangs, ?_⟩
    intro hsound
    obtain ⟨found, hfound⟩ := hsound.resolve ['e']
    rw [hhangs] at hfound
    cases hfound
  · obtain ⟨ledger, hledger, hcores⟩ := Option.map_eq_some_iff.1 takenOver_shares
    refine ⟨ledger, hledger, ?_⟩
    intro hsound
    have hmem : ∀ c ∈ ledger.entities.map core, ∃ e ∈ ledger.entities, core e = c :=
      fun c hc => List.mem_map.1 hc
    rw [hcores] at hmem
    obtain ⟨e, he, hce⟩ := hmem _ List.mem_cons_self
    obtain ⟨f, hf, hcf⟩ := hmem _ (List.mem_cons_of_mem _ List.mem_cons_self)
    have hid := hsound.exclusive e he f hf (congrArg (·.2.2) hce) (congrArg (·.2.2) hcf)
      "a@x".toList (by rw [show e.emails = _ from congrArg (·.2.1) hce]; exact List.mem_cons_self)
      (by rw [show f.emails = _ from congrArg (·.2.1) hcf]; exact List.mem_cons_self)
    rw [show e.id = _ from congrArg (·.1) hce, show f.id = _ from congrArg (·.1) hcf] at hid
    exact absurd hid (by decide)

end Samples

end Coppermind.Dossiers
