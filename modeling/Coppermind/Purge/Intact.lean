import Coppermind.Purge.Receipts

/-!
# What an interrupted purge leaves

A confirmation takes away what its receipt lists and writes pages of dossiers that stay, in an
order that a fault or a kill may cut anywhere.  `Waning` says what it leaves: the store it started
from, with some of the list gone.  What is left of an item still passes the checks of a resumed
purge, and its folders still hold nothing that is not listed.
-/

namespace Coppermind.Purge

open Coppermind.Lib
open Coppermind.Lib.Text
open Coppermind.Lib.Task (look lookOr steps_forEach wp_perform_alone wp_look_alone wp_lookOr_alone)
open Coppermind.Notes (FileBytes)

section Items

/-- The files of an item verify, nothing unlisted stands beside them, and its folders hold listed
places only. -/
structure Intact (env : Env) (item : Item) (d : Disk) : Prop where
  files : ∀ f ∈ item.files, verifyFile env d f = .ok ()
  beside : ∀ p ∈ beside d item, p ∈ item.files.map fun f => (f.area, f.path)
  resolved : ∀ path ∈ item.directories,
    resolve d item.directoryRoot path = some (item.directoryRoot.at path)
  folders : ∀ place ∈ item.directoryPlaces, ∀ node, d.lookup place = some node → node = .folder
  enclosed : ∀ place ∈ item.directoryPlaces, ∀ p, d.has p = true → place <+: p → p ∈ item.places

/-- The disk `d'` is `d` with some of the places gone and some of the pages written. -/
def Cleared (places : List (List PyStr)) (pages : List PyStr → Prop) (d d' : Disk) : Prop :=
  ∀ p, d'.lookup p = d.lookup p ∨ (p ∈ places ∧ d'.lookup p = none) ∨
    (pages p ∧ ∃ data, d'.lookup p = some (.file data))

variable {env : Env} {item : Item} {places : List (List PyStr)} {pages : List PyStr → Prop}
  {d d' d'' : Disk}

theorem directoryRoot_ne : item.directoryRoot ≠ .notes := by
  unfold Item.directoryRoot
  split <;> decide

theorem Cleared.refl : Cleared places pages d d := fun _ => Or.inl rfl

theorem Cleared.trans (h : Cleared places pages d d') (h' : Cleared places pages d' d'') :
    Cleared places pages d d'' := by
  intro p
  obtain hsame | hgone | hpage := h' p
  · rw [hsame]
    exact h p
  · exact Or.inr (Or.inl hgone)
  · exact Or.inr (Or.inr hpage)

theorem cleared_erase {place : List PyStr} (hplace : place ∈ places) :
    Cleared places pages d (d.erase place) := by
  intro p
  by_cases h : p = place
  · subst h
    exact Or.inr (Or.inl ⟨hplace, AList.lookup_erase _ _⟩)
  · exact Or.inl (AList.lookup_erase_ne h)

theorem Cleared.linked (h : Cleared places pages d d') {p : List PyStr}
    (hp : d.linked p = false) : d'.linked p = false := by
  rw [Volume.linked, List.any_eq_false] at hp ⊢
  intro q hq hlink
  obtain ⟨node, hnode, hislink⟩ := (Option.any_eq_true _ _).1 hlink
  obtain hsame | ⟨-, hgone⟩ | ⟨-, data, hdata⟩ := h q
  · exact hp q hq ((Option.any_eq_true _ _).2 ⟨node, hsame ▸ hnode, hislink⟩)
  · rw [hgone] at hnode
    cases hnode
  · rw [hdata] at hnode
    cases hnode
    cases hislink

theorem Cleared.resolve (h : Cleared places pages d d') {area : Area} {path : Parts}
    {place : List PyStr} (hr : resolve d area path = some place) :
    Purge.resolve d' area path = some place := by
  have hlink := h.linked (resolve_linked hr)
  obtain rfl := resolve_place hr
  unfold Purge.resolve at hr ⊢
  split at hr
  · cases hr
  · next hsafe =>
    rw [if_neg hsafe, if_neg (by rw [hlink]; simp)]

/-- Where no page is written, nothing is added or changed. -/
theorem Cleared.shrunk (h : Cleared places pages d d') {p : List PyStr} (hp : ¬pages p)
    {node : Node FileBytes} (hnode : d'.lookup p = some node) : d.lookup p = some node := by
  obtain hsame | ⟨-, hgone⟩ | ⟨hpage, -⟩ := h p
  · rw [← hsame, hnode]
  · rw [hgone] at hnode
    cases hnode
  · exact absurd hpage hp

/-- Pages lie in the notes tree and at no listed place. -/
def Apart (places : List (List PyStr)) (pages : List PyStr → Prop) : Prop :=
  ∀ p, pages p → (∃ path, p = Area.notes.at path) ∧ p ∉ places

theorem Apart.elsewhere (h : Apart places pages) {area : Area} (harea : area ≠ .notes)
    (path : Parts) : ¬pages (area.at path) := by
  intro hpage
  obtain ⟨⟨path', hpath⟩, -⟩ := h _ hpage
  exact harea (Area.at_inj.1 hpath).1

section Clearing

variable (hapart : Apart places pages) (h : Cleared places pages d d')

include hapart h

theorem Cleared.walk {area : Area} (harea : area ≠ .notes) {path p : Parts}
    (hp : p ∈ walk d' area path) :
    p ∈ Purge.walk d area path ∧ d'.lookup (area.at p) = d.lookup (area.at p) := by
  rw [mem_walk] at hp ⊢
  obtain ⟨hhas, hunder⟩ := hp
  obtain ⟨node, hnode⟩ := has_iff.1 hhas
  have hbefore := h.shrunk (hapart.elsewhere harea p) hnode
  exact ⟨⟨has_iff.2 ⟨node, hbefore⟩, hunder⟩, hnode.trans hbefore.symm⟩

theorem Cleared.filesUnder {area : Area} (harea : area ≠ .notes) {path p : Parts}
    (hp : p ∈ filesUnder d' area path) : p ∈ Purge.filesUnder d area path := by
  obtain ⟨hwalk, hfile⟩ := List.mem_filter.1 hp
  obtain ⟨hbefore, hsame⟩ := h.walk hapart harea hwalk
  refine List.mem_filter.2 ⟨hbefore, ?_⟩
  rwa [isDir, ← hsame]

theorem Cleared.recoveryFiles {id : PyStr} {p : Parts} (hp : p ∈ recoveryFiles d' id) :
    p ∈ Purge.recoveryFiles d id := by
  obtain ⟨name, hname, rfl⟩ := List.mem_map.1 hp
  obtain ⟨hnames, hform⟩ := List.mem_filter.1 hname
  refine List.mem_map.2 ⟨name, List.mem_filter.2 ⟨?_, hform⟩, rfl⟩
  obtain ⟨q, hq, hlast⟩ := List.mem_filterMap.1 hnames
  obtain ⟨hwalk, hdepth⟩ := List.mem_filter.1 hq
  have hbefore := (h.walk hapart (by decide) hwalk).1
  exact List.mem_filterMap.2 ⟨q, List.mem_filter.2 ⟨hbefore, hdepth⟩, hlast⟩

theorem Cleared.beside {p : Area × Parts} (hp : p ∈ beside d' item) :
    p ∈ Purge.beside d item := by
  unfold Purge.beside at hp ⊢
  cases hkind : item.kind with
  | source =>
    simp only [hkind] at hp ⊢
    obtain ⟨q, hq, rfl⟩ := List.mem_map.1 hp
    exact List.mem_map.2 ⟨q, h.filesUnder hapart (by decide) hq, rfl⟩
  | artifact =>
    simp only [hkind] at hp ⊢
    obtain ⟨q, hq, rfl⟩ := List.mem_map.1 hp
    exact List.mem_map.2 ⟨q, h.filesUnder hapart (by decide) hq, rfl⟩
  | note =>
    simp only [hkind] at hp ⊢
    obtain ⟨q, hq, rfl⟩ := List.mem_map.1 hp
    exact List.mem_map.2 ⟨q, h.recoveryFiles hapart hq, rfl⟩
  | entity =>
    rw [hkind] at hp
    cases hp

/-- A listed place is as it was or is gone. -/
theorem Cleared.listed {p : List PyStr} (hp : p ∈ places) :
    d'.lookup p = d.lookup p ∨ d'.lookup p = none := by
  obtain hsame | ⟨-, hgone⟩ | ⟨hpage, -⟩ := h p
  · exact Or.inl hsame
  · exact Or.inr hgone
  · exact absurd hp (hapart p hpage).2

theorem Cleared.verifyFile {f : Listed} (hf : f.place ∈ places)
    (hverify : verifyFile env d f = .ok ()) : Purge.verifyFile env d' f = .ok () := by
  have hresolve := h.resolve (verifyFile_spec hverify).1
  unfold Purge.verifyFile resolveOr at hverify ⊢
  rw [(verifyFile_spec hverify).1] at hverify
  rw [hresolve]
  simp only [bind, Except.bind] at hverify ⊢
  obtain hsame | hgone := h.listed hapart hf
  · have hhas : d'.has f.place = d.has f.place := by rw [Volume.has, Volume.has, hsame]
    have hfile : file? d' f.place = file? d f.place := by rw [file?, file?, hsame]
    rwa [hhas, hfile]
  · have hhas : d'.has f.place = false := by
      rw [Volume.has, hgone]
      rfl
    rw [hhas]
    rfl

/-- **What is left of an intact item** is intact. -/
theorem Intact.cleared (hintact : Intact env item d) (hitem : item.places ⊆ places) :
    Intact env item d' where
  files f hf := h.verifyFile hapart
    (hitem (List.mem_append_left _ (List.mem_map_of_mem hf))) (hintact.files f hf)
  beside p hp := hintact.beside p (h.beside hapart hp)
  resolved path hpath := h.resolve (hintact.resolved path hpath)
  folders place hplace node hnode := by
    obtain ⟨path, -, rfl⟩ := List.mem_map.1 hplace
    exact hintact.folders _ hplace node (h.shrunk (hapart.elsewhere directoryRoot_ne path) hnode)
  enclosed place hplace p hhas hbelow := by
    refine hintact.enclosed place hplace p ?_ hbelow
    obtain ⟨path, -, rfl⟩ := List.mem_map.1 hplace
    obtain ⟨rest, rfl⟩ := hbelow
    obtain ⟨node, hnode⟩ := has_iff.1 hhas
    exact has_iff.2
      ⟨node, h.shrunk (hapart.elsewhere directoryRoot_ne (path ++ rest)) hnode⟩

end Clearing

end Items

section Stores

/-- The dossiers that a receipt lists. -/
def Record.dossiers (record : Record) : List Text := (record.idsOf .entity).filterMap text?

/-- The dossiers that a purge leaves, each with its path. -/
def Record.staying (record : Record) (l : Dossiers.Ledger) : List (Text × Text) :=
  (homes l).filter (·.1 ∉ record.dossiers)

/-- The page of a dossier that a purge leaves. -/
def Record.Page (record : Record) (l : Dossiers.Ledger) : List PyStr → Prop :=
  PageOf (record.staying l)

/-- The listed dossiers are gone. -/
def Record.Scrubbed (record : Record) (l : Dossiers.Ledger) : Prop :=
  ∀ e ∈ l.entities, e.id ∉ record.dossiers

/-- The ledger has the receipt of the purge. -/
def Record.noted (record : Record) (l : Dossiers.Ledger) : Bool :=
  l.receipts.any (·.purge = some ((text? record.token).getD []))

/-- The records of the context service have lost all that they had of the listed notes; a purge that
is noted already leaves them alone. -/
def Record.Forgotten (env : Env) (record : Record) (w w' : World) : Prop :=
  if record.noted w.ledger = true then w'.context = w.context
  else Purge.Forgotten env (record.idsOf .note) w.context w'.context

/-- The store `w'` is `w` with some of a purge carried out. -/
structure Waning (env : Env) (record : Record) (w w' : World) : Prop where
  receipts : ∀ folder r, w'.receipt? folder record.token = some r → r.Same record
  disk : Cleared record.places (record.Page w.ledger) w.disk w'.disk
  notes : (w'.commit record.items).notes = (w.commit record.items).notes
  sources : (w'.commit record.items).sources = (w.commit record.items).sources
  links : (w'.commit record.items).links = (w.commit record.items).links
  artifacts : w'.artifacts = w.artifacts
  staying : record.staying w'.ledger = record.staying w.ledger
  context : Forgetting env (record.idsOf .note) w.context w'.context
  settled : record.noted w.ledger = true → w'.ledger = w.ledger
  noted : record.noted w'.ledger = true →
    record.Scrubbed w'.ledger ∧ record.Forgotten env w w'

variable {env : Env} {call : Call} {record r : Record} {w w' : World} {fails : Site → Prop}

theorem Waning.receipts_of (h : Waning env record w w') {s : World} (hr : r.Same record)
    (hmore : SaysNoMore r s w') : ∀ folder r, s.receipt? folder record.token = some r →
      r.Same record := by
  intro folder r' hr'
  obtain hold | ⟨-, rfl, -⟩ := hmore folder record.token r' hr'
  · exact h.receipts folder r' hold
  · exact hr

/-- **Every step of a confirmation** but those on the dossiers keeps what is left. -/
theorem Waning.effect (h : Waning env record w w') {site : Site} (hplain : site.plain = true)
    (hsite : site.carries record) : Waning env record w (effect site w') := by
  cases site with
  | write r => exact { h with receipts := h.receipts_of hsite saysNoMore_write }
  | discard folder t => exact { h with receipts := h.receipts_of .rfl saysNoMore_erase }
  | quarantine folder t =>
    have hmore : SaysNoMore record (Purge.effect (.quarantine folder t) w') w' :=
      @saysNoMore_erase w' record t folder
    exact { h with receipts := h.receipts_of .rfl hmore }
  | commit items =>
    obtain rfl : items = record.items := hsite
    refine { h with notes := ?_, sources := ?_, links := ?_ }
    · rw [← h.notes]
      simp [Purge.effect, World.commit, List.filter_filter]
    · rw [← h.sources]
      simp [Purge.effect, World.commit, List.filter_filter]
    · rw [← h.links]
      simp [Purge.effect, World.commit, List.filter_filter]
  | unlink f => exact { h with disk := h.disk.trans (cleared_erase hsite) }
  | rmdir place =>
    refine { h with disk := h.disk.trans ?_ }
    change Cleared _ _ w'.disk (if _ then _ else _)
    split
    · exact cleared_erase hsite
    · exact Cleared.refl
  | mirror => exact { h with }
  | catalog => cases hplain
  | page => cases hplain
  | writeBook => cases hplain
  | dropCompletion => cases hplain
  | dropCorrection => cases hplain
  | dropJob => cases hplain
  | emptyDossiers => cases hplain
  | _ => exact h

/-- A purge that is not noted was not noted before. -/
theorem Waning.unnoted (h : Waning env record w w') (hfresh : record.noted w'.ledger = false) :
    record.noted w.ledger = false := by
  rw [← Bool.not_eq_true] at hfresh ⊢
  exact fun hnoted => hfresh (h.settled hnoted ▸ hnoted)

theorem Waning.withContext (h : Waning env record w w') (hfresh : record.noted w'.ledger = false)
    {c : Context} (hc : Forgetting env (record.idsOf .note) w'.context c) :
    Waning env record w (w'.withContext c) where
  receipts := h.receipts
  disk := h.disk
  notes := h.notes
  sources := h.sources
  links := h.links
  artifacts := h.artifacts
  staying := h.staying
  context := h.context.trans hc
  settled := h.settled
  noted hnoted := by
    change record.noted w'.ledger = true at hnoted
    rw [hfresh] at hnoted
    cases hnoted

/-- A catalog of the dossiers that stay. -/
theorem Paged.scrubbed {l : Dossiers.Ledger} (h : Paged (record.staying l) w w') :
    record.Scrubbed w'.ledger := by
  intro e he
  have hhome : home e ∈ Purge.homes w'.ledger := List.mem_map_of_mem he
  rw [h.homes] at hhome
  exact of_decide_eq_true (List.mem_filter.1 hhome).2

/-- The catalog of the dossiers that stay, and pages of them. -/
theorem Waning.paged (h : Waning env record w w') (hfresh : record.noted w.ledger = false)
    (hforgotten : record.Forgotten env w w') {s : World}
    (hs : Paged (record.staying w.ledger) w' s) : Waning env record w s := by
  have hcommit : (s.commit record.items).notes = (w'.commit record.items).notes ∧
      (s.commit record.items).sources = (w'.commit record.items).sources ∧
      (s.commit record.items).links = (w'.commit record.items).links := by
    rw [hs.rest]
    exact ⟨rfl, rfl, rfl⟩
  exact
    { receipts := fun folder r hr => h.receipts folder r
        (World.receipt?_congr hs.receipts folder record.token ▸ hr)
      disk := h.disk.trans fun p => (hs.disk p).imp id Or.inr
      notes := hcommit.1.trans h.notes
      sources := hcommit.2.1.trans h.sources
      links := hcommit.2.2.trans h.links
      artifacts := hs.rows.artifacts.trans h.artifacts
      staying := by
        rw [Record.staying, hs.homes, Record.staying, List.filter_filter]
        simp only [Bool.and_self]
      context := hs.context ▸ h.context
      settled := fun hnoted => absurd hnoted (by rw [hfresh]; decide)
      noted := fun _ => ⟨hs.scrubbed, by rwa [Record.Forgotten, hs.context]⟩ }

/-- **The dossiers of a purge**: the listed ones are gone, pages of the others are written, and the
records of the context service have nothing of the listed notes. -/
theorem wp_purgeEntities (hr : r.Same record) (h : Waning env record w w')
    (hapart : Apart record.places (record.Page w.ledger)) {E : Raised → World → Prop}
    (hE : (∃ site, fails site) ∨ ¬w'.context.Legible env →
      ∀ e s, Waning env record w s → E e s) :
    Task.wp (.alone fails) (fun _ => Waning env record w)
      (fun _ s => (Waning env record w s ∧ record.Scrubbed s.ledger ∧ record.Forgotten env w s) ∧
        SameRows w' s ∧ ∀ p ∈ record.places, s.disk.lookup p = w'.disk.lookup p)
      E (purgeEntities env call r) w' := by
  have hids : ∀ kind, r.idsOf kind = record.idsOf kind := by
    intro kind
    rw [Record.idsOf, Record.idsOf, hr.items]
  unfold purgeEntities
  dsimp only
  rw [Task.wp_bind, wp_look_alone, hr.token, hids, hids]
  refine ⟨h, ?_, fun hfails => hE (Or.inl ⟨_, hfails⟩) _ _ h⟩
  split
  · next hdone => exact ⟨⟨h, h.noted hdone⟩, ⟨rfl, rfl, rfl, rfl, rfl⟩, fun _ _ => rfl⟩
  · next hdone =>
    have hfresh : record.noted w'.ledger = false := Bool.not_eq_true _ ▸ hdone
    have hbegun : record.noted w.ledger = false := h.unnoted hfresh
    have hcovers : Covers env (record.idsOf .note) fails (fun _ => Waning env record w) E w' :=
      { step := fun _ c _ hc _ => h.withContext hfresh hc
        raised := fun e c hc hraised => by
          refine hE (hraised.imp id fun hread hlegible => ?_) e _ (h.withContext hfresh hc)
          exact hread (hlegible.forgetting hc) }
    rw [Task.wp_bind]
    refine wp_forgetNotes hcovers fun c hc => ?_
    have hleft := h.withContext hfresh hc.forgetting
    have hforgotten : record.Forgotten env w (w'.withContext c) := by
      rw [Record.Forgotten, if_neg (by rw [hbegun]; decide)]
      exact h.context.forgotten hc
    have hfailed (hfails : ∃ site, fails site) := hE (Or.inl hfails)
    generalize hm : Memory.revised _ = m
    have hstays : homes m.ledger = record.staying w.ledger := by
      rw [← hm, Memory.homes_revised]
      exact homes_purgeLedger.trans h.staying
    have hpaged : Paged (record.staying w.ledger) (w'.withContext c)
        (Purge.effect (.catalog m) (w'.withContext c)) :=
      ⟨rfl, hstays, fun _ => Or.inl rfl⟩
    have hkept {s : World} (hs : Paged (record.staying w.ledger) (w'.withContext c) s) :
        Waning env record w s := hleft.paged hbegun hforgotten hs
    rw [Task.wp_bind, wp_perform_alone]
    refine ⟨hleft, ?_, fun hfails => hfailed ⟨_, hfails⟩ _ _ hleft⟩
    apply Task.wp_seq (wp_projectAll hpaged hstays (fun id m => m.homes_forget id)
      (fun _ _ _ hs => hkept hs) _)
    rintro m' s ⟨hm', hs⟩
    have hlast : Paged (record.staying w.ledger) (w'.withContext c)
        (Purge.effect (.catalog (m'.noted ((text? record.token).getD [])).revised) s) :=
      hs.catalog hm'
    rw [wp_perform_alone]
    refine ⟨hkept hs, ⟨⟨hkept hlast, (hkept hlast).noted ?_⟩, ?_, fun p hp => ?_⟩,
      fun hfails => hfailed ⟨_, hfails⟩ _ _ (hkept hs)⟩
    · change (m'.ledger.receipts ++ [_]).any _ = true
      simp
    · have hrows := hlast.rows
      exact ⟨hrows.notes, hrows.sources, hrows.links, hrows.artifacts, hrows.entityRows⟩
    · obtain hsame | ⟨hpage, -⟩ := hlast.disk p
      · exact hsame
      · exact absurd hp (hapart p hpage).2

/-- What a confirmation of the purge keeps, it keeps where it is cut. -/
theorem wp_carryOut_waning (hr : r.Same record)
    (hapart : Apart record.places (record.Page w.ledger)) {resuming : Bool}
    (h : Waning env record w w') :
    Task.wp (.alone fails) (fun _ => Waning env record w) (fun _ => Waning env record w)
      (fun _ => Waning env record w) (carryOut env call r resuming) w' := by
  let Keeps {α : Type} (t : Job α) : Prop := ∀ s, Waning env record w s →
    Task.wp (.alone fails) (fun _ => Waning env record w) (fun _ => Waning env record w)
      (fun _ => Waning env record w) t s
  have hplain : ∀ site : Site, site.plain = true → site.carries record →
      ∀ s, Waning env record w s → Waning env record w (effect site s) :=
    fun site hsite hcarries s hs => hs.effect hsite hcarries
  have hsaves : ∀ site : Site, site.saves = true → site.carries record →
      ∀ s, Waning env record w s → Waning env record w (effect site s) :=
    fun site hsite => hplain site (plain_saves hsite)
  have hsave (r' : Record) (hr' : r'.Same record) : Keeps (save r') :=
    fun s hs => Task.wp_of_keeping (steps_save hr' hsaves) hs
  have hguard (r' : Record) (hr' : r'.Same record) (t : Job Unit) (ht : Keeps t) :
      Keeps (Task.catchRaised t (giveUp r')) := by
    intro s hs
    rw [Task.wp_catchRaised]
    refine Task.wp_mono (ht s hs) (fun _ _ h => h) (fun _ _ h => h) fun e s' hs' => ?_
    exact Task.wp_of_keeping (steps_giveUp hr' hsaves e) hs'
  have hcommit (r' : Record) (hitems : r'.items = record.items) :
      Keeps (commitRows env r' resuming) :=
    fun s hs => Task.wp_of_keeping (steps_commitRows hplain hitems resuming) hs
  have hremove (r' : Record) (hr' : r'.Same record) : Keeps (removeFiles env call r') := by
    intro s hs
    unfold removeFiles
    apply Task.wp_seq (R := fun _ => Waning env record w)
    · refine Task.wp_of_keeping (steps_forEach fun item hitem => ?_) hs
      exact steps_unlinkItem hplain (hr'.items ▸ hitem)
    · intro _ s' hs'
      rw [Task.wp_bind]
      refine Task.wp_mono (wp_purgeEntities hr' hs' hapart fun _ _ _ hs => hs)
        (fun _ _ h => h) ?_ fun _ _ h => h
      rintro _ s'' ⟨⟨hs'', -⟩, -⟩
      rw [Task.wp_bind, wp_look_alone]
      refine ⟨hs'', ?_, fun _ => hs''⟩
      exact wp_perform_alone.2 ⟨hs'', hs''.effect rfl trivial, fun _ => hs''⟩
  have hsame {state : State} {error : Option String} {completed : List PyStr} :
      ({ r with state := state, error := error, completed := completed } : Record).Same record :=
    ⟨hr.token, hr.items, hr.createdAt, hr.retentionDays⟩
  unfold carryOut
  dsimp only
  apply Task.wp_seq (hsave _ hsame w' h)
  intro _ s hs
  apply Task.wp_seq (hguard _ hsame _ (hcommit _ hr.items) s hs)
  intro _ s hs
  apply Task.wp_seq (hguard _ hsame _ (hremove _ hsame) s hs)
  intro _ s hs
  apply Task.wp_seq (hguard _ hsame _ (hsave _ hsame) s hs)
  intro _ s hs
  exact hs

end Stores

end Coppermind.Purge
