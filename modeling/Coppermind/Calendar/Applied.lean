import Coppermind.Calendar.Tables

/-!
# Each export is applied entirely, once, or not at all

The catalog file lists exports and stores their merge; a receipt that the catalog lists is
succeeded or pending, and a mirror that is behind the file has a pending receipt to catch up
with.  One kind of call leaves another state: a call that takes up a receipt which failed before,
from its promotion of the catalog to its last save.
-/

namespace Coppermind.Calendar

open Coppermind.Lib Coppermind.Lib.Task

variable {env : ArchiveEnv}

section Invariant

def fileCatalog : File → Catalog
  | none => .empty
  | some (_, catalog) => catalog

/-- The imports that the catalog file lists. -/
def World.imports (w : World) : List ImportId := (fileCatalog w.file).imports

/-- The catalog file is the merge of these exports, each listed once, and each what the parser
made of the bytes of its receipt. -/
structure Listed (env : ArchiveEnv) (w : World) (exports : List Export) : Prop where
  stores : Stores env (fileCatalog w.file) exports
  once : (exports.map (·.id)).Nodup
  parsed : ∀ x ∈ exports, ∃ receipt original limits events,
    w.receipts.lookup x.id = some receipt ∧ w.originals.lookup x.id = some original ∧
      env.parse receipt.filename original receipt.limit limits = .ok events ∧
      x.events = events.map (stampEvent receipt)

/-- The catalog lists the import, and its receipt waits to be told. -/
def Half (w : World) (id : ImportId) : Prop :=
  id ∈ w.imports ∧ ∃ receipt, w.receipts.lookup id = some receipt ∧ receipt.state = .pending

/-- What holds of the archive; `late` is the import of a call that may have left a failed receipt
behind. -/
structure Invariant (env : ArchiveEnv) (late : Option ImportId) (exports : List Export)
    (w : World) : Prop where
  listed : Listed env w exports
  synced : w.mirror.signature = signatureOf w.file → Holds env w.mirror exports
  fileStamp : ∀ stamp catalog, w.file = some (stamp, catalog) → stamp < w.stamps
  mirrorStamp : ∀ stamp, w.mirror.signature = .file stamp → stamp < w.stamps
  keyed : ∀ id receipt, w.receipts.lookup id = some receipt → receipt.id = id
  succeeded : ∀ id receipt, w.receipts.lookup id = some receipt → receipt.state = .succeeded →
    id ∈ w.imports
  received : ∀ id ∈ w.imports, isImportId id = true ∧ ∃ receipt,
    w.receipts.lookup id = some receipt ∧ (receipt.state = .failed → late = some id)
  current : Holds env w.mirror exports ∨ (∃ id, Half w id) ∨ late ≠ none
  failures : ∀ f ∈ w.failures, f.1 = f.2

variable {late late' : Option ImportId} {exports : List Export} {w : World} {mirror : Mirror}
  {receipt : ImportReceipt} {id : ImportId}

theorem imports_eq (h : Listed env w exports) : w.imports = exports.map (·.id) :=
  h.stores.imports

/-- What a rebuild makes of the catalog file. -/
theorem rebuild_file (h : Listed env w exports) :
    ∃ m, rebuild env w.file = .ok m ∧ Holds env m exports ∧ m.signature = signatureOf w.file := by
  have hstores := h.stores
  cases hfile : w.file with
  | none =>
    rw [hfile] at hstores
    have hnil : exports = [] := List.map_eq_nil_iff.1 hstores.imports.symm
    subst hnil
    exact ⟨_, rfl, holds_empty .absent, rfl⟩
  | some file =>
    obtain ⟨stamp, c⟩ := file
    rw [hfile] at hstores
    exact rebuild_holds hstores

namespace Invariant

theorem beginCall (h : Invariant env late exports w) :
    Invariant env late exports (w.beginCall env) :=
  ⟨⟨h.listed.stores, h.listed.once, h.listed.parsed⟩, h.synced, h.fileStamp, h.mirrorStamp,
    h.keyed, h.succeeded, h.received, h.current, h.failures⟩

/-- **The mirror is rebuilt**, or takes what was promoted. -/
theorem setMirror (h : Invariant env late exports w) (hholds : Holds env mirror exports)
    (hsignature : mirror.signature = signatureOf w.file) :
    Invariant env late exports (w.setMirror mirror) where
  listed := ⟨h.listed.stores, h.listed.once, h.listed.parsed⟩
  synced := fun _ => hholds
  fileStamp := h.fileStamp
  mirrorStamp := by
    intro stamp hstamp
    have hfile : signatureOf w.file = .file stamp := hsignature.symm.trans hstamp
    cases hw : w.file with
    | none =>
      rw [hw] at hfile
      cases hfile
    | some file =>
      rw [hw] at hfile
      cases hfile
      exact h.fileStamp _ _ hw
  keyed := h.keyed
  succeeded := h.succeeded
  received := h.received
  current := Or.inl hholds
  failures := h.failures

/-- The bytes of a new export are kept. -/
theorem setOriginal (h : Invariant env late exports w) {data : Bytes}
    (hnew : w.originals.lookup id = none) :
    Invariant env late exports (w.setOriginal id data) where
  listed := by
    refine ⟨h.listed.stores, h.listed.once, ?_⟩
    intro x hx
    obtain ⟨r, original, limits, events, hr, horiginal, hrest⟩ := h.listed.parsed x hx
    refine ⟨r, original, limits, events, hr, ?_, hrest⟩
    have hne : x.id ≠ id := by
      intro heq
      rw [heq, hnew] at horiginal
      cases horiginal
    exact (AList.lookup_insert_ne hne).trans horiginal
  synced := h.synced
  fileStamp := h.fileStamp
  mirrorStamp := h.mirrorStamp
  keyed := h.keyed
  succeeded := h.succeeded
  received := h.received
  current := h.current
  failures := h.failures

/-- **A receipt is saved**: it keeps what its export was parsed with. -/
theorem setReceipt (h : Invariant env late exports w)
    (hsame : ∀ old, w.receipts.lookup receipt.id = some old → receipt.filename = old.filename ∧
      receipt.limit = old.limit ∧ stampEvent receipt = stampEvent old)
    (hsucceeded : receipt.state = .succeeded → receipt.id ∈ w.imports)
    (hfailed : receipt.id ∈ w.imports → receipt.state = .failed → late' = some receipt.id)
    (hlate : ∀ id, late = some id → id ≠ receipt.id → late' = some id)
    (hcurrent : Holds env w.mirror exports ∨ (∃ id, Half (w.setReceipt receipt) id) ∨
      late' ≠ none) :
    Invariant env late' exports (w.setReceipt receipt) where
  listed := by
    refine ⟨h.listed.stores, h.listed.once, ?_⟩
    intro x hx
    obtain ⟨r, original, limits, events, hr, horiginal, hparse, hevents⟩ := h.listed.parsed x hx
    by_cases hid : x.id = receipt.id
    · rw [hid] at hr
      obtain ⟨hfilename, hlimit, hstamp⟩ := hsame r hr
      refine ⟨receipt, original, limits, events, ?_, horiginal, ?_, ?_⟩
      · rw [hid]
        exact AList.lookup_insert _
      · rw [hfilename, hlimit]
        exact hparse
      · rw [hstamp]
        exact hevents
    · exact ⟨r, original, limits, events, (AList.lookup_insert_ne hid).trans hr, horiginal, hparse,
        hevents⟩
  synced := h.synced
  fileStamp := h.fileStamp
  mirrorStamp := h.mirrorStamp
  keyed := by
    intro id r hr
    by_cases hid : id = receipt.id
    · rw [hid, World.setReceipt, AList.lookup_insert] at hr
      obtain rfl := Option.some.inj hr
      exact hid.symm
    · exact h.keyed id r ((AList.lookup_insert_ne hid).symm.trans hr)
  succeeded := by
    intro id r hr hstate
    by_cases hid : id = receipt.id
    · rw [hid, World.setReceipt, AList.lookup_insert] at hr
      obtain rfl := Option.some.inj hr
      rw [hid]
      exact hsucceeded hstate
    · exact h.succeeded id r ((AList.lookup_insert_ne hid).symm.trans hr) hstate
  received := by
    intro id hid
    obtain ⟨hvalid, r, hr, hrfailed⟩ := h.received id hid
    refine ⟨hvalid, ?_⟩
    by_cases heq : id = receipt.id
    · subst heq
      exact ⟨receipt, AList.lookup_insert _, hfailed hid⟩
    · exact ⟨r, (AList.lookup_insert_ne heq).trans hr, fun hstate =>
        hlate id (hrfailed hstate) heq⟩
  current := hcurrent
  failures := h.failures

/-- A call that failed its export leaves the catalog as it was. -/
theorem of_failures (h : Invariant env late exports w) {before after : Shown}
    (hshown : before = after) :
    Invariant env late exports { w with failures := w.failures ++ [(before, after)] } where
  listed := ⟨h.listed.stores, h.listed.once, h.listed.parsed⟩
  synced := h.synced
  fileStamp := h.fileStamp
  mirrorStamp := h.mirrorStamp
  keyed := h.keyed
  succeeded := h.succeeded
  received := h.received
  current := h.current
  failures := by
    intro f hf
    obtain hf | hf := List.mem_append.1 hf
    · exact h.failures f hf
    · rw [List.mem_singleton.1 hf]
      exact hshown

/-- **The catalog is promoted**: it lists one export more, whose receipt is now late. -/
theorem promote (h : Invariant env none exports w) {original : Bytes} {limits : Limits}
    {events : List CalendarEvent} (hvalid : isImportId receipt.id = true)
    (hreceipt : w.receipts.lookup receipt.id = some receipt) (hnew : receipt.id ∉ w.imports)
    (horiginal : w.originals.lookup receipt.id = some original)
    (hparse : env.parse receipt.filename original receipt.limit limits = .ok events)
    (hholds : Holds env mirror (exports ++ [⟨receipt.id, events.map (stampEvent receipt)⟩])) :
    Invariant env (if receipt.state = .failed then some receipt.id else none)
      (exports ++ [⟨receipt.id, events.map (stampEvent receipt)⟩])
      (w.promote (catalogOf mirror (w.imports ++ [receipt.id]))) := by
  have himports : w.imports ++ [receipt.id] =
      (exports ++ [(⟨receipt.id, events.map (stampEvent receipt)⟩ : Export)]).map (·.id) := by
    rw [List.map_append, imports_eq h.listed]
    rfl
  have hmem : ∀ id, id ∈ (w.promote (catalogOf mirror (w.imports ++ [receipt.id]))).imports ↔
      id ∈ w.imports ∨ id = receipt.id := by
    intro id
    show id ∈ w.imports ++ [receipt.id] ↔ _
    rw [List.mem_append, List.mem_singleton]
  refine ⟨⟨?_, ?_, ?_⟩, ?_, ?_, ?_, h.keyed, ?_, ?_, ?_, h.failures⟩
  · rw [himports]
    exact stores_catalogOf hholds
  · rw [← himports]
    apply List.nodup_append.2
    rw [imports_eq h.listed] at hnew ⊢
    refine ⟨h.listed.once, List.nodup_singleton _, ?_⟩
    intro a ha b hb hab
    obtain rfl := List.mem_singleton.1 hb
    exact hnew (hab ▸ ha)
  · intro x hx
    obtain hx | hx := List.mem_append.1 hx
    · exact h.listed.parsed x hx
    · obtain rfl := List.mem_singleton.1 hx
      exact ⟨receipt, original, limits, events, hreceipt, horiginal, hparse, rfl⟩
  · intro hsignature
    exact absurd (h.mirrorStamp w.stamps hsignature) (lt_irrefl _)
  · intro stamp c hfile
    obtain ⟨rfl, -⟩ := Prod.mk.inj (Option.some.inj hfile)
    exact Nat.lt_succ_self _
  · intro stamp hstamp
    exact Nat.lt_succ_of_lt (h.mirrorStamp stamp hstamp)
  · intro id r hr hstate
    exact (hmem id).2 (Or.inl (h.succeeded id r hr hstate))
  · intro id hid
    obtain hid | rfl := (hmem id).1 hid
    · obtain ⟨hvalid', r, hr, hfailed⟩ := h.received id hid
      refine ⟨hvalid', r, hr, ?_⟩
      intro hstate
      cases hfailed hstate
    · exact ⟨hvalid, receipt, hreceipt, fun hstate => if_pos hstate⟩
  · right
    cases hstate : receipt.state with
    | pending => exact Or.inl ⟨receipt.id, (hmem _).2 (Or.inr rfl), receipt, hreceipt, hstate⟩
    | failed => exact Or.inr (by simp)
    | succeeded => exact absurd (h.succeeded _ receipt hreceipt hstate) hnew

end Invariant

end Invariant

section Steps

/-- The sites between the promotion of the catalog and the last save of a call that took up a
receipt which had failed before. -/
def finishing : Site → Bool
  | .syncCatalog .failed | .commit .failed | .answered .failed | .saveSucceeded .failed => true
  | _ => false

def Sound (env : ArchiveEnv) (w : World) : Prop := ∃ exports, Invariant env none exports w

/-- What holds where a call stands before a step. -/
def Before (env : ArchiveEnv) (site : Site) (w : World) : Prop :=
  if finishing site then ∃ late exports, Invariant env late exports w else Sound env w

variable {α β : Type} {fails : Site → Prop} {Q : α → World → Prop} {E : Raised → World → Prop}
  {s s' : World} {exports : List Export} {receipt : ImportReceipt} {id : ImportId}

/-- What a call leads to where steps fail at these sites: `Q` with an answer, `E` where it
raises. -/
def Does (env : ArchiveEnv) (fails : Site → Prop) (Q : α → World → Prop)
    (E : Raised → World → Prop) (t : Op α) (s : World) : Prop :=
  Task.wp (.alone fails) (Before env) Q E t s

theorem does_bind {Q : β → World → Prop} {R : α → World → Prop} {t : Op α} {k : α → Op β}
    (ht : Does env fails R E t s) (hk : ∀ a s', R a s' → Does env fails Q E (k a) s') :
    Does env fails Q E (t >>= k) s :=
  Task.wp_seq ht hk

theorem does_look {site : Site} {f : World → α} (hs : Before env site s) (hQ : Q (f s) s)
    (hE : fails site → E .failed s) : Does env fails Q E (look site .failed f) s :=
  Task.wp_alone.2 ⟨hs, hQ, hE⟩

theorem does_act {Q : Unit → World → Prop} {site : Site} {f : World → World}
    (hs : Before env site s) (hQ : Q () (f s)) (hE : fails site → E .failed s) :
    Does env fails Q E (act site .failed f) s :=
  Task.wp_alone.2 ⟨hs, hQ, hE⟩

theorem does_lookOr {site : Site} {f : World → Except Raised α} (hs : Before env site s)
    (hok : ∀ a, f s = .ok a → Q a s) (herror : ∀ e, f s = .error e → E e s)
    (hE : fails site → E .failed s) : Does env fails Q E (lookOr site .failed f) s := by
  apply Task.wp_alone.2
  refine ⟨hs, ?_, hE⟩
  cases hf : f s with
  | ok a => exact hok a hf
  | error e => exact herror e hf

theorem does_save {Q : Unit → World → Prop} {site sync : Site} {f : World → World}
    (hs : Before env site s) (hs' : Before env sync (f s)) (hQ : Q () (f s))
    (hE : fails site → E .failed s) (hE' : fails sync → E .failed (f s)) :
    Does env fails Q E (save site sync f) s := by
  apply does_bind (R := fun _ s' => s' = f s)
  · exact does_act hs rfl hE
  · intro _ s' hs₁
    subst hs₁
    exact does_look hs' hQ hE'

theorem Invariant.sound (h : Invariant env none exports s) : Sound env s := ⟨exports, h⟩

theorem before_of_sound {site : Site} (h : Sound env s) : Before env site s := by
  unfold Before
  split
  · obtain ⟨exports, h⟩ := h
    exact ⟨none, exports, h⟩
  · exact h

/-- The import whose receipt a call leaves late, where it had read a failed one. -/
def lateOf (receipt : ImportReceipt) : Option ImportId :=
  if receipt.state = .failed then some receipt.id else none

/-- A call after its promotion stands before one of its steps. -/
theorem before_of_late {site : Site} (hsite : receipt.state = .failed → finishing site = true)
    (h : Invariant env (lateOf receipt) exports s) : Before env site s := by
  by_cases hstate : receipt.state = .failed
  · rw [Before, if_pos (hsite hstate)]
    exact ⟨_, exports, h⟩
  · rw [lateOf, if_neg hstate] at h
    exact before_of_sound h.sound

theorem sound_of_late {site : Site} (hsite : receipt.state = .failed → finishing site = true)
    (hfinishing : finishing site = false) (h : Invariant env (lateOf receipt) exports s) :
    Sound env s := by
  have hstate : receipt.state ≠ .failed := by
    intro hstate
    rw [hsite hstate] at hfinishing
    cases hfinishing
  rw [lateOf, if_neg hstate] at h
  exact h.sound

/-- What a call of `process` leaves: it may leave its own import half told, where it met a
failure, and no other. -/
structure After (env : ArchiveEnv) (fails : Site → Prop) (id : ImportId) (s s' : World) : Prop where
  sound : Sound env s'
  others : ∀ i, i ≠ id → Half s' i → Half s i
  own : Half s' id → ∃ site, fails site

theorem half_of_same (hfile : s'.file = s.file) (hreceipts : s'.receipts = s.receipts)
    {i : ImportId} : Half s' i ↔ Half s i := by
  unfold Half World.imports
  rw [hfile, hreceipts]

theorem After.of_same {s₁ s₂ : World} (h : After env fails id s s₁) (hsound : Sound env s₂)
    (hfile : s₂.file = s₁.file) (hreceipts : s₂.receipts = s₁.receipts) :
    After env fails id s s₂ where
  sound := hsound
  others i hi hhalf := h.others i hi ((half_of_same hfile hreceipts).1 hhalf)
  own hhalf := h.own ((half_of_same hfile hreceipts).1 hhalf)

/-- A call that met a failure before it changed what the catalog lists. -/
theorem after_of_failure {site : Site} (hsound : Sound env s') (hfile : s'.file = s.file)
    (hreceipts : s'.receipts = s.receipts) (hfails : fails site) : After env fails id s s' where
  sound := hsound
  others _ _ hhalf := (half_of_same hfile hreceipts).1 hhalf
  own _ := ⟨site, hfails⟩

/-- A call whose import the catalog does not list. -/
theorem after_of_unlisted (hsound : Sound env s') (himports : s'.imports = s.imports)
    (hreceipts : ∀ i, i ≠ id → s'.receipts.lookup i = s.receipts.lookup i)
    (hnew : id ∉ s.imports) : After env fails id s s' where
  sound := hsound
  others i hi hhalf := by
    obtain ⟨hlisted, r, hr, hstate⟩ := hhalf
    rw [himports] at hlisted
    rw [hreceipts i hi] at hr
    exact ⟨hlisted, r, hr, hstate⟩
  own hhalf := absurd (himports ▸ hhalf.1) hnew

/-- Saving a receipt changes no other receipt. -/
theorem lookup_setReceipt {i : ImportId} (hi : i ≠ receipt.id) :
    (s.setReceipt receipt).receipts.lookup i = s.receipts.lookup i :=
  AList.lookup_insert_ne hi

theorem lookup_setReceipt_self :
    (s.setReceipt receipt).receipts.lookup receipt.id = some receipt :=
  AList.lookup_insert _

/-- A call that told its import has succeeded. -/
theorem after_of_succeeded (hsound : Sound env (s'.setReceipt receipt))
    (hstate : receipt.state = .succeeded) (hothers : ∀ i, i ≠ receipt.id → Half s' i → Half s i) :
    After env fails receipt.id s (s'.setReceipt receipt) where
  sound := hsound
  others i hi hhalf := by
    obtain ⟨hlisted, r, hr, hrstate⟩ := hhalf
    rw [lookup_setReceipt hi] at hr
    exact hothers i hi ⟨hlisted, r, hr, hrstate⟩
  own hhalf := by
    obtain ⟨_, r, hr, hrstate⟩ := hhalf
    rw [lookup_setReceipt_self] at hr
    obtain rfl := Option.some.inj hr
    rw [hstate] at hrstate
    cases hrstate

end Steps

section Processing

variable {fails : Site → Prop} {s s₀ : World} {exports : List Export} {receipt : ImportReceipt}
  {imports : List ImportId} {a : Attempt} {original : Bytes}

/-- A call that has read its receipt and the imports of the catalog. -/
structure Reads (env : ArchiveEnv) (s₀ : World) (exports : List Export)
    (receipt : ImportReceipt) (s : World) : Prop where
  inv : Invariant env none exports s
  synced : s.mirror.signature = signatureOf s.file
  file : s.file = s₀.file
  receipts : s.receipts = s₀.receipts
  receipt : s.receipts.lookup receipt.id = some receipt
  began : s.began = s.shown env

/-- **`catalog`** reads the imports of the file, from a mirror that agrees with it. -/
theorem catalog_does (h : Invariant env none exports s) (hfile : s.file = s₀.file)
    (hreceipts : s.receipts = s₀.receipts)
    (hreceipt : s.receipts.lookup receipt.id = some receipt) (hbegan : s.began = s.shown env) :
    Does env fails (fun imports s' => imports = s'.imports ∧ Reads env s₀ exports receipt s')
      (fun _ s' => After env fails receipt.id s₀ s') (catalog env) s := by
  have hread : ∀ site, fails site → After env fails receipt.id s₀ s :=
    fun site hfails => after_of_failure h.sound hfile hreceipts hfails
  unfold catalog
  apply does_bind (R := fun m s' => s' = s ∧
    m = if s.mirror.signature = signatureOf s.file then some s.mirror else none)
  · exact does_look (before_of_sound h.sound) ⟨rfl, rfl⟩ (hread _)
  intro m s' hs
  obtain ⟨rfl, rfl⟩ := hs
  split
  · next m hm =>
    split at hm
    · next hsynced =>
      obtain rfl := Option.some.inj hm
      refine ⟨?_, h, hsynced, hfile, hreceipts, hreceipt, hbegan⟩
      rw [(h.synced hsynced).imports, imports_eq h.listed]
    · cases hm
  · next hm =>
    have hstale : s'.mirror.signature ≠ signatureOf s'.file := by
      intro hsynced
      rw [if_pos hsynced] at hm
      cases hm
    obtain ⟨m, hrebuild, hholds, hsignature⟩ := rebuild_file h.listed
    apply does_bind (R := fun rebuilt s₁ => s₁ = s' ∧ rebuilt = m)
    · apply does_lookOr (before_of_sound h.sound) ?_ ?_ (hread _)
      · intro rebuilt hrebuilt
        exact ⟨rfl, Except.ok.inj (hrebuilt.symm.trans hrebuild)⟩
      · intro e he
        cases he.symm.trans hrebuild
    intro rebuilt s₁ hs₁
    obtain ⟨rfl, rfl⟩ := hs₁
    apply does_bind (R := fun _ s₂ => s₂ = s₁.setMirror rebuilt)
    · exact does_act (before_of_sound h.sound) rfl (hread _)
    intro _ s₂ hs₂
    subst hs₂
    refine ⟨?_, h.setMirror hholds hsignature, hsignature, hfile, hreceipts, hreceipt, ?_⟩
    · exact hholds.imports.trans (imports_eq h.listed).symm
    · -- What `catalog()` served was the rebuilt mirror already.
      have hbefore : s₁.shown env = ⟨s₁.file, .ok rebuilt⟩ := by
        rw [World.shown, if_neg hstale, hrebuild]
      have hafter : (s₁.setMirror rebuilt).shown env = ⟨s₁.file, .ok rebuilt⟩ := by
        rw [World.shown]
        simp only [World.setMirror, hsignature, if_true]
        rfl
      rw [hafter, ← hbefore]
      exact hbegan

/-- What a call has done when its transaction has ended. -/
structure Promoted (env : ArchiveEnv) (s₀ : World) (receipt counted : ImportReceipt)
    (s : World) : Prop where
  inv : ∃ exports, Invariant env (lateOf receipt) exports s ∧ Holds env s.mirror exports
  count : ∃ count, counted = { receipt with eventCount := count }
  saved : s.receipts.lookup receipt.id = some counted
  listed : receipt.id ∈ s.imports
  others : ∀ i, i ≠ receipt.id → Half s i → Half s₀ i

/-- **The transaction of an import**: it promotes the merge of one export more, or raises before
it has changed the catalog, or meets a failure where its receipt can still be told. -/
theorem importExport_does (hfails : ∀ site, fails site → finishing site = false)
    (h : Reads env s₀ exports receipt s) (hvalid : isImportId receipt.id = true)
    (hnew : receipt.id ∉ s.imports) (horiginal : s.originals.lookup receipt.id = some original) :
    Does env fails (fun counted s' => Promoted env s₀ receipt counted s')
      (fun e s' => After env fails receipt.id s₀ s' ∧ (e ≠ .failed → s' = s))
      (importExport env a receipt s.imports original) s := by
  have himports : s₀.imports = s.imports := by
    unfold World.imports
    rw [h.file]
  have hunlisted : After env fails receipt.id s₀ s :=
    after_of_unlisted h.inv.sound himports.symm (fun i _ => by rw [h.receipts]) (himports ▸ hnew)
  have hpending : receipt.state ≠ .succeeded :=
    fun hstate => hnew (h.inv.succeeded _ receipt h.receipt hstate)
  have hraise : ∀ site, fails site →
      After env fails receipt.id s₀ s ∧ (Raised.failed ≠ .failed → s = s) :=
    fun _ _ => ⟨hunlisted, fun _ => rfl⟩
  unfold importExport
  apply does_bind (R := fun events s' => s' = s ∧
    env.parse receipt.filename original receipt.limit a.limits = .ok events)
  · apply does_lookOr (before_of_sound h.inv.sound) ?_ ?_ (hraise _)
    · intro events hparse
      refine ⟨rfl, ?_⟩
      unfold parseBounded at hparse
      split at hparse
      · cases hparse
      · exact hparse
    · intro e _
      exact ⟨hunlisted, fun _ => rfl⟩
  intro events s' hs
  obtain ⟨rfl, hparse⟩ := hs
  apply does_bind (R := fun mirror s₁ => s₁ = s' ∧ importEvents env a.limits receipt.id
    (events.map (stampEvent receipt)) s'.mirror = .ok mirror)
  · apply does_lookOr (before_of_sound h.inv.sound) ?_ ?_ (hraise _)
    · intro mirror hmirror
      exact ⟨rfl, hmirror⟩
    · intro e _
      exact ⟨hunlisted, fun _ => rfl⟩
  intro mirror s₁ hs
  obtain ⟨rfl, hmirror⟩ := hs
  have hmirror₀ := h.inv.synced h.synced
  have hholds := importEvents_holds hmirror₀ hmirror
  -- The count is saved on the receipt as it was read.
  generalize hcounted : { receipt with eventCount := events.length } = counted
  have hid : counted.id = receipt.id := by rw [← hcounted]
  have hstate : counted.state = receipt.state := by rw [← hcounted]
  have hlate : lateOf counted = lateOf receipt := by rw [← hcounted]; rfl
  have hstamp : stampEvent counted = stampEvent receipt := by rw [← hcounted]; rfl
  have hfilename : counted.filename = receipt.filename := by rw [← hcounted]
  have hlimit : counted.limit = receipt.limit := by rw [← hcounted]
  have hsaved : Invariant env none exports (s₁.setReceipt counted) := by
    apply h.inv.setReceipt
    · intro old hold
      rw [hid, h.receipt] at hold
      obtain rfl := Option.some.inj hold
      exact ⟨hfilename, hlimit, hstamp⟩
    · intro hsucceeded
      exact absurd (hstate.symm.trans hsucceeded) hpending
    · intro hlisted
      exact absurd (hid ▸ hlisted) hnew
    · intro _ hnone
      cases hnone
    · exact Or.inl hmirror₀
  have hunlisted' : After env fails receipt.id s₀ (s₁.setReceipt counted) := by
    apply after_of_unlisted hsaved.sound himports.symm
    · intro i hi
      rw [lookup_setReceipt (hid ▸ hi), h.receipts]
    · exact himports ▸ hnew
  apply does_bind (R := fun _ s₂ => s₂ = s₁.setReceipt counted)
  · apply does_save (before_of_sound h.inv.sound) (before_of_sound hsaved.sound) rfl
    · exact fun hf => hraise _ hf
    · exact fun _ => ⟨hunlisted', fun hne => absurd rfl hne⟩
  intro _ s₂ hs₂
  subst hs₂
  -- The promotion lists the export; from here on the receipt of this call is late.
  have hpromoted : Invariant env (lateOf receipt)
      (exports ++ [⟨receipt.id, events.map (stampEvent receipt)⟩])
      ((s₁.setReceipt counted).promote (catalogOf mirror (s₁.imports ++ [receipt.id]))) := by
    have hlookup : (s₁.setReceipt counted).receipts.lookup counted.id = some counted :=
      lookup_setReceipt_self
    have hpromote := @Invariant.promote _ _ _
      { mirror with imports := s₁.mirror.imports ++ [receipt.id] } counted hsaved _ a.limits events
      (by rw [hid]; exact hvalid) hlookup (by rw [hid]; exact hnew)
      (by rw [hid]; exact horiginal) (by rw [hfilename, hlimit]; exact hparse)
      (by rw [hid, hstamp]; exact hholds)
    rw [hid, hstamp] at hpromote
    have hlate' : (if counted.state = .failed then some receipt.id else none) = lateOf receipt := by
      rw [hstate, lateOf]
    rw [hlate'] at hpromote
    exact hpromote
  have hothers : ∀ i, i ≠ receipt.id →
      Half ((s₁.setReceipt counted).promote (catalogOf mirror (s₁.imports ++ [receipt.id]))) i →
        Half s₀ i := by
    intro i hi hhalf
    obtain ⟨hlisted, r, hr, hrstate⟩ := hhalf
    have hlisted' : i ∈ s₁.imports ++ [receipt.id] := hlisted
    have hr' : (s₁.setReceipt counted).receipts.lookup i = some r := hr
    rw [lookup_setReceipt (hid ▸ hi), h.receipts] at hr'
    obtain hlisted' | hlisted' := List.mem_append.1 hlisted'
    · exact ⟨himports ▸ hlisted', r, hr', hrstate⟩
    · exact absurd (List.mem_singleton.1 hlisted') hi
  have hlisted : receipt.id ∈ s₁.imports ++ [receipt.id] :=
    List.mem_append_right _ List.mem_cons_self
  apply does_bind (R := fun _ s₃ => s₃ =
    (s₁.setReceipt counted).promote (catalogOf mirror (s₁.imports ++ [receipt.id])))
  · exact does_act (before_of_sound hsaved.sound) rfl fun _ =>
      ⟨hunlisted', fun hne => absurd rfl hne⟩
  intro _ s₃ hs₃
  have hafter : ∀ s', Invariant env (lateOf receipt)
      (exports ++ [⟨receipt.id, events.map (stampEvent receipt)⟩]) s' → s'.file = s₃.file →
      s'.receipts = s₃.receipts → ∀ site, (receipt.state = .failed → finishing site = true) →
      fails site → After env fails receipt.id s₀ s' ∧ (Raised.failed ≠ .failed → s' = s₁) := by
    intro s' hinv hfile hreceipts site hsite hf
    refine ⟨⟨sound_of_late hsite (hfails site hf) hinv, ?_, fun _ => ⟨site, hf⟩⟩,
      fun hne => absurd rfl hne⟩
    intro i hi hhalf
    rw [half_of_same hfile hreceipts, hs₃] at hhalf
    exact hothers i hi hhalf
  have hinv₃ : Invariant env (lateOf receipt)
      (exports ++ [⟨receipt.id, events.map (stampEvent receipt)⟩]) s₃ := hs₃ ▸ hpromoted
  have hsite : ∀ site : ReceiptState → Site, finishing (site .failed) = true →
      receipt.state = .failed → finishing (site receipt.state) = true := by
    intro site hfinishing hfailed
    rw [hfailed]
    exact hfinishing
  apply does_bind (R := fun _ s₄ => s₄ = s₃)
  · exact does_look (before_of_late (hsite .syncCatalog rfl) hinv₃) rfl
      (hafter s₃ hinv₃ rfl rfl _ (hsite .syncCatalog rfl))
  intro _ s₄ hs₄
  subst hs₄
  have hholds' : Holds env
      { mirror with imports := s₁.imports ++ [receipt.id], signature := signatureOf s₄.file }
      (exports ++ [⟨receipt.id, events.map (stampEvent receipt)⟩]) := by
    have heq : s₁.mirror.imports = s₁.imports :=
      hmirror₀.imports.trans (imports_eq h.inv.listed).symm
    rw [heq] at hholds
    exact hholds.of_signature _
  have hinv₅ := hinv₃.setMirror hholds' rfl
  apply does_bind (R := fun _ s₅ => s₅ = s₄.setMirror
    { mirror with imports := s₁.imports ++ [receipt.id], signature := signatureOf s₄.file })
  · exact does_act (before_of_late (hsite .commit rfl) hinv₃) rfl
      (hafter s₄ hinv₃ rfl rfl _ (hsite .commit rfl))
  intro _ s₅ hs₅
  subst hs₅
  apply does_bind (R := fun _ s₆ => s₆ = s₄.setMirror
    { mirror with imports := s₁.imports ++ [receipt.id], signature := signatureOf s₄.file })
  · exact does_look (before_of_late (hsite .answered rfl) hinv₅) rfl
      (hafter _ hinv₅ rfl rfl _ (hsite .answered rfl))
  intro _ s₆ hs₆
  subst hs₆
  refine ⟨⟨_, hinv₅, hholds'⟩, ⟨events.length, hcounted.symm⟩, ?_, ?_, ?_⟩
  · rw [hs₃, ← hid]
    exact lookup_setReceipt_self
  · rw [hs₃]
    exact hlisted
  · intro i hi hhalf
    rw [hs₃] at hhalf
    exact hothers i hi hhalf

/-- **A failed export** leaves the catalog as it was. -/
theorem setFailed_after {failed : ImportReceipt} (h : Reads env s₀ exports receipt s)
    (hnew : receipt.id ∉ s.imports) (hid : failed.id = receipt.id)
    (hstate : failed.state = .failed)
    (hsame : failed.filename = receipt.filename ∧ failed.limit = receipt.limit ∧
      stampEvent failed = stampEvent receipt) :
    After env fails receipt.id s₀ (s.setFailed env failed) := by
  have himports : s₀.imports = s.imports := by
    unfold World.imports
    rw [h.file]
  have hinv : Invariant env none exports (s.setFailed env failed) := by
    have hset : Invariant env none exports (s.setReceipt failed) := by
      apply h.inv.setReceipt
      · intro old hold
        rw [hid, h.receipt] at hold
        obtain rfl := Option.some.inj hold
        exact hsame
      · intro hsucceeded
        rw [hstate] at hsucceeded
        cases hsucceeded
      · intro hlisted
        exact absurd (hid ▸ hlisted) hnew
      · intro _ hnone
        cases hnone
      · exact Or.inl (h.inv.synced h.synced)
    exact hset.of_failures h.began
  apply after_of_unlisted hinv.sound himports.symm
  · intro i hi
    have hlookup : (s.setFailed env failed).receipts.lookup i = s.receipts.lookup i :=
      lookup_setReceipt (hid ▸ hi)
    rw [hlookup, h.receipts]
  · exact himports ▸ hnew

theorem failExport_does {e : Raised} (h : Reads env s₀ exports receipt s)
    (hnew : receipt.id ∉ s.imports) (hafter : After env fails receipt.id s₀ s) :
    Does env fails (fun _ s' => After env fails receipt.id s₀ s')
      (fun _ s' => After env fails receipt.id s₀ s') (failExport env receipt e) s := by
  have hsave : ∀ failed : ImportReceipt, failed.id = receipt.id → failed.state = .failed →
      failed.filename = receipt.filename ∧ failed.limit = receipt.limit ∧
        stampEvent failed = stampEvent receipt →
      Does env fails (fun _ s' => After env fails receipt.id s₀ s')
        (fun _ s' => After env fails receipt.id s₀ s')
        (save .saveFailed .syncFailed (·.setFailed env failed)) s := by
    intro failed hid hstate hsame
    have hfailed : After env fails receipt.id s₀ (s.setFailed env failed) :=
      setFailed_after h hnew hid hstate hsame
    exact does_save (before_of_sound h.inv.sound) (before_of_sound hfailed.sound) hfailed
      (fun _ => hafter) (fun _ => hfailed)
  cases e with
  | calendarImportError message =>
    apply does_bind (hsave (receipt.fail message) rfl rfl ⟨rfl, rfl, rfl⟩)
    exact fun _ _ h => h
  | calendarTransientError message =>
    apply does_bind (hsave (receipt.stop message) rfl rfl ⟨rfl, rfl, rfl⟩)
    exact fun _ _ h => h
  | valueError => exact hafter
  | overflowError => exact hafter
  | keyError => exact hafter
  | failed => exact hafter

/-- The last save of a call tells its import. -/
theorem saveSucceeded_does (hfails : ∀ site, fails site → finishing site = false)
    {counted : ImportReceipt} {now : Text} (h : Promoted env s₀ receipt counted s) :
    Does env fails (fun _ s' => After env fails receipt.id s₀ s')
      (fun _ s' => After env fails receipt.id s₀ s')
      (save (.saveSucceeded receipt.state) .syncSucceeded (·.setReceipt (counted.succeed now))) s := by
  obtain ⟨exports', hinv, hholds⟩ := h.inv
  obtain ⟨count, hcounted⟩ := h.count
  have hid : (counted.succeed now).id = receipt.id := by rw [hcounted]; rfl
  have hsite : receipt.state = .failed → finishing (.saveSucceeded receipt.state) = true := by
    intro hstate
    rw [hstate]
    rfl
  have hfinished : Invariant env none exports' (s.setReceipt (counted.succeed now)) := by
    apply hinv.setReceipt
    · intro old hold
      rw [hid, h.saved] at hold
      obtain rfl := Option.some.inj hold
      exact ⟨rfl, rfl, rfl⟩
    · intro _
      rw [hid]
      exact h.listed
    · intro _ hfailed
      cases hfailed
    · intro i hi hne
      rw [lateOf] at hi
      split at hi
      · obtain rfl := Option.some.inj hi
        exact absurd hid.symm hne
      · cases hi
    · exact Or.inl hholds
  have hafter : After env fails receipt.id s₀ (s.setReceipt (counted.succeed now)) := by
    have hafter := @after_of_succeeded _ fails s₀ _ _ hfinished.sound rfl
      (fun i hi hhalf => h.others i (hid ▸ hi) hhalf)
    rwa [hid] at hafter
  apply does_save (before_of_late hsite hinv) (before_of_sound hfinished.sound) hafter
  · intro hf
    exact ⟨sound_of_late hsite (hfails _ hf) hinv, h.others, fun _ => ⟨_, hf⟩⟩
  · exact fun _ => hafter

theorem processNew_does (hfails : ∀ site, fails site → finishing site = false)
    (h : Reads env s₀ exports receipt s) (hvalid : isImportId receipt.id = true)
    (hnew : receipt.id ∉ s.imports) :
    Does env fails (fun _ s' => After env fails receipt.id s₀ s')
      (fun _ s' => After env fails receipt.id s₀ s') (processNew env a receipt s.imports) s := by
  have himports : s₀.imports = s.imports := by
    unfold World.imports
    rw [h.file]
  have hunlisted : After env fails receipt.id s₀ s :=
    after_of_unlisted h.inv.sound himports.symm (fun i _ => by rw [h.receipts]) (himports ▸ hnew)
  unfold processNew
  apply does_bind (R := fun original s' => s' = s ∧
    s.originals.lookup receipt.id = some original)
  · apply does_lookOr (before_of_sound h.inv.sound) ?_ (fun _ _ => hunlisted)
      (fun _ => hunlisted)
    intro original hread
    refine ⟨rfl, ?_⟩
    cases hlookup : s.originals.lookup receipt.id with
    | none =>
      rw [hlookup] at hread
      cases hread
    | some data =>
      simp only [hlookup] at hread
      split at hread
      · rw [Except.ok.inj hread]
      · cases hread
  intro original s' hs
  obtain ⟨rfl, horiginal⟩ := hs
  apply does_bind (R := fun outcome s₁ =>
    match outcome with
    | .inl counted => Promoted env s₀ receipt counted s₁
    | .inr _ => After env fails receipt.id s₀ s₁)
  · apply Task.wp_catchRaised.2
    have hinner := importExport_does (a := a) hfails h hvalid hnew horiginal
    have htry : Does env fails
        (fun outcome s₁ =>
          match outcome with
          | Sum.inl counted => Promoted env s₀ receipt counted s₁
          | .inr (_ : ImportReceipt) => After env fails receipt.id s₀ s₁)
        (fun e s₁ => After env fails receipt.id s₀ s₁ ∧ (e ≠ .failed → s₁ = s'))
        (do
          let counted ← importExport env a receipt s'.imports original
          pure (Sum.inl counted)) s' := does_bind hinner fun _ _ h => h
    apply Task.wp_mono htry (fun _ _ h => h) (fun _ _ h => h)
    intro e s₁ he
    obtain ⟨hafter, hsame⟩ := he
    apply does_bind (R := fun _ s₂ => After env fails receipt.id s₀ s₂)
    · by_cases hraised : e = .failed
      · subst hraised
        exact hafter
      · obtain rfl := hsame hraised
        exact failExport_does h hnew hafter
    · exact fun _ _ h => h
  intro outcome s₁ houtcome
  cases outcome with
  | inr failed => exact houtcome
  | inl counted =>
    apply does_bind (saveSucceeded_does hfails houtcome)
    exact fun _ _ h => h

/-- **`process`** leaves the archive sound, wherever a step fails that may. -/
theorem process_does (hfails : ∀ site, fails site → finishing site = false) (id : ImportId)
    (h : Invariant env none exports s) :
    Does env fails (fun _ s' => After env fails id s s') (fun _ s' => After env fails id s s')
      (process env id a) s := by
  have hstart : ∀ {site : Site}, fails site → After env fails id s s :=
    fun hf => after_of_failure h.sound rfl rfl hf
  unfold process
  split
  · next hvalid =>
    have hbegin : Does env fails
        (fun receipt s' => s' = s.beginCall env ∧ s.receipts.lookup id = some receipt)
        (fun _ s' => After env fails id s s') (beginProcess env id) s := by
      apply Task.wp_alone.2
      refine ⟨before_of_sound h.sound, ?_, hstart⟩
      split
      · next hnone =>
        refine ⟨h.beginCall.sound, fun _ _ hhalf => hhalf, ?_⟩
        intro hhalf
        obtain ⟨_, r, hr, _⟩ := hhalf
        have hr' : s.receipts.lookup id = some r := hr
        rw [hnone] at hr'
        cases hr'
      · next receipt hreceipt => exact ⟨rfl, hreceipt⟩
    apply does_bind hbegin
    intro receipt s₁ hs₁
    obtain ⟨rfl, hreceipt⟩ := hs₁
    obtain rfl := h.keyed id receipt hreceipt
    apply does_bind (@catalog_does _ _ _ s _ _ h.beginCall rfl rfl hreceipt rfl)
    intro imports s₂ hs₂
    obtain ⟨rfl, hreads⟩ := hs₂
    split
    · next hlisted =>
      have hfinished : Invariant env none exports
          (s₂.setReceipt (receipt.succeed receipt.receivedAt)) := by
        apply hreads.inv.setReceipt
        · intro old hold
          have hold' : s₂.receipts.lookup receipt.id = some old := hold
          rw [hreads.receipt] at hold'
          obtain rfl := Option.some.inj hold'
          exact ⟨rfl, rfl, rfl⟩
        · exact fun _ => hlisted
        · intro _ hfailed
          cases hfailed
        · intro _ hnone
          cases hnone
        · exact Or.inl (hreads.inv.synced hreads.synced)
      have hafter : After env fails receipt.id s
          (s₂.setReceipt (receipt.succeed receipt.receivedAt)) :=
        after_of_succeeded hfinished.sound rfl fun i _ hhalf =>
          (half_of_same hreads.file hreads.receipts).1 hhalf
      apply does_bind (R := fun _ s' => After env fails receipt.id s s')
      · exact does_save (before_of_sound hreads.inv.sound) (before_of_sound hfinished.sound)
          hafter (fun hf => after_of_failure hreads.inv.sound hreads.file hreads.receipts hf)
          (fun _ => hafter)
      · exact fun _ _ h => h
    · next hnew => exact processNew_does hfails hreads hvalid hnew
  · next hvalid =>
    refine ⟨h.sound, fun _ _ hhalf => hhalf, ?_⟩
    intro hhalf
    exact absurd (h.received id hhalf.1).1 hvalid

end Processing

section Submitting

variable {fails : Site → Prop} {s : World} {exports : List Export} {drop : Drop}

theorem reopen_same (receipt : ImportReceipt) :
    receipt.reopen.id = receipt.id ∧ receipt.reopen.filename = receipt.filename ∧
      receipt.reopen.limit = receipt.limit ∧ stampEvent receipt.reopen = stampEvent receipt ∧
      (receipt.reopen.state = .succeeded → receipt.state = .succeeded) ∧
      (receipt.reopen.state = .failed → receipt.state = .failed) ∧
      (receipt.state = .pending → receipt.reopen.state = .pending) := by
  unfold ImportReceipt.reopen
  split
  · next h =>
    refine ⟨rfl, rfl, rfl, rfl, ?_, ?_, ?_⟩
    · intro hstate
      cases hstate
    · intro _
      exact h.1
    · exact fun _ => rfl
  · exact ⟨rfl, rfl, rfl, rfl, id, id, id⟩

/-- A receipt that is dropped again. -/
theorem reopen_sound (h : Invariant env none exports s) {receipt : ImportReceipt}
    (hreceipt : s.receipts.lookup receipt.id = some receipt) :
    Invariant env none exports (s.setReceipt receipt.reopen) := by
  obtain ⟨hid, hfilename, hlimit, hstamp, hsucceeded, hfailed, hpending⟩ := reopen_same receipt
  apply h.setReceipt
  · intro old hold
    rw [hid, hreceipt] at hold
    obtain rfl := Option.some.inj hold
    exact ⟨hfilename, hlimit, hstamp⟩
  · intro hstate
    rw [hid]
    exact h.succeeded _ receipt hreceipt (hsucceeded hstate)
  · intro hlisted hstate
    rw [hid] at hlisted
    obtain ⟨_, r, hr, hlate⟩ := h.received _ hlisted
    rw [hreceipt] at hr
    obtain rfl := Option.some.inj hr
    cases hlate (hfailed hstate)
  · intro _ hnone
    cases hnone
  · obtain hholds | ⟨i, hlisted, r, hr, hstate⟩ | hlate := h.current
    · exact Or.inl hholds
    · refine Or.inr (Or.inl ⟨i, hlisted, ?_⟩)
      by_cases hi : i = receipt.id
      · rw [hi, hreceipt] at hr
        obtain rfl := Option.some.inj hr
        refine ⟨receipt.reopen, ?_, hpending hstate⟩
        rw [hi, ← hid]
        exact lookup_setReceipt_self
      · refine ⟨r, ?_, hstate⟩
        rw [lookup_setReceipt (hid ▸ hi)]
        exact hr
    · exact absurd rfl hlate

/-- The receipt of a new export. -/
theorem newReceipt_sound (h : Invariant env none exports s)
    (hnew : s.receipts.lookup (drop.identity env) = none) :
    Invariant env none exports (s.setReceipt (drop.receipt env)) := by
  have hold : ∀ old, s.receipts.lookup (drop.receipt env).id ≠ some old := by
    intro old hold
    have hold' : s.receipts.lookup (drop.identity env) = some old := hold
    rw [hnew] at hold'
    cases hold'
  apply h.setReceipt
  · exact fun old h => absurd h (hold old)
  · intro hstate
    cases hstate
  · intro _ hstate
    cases hstate
  · intro _ hnone
    cases hnone
  · obtain hholds | ⟨i, hlisted, r, hr, hstate⟩ | hlate := h.current
    · exact Or.inl hholds
    · refine Or.inr (Or.inl ⟨i, hlisted, r, ?_, hstate⟩)
      have hi : i ≠ (drop.receipt env).id := by
        intro hi
        rw [hi] at hr
        exact hold r hr
      rw [lookup_setReceipt hi]
      exact hr
    · exact absurd rfl hlate

/-- **`submit`** leaves the archive sound, wherever a step fails. -/
theorem submit_does (h : Invariant env none exports s) :
    Does env fails (fun _ s' => Sound env s') (fun _ s' => Sound env s') (submit env drop) s := by
  unfold submit
  split
  · exact h.sound
  apply does_bind (R := fun existing s' => s' = s ∧
    existing = (receiptsOf s).find? (·.contentHash = drop.digest env))
  · exact does_look (before_of_sound h.sound) ⟨rfl, rfl⟩ fun _ => h.sound
  intro existing s' hs
  obtain ⟨rfl, hexisting⟩ := hs
  split
  · next receipt =>
    have hmem := List.mem_of_find?_eq_some hexisting.symm
    obtain ⟨⟨id, r⟩, hentry, rfl⟩ := List.mem_map.1 hmem
    have hlookup : s'.receipts.lookup id = some r :=
      mem_entries_iff_view.1 ((List.mem_insertionSort _).1 hentry)
    obtain rfl := h.keyed id r hlookup
    split
    · have hreopen := reopen_sound h hlookup
      apply does_bind (R := fun _ s' => Sound env s')
      · exact does_save (before_of_sound h.sound) (before_of_sound hreopen.sound) hreopen.sound
          (fun _ => h.sound) (fun _ => hreopen.sound)
      · exact fun _ _ h => h
    · exact h.sound
  · unfold submitNew
    apply does_bind (R := fun receipt s₁ => s₁ = s' ∧
      receipt = s'.receipts.lookup (drop.identity env))
    · exact does_look (before_of_sound h.sound) ⟨rfl, rfl⟩ fun _ => h.sound
    intro receipt s₁ hs₁
    obtain ⟨rfl, hreceipt⟩ := hs₁
    split
    · exact h.sound
    have hnew := hreceipt.symm
    apply does_bind (R := fun archived s₂ => s₂ = s₁ ∧
      archived = s₁.originals.lookup (drop.identity env))
    · exact does_look (before_of_sound h.sound) ⟨rfl, rfl⟩ fun _ => h.sound
    intro archived s₂ hs₂
    obtain ⟨rfl, harchived⟩ := hs₂
    have hsave : ∀ s, Invariant env none exports s →
        s.receipts.lookup (drop.identity env) = none →
        Does env fails (fun _ s' => Sound env s') (fun _ s' => Sound env s')
          (do
            save .saveNew .syncNew (·.setReceipt (drop.receipt env))
            pure (drop.receipt env)) s := by
      intro s hs hnone
      have hsaved := newReceipt_sound hs hnone
      apply does_bind (R := fun _ s' => Sound env s')
      · exact does_save (before_of_sound hs.sound) (before_of_sound hsaved.sound) hsaved.sound
          (fun _ => hs.sound) (fun _ => hsaved.sound)
      · exact fun _ _ h => h
    split
    · split
      · exact h.sound
      · exact hsave _ h hnew
    · have horiginal := @Invariant.setOriginal _ _ _ _ _ h drop.data harchived.symm
      apply does_bind (R := fun _ s' => s' = s₂.setOriginal (drop.identity env) drop.data)
      · exact does_save (before_of_sound h.sound) (before_of_sound horiginal.sound) rfl
          (fun _ => h.sound) (fun _ => horiginal.sound)
      intro _ s' hs'
      subst hs'
      exact hsave _ horiginal hnew

end Submitting

section Runs

variable {scene : Scene Site World Raised ImportReceipt Call} {turns : List (Turn Call Empty)}

/-- The turn does not fail or kill a call that took up a failed receipt between its promotion of
the catalog and its last save. -/
def Finishes (scene : Scene Site World Raised ImportReceipt Call) : Turn Call Empty → Prop
  | .fail | .kill => (scene.site?.all fun at' => !finishing at'.2) = true
  | _ => True

instance : DecidableRel Finishes := fun scene t =>
  match t with
  | .fail | .kill => inferInstanceAs (Decidable ((scene.site?.all _) = true))
  | .event _ | .start _ | .resume => .isTrue trivial

theorem empty_sound : Invariant env none [] World.empty where
  listed := ⟨stores_empty, List.nodup_nil, fun _ hx => absurd hx List.not_mem_nil⟩
  synced := fun _ => holds_empty .unset
  fileStamp := by
    intro stamp c hfile
    cases hfile
  mirrorStamp := by
    intro stamp hstamp
    cases hstamp
  keyed := by
    intro id r hr
    cases (AList.lookup_empty id).symm.trans hr
  succeeded := by
    intro id r hr
    cases (AList.lookup_empty id).symm.trans hr
  received := fun _ hid => absurd hid List.not_mem_nil
  current := Or.inl (holds_empty .unset)
  failures := fun _ hf => absurd hf List.not_mem_nil

/-- **A run** keeps every call as specified. -/
theorem archive_run (hrun : Along (archiveTurn env) Finishes newArchive turns) :
    OneAtATime (fun _ site => finishing site = false) (fun _ => Before env) (Sound env)
      (turns.foldl (archiveTurn env) newArchive) := by
  have hempty : OneAtATime (fun _ site => finishing site = false) (fun _ => Before env) (Sound env)
      newArchive := ⟨[], empty_sound⟩
  apply oneAtATime_run (P := Finishes) ?_ ?_ ?_ ?_ ?_ hrun hempty
  · intro call s hs
    obtain ⟨exports, h⟩ := hs
    cases call with
    | submit drop => exact submit_does h
    | process id a =>
      apply Task.wp_mono (process_does (a := a) (fun _ hsite => hsite) id h) (fun _ _ h => h)
      · exact fun _ _ h => h.sound
      · exact fun _ _ h => h.sound
  · exact fun e => e.elim
  · exact fun _ e => e.elim
  · intro scene hfinishes call site hsite
    rw [Finishes, hsite] at hfinishes
    simpa using hfinishes
  · intro scene hfinishes call site hsite hbefore
    rw [Finishes, hsite] at hfinishes
    have hnot : finishing site = false := by simpa using hfinishes
    rw [Before, hnot] at hbefore
    exact hbefore

/-- In every scene of such a run the catalog file is a merge of exports. -/
theorem invariant_of_scene
    (h : OneAtATime (fun _ site => finishing site = false) (fun _ => Before env) (Sound env)
      scene) : ∃ late exports, Invariant env late exports scene.world := by
  have hsound : ∀ w, Sound env w → ∃ late exports, Invariant env late exports w :=
    fun _ hw => ⟨none, hw⟩
  obtain ⟨world, running⟩ := scene
  match running with
  | none => exact hsound world h
  | some (k, .done a) => exact hsound world h
  | some (k, .raised e) => exact hsound world h
  | some (k, .step site effect rest failed) =>
    have hbefore : Before env site world := (Task.wp_alone.1 h).1
    rw [Before] at hbefore
    split at hbefore
    · exact hbefore
    · exact hsound world hbefore

/-- **One call on its own** tells its import, and makes no other wait. -/
theorem process_tells {w : World} (call : ImportId × Attempt) (h : Sound env w) :
    let w' := (run (process env call.1 call.2) w).2
    Sound env w' ∧ ∀ i, Half w' i → Half w i ∧ i ≠ call.1 := by
  obtain ⟨exports, h⟩ := h
  have hafter : ∀ w', After env (fun _ => False) call.1 w w' →
      Sound env w' ∧ ∀ i, Half w' i → Half w i ∧ i ≠ call.1 := by
    intro w' h
    refine ⟨h.sound, ?_⟩
    intro i hi
    have hne : i ≠ call.1 := by
      intro heq
      obtain ⟨_, hfails⟩ := h.own (heq ▸ hi)
      exact hfails
    exact ⟨h.others i hne hi, hne⟩
  have hwp := @process_does _ (fun _ => False) _ _ call.2 (fun _ hf => hf.elim) call.1 h
  obtain ⟨r, w', hrun, hw'⟩ | ⟨e, w', hrun, hw'⟩ := Task.run_of_alone hwp
  · rw [hrun]
    exact hafter w' hw'
  · rw [hrun]
    exact hafter w' hw'

theorem reprocess_tells {w : World} (calls : List (ImportId × Attempt)) (h : Sound env w) :
    Sound env (reprocess env calls w) ∧
      ∀ i, Half (reprocess env calls w) i → Half w i ∧ i ∉ calls.map (·.1) := by
  induction calls generalizing w with
  | nil => exact ⟨h, fun i hi => ⟨hi, List.not_mem_nil⟩⟩
  | cons call calls ih =>
    obtain ⟨hsound, htells⟩ := process_tells call h
    obtain ⟨hsound', htells'⟩ := ih hsound
    refine ⟨hsound', ?_⟩
    intro i hi
    obtain ⟨hhalf, hrest⟩ := htells' i hi
    obtain ⟨hhalf', hne⟩ := htells i hhalf
    refine ⟨hhalf', ?_⟩
    rw [List.map_cons, List.mem_cons, not_or]
    exact ⟨hne, hrest⟩

/-- Two mirrors hold the same. -/
structure SameMirror (m m' : Mirror) : Prop where
  events : view m.events = view m'.events
  evidence : view m.evidence = view m'.evidence
  conflicts : m.conflicts = m'.conflicts
  aliases : m.aliases = m'.aliases
  imports : m.imports = m'.imports

theorem sameMirror_of_holds {m m' : Mirror} {exports : List Export} (h : Holds env m exports)
    (h' : Holds env m' exports) : SameMirror m m' where
  events := by
    obtain ⟨d, hd, hview⟩ := h.events
    obtain ⟨d', hd', hview'⟩ := h'.events
    obtain rfl := Except.ok.inj (hd.merged.symm.trans hd'.merged)
    exact hview.trans hview'.symm
  evidence := h.evidence.trans h'.evidence.symm
  conflicts := h.conflicts.trans h'.conflicts.symm
  aliases := h.aliases.trans h'.aliases.symm
  imports := h.imports.trans h'.imports.symm

/-- What reprocessing should end with: each receipt is succeeded exactly when the catalog lists
it, and the mirror is what a rebuild from the catalog file gives. -/
structure Told (env : ArchiveEnv) (w : World) : Prop where
  receipts : ∀ id receipt, w.receipts.lookup id = some receipt →
    (receipt.state = .succeeded ↔ id ∈ w.imports)
  mirror : ∃ m, rebuild env w.file = .ok m ∧ SameMirror w.mirror m

/-- The calls take up every pending receipt. -/
def TakesUp (calls : List (ImportId × Attempt)) (w : World) : Prop :=
  ∀ id receipt, w.receipts.lookup id = some receipt → receipt.state = .pending →
    id ∈ calls.map (·.1)

theorem told_of_sound {w : World} (h : Sound env w) (hnone : ∀ i, ¬Half w i) : Told env w := by
  obtain ⟨exports, h⟩ := h
  constructor
  · intro id receipt hreceipt
    constructor
    · exact h.succeeded id receipt hreceipt
    · intro hlisted
      obtain ⟨_, r, hr, hlate⟩ := h.received id hlisted
      rw [hreceipt] at hr
      obtain rfl := Option.some.inj hr
      cases hstate : receipt.state with
      | succeeded => rfl
      | pending => exact absurd ⟨hlisted, receipt, hreceipt, hstate⟩ (hnone id)
      | failed => cases hlate hstate
  · obtain ⟨m, hrebuild, hholds, _⟩ := rebuild_file h.listed
    refine ⟨m, hrebuild, ?_⟩
    obtain hcurrent | ⟨i, hi⟩ | hlate := h.current
    · exact sameMirror_of_holds hcurrent hholds
    · exact absurd hi (hnone i)
    · exact absurd rfl hlate

/-- **Each export is applied entirely, once, or not at all**, in every run in which no call that
took up a failed receipt fails or is killed between its promotion of the catalog and its last
save: the catalog file is the merge of exactly the exports it lists, each once; an export that
failed left the catalog as it was; and reprocessing the pending receipts tells every one. -/
theorem exports_applied (env : ArchiveEnv) (turns : List (Turn Call Empty))
    (hrun : Along (archiveTurn env) Finishes newArchive turns) :
    let last := turns.foldl (archiveTurn env) newArchive
    (∃ exports, Listed env last.world exports) ∧
    (∀ f ∈ last.world.failures, f.1 = f.2) ∧
    (last.running = none → ∀ calls, TakesUp calls last.world →
      Told env (reprocess env calls last.world)) := by
  have hway := archive_run hrun
  obtain ⟨late, exports, h⟩ := invariant_of_scene hway
  refine ⟨⟨exports, h.listed⟩, h.failures, ?_⟩
  intro hidle calls hcalls
  have hsound : Sound env (turns.foldl (archiveTurn env) newArchive).world := by
    rw [OneAtATime, hidle] at hway
    exact hway
  obtain ⟨hsound', htells⟩ := reprocess_tells calls hsound
  apply told_of_sound hsound'
  intro i hi
  obtain ⟨⟨_, r, hr, hstate⟩, hout⟩ := htells i hi
  exact hout (hcalls i r hr hstate)

end Runs

section Samples

def sampleBytes : Bytes :=
  ascii ("BEGIN:VCALENDAR\r\nVERSION:2.0\r\n".toList ++ sampleOld.component ++
    "END:VCALENDAR\r\n".toList)

def sampleDigest : Text := "11a4d003694a2061f886344afed42cbbe77728fdd7f2142b3d7b049d2445cb3f".toList

def sampleId : ImportId := "f776e57f71e8f372853b3af51e319874aa498fb78d13b5c1f5711e071e872032".toList

/-- An archive with one export, whose one event has no people. -/
def sampleArchive : ArchiveEnv where
  fromisoformat := sampleEnv.fromisoformat
  toIcal := sampleEnv.toIcal
  encode := ascii
  sha256 data :=
    if data = sampleBytes then sampleDigest
    else if data = ascii (".ics".toList ++ Char.ofNat 0 :: sampleDigest) then sampleId
    else sampleEnv.sha256 data
  parse _ _ _ _ :=
    .ok [{ sampleOld with
      provenance := []
      sourceEntries := ["2023.ics".toList]
      sourceEntry := "2023.ics".toList }]
  lower t := t.map Char.toLower
  evidenceId _ _ := []
  megabytes _ := "200".toList

def sampleDrop : Drop where
  calendarId := "calendar".toList
  filename := "2023.ics".toList
  data := sampleBytes
  limit := 200000000
  exportFilename := []
  now := "2024-01-01T00:00:00+00:00".toList

def sampleAttempt (stopped : Option Raised) : Attempt where
  limits := ⟨50000, 1024⟩
  now := "2024-01-01T00:00:01+00:00".toList
  stopped := stopped

def timeLimit : Raised :=
  .calendarTransientError "calendar processing exceeded its time limit".toList

/-- An export is dropped, and killed right after its promotion. -/
def killedTurns : List (Turn Call Empty) :=
  [.start (.submit sampleDrop)] ++ List.replicate 7 .resume ++
    [.start (.process sampleId (sampleAttempt none))] ++ List.replicate 10 .resume ++ [.kill]

theorem killed_receipts :
    let last := killedTurns.foldl (archiveTurn sampleArchive) newArchive
    Along (archiveTurn sampleArchive) Finishes newArchive killedTurns ∧ last.running.isNone = true ∧ last.world.imports = [sampleId] ∧
      (last.world.receipts.entries.all fun e => e.1 = sampleId) = true := by
  decide +kernel

/-- Reprocessing it after the restart tells it. -/
theorem exports_applied_sample :
    Told sampleArchive (reprocess sampleArchive [(sampleId, sampleAttempt none)]
      (killedTurns.foldl (archiveTurn sampleArchive) newArchive).world) := by
  obtain ⟨hrun, hidle, -, hids⟩ := killed_receipts
  apply (exports_applied sampleArchive killedTurns hrun).2.2 (Option.isNone_iff_eq_none.1 hidle)
  intro id receipt hreceipt _
  have hid := List.all_eq_true.1 hids ⟨id, receipt⟩ (mem_entries_iff_view.2 hreceipt)
  rw [List.map_cons, List.mem_cons]
  exact Or.inl (by simpa using hid)

/-- The parser ran out of time at first; the export is taken up again while its receipt is
failed, and killed right after its promotion. -/
def retriedTurns : List (Turn Call Empty) :=
  [.start (.submit sampleDrop)] ++ List.replicate 7 .resume ++
    [.start (.process sampleId (sampleAttempt (some timeLimit)))] ++ List.replicate 8 .resume ++
    [.start (.process sampleId (sampleAttempt none))] ++ List.replicate 8 .resume ++ [.kill]

theorem retried_receipts :
    let last := retriedTurns.foldl (archiveTurn sampleArchive) newArchive
    last.running.isNone = true ∧
      (last.world.receipts.entries.all fun e => e.2.state ≠ .pending) = true ∧
      (last.world.receipts.lookup sampleId).map (·.state) = some .failed ∧
      sampleId ∈ last.world.imports := by
  decide +kernel

/-- After the restart no receipt is pending, and the receipt of an export that the catalog lists
is failed. -/
theorem retried_failure_untold :
    let last := retriedTurns.foldl (archiveTurn sampleArchive) newArchive
    last.running = none ∧ TakesUp [] last.world ∧
      ¬Told sampleArchive (reprocess sampleArchive [] last.world) := by
  have hreceipts := retried_receipts
  generalize retriedTurns.foldl (archiveTurn sampleArchive) newArchive = last at hreceipts
  obtain ⟨hidle, hnone, hstate, hlisted⟩ := hreceipts
  refine ⟨Option.isNone_iff_eq_none.1 hidle, ?_, ?_⟩
  · intro id receipt hreceipt hpending
    have hne := List.all_eq_true.1 hnone ⟨id, receipt⟩ (mem_entries_iff_view.2 hreceipt)
    exact absurd hpending (by simpa using hne)
  · intro htold
    obtain ⟨receipt, hreceipt, hfailed⟩ := Option.map_eq_some_iff.1 hstate
    have hsucceeded := (htold.receipts sampleId receipt hreceipt).2 hlisted
    rw [hfailed] at hsucceeded
    cases hsucceeded

end Samples

end Coppermind.Calendar
