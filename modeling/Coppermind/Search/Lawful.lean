import Coppermind.Search.CatchUp

/-!
# What a pass writes into the index

The mirror, the files and the index itself may become anything between two steps of a pass.  Still
every document that a step adds or changes is of something that is published at that moment, its
text is that of bytes of its version which a step of the same pass read at its path, and every
document that a step removes is obsolete.
-/

namespace Coppermind.Search

open Coppermind.Lib Coppermind.Lib.Text Coppermind.Frontmatter Coppermind.Schema
open Coppermind.Lib.Task (Traced traced_pure traced_mono traced_seq traced_of_steps traced_look
  traced_lookOr steps_pure steps_bind steps_look steps_lookOr)
open Coppermind.Notes (FileBytes)

/-- The steps a pass has taken, each with the world it found. -/
abbrev Past := List (Site × World)

section Reading

variable {env : Env} {w : World} {d : Document} {path id version : PyStr} {past now : Past}

/-- A step read these bytes where the document's file is. -/
def Read (past : Past) (d : Document) (data : FileBytes) : Prop :=
  ∃ row w, (Site.read row d.path, w) ∈ past ∧ row.key = d.key ∧ (w.files d.path).bytes = .ok data

/-- The title and the body of a document are those of bytes of its version that were read where its
file is, or are of the record that was read of an artifact. -/
def Honest (env : Env) (past : Past) (d : Document) : Prop :=
  match d.kind with
  | .note => ∃ data fields body, Read past d data ∧ env.hash data = d.version ∧
      parse env data = .ok (fields, body) ∧
      (∀ carried ∈ fields.get? env.settings.idKey, Notes.strOf env.py carried = d.refId) ∧
      d.title = titleOf body d.path ∧ d.body = PyStr.ofText body
  | .source => ∃ data fields body revision, Read past d data ∧
      parse env (asText data) = .ok (fields, body) ∧
      isProjection fields d.refId revision = true ∧ d.version = sourceVersion revision ∧
      d.title = titleOf body d.path ∧ d.body = PyStr.ofText body
  | .artifact => ∃ w r, (Site.artifact d.refId, w) ∈ past ∧ w.records d.refId = .ok (some r) ∧
      d = artifactDocument d.refId r

theorem Read.later {data : FileBytes} (h : Read past d data) (hnow : past <+: now) :
    Read now d data := by
  obtain ⟨row, w, hmem, hkey, hdata⟩ := h
  exact ⟨row, w, hnow.subset hmem, hkey, hdata⟩

theorem Honest.later (h : Honest env past d) (hnow : past <+: now) : Honest env now d := by
  unfold Honest at h ⊢
  split at h
  · obtain ⟨data, fields, body, hread, h⟩ := h
    exact ⟨data, fields, body, hread.later hnow, h⟩
  · obtain ⟨data, fields, body, revision, hread, h⟩ := h
    exact ⟨data, fields, body, revision, hread.later hnow, h⟩
  · obtain ⟨w, r, hmem, h⟩ := h
    exact ⟨w, r, hnow.subset hmem, h⟩

theorem except_bind_ok {ε α β : Type} {x : Except ε α} {f : α → Except ε β} {b : β}
    (h : x >>= f = .ok b) : ∃ a, x = .ok a ∧ f a = .ok b := by
  cases x with
  | error e => cases h
  | ok a => exact ⟨a, rfl, h⟩

theorem readBytes_ok {data : FileBytes} (h : readBytes w path = .ok data) :
    (w.files path).bytes = .ok data := by
  unfold readBytes at h
  cases hbytes : (w.files path).bytes with
  | error e =>
    rw [hbytes] at h
    cases h
  | ok found =>
    rw [hbytes] at h
    rw [Except.ok.inj h]

theorem readNote_spec (h : readNote env w path id version = .ok d) :
    d.kind = .note ∧ d.refId = id ∧ d.path = path ∧ d.version = version ∧
      ∃ data fields body, (w.files d.path).bytes = .ok data ∧ env.hash data = d.version ∧
        parse env data = .ok (fields, body) ∧
        (∀ carried ∈ fields.get? env.settings.idKey, Notes.strOf env.py carried = d.refId) ∧
        d.title = titleOf body d.path ∧ d.body = PyStr.ofText body := by
  unfold readNote at h
  rcases except_bind_ok h with ⟨data, hdata, h⟩
  dsimp only at h
  split at h
  · cases h
  · next hhash =>
    rcases except_bind_ok h with ⟨⟨fields, body⟩, hparse, h⟩
    dsimp only at h
    split at h
    · cases h
    · next hcarried =>
      obtain rfl := Except.ok.inj h
      refine ⟨rfl, rfl, rfl, rfl, data, fields, body, readBytes_ok hdata, not_not.1 hhash, hparse,
        ?_, rfl, rfl⟩
      intro carried hc
      by_contra hne
      exact hcarried (by simp [Option.mem_def.1 hc, hne])

theorem readProjection_spec {revision : Int} (h : readProjection env w path id revision = .ok d) :
    d.kind = .source ∧ d.refId = id ∧ d.path = path ∧ d.version = sourceVersion revision ∧
      ∃ data fields body, (w.files d.path).bytes = .ok data ∧
        parse env (asText data) = .ok (fields, body) ∧ isProjection fields d.refId revision = true ∧
        d.title = titleOf body d.path ∧ d.body = PyStr.ofText body := by
  unfold readProjection at h
  rcases except_bind_ok h with ⟨data, hdata, h⟩
  rcases except_bind_ok h with ⟨⟨fields, body⟩, hparse, h⟩
  have hparsed : parse env (asText data) = .ok (fields, body) := by
    cases hp : parse env (asText data) with
    | error e =>
      rw [hp] at hparse
      cases hparse
    | ok parsed =>
      rw [hp] at hparse
      exact congrArg Except.ok (Except.ok.inj hparse)
  dsimp only at h
  split at h
  · next hpage =>
    obtain rfl := Except.ok.inj h
    exact ⟨rfl, rfl, rfl, rfl, data, fields, body, readBytes_ok hdata, hparsed, hpage, rfl, rfl⟩
  · cases h

/-- What a step makes of a file, once the step is one of those taken. -/
theorem readEntry_spec {row : Stale} (hkind : row.kind ≠ .artifact)
    (h : readEntry env w row path = .ok d) : Honest env (past ++ [(.read row path, w)]) d := by
  have hread {data : FileBytes} (hkey : d.kind = row.kind) (hid : d.refId = row.id)
      (hpath : d.path = path) (hdata : (w.files d.path).bytes = .ok data) :
      Read (past ++ [(.read row path, w)]) d data :=
    ⟨row, w, List.mem_append_right _ (List.mem_singleton.2 (by rw [hpath])),
      by rw [Stale.key, Document.key, hkey, hid], hdata⟩
  unfold readEntry at h
  cases hk : row.kind with
  | source =>
    simp only [hk] at h
    rcases readProjection_spec h with ⟨hdkind, hid, hpath, hversion, data, fields, body, hdata, h⟩
    unfold Honest
    rw [hdkind]
    obtain ⟨hparse, hpage, htitle, hbody⟩ := h
    exact ⟨data, fields, body, row.revision, hread (hdkind.trans hk.symm) hid hpath hdata, hparse,
      hpage, hversion, htitle, hbody⟩
  | note =>
    simp only [hk] at h
    rcases readNote_spec h with ⟨hdkind, hid, hpath, -, data, fields, body, hdata, h⟩
    unfold Honest
    rw [hdkind]
    exact ⟨data, fields, body, hread (hdkind.trans hk.symm) hid hpath hdata, h⟩
  | artifact => exact absurd hk hkind

end Reading

section Passing

variable {env : Env} {call : Call} {row : Stale} {rows : List Stale} {past : Past}

/-- What is known of a step after those before it, whatever happened between them. -/
def Site.Sound (env : Env) (past : Past) : Site → Prop
  | .record change => ∀ d ∈ change.ready, Honest env past d
  | .index d => d.kind = .artifact ∧ Honest env past d
  | _ => True

/-- A step of a pass is the command of its site, and is sound. -/
def Passes (env : Env) (past : Past) (site : Site) (f : World → World) : Prop :=
  f = effect env site ∧ site.Sound env past

/-- The reads of a row. -/
def Site.isRead : Site → Bool
  | .manifest _ | .projection _ | .observe _ | .read _ _ => true
  | _ => false

theorem passes_of_isRead {site : Site} (h : site.isRead = true) : Passes env past site id := by
  cases site with
  | manifest | projection | observe | read => exact ⟨rfl, trivial⟩
  | _ => cases h

section Steps

variable {P : Site → (World → World) → Prop}

section Looks

variable (hP : ∀ site, site.isRead = true → P site id)

include hP

theorem steps_readRow (previous : Option Mark) (full : Bool) :
    Task.Steps P (readRow env previous full row) := by
  unfold readRow
  split
  · exact steps_pure _
  · refine steps_bind ?_ fun manifest => steps_bind ?_ fun found =>
      steps_bind (steps_look (hP (.observe _) rfl) _ _) fun state => ?_
    · unfold manifestState
      split
      · exact steps_look (hP (.manifest _) rfl) _ _
      · exact steps_pure _
    · unfold pathOf
      split
      · exact steps_pure _
      · exact steps_look (hP (.projection _) rfl) _ _
      · exact steps_pure _
    · dsimp only
      split
      · exact steps_pure _
      · split
        · exact steps_pure _
        · refine steps_bind ?_ fun entry => ?_
          · unfold entryAt
            split
            · exact steps_pure _
            · exact steps_lookOr (hP (.read row _) rfl) _ _
          · split <;> exact steps_pure _

theorem steps_readStale (known : List Mark) (attempted : Nat) (reading : Reading) :
    Task.Steps P (readStale env known attempted reading rows) := by
  induction rows generalizing attempted reading with
  | nil => exact steps_pure _
  | cons row rest ih => exact steps_bind (steps_readRow hP _ _) fun _ => ih _ _

end Looks

end Steps

section Traces

/-- A row that is ready was read by a step of the pass. -/
theorem traced_readRow (previous : Option Mark) (full : Bool) (hrow : row.kind ≠ .artifact) :
    Traced (Passes env) (fun attempt now => ∀ d, attempt = .ready d → Honest env now d)
      (readRow env previous full row) past := by
  have hread (site : Site) (hsite : site.isRead = true) (past : Past) : Passes env past site id :=
    passes_of_isRead hsite
  unfold readRow
  split
  · intro d h
    cases h
  · refine traced_seq (traced_of_steps ?_) fun manifest now _ _ => ?_
    · unfold manifestState
      split
      · exact steps_look (hread _ rfl) _ _
      · exact steps_pure _
    refine traced_seq (traced_of_steps ?_) fun found now _ _ => ?_
    · unfold pathOf
      split
      · exact steps_pure _
      · exact steps_look (hread _ rfl) _ _
      · exact steps_pure _
    refine traced_seq (traced_of_steps (steps_look (hread _ rfl) _ _)) fun state now _ _ => ?_
    dsimp only
    split
    · intro d h
      cases h
    · split
      · intro d h
        cases h
      · refine traced_seq (R := fun entry now => ∀ d, entry = .ok d → Honest env now d) ?_ ?_
        · unfold entryAt
          split
          · intro d h
            cases h
          · refine traced_lookOr (hread _ rfl _) fun w entry hentry d hd => ?_
            subst hd
            cases hread : readEntry env w row found.1 with
            | ok d' =>
              rw [hread] at hentry
              obtain rfl := Except.ok.inj (Except.ok.inj hentry)
              exact readEntry_spec hrow hread
            | error e =>
              rw [hread] at hentry
              cases e with
              | fault f => cases Except.ok.inj hentry
              | python className => cases hentry
        · intro entry now _ hentry
          cases entry with
          | ok d =>
            intro d' hd'
            obtain rfl := Attempt.ready.inj hd'
            exact hentry d rfl
          | error f =>
            intro d hd
            cases hd

theorem Reading.ready_add {reading : Reading} {attempt : Attempt} {d : Document}
    (hd : d ∈ (reading.add attempt).ready) : d ∈ reading.ready ∨ attempt = .ready d := by
  cases attempt with
  | ready d' =>
    rcases List.mem_append.1 hd with hd | hd
    · exact Or.inl hd
    · rw [List.mem_singleton.1 hd]
      exact Or.inr rfl
  | failed m durable => cases durable <;> exact Or.inl hd
  | later => exact Or.inl hd
  | known => exact Or.inl hd

theorem traced_readStale {known : List Mark} {attempted : Nat} {reading : Reading}
    (hrows : ∀ row ∈ rows, row.kind ≠ .artifact) (hreading : ∀ d ∈ reading.ready, Honest env past d) :
    Traced (Passes env) (fun r now => ∀ d ∈ r.ready, Honest env now d)
      (readStale env known attempted reading rows) past := by
  induction rows generalizing attempted reading past with
  | nil => exact hreading
  | cons row rest ih =>
    rcases List.forall_mem_cons.1 hrows with ⟨hrow, hrest⟩
    refine traced_seq (traced_readRow _ _ hrow) fun attempt now hnow hattempt => ih hrest ?_
    intro d hd
    rcases Reading.ready_add hd with hold | hnew
    · exact (hreading d hold).later hnow
    · exact hattempt d hnew

theorem kind_of_mem_staleNotes {folder : Text}
    (h : row ∈ call.shuffle (staleNotes env folder w)) : row.kind = .note := by
  rw [Call.shuffle, List.mem_insertionSort] at h
  rcases List.mem_map.1 h with ⟨n, -, rfl⟩
  rfl

theorem kind_of_mem_staleSources {folder : Text}
    (h : row ∈ call.shuffle (staleSources env folder w)) : row.kind = .source := by
  rw [Call.shuffle, List.mem_insertionSort] at h
  rcases List.mem_map.1 h with ⟨s, -, rfl⟩
  rfl

theorem traced_indexArtifacts (indexed : Nat) (stale : List ArtifactRow) :
    Traced (Passes env) (fun _ _ => True) (indexArtifacts env indexed stale) past := by
  induction stale generalizing indexed past with
  | nil => trivial
  | cons a rest ih =>
    refine traced_seq (R := fun _ _ => True) ?_ fun _ _ _ _ => ih _
    refine traced_seq (R := fun found now => ∀ r, found = some r →
      ∃ w, (Site.artifact a.id, w) ∈ now ∧ w.records a.id = .ok (some r)) ?_ ?_
    · refine traced_lookOr ⟨rfl, trivial⟩ fun w found hfound r hr => ?_
      subst hr
      refine ⟨w, List.mem_append_right _ (List.mem_singleton.2 rfl), ?_⟩
      cases hrecord : w.records a.id with
      | error e =>
        rw [hrecord] at hfound
        cases hfound
      | ok r' =>
        rw [hrecord] at hfound
        exact congrArg Except.ok (Except.ok.inj hfound)
    · intro found now _ hfound
      split
      · trivial
      · next r =>
        split
        · trivial
        · obtain ⟨w, hmem, hrecord⟩ := hfound r rfl
          exact ⟨⟨rfl, rfl, w, r, hmem, hrecord, rfl⟩, fun _ => trivial, trivial⟩

/-- **A pass** records only what it read, whatever goes on beside it. -/
theorem traced_catchUp : Traced (Passes env) (fun _ _ => True) (catchUp env call) [] := by
  refine traced_seq (R := fun _ _ => True) (traced_look ⟨rfl, trivial⟩ fun _ => trivial) ?_
  intro folder now _ _
  refine traced_seq (R := fun _ _ => True) ⟨⟨rfl, trivial⟩, fun _ => trivial, trivial⟩ ?_
  intro removed now _ _
  refine traced_seq (R := fun _ _ => True) (traced_look ⟨rfl, trivial⟩ fun _ => trivial) ?_
  intro known now _ _
  refine traced_seq (R := fun notes _ => ∀ row ∈ notes, row.kind ≠ .artifact)
    (traced_look ⟨rfl, trivial⟩ fun w row hrow => ?_) ?_
  · rw [kind_of_mem_staleNotes hrow]
    decide
  intro notes now _ hnotes
  refine traced_seq (R := fun sources _ => ∀ row ∈ sources, row.kind ≠ .artifact)
    (traced_look ⟨rfl, trivial⟩ fun w row hrow => ?_) ?_
  · rw [kind_of_mem_staleSources hrow]
    decide
  intro sources now _ hsources
  refine traced_seq (traced_readStale hnotes fun d hd => absurd hd List.not_mem_nil) ?_
  intro reading now _ hreading
  refine traced_seq (traced_readStale hsources hreading) ?_
  intro reading now _ hreading
  refine traced_seq (R := fun _ _ => True) ⟨⟨rfl, hreading⟩, fun _ => trivial, trivial⟩ ?_
  intro indexed now _ _
  refine traced_seq (R := fun _ _ => True) ?_ fun artifacts now _ _ => trivial
  refine traced_seq (R := fun _ _ => True) (traced_look ⟨rfl, trivial⟩ fun _ => trivial) ?_
  exact fun stale now _ _ => traced_indexArtifacts _ _

end Traces

end Passing

section Writing

/-- The worlds differ in the index at most. -/
def Beside (w w' : World) : Prop :=
  w' = { w with documents := w'.documents, unreadable := w'.unreadable }

/-- What a step that takes the first world to the second one may do to the index. -/
structure Lawful (env : Env) (past : Past) (w w' : World) : Prop where
  /-- The mirror and the files stay as they are. -/
  beside : Beside w w'
  /-- A document that goes is of nothing that is published, or of an older revision. -/
  removed : ∀ key d, w.documents.find key = some d → w'.documents.find key = none →
    obsolete env env.settings.notesFolder w d = true
  /-- A document that comes or changes follows its note, or is of something that is published, with
  the text of bytes of its version that were read. -/
  written : ∀ key d, w'.documents.find key = some d →
    (∃ old, w.documents.find key = some old ∧ (d = old ∨ d = follow w old)) ∨
      eligible env env.settings.notesFolder w key = true ∧
        ∃ e, e.key = key ∧ accepts w e = true ∧ Honest env past e ∧ d = e.cut
  /-- A mark that comes is of a version that the mirror has and the index has not. -/
  marked : ∀ key m, w'.unreadable.find key = some m →
    w.unreadable.find key = some m ∨
      mirrored env env.settings.notesFolder w m = true ∧ indexed w' m = false

variable {env : Env} {folder : Text} {w w' : World} {d : Document} {key : Key} {change : Change}
  {past : Past}

theorem Beside.refl (w : World) : Beside w w := rfl

theorem Beside.eligible (h : Beside w w') (key : Key) :
    eligible env folder w' key = eligible env folder w key := by
  rw [h]
  rfl

theorem Beside.accepts (h : Beside w w') (d : Document) : accepts w' d = accepts w d := by
  rw [h]
  rfl

theorem Beside.mirrored (h : Beside w w') (m : Mark) :
    mirrored env folder w' m = mirrored env folder w m := by
  rw [h]
  rfl

theorem Lawful.refl (env : Env) (past : Past) (w : World) : Lawful env past w w where
  beside := .refl w
  removed key d hd hnone := by
    rw [hd] at hnone
    cases hnone
  written key d hd := Or.inl ⟨d, hd, Or.inl rfl⟩
  marked key m hm := Or.inl hm

theorem upsertDocument_documents :
    (upsertDocument env folder w d).documents.find key =
      if key = d.key then (if eligible env folder w d.key then some d.cut else none)
      else w.documents.find key := by
  unfold upsertDocument
  dsimp only
  split
  · next he =>
    rw [Table.find_upsert]
    by_cases hkey : key = d.key
    · subst hkey
      rw [if_pos (cut_key d), if_pos rfl]
    · rw [if_neg hkey, if_neg fun h => hkey h.symm]
  · next he => rw [Table.find_delete_key]

theorem upsertDocument_unreadable :
    (upsertDocument env folder w d).unreadable.find key =
      if key = d.key then none else w.unreadable.find key := by
  unfold upsertDocument
  dsimp only
  rw [Table.find_delete_key]

/-- What was written of a pass so far. -/
structure Recorded (env : Env) (past : Past) (w w' : World) : Prop where
  beside : Beside w w'
  kept : ∀ key d, w.documents.find key = some d → w'.documents.find key = none →
    eligible env env.settings.notesFolder w key = false
  written : ∀ key d, w'.documents.find key = some d → w.documents.find key = some d ∨
    eligible env env.settings.notesFolder w key = true ∧
      ∃ e, e.key = key ∧ accepts w e = true ∧ Honest env past e ∧ d = e.cut
  marked : ∀ key m, w'.unreadable.find key = some m → w.unreadable.find key = some m ∨
    mirrored env env.settings.notesFolder w m = true ∧ indexed w' m = false

/-- What is not published any more is obsolete. -/
theorem obsolete_of_not_eligible (h : eligible env folder w d.key = false) :
    obsolete env folder w d = true := by
  unfold obsolete
  split <;> simp [h]

theorem Recorded.lawful (h : Recorded env past w w') : Lawful env past w w' where
  beside := h.beside
  removed key d hd hnone := by
    obtain rfl := (Table.find_eq_some.1 hd).2
    exact obsolete_of_not_eligible (h.kept _ d hd hnone)
  written key d hd := by
    rcases h.written key d hd with hold | hnew
    · exact Or.inl ⟨d, hold, Or.inl rfl⟩
    · exact Or.inr hnew
  marked := h.marked

theorem Recorded.refl (env : Env) (past : Past) (w : World) : Recorded env past w w where
  beside := .refl w
  kept key d hd hnone := by
    rw [hd] at hnone
    cases hnone
  written key d hd := Or.inl hd
  marked key m hm := Or.inl hm

theorem Recorded.upsert (h : Recorded env past w w') (haccepts : accepts w d = true)
    (hhonest : Honest env past d) :
    Recorded env past w (upsertDocument env env.settings.notesFolder w' d) where
  beside := by
    have := h.beside
    unfold Beside at this ⊢
    unfold upsertDocument
    rw [this]
  kept key e he hnone := by
    rw [upsertDocument_documents] at hnone
    split at hnone
    · next hkey =>
      rw [h.beside.eligible] at hnone
      subst hkey
      by_contra hne
      rw [if_pos (by simpa using hne)] at hnone
      cases hnone
    · exact h.kept key e he hnone
  written key e he := by
    rw [upsertDocument_documents] at he
    split at he
    · next hkey =>
      subst hkey
      rw [h.beside.eligible] at he
      split at he
      · next heligible =>
        obtain rfl := Option.some.inj he
        exact Or.inr ⟨heligible, d, rfl, haccepts, hhonest, rfl⟩
      · cases he
    · exact h.written key e he
  marked key m hm := by
    rw [upsertDocument_unreadable] at hm
    split at hm
    · cases hm
    · next hkey =>
      rcases h.marked key m hm with hold | ⟨hmirrored, hindexed⟩
      · exact Or.inl hold
      refine Or.inr ⟨hmirrored, ?_⟩
      obtain rfl := (Table.find_eq_some.1 hm).2
      unfold indexed at hindexed ⊢
      rw [upsertDocument_documents, if_neg hkey]
      exact hindexed

theorem Recorded.entry (h : Recorded env past w w') (hhonest : Honest env past d) :
    Recorded env past w (recordEntry env env.settings.notesFolder w' d) := by
  unfold recordEntry
  split
  · next haccepts =>
    rw [h.beside.accepts] at haccepts
    exact h.upsert haccepts hhonest
  · exact h

theorem Recorded.failure (h : Recorded env past w w') (m : Mark) :
    Recorded env past w (recordFailure env env.settings.notesFolder w' m) := by
  unfold recordFailure
  split
  · next hnew =>
    simp only [Bool.and_eq_true, Bool.not_eq_true'] at hnew
    refine ⟨?_, h.kept, h.written, fun key e he => ?_⟩
    · have := h.beside
      unfold Beside at this ⊢
      rw [this]
    · rw [Table.find_upsert] at he
      split at he
      · obtain rfl := Option.some.inj he
        rw [h.beside.mirrored] at hnew
        exact Or.inr ⟨hnew.1.1, hnew.1.2⟩
      · exact h.marked key e he
  · exact h

/-- The marks of what is described now go. -/
theorem Recorded.forget (h : Recorded env past w w') (p : Mark → Bool) :
    Recorded env past w { w' with unreadable := w'.unreadable.delete p } where
  beside := by
    have := h.beside
    unfold Beside at this ⊢
    rw [this]
  kept := h.kept
  written := h.written
  marked key m hm := by
    rw [Table.find_delete] at hm
    exact h.marked key m (Option.filter_eq_some_iff.1 hm).1

theorem recorded_record (h : ∀ d ∈ change.ready, Honest env past d) :
    Recorded env past w (record env env.settings.notesFolder w change) := by
  have hmarks : ∀ ms : List Mark, ∀ v, Recorded env past w v →
      Recorded env past w (ms.foldl (recordFailure env env.settings.notesFolder) v) := by
    intro ms
    induction ms with
    | nil => exact fun v hv => hv
    | cons m rest ih => exact fun v hv => ih _ (hv.failure m)
  have hready : ∀ ds : List Document, (∀ d ∈ ds, Honest env past d) → ∀ v,
      Recorded env past w v → Recorded env past w (ds.foldl (recordEntry env env.settings.notesFolder) v) := by
    intro ds
    induction ds with
    | nil => exact fun _ v hv => hv
    | cons d rest ih =>
      intro hds v hv
      obtain ⟨hd, hrest⟩ := List.forall_mem_cons.1 hds
      exact ih hrest _ (hv.entry hd)
  exact hready _ h _ (hmarks _ _ ((Recorded.refl env past w).forget _))

theorem lawful_clean : Lawful env past w (clean env env.settings.notesFolder w) where
  beside := rfl
  removed key d hd hnone := by
    unfold clean at hnone
    rw [Table.find_adjust, Option.map_eq_none_iff, Table.find_delete, hd] at hnone
    simpa using hnone
  written key d hd := by
    unfold clean at hd
    rw [Table.find_adjust, Option.map_eq_some_iff] at hd
    rcases hd with ⟨old, hold, rfl⟩
    rw [Table.find_delete, Option.filter_eq_some_iff] at hold
    exact Or.inl ⟨old, hold.1, Or.inr rfl⟩
  marked key m hm := Or.inl hm

theorem lawful_effect {site : Site} (h : site.Sound env past) :
    Lawful env past w (effect env site w) := by
  cases site with
  | clean => exact lawful_clean
  | record change => exact (recorded_record h).lawful
  | index d =>
    obtain ⟨hkind, hhonest⟩ := h
    have hsame : effect env (.index d) w = upsertDocument env env.settings.notesFolder w d := by
      obtain ⟨kind, id⟩ := d
      obtain rfl : kind = .artifact := hkind
      rfl
    rw [hsame]
    refine ((Recorded.refl env past w).upsert ?_ hhonest).lawful
    unfold accepts
    rw [hkind]
  | _ => exact Lawful.refl env past w

end Writing

section Runs

/-- The process that catches up, one pass at a time; an event puts any world in place of the
current one, between two steps of a pass too. -/
def serve (env : Env) (scene : Scene Site World Raised Counts Call) (t : Turn Call World) :
    Scene Site World Raised Counts Call :=
  turn (fun next _ => next) (fun _ _ => true) (catchUp env) scene t

/-- The steps that the pass under way has taken, each with the world it found. -/
def taken (env : Env) (w : World) (past : List (Turn Call World)) : Past :=
  (past.foldl (tracedTurn (fun next _ => next) (fun _ _ => true) (catchUp env))
    ((⟨w, none⟩ : Scene Site World Raised Counts Call), [])).2

def sampleEnv : Env where
  settings := ⟨"Notes".toList, "id".toList⟩
  yaml := Notes.plainYaml
  unicode := ⟨id, List.map Char.toUpper, List.map Char.toLower⟩
  py := Notes.plainLibraries.py
  hash := Notes.plainLibraries.hash

def samplePath : PyStr := PyStr.lit "Notes/2026/2026-10/Alpha.md"

def sampleText : Text := "---\nid: n1\nreviewed: true\n---\n# Alpha\nBody.\n".toList

def sampleNote : NoteRow where
  id := PyStr.lit "n1"
  path := samplePath
  contentHash := PyStr.ofText sampleText
  state := .ok
  reviewed := true
  filed := true
  sourceIds := []
  filedSourceIds := []
  date := some ⟨2026, 10, 2⟩

/-- A note that was filed, and nothing in the index. -/
def sampleWorld : World where
  notes := ⟨[sampleNote], List.nodup_singleton _⟩
  sources := .empty
  links := []
  artifacts := .empty
  documents := .empty
  unreadable := .empty
  files := fun path =>
    if path = samplePath then ⟨PyStr.lit "present", .ok (.utf8 sampleText)⟩
    else ⟨PyStr.lit "missing", .error ⟨PyStr.lit "FileNotFoundError", true⟩⟩
  manifests := fun _ => ⟨PyStr.lit "missing", .ok none⟩
  records := fun _ => .ok none

def sampleCall : Call := ⟨fun _ => 0⟩

def sampleDocument : Document :=
  ⟨.note, PyStr.lit "n1", samplePath, PyStr.lit "Alpha", PyStr.lit "# Alpha\nBody.\n",
    PyStr.ofText sampleText⟩

/-- A pass that was killed, and one that has read the note. -/
def sampleTurns : List (Turn Call World) :=
  [.start sampleCall, .resume, .resume, .kill, .start sampleCall] ++ List.replicate 7 .resume

end Runs

end Coppermind.Search
