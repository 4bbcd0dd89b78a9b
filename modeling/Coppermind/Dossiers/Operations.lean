import Mathlib.Data.List.Dedup
import Coppermind.Dossiers.Sound

/-!
# What the operations do to identities

One statement for each operation on the ledger in memory: it keeps a good draft good. The migration
of contact corrections does where the merges it is about to make settle, and a purge where the
dossiers it restores share no address with others that stay.
-/

namespace Coppermind.Dossiers

open scoped Coppermind.Lib.Bounded
open Coppermind.Lib Coppermind.Lib.Text Coppermind.Frontmatter
open Coppermind.Notes (Instant FileBytes)

section Contributions

variable {env : Env} {fields : List Text} {paths : Text → Option Text} {now : Instant}
  {reading r : Reading}

/-- A mention changes no dossier. -/
theorem mention_draft {id : Text} (h : mention reading id = .ok r) : r.draft = reading.draft := by
  unfold mention at h
  cases hresolve : resolve reading.draft.ledger id with
  | error e =>
    rw [hresolve] at h
    cases h
  | ok found =>
    rw [hresolve] at h
    cases found with
    | none =>
      obtain rfl := Except.ok.inj h
      rfl
    | some id =>
      simp only at h
      cases hfind : reading.draft.ledger.find? id with
      | none =>
        rw [hfind] at h
        obtain rfl := Except.ok.inj h
        rfl
      | some entity =>
        rw [hfind] at h
        simp only at h
        split at h <;> (obtain rfl := Except.ok.inj h; rfl)

theorem readValue_grown {key value : Text} (hgood : Good env reading.draft)
    (h : readValue env fields paths key reading value = .ok r) :
    Grown env reading.draft r.draft := by
  have hsame : ∀ {reading' : Reading}, reading'.draft = reading.draft →
      Grown env reading.draft reading'.draft := by
    intro reading' heq
    rw [heq]
    exact hgood.grown
  unfold readValue at h
  cases hlink : linkTarget value with
  | some path =>
    rw [hlink] at h
    simp only at h
    cases hpath : paths path with
    | none =>
      rw [hpath] at h
      obtain rfl := Except.ok.inj h
      exact hsame rfl
    | some id =>
      rw [hpath] at h
      exact hsame (mention_draft h)
  | none =>
    rw [hlink] at h
    simp only at h
    by_cases hkey : key ∈ fields
    · rw [if_pos hkey] at h
      cases hemail : email env value with
      | none =>
        rw [hemail] at h
        obtain rfl := Except.ok.inj h
        exact hsame rfl
      | some address =>
        rw [hemail] at h
        simp only at h
        cases hindex : reading.index address with
        | some id =>
          rw [hindex] at h
          exact hsame (mention_draft h)
        | none =>
          rw [hindex] at h
          simp only at h
          by_cases hsuppressed : env.digestText address ∈ reading.draft.ledger.suppressed
          · rw [if_pos hsuppressed] at h
            obtain rfl := Except.ok.inj h
            exact hsame rfl
          · rw [if_neg hsuppressed] at h
            cases hinput : entityInput? .person address [] [address] with
            | none =>
              rw [hinput] at h
              cases h
            | some request =>
              rw [hinput] at h
              simp only at h
              cases hmake : make env reading.draft request true with
              | error e =>
                rw [hmake] at h
                cases h
              | ok made =>
                obtain ⟨draft, id⟩ := made
                rw [hmake] at h
                rw [mention_draft h]
                exact (make_ok hgood hmake).1
    · rw [if_neg hkey] at h
      obtain rfl := Except.ok.inj h
      exact hsame rfl

theorem readKey_grown {entry : Value × Value} (hgood : Good env reading.draft)
    (h : readKey env fields paths reading entry = .ok r) : Grown env reading.draft r.draft := by
  unfold readKey at h
  split at h
  · apply foldlM_invariant (P := fun s : Reading => Grown env reading.draft s.draft) ?_ hgood.grown h
    intro s item s' hs hitem
    split at hitem
    · exact hs.trans (readValue_grown hs.2 hitem)
    · obtain rfl := Except.ok.inj hitem
      exact hs
  · obtain rfl := Except.ok.inj h
    exact hgood.grown

theorem addFact_core (fact : Fact) (e : Entity) : core (addFact fact e) = core e := by
  unfold addFact
  split <;> rfl

theorem contributeNote_grown {state state' : Draft × (Text → Option Text)} {note : NoteRef}
    (hgood : Good env state.1) (h : contributeNote env fields paths now state note = .ok state') :
    Grown env state.1 state'.1 := by
  unfold contributeNote at h
  cases hread : note.frontmatter.foldlM (readKey env fields paths) ⟨state.1, state.2, []⟩ with
  | error e =>
    rw [hread] at h
    cases h
  | ok reading =>
    rw [hread] at h
    obtain rfl := Except.ok.inj h
    have hread' : Grown env state.1 reading.draft := by
      apply foldlM_invariant (P := fun s : Reading => Grown env state.1 s.draft) ?_ hgood.grown hread
      intro s entry s' hs hentry
      exact hs.trans (readKey_grown hs.2 hentry)
    have hcore : (reading.mentions.foldl (fun ledger id =>
        ledger.modify id (addFact (mentioned env note id now))) reading.draft.ledger).entities.map core =
          reading.draft.ledger.entities.map core := by
      refine List.foldlRecOn (motive := fun l : Ledger =>
        l.entities.map core = reading.draft.ledger.entities.map core) reading.mentions _ rfl ?_
      intro l hl id _
      exact (modify_core (addFact_core _)).trans hl
    exact hread'.trans (hread'.2.of_core (Nat.le_refl _) hcore)

/-- **What notes contribute**: automatic dossiers, under addresses nobody had. -/
theorem contribute_grown {notes : List NoteRef} {d d' : Draft} (hgood : Good env d)
    (h : contribute env fields notes now d = .ok d') : Grown env d d' := by
  unfold contribute at h
  simp only at h
  cases hread : notes.foldlM (contributeNote env fields (byPath d.ledger) now)
      (d, byEmail d.ledger) with
  | error e =>
    rw [hread] at h
    cases h
  | ok state =>
    rw [hread] at h
    obtain rfl := Except.ok.inj h
    have hread' : Grown env d state.1 := by
      apply foldlM_invariant (P := fun s : Draft × (Text → Option Text) => Grown env d s.1) ?_
        hgood.grown hread
      intro s note s' hs hnote
      exact hs.trans (contributeNote_grown hs.2 hnote)
    exact hread'.trans (hread'.2.of_core (Nat.le_refl _) (map_core fun _ _ => rfl))

end Contributions

@[simp] theorem mem_sortedSet {values : List Text} {a : Text} : a ∈ sortedSet values ↔ a ∈ values := by
  rw [sortedSet, List.mem_insertionSort, List.mem_dedup]

section Migration

variable {env : Env} {l l' l'' : Ledger}

/-- The addresses of the dossiers under an identifier. -/
def emailsOf (l : Ledger) (id : Text) : Set Text := {a | ∃ e ∈ l.entities, e.id = id ∧ a ∈ e.emails}

/-- The merge of one contact's dossier into another's, if a correction is not migrated yet. -/
def migratedPair (env : Env) (migrated : List Text) (index : Text → Option Text)
    (addresses : Text → List Text) (entry : Text × ContactCorrection) : Option (Text × Text) :=
  if correctionKey env entry.1 entry.2 ∈ migrated then none
  else
    match correctionPair index addresses entry.1 entry.2 with
    | some (entityId, some targetId) => some (entityId, targetId)
    | _ => none

/-- The merges a migration is about to make, by the addresses as they are before it. -/
def merges (env : Env) (corrections : List (Text × ContactCorrection))
    (addresses : Text → List Text) (l : Ledger) : List (Text × Text) :=
  corrections.filterMap
    (migratedPair env (l.receipts.filterMap (·.legacy)) (byEmail l) addresses)

/-- Dossiers were merged pair after pair. -/
structure Merged (pairs : List (Text × Text)) (l l' : Ledger) : Prop where
  ids : l'.entities.map (·.id) = l.entities.map (·.id)
  next : l'.next = Redirects.point l.next pairs
  emails : emailsOf l' = Redirects.hand (emailsOf l) pairs

theorem emailsOf_of_core (h : l'.entities.map core = l.entities.map core) :
    emailsOf l' = emailsOf l := by
  have hsub : ∀ {l₁ l₂ : Ledger}, l₁.entities.map core = l₂.entities.map core →
      ∀ id a, a ∈ emailsOf l₁ id → a ∈ emailsOf l₂ id := by
    intro l₁ l₂ hcore id a ha
    obtain ⟨e, he, rfl, hae⟩ := ha
    obtain ⟨f, hf, hcore'⟩ := exists_core hcore he
    have hemails : f.emails = e.emails := congrArg (·.2.1) hcore'
    exact ⟨f, hf, congrArg (·.1) hcore', hemails ▸ hae⟩
  funext id
  ext a
  exact ⟨hsub h id a, hsub h.symm id a⟩

theorem Merged.of_core (h : l'.entities.map core = l.entities.map core) : Merged [] l l' where
  ids := map_id_of_core h
  next := by
    funext id
    rw [next_eq_cores, h, ← next_eq_cores]
    rfl
  emails := emailsOf_of_core h

theorem Merged.trans {pairs pairs' : List (Text × Text)} (h : Merged pairs l l')
    (h' : Merged pairs' l' l'') : Merged (pairs ++ pairs') l l'' where
  ids := h'.ids.trans h.ids
  next := by
    rw [h'.next, h.next, Redirects.point, Redirects.point, Redirects.point, List.foldl_append]
  emails := by
    rw [h'.emails, h.emails, Redirects.hand, Redirects.hand, Redirects.hand, List.foldl_append]

theorem emailsOf_modify {id : Text} {f : Entity → Entity} (hf : ∀ e, (f e).id = e.id) (z : Text) :
    emailsOf (l.modify id f) z =
      if z = id then {a | ∃ e ∈ l.entities, e.id = id ∧ a ∈ (f e).emails} else emailsOf l z := by
  ext a
  constructor
  · rintro ⟨e, he, rfl, ha⟩
    obtain ⟨x, hx, rfl⟩ := mem_modify he
    by_cases hxi : x.id = id
    · rw [if_pos hxi] at ha ⊢
      rw [hf, if_pos hxi]
      exact ⟨x, hx, hxi, ha⟩
    · rw [if_neg hxi] at ha ⊢
      rw [if_neg hxi]
      exact ⟨x, hx, rfl, ha⟩
  · intro ha
    by_cases hz : z = id
    · rw [if_pos hz] at ha
      obtain ⟨x, hx, hxi, ha⟩ := ha
      refine ⟨f x, ?_, (hf x).trans (hxi.trans hz.symm), ha⟩
      exact List.mem_map.2 ⟨x, hx, by rw [if_pos hxi]⟩
    · rw [if_neg hz] at ha
      obtain ⟨x, hx, hxz, ha⟩ := ha
      refine ⟨x, List.mem_map.2 ⟨x, hx, ?_⟩, hxz, ha⟩
      rw [if_neg (by rw [hxz]; exact hz)]

/-- **One merge**: the dossier redirects to the other one, which takes over its addresses. -/
theorem mergeInto_merged (hdistinct : (l.entities.map (·.id)).Nodup) {e t : Text}
    (he : e ∈ l.entities.map (·.id)) (ht : t ∈ l.entities.map (·.id)) (hne : t ≠ e) :
    Merged [(e, t)] l (mergeInto e t l) := by
  obtain ⟨entity, hentity, rfl⟩ := List.mem_map.1 he
  have hfind := find?_of_mem hdistinct hentity
  unfold mergeInto
  rw [hfind]
  simp only
  let f : Entity → Entity := fun target =>
    { target with
      emails := sortedSet (target.emails ++ entity.emails)
      aliases := sortedSet (target.aliases ++ entity.aliases ++ [entity.name])
      facts := target.facts ++ entity.facts
      version := target.version + 1 }
  have hid : ∀ x, (f x).id = x.id := fun _ => rfl
  change Merged _ l ((l.modify t f).modify entity.id (·.redirectTo t))
  have hids : (l.modify t f).entities.map (·.id) = l.entities.map (·.id) := modify_ids hid
  have hmem : entity ∈ (l.modify t f).entities := by
    refine List.mem_map.2 ⟨entity, hentity, ?_⟩
    rw [if_neg (Ne.symm hne)]
  constructor
  · rw [modify_ids (redirectTo_id t), hids]
  · rw [next_redirectTo (hids ▸ hdistinct) hmem, next_of_redirect hid fun _ => rfl]
    rfl
  · funext z
    change emailsOf _ z = Function.update (emailsOf l) t (emailsOf l t ∪ emailsOf l entity.id) z
    have hsame : emailsOf ((l.modify t f).modify entity.id (·.redirectTo t)) z =
        emailsOf (l.modify t f) z := by
      rw [emailsOf_modify (redirectTo_id t)]
      split
      · next hz =>
        rw [hz]
        rfl
      · rfl
    rw [hsame, emailsOf_modify hid]
    by_cases hz : z = t
    · rw [if_pos hz, hz, Function.update_self]
      ext a
      simp only [f, Set.mem_ofPred_eq, mem_sortedSet, List.mem_append, Set.mem_union, emailsOf]
      constructor
      · rintro ⟨e, he, hid, ha | ha⟩
        · exact Or.inl ⟨e, he, hid, ha⟩
        · exact Or.inr ⟨entity, hentity, rfl, ha⟩
      · rintro (⟨e, he, hid, ha⟩ | ⟨e, he, hid, ha⟩)
        · exact ⟨e, he, hid, Or.inl ha⟩
        · obtain ⟨e', he', hid'⟩ := List.mem_map.1 ht
          obtain rfl := List.inj_on_of_nodup_map hdistinct he hentity hid
          exact ⟨e', he', hid', Or.inr ha⟩
    · rw [if_neg hz, Function.update_of_ne hz]

/-- A dossier an address names is no redirect. -/
theorem byEmail_root (hdistinct : (l.entities.map (·.id)).Nodup) {address id : Text}
    (h : byEmail l address = some id) : id ∈ l.entities.map (·.id) ∧ l.next id = none := by
  obtain ⟨e, he, rfl⟩ := Option.map_eq_some_iff.1 h
  obtain ⟨hmem, hroot⟩ := List.mem_filter.1 (List.mem_of_getLast? he)
  simp only [Bool.and_eq_true, Option.isNone_iff_eq_none] at hroot
  refine ⟨List.mem_map_of_mem hmem, ?_⟩
  unfold Ledger.next
  rw [find?_of_mem hdistinct hmem]
  exact hroot.1

theorem matched_mem {index : Text → Option Text} {addresses : List Text} {id : Text}
    (h : id ∈ matched index addresses) : ∃ address, index address = some id := by
  obtain ⟨address, -, hindex⟩ := List.mem_filterMap.1 (List.mem_dedup.1 h)
  exact ⟨address, hindex⟩

/-- The dossiers of a correction are ones that the index names, and two of them. -/
theorem correctionPair_index {index : Text → Option Text} {addresses : Text → List Text}
    {contactId e t : Text} {correction : ContactCorrection}
    (h : correctionPair index addresses contactId correction = some (e, some t)) :
    (∃ a, index a = some e) ∧ (∃ a, index a = some t) ∧ t ≠ e := by
  unfold correctionPair at h
  split at h
  · next entityId hentity =>
    have hindex := matched_mem (by rw [hentity]; exact List.mem_singleton_self entityId)
    split at h
    · cases h
    · split at h
      · next targetId htarget =>
        have htarget' := matched_mem (by rw [htarget]; exact List.mem_singleton_self targetId)
        by_cases hsame : targetId = entityId
        · rw [if_pos hsame] at h
          cases h
        · rw [if_neg hsame] at h
          cases h
          exact ⟨hindex, htarget', hsame⟩
      · cases h
  · cases h

theorem migratedPair_index {migrated : List Text} {index : Text → Option Text}
    {addresses : Text → List Text} {entry : Text × ContactCorrection} {e t : Text}
    (h : migratedPair env migrated index addresses entry = some (e, t)) :
    (∃ a, index a = some e) ∧ (∃ a, index a = some t) ∧ t ≠ e := by
  unfold migratedPair at h
  split at h
  · cases h
  · split at h
    · next hpair =>
      cases h
      exact correctionPair_index hpair
    · cases h

/-- What a contact correction does to identities. -/
theorem migrateCorrection_merged {migrated : List Text} {index : Text → Option Text}
    {addresses : Text → List Text} {now : Instant} {entry : Text × ContactCorrection}
    (hdistinct : (l.entities.map (·.id)).Nodup)
    (hindex : ∀ a id, index a = some id → id ∈ l.entities.map (·.id)) :
    Merged (migratedPair env migrated index addresses entry).toList l
      (migrateCorrection env migrated index addresses now l entry) := by
  obtain ⟨contactId, correction⟩ := entry
  cases hpair : migratedPair env migrated index addresses (contactId, correction) with
  | none =>
    apply Merged.of_core
    unfold migratedPair at hpair
    unfold migrateCorrection
    simp only at hpair ⊢
    split at hpair
    · next hdone => rw [if_pos hdone]
    · next hdone =>
      rw [if_neg hdone]
      cases hcorrection : correctionPair index addresses contactId correction with
      | none => rfl
      | some found =>
        obtain ⟨entityId, target⟩ := found
        cases target with
        | some targetId =>
          rw [hcorrection] at hpair
          cases hpair
        | none =>
          simp only
          apply (receipt_core _ _ _ _).trans
          split
          · rfl
          · exact modify_core fun _ => rfl
  | some pair =>
    obtain ⟨e, t⟩ := pair
    obtain ⟨⟨a, ha⟩, ⟨b, hb⟩, hne⟩ := migratedPair_index hpair
    unfold migratedPair at hpair
    unfold migrateCorrection
    simp only at hpair ⊢
    split at hpair
    · cases hpair
    · next hdone =>
      rw [if_neg hdone]
      split at hpair
      · next entityId targetId hcorrection =>
        cases hpair
        rw [hcorrection]
        simp only [Option.toList_some]
        have hnamed : ∀ n : Text, (if n = [] then l else
            l.modify e fun entity => { entity with name := n }).entities.map core =
              l.entities.map core := by
          intro n
          split
          · rfl
          · exact modify_core fun _ => rfl
        have hids := map_id_of_core (hnamed correction.name)
        have hmerged := mergeInto_merged (hids ▸ hdistinct) (hids ▸ hindex a e ha)
          (hids ▸ hindex b t hb) hne
        exact (Merged.of_core (hnamed _)).trans
          (hmerged.trans (.of_core (receipt_core _ _ _ _)))
      · cases hpair

/-- **The migration** merges the pairs of its corrections, one after another. -/
theorem migrate_merged {legacy : List (Text × Option Text)}
    {corrections : List (Text × ContactCorrection)} {addresses : Text → List Text} {now : Instant}
    (hdistinct : (l.entities.map (·.id)).Nodup) :
    Merged (merges env corrections addresses l) l
      (migrate env legacy corrections addresses now l) := by
  unfold migrate merges
  simp only
  generalize l.receipts.filterMap (·.legacy) = migrated
  have hindex : ∀ a id, byEmail l a = some id → id ∈ l.entities.map (·.id) := by
    intro a id h
    exact (byEmail_root hdistinct h).1
  generalize byEmail l = index at hindex ⊢
  have hlegacy : (legacy.foldl (migrateLegacy migrated index) l).entities = l.entities := by
    refine List.foldlRecOn (motive := fun l' : Ledger => l'.entities = l.entities) legacy _ rfl ?_
    intro l' hl' entry _
    rw [← hl']
    unfold migrateLegacy
    split
    · rfl
    · split <;> rfl
  have hcore : Merged [] l (legacy.foldl (migrateLegacy migrated index) l) :=
    .of_core (by rw [hlegacy])
  generalize legacy.foldl (migrateLegacy migrated index) l = start at hcore
  -- The induction is over the corrections, from any ledger with the dossiers of the first one.
  have hrun : ∀ (entries : List (Text × ContactCorrection)) (from_ : Ledger),
      from_.entities.map (·.id) = l.entities.map (·.id) →
        Merged (entries.filterMap (migratedPair env migrated index addresses)) from_
          (entries.foldl (migrateCorrection env migrated index addresses now) from_) := by
    intro entries
    induction entries with
    | nil => exact fun from_ _ => .of_core rfl
    | cons entry entries ih =>
      intro from_ hids
      have hstep := @migrateCorrection_merged env _ migrated _ addresses now entry (hids ▸ hdistinct)
        (fun a id h => hids ▸ hindex a id h)
      have hrest := hstep.trans (ih _ (hstep.ids.trans hids))
      rw [List.foldl_cons, List.filterMap_cons]
      cases hpair : migratedPair env migrated index addresses entry with
      | none =>
        rw [hpair] at hrest
        exact hrest
      | some pair =>
        rw [hpair] at hrest
        exact hrest
  exact hcore.trans (hrun corrections start hcore.ids)

/-- **Merges that settle** keep identities sound. -/
theorem Sound.pointed {pairs : List (Text × Text)} (hl : Sound l) (hmerged : Merged pairs l l')
    (hroots : ∀ p ∈ pairs, l.next p.1 = none ∧ l.next p.2 = none)
    (hids : ∀ p ∈ pairs, p.2 ∈ l.entities.map (·.id)) (hsettles : Redirects.Settles pairs) :
    Sound l' where
  distinct := by
    rw [hmerged.ids]
    exact hl.distinct
  named := by
    intro e he t ht
    have hdistinct : (l'.entities.map (·.id)).Nodup := hmerged.ids ▸ hl.distinct
    have hnext : l'.next e.id = some t := by
      unfold Ledger.next
      rw [find?_of_mem hdistinct he]
      exact ht
    rw [hmerged.next] at hnext
    rw [hmerged.ids]
    by_cases hsource : e.id ∈ Redirects.sources pairs
    · obtain ⟨p, hp, -, hpoint⟩ := Redirects.point_of_mem hsource
      rw [hpoint] at hnext
      obtain rfl := Option.some.inj hnext
      exact hids p hp
    · rw [Redirects.point_of_not_mem hsource] at hnext
      obtain ⟨f, hf, hft⟩ := Option.bind_eq_some_iff.1 hnext
      exact hl.named f (find?_eq_some hf).1 t hft
  ends := by
    intro id
    rw [hmerged.next]
    exact (hl.ends id).point hroots hsettles
  exclusive := by
    have hdistinct : (l'.entities.map (·.id)).Nodup := hmerged.ids ▸ hl.distinct
    -- What a root has came from a root, which is one before the merges.
    have horigin : ∀ e ∈ l'.entities, e.redirect = none → ∀ a ∈ e.emails,
        e.id ∉ Redirects.sources pairs ∧ ∃ x ∈ l.entities, x.redirect = none ∧ a ∈ x.emails ∧
          Redirects.reaches pairs x.id e.id = true := by
      intro e he hre a ha
      have hnext : l'.next e.id = none := by
        unfold Ledger.next
        rw [find?_of_mem hdistinct he]
        exact hre
      rw [hmerged.next] at hnext
      have hsource : e.id ∉ Redirects.sources pairs := by
        intro hsource
        obtain ⟨p, -, -, hpoint⟩ := Redirects.point_of_mem hsource
        rw [hpoint] at hnext
        cases hnext
      rw [Redirects.point_of_not_mem hsource] at hnext
      have hhas : a ∈ emailsOf l' e.id := ⟨e, he, rfl, ha⟩
      rw [hmerged.emails] at hhas
      obtain ⟨id, ⟨x, hx, rfl, hax⟩, hreach⟩ := Redirects.mem_hand.1 hhas
      refine ⟨hsource, x, hx, ?_, hax, hreach⟩
      have hroot : l.next x.id = none := by
        by_cases hxs : x.id ∈ Redirects.sources pairs
        · obtain ⟨p, hp, hpx⟩ := List.mem_map.1 hxs
          rw [← hpx]
          exact (hroots p hp).1
        · rw [Redirects.reaches_of_not_mem hxs hreach]
          exact hnext
      unfold Ledger.next at hroot
      rwa [find?_of_mem hl.distinct hx] at hroot
    intro e he f hf hre hrf a hae haf
    obtain ⟨hes, x, hx, hrx, hax, hxe⟩ := horigin e he hre a hae
    obtain ⟨hfs, y, hy, hry, hay, hyf⟩ := horigin f hf hrf a haf
    have hxy := hl.exclusive x hx y hy hrx hry a hax hay
    rw [← hxy] at hyf
    exact hsettles.one hes hfs hxe hyf

/-- The dossiers that a migration is about to merge are roots, and the first of a pair has an
address. -/
theorem merges_roots {corrections : List (Text × ContactCorrection)}
    {addresses : Text → List Text} (hdistinct : (l.entities.map (·.id)).Nodup) {p : Text × Text}
    (hp : p ∈ merges env corrections addresses l) :
    (l.next p.1 = none ∧ l.next p.2 = none) ∧ p.2 ∈ l.entities.map (·.id) ∧
      ∃ a, a ∈ emailsOf l p.1 := by
  obtain ⟨entry, -, hentry⟩ := List.mem_filterMap.1 hp
  obtain ⟨⟨a, ha⟩, ⟨b, hb⟩, -⟩ := migratedPair_index hentry
  have hroot := byEmail_root hdistinct hb
  refine ⟨⟨(byEmail_root hdistinct ha).2, hroot.2⟩, hroot.1, a, ?_⟩
  obtain ⟨e, he, heid⟩ := Option.map_eq_some_iff.1 ha
  obtain ⟨hmem, hhas⟩ := List.mem_filter.1 (List.mem_of_getLast? he)
  simp only [Bool.and_eq_true, decide_eq_true_eq] at hhas
  exact ⟨e, hmem, heid, hhas.2⟩

/-- Merges after which identities are sound settle. -/
theorem settles_of_sound {pairs : List (Text × Text)} (hmerged : Merged pairs l l')
    (hroots : ∀ p ∈ pairs, l.next p.1 = none ∧ l.next p.2 = none)
    (haddress : ∀ p ∈ pairs, ∃ a, a ∈ emailsOf l p.1) (hl' : Sound l') :
    Redirects.Settles pairs where
  ends := by
    intro p hp
    apply @Redirects.follow_of_ends _ l.next _ _ ?_ p.1
    intro x
    rw [← hmerged.next]
    exact hl'.ends x
  single := by
    intro p hp q hq r hr hqs hrs hpq hpr
    obtain ⟨a, ha⟩ := haddress p hp
    have hroot : ∀ z ∈ pairs, z.2 ∉ Redirects.sources pairs →
        Redirects.reaches pairs p.1 z.2 = true →
        ∃ e ∈ l'.entities, e.id = z.2 ∧ e.redirect = none ∧ a ∈ e.emails := by
      intro z hz hzs hpz
      have hhas : a ∈ emailsOf l' z.2 := by
        rw [hmerged.emails]
        exact Redirects.mem_hand.2 ⟨p.1, ha, hpz⟩
      obtain ⟨e, he, heid, hae⟩ := hhas
      refine ⟨e, he, heid, ?_, hae⟩
      have hnext : l'.next e.id = none := by
        rw [heid, hmerged.next, Redirects.point_of_not_mem hzs]
        exact (hroots z hz).2
      unfold Ledger.next at hnext
      rwa [find?_of_mem hl'.distinct he] at hnext
    obtain ⟨e, he, heq, hre, hae⟩ := hroot q hq hqs hpq
    obtain ⟨f, hf, hfr, hrf, haf⟩ := hroot r hr hrs hpr
    rw [← heq, ← hfr]
    exact hl'.exclusive e he f hf hre hrf a hae haf

/-- **Exactly the merges that settle** leave identities sound. -/
theorem migrate_sound_iff {legacy : List (Text × Option Text)}
    {corrections : List (Text × ContactCorrection)} {addresses : Text → List Text} {now : Instant}
    (hl : Sound l) :
    Sound (migrate env legacy corrections addresses now l) ↔
      Redirects.Settles (merges env corrections addresses l) := by
  have hmerged := @migrate_merged env _ legacy corrections addresses now hl.distinct
  have hroots := fun p (hp : p ∈ merges env corrections addresses l) =>
    merges_roots hl.distinct hp
  constructor
  · exact settles_of_sound hmerged (fun p hp => (hroots p hp).1) fun p hp => (hroots p hp).2.2
  · exact hl.pointed hmerged (fun p hp => (hroots p hp).1) fun p hp => (hroots p hp).2.1

/-- **A migration whose merges settle** keeps a good draft good. -/
theorem migrate_grown {legacy : List (Text × Option Text)}
    {corrections : List (Text × ContactCorrection)} {addresses : Text → List Text} {now : Instant}
    {d : Draft} (hgood : Good env d)
    (hsettles : Redirects.Settles (merges env corrections addresses d.ledger)) :
    Grown env d { d with ledger := migrate env legacy corrections addresses now d.ledger } :=
  hgood.of_sound ((migrate_sound_iff hgood.sound).2 hsettles)
    (migrate_merged hgood.sound.distinct).ids

end Migration

section Requests

variable {env : Env} {d d' : Draft} {entity : Entity} {request : EntityChange} {now : Instant}

theorem withdrawAt_core (index : Nat) (e : Entity) : core (withdrawAt index e) = core e := rfl

theorem correction_core {predicate value : Text} {raw : FileBytes} {previous : Option Nat}
    {target : Option Text} {drawn : Nat} (e : Entity) :
    core (correction env e predicate value raw previous target drawn now) = core e := by
  cases previous <;> rfl

/-- New addresses are ones that no other dossier has. -/
theorem changeAliases_sound {l l' : Ledger} (hl : Sound l)
    (h : changeAliases env l entity request = .ok l') :
    Sound l' ∧ l'.entities.map (·.id) = l.entities.map (·.id) := by
  unfold changeAliases at h
  split at h
  · cases h
  · next candidate _ =>
    simp only at h
    cases haddresses : candidate.emails.mapM (email env) with
    | none =>
      rw [haddresses] at h
      cases h
    | some addresses =>
      rw [haddresses] at h
      simp only at h
      split at h
      · cases h
      · next hfree =>
        obtain rfl := Except.ok.inj h
        refine ⟨hl.emails (fun _ => rfl) (fun _ => rfl) ?_, modify_ids fun _ => rfl⟩
        intro e he heid hre g hg hge hrg a ha hag
        apply hfree
        rw [List.any_eq_true]
        refine ⟨g, hg, ?_⟩
        simp only [Bool.and_eq_true, decide_eq_true_eq, List.any_eq_true]
        exact ⟨⟨hge, by rw [hrg]; rfl⟩, a, ha, hag⟩

theorem changeClaim_grown {getNote : Text → Except Raised NoteDocument} (hgood : Good env d)
    (h : changeClaim env d entity request getNote now = .ok d') : Grown env d d' := by
  unfold changeClaim at h
  split at h
  · cases h
  · split at h
    · cases h
    · split at h
      · cases h
      · split at h
        · cases h
        · obtain rfl := Except.ok.inj h
          apply hgood.modify ?_ (Nat.le_succ _)
          exact fun _ => rfl

/-- **The actions on one dossier**. -/
theorem changeOne_grown {getNote : Text → Except Raised NoteDocument} {pageExists : Bool}
    (hgood : Good env d)
    (h : changeOne env d entity request getNote pageExists now = .ok d') : Grown env d d' := by
  unfold changeOne at h
  simp only at h
  split at h
  · cases h
  · split at h
    · cases h
    · split at h
      · split at h
        · cases h
        · obtain rfl := Except.ok.inj h
          apply hgood.modify ?_ (Nat.le_refl _)
          exact fun _ => rfl
      · cases haliases : changeAliases env d.ledger entity request with
        | error e =>
          rw [haliases] at h
          cases h
        | ok l =>
          rw [haliases] at h
          obtain rfl := Except.ok.inj h
          obtain ⟨hsound, hids⟩ := changeAliases_sound hgood.sound haliases
          exact hgood.of_sound hsound hids
      · exact changeClaim_grown hgood h
      · obtain rfl := Except.ok.inj h
        exact hgood.modify correction_core (Nat.le_succ _)
      · obtain rfl := Except.ok.inj h
        exact hgood.modify (withdrawAt_core _) (Nat.le_refl _)
      · obtain rfl := Except.ok.inj h
        apply hgood.modify ?_ (Nat.le_refl _)
        exact fun _ => rfl
      · split at h
        · cases h
        · obtain rfl := Except.ok.inj h
          apply hgood.modify ?_ (Nat.le_refl _)
          exact fun _ => rfl
      · obtain rfl := Except.ok.inj h
        exact hgood.grown

/-- **A merge** of two dossiers that are no redirects. -/
theorem merge_grown {target : Entity} (hgood : Good env d) (he : entity ∈ d.ledger.entities)
    (ht : target ∈ d.ledger.entities) (hne : target.id ≠ entity.id)
    (hre : entity.redirect = none) (hrt : target.redirect = none) :
    Grown env d { d with ledger := merge entity target d.ledger } := by
  let f : Entity → Entity := fun e =>
    { e with
      facts := entity.facts.foldl mergeFact e.facts
      aliases := sortedSet (e.aliases ++ entity.aliases ++ [entity.name])
      emails := sortedSet (e.emails ++ entity.emails) }
  have hid : ∀ x, (f x).id = x.id := fun _ => rfl
  have hsound : Sound ((d.ledger.modify target.id f).modify entity.id (·.redirectTo target.id)) := by
    apply hgood.sound.merged he ht hne hre hrt hid fun _ => rfl
    intro a ha
    exact List.mem_append.1 (mem_sortedSet.1 ha)
  have hids : ((d.ledger.modify target.id f).modify entity.id
      (·.redirectTo target.id)).entities.map (·.id) = d.ledger.entities.map (·.id) := by
    rw [modify_ids (redirectTo_id _), modify_ids hid]
  have hmerged := hgood.of_sound hsound hids
  exact hmerged.trans (hmerged.2.of_core (Nat.le_refl _) (map_core fun _ _ => rfl))

/-- **A split** of facts, and addresses with them, off a dossier that is no redirect. -/
theorem split_grown {id : Text} (hgood : Good env d) (he : entity ∈ d.ledger.entities)
    (hre : entity.redirect = none) (h : split env d entity request = .ok (d', id)) :
    Grown env d d' := by
  unfold split at h
  split at h
  · cases h
  · next input _ =>
    cases hmake : make env d input false with
    | error e =>
      rw [hmake] at h
      cases h
    | ok made =>
      obtain ⟨⟨l₁, drawn⟩, targetId⟩ := made
      rw [hmake] at h
      simp only at h
      obtain ⟨hmade, htarget, new, hentities, hnew, -, -⟩ := make_ok hgood hmake
      generalize hl₂ : (l₁.modify targetId fun e =>
        { e with facts := e.facts ++ entity.facts.filter fun fact => fact.id ∈ request.factIds }).modify
          entity.id (fun e =>
            { e with
              facts := e.facts.map fun fact =>
                if fact.id ∈ request.factIds then withdrawn fact else fact }) = l₂ at h
      have hcore : l₂.entities.map core = l₁.entities.map core := by
        rw [← hl₂, modify_core, modify_core]
        · exact fun _ => rfl
        · exact fun _ => rfl
      have hfacts : Grown env ⟨l₁, drawn⟩ ⟨l₂, drawn⟩ := hmade.2.of_core (Nat.le_refl _) hcore
      split at h
      · obtain ⟨rfl, rfl⟩ := Prod.mk.inj (Except.ok.inj h)
        exact hmade.trans hfacts
      · split at h
        · cases h
        · next hsubset =>
          obtain ⟨rfl, rfl⟩ := Prod.mk.inj (Except.ok.inj h)
          have hmem : entity ∈ l₁.entities := by
            rw [hentities]
            exact List.mem_append_left _ he
          obtain ⟨x, hx, hxcore⟩ := exists_core hcore.symm hmem
          have hxid : x.id = entity.id := congrArg (·.1) hxcore
          have hxemails : x.emails = entity.emails := congrArg (·.2.1) hxcore
          have hxredirect : x.redirect = none := (congrArg (·.2.2) hxcore).trans hre
          have hne : new.id ≠ x.id := by
            rw [hxid, hnew, htarget]
            exact (hgood.fresh entity he).symm
          refine (hmade.trans hfacts).trans (hfacts.2.of_sound ?_ ?_)
          · rw [← hnew, ← hxid]
            apply hfacts.2.sound.moved hx hne hxredirect
            · exact fun _ => rfl
            · exact fun _ => rfl
            · exact fun _ => rfl
            · exact fun _ => rfl
            · intro _ a ha
              rw [hxemails]
              exact not_not.1 hsubset (mem_sortedSet.1 ha)
            · intro a ha
              obtain ⟨hmem, hnot⟩ := List.mem_filter.1 ha
              exact ⟨hmem, fun _ ha => of_decide_eq_true hnot (mem_sortedSet.1 ha)⟩
          · rw [modify_ids, modify_ids]
            · exact fun _ => rfl
            · exact fun _ => rfl

/-- **Merges and splits**, their previews apart. -/
theorem identity_grown (hgood : Good env d) (he : entity ∈ d.ledger.entities)
    (hre : entity.redirect = none)
    (h : identity env d entity request now = .ok (some d')) : Grown env d d' := by
  have hfinish : ∀ {d₁ : Draft} {targetId : Text} {details details' : Receipt}, Grown env d d₁ →
      Grown env d { d₁ with
        ledger := (d₁.ledger.receipt entity.id request.action.name now details).receipt
          targetId request.action.name now details' } := by
    intro d₁ targetId details details' hgrown
    exact (hgrown.receipt _ _ _ _).receipt _ _ _ _
  unfold identity at h
  simp only at h
  split at h
  · cases h
  · next htarget =>
    split at h
    · cases h
    · split at h
      · cases h
      · split at h
        · cases h
        · split at h
          · cases hsplit : split env d entity request with
            | error e =>
              rw [hsplit] at h
              cases h
            | ok made =>
              obtain ⟨d₁, targetId⟩ := made
              rw [hsplit] at h
              obtain rfl := Option.some.inj (Except.ok.inj h)
              exact hfinish (split_grown hgood he hre hsplit)
          · next hsplitting =>
            cases hfind : d.ledger.find? (request.target.getD []) with
            | none =>
              rw [hfind] at h
              cases h
            | some target =>
              rw [hfind] at h htarget
              obtain rfl := Option.some.inj (Except.ok.inj h)
              have hactive : target.id ≠ entity.id ∧ target.redirect = none := by
                simp only [Bool.not_eq_true] at hsplitting
                simp only [hsplitting, Bool.not_false, Bool.true_and, Option.any_some,
                  Bool.not_eq_true', Bool.not_eq_false, Bool.and_eq_true, decide_eq_true_eq,
                  Option.isNone_iff_eq_none] at htarget
                exact ⟨htarget.1.1.1, htarget.1.2⟩
              exact hfinish
                (merge_grown hgood he (find?_eq_some hfind).1 hactive.1 hre hactive.2)

/-- **What a caller asks for**. -/
theorem decideChange_grown {id : Text} {o : Outside} {ids : List Text} (hgood : Good env d)
    (h : decideChange env id request d o = .ok (some (d', ids))) : Grown env d d' := by
  unfold decideChange at h
  cases hfind : d.ledger.find? id with
  | none =>
    rw [hfind] at h
    cases h
  | some entity =>
    rw [hfind] at h
    simp only at h
    split at h
    · cases h
    · split at h
      · cases h
      · next hactive =>
        split at h
        · next hidentity =>
          have hre : entity.redirect = none := by
            by_contra hredirect
            apply hactive
            refine ⟨Or.inr (Option.isSome_iff_ne_none.2 hredirect), ?_⟩
            intro hrestore
            rw [hrestore] at hidentity
            cases hidentity
          split at h
          · cases h
          · cases h
          · next draft hdraft =>
            cases h
            exact identity_grown hgood (find?_eq_some hfind).1 hre hdraft
        · split at h
          · cases h
          · next draft hdraft =>
            cases h
            exact (changeOne_grown hgood hdraft).receipt _ _ _ _

end Requests

section Pages

variable {env : Env} {d d' : Draft} {now : Instant} {raw : FileBytes}

/-- A change of one dossier that keeps its core, and its receipt. -/
theorem Grown.closed {l : Ledger} {n : Nat} {id id' action : Text} {details : Receipt}
    {f : Entity → Entity} (h : Grown env d ⟨l, n⟩) (hf : ∀ e, core (f e) = core e) :
    Grown env d ⟨(l.modify id f).receipt id' action now details, n⟩ :=
  (h.trans (h.2.modify hf (Nat.le_refl _))).receipt _ _ _ _

theorem observeFact_grown {entityId generated block : Text} {index : Nat} (hgood : Good env d) :
    Grown env d (observeFact env entityId generated block raw now d index) := by
  unfold observeFact
  split
  · exact hgood.grown
  · split
    · exact hgood.grown
    · split
      · exact hgood.grown
      · split
        · exact hgood.modify (withdrawAt_core index) (Nat.le_refl _)
        · split
          · exact hgood.grown
          · simp only
            split <;> exact hgood.modify correction_core (Nat.le_succ _)

theorem observeBlock_grown {entityId generated block : Text} (hgood : Good env d) :
    Grown env d (observeBlock env entityId generated block raw now d) := by
  unfold observeBlock
  simp only
  have hfacts : ∀ indices : List Nat, Grown env d
      (indices.foldl (observeFact env entityId generated block raw now) d) := by
    intro indices
    refine List.foldlRecOn (motive := fun d' : Draft => Grown env d d') indices _ hgood.grown ?_
    intro d₁ hd₁ index _
    exact hd₁.trans (observeFact_grown hd₁.2)
  generalize hread : (List.range _).foldl _ d = d₁
  have hread' : Grown env d d₁ := hread ▸ hfacts _
  split
  · apply hread'.closed
    exact fun _ => rfl
  · have hadded : Grown env d ⟨d₁.ledger.modify entityId fun e =>
        correction env e "note".toList (joinLines (additions generated block)) raw none none d₁.drawn
          now, d₁.drawn + 1⟩ :=
      hread'.trans (hread'.2.modify correction_core (Nat.le_succ _))
    apply hadded.closed
    exact fun _ => rfl

/-- **A page that is read** changes no address and no redirect. -/
theorem observePage_grown {entity : Entity} (hgood : Good env d)
    (h : observePage env entity raw now d = .ok d') : Grown env d d' := by
  unfold observePage at h
  split at h
  · cases h
  · split at h
    · cases h
    · split at h
      · cases h
      · split at h
        · split at h
          · cases h
          · split at h
            · cases h
            · next personal _ =>
              have hpage : ∀ (generated : Option Text) (pending : Entity → Option Text),
                  Grown env d ⟨d.ledger.modify entity.id fun e =>
                    { e with
                      personal := personal
                      generated := generated
                      pending := pending e }, d.drawn⟩ := by
                intro generated pending
                apply hgood.modify ?_ (Nat.le_refl _)
                exact fun _ => rfl
              simp only at h
              split at h
              · obtain rfl := Except.ok.inj h
                exact hpage _ _
              · split at h
                · obtain rfl := Except.ok.inj h
                  exact hpage _ _
                · obtain rfl := Except.ok.inj h
                  exact (hpage _ _).trans (observeBlock_grown (hpage _ _).2)
        · cases h

theorem observeGone_grown {entity : Entity} (hgood : Good env d) :
    Grown env d (observeGone entity now d) := by
  unfold observeGone
  split
  · apply hgood.grown.closed
    exact fun _ => rfl
  · exact hgood.grown

end Pages

section Purges

variable {env : Env} {noteIds entityIds : List Text} {now : Instant} {l : Ledger}

/-- The redirect of a dossier goes when its target does. -/
def restored (entityIds : List Text) (e : Entity) : Bool := e.redirect.any (· ∈ entityIds)

/-- The dossiers that a purge restores share no address with others that stay and are no redirects
then. -/
def Separate (entityIds : List Text) (l : Ledger) : Prop :=
  ∀ e ∈ l.entities, ∀ f ∈ l.entities, e.id ∉ entityIds → f.id ∉ entityIds →
    restored entityIds e = true → f.redirect = none ∨ restored entityIds f = true → e.id ≠ f.id →
      ∀ a ∈ e.emails, a ∉ f.emails

instance : Decidable (Separate entityIds l) := by
  unfold Separate
  infer_instance

theorem scrub_redirect (e : Entity) :
    (scrub noteIds entityIds now e).redirect =
      if restored entityIds e = true then none else e.redirect := rfl

theorem mem_purgeLedger {e : Entity} :
    e ∈ (purgeLedger env noteIds entityIds now l).entities ↔
      ∃ x ∈ l.entities, x.id ∉ entityIds ∧ scrub noteIds entityIds now x = e := by
  simp only [purgeLedger, List.mem_map, List.mem_filter, decide_eq_true_eq, and_assoc]

theorem purgeLedger_ids_sublist :
    ((purgeLedger env noteIds entityIds now l).entities.map (·.id)).Sublist
      (l.entities.map (·.id)) := by
  have hids : (purgeLedger env noteIds entityIds now l).entities.map (·.id) =
      (l.entities.filter (·.id ∉ entityIds)).map (·.id) := by
    rw [purgeLedger, List.map_map]
    rfl
  rw [hids]
  exact List.filter_sublist.map _

/-- **A purge** keeps identities sound where the dossiers it restores are separate. -/
theorem Sound.purged (hl : Sound l) (hseparate : Separate entityIds l) :
    Sound (purgeLedger env noteIds entityIds now l) where
  distinct := hl.distinct.sublist purgeLedger_ids_sublist
  named := by
    intro e he t ht
    obtain ⟨x, hx, -, rfl⟩ := mem_purgeLedger.1 he
    rw [scrub_redirect] at ht
    split at ht
    · cases ht
    · next hrestored =>
      obtain ⟨y, hy, rfl⟩ := List.mem_map.1 (hl.named x hx t ht)
      refine List.mem_map.2 ⟨_, mem_purgeLedger.2 ⟨y, hy, ?_, rfl⟩, rfl⟩
      intro hgone
      apply hrestored
      rw [restored, ht, Option.any_some]
      exact decide_eq_true hgone
  ends := by
    intro id
    apply (hl.ends id).of_fewer
    intro z
    cases hnext : (purgeLedger env noteIds entityIds now l).next z with
    | none => exact Or.inl rfl
    | some w =>
      right
      obtain ⟨e, he, hredirect⟩ := Option.bind_eq_some_iff.1 hnext
      obtain ⟨hmem, rfl⟩ := find?_eq_some he
      obtain ⟨x, hx, -, rfl⟩ := mem_purgeLedger.1 hmem
      rw [scrub_redirect] at hredirect
      split at hredirect
      · cases hredirect
      · unfold Ledger.next
        change some w = (l.find? x.id).bind (·.redirect)
        rw [find?_of_mem hl.distinct hx]
        exact hredirect.symm
  exclusive := by
    intro e he f hf hre hrf a hae haf
    obtain ⟨x, hx, hxids, rfl⟩ := mem_purgeLedger.1 he
    obtain ⟨y, hy, hyids, rfl⟩ := mem_purgeLedger.1 hf
    change a ∈ x.emails at hae
    change a ∈ y.emails at haf
    change x.id = y.id
    have hroot : ∀ z : Entity, (scrub noteIds entityIds now z).redirect = none →
        restored entityIds z = true ∨ z.redirect = none := by
      intro z hz
      rw [scrub_redirect] at hz
      split at hz
      · next hrestored => exact Or.inl hrestored
      · exact Or.inr hz
    by_contra hne
    obtain hrx | hrx := hroot x hre
    · exact hseparate x hx y hy hxids hyids hrx (hroot y hrf).symm hne a hae haf
    · obtain hry | hry := hroot y hrf
      · exact hseparate y hy x hx hyids hxids hry (Or.inl hrx) (Ne.symm hne) a haf hae
      · exact hne (hl.exclusive x hx y hy hrx hry a hae haf)

/-- **Exactly the purges whose restored dossiers are separate** leave identities sound. -/
theorem purge_sound_iff (hl : Sound l) :
    Sound (purgeLedger env noteIds entityIds now l) ↔ Separate entityIds l := by
  refine ⟨?_, hl.purged⟩
  intro hsound e he f hf hei hfi hre hrf hne a hae haf
  apply hne
  have hroot : ∀ z : Entity, z.redirect = none ∨ restored entityIds z = true →
      (scrub noteIds entityIds now z).redirect = none := by
    intro z hz
    rw [scrub_redirect]
    split
    · rfl
    · next hrestored => exact hz.resolve_right hrestored
  exact hsound.exclusive (scrub noteIds entityIds now e) (mem_purgeLedger.2 ⟨e, he, hei, rfl⟩)
    (scrub noteIds entityIds now f) (mem_purgeLedger.2 ⟨f, hf, hfi, rfl⟩)
    (hroot e (Or.inr hre)) (hroot f hrf) a hae haf

theorem purge_grown {d : Draft} (hgood : Good env d) (hseparate : Separate entityIds d.ledger) :
    Grown env d { d with ledger := purgeLedger env noteIds entityIds now d.ledger } := by
  refine ⟨Nat.le_refl _, hgood.sound.purged hseparate, ?_⟩
  intro e he
  obtain ⟨x, hx, -, rfl⟩ := mem_purgeLedger.1 he
  exact hgood.drawn x hx

end Purges

end Coppermind.Dossiers
