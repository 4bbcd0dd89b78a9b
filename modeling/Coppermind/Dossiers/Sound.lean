import Coppermind.Dossiers.Service

/-!
# Sound ledgers

`Sound`: every redirect names a dossier, the redirects from any dossier end, and no address belongs
to two dossiers that are no redirects. Each operation keeps it, the migration of contact
corrections only where no correction finds a dossier that an earlier one merged away, and a purge
only where the dossiers it restores share no address with others that stay.
-/

namespace Coppermind.Dossiers

open Coppermind.Lib Coppermind.Lib.Task Coppermind.Frontmatter
open Coppermind.Notes (Instant FileBytes)

/-- The soundness of the identities in a ledger. -/
structure Sound (ledger : Ledger) : Prop where
  distinct : (ledger.entities.map (·.id)).Nodup
  named : ∀ e ∈ ledger.entities, ∀ t, e.redirect = some t → t ∈ ledger.entities.map (·.id)
  ends : ∀ id, Redirects.Ends ledger.next id
  exclusive : ∀ e ∈ ledger.entities, ∀ f ∈ ledger.entities, e.redirect = none →
    f.redirect = none → ∀ a ∈ e.emails, a ∈ f.emails → e.id = f.id

/-- What soundness depends on. -/
def core (e : Entity) : Text × List Text × Option Text := (e.id, e.emails, e.redirect)

section Cores

variable {l l' : Ledger}

theorem find?_eq_some {id : Text} {e : Entity} (h : l.find? id = some e) :
    e ∈ l.entities ∧ e.id = id := by
  have hid := List.find?_some h
  exact ⟨List.mem_of_find?_eq_some h, by simpa using hid⟩

/-- With distinct identifiers a dossier is found by its own. -/
theorem find?_of_mem (h : (l.entities.map (·.id)).Nodup) {e : Entity} (he : e ∈ l.entities) :
    l.find? e.id = some e := by
  cases hfind : l.find? e.id with
  | none =>
    have hnot := List.find?_eq_none.1 hfind e he
    exact absurd (decide_eq_true rfl) hnot
  | some f =>
    obtain ⟨hf, hid⟩ := find?_eq_some hfind
    rw [List.inj_on_of_nodup_map h hf he hid]

theorem next_eq_cores (id : Text) :
    l.next id = ((l.entities.map core).find? (·.1 = id)).bind (·.2.2) := by
  unfold Ledger.next Ledger.find?
  rw [List.find?_map]
  have hsame : ((fun c : Text × List Text × Option Text => decide (c.1 = id)) ∘ core) =
      fun e : Entity => decide (e.id = id) := rfl
  rw [hsame]
  cases l.entities.find? fun e => decide (e.id = id) <;> rfl

/-- A dossier with the same core on the other side. -/
theorem exists_core (h : l'.entities.map core = l.entities.map core) {e : Entity}
    (he : e ∈ l'.entities) : ∃ f ∈ l.entities, core f = core e := by
  have hmem : core e ∈ l.entities.map core := h ▸ List.mem_map_of_mem he
  exact List.mem_map.1 hmem

theorem map_id_of_core (h : l'.entities.map core = l.entities.map core) :
    l'.entities.map (·.id) = l.entities.map (·.id) := by
  have hids := congrArg (List.map Prod.fst) h
  rw [List.map_map, List.map_map] at hids
  exact hids

/-- **Cores decide**: a change that keeps the cores keeps soundness. -/
theorem Sound.of_core (hl : Sound l) (h : l'.entities.map core = l.entities.map core) :
    Sound l' where
  distinct := by
    rw [map_id_of_core h]
    exact hl.distinct
  named := by
    intro e he t ht
    obtain ⟨f, hf, hcore⟩ := exists_core h he
    rw [map_id_of_core h]
    exact hl.named f hf t ((congrArg (·.2.2) hcore).trans ht)
  ends := by
    have hnext : l'.next = l.next := by
      funext id
      rw [next_eq_cores, next_eq_cores, h]
    rw [hnext]
    exact hl.ends
  exclusive := by
    intro e he f hf hre hrf a hae haf
    obtain ⟨e', he', hcore⟩ := exists_core h he
    obtain ⟨f', hf', hcore'⟩ := exists_core h hf
    have hemails : e'.emails = e.emails := congrArg (·.2.1) hcore
    have hemails' : f'.emails = f.emails := congrArg (·.2.1) hcore'
    have hid := hl.exclusive e' he' f' hf' ((congrArg (·.2.2) hcore).trans hre)
      ((congrArg (·.2.2) hcore').trans hrf) a (hemails.symm ▸ hae) (hemails'.symm ▸ haf)
    exact (congrArg (·.1) hcore).symm.trans (hid.trans (congrArg (·.1) hcore'))

/-- A change of single dossiers that keeps each core. -/
theorem map_core {g : Entity → Entity} (h : ∀ e ∈ l.entities, core (g e) = core e) :
    (l.entities.map g).map core = l.entities.map core := by
  rw [List.map_map]
  exact List.map_congr_left h

theorem modify_core {id : Text} {f : Entity → Entity} (h : ∀ e, core (f e) = core e) :
    (l.modify id f).entities.map core = l.entities.map core := by
  apply map_core
  intro e _
  split
  · exact h e
  · rfl

theorem receipt_core (id action : Text) (now : Instant) (details : Receipt) :
    (l.receipt id action now details).entities.map core = l.entities.map core :=
  modify_core fun _ => rfl

theorem mem_modify {id : Text} {f : Entity → Entity} {e : Entity}
    (h : e ∈ (l.modify id f).entities) :
    ∃ x ∈ l.entities, e = if x.id = id then f x else x := by
  obtain ⟨x, hx, rfl⟩ := List.mem_map.1 h
  exact ⟨x, hx, rfl⟩

theorem modify_ids {id : Text} {f : Entity → Entity} (h : ∀ e, (f e).id = e.id) :
    (l.modify id f).entities.map (·.id) = l.entities.map (·.id) := by
  unfold Ledger.modify
  rw [List.map_map]
  apply List.map_congr_left
  intro e _
  simp only [Function.comp]
  split
  · exact h e
  · rfl

/-- What the redirects say after a change of one dossier. -/
theorem next_modify {id : Text} {f : Entity → Entity} (h : ∀ e, (f e).id = e.id) (z : Text) :
    (l.modify id f).next z =
      if z = id then ((l.find? id).map f).bind (·.redirect) else l.next z := by
  unfold Ledger.next Ledger.find? Ledger.modify
  rw [List.find?_map]
  have hsame : ((fun e : Entity => decide (e.id = z)) ∘ fun e => if e.id = id then f e else e) =
      fun e : Entity => decide (e.id = z) := by
    funext e
    simp only [Function.comp]
    split
    · rw [h]
    · rfl
  rw [hsame]
  cases hfind : l.entities.find? fun e => decide (e.id = z) with
  | none =>
    split
    · next hz =>
      subst hz
      rw [hfind]
      rfl
    · rfl
  | some e =>
    have hid : e.id = z := by simpa using List.find?_some hfind
    split
    · next hz =>
      subst hz
      rw [hfind]
      simp only [Option.map_some, hid, if_true]
    · next hz =>
      rw [← hid] at hz
      simp only [Option.map_some, if_neg hz]

end Cores

section Changes

variable {l : Ledger}

@[simp] theorem redirectTo_id (target : Text) (e : Entity) : (e.redirectTo target).id = e.id := rfl

/-- A change that keeps the redirect of a dossier. -/
theorem next_of_redirect {id : Text} {f : Entity → Entity} (hid : ∀ e, (f e).id = e.id)
    (hredirect : ∀ e, (f e).redirect = e.redirect) : (l.modify id f).next = l.next := by
  funext z
  rw [next_modify hid]
  split
  · next hz =>
    subst hz
    unfold Ledger.next
    cases l.find? z with
    | none => rfl
    | some e => exact hredirect e
  · rfl

theorem next_redirectTo (hdistinct : (l.entities.map (·.id)).Nodup) {e : Entity}
    (he : e ∈ l.entities) (target : Text) :
    (l.modify e.id (·.redirectTo target)).next = Function.update l.next e.id (some target) := by
  funext z
  rw [next_modify (redirectTo_id target)]
  by_cases hz : z = e.id
  · subst hz
    rw [if_pos rfl, Function.update_self, find?_of_mem hdistinct he]
    rfl
  · rw [if_neg hz, Function.update_of_ne hz]

/-- Changes of two dossiers do not meet. -/
theorem modify_comm {i j : Text} {f g : Entity → Entity} (hne : i ≠ j) (hf : ∀ e, (f e).id = e.id)
    (hg : ∀ e, (g e).id = e.id) :
    (l.modify i f).modify j g = (l.modify j g).modify i f := by
  unfold Ledger.modify
  simp only [List.map_map]
  congr 1
  apply List.map_congr_left
  intro e _
  simp only [Function.comp]
  by_cases hi : e.id = i
  · have hj : e.id ≠ j := fun hj => hne (hi.symm.trans hj)
    rw [if_pos hi, if_neg hj, if_neg (by rw [hf]; exact hj), if_pos hi]
  · by_cases hj : e.id = j
    · rw [if_neg hi, if_pos hj, if_neg (by rw [hg]; exact hi)]
    · rw [if_neg hi, if_neg hj, if_neg hi]

/-- **New addresses** for one dossier, which no other that is no redirect has. -/
theorem Sound.emails (hl : Sound l) {id : Text} {f : Entity → Entity} (hid : ∀ e, (f e).id = e.id)
    (hredirect : ∀ e, (f e).redirect = e.redirect)
    (hfree : ∀ e ∈ l.entities, e.id = id → e.redirect = none → ∀ g ∈ l.entities, g.id ≠ id →
      g.redirect = none → ∀ a ∈ (f e).emails, a ∉ g.emails) : Sound (l.modify id f) where
  distinct := by
    rw [modify_ids hid]
    exact hl.distinct
  named := by
    intro e he t ht
    obtain ⟨x, hx, rfl⟩ := mem_modify he
    rw [modify_ids hid]
    apply hl.named x hx t
    by_cases h : x.id = id
    · rwa [if_pos h, hredirect] at ht
    · rwa [if_neg h] at ht
  ends := by
    rw [next_of_redirect hid hredirect]
    exact hl.ends
  exclusive := by
    intro e he g hg hre hrg a hae hag
    obtain ⟨x, hx, rfl⟩ := mem_modify he
    obtain ⟨y, hy, rfl⟩ := mem_modify hg
    by_cases hxi : x.id = id
    · rw [if_pos hxi] at hre hae ⊢
      rw [hredirect] at hre
      by_cases hyi : y.id = id
      · rw [if_pos hyi, hid, hid, hxi, hyi]
      · rw [if_neg hyi] at hrg hag
        exact absurd hag (hfree x hx hxi hre y hy hyi hrg a hae)
    · rw [if_neg hxi] at hre hae ⊢
      by_cases hyi : y.id = id
      · rw [if_pos hyi] at hrg hag
        rw [hredirect] at hrg
        exact absurd hae (hfree y hy hyi hrg x hx hxi hre a hag)
      · rw [if_neg hyi] at hrg hag ⊢
        exact hl.exclusive x hx y hy hre hrg a hae hag

/-- **A redirect** from one dossier that is none to another. -/
theorem Sound.redirect (hl : Sound l) {e t : Entity} (he : e ∈ l.entities) (ht : t ∈ l.entities)
    (hne : t.id ≠ e.id) (hre : e.redirect = none) (hrt : t.redirect = none) :
    Sound (l.modify e.id (·.redirectTo t.id)) where
  distinct := by
    rw [modify_ids (redirectTo_id t.id)]
    exact hl.distinct
  named := by
    intro x hx z hz
    obtain ⟨y, hy, rfl⟩ := mem_modify hx
    rw [modify_ids (redirectTo_id t.id)]
    by_cases h : y.id = e.id
    · rw [if_pos h] at hz
      obtain rfl := Option.some.inj hz
      exact List.mem_map_of_mem ht
    · rw [if_neg h] at hz
      exact hl.named y hy z hz
  ends := by
    have hroot : ∀ x ∈ l.entities, x.redirect = none → l.next x.id = none := by
      intro x hx hnone
      unfold Ledger.next
      rw [find?_of_mem hl.distinct hx]
      exact hnone
    rw [next_redirectTo hl.distinct he]
    intro z
    exact (hl.ends z).redirect (hroot e he hre) (hroot t ht hrt) hne
  exclusive := by
    intro x hx y hy hrx hry a hax hay
    obtain ⟨u, hu, rfl⟩ := mem_modify hx
    obtain ⟨v, hv, rfl⟩ := mem_modify hy
    by_cases hue : u.id = e.id
    · rw [if_pos hue] at hrx
      cases hrx
    · by_cases hve : v.id = e.id
      · rw [if_pos hve] at hry
        cases hry
      · rw [if_neg hue] at hrx hax ⊢
        rw [if_neg hve] at hry hay ⊢
        exact hl.exclusive u hu v hv hrx hry a hax hay

/-- **A merge**: one dossier redirects to another, which may take over its addresses. -/
theorem Sound.merged (hl : Sound l) {e t : Entity} (he : e ∈ l.entities) (ht : t ∈ l.entities)
    (hne : t.id ≠ e.id) (hre : e.redirect = none) (hrt : t.redirect = none)
    {f : Entity → Entity} (hid : ∀ x, (f x).id = x.id) (hredirect : ∀ x, (f x).redirect = x.redirect)
    (hemails : ∀ a ∈ (f t).emails, a ∈ t.emails ∨ a ∈ e.emails) :
    Sound ((l.modify t.id f).modify e.id (·.redirectTo t.id)) := by
  rw [modify_comm hne hid (redirectTo_id t.id)]
  apply (hl.redirect he ht hne hre hrt).emails hid hredirect
  intro x hx hxt hrx g hg hgt hrg a ha hag
  obtain ⟨u, hu, rfl⟩ := mem_modify hx
  obtain ⟨v, hv, rfl⟩ := mem_modify hg
  by_cases hve : v.id = e.id
  · rw [if_pos hve] at hrg
    cases hrg
  · rw [if_neg hve] at hgt hrg hag
    by_cases hue : u.id = e.id
    · rw [if_pos hue] at hrx
      cases hrx
    · rw [if_neg hue] at hxt hrx ha
      obtain rfl := List.inj_on_of_nodup_map hl.distinct hu ht hxt
      obtain hat | hae := hemails a ha
      · exact hgt (hl.exclusive u hu v hv hrt hrg a hat hag).symm
      · exact hve (hl.exclusive e he v hv hre hrg a hae hag).symm

/-- **Addresses moved** from one dossier to another that has none. -/
theorem Sound.moved (hl : Sound l) {e t : Entity} (he : e ∈ l.entities)
    (hne : t.id ≠ e.id) (hre : e.redirect = none) {f g : Entity → Entity}
    (hf : ∀ x, (f x).id = x.id) (hg : ∀ x, (g x).id = x.id)
    (hfr : ∀ x, (f x).redirect = x.redirect) (hgr : ∀ x, (g x).redirect = x.redirect)
    (hfrom : ∀ x, ∀ a ∈ (f x).emails, a ∈ e.emails)
    (hless : ∀ a ∈ (g e).emails, a ∈ e.emails ∧ ∀ x, a ∉ (f x).emails) :
    Sound ((l.modify t.id f).modify e.id g) := by
  rw [modify_comm hne hf hg]
  have hsmaller : Sound (l.modify e.id g) := by
    apply hl.emails hg hgr
    intro x hx hxe hrx y hy hye hry a ha hay
    obtain rfl := List.inj_on_of_nodup_map hl.distinct hx he hxe
    exact hye (hl.exclusive x hx y hy hre hry a (hless a ha).1 hay).symm
  apply hsmaller.emails hf hfr
  intro x hx hxt hrx y hy hyt hry a ha hay
  obtain ⟨u, hu, rfl⟩ := mem_modify hx
  obtain ⟨v, hv, rfl⟩ := mem_modify hy
  by_cases hve : v.id = e.id
  · rw [if_pos hve] at hay
    obtain rfl := List.inj_on_of_nodup_map hl.distinct hv he hve
    exact (hless a hay).2 _ ha
  · rw [if_neg hve] at hyt hry hay
    exact hve (hl.exclusive e he v hv hre hry a (hfrom _ a ha) hay).symm

end Changes

/-- A draft whose ledger is sound and whose identifiers were all drawn. -/
structure Good (env : Env) (d : Draft) : Prop where
  sound : Sound d.ledger
  drawn : ∀ e ∈ d.ledger.entities, ∃ i < d.drawn, e.id = env.newId i

/-- A later draft that is good too. -/
def Grown (env : Env) (d d' : Draft) : Prop := d.drawn ≤ d'.drawn ∧ Good env d'

section Drafts

variable {env : Env} {d d' d'' : Draft}

theorem Good.grown (h : Good env d) : Grown env d d := ⟨Nat.le_refl _, h⟩

theorem Grown.trans (h : Grown env d d') (h' : Grown env d' d'') : Grown env d d'' :=
  ⟨Nat.le_trans h.1 h'.1, h'.2⟩

/-- The identifiers stay drawn where they stay the same. -/
theorem drawn_of_ids (h : Good env d) (hle : d.drawn ≤ d'.drawn)
    (hids : ∀ e ∈ d'.ledger.entities, e.id ∈ d.ledger.entities.map (·.id)) :
    ∀ e ∈ d'.ledger.entities, ∃ i < d'.drawn, e.id = env.newId i := by
  intro e he
  obtain ⟨f, hf, hid⟩ := List.mem_map.1 (hids e he)
  obtain ⟨i, hi, hdrawn⟩ := h.drawn f hf
  exact ⟨i, Nat.lt_of_lt_of_le hi hle, hid.symm.trans hdrawn⟩

/-- **A change that keeps the cores**. -/
theorem Good.of_core (h : Good env d) (hle : d.drawn ≤ d'.drawn)
    (hcore : d'.ledger.entities.map core = d.ledger.entities.map core) : Grown env d d' := by
  refine ⟨hle, h.sound.of_core hcore, drawn_of_ids h hle ?_⟩
  intro e he
  rw [← map_id_of_core hcore]
  exact List.mem_map_of_mem he

/-- A sound change of a ledger that brings no new identifier. -/
theorem Good.of_sound (h : Good env d) {l : Ledger} (hsound : Sound l)
    (hids : l.entities.map (·.id) = d.ledger.entities.map (·.id)) :
    Grown env d { d with ledger := l } := by
  refine ⟨Nat.le_refl _, hsound, drawn_of_ids h (Nat.le_refl _) ?_⟩
  intro e he
  rw [← hids]
  exact List.mem_map_of_mem he

theorem Good.modify (h : Good env d) {id : Text} {f : Entity → Entity}
    (hf : ∀ e, core (f e) = core e) {drawn : Nat} (hle : d.drawn ≤ drawn) :
    Grown env d ⟨d.ledger.modify id f, drawn⟩ :=
  h.of_core hle (modify_core hf)

theorem Grown.receipt (h : Grown env d d') (id action : Text) (now : Instant) (details : Receipt) :
    Grown env d { d' with ledger := d'.ledger.receipt id action now details } :=
  h.trans (h.2.of_core (Nat.le_refl _) (receipt_core id action now details))

/-- The redirects from a dossier of a sound ledger are followed to their end. -/
theorem Sound.resolve {l : Ledger} (h : Sound l) (id : Text) :
    ∃ found, Dossiers.resolve l id = .ok found := by
  unfold Dossiers.resolve
  cases hfind : l.find? id with
  | none => exact ⟨none, rfl⟩
  | some e =>
    obtain ⟨he, hid⟩ := find?_eq_some hfind
    have hnamed : ∀ z w, l.next z = some w → w ∈ l.entities.map (·.id) := by
      intro z w hw
      obtain ⟨f, hf, hredirect⟩ := Option.bind_eq_some_iff.1 hw
      exact h.named f (find?_eq_some hf).1 w hredirect
    have hlength : (l.entities.map (·.id)).length ≤ l.entities.length :=
      Nat.le_of_eq (List.length_map _)
    obtain ⟨y, hy, -⟩ :=
      (h.ends id).follow hnamed (hid ▸ List.mem_map_of_mem he) hlength
    rw [hy]
    exact ⟨_, rfl⟩

/-- An unused identifier is fresh. -/
theorem Good.fresh (h : Good env d) : ∀ e ∈ d.ledger.entities, e.id ≠ env.newId d.drawn := by
  intro e he heq
  obtain ⟨i, hi, hid⟩ := h.drawn e he
  have hsame := env.newId_injective (hid.symm.trans heq)
  omega

theorem insert_fresh {l : Ledger} {e : Entity} (h : ∀ f ∈ l.entities, f.id ≠ e.id) :
    l.insert e = { l with entities := l.entities ++ [e] } := by
  have hany : ¬l.entities.any (fun f => decide (f.id = e.id)) = true := by
    rw [List.any_eq_true]
    rintro ⟨f, hf, hid⟩
    exact h f hf (by simpa using hid)
  rw [Ledger.insert, if_neg hany]

/-- **A new dossier**, with addresses nobody else has. -/
theorem Sound.added {l : Ledger} (hl : Sound l) {e : Entity} (hfresh : ∀ f ∈ l.entities, f.id ≠ e.id)
    (hroot : e.redirect = none) (hfree : taken l e.emails = false) :
    Sound { l with entities := l.entities ++ [e] } where
  distinct := by
    rw [List.map_append, List.map_singleton]
    refine hl.distinct.append (List.nodup_singleton _) ?_
    intro id hid hid'
    obtain ⟨f, hf, rfl⟩ := List.mem_map.1 hid
    exact hfresh f hf (List.mem_singleton.1 hid')
  named := by
    intro f hf t ht
    rw [List.map_append]
    obtain hf | hf := List.mem_append.1 hf
    · exact List.mem_append_left _ (hl.named f hf t ht)
    · rw [List.mem_singleton.1 hf, hroot] at ht
      cases ht
  ends := by
    intro id
    apply (hl.ends id).of_fewer
    intro z
    unfold Ledger.next Ledger.find?
    rw [List.find?_append]
    cases l.entities.find? fun f => decide (f.id = z) with
    | some f => exact Or.inr rfl
    | none =>
      left
      rw [Option.none_or, List.find?_singleton]
      split
      · exact hroot
      · rfl
  exclusive := by
    have hnew : ∀ f ∈ l.entities, f.redirect = none → ∀ a ∈ f.emails, a ∉ e.emails := by
      intro f hf hrf a haf hae
      have htaken : taken l e.emails = true := by
        simp only [taken, List.any_eq_true, Bool.and_eq_true, decide_eq_true_eq]
        exact ⟨f, hf, by rw [hrf]; rfl, a, hae, haf⟩
      rw [hfree] at htaken
      cases htaken
    intro f hf g hg hrf hrg a haf hag
    obtain hf | hf := List.mem_append.1 hf
    · obtain hg | hg := List.mem_append.1 hg
      · exact hl.exclusive f hf g hg hrf hrg a haf hag
      · rw [List.mem_singleton.1 hg] at hag
        exact absurd hag (hnew f hf hrf a haf)
    · rw [List.mem_singleton.1 hf] at haf ⊢
      obtain hg | hg := List.mem_append.1 hg
      · exact absurd haf (hnew g hg hrg a hag)
      · rw [List.mem_singleton.1 hg]

/-- **`make`** adds a dossier under the next identifier. -/
theorem make_ok (h : Good env d) {request : EntityInput} {automatic : Bool} {id : Text}
    (hmake : make env d request automatic = .ok (d', id)) :
    Grown env d d' ∧ id = env.newId d.drawn ∧
      ∃ e, d'.ledger.entities = d.ledger.entities ++ [e] ∧ e.id = id ∧ e.redirect = none ∧
        (request.emails = [] → e.emails = []) := by
  unfold make at hmake
  cases haddresses : request.emails.mapM (email env) with
  | none =>
    rw [haddresses] at hmake
    cases hmake
  | some addresses =>
    rw [haddresses] at hmake
    simp only at hmake
    by_cases htaken : taken d.ledger (sortedSet addresses) = true
    · rw [if_pos htaken] at hmake
      cases hmake
    · rw [if_neg htaken] at hmake
      obtain ⟨rfl, rfl⟩ := Prod.mk.inj (Except.ok.inj hmake)
      rw [insert_fresh h.fresh]
      refine ⟨⟨Nat.le_succ _, ?_, ?_⟩, rfl, _, rfl, rfl, rfl, ?_⟩
      · exact h.sound.added h.fresh rfl (Bool.eq_false_iff.2 htaken)
      · intro e he
        obtain he | he := List.mem_append.1 he
        · obtain ⟨i, hi, hid⟩ := h.drawn e he
          exact ⟨i, Nat.lt_succ_of_lt hi, hid⟩
        · rw [List.mem_singleton.1 he]
          exact ⟨d.drawn, Nat.lt_succ_self _, rfl⟩
      · intro hnone
        rw [hnone] at haddresses
        obtain rfl := Option.some.inj haddresses
        rfl

end Drafts

end Coppermind.Dossiers
