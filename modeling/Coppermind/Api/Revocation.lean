import Coppermind.Api.Authenticator

/-!
# A revoked key dies with its snapshot

A verification stands while the snapshot it was decided from is in force: `Standing` ties its
generation, its expiry and its record together, and every segment keeps it, because a read is
only started once the last snapshot has expired.  What breaks the tie is a caller that goes on
with the answer of a read after a later read has answered: it takes the later snapshot's
generation and expiry for the records of the earlier one.
-/

namespace Coppermind.Api

open Coppermind.Lib Coppermind.Lib.Text

section Statement

variable (env : Env)

/-- The key set holds the credential's key, unrevoked and with these scopes, and the secret
verifies against its hash. -/
def Holds (set : ApiKeySet) (credential : Text) (principal : Principal) : Prop :=
  ∃ keyId secret record, splitCredential credential = some (keyId, secret) ∧
    set.get keyId = some record ∧ record.revokedAt = none ∧
    env.verifySecret record.hash secret = true ∧ principal = principalOf record

/-- A returned principal was held by the key set in force at a moment of its call, and a cached
verification was served while the snapshot it was decided from was in force. -/
structure ReturnedOk (w : World) (r : Returned) : Prop where
  held : ∃ i g set, r.began ≤ i ∧ i ≤ r.ended ∧ w.log[i]? = some (some (g, set)) ∧
    Holds env set r.credential r.principal
  cached : ∀ g, r.cachedFrom = some g → ∃ set, w.log[r.ended]? = some (some (g, set))

/-- Every principal that was returned is accounted for. -/
def Sound (w : World) : Prop := ∀ r ∈ w.returned, ReturnedOk env w r

/-- A call goes on with the answer of the read it joined before a later read answers. -/
def Prompt (w : World) : Action → Prop
  | .resume id =>
    match w.calls id with
    | some ⟨_, _, _, _, .answered _ basis⟩ => basis = w.recordsGeneration
    | _ => True
  | _ => True

instance (w : World) (a : Action) : Decidable (Prompt w a) := by
  unfold Prompt
  split
  · split
    · infer_instance
    · infer_instance
  · infer_instance

end Statement

section Invariant

variable {env : Env} {w w' : World}

/-- The log held this snapshot in force since the call began. -/
def Saw (w : World) (began g : Nat) (set : ApiKeySet) : Prop :=
  ∃ i, began ≤ i ∧ w.log[i]? = some (some (g, set))

/-- A record of generation `g` that verifications until `decidedUntil` may rest on. -/
structure Standing (w : World) (keyId : Text) (record : ApiKeyRecord) (g decidedUntil : Nat) :
    Prop where
  unrevoked : record.revokedAt = none
  read : g ≤ w.recordsGeneration
  inForce : g = w.recordsGeneration →
    decidedUntil = w.recordsExpireAt ∧ w.records.get keyId = some record
  expired : g < w.recordsGeneration → decidedUntil ≤ w.clock

/-- What is known where a call waits. -/
def PointOk (env : Env) (w : World) (keyId secret : Text) (began : Nat) : Point → Prop
  | .joined => True
  | .answered records basis =>
    Saw w began basis records ∧ basis ≤ w.recordsGeneration ∧
      (basis = w.recordsGeneration → records = w.records)
  | .verifying record generation decidedUntil basis =>
    generation = basis ∧ Standing w keyId record basis decidedUntil ∧
      ∃ set, Saw w began basis set ∧ set.get keyId = some record
  | .locking principal decidedUntil basis =>
    ∃ record, principal = principalOf record ∧ env.verifySecret record.hash secret = true ∧
      Standing w keyId record basis decidedUntil ∧
      ∃ set, Saw w began basis set ∧ set.get keyId = some record

structure CallOk (env : Env) (w : World) (call : Call) : Prop where
  split : splitCredential call.credential = some (call.keyId, call.secret)
  began : call.began < w.log.length
  point : PointOk env w call.keyId call.secret call.began call.point

/-- What is known of a kept verification. -/
def VerifiedOk (env : Env) (w : World) (fingerprint : Text) (v : Verified) : Prop :=
  ∃ credential keyId secret record, fingerprint = env.sha256 credential ∧
    splitCredential credential = some (keyId, secret) ∧
    env.verifySecret record.hash secret = true ∧ v.principal = principalOf record ∧
    Standing w keyId record v.basis v.expiresAt

/-- **The invariant**: a read runs only while no snapshot is in force, the log ends with the
present moment, and the calls, the kept verifications and the returned principals are accounted
for. -/
structure Inv (env : Env) (w : World) : Prop where
  loading : w.loading = true → w.recordsExpireAt ≤ w.clock
  log : w.log.getLast? = some w.moment
  calls : ∀ id call, w.calls id = some call → CallOk env w call
  verified : ∀ fingerprint v, w.verified fingerprint = some v → VerifiedOk env w fingerprint v
  sound : Sound env w

theorem inv_initial : Inv env .initial where
  loading := by
    intro h
    cases h
  log := rfl
  calls := by
    intro id call h
    cases h
  verified := by
    intro fingerprint v h
    cases h
  sound := by
    intro r hr
    cases hr

/-- A segment that leaves the log, and what rests on the snapshots, as it was. -/
structure Moves (w w' : World) : Prop where
  log : w'.log = w.log
  standing : ∀ keyId record g decidedUntil,
    Standing w keyId record g decidedUntil → Standing w' keyId record g decidedUntil
  answered : ∀ basis (records : ApiKeySet),
    basis ≤ w.recordsGeneration ∧ (basis = w.recordsGeneration → records = w.records) →
      basis ≤ w'.recordsGeneration ∧ (basis = w'.recordsGeneration → records = w'.records)

/-- While the snapshot stays, time only makes it expire. -/
theorem moves_of_same (hlog : w'.log = w.log) (hrecords : w'.records = w.records)
    (hexpire : w'.recordsExpireAt = w.recordsExpireAt)
    (hgeneration : w'.recordsGeneration = w.recordsGeneration) (hclock : w.clock ≤ w'.clock) :
    Moves w w' where
  log := hlog
  standing := by
    intro keyId record g decidedUntil h
    refine ⟨h.unrevoked, ?_, ?_, ?_⟩
    · rw [hgeneration]
      exact h.read
    · rw [hgeneration, hexpire, hrecords]
      exact h.inForce
    · intro hold
      rw [hgeneration] at hold
      exact (h.expired hold).trans hclock
  answered := by
    intro basis records h
    rw [hgeneration, hrecords]
    exact h

/-- A read answers only once the last snapshot has expired. -/
theorem moves_of_answer {set : ApiKeySet} (hexpired : w.recordsExpireAt ≤ w.clock) :
    Moves w (answer env w (some set)) where
  log := rfl
  standing := by
    intro keyId record g decidedUntil h
    refine ⟨h.unrevoked, Nat.le_succ_of_le h.read, ?_, ?_⟩
    · intro hnew
      have hread := h.read
      change g = w.recordsGeneration + 1 at hnew
      omega
    · intro _
      change decidedUntil ≤ w.clock
      rcases Nat.lt_or_eq_of_le h.read with hold | hcurrent
      · exact h.expired hold
      · rw [(h.inForce hcurrent).1]
        exact hexpired
  answered := by
    intro basis records h
    refine ⟨Nat.le_succ_of_le h.1, ?_⟩
    intro hnew
    have hread := h.1
    change basis = w.recordsGeneration + 1 at hnew
    omega

section Push

variable (hmoves : Moves w w')

include hmoves

theorem getElem?_push {i : Nat} {m : Moment} (h : w.log[i]? = some m) :
    w'.push.log[i]? = some m := by
  change (w'.log ++ [w'.moment])[i]? = some m
  rw [hmoves.log, List.getElem?_append_left (List.getElem?_eq_some_iff.1 h).1]
  exact h

theorem Saw.push {began g : Nat} {set : ApiKeySet} (h : Saw w began g set) :
    Saw w'.push began g set := by
  obtain ⟨i, hbegan, hi⟩ := h
  exact ⟨i, hbegan, getElem?_push hmoves hi⟩

theorem Standing.push {keyId : Text} {record : ApiKeyRecord} {g decidedUntil : Nat}
    (h : Standing w keyId record g decidedUntil) : Standing w'.push keyId record g decidedUntil := by
  obtain ⟨hunrevoked, hread, hinForce, hexpired⟩ := hmoves.standing _ _ _ _ h
  exact ⟨hunrevoked, hread, hinForce, hexpired⟩

theorem CallOk.push {call : Call} (h : CallOk env w call) : CallOk env w'.push call := by
  refine ⟨h.split, ?_, ?_⟩
  · change call.began < (w'.log ++ [w'.moment]).length
    rw [hmoves.log, List.length_append]
    exact Nat.lt_add_right _ h.began
  · have hpoint := h.point
    cases hat : call.point with
    | joined => trivial
    | answered records basis =>
      rw [hat] at hpoint
      exact ⟨hpoint.1.push hmoves, hmoves.answered basis records hpoint.2⟩
    | verifying record generation decidedUntil basis =>
      rw [hat] at hpoint
      obtain ⟨hgeneration, hstanding, set, hsaw, hget⟩ := hpoint
      exact ⟨hgeneration, hstanding.push hmoves, set, hsaw.push hmoves, hget⟩
    | locking principal decidedUntil basis =>
      rw [hat] at hpoint
      obtain ⟨record, hprincipal, hverify, hstanding, set, hsaw, hget⟩ := hpoint
      exact ⟨record, hprincipal, hverify, hstanding.push hmoves, set, hsaw.push hmoves, hget⟩

theorem VerifiedOk.push {fingerprint : Text} {v : Verified} (h : VerifiedOk env w fingerprint v) :
    VerifiedOk env w'.push fingerprint v := by
  obtain ⟨credential, keyId, secret, record, hfingerprint, hsplit, hverify, hprincipal, hstanding⟩ := h
  exact ⟨credential, keyId, secret, record, hfingerprint, hsplit, hverify, hprincipal,
    hstanding.push hmoves⟩

theorem ReturnedOk.push {r : Returned} (h : ReturnedOk env w r) : ReturnedOk env w'.push r := by
  obtain ⟨⟨i, g, set, hbegan, hended, hi, hholds⟩, hcached⟩ := h
  refine ⟨⟨i, g, set, hbegan, hended, getElem?_push hmoves hi, hholds⟩, ?_⟩
  intro g hg
  obtain ⟨set, hset⟩ := hcached g hg
  exact ⟨set, getElem?_push hmoves hset⟩

/-- **One segment**: the invariant holds after it when what it adds is accounted for. -/
theorem Inv.push (h : Inv env w) (hloading : w'.loading = true → w'.recordsExpireAt ≤ w'.clock)
    (hcalls : ∀ id call, w'.calls id = some call →
      w.calls id = some call ∨ CallOk env w'.push call)
    (hverified : ∀ fingerprint v, w'.verified fingerprint = some v →
      w.verified fingerprint = some v ∨ VerifiedOk env w'.push fingerprint v)
    (hreturned : ∀ r ∈ w'.returned, r ∈ w.returned ∨ ReturnedOk env w'.push r) :
    Inv env w'.push where
  loading := hloading
  log := List.getLast?_concat
  calls := by
    intro id call hcall
    rcases hcalls id call hcall with hold | hnew
    · exact (h.calls id call hold).push hmoves
    · exact hnew
  verified := by
    intro fingerprint v hv
    rcases hverified fingerprint v hv with hold | hnew
    · exact (h.verified fingerprint v hold).push hmoves
    · exact hnew
  sound := by
    intro r hr
    rcases hreturned r hr with hold | hnew
    · exact (h.sound r hold).push hmoves
    · exact hnew

end Push

/-- The present moment is seen by every call that has begun. -/
theorem saw_present {began g : Nat} {set : ApiKeySet} (hmoment : w.moment = some (g, set))
    (hbegan : began ≤ w.log.length) : Saw w.push began g set := by
  refine ⟨w.log.length, hbegan, ?_⟩
  change (w.log ++ [w.moment])[w.log.length]? = some (some (g, set))
  rw [List.getElem?_concat_length, hmoment]

theorem Moves.trans {w'' : World} (h : Moves w w') (h' : Moves w' w'') : Moves w w'' where
  log := h'.log.trans h.log
  standing := fun _ _ _ _ hs => h'.standing _ _ _ _ (h.standing _ _ _ _ hs)
  answered := fun _ _ ha => h'.answered _ _ (h.answered _ _ ha)

theorem moves_setCall (w : World) (id : Nat) (call : Option Call) : Moves w (w.setCall id call) :=
  moves_of_same rfl rfl rfl rfl (Nat.le_refl _)

theorem setCall_calls {id id' : Nat} {call : Option Call} {found : Call}
    (h : (w.setCall id call).calls id' = some found) : w.calls id' = some found ∨ call = some found := by
  change Function.update w.calls id call id' = some found at h
  by_cases hid : id' = id
  · subst hid
    rw [Function.update_self] at h
    exact .inr h
  · rw [Function.update_of_ne hid] at h
    exact .inl h

/-- A world whose clock may have moved on. -/
structure Ticked (w v : World) : Prop where
  moves : Moves w v
  calls : v.calls = w.calls
  verified : v.verified = w.verified
  returned : v.returned = w.returned
  loading : v.loading = true → v.recordsExpireAt ≤ v.clock

theorem Ticked.refl (h : Inv env w) : Ticked w w :=
  ⟨moves_of_same rfl rfl rfl rfl (Nat.le_refl _), rfl, rfl, rfl, h.loading⟩

theorem ticked_advance (h : Inv env w) (tick : Nat) :
    Ticked w { w with clock := w.clock + tick } where
  moves := moves_of_same rfl rfl rfl rfl (Nat.le_add_right _ _)
  calls := rfl
  verified := rfl
  returned := rfl
  loading := fun hloading => (h.loading hloading).trans (Nat.le_add_right _ _)

section Ticks

variable {v : World} (h : Inv env w) (hticked : Ticked w v) {id : Nat} {call : Call}

include h hticked

/-- A call is set to where it waits, or leaves. -/
theorem inv_setCall {found : Option Call}
    (hfound : ∀ call, found = some call → CallOk env (v.setCall id found).push call) :
    Inv env (v.setCall id found).push := by
  apply Inv.push (hticked.moves.trans (moves_setCall v id found)) h hticked.loading
  · intro id' call hcall
    rcases setCall_calls hcall with hold | hnew
    · rw [hticked.calls] at hold
      exact .inl hold
    · exact .inr (hfound call hnew)
  · intro fingerprint v' hv
    change v.verified fingerprint = some v' at hv
    rw [hticked.verified] at hv
    exact .inl hv
  · intro r hr
    change r ∈ v.returned at hr
    rw [hticked.returned] at hr
    exact .inl hr

/-- The records in force decide the call, or send it to the verification. -/
theorem inv_consider (hsplit : splitCredential call.credential = some (call.keyId, call.secret))
    (hbegan : call.began < v.log.length)
    (hsaw : Saw v.push call.began v.recordsGeneration v.records) :
    Inv env (consider v id call v.records v.recordsGeneration).push := by
  have hdrop : Inv env (v.setCall id none).push := by
    apply inv_setCall h hticked
    intro call hcall
    cases hcall
  unfold consider
  cases hget : v.records.get call.keyId with
  | none => exact hdrop
  | some record =>
    by_cases hrevoked : record.revokedAt.isSome = true
    · simp only [if_pos hrevoked]
      exact hdrop
    · simp only [if_neg hrevoked]
      apply inv_setCall h hticked
      intro waiting hwaiting
      obtain rfl := Option.some.inj hwaiting
      refine ⟨hsplit, ?_, rfl, ?_, v.records, hsaw, hget⟩
      · change call.began < (v.log ++ _).length
        rw [List.length_append]
        exact Nat.lt_add_right _ hbegan
      · refine ⟨Option.not_isSome_iff_eq_none.1 hrevoked, Nat.le_refl _, ?_, ?_⟩
        · intro _
          exact ⟨rfl, hget⟩
        · intro hlt
          exact absurd hlt (Nat.lt_irrefl _)

/-- The call reads the records in force, or joins the read of the next ones. -/
theorem inv_readRecords (hsplit : splitCredential call.credential = some (call.keyId, call.secret))
    (hbegan : call.began < v.log.length) : Inv env (readRecords v id call).push := by
  unfold readRecords
  by_cases hinForce : v.recordsExpireAt > v.clock
  · rw [if_pos hinForce]
    apply inv_consider h hticked hsplit hbegan
    apply saw_present
    · rw [World.moment, if_pos hinForce]
    · exact Nat.le_of_lt hbegan
  · rw [if_neg hinForce]
    have hmoves : Moves w { v.setCall id (some { call with point := .joined }) with loading := true } :=
      hticked.moves.trans (moves_of_same rfl rfl rfl rfl (Nat.le_refl _))
    apply Inv.push hmoves h
    · intro _
      exact Nat.not_lt.1 hinForce
    · intro id' waiting hwaiting
      rcases setCall_calls (w := v) hwaiting with hold | hnew
      · rw [hticked.calls] at hold
        exact .inl hold
      · right
        obtain rfl := Option.some.inj hnew
        refine ⟨hsplit, ?_, trivial⟩
        change call.began < (v.log ++ _).length
        rw [List.length_append]
        exact Nat.lt_add_right _ hbegan
    · intro fingerprint v' hv
      change v.verified fingerprint = some v' at hv
      rw [hticked.verified] at hv
      exact .inl hv
    · intro r hr
      change r ∈ v.returned at hr
      rw [hticked.returned] at hr
      exact .inl hr

end Ticks

/-- The place of the present moment. -/
theorem Inv.now (h : Inv env w) : w.now < w.log.length ∧ w.log[w.now]? = some w.moment := by
  have hlast := h.log
  have hne : w.log ≠ [] := by
    intro hnil
    rw [hnil] at hlast
    cases hlast
  have hpos : 0 < w.log.length := List.length_pos_of_ne_nil hne
  refine ⟨Nat.sub_lt hpos Nat.one_pos, ?_⟩
  rw [World.now, ← List.getLast?_eq_getElem?]
  exact hlast

/-- A kept verification that has not expired stands on the snapshot in force. -/
theorem Standing.current {keyId : Text} {record : ApiKeyRecord} {g decidedUntil : Nat}
    (h : Standing w keyId record g decidedUntil) (hlive : decidedUntil > w.clock) :
    w.moment = some (g, w.records) ∧ w.records.get keyId = some record := by
  have hcurrent : g = w.recordsGeneration := by
    rcases Nat.lt_or_eq_of_le h.read with hold | hcurrent
    · exact absurd (h.expired hold) (Nat.not_le.2 hlive)
    · exact hcurrent
  obtain ⟨huntil, hget⟩ := h.inForce hcurrent
  rw [huntil] at hlive
  rw [World.moment, if_pos hlive, hcurrent]
  exact ⟨rfl, hget⟩

variable (hinjective : Function.Injective env.sha256)

include hinjective

theorem inv_begin (h : Inv env w) (id : Nat) (authorization : Option Text) (tick : Nat) :
    Inv env (begin env w id authorization tick).push := by
  have hsame : Inv env w.push :=
    Inv.push (moves_of_same rfl rfl rfl rfl (Nat.le_refl _)) h h.loading
      (fun _ _ => .inl) (fun _ _ => .inl) fun _ => .inl
  obtain ⟨hnow, hpresent⟩ := h.now
  unfold begin
  cases hcredential : credentialOf authorization with
  | none => exact hsame
  | some credential =>
    simp only
    cases hsplit : splitCredential credential with
    | none => exact hsame
    | some parts =>
      obtain ⟨keyId, secret⟩ := parts
      have hmiss : Inv env (readRecords { w with clock := w.clock + tick } id
          ⟨credential, keyId, secret, w.now, .joined⟩).push :=
        inv_readRecords h (ticked_advance h tick) hsplit hnow
      simp only
      cases hcached : w.verified (env.sha256 credential) with
      | none => exact hmiss
      | some cached =>
        simp only
        by_cases hlive : cached.expiresAt > w.clock
        · rw [if_pos hlive]
          have hmoves : Moves w { w with returned := w.returned ++
              [⟨credential, cached.principal, w.now, w.now, some cached.basis⟩] } :=
            moves_of_same rfl rfl rfl rfl (Nat.le_refl _)
          apply Inv.push hmoves h h.loading (fun _ _ => .inl) (fun _ _ => .inl)
          intro r hr
          rcases List.mem_append.1 hr with hold | hnew
          · exact .inl hold
          · right
            obtain rfl := List.mem_singleton.1 hnew
            obtain ⟨credential', keyId', secret', record, hfingerprint, hsplit', hverify, hprincipal,
              hstanding⟩ := h.verified _ _ hcached
            obtain rfl := hinjective hfingerprint
            obtain ⟨hmoment, hget⟩ := hstanding.current hlive
            rw [hmoment] at hpresent
            have hkept := getElem?_push hmoves hpresent
            refine ⟨⟨w.now, cached.basis, w.records, Nat.le_refl _, Nat.le_refl _, hkept, keyId', secret',
              record, hsplit', hget, hstanding.unrevoked, hverify, hprincipal⟩, ?_⟩
            intro g hg
            obtain rfl := Option.some.inj hg
            exact ⟨w.records, hkept⟩
        · rw [if_neg hlive]
          exact hmiss

omit hinjective in
theorem inv_answer (h : Inv env w) (hloading : w.loading = true) (set : Option ApiKeySet) :
    Inv env (answer env w set).push := by
  have hcalls : ∀ id call, (answer env w set).calls id = some call →
      ∃ old, w.calls id = some old ∧ old.answered set (w.recordsGeneration + 1) = some call := by
    intro id call hcall
    have hbind : (w.calls id).bind (fun old => old.answered set (w.recordsGeneration + 1)) =
        some call := by
      cases set <;> exact hcall
    exact Option.bind_eq_some_iff.1 hbind
  cases set with
  | none =>
    have hmoves : Moves w (answer env w none) := moves_of_same rfl rfl rfl rfl (Nat.le_refl _)
    apply Inv.push hmoves h
    · intro hstarted
      cases hstarted
    · intro id call hcall
      obtain ⟨old, hold, hanswered⟩ := hcalls id call hcall
      unfold Call.answered at hanswered
      split at hanswered
      · cases hanswered
      · next hset => cases hset
      · obtain rfl := Option.some.inj hanswered
        exact .inl hold
    · intro fingerprint v hv
      exact .inl hv
    · intro r hr
      exact .inl hr
  | some set =>
    have hmoves := @moves_of_answer env _ set (h.loading hloading)
    apply Inv.push hmoves h
    · intro hstarted
      cases hstarted
    · intro id call hcall
      obtain ⟨old, hold, hanswered⟩ := hcalls id call hcall
      have hok := h.calls id old hold
      unfold Call.answered at hanswered
      split at hanswered
      · next hset => cases hset
      · next hset =>
        -- The caller that joined the read sees its snapshot in force as it answers.
        right
        obtain rfl := Option.some.inj hset
        obtain rfl := Option.some.inj hanswered
        refine ⟨hok.split, ?_, ?_, Nat.le_refl _, fun _ => rfl⟩
        · change old.began < (w.log ++ _).length
          rw [List.length_append]
          exact Nat.lt_add_right _ hok.began
        · apply saw_present
          · rw [World.moment, if_pos]
            · rfl
            · exact Nat.lt_add_of_pos_right env.ttl_pos
          · exact Nat.le_of_lt hok.began
      · obtain rfl := Option.some.inj hanswered
        exact .inl hold
    · intro fingerprint v hv
      cases hv
    · intro r hr
      exact .inl hr

omit hinjective in
theorem inv_resume (h : Inv env w) (id : Nat) (hprompt : Prompt w (.resume id)) :
    Inv env (act env w (.resume id)).push := by
  have hsame : Inv env w.push :=
    Inv.push (moves_of_same rfl rfl rfl rfl (Nat.le_refl _)) h h.loading
      (fun _ _ => .inl) (fun _ _ => .inl) fun _ => .inl
  unfold act
  simp only
  split
  · next credential keyId secret began records basis hcall =>
    have hok := h.calls id _ hcall
    obtain ⟨hsaw, -, hcurrent⟩ := hok.point
    have hbasis : basis = w.recordsGeneration := by
      simpa only [Prompt, hcall] using hprompt
    have hrecords := hcurrent hbasis
    subst hbasis hrecords
    exact inv_consider h (.refl h) hok.split hok.began
      (hsaw.push (moves_of_same rfl rfl rfl rfl (Nat.le_refl _)))
  · exact hsame

omit hinjective in
theorem inv_verified (h : Inv env w) (id : Nat) : Inv env (act env w (.verified id)).push := by
  have hsame : Inv env w.push :=
    Inv.push (moves_of_same rfl rfl rfl rfl (Nat.le_refl _)) h h.loading
      (fun _ _ => .inl) (fun _ _ => .inl) fun _ => .inl
  unfold act
  simp only
  split
  · next credential keyId secret began record generation decidedUntil basis hcall =>
    have hok := h.calls id _ hcall
    obtain ⟨-, hstanding, set, hsaw, hget⟩ := hok.point
    unfold afterVerify
    by_cases hrefused : env.verifySecret record.hash secret = false
    · simp only [if_pos hrefused]
      apply inv_setCall h (.refl h)
      intro call hcall
      cases hcall
    · simp only [if_neg hrefused]
      by_cases hstands : w.recordsGeneration = generation
      · rw [if_pos hstands]
        apply inv_setCall h (.refl h)
        intro call hfound
        obtain rfl := Option.some.inj hfound
        have hmoves := moves_setCall w id (some ⟨credential, keyId, secret, began,
          .locking (principalOf record) decidedUntil basis⟩)
        have hbegan := (hok.push hmoves).began
        exact ⟨hok.split, hbegan, record, rfl, Bool.not_eq_false _ |>.mp hrefused,
          hstanding.push hmoves, set, hsaw.push hmoves, hget⟩
      · rw [if_neg hstands]
        exact inv_readRecords h (.refl h) hok.split hok.began
  · exact hsame

omit hinjective in
theorem inv_locked (h : Inv env w) (id : Nat) : Inv env (act env w (.locked id)).push := by
  have hsame : Inv env w.push :=
    Inv.push (moves_of_same rfl rfl rfl rfl (Nat.le_refl _)) h h.loading
      (fun _ _ => .inl) (fun _ _ => .inl) fun _ => .inl
  unfold act
  simp only
  split
  · next credential keyId secret began principal decidedUntil basis hcall =>
    have hok := h.calls id _ hcall
    obtain ⟨record, hprincipal, hverify, hstanding, set, ⟨i, hbegan, hi⟩, hget⟩ := hok.point
    have hmoves : Moves w (keep env w id ⟨credential, keyId, secret, began,
        .locking principal decidedUntil basis⟩ principal decidedUntil basis) :=
      moves_of_same rfl rfl rfl rfl (Nat.le_refl _)
    apply Inv.push hmoves h h.loading
    · intro id' call hfound
      rcases setCall_calls (w := w) hfound with hold | hnew
      · exact .inl hold
      · cases hnew
    · intro fingerprint v hv
      change Function.update w.verified (env.sha256 credential)
        (some ⟨principal, decidedUntil, basis⟩) fingerprint = some v at hv
      by_cases hfingerprint : fingerprint = env.sha256 credential
      · right
        rw [hfingerprint, Function.update_self] at hv
        obtain rfl := Option.some.inj hv
        exact ⟨credential, keyId, secret, record, hfingerprint, hok.split, hverify, hprincipal,
          hstanding.push hmoves⟩
      · rw [Function.update_of_ne hfingerprint] at hv
        exact .inl hv
    · intro r hr
      rcases List.mem_append.1 hr with hold | hnew
      · exact .inl hold
      · right
        obtain rfl := List.mem_singleton.1 hnew
        have hlt := (List.getElem?_eq_some_iff.1 hi).1
        refine ⟨⟨i, basis, set, hbegan, ?_, getElem?_push hmoves hi, keyId, secret, record, hok.split,
          hget, hstanding.unrevoked, hverify, hprincipal⟩, ?_⟩
        · change i ≤ w.log.length - 1
          omega
        · intro g hg
          cases hg
  · exact hsame

/-- **Every segment keeps the invariant.** -/
theorem inv_next (h : Inv env w) (a : Action) (hprompt : Prompt w a) : Inv env (next env w a) := by
  have hsame : Inv env w.push :=
    Inv.push (moves_of_same rfl rfl rfl rfl (Nat.le_refl _)) h h.loading
      (fun _ _ => .inl) (fun _ _ => .inl) fun _ => .inl
  unfold next
  cases a with
  | begin id authorization tick =>
    unfold act
    simp only
    split
    · exact hsame
    · exact inv_begin hinjective h id authorization tick
  | answer set =>
    unfold act
    simp only
    split
    · next hloading => exact inv_answer h hloading set
    · exact hsame
  | resume id => exact inv_resume h id hprompt
  | verified id => exact inv_verified h id
  | locked id => exact inv_locked h id
  | cancel id =>
    apply inv_setCall h (.refl h)
    intro call hcall
    cases hcall
  | advance tick =>
    have hticked := ticked_advance h tick
    exact Inv.push hticked.moves h hticked.loading (fun _ _ => .inl) (fun _ _ => .inl) fun _ => .inl

/-- **A revoked key dies with its snapshot**: in every run in which each call goes on with the
answer of the read it joined before a later read answers, every returned principal was held,
unrevoked and verified, by the key set in force at a moment of its call, and no cached
verification was served once the snapshot it was decided from had expired or been replaced. -/
theorem principals_sound {actions : List Action}
    (hprompt : Along (next env) Prompt .initial actions) : Sound env (run env actions) := by
  have hinv : Inv env (run env actions) := by
    apply Along.foldl_invariant _ inv_initial hprompt
    intro w a h hp
    exact inv_next hinjective h a hp
  exact hinv.sound

end Invariant

section Sample

def sampleEnv : Env where
  sha256 := id
  verifySecret := fun hash secret => hash == secret
  ttl := 300
  ttl_pos := by decide

def sampleRecord : ApiKeyRecord where
  keyId := "0123456789abcdef".toList
  hash := "secret".toList
  scopes := ["notes:read".toList]

def liveSet : ApiKeySet := ⟨[sampleRecord], by decide⟩

def revokedSet : ApiKeySet := ⟨[{ sampleRecord with revokedAt := some 1 }], by decide⟩

def bearer : Option Text := some "Bearer cm_0123456789abcdef_secret".toList

/-- A call verifies, and another is served what it kept. -/
def servedActions : List Action :=
  [.begin 0 bearer 0, .answer (some liveSet), .resume 0, .verified 0, .locked 0, .advance 299,
    .begin 1 bearer 0]

theorem servedActions_prompt : Along (next sampleEnv) Prompt .initial servedActions := by
  decide +kernel

theorem principals_sound_served :
    Sound sampleEnv (run sampleEnv servedActions) ∧
      (run sampleEnv servedActions).returned.map (fun r => (r.principal, r.cachedFrom)) =
        [(principalOf sampleRecord, none), (principalOf sampleRecord, some 1)] :=
  ⟨principals_sound Function.injective_id servedActions_prompt, by decide +kernel⟩

/-- A call that joined the first read goes on after the second has answered that its key is
revoked; a third call is served what it kept. -/
def lateActions : List Action :=
  [.begin 0 bearer 0, .answer (some liveSet), .advance 300, .begin 1 bearer 0,
    .answer (some revokedSet), .resume 0, .verified 0, .locked 0, .begin 2 bearer 0]

/-- The revoked key is served from the cache under the snapshot that revokes it. -/
theorem late_resume_serves_revoked :
    Function.Injective sampleEnv.sha256 ∧ ¬Sound sampleEnv (run sampleEnv lateActions) := by
  refine ⟨Function.injective_id, ?_⟩
  intro hsound
  have hserved : ⟨"cm_0123456789abcdef_secret".toList, principalOf sampleRecord, 8, 8, some 1⟩ ∈
      (run sampleEnv lateActions).returned := by
    decide +kernel
  have hlog : (run sampleEnv lateActions).log[8]? = some (some (2, revokedSet)) := by
    decide +kernel
  obtain ⟨set, hset⟩ := (hsound _ hserved).cached 1 rfl
  rw [hlog] at hset
  cases hset

end Sample

end Coppermind.Api
