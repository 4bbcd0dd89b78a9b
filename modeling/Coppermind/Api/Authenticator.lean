import Coppermind.Lib.Text
import Coppermind.Lib.Run
import Mathlib.Data.Finset.Image
import Mathlib.Data.List.Nodup

/-!
# Bearer-key authentication

`authenticate` checks a credential against the key records of a snapshot that lives for a while,
and keeps successful checks.  Its awaits cut it into segments: it may wait for the read of the key
records, for the thread that verifies the secret and for the lock, and other calls, the read and
the clock move on meanwhile.  A `World` is the authenticator between two segments with the calls
that wait; its log holds the key set in force at every moment so far.
-/

namespace Coppermind.Api

open Coppermind.Lib Coppermind.Lib.Text

/-- `ApiKeyRecord`, less what authentication does not read. -/
structure ApiKeyRecord where
  keyId : Text
  hash : Text
  scopes : List Text
  revokedAt : Option Nat := none
deriving DecidableEq, Repr

/-- `ApiKeySet`: no two of its records share an id. -/
structure ApiKeySet where
  keys : List ApiKeyRecord
  unique : (keys.map (·.keyId)).Nodup
deriving DecidableEq

/-- `{record.key_id: record for record in key_set.keys}.get(key_id)`. -/
def ApiKeySet.get (set : ApiKeySet) (keyId : Text) : Option ApiKeyRecord :=
  set.keys.find? (·.keyId == keyId)

def ApiKeySet.empty : ApiKeySet := ⟨[], List.nodup_nil⟩

/-- `Principal`. -/
structure Principal where
  keyId : Text
  scopes : Finset Text
deriving DecidableEq

/-- `Principal(record.key_id, frozenset(record.scopes))`. -/
def principalOf (record : ApiKeyRecord) : Principal := ⟨record.keyId, record.scopes.toFinset⟩

/-- What the authenticator calls, and how long a snapshot lives. -/
structure Env where
  /-- `hashlib.sha256(credential.encode("utf-8")).digest()`. -/
  sha256 : Text → Text
  /-- `verify_secret(encoded_hash, secret)`. -/
  verifySecret : Text → Text → Bool
  ttl : Nat
  /-- `CACHE_TTL_SECONDS` is five minutes. -/
  ttl_pos : 0 < ttl

section Credential

/-- `KEY_ID_PATTERN.fullmatch(text)`. -/
def isKeyId (t : Text) : Bool :=
  t.length == 16 && t.all fun c => ('a' ≤ c && c ≤ 'z') || ('0' ≤ c && c ≤ '9')

/-- `split_credential`. -/
def splitCredential (credential : Text) : Option (Text × Text) :=
  if "cm_".toList.isPrefixOf credential then
    let rest := credential.drop 3
    let keyId := rest.takeWhile (· != '_')
    let secret := (rest.dropWhile (· != '_')).tail
    if '_' ∈ rest ∧ isKeyId keyId = true ∧ secret ≠ [] then some (keyId, secret) else none
  else none

/-- The credential of an `Authorization` header. -/
def credentialOf (authorization : Option Text) : Option Text :=
  match authorization with
  | none => none
  | some header =>
    if "Bearer ".toList.isPrefixOf header then some (strip (header.drop 7)) else none

end Credential

/-- Where a call of `authenticate` waits.  `generation` and `decided_until` are read when it goes
on; `basis` is the generation of the records it goes on with, which the code does not keep. -/
inductive Point where
  /-- The read it joined has not answered. -/
  | joined
  /-- The read has answered, and the call has not gone on yet. -/
  | answered (records : ApiKeySet) (basis : Nat)
  | verifying (record : ApiKeyRecord) (generation decidedUntil basis : Nat)
  | locking (principal : Principal) (decidedUntil basis : Nat)

structure Call where
  credential : Text
  keyId : Text
  secret : Text
  /-- The place of the log at which the call began. -/
  began : Nat
  point : Point

/-- `_Verified`, with the generation it was decided from. -/
structure Verified where
  principal : Principal
  expiresAt : Nat
  basis : Nat

/-- A principal that a call returned. -/
structure Returned where
  credential : Text
  principal : Principal
  began : Nat
  ended : Nat
  /-- The generation the served verification was decided from, when a cached one was served. -/
  cachedFrom : Option Nat
deriving DecidableEq

/-- The snapshot in force at a moment, with its generation. -/
abbrev Moment := Option (Nat × ApiKeySet)

structure World where
  records : ApiKeySet
  recordsExpireAt : Nat
  recordsGeneration : Nat
  verified : Text → Option Verified
  loading : Bool
  clock : Nat
  calls : Nat → Option Call
  returned : List Returned
  log : List Moment

/-- The snapshot in force now: the last one read, while it has not expired. -/
def World.moment (w : World) : Moment :=
  if w.recordsExpireAt > w.clock then some (w.recordsGeneration, w.records) else none

def World.initial : World :=
  ⟨.empty, 0, 0, fun _ => none, false, 0, fun _ => none, [], [none]⟩

inductive Action where
  /-- A call begins; the clock advances by `tick` between its two readings of it. -/
  | begin (id : Nat) (authorization : Option Text) (tick : Nat)
  /-- The read of the key set answers, or fails. -/
  | answer (set : Option ApiKeySet)
  /-- A call goes on with the answer of the read it joined. -/
  | resume (id : Nat)
  /-- The verification thread of a call returns. -/
  | verified (id : Nat)
  /-- A call takes the lock. -/
  | locked (id : Nat)
  /-- A call is cancelled where it waits. -/
  | cancel (id : Nat)
  | advance (tick : Nat)

section Segments

variable (env : Env) (w : World)

/-- The place of the log that holds the present moment. -/
def World.now (w : World) : Nat := w.log.length - 1

def World.setCall (w : World) (id : Nat) (call : Option Call) : World :=
  { w with calls := Function.update w.calls id call }

/-- The loop of `authenticate` from the records it read to the verification. -/
def consider (id : Nat) (call : Call) (records : ApiKeySet) (basis : Nat) : World :=
  match records.get call.keyId with
  | none => w.setCall id none
  | some record =>
    if record.revokedAt.isSome then w.setCall id none
    else
      w.setCall id (some { call with
        point := .verifying record w.recordsGeneration w.recordsExpireAt basis })

/-- `records()`: the snapshot in force, or the read that is joined or started. -/
def readRecords (id : Nat) (call : Call) : World :=
  if w.recordsExpireAt > w.clock then consider w id call w.records w.recordsGeneration
  else { w.setCall id (some { call with point := .joined }) with loading := true }

/-- `authenticate` to its first await. -/
def begin (id : Nat) (authorization : Option Text) (tick : Nat) : World :=
  match credentialOf authorization with
  | none => w
  | some credential =>
    match splitCredential credential with
    | none => w
    | some (keyId, secret) =>
      let miss := readRecords { w with clock := w.clock + tick } id
        ⟨credential, keyId, secret, w.now, .joined⟩
      match w.verified (env.sha256 credential) with
      | none => miss
      | some cached =>
        if cached.expiresAt > w.clock then
          { w with returned := w.returned ++
              [⟨credential, cached.principal, w.now, w.now, some cached.basis⟩] }
        else miss

/-- What an answer does to a call that joined the read. -/
def Call.answered (call : Call) (set : Option ApiKeySet) (generation : Nat) : Option Call :=
  match call.point, set with
  | .joined, none => none
  | .joined, some set => some { call with point := .answered set generation }
  | _, _ => some call

/-- `_read_key_set`, from the store's answer on. -/
def answer (set : Option ApiKeySet) : World :=
  let calls := fun id => (w.calls id).bind fun call =>
    call.answered set (w.recordsGeneration + 1)
  match set with
  | none => { w with loading := false, calls := calls }
  | some set =>
    { w with
      loading := false
      records := set
      recordsExpireAt := w.clock + env.ttl
      recordsGeneration := w.recordsGeneration + 1
      verified := fun _ => none
      calls := calls }

/-- The loop's end: kept where it still stands against the snapshot in force, else once more. -/
def afterVerify (id : Nat) (call : Call) (record : ApiKeyRecord)
    (generation decidedUntil basis : Nat) : World :=
  if env.verifySecret record.hash call.secret = false then w.setCall id none
  else if w.recordsGeneration = generation then
    w.setCall id (some { call with point := .locking (principalOf record) decidedUntil basis })
  else readRecords w id call

/-- Under the lock: the verification is kept, and the principal returned. -/
def keep (id : Nat) (call : Call) (principal : Principal) (decidedUntil basis : Nat) : World :=
  { w.setCall id none with
    verified := Function.update w.verified (env.sha256 call.credential)
      (some ⟨principal, decidedUntil, basis⟩)
    returned := w.returned ++ [⟨call.credential, principal, call.began, w.now, none⟩] }

/-- One segment; an action that is not enabled does nothing. -/
def act : Action → World
  | .begin id authorization tick =>
    if (w.calls id).isSome then w else begin env w id authorization tick
  | .answer set => if w.loading then answer env w set else w
  | .resume id =>
    match w.calls id with
    | some ⟨credential, keyId, secret, began, .answered records basis⟩ =>
      consider w id ⟨credential, keyId, secret, began, .answered records basis⟩ records basis
    | _ => w
  | .verified id =>
    match w.calls id with
    | some ⟨credential, keyId, secret, began, .verifying record generation decidedUntil basis⟩ =>
      afterVerify env w id
        ⟨credential, keyId, secret, began, .verifying record generation decidedUntil basis⟩
        record generation decidedUntil basis
    | _ => w
  | .locked id =>
    match w.calls id with
    | some ⟨credential, keyId, secret, began, .locking principal decidedUntil basis⟩ =>
      keep env w id ⟨credential, keyId, secret, began, .locking principal decidedUntil basis⟩
        principal decidedUntil basis
    | _ => w
  | .cancel id => w.setCall id none
  | .advance tick => { w with clock := w.clock + tick }

/-- The present moment goes into the log. -/
def World.push (w : World) : World :=
  { w with log := w.log ++ [w.moment] }

/-- A segment, and the moment after it. -/
def next (a : Action) : World := (act env w a).push

end Segments

/-- The run of some actions. -/
def run (env : Env) (actions : List Action) : World := actions.foldl (next env) .initial

end Coppermind.Api
