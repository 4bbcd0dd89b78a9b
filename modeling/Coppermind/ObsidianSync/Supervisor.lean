import Coppermind.Lib.Run
import Mathlib.Logic.Function.Basic

/-!
# The sync supervisor

The supervisor runs one client of the sync service as a child process.  Control operations hold
`controlBusy` from their first step to their last; the restart timer, the child's exit handler and
`shutdown` run outside it.  A `Point` is the await at which the holder of `controlBusy` stands;
of the calls outside it only the awaits are kept that something still follows.
-/

namespace Coppermind.ObsidianSync

/-- A child process.  Its `exit` or `error` event is delivered after it has ended. -/
inductive Proc where
  | alive
  /-- It has ended, and its `exit` event is not delivered. -/
  | exited
  /-- It could not be started, and its `error` event is not delivered. -/
  | unstarted
  /-- Nothing more is heard of it. -/
  | gone
deriving DecidableEq, Repr

/-- The awaits of the control operations. -/
inductive Point where
  /-- At boot, the control port is being published. -/
  | booting
  /-- `connect`, until the connection file is written. -/
  | connecting
  | connected
  | connectFailed
  /-- `resume`, until the connection is saved. -/
  | resuming
  /-- `pause`, until the connection is saved; then for the child; then for the status. -/
  | pausing
  | pauseStopping (proc : Option Nat)
  | pausePublishing
  /-- `disconnect`, until the connection is saved; then for the child; then for the client's own
  commands and the removal of the connection file; then for the status. -/
  | disconnecting
  | disconnectStopping (proc : Option Nat)
  | unlinking
  | disconnected
  /-- `reconcileConfig`, until the settings are read; then for the client's report. -/
  | settings
  | refreshing
  /-- The report matched; the status is being published. -/
  | matched
  /-- It did not match: the child is being stopped, `status.paused` flipped meanwhile. -/
  | stopping (proc : Option Nat) (wasPaused : Bool)
  | configuring
  | applying
  | verifying
  | saving
  | applied
  /-- `startSync` past its guard, before it spawns. -/
  | starting
  /-- `startSync` after it has spawned. -/
  | announcing
  /-- The failure is being published. -/
  | failed
deriving DecidableEq, Repr

/-- The awaits of `shutdown`. -/
inductive ShutdownPoint where
  | stopping (proc : Option Nat)
  | publishing
deriving DecidableEq, Repr

structure World where
  connection : Bool
  paused : Bool
  stopping : Bool
  child : Option Nat
  procs : Nat → Proc
  spawned : Nat
  restartTimer : Bool
  /-- The `startSync` calls of the timer that are past the guard and have not spawned. -/
  starting : Nat
  /-- The unexpected exits whose status is being published. -/
  exiting : Nat
  /-- The holder of `controlBusy`. -/
  control : Option Point
  shutdown : Option ShutdownPoint
  /-- `pause`, `disconnect` or `shutdown` has returned, and no `resume` or `connect` went ahead
  since. -/
  quiet : Bool
  /-- A configuration apply failed, and no verification has succeeded since. -/
  unverified : Bool
  /-- A child was started meanwhile. -/
  startedUnverified : Bool

/-- The supervisor after `loadConnection`, as its server starts to listen. -/
def World.boot (connection paused : Bool) : World where
  connection := connection
  paused := paused
  stopping := false
  child := none
  procs := fun _ => .gone
  spawned := 0
  restartTimer := false
  starting := 0
  exiting := 0
  control := some .booting
  shutdown := none
  quiet := false
  unverified := false
  startedUnverified := false

section Child

variable (w : World)

/-- The guard of `startSync`. -/
def World.canStart (w : World) : Bool :=
  w.connection && !w.paused && !w.stopping && w.child.isNone

/-- `spawn`, and `child = proc`. -/
def spawnClient (started : Bool) : World :=
  { w with
    procs := Function.update w.procs w.spawned (if started then .alive else .unstarted)
    child := some w.spawned
    spawned := w.spawned + 1
    startedUnverified := w.startedUnverified || w.unverified }

/-- The promise of `stopChild` is settled by the child's `exit` event. -/
def World.stopped (w : World) (proc : Option Nat) : Bool :=
  match proc with
  | none => true
  | some p => w.procs p == .gone

/-- `handleChildExit`, to its await; a child that was to stop is not restarted. -/
def handleChildExit (proc : Nat) : World :=
  let w := { w with procs := Function.update w.procs proc .gone }
  if w.child = some proc then
    let expected := w.stopping || w.paused
    { w with child := none, exiting := if expected then w.exiting else w.exiting + 1 }
  else w

/-- `scheduleRestart`. -/
def scheduleRestart : World :=
  if w.connection && !w.paused && !w.stopping then { w with restartTimer := true } else w

end Child

section Control

variable (w : World)

/-- The operation returns, and `controlBusy` is released. -/
def World.release (w : World) : World := { w with control := none }

/-- `await startSync()` at the end of `reconcileConfig`. -/
def startSync : World :=
  if w.canStart then { w with control := some .starting } else w.release

/-- `reconcileConfig`, to its first await. -/
def reconcileConfig : World :=
  if w.connection then { w with control := some .settings } else w.release

/-- The catch of `reconcileConfig`. -/
def reconcileFailed : World := { w with control := some .failed }

/-- The catch, where a change of the client's configuration had begun. -/
def applyFailed : World := { w with control := some .failed, unverified := true }

/-- The change of the client's configuration begins. -/
def beginChange : World :=
  { w with restartTimer := false, paused := true, control := some (.stopping w.child w.paused) }

/-- `pause` or `disconnect` returns. -/
def returnQuiet : World := { w.release with quiet := true }

/-- A control operation goes on behind `await stopChild()`. -/
def afterStop : World :=
  match w.control with
  | some (.pauseStopping _) => { w with control := some .pausePublishing }
  | some (.disconnectStopping _) => { w with control := some .unlinking }
  | some (.stopping _ wasPaused) => { w with paused := wasPaused, control := some .configuring }
  | _ => w

/-- The process the holder of `controlBusy` waits for. -/
def World.waitsFor (w : World) : Option (Option Nat) :=
  match w.control with
  | some (.pauseStopping proc) | some (.disconnectStopping proc) | some (.stopping proc _) =>
    some proc
  | _ => none

/-- What an await gave: whether it was fulfilled; whether the client's report matched, or the
child process could be started. -/
structure Outcome where
  ok : Bool
  flag : Bool
deriving DecidableEq, Repr

/-- The holder of `controlBusy` goes on. -/
def resumeControl (o : Outcome) : World :=
  match w.control with
  | none => w
  | some .booting => if o.ok then reconcileConfig w else w.release
  | some .connecting =>
    if o.ok then { w with connection := true, paused := false, control := some .connected }
    else { w with control := some .connectFailed }
  | some .connected => if o.ok then reconcileConfig w else { w with control := some .connectFailed }
  | some .connectFailed => w.release
  | some .resuming => if o.ok then reconcileConfig w else w.release
  | some .pausing =>
    if o.ok then { w with control := some (.pauseStopping w.child) } else w.release
  | some .pausePublishing => if o.ok then returnQuiet w else w.release
  | some .disconnecting =>
    if o.ok then { w with control := some (.disconnectStopping w.child) } else w.release
  | some .unlinking =>
    if o.ok then { w with connection := false, paused := false, control := some .disconnected }
    else w.release
  | some .disconnected => if o.ok then returnQuiet w else w.release
  | some .settings =>
    if o.ok then { w with control := some .refreshing } else reconcileFailed w
  | some .refreshing =>
    if o.ok then
      if o.flag then { w with unverified := false, control := some .matched } else beginChange w
    else reconcileFailed w
  | some .matched => if o.ok then startSync w else reconcileFailed w
  | some .configuring => if o.ok then { w with control := some .applying } else applyFailed w
  | some .applying => if o.ok then { w with control := some .verifying } else applyFailed w
  | some .verifying =>
    if o.ok && o.flag then { w with unverified := false, control := some .saving } else applyFailed w
  | some .saving => if o.ok then { w with control := some .applied } else applyFailed w
  | some .applied => if o.ok then startSync w else applyFailed w
  | some .starting =>
    if o.ok then { spawnClient w o.flag with control := some .announcing } else reconcileFailed w
  | some .announcing => if o.ok then w.release else reconcileFailed w
  | some .failed => w.release
  | some (.pauseStopping proc) | some (.disconnectStopping proc) | some (.stopping proc _) =>
    if w.stopped proc then afterStop w else w

/-- The control operations that a request starts. -/
inductive Request where
  | connect
  | configure
  | pause
  | resume
  | disconnect
deriving DecidableEq, Repr

/-- A control operation, to its first await; a `connect` whose input is refused goes no further. -/
def request : Request → Bool → World
  | .connect, valid =>
    if valid && !w.connection then { w with quiet := false, control := some .connecting } else w
  | .configure, _ => reconcileConfig w
  | .pause, _ =>
    if w.connection then
      { w with paused := true, restartTimer := false, control := some .pausing }
    else returnQuiet w
  | .resume, _ =>
    if w.connection then { w with quiet := false, paused := false, control := some .resuming }
    else w
  | .disconnect, _ =>
    let w := { w with restartTimer := false, paused := true }
    if w.connection then { w with control := some .disconnecting }
    else { w with control := some (.disconnectStopping w.child) }

end Control

section Shutdown

variable (w : World)

/-- `shutdown`, to its first await. -/
def beginShutdown : World :=
  if w.stopping then { w with quiet := true }
  else { w with stopping := true, restartTimer := false, shutdown := some (.stopping w.child) }

/-- `shutdown` goes on; `expired` where `stopChild` gave up waiting. -/
def resumeShutdown (ok expired : Bool) : World :=
  match w.shutdown with
  | some (.stopping proc) =>
    if w.stopped proc || expired then { w with shutdown := some .publishing } else w
  | some .publishing =>
    if ok then { w with shutdown := none, quiet := true } else { w with shutdown := none }
  | none => w

end Shutdown

inductive Action where
  | request (r : Request) (valid : Bool)
  /-- The interval of fifteen seconds. -/
  | interval
  | control (o : Outcome)
  /-- The two seconds of the control operation's `stopChild` are over: `SIGKILL` is sent. -/
  | expire
  | shutdown
  | resumeShutdown (ok expired : Bool)
  /-- The restart timer fires. -/
  | fire
  /-- A `startSync` of the timer goes on. -/
  | start (o : Outcome)
  /-- A child exits. -/
  | exit (proc : Nat)
  /-- The `exit` or `error` event of a child is delivered. -/
  | event (proc : Nat)
  /-- `handleChildExit` goes on behind its await. -/
  | restart (ok : Bool)
deriving DecidableEq, Repr

/-- One step; an action that is not enabled does nothing. -/
def next (w : World) : Action → World
  | .request r valid => if w.control.isSome then w else request w r valid
  | .interval => if w.control.isSome || w.stopping then w else reconcileConfig w
  | .control o => resumeControl w o
  | .expire => afterStop w
  | .shutdown => beginShutdown w
  | .resumeShutdown ok expired => resumeShutdown w ok expired
  | .fire =>
    if w.restartTimer then
      let w := { w with restartTimer := false }
      if w.canStart then { w with starting := w.starting + 1 } else w
    else w
  | .start o =>
    if w.starting = 0 then w
    else
      let w := { w with starting := w.starting - 1 }
      if o.ok then spawnClient w o.flag else w
  | .exit proc =>
    if w.procs proc = .alive then
      { w with procs := Function.update w.procs proc .exited }
    else w
  | .event proc =>
    if w.procs proc = .exited ∨ w.procs proc = .unstarted then handleChildExit w proc else w
  | .restart ok =>
    if w.exiting = 0 then w
    else
      let w := { w with exiting := w.exiting - 1 }
      if ok then scheduleRestart w else w

end Coppermind.ObsidianSync
