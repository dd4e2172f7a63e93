import UnifiedCache.Lib.Machine

/-!
# The recycle service of the nfs store

`CapacityCheck` calls `Trigger` when there is little room. `Trigger` starts the service thread if the
service is not running yet, and requests a pass under the lock. The service thread says that it runs, waits
for a request, runs `DoRecycle` and takes the request back. The destructor stops and joins it.

A step is one access to the atomic flag, the start of a thread, its assignment to `worker_`, or one
section under the lock. A thread that waits for the condition variable may wake up without a reason.
-/

open Lib

namespace UnifiedCache.NfsStore.RecycleService

/-- Where a call of `Trigger` stands. -/
inductive TriggerPc where
  /-- Before it reads `serviceRunning_`. -/
  | read
  /-- It has read that the service is not running. -/
  | start
  /-- It has started thread `r`, and is going to assign it to `worker_`. -/
  | assign (r : Nat)
  /-- Before the lock. -/
  | lock
  | returned
deriving DecidableEq

/-- Where a thread in `Recycler` stands. -/
inductive RecyclerPc where
  /-- Before it sets `serviceRunning_`. -/
  | setRunning
  /-- Before it locks for the wait. -/
  | enter
  /-- In the wait. -/
  | blocked
  /-- Woken in the wait, before it has the lock again. -/
  | woken
  /-- In `DoRecycle`. -/
  | doRecycle
  /-- `DoRecycle` has returned, and the lock for the reset is not taken yet. -/
  | reset
  | exited
deriving DecidableEq

/-- Where the destructor stands. -/
inductive DtorPc where
  | notCalled
  | join
  | returned
deriving DecidableEq

/-- The service and the threads in it. `worker` is the thread that `worker_` can join. -/
structure State where
  stop : Bool
  recycling : Bool
  serviceRunning : Bool
  worker : Option Nat
  calls : List TriggerPc
  recyclers : List RecyclerPc
  dtor : DtorPc
  terminated : Bool
deriving DecidableEq

/-- A new object. -/
def new : State where
  stop := false
  recycling := false
  serviceRunning := false
  worker := none
  calls := []
  recyclers := []
  dtor := .notCalled
  terminated := false

namespace State

variable (s : State)

/-- Call `i` gets to another place. -/
def setCall (i : Nat) (pc : TriggerPc) : State := { s with calls := s.calls.set i pc }

/-- Thread `r` gets to another place. -/
def setRecycler (r : Nat) (pc : RecyclerPc) : State := { s with recyclers := s.recyclers.set r pc }

/-- `cv_.notify_all`. -/
def notifyAll : State :=
  { s with recyclers := s.recyclers.map fun pc => if pc = .blocked then .woken else pc }

/-- A step of call `i` of `Trigger`. An assignment to a joinable thread ends the process. -/
def trigger (i : Nat) : TriggerPc → Option State
  | .read => some (s.setCall i (if s.serviceRunning then .lock else .start))
  | .start =>
    some ({ s with recyclers := s.recyclers ++ [RecyclerPc.setRunning] }.setCall i (.assign s.recyclers.length))
  | .assign r =>
    if s.worker.isSome then some { s with terminated := true }
    else some ({ s with worker := some r }.setCall i .lock)
  | .lock =>
    some ((if s.recycling then s else { s with recycling := true }.notifyAll).setCall i .returned)
  | .returned => none

/-- A step of thread `r` in `Recycler`. -/
def recycler (r : Nat) : RecyclerPc → Option State
  | .setRunning => some ({ s with serviceRunning := true }.setRecycler r .enter)
  | .enter | .woken =>
    some (s.setRecycler r (if s.stop then .exited else if s.recycling then .doRecycle else .blocked))
  | .blocked => some (s.setRecycler r .woken)
  | .doRecycle => some (s.setRecycler r .reset)
  | .reset => some ({ s with recycling := false }.setRecycler r .enter)
  | .exited => none

/-- A step of the destructor, which is called after the last `Trigger`. -/
def destroy : DtorPc → Option State
  | .notCalled =>
    if s.calls.all (· = .returned) then some { s with stop := true, dtor := .join }.notifyAll else none
  | .join =>
    match s.worker with
    | none => some { s with dtor := .returned }
    | some r =>
      if s.recyclers[r]? = some .exited then some { s with worker := none, dtor := .returned } else none
  | .returned => none

end State

/-- What happens next. -/
inductive Event where
  /-- A thread calls `Trigger`. -/
  | call
  /-- A call of `Trigger` takes a step. -/
  | trigger (i : Nat)
  /-- A thread in `Recycler` takes a step. -/
  | recycler (r : Nat)
  /-- The destructor takes a step. -/
  | destroy
deriving DecidableEq

/-- The service. -/
def service : Machine State Event where
  init s := s = new
  step s e :=
    if s.terminated then none
    else match e with
      | .call => if s.dtor = .notCalled then some { s with calls := s.calls ++ [.read] } else none
      | .trigger i => (s.calls[i]?).bind (s.trigger i)
      | .recycler r => (s.recyclers[r]?).bind (s.recycler r)
      | .destroy => s.destroy s.dtor

end UnifiedCache.NfsStore.RecycleService
