import UnifiedCache.Lib.Machine
import UnifiedCache.Lib.Probing

/-!
# The shared buffer of the pc store

`ShareBuffer`: the processes of a node share a table of slots in shared memory, found by linear
probing from the hash of the block's id. A reader of a block holds a reference to its slot. The first
reader that finds the slot in state `INIT` reads the file into it, the others try again later.

One step is one critical section of a slot's lock, or one access outside of the locks. `AcquireBlock`
holds the lock of the table from its first section to its last, so that at most one call is in it;
`ReleaseBlock` and the readers do not take that lock. Which process a thread belongs to makes no
difference. A live reader may be asked at any time and by several threads at once, which is more than
`TransShareQueue` does, whose workers ask a reader again and again until it is ready or fails and then
destroy it; a reader is not destroyed while it is asked, as whoever asks has a reference to it.
-/

open Lib

namespace UnifiedCache.PcStore.ShareBuffer

/-- `ShareBlockId`: the 16 bytes of a block's id. -/
structure ShareBlockId where
  lo : UInt64
  hi : UInt64
deriving DecidableEq, Repr

/-- `Used`: the id that is zero marks an empty slot. -/
def ShareBlockId.used (id : ShareBlockId) : Bool := id.lo ≠ 0 || id.hi ≠ 0

/-- `ShareBlockStatus`. -/
inductive ShareBlockStatus where
  | init
  | loading
  | loaded
  | failure
deriving DecidableEq, Repr

/-- `ShareBlockHeader`, without its lock. -/
structure ShareBlockHeader where
  id : ShareBlockId
  ref : Int
  status : ShareBlockStatus
deriving DecidableEq, Repr

namespace ShareBlockHeader

/-- A header after `InitShmBuffer`. -/
def fresh : ShareBlockHeader := ⟨⟨0, 0⟩, 0, .init⟩

/-- `Refer`. -/
def refer (h : ShareBlockHeader) : ShareBlockHeader :=
  let status := if h.ref = 0 ∧ h.status ≠ .loaded then .init else h.status
  { h with status := status, ref := h.ref + 1 }

/-- `Occupy`. -/
def occupy (_ : ShareBlockHeader) (block : ShareBlockId) : ShareBlockHeader := ⟨block, 1, .init⟩

/-- `ReleaseBlock`. -/
def release (h : ShareBlockHeader) : ShareBlockHeader := { h with ref := h.ref - 1 }

end ShareBlockHeader

/-- What the buffer is set up with. -/
structure Config where
  blockNumber : Nat
  /-- `std::hash` of the block. -/
  hasher : ShareBlockId → Nat
  blockNumber_pos : 0 < blockNumber

/-- Where a call of `AcquireBlock` stands. -/
inductive AcquirePc where
  /-- At the next iteration of the loop. -/
  | probe (i pos : Nat) (reusedPos : Option Nat)
  /-- After the loop; without a position `AcquireBlock` returns none. -/
  | reuse (reusedPos : Option Nat)
deriving DecidableEq, Repr

/-- The call of `AcquireBlock` that has the lock of the table. -/
structure Acquire where
  block : ShareBlockId
  pc : AcquirePc
  /-- Record: the headers when the call got the lock. -/
  before : Nat → ShareBlockHeader

/-- `ShareBuffer::Reader` on a slot. -/
structure Reader where
  block : ShareBlockId
  pos : Nat
  alive : Bool
  /-- Record: `Ready4Read` has returned `OK`. -/
  ok : Bool
deriving DecidableEq, Repr

/-- What `Ready4Read` returns. -/
inductive ReadyStatus where
  | ok
  | error
  | retry
deriving DecidableEq, Repr

/-- Where a call of `Ready4ReadOnSharedBuffer` stands. -/
inductive ReadyPc where
  /-- Before the first, second and third read of the status. -/
  | isLoaded
  | isFailure
  | isLoading
  /-- Before the critical section. -/
  | lock
  /-- In `File::Read`; how often the slot had been occupied before is a record. -/
  | read (since : Nat)
  /-- Before the last write of the status. -/
  | write (success : Bool)
  | returned (status : ReadyStatus)
deriving DecidableEq, Repr

/-- Between the step to `LOADING` and the last write of the status. -/
def ReadyPc.executing : ReadyPc → Bool
  | .read _ | .write _ => true
  | _ => false

/-- `Ready4Read` has not returned. -/
def ReadyPc.underway : ReadyPc → Bool
  | .returned _ => false
  | _ => true

/-- A call of `Ready4ReadOnSharedBuffer`. -/
structure Call where
  reader : Nat
  pc : ReadyPc
deriving DecidableEq, Repr

/-- The shared memory, the readers and the calls. -/
structure State where
  headers : Nat → ShareBlockHeader
  /-- The block a slot's bytes are a complete read of, and how often the slot had been occupied before
  the read; none where they are no complete read. -/
  data : Nat → Option (ShareBlockId × Nat)
  /-- Record: how often a slot was occupied. -/
  occupied : Nat → Nat
  acquiring : Option Acquire
  readers : List Reader
  calls : List Call

namespace State

/-- The buffer after `Setup`. -/
def start : State where
  headers := fun _ => .fresh
  data := fun _ => none
  occupied := fun _ => 0
  acquiring := none
  readers := []
  calls := []

variable (s : State)

/-- Replaces a header. -/
def setHeader (p : Nat) (h : ShareBlockHeader) : State :=
  { s with headers := Function.update s.headers p h }

/-- `header->Occupy(block)`; the bytes of the slot stay. -/
def occupy (p : Nat) (block : ShareBlockId) : State :=
  { s.setHeader p ((s.headers p).occupy block) with
    occupied := Function.update s.occupied p (s.occupied p + 1) }

/-- `AcquireBlock` returns a position and `MakeSharedReader` makes a reader of it. -/
def enter (block : ShareBlockId) (p : Nat) : State :=
  { s with acquiring := none, readers := s.readers ++ [⟨block, p, true, false⟩] }

/-- The reader is destroyed, which releases its slot. -/
def leave (i : Nat) (r : Reader) : State :=
  { s.setHeader r.pos (s.headers r.pos).release with
    readers := s.readers.set i { r with alive := false } }

/-- The call of `AcquireBlock` moves on. -/
def setAcquire (a : Acquire) : State := { s with acquiring := some a }

/-- A call moves on. -/
def setCall (c : Nat) (call : Call) (pc : ReadyPc) : State :=
  { s with calls := s.calls.set c { call with pc := pc } }

/-- `Ready4Read` returns `OK`. -/
def setOk (i : Nat) (r : Reader) : State := { s with readers := s.readers.set i { r with ok := true } }

end State

/-- The events. -/
inductive Event where
  /-- A call of `AcquireBlock` gets the lock of the table. -/
  | acquire (block : ShareBlockId)
  /-- The next step of the call that has it. -/
  | probe
  /-- A reader is asked. -/
  | ready (i : Nat)
  /-- The next step of a call of `Ready4Read`, and whether the file is read without an error. -/
  | call (c : Nat) (ok : Bool)
  /-- A reader is destroyed. -/
  | release (i : Nat)
deriving DecidableEq, Repr

variable (cfg : Config)

/-- `AcquireBlock`: one critical section. -/
def acquireStep (a : Acquire) (s : State) : State :=
  match a.pc with
  | .probe i pos reusedPos =>
    if i < cfg.blockNumber then
      let header := s.headers pos
      if header.id = a.block then (s.setHeader pos header.refer).enter a.block pos
      else if ¬ header.id.used then
        if reusedPos.isSome then s.setAcquire { a with pc := .reuse reusedPos }
        else (s.occupy pos a.block).enter a.block pos
      else
        let reusedPos := if header.ref ≤ 0 ∧ reusedPos = none then some pos else reusedPos
        s.setAcquire { a with pc := .probe (i + 1) ((pos + 1) % cfg.blockNumber) reusedPos }
    else s.setAcquire { a with pc := .reuse reusedPos }
  | .reuse (some p) => (s.occupy p a.block).enter a.block p
  | .reuse none => { s with acquiring := none }

/-- `Ready4ReadOnSharedBuffer`: one step of a call of reader `r`. -/
def readyStep (c : Nat) (call : Call) (r : Reader) (ok : Bool) (s : State) : Option State :=
  let header := s.headers r.pos
  match call.pc with
  | .isLoaded =>
    if header.status = .loaded then
      some ((s.setOk call.reader r).setCall c call (.returned .ok))
    else some (s.setCall c call .isFailure)
  | .isFailure =>
    if header.status = .failure then some (s.setCall c call (.returned .error))
    else some (s.setCall c call .isLoading)
  | .isLoading =>
    if header.status = .loading then some (s.setCall c call (.returned .retry))
    else some (s.setCall c call .lock)
  | .lock =>
    if header.status = .init then
      -- From here on the bytes of the slot are written.
      some { (s.setHeader r.pos { header with status := .loading }).setCall c call
          (.read (s.occupied r.pos)) with
        data := Function.update s.data r.pos none }
    else some (s.setCall c call (.returned .retry))
  | .read since =>
    let data := if ok then some (r.block, since) else none
    some { s.setCall c call (.write ok) with data := Function.update s.data r.pos data }
  | .write true =>
    let s := s.setHeader r.pos { header with status := .loaded }
    some ((s.setOk call.reader r).setCall c call (.returned .ok))
  | .write false =>
    some ((s.setHeader r.pos { header with status := .failure }).setCall c call (.returned .error))
  | .returned _ => none

/-- No call of the reader is under way. -/
def State.idle (s : State) (i : Nat) : Bool :=
  s.calls.all fun call => call.reader ≠ i || !call.pc.underway

/-- One event. The id that is zero is not acquired: in the table it would be an empty slot. -/
def step (s : State) : Event → Option State
  | .acquire block =>
    if s.acquiring = none ∧ block.used then
      some (s.setAcquire ⟨block, .probe 0 (cfg.hasher block % cfg.blockNumber) none, s.headers⟩)
    else none
  | .probe => s.acquiring.map fun a => acquireStep cfg a s
  | .ready i =>
    match s.readers[i]? with
    | some r => if r.alive then some { s with calls := s.calls ++ [⟨i, .isLoaded⟩] } else none
    | none => none
  | .call c ok =>
    s.calls[c]?.bind fun call => s.readers[call.reader]?.bind fun r => readyStep c call r ok s
  | .release i =>
    match s.readers[i]? with
    | some r =>
      if r.alive ∧ s.idle i then some (s.leave i r) else none
    | none => none

/-- The buffer under any number of threads. -/
def machine : Machine State Event where
  init s := s = .start
  step := step cfg

/-! ## The table -/

namespace State

variable (s : State)

/-- The slots as a table of keys. -/
def table (p : Nat) : Option ShareBlockId :=
  if (s.headers p).id.used then some (s.headers p).id else none

/-- The number of live readers of a slot. -/
def liveReaders (p : Nat) : Nat := s.readers.countP fun r => r.alive && r.pos = p

/-- The call reads the file into the slot. -/
def Reading (c p : Nat) : Prop :=
  ∃ call r since, s.calls[c]? = some call ∧ call.pc = .read since ∧
    s.readers[call.reader]? = some r ∧ r.pos = p

/-- A live reader of the slot executes the read of the file. -/
def Executing (c p : Nat) : Prop :=
  ∃ call r, s.calls[c]? = some call ∧ call.pc.executing = true ∧
    s.readers[call.reader]? = some r ∧ r.alive = true ∧ r.pos = p

end State

end UnifiedCache.PcStore.ShareBuffer
