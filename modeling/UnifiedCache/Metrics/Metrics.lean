import UnifiedCache.Lib.Machine
import Mathlib.Algebra.BigOperators.Group.Finset.Basic
import Mathlib.Data.Fintype.Prod
import Mathlib.Algebra.Order.Group.Multiset

/-!
# Metrics

`Metrics`: every thread that updates statistics has a buffer of its own, made of two inner buffers. A
writer reads which of them is to be written, and writes under the lock of that inner buffer; a collector
switches the buffers of a thread, reads the old inner buffer and clears it under its lock. The index is
read before the lock is taken.

Any number of threads write and any number of them collect. The parts between which others may run are
steps: the load of an index, a locked section, the two halves of the switch. The values are exact. A
gauge or histogram value carries its place in the order of all updates, which the source does not store.
-/

open Lib

namespace UnifiedCache.Metrics

/-- `MetricType`. -/
inductive MetricType where
  | counter
  | gauge
  | histogram
deriving DecidableEq, Repr

/-- A value, the thread that wrote it and the number of updates before it. -/
structure Entry (τ V : Type) where
  thread : τ
  stamp : Nat
  value : V
deriving DecidableEq, Repr

/-- `InnerBuffer`, and the totals of `GetAllStatsAndClear`. A counter that is not there is 0. -/
structure Stats (ν τ V : Type) where
  counterStats : ν → V
  gaugeStats : ν → Option (Entry τ V)
  histogramStats : ν → List (Entry τ V)

section Stats

variable {ν τ V : Type} [DecidableEq ν] [AddCommMonoid V]

namespace Stats

/-- `Clear`. -/
def empty : Stats ν τ V := ⟨fun _ => 0, fun _ => none, fun _ => []⟩

/-- The locked section of `UpdateStats`. -/
def write (maxVectorLen : Nat) (buf : Stats ν τ V) (type : MetricType) (name : ν) (e : Entry τ V) :
    Stats ν τ V :=
  match type with
  | .counter =>
    { buf with counterStats := Function.update buf.counterStats name (buf.counterStats name + e.value) }
  | .gauge => { buf with gaugeStats := Function.update buf.gaugeStats name (some e) }
  | .histogram =>
    if (buf.histogramStats name).length < maxVectorLen then
      { buf with histogramStats :=
          Function.update buf.histogramStats name (buf.histogramStats name ++ [e]) }
    else buf

/-- What `GetAllStatsAndClear` adds to its totals. -/
def merge (total buf : Stats ν τ V) : Stats ν τ V where
  counterStats name := total.counterStats name + buf.counterStats name
  gaugeStats name := (buf.gaugeStats name).orElse fun _ => total.gaugeStats name
  histogramStats name := total.histogramStats name ++ buf.histogramStats name

end Stats

end Stats

/-! ## The threads -/

/-- An update between the load of the index and the locked section. -/
structure Pending (ν V : Type) where
  type : MetricType
  name : ν
  value : V
  writeIdx : Bool

/-- Where a collector stands in its loop over the buffers. -/
inductive CollectorPc where
  | idle
  /-- Before the switch of buffer `k`, or at the end. -/
  | next (k : Nat)
  /-- In the switch, between the load and the exchange. -/
  | loaded (k : Nat) (idx : Bool)
  /-- Before the locked section. -/
  | exchanged (k : Nat) (oldIdx : Bool)
deriving DecidableEq, Repr

/-- A thread in `GetAllStatsAndClear`. -/
structure Collector (ν τ V : Type) where
  pc : CollectorPc
  total : Stats ν τ V

/-- An update that was made: how many values the histogram of its buffer held is noted. -/
structure Update (ν τ V : Type) where
  type : MetricType
  name : ν
  entry : Entry τ V
  held : Nat

/-- `Metrics`, the buffers of the threads and the threads themselves. -/
structure State (ν τ κ V : Type) where
  statsType : ν → Option MetricType
  /-- `buffers_`: the threads that are registered. -/
  buffers : List τ
  innerBufs : τ × Bool → Stats ν τ V
  writeIdx : τ → Bool
  writers : τ → Option (Pending ν V)
  collectors : κ → Collector ν τ V
  /-- What the calls of `GetAllStatsAndClear` gave. -/
  results : List (Stats ν τ V)
  /-- The updates that were made. -/
  made : List (Update ν τ V)
  /-- The inner buffers that were read, and whose they are. -/
  reads : List (τ × Stats ν τ V)

/-- What a thread can do. -/
inductive Event (ν τ κ V : Type) where
  | createStats (name : ν) (type : MetricType)
  /-- The first update of a thread registers its buffer. -/
  | register (t : τ)
  /-- `UpdateStats` up to the load of the index. -/
  | load (t : τ) (name : ν) (value : V)
  /-- The locked section of `UpdateStats`. -/
  | write (t : τ)
  /-- `GetAllStatsAndClear` is called. -/
  | begin (c : κ)
  /-- The load of `SwitchBuffer`. -/
  | loadIdx (c : κ)
  /-- The exchange of `SwitchBuffer`. -/
  | exchange (c : κ)
  /-- The locked section of `GetAllStatsAndClear`. -/
  | collect (c : κ)
  /-- `GetAllStatsAndClear` returns. -/
  | done (c : κ)

variable {ν τ κ V : Type} [DecidableEq ν] [DecidableEq τ] [DecidableEq κ] [AddCommMonoid V]

namespace State

/-- A program before its first update. -/
def start : State ν τ κ V where
  statsType _ := none
  buffers := []
  innerBufs _ := .empty
  writeIdx _ := false
  writers _ := none
  collectors _ := ⟨.idle, .empty⟩
  results := []
  made := []
  reads := []

/-- A collector moves on. -/
def move (s : State ν τ κ V) (c : κ) (pc : CollectorPc) : State ν τ κ V :=
  { s with collectors := Function.update s.collectors c ⟨pc, (s.collectors c).total⟩ }

variable (maxVectorLen : Nat) (s : State ν τ κ V)

/-- One step of a thread. -/
def step : Event ν τ κ V → Option (State ν τ κ V)
  | .createStats name type =>
    some { s with statsType := Function.update s.statsType name (some ((s.statsType name).getD type)) }
  | .register t =>
    if t ∉ s.buffers ∧ (s.writers t).isNone then some { s with buffers := s.buffers ++ [t] } else none
  | .load t name value =>
    if t ∈ s.buffers ∧ (s.writers t).isNone then
      match s.statsType name with
      | none => some s
      | some type =>
        some { s with writers := Function.update s.writers t (some ⟨type, name, value, s.writeIdx t⟩) }
    else none
  | .write t =>
    (s.writers t).map fun p =>
      let writeBuf := s.innerBufs (t, p.writeIdx)
      let entry := ⟨t, s.made.length, p.value⟩
      { s with
        innerBufs := Function.update s.innerBufs (t, p.writeIdx)
          (writeBuf.write maxVectorLen p.type p.name entry)
        writers := Function.update s.writers t none
        made := s.made ++ [⟨p.type, p.name, entry, (writeBuf.histogramStats p.name).length⟩] }
  | .begin c =>
    match (s.collectors c).pc with
    | .idle => some (s.move c (.next 0))
    | _ => none
  | .loadIdx c =>
    match (s.collectors c).pc with
    | .next k => s.buffers[k]?.map fun t => s.move c (.loaded k (s.writeIdx t))
    | _ => none
  | .exchange c =>
    match (s.collectors c).pc with
    | .loaded k idx => s.buffers[k]?.map fun t =>
        { s.move c (.exchanged k (s.writeIdx t)) with writeIdx := Function.update s.writeIdx t (!idx) }
    | _ => none
  | .collect c =>
    match (s.collectors c).pc with
    | .exchanged k oldIdx => s.buffers[k]?.map fun t =>
        let readBuf := s.innerBufs (t, oldIdx)
        { s with
          innerBufs := Function.update s.innerBufs (t, oldIdx) .empty
          collectors := Function.update s.collectors c
            ⟨.next (k + 1), (s.collectors c).total.merge readBuf⟩
          reads := s.reads ++ [(t, readBuf)] }
    | _ => none
  | .done c =>
    match (s.collectors c).pc with
    | .next k =>
      if s.buffers.length ≤ k then
        some { s with
          collectors := Function.update s.collectors c ⟨.idle, .empty⟩
          results := s.results ++ [(s.collectors c).total] }
      else none
    | _ => none

end State

/-- All runs. -/
def machine (maxVectorLen : Nat) : Machine (State ν τ κ V) (Event ν τ κ V) where
  init s := s = .start
  step := State.step maxVectorLen

/-! ## What is conserved -/

section Conserved

variable [Fintype τ] [Fintype κ] {M : Type} [AddCommMonoid M]

/-- What was collected and what is still in the buffers, by a measure. -/
def State.held (μ : Stats ν τ V → M) (s : State ν τ κ V) : M :=
  (s.results.map μ).sum + ∑ c, μ (s.collectors c).total + ∑ place, μ (s.innerBufs place)

variable (maxVectorLen : Nat) (s : State ν τ κ V)

/-- The values collected for a counter and those in the buffers are all updates of it. -/
def CountersOk : Prop :=
  ∀ name, s.held (fun stats => stats.counterStats name) =
    (s.made.map fun u => if u.type = .counter ∧ u.name = name then u.entry.value else 0).sum

/-- The values collected for a histogram and those in the buffers are the updates of it that found less
than `maxVectorLen` values in their buffer, each of them once. -/
def HistogramsOk : Prop :=
  ∀ name, s.held (fun stats => (stats.histogramStats name : Multiset (Entry τ V))) =
      ((s.made.filter fun u => u.type = .histogram ∧ u.name = name ∧ u.held < maxVectorLen).map
        Update.entry : List (Entry τ V)) ∧
    (s.held fun stats => (stats.histogramStats name : Multiset (Entry τ V))).Nodup

end Conserved

/-- The values of a gauge that were collected from the buffer of a thread, one after the other. -/
def State.collectedGauge (s : State ν τ κ V) (t : τ) (name : ν) : List (Entry τ V) :=
  s.reads.filterMap fun read => if read.1 = t then read.2.gaugeStats name else none

/-- The values of the gauges of a thread are collected in the order in which they were written. -/
def GaugesOk (s : State ν τ κ V) : Prop :=
  ∀ t name, ((s.collectedGauge t name).map Entry.stamp).Pairwise (· < ·)

/-- A gauge is written into the buffer to be written, or into one that was exchanged and has still to be
collected. -/
def Timely (s : State ν τ κ V) : Event ν τ κ V → Prop
  | .write t => ∀ p, s.writers t = some p → p.type = .gauge →
      p.writeIdx = s.writeIdx t ∨
        ∃ c k, (s.collectors c).pc = .exchanged k p.writeIdx ∧ s.buffers[k]? = some t
  | _ => True

end UnifiedCache.Metrics
