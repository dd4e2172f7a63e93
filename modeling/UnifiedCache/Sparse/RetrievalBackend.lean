import UnifiedCache.Lib.Machine
import UnifiedCache.Lib.PartialSort
import Mathlib.Algebra.BigOperators.Group.List.Basic
import Mathlib.Algebra.Order.Ring.Nat
import Mathlib.Data.Rat.Defs
import Mathlib.Algebra.Order.Ring.Rat
import Mathlib.Logic.Function.Basic

/-!
# Retrieval backends

The workers of a backend take requests from one queue. For every row of a request they score the indices
that are allowed for it and sort the best ones to the front. The result is kept until it is fetched, all
rows in one rectangular array. `RetrievalWorkerBackend` scores by inner products,
`HashRetrievalWorkerBackend` by the Hamming distance to the nearest token of a block.
-/

open Lib Lib.PartialSort

namespace UnifiedCache.Sparse.RetrievalBackend

/-- What a backend with queries of `δ` and scores of `β` does for one index. -/
structure Kernel (δ β : Type) where
  dim : Nat
  /-- The score of an index for a row of the query. -/
  score : (Nat → δ) → Int → β
  /-- The comparison of `partial_sort`. -/
  before : β → β → Bool

/-- A contiguous array of two dimensions. -/
structure Array2 (γ : Type) where
  rows : Nat
  cols : Nat
  data : List γ
  length : data.length = rows * cols

/-- `Request`. -/
structure Request (δ : Type) where
  reqId : Nat
  query : List δ
  batch : Nat
  topk : Nat
  indexes : List (List Int)
deriving DecidableEq

/-- `Result`. -/
structure Result (β : Type) where
  indices : List (List Int)
  scores : List (List β)
deriving DecidableEq

/-- What `get_result` returns. A cell is `none` if it is read from outside the row of the result. -/
structure Fetched (β : Type) where
  indices : List (List (Option Int))
  scores : List (List (Option β))
deriving DecidableEq

variable {δ β : Type}

/-! ## Requests -/

/-- The allowed indices of each row, without the padding. -/
def parseIndexes (indexes : Array2 Int) : List (List Int) :=
  (List.range indexes.rows).map fun i => (List.range indexes.cols).filterMap fun j =>
    let index := indexes.data.getD (i * indexes.cols + j) (-1)
    if index ≠ -1 then some index else none

/-- What `submit` makes of its arguments. -/
def Kernel.toRequest (k : Kernel δ β) (reqId : Nat) (query : Array2 δ) (topk : Nat)
    (indexes : Array2 Int) : Except String (Request δ) :=
  if query.cols ≠ k.dim then .error "Query dim mismatch"
  else if indexes.rows ≠ query.rows then .error "Query and indexes batch mismatch"
  else .ok
    { reqId
      query := query.data
      batch := indexes.rows
      topk
      indexes := parseIndexes indexes }

namespace Request

variable [Inhabited δ] (r : Request δ) (k : Kernel δ β)

/-- `q_ptr` for row `b`. -/
def row (b d : Nat) : δ := r.query.getD (b * k.dim + d) default

/-- `allowed` for row `b`. -/
def allowed (b : Nat) : List Int := r.indexes.getD b []

/-- `heap` for row `b`, before it is sorted. -/
def heap (b : Nat) : List (β × Int) := (r.allowed b).map fun idx => (k.score (r.row k b) idx, idx)

/-- `curr_topk` for row `b`. -/
def currTopk (b : Nat) : Nat := min (r.allowed b).length r.topk

/-- These are the heaps after `partial_sort`. -/
def Sorted (heaps : List (List (β × Int))) : Prop :=
  heaps.length = r.batch ∧ ∀ b < r.batch,
    PartialSorted (fun x y => k.before x.1 y.1) (r.heap k b) (r.currTopk b) (heaps.getD b [])

instance [DecidableEq β] (heaps : List (List (β × Int))) : Decidable (r.Sorted k heaps) :=
  inferInstanceAs (Decidable (_ ∧ ∀ b < r.batch, _))

/-- The result with these heaps. -/
def result (heaps : List (List (β × Int))) : Result β where
  indices := (List.range r.batch).map fun b => ((heaps.getD b []).take (r.currTopk b)).map Prod.snd
  scores := (List.range r.batch).map fun b => ((heaps.getD b []).take (r.currTopk b)).map Prod.fst

end Request

/-- The first `n` elements of a row are copied. -/
def copyRow {γ : Type} (row : List γ) (n : Nat) : List (Option γ) := (List.range n).map fun i => row[i]?

/-- The arrays of `get_result`. -/
def Result.fetch (res : Result β) : Fetched β :=
  let topk := (res.indices.getD 0 []).length
  { indices := (List.range res.indices.length).map fun i => copyRow (res.indices.getD i []) topk
    scores := (List.range res.indices.length).map fun i => copyRow (res.scores.getD i []) topk }

/-! ## Threads -/

/-- A backend with its threads. -/
structure State (δ β : Type) where
  nextReqId : Nat
  /-- Calls of `submit` that have taken an id and not got the lock yet. -/
  submitting : List (Request δ)
  requests : List (Request δ)
  /-- The request that a worker has taken. -/
  worker : Nat → Option (Request δ)
  results : Nat → Option (Result β)
  /-- The `done` of a request that has a status. -/
  requestStatus : Nat → Option Bool
  /-- Calls of `wait` that have found the status. -/
  waiting : List Nat
  /-- The requests in the order of their ids. -/
  numbered : List (Request δ)
  /-- Calls of `wait` that have returned. -/
  waits : List Nat
  /-- What calls of `get_result` have returned, `none` for an exception. -/
  gets : List (Nat × Option (Fetched β))

/-- A new backend. -/
def State.start : State δ β where
  nextReqId := 0
  submitting := []
  requests := []
  worker := fun _ => none
  results := fun _ => none
  requestStatus := fun _ => none
  waiting := []
  numbered := []
  waits := []
  gets := []

namespace State

variable (s : State δ β) (k : Kernel δ β)

/-- `submit`, up to its lock. -/
def submit (query : Array2 δ) (topk : Nat) (indexes : Array2 Int) : State δ β :=
  match k.toRequest s.nextReqId query topk indexes with
  | .error _ => s
  | .ok r =>
    { s with
      nextReqId := s.nextReqId + 1
      submitting := s.submitting ++ [r]
      numbered := s.numbered ++ [r] }

/-- A call of `submit` puts its request into the queue. -/
def push (i : Nat) : Option (State δ β) := do
  let r ← s.submitting[i]?
  some { s with
    submitting := s.submitting.eraseIdx i
    requests := s.requests ++ [r]
    requestStatus := Function.update s.requestStatus r.reqId (some false) }

/-- `poll`. -/
def poll (id : Nat) : Bool := (s.results id).isSome

/-- `wait`, up to the wait for `done`. -/
def wait (id : Nat) : State δ β :=
  match s.requestStatus id with
  | none => s
  | some _ => { s with waiting := s.waiting ++ [id] }

/-- A call of `wait` returns. -/
def waitReturn (i : Nat) : Option (State δ β) := do
  let id ← s.waiting[i]?
  if s.requestStatus id = some true then
    some { s with
      waiting := s.waiting.eraseIdx i
      waits := s.waits ++ [id] }
  else none

/-- `get_result`. -/
def getResult (id : Nat) : State δ β :=
  { s with
    gets := s.gets ++ [(id, (s.results id).map Result.fetch)]
    results := Function.update s.results id none }

/-- A worker takes a request. -/
def pop (w : Nat) : Option (State δ β) :=
  match s.worker w, s.requests with
  | none, r :: requests => some { s with
      requests := requests
      worker := Function.update s.worker w (some r) }
  | _, _ => none

/-- A worker has sorted the heaps like this, and hands over the result. -/
def finish [Inhabited δ] [DecidableEq β] (w : Nat) (heaps : List (List (β × Int))) :
    Option (State δ β) := do
  let r ← s.worker w
  if r.Sorted k heaps then
    some { s with
      worker := Function.update s.worker w none
      results := Function.update s.results r.reqId (some (r.result heaps))
      requestStatus := Function.update s.requestStatus r.reqId (some true) }
  else none

end State

/-- What happens. -/
inductive Event (δ β : Type) where
  | submit (query : Array2 δ) (topk : Nat) (indexes : Array2 Int)
  | push (i : Nat)
  | wait (id : Nat)
  | waitReturn (i : Nat)
  | getResult (id : Nat)
  | pop (w : Nat)
  | finish (w : Nat) (heaps : List (List (β × Int)))

/-- One step with `n` workers. -/
def step [Inhabited δ] [DecidableEq β] (k : Kernel δ β) (n : Nat) (s : State δ β) :
    Event δ β → Option (State δ β)
  | .submit query topk indexes => some (s.submit k query topk indexes)
  | .push i => s.push i
  | .wait id => some (s.wait id)
  | .waitReturn i => s.waitReturn i
  | .getResult id => some (s.getResult id)
  | .pop w => if w < n then s.pop w else none
  | .finish w heaps => s.finish k w heaps

/-- The machine of a backend with `n` workers. -/
def machine [Inhabited δ] [DecidableEq β] (k : Kernel δ β) (n : Nat) :
    Machine (State δ β) (Event δ β) where
  init s := s = .start
  step := step k n

/-! ## Scores -/

/-- `RetrievalWorkerBackend` over `data_`. -/
def retrieval (dim : Nat) (data : List ℚ) : Kernel ℚ ℚ where
  dim
  score q idx := (List.range dim).foldl
    (fun score d => score + q d * data.getD (idx.toNat * dim + d) 0) 0
  before a b := a > b

/-- What the code is compiled for. -/
inductive Isa where
  | aarch64
  | arm
  | x86
  | other
deriving DecidableEq

/-- The bits of a number of `w` bits that are set. -/
def popcount (w x : Nat) : Nat := (List.range w).countP x.testBit

/-- Eight bytes as one number. -/
def word (x : Nat → BitVec 8) : Nat :=
  (List.range 8).foldr (fun i acc => (x i).toNat + 2 ^ 8 * acc) 0

/-- `vec_popcnt_xor_sum16`. -/
def vecPopcntXorSum16 (isa : Isa) (a b : Nat → BitVec 8) : Nat :=
  let vx := fun i => a i ^^^ b i
  match isa with
  | .aarch64 => ((List.range 16).map fun i => popcount 8 (vx i).toNat).sum % 2 ^ 8
  | .arm => ((List.range 16).map fun i => popcount 8 (vx i).toNat).sum % 2 ^ 16
  | .x86 => (popcount 64 (word vx) + popcount 64 (word fun i => vx (8 + i))) % 2 ^ 16
  | .other => (List.range 16).foldl (fun s i => (s + popcount 32 (vx i).toNat) % 2 ^ 16) 0

/-- `VEC_SIZE`. -/
def vecSize : Nat := 16

/-- The `sum` for one token. -/
def tokenSum (isa : Isa) (dim : Nat) (q key : Nat → BitVec 8) : Nat :=
  let vecPerDim := dim / vecSize
  let tailDim := dim % vecSize
  let tailStart := vecPerDim * vecSize
  ((List.range vecPerDim).map fun v => vecPopcntXorSum16 isa (fun i => q (v * vecSize + i))
      fun i => key (v * vecSize + i)).sum +
    ((List.range tailDim).map fun t => popcount 32 (q (tailStart + t) ^^^ key (tailStart + t)).toNat).sum

/-- The loop over the tokens, which ends early when the score is `0`. -/
def tokenLoop : Nat → List Nat → Nat
  | score, [] => score
  | score, sum :: sums =>
    if sum < score then if sum = 0 then sum else tokenLoop sum sums else tokenLoop score sums

/-- `UINT16_MAX`. -/
def uint16Max : Nat := 65535

/-- `HashRetrievalWorkerBackend` over `data_`. -/
def hashRetrieval (isa : Isa) (blockSize dim : Nat) (data : List (BitVec 8)) :
    Kernel (BitVec 8) Nat where
  dim
  score q idx := tokenLoop uint16Max ((List.range blockSize).map fun t =>
    tokenSum isa dim q fun d => data.getD (idx.toNat * blockSize * dim + t * dim + d) 0)
  before a b := a < b

end UnifiedCache.Sparse.RetrievalBackend
