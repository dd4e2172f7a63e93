import UnifiedCache.Lib.Lookup
import UnifiedCache.Lib.Machine
import UnifiedCache.Lib.Stripes

/-!
# The memory pool of MindIE

`UnifiedCacheMempool` puts the blocks of MindIE into a store and gets them back. The key of a block is a
string with the rank as its second part. With an MLA model all ranks have the same cache, so that a block
is stored once, under its key for rank 0; each rank is a process of its own, which knows nothing but its
own keys and what it has remembered of its rank.

A string is the list of its characters. What raises no `RuntimeError` but another exception is `none`.
-/

open Lib

namespace UnifiedCache.Mindie

/-- A string. -/
abbrev Str := List Char

/-- `str` of a rank. -/
def str (n : Nat) : Str := Nat.toDigits 10 n

/-- `strip`. -/
def strip (s : Str) : Str :=
  ((s.dropWhile Char.isWhitespace).reverse.dropWhile Char.isWhitespace).reverse

/-- The value of a string of digits. -/
def digits (s : Str) : Option Nat :=
  if s ≠ [] ∧ s.all Char.isDigit then some (Nat.ofDigitChars 10 s 0) else none

/-- `int`, of what has no underscore. -/
def int (s : Str) : Option Int :=
  match strip s with
  | '-' :: s => (digits s).map fun n => -(n : Int)
  | '+' :: s => (digits s).map fun n => (n : Int)
  | s => (digits s).map fun n => (n : Int)

/-- `l[start::step]`. -/
def sliceFrom {α : Type*} (start : Int) (step : Nat) (l : List α) : List α :=
  stride step (if start < 0 then l.length + start else start).toNat l

/-- `BypassMode`. -/
structure BypassMode where
  get : Bool := false
  put : Bool := false
  exists_ : Bool := false

/-- What a process has from its configuration: of `MempoolConfig`, and `self.bypass`. -/
structure Mempool where
  isMla : Bool
  scpSize : Nat
  tpSize : Nat
  bypass : BypassMode

/-- A call of `dump_data` or `load_data`. -/
structure StoreCall (η τ : Type) where
  hashKeys : List η
  shardIndexes : List Nat
  kvTensors : List (List τ)

/-- `LOAD_OK` and `DUMP_OK`. -/
def ok : Int := 0

/-- `LOAD_ERROR` and `DUMP_ERROR`. -/
def error : Int := -1

namespace Mempool

variable {η τ : Type} (pool : Mempool) (md5 : Str → η)

/-- All ranks share one cache. -/
def sharesMla : Bool := pool.isMla && pool.scpSize == 1

/-- The loop of `_get_tp_rank_0_hash_key`, with `self.tp_rank` and the variables of the loop: the new
`self.tp_rank`, the keys and `cur_tp`, which is unbound without a key. -/
def getTpRank0HashKeyLoop (keys : List Str) : List Str → Int → List Str → Option Int →
    Option (Int × List Str × Int)
  | [], tpRank, rank0Keys, curTp => curTp.map fun curTp => (tpRank, rank0Keys, curTp)
  | key :: rest, tpRank, rank0Keys, _ =>
    match key.splitOn '_' with
    | first :: second :: parts =>
      (int second).bind fun curTp =>
        let tpRank := if tpRank < 0 then curTp else tpRank
        if curTp = 0 then some (tpRank, keys, curTp)
        else getTpRank0HashKeyLoop keys rest tpRank
          (rank0Keys ++ [['_'].intercalate (first :: ['0'] :: parts)]) (some curTp)
    | _ => none

/-- `_get_tp_rank_0_hash_key`. -/
def getTpRank0HashKey (tpRank : Int) (keys : List Str) : Option (Int × List Str × Int) :=
  getTpRank0HashKeyLoop keys keys tpRank [] none

/-- `_get_tensors_for_store`. -/
def getTensorsForStore (mindieTensors : List (List (List τ))) : List (List τ) :=
  mindieTensors.map List.flatten

/-- What `put` and `get` hand to the store. -/
def storeCall (keys : List Str) (tensors : List (List (List τ))) : StoreCall η τ :=
  ⟨keys.map md5, List.replicate keys.length 0, getTensorsForStore tensors⟩

/-- `exists`: the new `self.tp_rank` and the answer. The store's answer is `none` for a
`RuntimeError`. -/
def exists_ (lookupOnPrefix : List η → Option Int) (tpRank : Int) (keys : List Str) :
    Option (Int × Bool) :=
  let lookup (keys : List Str) := (lookupOnPrefix (keys.map md5)).any fun foundIdx => foundIdx ≥ 0
  if pool.bypass.exists_ then some (tpRank, false)
  else if pool.sharesMla then
    (getTpRank0HashKey tpRank keys).map fun (tpRank, keys, curTp) =>
      (tpRank, if curTp > 0 then true else lookup keys)
  else some (tpRank, lookup keys)

/-- `batch_exist`. -/
def batchExist (lookupOnPrefix : List η → Option Int) (keys : List Str) : Option (List Bool) :=
  let n := keys.length
  if n = 0 then none
  else if pool.bypass.exists_ then some (List.replicate n false)
  else if pool.sharesMla then
    if pool.tpSize = 0 ∨ n % pool.tpSize ≠ 0 then some (List.replicate n false)
    else
      let blockTp0Keys := stride pool.tpSize 0 keys
      match lookupOnPrefix (blockTp0Keys.map md5) with
      | some foundIdx => some ((List.range blockTp0Keys.length).flatMap fun (blockIdx : Nat) =>
          List.replicate pool.tpSize (decide ((blockIdx : Int) < foundIdx + 1)))
      | none => some (List.replicate n false)
  else
    match lookupOnPrefix (keys.map md5) with
    | some foundIdx => some (List.replicate (foundIdx + 1).toNat true ++
        List.replicate (n - foundIdx - 1).toNat false)
    | none => some (List.replicate n false)

/-- `put`: the new `self.tp_rank`, the call of `dump_data` if there is one, and what is returned.
`done` tells whether the dump is accepted and waited for without an error. -/
def put (tpRank : Int) (keys : List Str) (tensors : List (List (List τ))) (done : Bool) :
    Option (Int × Option (StoreCall η τ) × Int) :=
  let code := if done then ok else error
  if pool.bypass.put then some (tpRank, none, ok)
  else if pool.sharesMla then
    (getTpRank0HashKey tpRank keys).bind fun (tpRank, tp0Keys, _) =>
      if pool.tpSize = 0 then none
      else
        let keys := sliceFrom tpRank pool.tpSize tp0Keys
        if keys = [] then some (tpRank, none, ok)
        else
          some (tpRank, some (storeCall md5 keys (sliceFrom tpRank pool.tpSize tensors)), code)
  else some (tpRank, some (storeCall md5 keys tensors), code)

/-- `get`. -/
def get (tpRank : Int) (keys : List Str) (tensors : List (List (List τ))) (done : Bool) :
    Option (Int × Option (StoreCall η τ) × Int) :=
  let code := if done then ok else error
  if pool.bypass.get then some (tpRank, none, ok)
  else if pool.sharesMla then
    (getTpRank0HashKey tpRank keys).map fun (tpRank, keys, _) =>
      (tpRank, some (storeCall md5 keys tensors), code)
  else some (tpRank, some (storeCall md5 keys tensors), code)

end Mempool

/-! ## Workers -/

/-- The key of a block without its second part. -/
structure BlockName where
  first : Str
  parts : List Str
  first_ok : '_' ∉ first
  parts_ok : ∀ p ∈ parts, '_' ∉ p

/-- The key of a block for a rank. -/
def BlockName.key (b : BlockName) (rank : Nat) : Str :=
  ['_'].intercalate (b.first :: str rank :: b.parts)

/-- An MLA model on `tpSize` ranks, with nothing bypassed. -/
def Mempool.mla (tpSize : Nat) : Mempool where
  isMla := true
  scpSize := 1
  tpSize := tpSize
  bypass := {}

/-- What MindIE calls in a worker. -/
inductive Call (τ : Type) where
  | exists_ (blocks : List BlockName) (lookup : Option Int)
  | put (blocks : List BlockName) (tensors : List (List (List τ))) (done : Bool)
  | get (blocks : List BlockName) (tensors : List (List (List τ))) (done : Bool)

/-- The process of a rank, which only sees keys of its own: what it remembers is `self.tp_rank`. -/
def worker {η : Type} (τ : Type) (pool : Mempool) (md5 : Str → η) (rank : Nat) :
    Machine Int (Call τ) where
  init tpRank := tpRank = -1
  step tpRank
    | .exists_ blocks lookup =>
      (pool.exists_ md5 (fun _ => lookup) tpRank (blocks.map (·.key rank))).map (·.1)
    | .put blocks tensors done =>
      (pool.put md5 tpRank (blocks.map (·.key rank)) tensors done).map (·.1)
    | .get blocks tensors done =>
      (pool.get md5 tpRank (blocks.map (·.key rank)) tensors done).map (·.1)

section Calls

variable {η τ : Type} {n : Nat} (md5 : Str → η) (blocks : Fin n → BlockName)
  (tensors : Fin n → List (List τ))

/-- The keys of the blocks for a rank. -/
def rankKeys (rank : Nat) : List Str := List.ofFn fun i => (blocks i).key rank

/-- The blocks at some places under their keys for rank 0, with the tensors at the same places. -/
def rank0Call (places : List (Fin n)) : StoreCall η τ where
  hashKeys := places.map fun i => md5 ((blocks i).key 0)
  shardIndexes := places.map fun _ => 0
  kvTensors := places.map fun i => (tensors i).flatten

/-- The keys of the blocks for all ranks, block by block. -/
def blockMajorKeys (tpSize : Nat) : List Str :=
  (List.finRange n).flatMap fun i => (List.range tpSize).map fun rank => (blocks i).key rank

end Calls

end UnifiedCache.Mindie
