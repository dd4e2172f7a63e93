import Mathlib.Algebra.Ring.Nat
import Mathlib.Tactic.TypeStar

/-!
# The hashes of a prompt in MindIE

The hash of a block is chained to that of the block before it. `hash_block` of the plugin computes it
with Python's integers, `uc_hash_ext` with words of 64 bits, where `std::hash` of an integer is the
integer. Both keep the value 0 for blocks without a hash.
-/

namespace UnifiedCache.Mindie

/-- The tokens of block `b`. -/
def blockTokens {α : Type*} (tokens : List α) (blockSize b : Nat) : List α :=
  (tokens.drop (b * blockSize)).take blockSize

/-! ## The plugin -/

namespace PrefixCachePlugin

/-- `INVALID_HASH_VALUE`. -/
def invalidHashValue : Nat := 0

/-- `EXTRA_HASH`. -/
def extraHash : Nat := invalidHashValue

/-- `cpp_style_hash` of an integer. -/
def cppStyleHash (value : Nat) : Nat := value

/-- What `hash_combine` adds up. -/
def combineSum (seed tokenId : Nat) : Nat :=
  cppStyleHash tokenId + 0x9e3779b97f4a7c15 + (seed <<< 6) + (seed >>> 2)

/-- `hash_combine`. -/
def hashCombine (seed tokenId : Nat) : Nat :=
  let seed := seed ^^^ combineSum seed tokenId
  let seed := if seed = invalidHashValue then 1 else seed
  seed % 2 ^ 64

/-- `hash_block`. -/
def hashBlock (prefixHashValue : Nat) (blockTokenIds : List Nat) : Nat :=
  let seed := invalidHashValue
  let seed := if prefixHashValue ≠ invalidHashValue then hashCombine seed prefixHashValue else seed
  let seed := blockTokenIds.foldl hashCombine seed
  hashCombine seed extraHash

/-- The hash that `b` blocks of a prompt end with, one `hash_block` after the other. -/
def prefixHash (tokens : List Nat) (blockSize : Nat) : Nat → Nat
  | 0 => invalidHashValue
  | b + 1 => hashBlock (prefixHash tokens blockSize b) (blockTokens tokens blockSize b)

/-- The hashes of the first `n` blocks. -/
def prefixHashes (tokens : List Nat) (blockSize n : Nat) : List Nat :=
  (List.range n).map fun b => prefixHash tokens blockSize (b + 1)

end PrefixCachePlugin

/-! ## The extension -/

namespace UcHashExt

/-- `INVALID_HASH_VALUE`. -/
def invalidHashValue : UInt64 := 0

/-- `EXTRA_HASH`. -/
def extraHash : UInt64 := 0

/-- `CONST`. -/
def const : UInt64 := 0x9e3779b97f4a7c15

/-- `HashCombine`. -/
def hashCombine (seed v : UInt64) : UInt64 :=
  let result := seed ^^^ (v + const + (seed <<< 6) + (seed >>> 2))
  if result = invalidHashValue then 1 else result

/-- `ToU64Mask`. -/
def toU64Mask (v : Int64) : UInt64 := v.toUInt64

/-- `PyintToU64Mask`, of an integer that is not negative. -/
def pyintToU64Mask (obj : Nat) : UInt64 := UInt64.ofNat obj

/-- `HashBlock`. -/
def hashBlock (prefixHash : UInt64) (p : List Int64) : UInt64 :=
  let seed : UInt64 := 0
  let seed := if prefixHash ≠ 0 then hashCombine seed prefixHash else seed
  let seed := p.foldl (fun seed v => hashCombine seed (toU64Mask v)) seed
  hashCombine seed extraHash

/-- The loop of `HashPrefix`, from block `b` on. -/
def hashPrefixLoop (tokens : List Int64) (blockSize : Nat) : Nat → Nat → UInt64 → List UInt64
  | 0, _, _ => []
  | k + 1, b, prefixHashValue =>
    let hash := hashBlock prefixHashValue (blockTokens tokens blockSize b)
    hash :: hashPrefixLoop tokens blockSize k (b + 1) hash

/-- `HashPrefix`. -/
def hashPrefix (prefix0 : Nat) (tokens : List Int64) (blockSize startBlock endBlock : Nat) :
    Except String (List UInt64) :=
  if blockSize = 0 then .error "block_size must be > 0"
  else if endBlock < startBlock then .error "end_block must be >= start_block"
  else if tokens.length < endBlock * blockSize then .error "tokens too short"
  else
    .ok (hashPrefixLoop tokens blockSize (endBlock - startBlock) startBlock (pyintToU64Mask prefix0))

end UcHashExt

end UnifiedCache.Mindie
