import UnifiedCache.Connector.Dispatch

/-!
# The matched-token promise

`get_num_new_matched_tokens` promises vLLM a number of tokens; the load list for them is cut later, by
`_generate_dispatch_meta`, from what the call has noted in `requests_meta`. The promise is an integer
here, since one is subtracted from it when everything is cached.
-/

open Lib

namespace UnifiedCache.Connector

variable {η : Type} (cfg : Config η) (tokens : List Token) (numComputedTokens : Nat)

/-- `external_block_ids`: the hashes that are looked up. -/
def externalBlockIds : List η :=
  (generateHash cfg.requestHasher cfg.hashBlockSize tokens cfg.seed).drop
    (numComputedTokens / cfg.blockSize * cfg.cpWorldSize)

/-- The call returns before it looks anything up. -/
def ReturnsEarly : Prop :=
  cfg.persistTokenThreshold > tokens.length ∨ externalBlockIds cfg tokens numComputedTokens = []

/-- Everything is cached, in the GPU or in the store. -/
def AllHit (lookup : Option Int) : Prop :=
  (numComputedTokens / cfg.blockSize + externalHitBlocks cfg lookup) * cfg.blockSize = tokens.length

instance (lookup : Option Int) : Decidable (AllHit cfg tokens numComputedTokens lookup) :=
  inferInstanceAs (Decidable (_ = _))

/-- What `get_num_new_matched_tokens` returns. -/
def numNewMatchedTokens (lookup : Option Int) : Int :=
  let externalHitTokens : Int := externalHitBlocks cfg lookup * cfg.blockSize
  if cfg.persistTokenThreshold > tokens.length then 0
  else if externalBlockIds cfg tokens numComputedTokens = [] then 0
  else if AllHit cfg tokens numComputedTokens lookup then externalHitTokens - 1
  else externalHitTokens

/-- The hashes that the store has reported as hit. -/
def hitHashes (lookup : Option Int) : List η :=
  match lookup with
  | some hit => (externalBlockIds cfg tokens numComputedTokens).take (hit + 1).toNat
  | none => []

/-- The blocks that the promised tokens fill. With blocks of one token the token that is computed again
fills a block of its own, which is loaded all the same. -/
def promisedBlocks (lookup : Option Int) : Nat :=
  let ext := (numNewMatchedTokens cfg tokens numComputedTokens lookup).toNat
  if cfg.blockSize = 1 ∧ AllHit cfg tokens numComputedTokens lookup then ext + 1
  else (ext + cfg.blockSize - 1) / cfg.blockSize

/-- What is loaded is what was promised. -/
structure LoadPromised (lookup : Option Int) (d : RequestDispatchMeta η) : Prop where
  blocks : d.loadBlockIds.2.length = promisedBlocks cfg tokens numComputedTokens lookup
  hashes : d.loadBlockIds.1.length = d.loadBlockIds.2.length * cfg.cpWorldSize
  hit : ∀ hash ∈ d.loadBlockIds.1, hash ∈ hitHashes cfg tokens numComputedTokens lookup

/-- Request `id` is neither asked about again nor scheduled. -/
def NotAbout (id : ReqId) (_ : State η) : Event → Prop
  | .matched id' _ _ => id' ≠ id
  | .schedule out => id ∉ out.items.map Item.id
  | _ => True

/-- Blocks of one token, and hashes that are the tokens themselves. -/
def Config.unit : Config (List Token) := { Config.small with
  hashBlockSize := 1, hashBlockSize_pos := Nat.one_pos }

end UnifiedCache.Connector
