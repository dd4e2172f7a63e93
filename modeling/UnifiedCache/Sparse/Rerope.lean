import UnifiedCache.Lib.Rotary
import UnifiedCache.Sparse.UnifiedAttention

/-!
# Queries and keys with two rotations

`process_qkv` turns every query and key by its position. It also hands on the query as it is at the
position of the window, and the key as it is at position `0`. The second pair scores the keys that are not
near, so these count as if they were at the distance of the window.
-/

open Finset Lib

namespace UnifiedCache.Sparse.Rerope

open UnifiedAttention (Batch)

variable {α : Type} [Field α] [LinearOrder α]

/-- What `self.attn` is called with, for one head of one token. -/
structure AttnInput (α : Type) where
  query : Nat → α
  key : Nat → α
  query2 : Option (Nat → α)
  key2 : Option (Nat → α)

/-- The environment of `process_qkv`. `rotaryEmb` is `self.rotary_emb` at a position. -/
structure Env (α : Type) where
  vllmUseRerope : Bool
  reropeWindow : Nat
  trainingLength : Nat
  log : Nat → α
  rotaryEmb : Nat → (Nat → α) → Nat → α

/-- `process_qkv`, for one head of one token. `useRerope` is of the metadata. -/
def processQkv (env : Env α) (useRerope : Bool) (position : Nat) (q k : Nat → α) : AttnInput α :=
  if env.vllmUseRerope then
    if useRerope then
      let q := fun d => q d * max (env.log (position + 1) / env.log env.trainingLength) 1
      let q2 := q
      let k0 := k
      { query := env.rotaryEmb position q
        key := env.rotaryEmb position k
        query2 := env.rotaryEmb (position * 0 + env.reropeWindow) q2
        key2 := k0 }
    else
      let k0 := k
      let q := env.rotaryEmb position q
      { query := q
        key := env.rotaryEmb position k
        query2 := q
        key2 := k0 }
  else
    { query := env.rotaryEmb position q
      key := env.rotaryEmb position k
      query2 := none
      key2 := none }

/-- The heads of the tokens of the sequences, before `process_qkv`. -/
structure Tokens (α : Type) where
  q : Nat → Nat → Nat → Nat → α
  k : Nat → Nat → Nat → Nat → α

/-- What `process_qkv` makes of a head of the token at a place of a sequence. -/
def processed (env : Env α) (batch : Batch α) (tokens : Tokens α) (i n head : Nat) : AttnInput α :=
  processQkv env true n (tokens.q i n head) (tokens.k i n (head / batch.numQueriesPerKv))

/-- The distance at which a key counts. -/
def distance (window x n : Nat) : Nat := if x + 1 - n < window then x - n else window

/-- How well a query and a key match, by their distance. -/
def relativeLogit (env : Env α) (batch : Batch α) (tokens : Tokens α) (exp : α → α) (i t head n : Nat) : α :=
  let x := batch.position i t
  let q := fun d => tokens.q i x head d * max (env.log (x + 1) / env.log env.trainingLength) 1
  batch.biased i head n (batch.capped exp (∑ d ∈ range (batch.q.size 2),
    env.rotaryEmb (distance env.reropeWindow x n) q d *
      tokens.k i n (head / batch.numQueriesPerKv) d))

end UnifiedCache.Sparse.Rerope
