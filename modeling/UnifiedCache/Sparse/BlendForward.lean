import UnifiedCache.Sparse.Blend

/-!
# A forward pass with a blend layer

`LlamaModel.forward` with its hooks: a layer begins with `layer_begin`, its attention with
`attention_begin`, and what comes after the attention with `ffn_begin`. The attention may cut down its
queries, so the hooks have to cut down the residual and the positions to the same tokens. There is one
pipeline rank, and no auxiliary hidden states.
-/

namespace UnifiedCache.Sparse.Blend

open Connector (VllmBlock)

variable {α β γ ω σ : Type}

/-- A module that takes a row of either tensor for each token. -/
def rowwise {δ ε ζ : Type} (f : δ → ε → ζ) (x : List δ) (y : List ε) : Option (List ζ) :=
  if x.length = y.length then some (List.zipWith f x y) else none

/-- `LlamaDecoderLayer`, by what its modules make of a row. -/
structure DecoderLayer (α β γ ω σ : Type) where
  layerName : String
  inputLayernorm : α → α
  /-- `input_layernorm` with a residual. -/
  addInputLayernorm : α → α → α × α
  /-- The projections of `self_attn`, rotated by the position. -/
  qkv : ω → α → γ × List ℚ × β
  /-- `self.impl.forward`, for all rows. -/
  impl : AttnMetadata σ → List γ → List (List ℚ) → List β → List α
  /-- A row of the output that nothing is written to. -/
  blank : α
  oProj : α → α
  postAttentionLayernorm : α → α → α × α
  mlp : α → α

/-- What goes from layer to layer. There is no residual before the first one. -/
structure Pass (α ω σ : Type) where
  metadata : BlendMetaData
  attn : AttnMetadata σ
  positions : List ω
  hiddenStates : List α
  residual : Option (List α)

/-- `input_layernorm` of the first layer and of the others: each row with its residual. -/
def DecoderLayer.normIn (layer : DecoderLayer α β γ ω σ) (hiddenStates : List α) :
    Option (List α) → Option (List (α × α))
  | none => some (hiddenStates.map fun h => (layer.inputLayernorm h, h))
  | some residual => rowwise layer.addInputLayernorm hiddenStates residual

variable (cfg : Config) (topk : TopK) (kCache : String → VllmBlock → Nat → List ℚ)

/-- `LlamaDecoderLayer.forward`. The output of the attention has a row for each row of the hidden states,
also where `attention_begin` has cut down the queries. -/
def DecoderLayer.forward (layer : DecoderLayer α β γ ω σ) (s : Pass α ω σ) : Option (Pass α ω σ) := do
  let x ← layer.normIn s.hiddenStates s.residual
  let qkv ← rowwise layer.qkv s.positions (x.map Prod.fst)
  let output := x.map fun _ => layer.blank
  let begun ← attentionBegin cfg topk (kCache layer.layerName) layer.layerName s.metadata s.attn
    (qkv.map fun y => y.1) (qkv.map fun y => y.2.1) (qkv.map fun y => y.2.2) (some output)
  let written := layer.impl begun.attn begun.query begun.key begun.value
  let hiddenStates := (written ++ output.drop written.length).map layer.oProj
  let (hiddenStates, residual) ← ffnBegin begun.metadata begun.attn hiddenStates (x.map Prod.snd)
  let y ← rowwise layer.postAttentionLayernorm hiddenStates residual
  some { s with
    metadata := begun.metadata
    attn := begun.attn
    hiddenStates := y.map fun y => layer.mlp y.1
    residual := some (y.map Prod.snd) }

/-- The keys that the layer computes. -/
def DecoderLayer.keyOf (layer : DecoderLayer α β γ ω σ) (s : Pass α ω σ) : Option (List (List ℚ)) := do
  let x ← layer.normIn s.hiddenStates s.residual
  let qkv ← rowwise layer.qkv s.positions (x.map Prod.fst)
  some (qkv.map fun y => y.2.1)

/-- The body of the loop of `LlamaModel.forward`. `layer_begin` hands the residual on as it is. -/
def runLayer (s : Pass α ω σ) (layer : DecoderLayer α β γ ω σ) : Option (Pass α ω σ) := do
  let (positions, hiddenStates, _) ← layerBegin s.metadata s.positions s.hiddenStates
    (s.residual.getD [])
  layer.forward cfg topk kCache { s with positions, hiddenStates }

/-- `LlamaModel.forward`, up to the last norm. -/
def modelForward (layers : List (DecoderLayer α β γ ω σ)) (s : Pass α ω σ) : Option (Pass α ω σ) :=
  layers.foldlM (runLayer cfg topk kCache) s

end UnifiedCache.Sparse.Blend
