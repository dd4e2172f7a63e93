import UnifiedCache.Sparse.BlendForward
import UnifiedCache.Sparse.Proofs.BlendPruneProofs

/-!
# Proofs: the rows of a pass belong to the same tokens

What the modules of a layer make of a row belongs to the token of the row. Up to the blend layer there is
a row for each token, and behind it one for each token that is kept.
-/

open Lib.Masks

namespace UnifiedCache.Sparse.Blend

open Connector (VllmBlock)

variable {α β γ η ι ω σ : Type} {cfg : Config} {topk : TopK}
  {kCache : String → VllmBlock → Nat → List ℚ}
  {layer : DecoderLayer α β γ ω σ} {tok : α → ι} {tokQ : γ → ι} {toks toks' : List ι} {s : Pass α ω σ}

/-- What the modules make of a row belongs to the same token. -/
structure DecoderLayer.Rows (layer : DecoderLayer α β γ ω σ) (tok : α → ι) (tokQ : γ → ι) : Prop where
  inputLayernorm : ∀ h, tok (layer.inputLayernorm h) = tok h
  addInputLayernorm : ∀ h r, tok h = tok r →
    tok (layer.addInputLayernorm h r).1 = tok r ∧ tok (layer.addInputLayernorm h r).2 = tok r
  query : ∀ p h, tokQ (layer.qkv p h).1 = tok h
  impl : ∀ attn q k v, attn.numActualTokens = q.length → (layer.impl attn q k v).map tok = q.map tokQ
  oProj : ∀ h, tok (layer.oProj h) = tok h
  postAttentionLayernorm : ∀ h r, tok h = tok r →
    tok (layer.postAttentionLayernorm h r).1 = tok r ∧ tok (layer.postAttentionLayernorm h r).2 = tok r
  mlp : ∀ h, tok (layer.mlp h) = tok h

/-- The rows of a pass belong to these tokens. -/
structure Pass.Of (tok : α → ι) (toks : List ι) (s : Pass α ω σ) : Prop where
  hiddenStates : s.hiddenStates.map tok = toks
  residual : ∀ r, s.residual = some r → r.map tok = toks

theorem length_of_map {x : List α} {tok : α → ι} (h : x.map tok = toks) : x.length = toks.length := by
  rw [← h, List.length_map]

theorem rowwise_eq {δ ε ζ : Type} {f : δ → ε → ζ} {x : List δ} {y : List ε} (h : x.length = y.length) :
    rowwise f x y = some (List.zipWith f x y) := if_pos h

theorem rowwise_add {f : α → α → α × α} (hf : ∀ h r, tok h = tok r → tok (f h r).1 = tok r ∧
    tok (f h r).2 = tok r) {x y : List α} (hx : x.map tok = toks) (hy : y.map tok = toks) :
    ∃ z, rowwise f x y = some z ∧ (z.map Prod.fst).map tok = toks ∧ (z.map Prod.snd).map tok = toks := by
  refine ⟨_, rowwise_eq ((length_of_map hx).trans (length_of_map hy).symm), ?_⟩
  subst hy
  induction x generalizing y with
  | nil =>
    rw [List.map_eq_nil_iff.mp hx.symm]
    exact ⟨rfl, rfl⟩
  | cons h x ih =>
    cases y with
    | nil => exact absurd hx (by simp)
    | cons r y =>
      rw [List.map_cons, List.map_cons, List.cons.injEq] at hx
      obtain ⟨hfst, hsnd⟩ := ih hx.2
      obtain ⟨hf1, hf2⟩ := hf h r hx.1
      simp only [List.zipWith_cons_cons, List.map_cons, hf1, hf2, hfst, hsnd, and_self]

theorem normIn_eq (hrows : layer.Rows tok tokQ) (hs : s.Of tok toks) :
    ∃ x, layer.normIn s.hiddenStates s.residual = some x ∧ (x.map Prod.fst).map tok = toks ∧
      (x.map Prod.snd).map tok = toks := by
  cases hres : s.residual with
  | none =>
    refine ⟨_, rfl, ?_⟩
    simp only [List.map_map, Function.comp_def, hrows.inputLayernorm]
    exact ⟨hs.hiddenStates, hs.hiddenStates⟩
  | some residual => exact rowwise_add hrows.addInputLayernorm hs.hiddenStates (hs.residual _ hres)

theorem rowwise_qkv (hrows : layer.Rows tok tokQ) {positions : List ω} {x : List α} (hx : x.map tok = toks)
    (hpositions : positions.length = toks.length) :
    ∃ z, rowwise layer.qkv positions x = some z ∧ (z.map fun y => y.1).map tokQ = toks := by
  refine ⟨_, rowwise_eq (hpositions.trans (length_of_map hx).symm), ?_⟩
  subst hx
  induction x generalizing positions with
  | nil =>
    rw [List.zipWith_nil_right]
    rfl
  | cons h x ih =>
    cases positions with
    | nil => exact absurd hpositions (by simp)
    | cons p positions =>
      have hrest := ih (Nat.succ.inj hpositions)
      simp only [List.zipWith_cons_cons, List.map_cons, hrows.query, hrest]

/-- **A layer**, by what `attention_begin` and `ffn_begin` do in it. -/
theorem forward_eq (cfg : Config) (topk : TopK) (kCache : String → VllmBlock → Nat → List ℚ)
    (hrows : layer.Rows tok tokQ) (hs : s.Of tok toks)
    (hpositions : s.positions.length = toks.length) :
    ∃ qkv : List (γ × List ℚ × β), ∃ residual : List α, qkv.length = toks.length ∧
      layer.keyOf s = some (qkv.map fun y => y.2.1) ∧
      (qkv.map fun y => y.1).map tokQ = toks ∧ residual.map tok = toks ∧
      ∀ begun toks', attentionBegin cfg topk (kCache layer.layerName) layer.layerName s.metadata s.attn
          (qkv.map fun y => y.1) (qkv.map fun y => y.2.1) (qkv.map fun y => y.2.2)
          (some (List.replicate toks.length layer.blank)) = some begun →
        begun.query.map tokQ = toks' → begun.attn.numActualTokens = toks'.length →
        toks'.length ≤ toks.length →
        (∀ out blanks : List α, out.length = toks'.length → out.length + blanks.length = toks.length →
          ∃ residual', ffnBegin begun.metadata begun.attn (out ++ blanks) residual =
            some (out, residual') ∧ residual'.map tok = toks') →
        ∃ s', layer.forward cfg topk kCache s = some s' ∧ s'.metadata = begun.metadata ∧
          s'.attn = begun.attn ∧ s'.positions = s.positions ∧ s'.residual ≠ none ∧ s'.Of tok toks' := by
  obtain ⟨x, hx, hfst, hsnd⟩ := normIn_eq hrows hs
  obtain ⟨qkv, hqkv, hquery⟩ := rowwise_qkv hrows hfst hpositions
  have hlen : x.length = toks.length := by
    rw [← length_of_map hsnd, List.length_map]
  have hqlen : qkv.length = toks.length := by
    rw [← length_of_map hquery, List.length_map]
  have hkey : layer.keyOf s = some (qkv.map fun y => y.2.1) := by
    unfold DecoderLayer.keyOf
    rw [hx, Option.bind_eq_bind, Option.bind_some, hqkv]
    rfl
  refine ⟨qkv, x.map Prod.snd, hqlen, hkey, hquery, hsnd, fun begun toks' hbegun hq hactual hle hffn =>
    ?_⟩
  have hwritten := (hrows.impl begun.attn begun.query begun.key begun.value
    (hactual.trans (length_of_map hq).symm)).trans hq
  have hout : (x.map fun _ => layer.blank) = List.replicate toks.length layer.blank := by
    rw [List.map_const', hlen]
  have hout' : ((layer.impl begun.attn begun.query begun.key begun.value).map layer.oProj).map tok =
      toks' := by
    rw [← hwritten]
    simp only [List.map_map, Function.comp_def, hrows.oProj]
  obtain ⟨residual', hcut, hres'⟩ := hffn
    ((layer.impl begun.attn begun.query begun.key begun.value).map layer.oProj)
    (((List.replicate toks.length layer.blank).drop
      (layer.impl begun.attn begun.query begun.key begun.value).length).map layer.oProj)
    (length_of_map hout') (by
      rw [List.length_map, List.length_map, List.length_drop, List.length_replicate,
        length_of_map hwritten, Nat.add_sub_cancel' hle])
  obtain ⟨y, hy, hy1, hy2⟩ := rowwise_add hrows.postAttentionLayernorm hout' hres'
  rw [← List.map_append] at hcut
  have hmlp : (y.map fun y => layer.mlp y.1).map tok = toks' := by
    rw [← hy1]
    simp only [List.map_map, Function.comp_def, hrows.mlp]
  refine ⟨{ s with
    metadata := begun.metadata
    attn := begun.attn
    hiddenStates := y.map fun y => layer.mlp y.1
    residual := some (y.map Prod.snd) }, ?_, rfl, rfl, rfl, Option.some_ne_none _, ⟨hmlp, ?_⟩⟩
  · unfold DecoderLayer.forward
    rw [hx]
    simp only [Option.bind_eq_bind, Option.bind_some, hqkv, hout, hbegun, hcut, hy]
  · rintro r hr
    obtain rfl := Option.some.inj hr
    exact hy2

theorem forward_plain (topk : TopK) (kCache : String → VllmBlock → Nat → List ℚ)
    (hrows : layer.Rows tok tokQ) (hs : s.Of tok toks)
    (hpositions : s.positions.length = toks.length) (hactual : s.attn.numActualTokens = toks.length)
    (hnone : cfg.computeMeta layer.layerName = none)
    (hffn : ∀ out residual : List α, out.length = toks.length → residual.length = toks.length →
      ffnBegin s.metadata s.attn out residual = some (out, residual)) :
    ∃ s', layer.forward cfg topk kCache s = some s' ∧ s'.metadata = s.metadata ∧ s'.attn = s.attn ∧
      s'.positions = s.positions ∧ s'.residual ≠ none ∧ s'.Of tok toks := by
  obtain ⟨qkv, residual, -, -, hquery, hres, hforward⟩ := forward_eq cfg topk kCache hrows hs hpositions
  have hbegin : ∀ (q : List γ) k (v : List β) (out : Option (List α)),
      attentionBegin cfg topk (kCache layer.layerName) layer.layerName s.metadata s.attn q k v out =
        some ⟨s.metadata, s.attn, q, k, v, out⟩ := by
    intro q k v out
    unfold attentionBegin
    rw [hnone]
  refine hforward _ toks (hbegin _ _ _ _) hquery hactual (Nat.le_refl _) fun out blanks hout hlen => ?_
  obtain rfl : blanks = [] := List.length_eq_zero_iff.mp (by omega)
  rw [List.append_nil]
  exact ⟨residual, hffn out residual hout (length_of_map hres), hres⟩

theorem layerBegin_eq (m : BlendMetaData) {positions : List ω} {hidden : List α} (residual : List α)
    (h : positions.length = hidden.length) :
    layerBegin m positions hidden residual = some (positions, hidden, residual) := if_neg (not_not.mpr h)

section Batch

variable {b : Batch cfg η σ} {buffers : Buffers cfg} {ratio : ℚ} {positions : List ω}
  {blend : DecoderLayer α β γ ω σ} {layers : List (DecoderLayer α β γ ω σ)}

theorem run_before (topk : TopK) (kCache : String → VllmBlock → Nat → List ℚ)
    (hrows : ∀ layer ∈ layers, layer.Rows tok tokQ)
    (hnone : ∀ layer ∈ layers, cfg.computeMeta layer.layerName = none) (hs : s.Of tok toks)
    (hm : s.metadata.needReIndex = false) (hpositions : s.positions.length = toks.length)
    (hactual : s.attn.numActualTokens = toks.length) :
    ∃ s', modelForward cfg topk kCache layers s = some s' ∧ s'.metadata = s.metadata ∧
      s'.attn = s.attn ∧ s'.positions = s.positions ∧ s'.Of tok toks := by
  induction layers generalizing s with
  | nil => exact ⟨s, rfl, rfl, rfl, rfl, hs⟩
  | cons layer layers ih =>
    have hffn : ∀ out residual : List α, out.length = toks.length → residual.length = toks.length →
        ffnBegin s.metadata s.attn out residual = some (out, residual) :=
      fun _ _ _ _ => if_neg fun hc => Bool.false_ne_true (hm.symm.trans hc.1)
    obtain ⟨s₁, hforward, hm₁, hattn₁, hpos₁, -, hs₁⟩ := forward_plain topk kCache
      (hrows layer List.mem_cons_self) hs hpositions hactual (hnone layer List.mem_cons_self) hffn
    obtain ⟨s', hrun, hm', hattn', hpos', hs'⟩ := ih
      (fun layer hl => hrows layer (List.mem_cons_of_mem _ hl))
      (fun layer hl => hnone layer (List.mem_cons_of_mem _ hl)) hs₁ (hm₁ ▸ hm) (hpos₁ ▸ hpositions)
      (hattn₁ ▸ hactual)
    refine ⟨s', ?_, hm'.trans hm₁, hattn'.trans hattn₁, hpos'.trans hpos₁, hs'⟩
    have hbegin := layerBegin_eq s.metadata (s.residual.getD [])
      (hpositions.trans (length_of_map hs.hiddenStates).symm)
    unfold modelForward at hrun ⊢
    rw [List.foldlM_cons, runLayer, hbegin]
    exact (congrArg (· >>= _) hforward).trans hrun

variable (htopk : TopKOk topk) (hratio : ratio ≤ 1) (hchunks : ∀ r ∈ b.news, r.chunksMeta ≠ [])

include htopk hratio hchunks

theorem length_kept (kCache : VllmBlock → Nat → List ℚ) (key : List (List ℚ))
    (htoks : toks.length = b.total) :
    (keep toks (b.mask topk kCache key ratio)).length = (b.keptLens ratio).sum := by
  rw [sum_keptLens kCache key htopk hratio hchunks]
  exact length_keep (htoks.trans Batch.length_mask.symm)

theorem forward_blend (hrows : layer.Rows tok tokQ) (hs : s.Of tok toks) (htoks : toks.length = b.total)
    (hm : s.metadata = b.metadata buffers) (hattn : s.attn = b.attnMetadata)
    (hpositions : s.positions.length = toks.length)
    (hlayer : cfg.computeMeta layer.layerName = some ratio) (hroom : b.total ≤ cfg.maxModelLen) :
    ∃ (x : Tensors cfg b γ β α) (res : Begun γ β α σ) (s' : Pass α ω σ),
      layer.keyOf s = some x.key ∧
      Ran x (b.mask topk (kCache layer.layerName) x.key ratio) (b.keptLens ratio) res ∧
      layer.forward cfg topk kCache s = some s' ∧ s'.metadata = res.metadata ∧ s'.attn = res.attn ∧
      s'.positions = s.positions ∧ s'.residual ≠ none ∧
      s'.Of tok (keep toks (b.mask topk (kCache layer.layerName) x.key ratio)) := by
  obtain ⟨qkv, residual, hqlen, hkey, hquery, hres, hforward⟩ :=
    forward_eq cfg topk kCache hrows hs hpositions
  have hlen := hqlen.trans htoks
  let x : Tensors cfg b γ β α :=
    { query := qkv.map fun y => y.1
      key := qkv.map fun y => y.2.1
      value := qkv.map fun y => y.2.2
      output := some (List.replicate toks.length layer.blank)
      query_length := (List.length_map _).trans hlen
      key_length := (List.length_map _).trans hlen
      value_length := (List.length_map _).trans hlen }
  obtain ⟨res, hrun, hran⟩ := exists_ran buffers x (kCache layer.layerName) htopk hratio hlayer hroom
  unfold run at hrun
  rw [Batch.buildSparseMeta_eq, Option.bind_eq_bind, Option.bind_some, ← hm, ← hattn] at hrun
  have hkept := length_kept htopk hratio hchunks (kCache layer.layerName) x.key htoks
  have hcut := hran.cut htopk hratio hchunks
  have htags : res.query.map tokQ = keep toks (b.mask topk (kCache layer.layerName) x.key ratio) := by
    rw [hcut.query, ← keep_map]
    exact congrArg (keep · _) hquery
  have hle : (keep toks (b.mask topk (kCache layer.layerName) x.key ratio)).length ≤ toks.length := by
    rw [length_keep (htoks.trans Batch.length_mask.symm), htoks]
    exact List.count_le_length.trans_eq Batch.length_mask
  obtain ⟨s', hs'⟩ := hforward res _ hrun htags (hcut.numActualTokens.trans hkept.symm) hle
      fun out blanks hout htotal => by
    refine ⟨keep residual (b.mask topk (kCache layer.layerName) x.key ratio), ?_, ?_⟩
    · rw [hran.ffnBegin htopk hratio hchunks (List.length_append.trans (htotal.trans htoks))
        ((length_of_map hres).trans htoks), List.take_left' (hout.trans hkept)]
    · rw [← keep_map, hres]
  exact ⟨x, res, s', hkey, hran, hs'⟩

theorem run_after {x : Tensors cfg b γ β α} {res : Begun γ β α σ} {kBlend : VllmBlock → Nat → List ℚ}
    (hran : Ran x (b.mask topk kBlend x.key ratio) (b.keptLens ratio) res)
    (hrows : ∀ layer ∈ layers, layer.Rows tok tokQ)
    (hnone : ∀ layer ∈ layers, cfg.computeMeta layer.layerName = none) (htoks : toks.length = b.total)
    (hpos : positions.length = b.total) (hm : s.metadata = res.metadata) (hattn : s.attn = res.attn)
    (hs : s.Of tok (keep toks (b.mask topk kBlend x.key ratio))) (hres : s.residual ≠ none)
    (hpositions : s.positions = positions ∨ s.positions = keep positions (b.mask topk kBlend x.key ratio)) :
    ∃ s', modelForward cfg topk kCache layers s = some s' ∧ s'.residual ≠ none ∧
      s'.Of tok (keep toks (b.mask topk kBlend x.key ratio)) ∧
      (s'.positions = s.positions ∧ layers = [] ∨
        s'.positions = keep positions (b.mask topk kBlend x.key ratio)) := by
  induction layers generalizing s with
  | nil => exact ⟨s, rfl, hres, hs, .inl ⟨rfl, rfl⟩⟩
  | cons layer layers ih =>
    have hkept := length_kept htopk hratio hchunks kBlend x.key htoks
    have hkeptPos := length_kept htopk hratio hchunks kBlend x.key hpos
    have hhidden := (length_of_map hs.hiddenStates).trans hkept
    have hbegin : layerBegin s.metadata s.positions s.hiddenStates (s.residual.getD []) =
        some (keep positions (b.mask topk kBlend x.key ratio), s.hiddenStates, s.residual.getD []) := by
      rcases hpositions with hpositions | hpositions
      · rw [hpositions, hm]
        exact hran.layerBegin htopk hratio hchunks _ hpos hhidden
      · rw [hpositions]
        exact layerBegin_eq _ _ (hkeptPos.trans hhidden.symm)
    obtain ⟨s₁, hforward, hm₁, hattn₁, hpos₁, hres₁, hs₁⟩ := forward_plain topk kCache
      (hrows layer List.mem_cons_self)
      (s := { s with positions := keep positions (b.mask topk kBlend x.key ratio) })
      ⟨hs.hiddenStates, hs.residual⟩ (hkeptPos.trans hkept.symm)
      ((congrArg _ hattn).trans ((hran.cut htopk hratio hchunks).numActualTokens.trans hkept.symm))
      (hnone layer List.mem_cons_self)
      fun out residual hout hlen => by
        show ffnBegin s.metadata s.attn out residual = _
        rw [hm, hattn]
        exact hran.ffnBegin_kept htopk hratio hchunks (hout.trans hkept) (hlen.trans hkept)
    obtain ⟨s', hrun, hres', hs', hpos'⟩ := ih (fun layer hl => hrows layer (List.mem_cons_of_mem _ hl))
      (fun layer hl => hnone layer (List.mem_cons_of_mem _ hl)) (hm₁.trans hm) (hattn₁.trans hattn) hs₁ hres₁
      (.inr hpos₁)
    refine ⟨s', ?_, hres', hs', .inr (hpos'.elim (fun h => h.1.trans hpos₁) id)⟩
    unfold modelForward at hrun ⊢
    rw [List.foldlM_cons, runLayer, hbegin]
    exact (congrArg (· >>= _) hforward).trans hrun

/-- **The rows stay with their tokens.** A forward pass goes through, and behind the blend layer the rows
of the hidden states and of the residual and the positions are those of the tokens that are kept. -/
theorem forward_aligned (kCache : String → VllmBlock → Nat → List ℚ) (buffers : Buffers cfg)
    {pre post : List (DecoderLayer α β γ ω σ)} (positions : List ω) (hidden : List α)
    (hroom : b.total ≤ cfg.maxModelLen)
    (hrows : ∀ layer ∈ pre ++ blend :: post, layer.Rows tok tokQ)
    (hpre : ∀ layer ∈ pre, cfg.computeMeta layer.layerName = none)
    (hblend : cfg.computeMeta blend.layerName = some ratio)
    (hpost : ∀ layer ∈ post, cfg.computeMeta layer.layerName = none)
    (hpositions : positions.length = b.total) (hhidden : hidden.length = b.total) :
    ∃ m, buildSparseMeta cfg buffers.metadata buffers.forwardMask b.attnMetadata b.decodes.length
        (b.news.map NewReq.chunksMeta) = some m ∧
      ∃ before, modelForward cfg topk kCache pre ⟨m, b.attnMetadata, positions, hidden, none⟩ =
          some before ∧
        ∃ key, blend.keyOf before = some key ∧
          ∃ after residual, modelForward cfg topk kCache (pre ++ blend :: post)
              ⟨m, b.attnMetadata, positions, hidden, none⟩ = some after ∧
            after.residual = some residual ∧
            after.hiddenStates.map tok =
              keep (hidden.map tok) (b.mask topk (kCache blend.layerName) key ratio) ∧
            residual.map tok = keep (hidden.map tok) (b.mask topk (kCache blend.layerName) key ratio) ∧
            (post ≠ [] →
              after.positions = keep positions (b.mask topk (kCache blend.layerName) key ratio)) := by
  have htoks : (hidden.map tok).length = b.total := (List.length_map _).trans hhidden
  have hstart : Pass.Of tok (hidden.map tok)
      (⟨b.metadata buffers, b.attnMetadata, positions, hidden, none⟩ : Pass α ω σ) :=
    ⟨rfl, fun _ h => by cases h⟩
  obtain ⟨before, hbefore, hm, hattn, hpos, hof⟩ := run_before topk kCache
    (fun layer hl => hrows layer (List.mem_append_left _ hl)) hpre hstart rfl
    (hpositions.trans htoks.symm) htoks.symm
  refine ⟨_, Batch.buildSparseMeta_eq buffers, before, hbefore, ?_⟩
  have hposBefore : before.positions.length = (hidden.map tok).length :=
    (congrArg List.length hpos).trans (hpositions.trans htoks.symm)
  obtain ⟨x, res, s₁, hkey, hran, hforward, hm₁, hattn₁, hpos₁, hres₁, hof₁⟩ :=
    forward_blend htopk hratio hchunks (hrows blend (List.mem_append_right _ List.mem_cons_self)) hof htoks
      hm hattn hposBefore hblend hroom
  have hkept := length_kept htopk hratio hchunks (kCache blend.layerName) x.key htoks
  obtain ⟨after, hafter, hresAfter, hofAfter, hposAfter⟩ := run_after htopk hratio hchunks hran
    (fun layer hl => hrows layer (List.mem_append_right _ (List.mem_cons_of_mem _ hl))) hpost htoks
    hpositions hm₁ hattn₁ hof₁ hres₁ (.inl (hpos₁.trans hpos))
  obtain ⟨residual, hresidual⟩ := Option.ne_none_iff_exists'.mp hresAfter
  refine ⟨x.key, hkey, after, residual, ?_, hresidual, hofAfter.hiddenStates,
    hofAfter.residual _ hresidual, fun hne => hposAfter.resolve_left fun h => hne h.2⟩
  have hbegin := layerBegin_eq before.metadata (before.residual.getD [])
    (hposBefore.trans (length_of_map hof.hiddenStates).symm)
  unfold modelForward at hbefore hafter ⊢
  rw [List.foldlM_append]
  refine (congrArg (· >>= _) hbefore).trans ?_
  show List.foldlM (runLayer cfg topk kCache) before (blend :: post) = some after
  rw [List.foldlM_cons, runLayer, hbegin]
  exact (congrArg (· >>= _) hforward).trans hafter

end Batch

/-! ### A small pass -/

/-- One of the layers is a blend layer, for half of the loaded tokens. -/
def Config.oneLayer : Config :=
  { Config.small with computeMeta := fun name => if name = "blend" then some (1 / 2) else none }

/-- The request of `NewReq.small`. -/
def NewReq.oneLayer : NewReq .oneLayer Unit where
  chunksMeta := NewReq.small.chunksMeta
  prefixBlks := NewReq.small.prefixBlks
  queryLen := NewReq.small.queryLen
  blocks := NewReq.small.blocks
  queryLen_pos := NewReq.small.queryLen_pos
  start := NewReq.small.start
  chunks_le := NewReq.small.chunks_le
  blocks_cover := NewReq.small.blocks_cover

def Batch.oneLayer : Batch .oneLayer Unit Nat where
  decodes := Batch.small.decodes
  news := [.oneLayer]
  slotMapping := Batch.small.slotMapping
  slotMapping_length := Batch.small.slotMapping_length

def Buffers.oneLayer : Buffers .oneLayer where
  forwardMask := Buffers.small.forwardMask
  metadata := Buffers.small.metadata
  forwardMask_length := rfl
  hitMask_length := rfl

/-- A layer whose rows are the numbers of their tokens. -/
def DecoderLayer.number (layerName : String) : DecoderLayer Nat Unit Nat Nat Nat where
  layerName
  inputLayernorm := id
  addInputLayernorm := fun h r => (h, r)
  qkv := fun p h => (h, [(p : ℚ)], ())
  impl := fun _ query _ _ => query
  blank := 0
  oProj := id
  postAttentionLayernorm := fun h r => (h, r)
  mlp := id

theorem rows_number (layerName : String) : (DecoderLayer.number layerName).Rows id id where
  inputLayernorm _ := rfl
  addInputLayernorm _ _ h := ⟨h, rfl⟩
  query _ _ := rfl
  impl _ _ _ _ _ := rfl
  oProj _ := rfl
  postAttentionLayernorm _ _ h := ⟨h, rfl⟩
  mlp _ := rfl

/-- A blend layer between two others. -/
theorem forward_aligned_small : ∃ topk m key,
    buildSparseMeta .oneLayer Buffers.oneLayer.metadata Buffers.oneLayer.forwardMask
      Batch.oneLayer.attnMetadata 1 (Batch.oneLayer.news.map NewReq.chunksMeta) = some m ∧
    ∃ after residual, modelForward .oneLayer topk (fun _ _ _ => [0])
        [DecoderLayer.number "first", DecoderLayer.number "blend", DecoderLayer.number "last"]
        ⟨m, Batch.oneLayer.attnMetadata, [5, 0, 1, 2], [0, 1, 2, 3], none⟩ = some after ∧
      after.residual = some residual ∧
      after.hiddenStates = keep [0, 1, 2, 3] (Batch.oneLayer.mask topk (fun _ _ => [0]) key (1 / 2)) ∧
      residual = after.hiddenStates ∧
      after.positions = keep [5, 0, 1, 2] (Batch.oneLayer.mask topk (fun _ _ => [0]) key (1 / 2)) := by
  obtain ⟨topk, htopk⟩ := exists_topkOk
  have hrows : ∀ layer ∈ [DecoderLayer.number "first"] ++
      DecoderLayer.number "blend" :: [DecoderLayer.number "last"], layer.Rows id id := by
    intro layer hl
    simp only [List.singleton_append, List.mem_cons, List.not_mem_nil, or_false] at hl
    rcases hl with rfl | rfl | rfl <;> exact rows_number _
  have hnone : ∀ name, name ≠ "blend" → ∀ layer ∈ [DecoderLayer.number name],
      Config.oneLayer.computeMeta layer.layerName = none := by
    intro name hname layer hl
    obtain rfl := List.mem_singleton.mp hl
    exact if_neg hname
  have hchunks : ∀ r ∈ Batch.oneLayer.news, r.chunksMeta ≠ [] := by
    intro r hr
    obtain rfl := List.mem_singleton.mp hr
    exact List.cons_ne_nil _ _
  obtain ⟨m, hm, -, -, key, -, after, residual, hrun, hres, hhidden, hresidual, hpos⟩ :=
    forward_aligned htopk half_mem_Icc.2 hchunks (fun _ _ _ => [0]) .oneLayer [5, 0, 1, 2] [0, 1, 2, 3]
      (by decide) hrows (hnone "first" (by decide)) rfl
      (hnone "last" (by decide)) rfl rfl
  rw [List.map_id, List.map_id] at hhidden
  rw [List.map_id, List.map_id] at hresidual
  exact ⟨topk, m, key, hm, after, residual, hrun, hres, hhidden, hresidual.trans hhidden.symm,
    hpos (List.cons_ne_nil _ _)⟩

end UnifiedCache.Sparse.Blend
