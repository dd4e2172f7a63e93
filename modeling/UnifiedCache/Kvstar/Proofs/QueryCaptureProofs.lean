import UnifiedCache.Kvstar.MultiStep

/-!
# Which queries of the prompt are put aside

The prefill puts the queries of the last `retrieval_stride` tokens of the prompt aside, as far as they
are computed, whatever the chunks are.
-/

open Function

namespace UnifiedCache.Kvstar

variable {Q η β : Type} {cfg : Config} {prompt : Prompt η} {queryOf : Nat → Q} {s : State Q η β}
  {m : ReqMeta η}

/-! ## Putting one query aside -/

/-- The group of a record, all empty if nothing has been put there. -/
def State.groupOf (cfg : Config) (s : State Q η β) (record : Record) : List (Option Q) :=
  (s.standbyQueryGroup record).getD (List.replicate cfg.retrievalStride none)

/-- The state with the query of token `t` of the prompt put aside. -/
def putQuery (cfg : Config) (prompt : Prompt η) (queryOf : Nat → Q) (s : State Q η β) (t : Nat) :
    State Q η β :=
  { s with
    standbyQueryGroup := update s.standbyQueryGroup .prefill
      (some ((s.groupOf cfg .prefill).set (cfg.retrievalStride + t - prompt.numPromptTokens)
        (some (queryOf t))))
    trace := s.trace ++ [.save .prefill (cfg.retrievalStride - prompt.numPromptTokens + t)
      (queryOf t)] }

/-- The tokens among the last `retrieval_stride` of the prompt. -/
def lastTokens (cfg : Config) (prompt : Prompt η) (tokens : List Nat) : List Nat :=
  tokens.filter fun t => prompt.numPromptTokens ≤ t + cfg.retrievalStride

theorem lastTokens_append (ts ts' : List Nat) :
    lastTokens cfg prompt (ts ++ ts') = lastTokens cfg prompt ts ++ lastTokens cfg prompt ts' :=
  List.filter_append ..

theorem groupOf_putQuery (t : Nat) :
    (putQuery cfg prompt queryOf s t).groupOf cfg .prefill =
      (s.groupOf cfg .prefill).set (cfg.retrievalStride + t - prompt.numPromptTokens)
        (some (queryOf t)) := by
  show (update s.standbyQueryGroup .prefill (some _) .prefill).getD _ = _
  rw [update_self, Option.getD_some]

theorem standby_putQuery (t : Nat) :
    (putQuery cfg prompt queryOf s t).standbyQueryGroup .prefill =
      some ((putQuery cfg prompt queryOf s t).groupOf cfg .prefill) := by
  rw [groupOf_putQuery]
  show update s.standbyQueryGroup .prefill (some _) .prefill = _
  rw [update_self]

theorem length_groupOf_putQuery (t : Nat) :
    ((putQuery cfg prompt queryOf s t).groupOf cfg .prefill).length =
      (s.groupOf cfg .prefill).length := by
  rw [groupOf_putQuery, List.length_set]

theorem length_groupOf_foldl (ts : List Nat) :
    ((ts.foldl (putQuery cfg prompt queryOf) s).groupOf cfg .prefill).length =
      (s.groupOf cfg .prefill).length := by
  induction ts generalizing s with
  | nil => rfl
  | cons t ts ih => rw [List.foldl_cons, ih, length_groupOf_putQuery]

theorem saveToStandby_eq {record : Record} {slot k : Nat} {tokens : List Q} {q : Q}
    (hgroup : (s.groupOf cfg record).length = cfg.retrievalStride) (hslot : slot < cfg.retrievalStride)
    (hrow : tokens[k]? = some q) :
    saveToStandby cfg s record slot k tokens = some { s with
      standbyQueryGroup := update s.standbyQueryGroup record
        (some ((s.groupOf cfg record).set slot (some q)))
      trace := s.trace ++ [.save record slot q] } := by
  have hset : setItem (s.groupOf cfg record) slot (some q) =
      some ((s.groupOf cfg record).set slot (some q)) := by
    unfold setItem
    rw [if_pos ⟨Int.natCast_nonneg _, by omega⟩, Int.toNat_natCast]
  unfold State.groupOf at hset
  unfold saveToStandby
  simp only [hrow, hset, Option.bind_eq_bind, Option.bind_some]
  rfl

theorem saveToStandby_putQuery {t k : Nat} {tokens : List Q}
    (hgroup : (s.groupOf cfg .prefill).length = cfg.retrievalStride)
    (hlast : prompt.numPromptTokens ≤ t + cfg.retrievalStride) (ht : t < prompt.numPromptTokens)
    (hrow : tokens[k]? = some (queryOf t)) :
    saveToStandby cfg s .prefill (cfg.retrievalStride - prompt.numPromptTokens + t) k tokens =
      some (putQuery cfg prompt queryOf s t) := by
  have hslot : (cfg.retrievalStride : Int) - prompt.numPromptTokens + t =
      (cfg.retrievalStride + t - prompt.numPromptTokens : Nat) := by omega
  rw [hslot, saveToStandby_eq hgroup (by omega) hrow]
  unfold putQuery
  rw [hslot]

theorem foldlM_saveToStandby {a n k : Nat} {tokens : List Q}
    (hgroup : (s.groupOf cfg .prefill).length = cfg.retrievalStride)
    (hlast : prompt.numPromptTokens ≤ a + cfg.retrievalStride) (hn : a + n ≤ prompt.numPromptTokens)
    (hrow : ∀ j < n, tokens[k + j]? = some (queryOf (a + j))) :
    (((List.range' a n).map fun t : Nat =>
        (cfg.retrievalStride : Int) - prompt.numPromptTokens + t).zipIdx k).foldlM
      (fun s p => saveToStandby cfg s .prefill p.1 p.2 tokens) s =
    some ((List.range' a n).foldl (putQuery cfg prompt queryOf) s) := by
  induction n generalizing a k s with
  | zero => rfl
  | succ n ih =>
    have hfirst := saveToStandby_putQuery (k := k) hgroup hlast (by omega) (hrow 0 (by omega))
    rw [List.range'_succ, List.map_cons, List.zipIdx_cons, List.foldlM_cons, List.foldl_cons]
    show (saveToStandby cfg s .prefill _ k tokens >>= _) = _
    rw [hfirst]
    show List.foldlM _ (putQuery cfg prompt queryOf s a) _ = _
    refine ih ?_ (by omega) (by omega) fun j hj => ?_
    · rw [length_groupOf_putQuery, hgroup]
    · rw [Nat.add_assoc, Nat.add_assoc, Nat.add_comm 1 j]
      exact hrow (j + 1) (by omega)

/-! ## A chunk -/

theorem lastTokens_range' (a n : Nat) :
    lastTokens cfg prompt (List.range' a n) =
      List.range' (a + n - min n (a + n + cfg.retrievalStride - prompt.numPromptTokens))
        (min n (a + n + cfg.retrievalStride - prompt.numPromptTokens)) := by
  induction n with
  | zero => simp [lastTokens]
  | succ n ih =>
    unfold lastTokens at ih ⊢
    rw [List.range'_1_concat, List.filter_append, ih, List.filter_singleton]
    by_cases h : prompt.numPromptTokens ≤ a + n + cfg.retrievalStride
    · rw [decide_eq_true h, cond_true]
      have hnum : min (n + 1) (a + (n + 1) + cfg.retrievalStride - prompt.numPromptTokens) =
          min n (a + n + cfg.retrievalStride - prompt.numPromptTokens) + 1 := by omega
      rw [hnum, List.range'_1_concat]
      congr 2 <;> omega
    · rw [decide_eq_false h, cond_false, List.append_nil]
      have hnum : min (n + 1) (a + (n + 1) + cfg.retrievalStride - prompt.numPromptTokens) = 0 := by
        omega
      have hnum' : min n (a + n + cfg.retrievalStride - prompt.numPromptTokens) = 0 := by omega
      rw [hnum, hnum']
      rfl

theorem queryOffloadInfo_eq (hprompt : m.numPromptTokens = prompt.numPromptTokens)
    (hprefill : m.numOutputTokens = 0) :
    (m.queryOffloadInfo cfg).getD [] =
      (lastTokens cfg prompt (List.range' m.numComputedTokens m.numScheduledTokens)).map
        fun t : Nat => (cfg.retrievalStride : Int) - prompt.numPromptTokens + t := by
  have hstage : m.stage = .prefill := by rw [ReqMeta.stage, hprefill, if_neg (Nat.lt_irrefl 0)]
  rw [lastTokens_range', ReqMeta.queryOffloadInfo, if_pos hstage, hprompt]
  dsimp only
  generalize prompt.numPromptTokens = p at hprompt ⊢
  split_ifs with hearly
  · have hnum : min m.numScheduledTokens
        (m.numComputedTokens + m.numScheduledTokens + cfg.retrievalStride - p) = 0 := by omega
    rw [hnum]
    rfl
  · rw [Option.getD_some]
    apply List.ext_getElem
    · rw [List.length_map, List.length_map, List.length_range, List.length_range']
      omega
    · intro i hi hi'
      rw [List.length_map, List.length_range'] at hi'
      rw [List.getElem_map, List.getElem_map, List.getElem_range, List.getElem_range']
      omega

/-- The rows of a chunk are the queries of its tokens. -/
def Chunk.Reads (queryOf : Nat → Q) (numComputedTokens : Nat) (chunk : Chunk Q) : Prop :=
  ∀ i < chunk.numScheduledTokens,
    chunk.query[chunk.queryStartLoc + i]? = some (queryOf (numComputedTokens + i))

/-- **A chunk puts the queries of its tokens among the last ones aside.** -/
theorem offloadPrefillQuery_eq {numComputedTokens : Nat} {chunk : Chunk Q}
    (hgroup : (s.groupOf cfg .prefill).length = cfg.retrievalStride)
    (hend : numComputedTokens + chunk.numScheduledTokens ≤ prompt.numPromptTokens)
    (hreads : chunk.Reads queryOf numComputedTokens) :
    offloadPrefillQuery cfg s (chunk.reqMeta prompt numComputedTokens) chunk.query =
      some ((lastTokens cfg prompt (List.range' numComputedTokens chunk.numScheduledTokens)).foldl
        (putQuery cfg prompt queryOf) s) := by
  have hinfo : ((chunk.reqMeta prompt numComputedTokens).queryOffloadInfo cfg).getD [] =
      (lastTokens cfg prompt (List.range' numComputedTokens chunk.numScheduledTokens)).map _ :=
    queryOffloadInfo_eq rfl rfl
  unfold offloadPrefillQuery
  simp only [hinfo]
  show (if List.map _ _ = [] then some s
    else if chunk.numScheduledTokens < _ then none else _) = _
  rw [lastTokens_range', List.length_map, List.length_range']
  have hnum := Nat.min_le_left chunk.numScheduledTokens
    (numComputedTokens + chunk.numScheduledTokens + cfg.retrievalStride - prompt.numPromptTokens)
  have hlast : 0 < min chunk.numScheduledTokens
        (numComputedTokens + chunk.numScheduledTokens + cfg.retrievalStride - prompt.numPromptTokens) →
      prompt.numPromptTokens ≤ numComputedTokens + chunk.numScheduledTokens -
        min chunk.numScheduledTokens (numComputedTokens + chunk.numScheduledTokens +
          cfg.retrievalStride - prompt.numPromptTokens) + cfg.retrievalStride := by omega
  generalize min chunk.numScheduledTokens
    (numComputedTokens + chunk.numScheduledTokens + cfg.retrievalStride - prompt.numPromptTokens) =
    num at hnum hlast ⊢
  rcases Nat.eq_zero_or_pos num with rfl | hpos
  · rfl
  · have hne : (List.range' (numComputedTokens + chunk.numScheduledTokens - num) num).map
        (fun t : Nat => (cfg.retrievalStride : Int) - prompt.numPromptTokens + t) ≠ [] := by
      rw [Ne, List.map_eq_nil_iff, List.range'_eq_nil_iff]
      omega
    rw [if_neg hne, if_neg (by omega)]
    refine foldlM_saveToStandby hgroup (hlast hpos) (by omega) fun j hj => ?_
    show ((chunk.query.take (chunk.queryStartLoc + chunk.numScheduledTokens)).drop
      (chunk.queryStartLoc + chunk.numScheduledTokens - num))[0 + j]? = _
    rw [List.getElem?_drop, List.getElem?_take_of_lt (by omega)]
    have hrow := hreads (chunk.numScheduledTokens - num + j) (by omega)
    rw [show chunk.queryStartLoc + chunk.numScheduledTokens - num + (0 + j) =
      chunk.queryStartLoc + (chunk.numScheduledTokens - num + j) by omega, hrow]
    congr 2
    omega

/-! ## All chunks -/

/-- The chunks divide the tokens from `numComputedTokens` on to the end of the prompt, and their rows are
the queries of their tokens. -/
def Divides (prompt : Prompt η) (queryOf : Nat → Q) (numComputedTokens : Nat) : List (Chunk Q) → Prop
  | [] => numComputedTokens = prompt.numPromptTokens
  | chunk :: chunks => chunk.Reads queryOf numComputedTokens ∧
      Divides prompt queryOf (numComputedTokens + chunk.numScheduledTokens) chunks

theorem Divides.le {numComputedTokens : Nat} {chunks : List (Chunk Q)}
    (h : Divides prompt queryOf numComputedTokens chunks) :
    numComputedTokens ≤ prompt.numPromptTokens := by
  induction chunks generalizing numComputedTokens with
  | nil => exact Nat.le_of_eq h
  | cons chunk chunks ih => exact Nat.le_of_add_right_le (ih h.2)

/-- **All chunks together put the last tokens aside that are computed.** -/
theorem offloadChunks_eq {numComputedTokens : Nat} {chunks : List (Chunk Q)}
    (hgroup : (s.groupOf cfg .prefill).length = cfg.retrievalStride)
    (h : Divides prompt queryOf numComputedTokens chunks) :
    offloadChunks cfg prompt s numComputedTokens chunks =
      some ((lastTokens cfg prompt (List.range' numComputedTokens
        (prompt.numPromptTokens - numComputedTokens))).foldl (putQuery cfg prompt queryOf) s) := by
  induction chunks generalizing numComputedTokens s with
  | nil =>
    rw [show numComputedTokens = prompt.numPromptTokens from h, Nat.sub_self]
    rfl
  | cons chunk chunks ih =>
    obtain ⟨hreads, hrest⟩ := h
    have hle := hrest.le
    have hsplit : List.range' numComputedTokens (prompt.numPromptTokens - numComputedTokens) =
        List.range' numComputedTokens chunk.numScheduledTokens ++
          List.range' (numComputedTokens + chunk.numScheduledTokens)
            (prompt.numPromptTokens - (numComputedTokens + chunk.numScheduledTokens)) := by
      rw [List.range'_append_1]
      congr 1
      omega
    unfold offloadChunks
    rw [offloadPrefillQuery_eq hgroup hle hreads]
    show offloadChunks cfg prompt _ _ chunks = _
    rw [ih (by rw [length_groupOf_foldl, hgroup]) hrest, hsplit, lastTokens_append,
      List.foldl_append]

/-! ## What has been put aside -/

theorem trace_foldl_putQuery (cfg : Config) (prompt : Prompt η) (queryOf : Nat → Q)
    (s : State Q η β) (ts : List Nat) :
    (ts.foldl (putQuery cfg prompt queryOf) s).trace =
      s.trace ++ ts.map fun t : Nat =>
        .save .prefill (cfg.retrievalStride - prompt.numPromptTokens + t) (queryOf t) := by
  induction ts generalizing s with
  | nil => rw [List.foldl_nil, List.map_nil, List.append_nil]
  | cons t ts ih =>
    rw [List.foldl_cons, ih, List.map_cons]
    show (s.trace ++ [_]) ++ _ = _
    rw [List.append_assoc, List.singleton_append]

theorem foldl_putQuery_eq (ts : List Nat) :
    ts.foldl (putQuery cfg prompt queryOf) s =
      { s with
        standbyQueryGroup := (ts.foldl (putQuery cfg prompt queryOf) s).standbyQueryGroup
        trace := (ts.foldl (putQuery cfg prompt queryOf) s).trace } := by
  induction ts generalizing s with
  | nil => rfl
  | cons t ts ih =>
    rw [List.foldl_cons, ih]
    rfl

theorem foldl_putQuery_standby_of_ne {record : Record} (hne : record ≠ .prefill) (ts : List Nat) :
    (ts.foldl (putQuery cfg prompt queryOf) s).standbyQueryGroup record =
      s.standbyQueryGroup record := by
  induction ts generalizing s with
  | nil => rfl
  | cons t ts ih =>
    rw [List.foldl_cons, ih]
    show update s.standbyQueryGroup .prefill (some _) record = _
    rw [update_of_ne hne]

theorem foldl_putQuery_standby {ts : List Nat} (hne : ts ≠ []) :
    (ts.foldl (putQuery cfg prompt queryOf) s).standbyQueryGroup .prefill =
      some ((ts.foldl (putQuery cfg prompt queryOf) s).groupOf cfg .prefill) := by
  rw [← List.dropLast_append_getLast hne, List.foldl_append, List.foldl_cons, List.foldl_nil,
    standby_putQuery]

theorem groupOf_foldl_putQuery_of_ne {slot : Nat} {ts : List Nat}
    (h : ∀ t ∈ ts, cfg.retrievalStride + t - prompt.numPromptTokens ≠ slot) :
    ((ts.foldl (putQuery cfg prompt queryOf) s).groupOf cfg .prefill)[slot]? =
      (s.groupOf cfg .prefill)[slot]? := by
  induction ts generalizing s with
  | nil => rfl
  | cons t ts ih =>
    rw [List.foldl_cons, ih fun t' h' => h t' (List.mem_cons_of_mem _ h'), groupOf_putQuery,
      List.getElem?_set_ne (h t List.mem_cons_self)]

theorem groupOf_foldl_putQuery (queryOf : Nat → Q) {ts : List Nat} (hnodup : ts.Nodup)
    (hlast : ∀ t ∈ ts, prompt.numPromptTokens ≤ t + cfg.retrievalStride ∧ t < prompt.numPromptTokens)
    (hgroup : (s.groupOf cfg .prefill).length = cfg.retrievalStride) {t : Nat} (ht : t ∈ ts) :
    ((ts.foldl (putQuery cfg prompt queryOf) s).groupOf cfg .prefill)[
      cfg.retrievalStride + t - prompt.numPromptTokens]? = some (some (queryOf t)) := by
  induction ts generalizing s with
  | nil => cases ht
  | cons t' ts ih =>
    obtain ⟨hnot, hnodup⟩ := List.nodup_cons.mp hnodup
    have hlast' := fun t'' h => hlast t'' (List.mem_cons_of_mem _ h)
    rw [List.foldl_cons]
    rcases List.mem_cons.mp ht with rfl | hmem
    · obtain ⟨hle, hlt⟩ := hlast t List.mem_cons_self
      have hne : ∀ t' ∈ ts, cfg.retrievalStride + t' - prompt.numPromptTokens ≠
          cfg.retrievalStride + t - prompt.numPromptTokens := by
        intro t' ht' heq
        have := hlast' t' ht'
        exact hnot ((show t' = t by omega) ▸ ht')
      rw [groupOf_foldl_putQuery_of_ne hne, groupOf_putQuery, List.getElem?_set_self]
      omega
    · exact ih hnodup hlast' (by rw [length_groupOf_putQuery, hgroup]) hmem

theorem mem_lastTokens_iff {c t : Nat} :
    t ∈ lastTokens cfg prompt (List.range' c (prompt.numPromptTokens - c)) ↔
      (c ≤ t ∧ t < prompt.numPromptTokens) ∧ prompt.numPromptTokens ≤ t + cfg.retrievalStride := by
  rw [lastTokens, List.mem_filter, List.mem_range'_1, decide_eq_true_eq]
  constructor
  · rintro ⟨⟨hle, hlt⟩, hlast⟩
    exact ⟨⟨hle, by omega⟩, hlast⟩
  · rintro ⟨⟨hle, hlt⟩, hlast⟩
    exact ⟨⟨hle, by omega⟩, hlast⟩

theorem nodup_lastTokens (c n : Nat) : (lastTokens cfg prompt (List.range' c n)).Nodup :=
  List.Nodup.filter _ List.nodup_range'

theorem last_mem_lastTokens (cfg : Config) {c : Nat} (hc : c < prompt.numPromptTokens) :
    prompt.numPromptTokens - 1 ∈
      lastTokens cfg prompt (List.range' c (prompt.numPromptTokens - c)) := by
  have hstride := cfg.retrievalStride_pos
  rw [mem_lastTokens_iff]
  omega

theorem length_groupOf_of_none {record : Record} (h : s.standbyQueryGroup record = none) :
    (s.groupOf cfg record).length = cfg.retrievalStride := by
  rw [State.groupOf, h, Option.getD_none, List.length_replicate]

theorem groupOf_lastTokens (h : s.standbyQueryGroup .prefill = none) {c i : Nat}
    (hi : i < cfg.retrievalStride) :
    (((lastTokens cfg prompt (List.range' c (prompt.numPromptTokens - c))).foldl
        (putQuery cfg prompt queryOf) s).groupOf cfg .prefill)[i]? =
      some (if cfg.retrievalStride + c ≤ prompt.numPromptTokens + i ∧
          cfg.retrievalStride ≤ prompt.numPromptTokens + i then
        some (queryOf (prompt.numPromptTokens + i - cfg.retrievalStride)) else none) := by
  split_ifs with hcomputed
  · have hmem : prompt.numPromptTokens + i - cfg.retrievalStride ∈
        lastTokens cfg prompt (List.range' c (prompt.numPromptTokens - c)) := by
      rw [mem_lastTokens_iff]
      omega
    have hlast : ∀ t ∈ lastTokens cfg prompt (List.range' c (prompt.numPromptTokens - c)),
        prompt.numPromptTokens ≤ t + cfg.retrievalStride ∧ t < prompt.numPromptTokens := by
      intro t ht
      rw [mem_lastTokens_iff] at ht
      exact ⟨ht.2, ht.1.2⟩
    have hput := groupOf_foldl_putQuery queryOf (nodup_lastTokens _ _) hlast
      (length_groupOf_of_none h) hmem
    rwa [show cfg.retrievalStride + (prompt.numPromptTokens + i - cfg.retrievalStride) -
      prompt.numPromptTokens = i by omega] at hput
  · rw [groupOf_foldl_putQuery_of_ne, State.groupOf, h, Option.getD_none, List.getElem?_replicate,
      if_pos hi]
    intro t ht heq
    rw [mem_lastTokens_iff] at ht
    omega

/-- **The prefill puts the query of each computed token among the last `retrieval_stride` ones aside,
once and in its slot, and no other query**, whatever the chunks are. -/
theorem offloadChunks_captures (cfg : Config) (prompt : Prompt η) (queryOf : Nat → Q)
    (kCache vCache : Nat → β) (numComputedTokens : Nat) (chunks : List (Chunk Q))
    (hcomputed : numComputedTokens < prompt.numPromptTokens)
    (hdivides : Divides prompt queryOf numComputedTokens chunks) :
    ∃ (s' : State Q η β) (group : List (Option Q)),
      offloadChunks cfg prompt (State.new kCache vCache) numComputedTokens chunks = some s' ∧
      s'.trace = ((List.range prompt.numPromptTokens).filter fun t =>
          numComputedTokens ≤ t ∧ prompt.numPromptTokens ≤ t + cfg.retrievalStride).map
        (fun t : Nat => Action.save .prefill (cfg.retrievalStride - prompt.numPromptTokens + t)
          (queryOf t)) ∧
      (∀ record slot query, Action.save record slot query ∈ s'.trace →
        record = .prefill ∧ 0 ≤ slot ∧ slot < cfg.retrievalStride) ∧
      s'.trace ≠ [] ∧
      s'.standbyQueryGroup .prefill = some group ∧ group.length = cfg.retrievalStride ∧
      ∀ i < cfg.retrievalStride, group[i]? =
        some (if cfg.retrievalStride + numComputedTokens ≤ prompt.numPromptTokens + i ∧
            cfg.retrievalStride ≤ prompt.numPromptTokens + i then
          some (queryOf (prompt.numPromptTokens + i - cfg.retrievalStride)) else none) := by
  have hnew : (State.new kCache vCache : State Q η β).standbyQueryGroup .prefill = none := rfl
  have hgroup : ((State.new kCache vCache : State Q η β).groupOf cfg .prefill).length = _ :=
    length_groupOf_of_none hnew
  have hlast := last_mem_lastTokens cfg hcomputed
  have hne := List.ne_nil_of_mem hlast
  have htokens : lastTokens cfg prompt
      (List.range' numComputedTokens (prompt.numPromptTokens - numComputedTokens)) =
      (List.range prompt.numPromptTokens).filter fun t =>
        numComputedTokens ≤ t ∧ prompt.numPromptTokens ≤ t + cfg.retrievalStride := by
    apply List.Perm.eq_of_pairwise' (r := (· ≤ ·))
    · exact (List.pairwise_le_range' _).filter _
    · exact (List.pairwise_le_range).filter _
    · refine (List.perm_ext_iff_of_nodup (nodup_lastTokens _ _) (List.nodup_range.filter _)).mpr ?_
      intro t
      rw [mem_lastTokens_iff, List.mem_filter, List.mem_range, decide_eq_true_eq]
      tauto
  have htrace := trace_foldl_putQuery cfg prompt queryOf (State.new kCache vCache : State Q η β)
    (lastTokens cfg prompt
      (List.range' numComputedTokens (prompt.numPromptTokens - numComputedTokens)))
  change _ = [] ++ _ at htrace
  rw [List.nil_append] at htrace
  refine ⟨_, _, offloadChunks_eq hgroup hdivides, by rw [htrace, htokens], ?_, ?_,
    foldl_putQuery_standby hne, by rw [length_groupOf_foldl, hgroup], ?_⟩
  · intro record slot query hmem
    rw [htrace, List.mem_map] at hmem
    obtain ⟨t, ht, heq⟩ := hmem
    obtain ⟨rfl, rfl, rfl⟩ := Action.save.inj heq
    rw [mem_lastTokens_iff] at ht
    exact ⟨rfl, by omega, by omega⟩
  · rw [htrace, Ne, List.map_eq_nil_iff]
    exact hne
  · exact fun i hi => groupOf_lastTokens hnew hi

/-- Two chunks of a prompt of five tokens, of which the first one is in the cache: of the first chunk only
the last token is among the last three. -/
theorem offloadChunks_captures_two_chunks :
    ∃ (s' : State Nat Unit Unit) (group : List (Option Nat)),
      offloadChunks (.half 2 3 Nat.two_pos (by decide)) ⟨5, []⟩
        (State.new (fun _ => ()) fun _ => ()) 1 [⟨2, [], 0, [1, 2]⟩, ⟨2, [], 1, [9, 3, 4]⟩] = some s' ∧
      s'.trace = [.save .prefill 0 2, .save .prefill 1 3, .save .prefill 2 4] ∧
      s'.standbyQueryGroup .prefill = some group ∧ group[0]? = some (some 2) := by
  obtain ⟨s', group, hrun, htrace, -, -, hgroup, -, hslots⟩ := offloadChunks_captures
    (.half 2 3 Nat.two_pos (by decide)) (⟨5, []⟩ : Prompt Unit) id
    (fun _ => ()) (fun _ => ()) 1 [⟨2, [], 0, [1, 2]⟩, ⟨2, [], 1, [9, 3, 4]⟩] (by decide)
    ⟨by unfold Chunk.Reads; decide, by unfold Chunk.Reads; decide, rfl⟩
  exact ⟨s', group, hrun, htrace, hgroup, hslots 0 (by decide)⟩

end UnifiedCache.Kvstar
