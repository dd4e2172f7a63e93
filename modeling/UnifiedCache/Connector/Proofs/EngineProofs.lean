import UnifiedCache.Connector.Engine
import UnifiedCache.Connector.Proofs.RepairProofs
import UnifiedCache.Connector.Proofs.WorkerProofs
import Mathlib.Data.List.Pairwise

/-!
# Proofs: no poisoned dump

A request with metadata counts only valid tokens as computed, and no other running request is to write
to its blocks (`Sound`). A careful step keeps that for the requests that are not affected by a failed
load: every token of theirs has a source in it (`plan`), the affected ones lose their metadata, and
what they have to compute again is behind their first invalid block. So whatever is dumped is valid.
-/

open Function Lib

namespace UnifiedCache.Connector

variable {η : Type} {E : Engine η} {s s' : EngineState η} {t : State η} {out : SchedulerOutput}
  {started : List ReqId} {o : Outcomes} {id id' : ReqId} {bs k k' p : Nat} {v : VllmBlock}

/-! ## The invariant -/

/-- What vLLM counts as computed when a request starts is cached locally or is going to be loaded. -/
def MatchedOk (cfg : Config η) (r : Request) (m? : Option (RequestMeta η)) : Prop :=
  r.status = .waiting ∨ r.status = .preempted → ∀ numLocal numComputed,
    r.matched = some (numLocal, numComputed) → numLocal % cfg.blockSize = 0 ∧
      (numComputed = numLocal ∧ (∀ m ∈ m?, m.hbmHitBlockNum = m.totalHitBlockNum) ∨
        ∃ m ∈ m?, m.hbmHitBlockNum * cfg.blockSize = numLocal ∧ numLocal ≤ numComputed ∧
          numComputed ≤ m.totalHitBlockNum * cfg.blockSize)

/-- The invariant of the engine. -/
structure EngineInv (E : Engine η) (s : EngineState η) : Prop where
  scheduler : SchedulerInv E.cfg s.scheduler
  running : ∀ id, id ∈ s.running ↔ (s.scheduler.requests id).status = .running
  nodup : ∀ id ∈ s.running, (s.scheduler.requests id).blockTable.Nodup
  matched : ∀ id, MatchedOk E.cfg (s.scheduler.requests id) (s.scheduler.requestsMeta id)
  sound : ∀ id ∈ s.running, (s.scheduler.requestsMeta id).isSome → E.Sound s id

/-! ## A scheduled step -/

/-- A block that is new in this step. -/
def Fresh (E : Engine η) (t : State η) (out : SchedulerOutput) (id : ReqId) (v : VllmBlock) : Prop :=
  ∃ item ∈ out.items, item.id = id ∧ v ∈ item.fresh E.cfg.blockSize t.requests

/-- A running request in the forward pass, maybe without any token. -/
def row (t : State η) (out : SchedulerOutput) (id : ReqId) : Sequence :=
  let r := t.requests id
  let n := if id ∈ out.items.map Item.id then out.numScheduledTokens id else 0
  ⟨id, r.allTokenIds, r.blockTable, r.numComputedTokens - n, r.numComputedTokens⟩

/-- The forward pass. -/
abbrev batch (t : State η) (out : SchedulerOutput) : List Sequence :=
  out.items.map (out.sequence t.requests)

/-- How the requests stand once the step is scheduled. -/
structure Scheduled (E : Engine η) (s : EngineState η) (t : State η) (out : SchedulerOutput)
    (started : List ReqId) : Prop where
  running : ∀ id, id ∈ s.running ++ started ↔ (t.requests id).status = .running
  nodup : ∀ id ∈ s.running ++ started, (t.requests id).blockTable.Nodup
  fresh_unique : ∀ {id id' v}, Fresh E t out id v → Fresh E t out id' v → id = id'
  fresh_free : ∀ {id id' v}, Fresh E t out id v → id' ∈ s.running →
    v ∉ (s.scheduler.requests id').blockTable
  kind : ∀ item ∈ out.items, item.kind = .running ↔ item.id ∈ s.running
  mem_batch : ∀ q ∈ batch t out, ∃ id ∈ s.running ++ started, q = row t out id
  /-- A request that has been running. -/
  table : ∀ id ∈ s.running, ∃ blocks, (∀ v ∈ blocks, Fresh E t out id v) ∧
    (t.requests id).blockTable = (s.scheduler.requests id).blockTable ++ blocks
  tokens : ∀ id ∈ s.running, (t.requests id).allTokenIds = (s.scheduler.requests id).allTokenIds
  start : ∀ id ∈ s.running, (row t out id).start = (s.scheduler.requests id).numComputedTokens
  /-- A request that starts. -/
  starts : ∀ id ∈ s.running ++ started, id ∉ s.running →
    ∃ item ∈ out.items, item.id = id ∧ item.kind ≠ .running
  local_le : ∀ id ∈ s.running ++ started, id ∉ s.running →
    (t.requests id).numLocalTokens / E.cfg.blockSize * E.cfg.blockSize ≤ (row t out id).start
  fresh : ∀ id ∈ s.running ++ started, id ∉ s.running → ∀ k v,
    (t.requests id).blockTable[k]? = some v →
    (t.requests id).numLocalTokens / E.cfg.blockSize ≤ k → Fresh E t out id v
  loaded : ∀ id ∈ s.running ++ started, id ∉ s.running → ∀ p,
    (t.requests id).numLocalTokens / E.cfg.blockSize ≤ p / E.cfg.blockSize →
    p < (row t out id).start → ∃ x ∈ loads t.dispatched, x.1 = id ∧ ∃ v,
      (t.requests id).blockTable[p / E.cfg.blockSize]? = some v ∧
      (blockHash E.cfg (t.requests id).allTokenIds (p / E.cfg.blockSize), v) ∈ x.2.loadPairs ∧
      (p / E.cfg.blockSize + 1) * E.cfg.blockSize ≤ (t.requests id).allTokenIds.length
  /-- A request with tokens in this step. -/
  own : ∀ id ∈ s.running ++ started, (row t out id).start < (t.requests id).numComputedTokens →
    row t out id ∈ batch t out ∧
      (t.requests id).numComputedTokens ≤ (t.requests id).blockTable.length * E.cfg.blockSize
  loads_fresh : ∀ x ∈ loads t.dispatched, ∀ v ∈ x.2.loadBlockIds.2, Fresh E t out x.1 v
  pairs_unique : ∀ x ∈ loads t.dispatched, ∀ y ∈ loads t.dispatched, ∀ a ∈ x.2.loadPairs,
    ∀ b ∈ y.2.loadPairs, a.2 = b.2 → a = b

theorem Scheduled.origin (h : Scheduled E s t out started) (hid : id ∈ s.running ++ started)
    (hv : (t.requests id).blockTable[k]? = some v) :
    (id ∈ s.running ∧ (s.scheduler.requests id).blockTable[k]? = some v) ∨
      (id ∉ s.running ∧ k < (t.requests id).numLocalTokens / E.cfg.blockSize) ∨
      Fresh E t out id v := by
  by_cases hold : id ∈ s.running
  · obtain ⟨blocks, hfresh, htable⟩ := h.table id hold
    rw [htable, List.getElem?_append] at hv
    split_ifs at hv with hlt
    · exact .inl ⟨hold, hv⟩
    · exact .inr (.inr (hfresh v (List.mem_of_getElem? hv)))
  · by_cases hlocal : k < (t.requests id).numLocalTokens / E.cfg.blockSize
    · exact .inr (.inl ⟨hold, hlocal⟩)
    · exact .inr (.inr (h.fresh id hid hold k v hv (by omega)))

theorem Scheduled.writer (h : Scheduled E s t out started) {q : Sequence} {i : Nat}
    (hq : q ∈ batch t out) (hp : q.position E.cfg.blockSize v i = some p) :
    ∃ id ∈ s.running ++ started, q.id = id ∧ (Fresh E t out id v ∨ id ∈ s.running ∧ ∃ k,
      (s.scheduler.requests id).blockTable[k]? = some v ∧
      (s.scheduler.requests id).numComputedTokens < (k + 1) * E.cfg.blockSize) := by
  obtain ⟨id, hid, rfl⟩ := h.mem_batch q hq
  obtain ⟨k, hv, hi, rfl, hstart, -⟩ := Sequence.of_position hp
  refine ⟨id, hid, rfl, ?_⟩
  rcases h.origin hid hv with ⟨hold, hv⟩ | ⟨hold, hlocal⟩ | hfresh
  · rw [h.start id hold] at hstart
    refine .inr ⟨hold, k, hv, ?_⟩
    rw [Nat.add_mul]
    omega
  · have hle := h.local_le id hid hold
    have hmul := Nat.mul_le_mul_right E.cfg.blockSize
      (show k + 1 ≤ (t.requests id).numLocalTokens / E.cfg.blockSize from hlocal)
    rw [Nat.add_mul] at hmul
    omega
  · exact .inl hfresh

theorem Scheduled.exclusive_of_fresh (h : Scheduled E s t out started)
    (hv : (t.requests id).blockTable[p / E.cfg.blockSize]? = some v) (hfresh : Fresh E t out id v) :
    Exclusive E.cfg (batch t out) (row t out id) p := by
  intro q hq hne v' hv'
  rw [show (row t out id).table = (t.requests id).blockTable from rfl, hv] at hv'
  cases hv'
  by_contra hsome
  obtain ⟨p', hp'⟩ := Option.ne_none_iff_exists'.mp hsome
  obtain ⟨w, -, hqw, hfresh' | ⟨hw, k, hk, -⟩⟩ := h.writer hq hp'
  · exact hne (hqw.trans (h.fresh_unique hfresh' hfresh))
  · exact h.fresh_free hfresh hw (List.mem_of_getElem? hk)

theorem Scheduled.exclusive_of_old (h : Scheduled E s t out started)
    (hv : (t.requests id).blockTable[p / E.cfg.blockSize]? = some v)
    (hfresh : ∀ w, ¬Fresh E t out w v)
    (hold : ∀ w ∈ s.running, w ≠ id → ∀ k, (s.scheduler.requests w).blockTable[k]? = some v →
      (k + 1) * E.cfg.blockSize ≤ (s.scheduler.requests w).numComputedTokens) :
    Exclusive E.cfg (batch t out) (row t out id) p := by
  intro q hq hne v' hv'
  rw [show (row t out id).table = (t.requests id).blockTable from rfl, hv] at hv'
  cases hv'
  by_contra hsome
  obtain ⟨p', hp'⟩ := Option.ne_none_iff_exists'.mp hsome
  obtain ⟨w, -, hqw, hfresh' | ⟨hw, k, hk, hlt⟩⟩ := h.writer hq hp'
  · exact hfresh w hfresh'
  · have hid : w ≠ id := fun heq => hne (hqw.trans heq)
    have := hold w hw hid k hk
    omega

theorem Engine.Sound.left (h : E.Sound s id) (hw : id' ∈ s.running) (hne : id' ≠ id)
    (hk : (s.scheduler.requests id').blockTable[k]? = some v)
    (hv : v ∈ (s.scheduler.requests id).blockTable) :
    (k + 1) * E.cfg.blockSize ≤ (s.scheduler.requests id').numComputedTokens := by
  obtain ⟨hlt, -⟩ := List.getElem?_eq_some_iff.mp hk
  exact h.2 id' hw hne k hlt v hk hv

theorem Layer.Valid.append {cfg : Config η} {g : Layer η} {tokens : List Token}
    {table : List VllmBlock} (h : g.Valid cfg tokens table p) (blocks : List VllmBlock) :
    g.Valid cfg tokens (table ++ blocks) p := by
  obtain ⟨v, hv, hvalid⟩ := h
  refine ⟨v, ?_, hvalid⟩
  obtain ⟨hlt, -⟩ := List.getElem?_eq_some_iff.mp hv
  rw [Option.mem_def, List.getElem?_append_left hlt]
  exact hv

/-! ## Sources -/

theorem Scheduled.sourced_of_sound (h : Scheduled E s t out started) (hid : id ∈ s.running)
    (hsound : E.Sound s id) (hp : p < (t.requests id).numComputedTokens) :
    Sourced E.kind E.cfg E.layers t.dispatched (batch t out) o s.gpu (row t out id) p ∧
      Exclusive E.cfg (batch t out) (row t out id) p := by
  have hrun : id ∈ s.running ++ started := List.mem_append_left _ hid
  obtain ⟨blocks, hblocks, htable⟩ := h.table id hid
  have hexclusive : ∀ v, (t.requests id).blockTable[p / E.cfg.blockSize]? = some v →
      Exclusive E.cfg (batch t out) (row t out id) p := by
    intro v hv
    rcases h.origin hrun hv with ⟨-, hold⟩ | ⟨hnot, -⟩ | hfresh
    · have hmem := List.mem_of_getElem? hold
      refine h.exclusive_of_old hv (fun w hfresh => h.fresh_free hfresh hid hmem) ?_
      intro w hw hne k hk
      exact hsound.left hw hne hk hmem
    · exact absurd hid hnot
    · exact h.exclusive_of_fresh hv hfresh
  by_cases hstart : p < (row t out id).start
  · rw [h.start id hid] at hstart
    obtain ⟨v, hv, -⟩ := hsound.1 0 E.layers_pos p hstart
    have hmem := List.mem_of_getElem? hv
    have hvalid : ∀ l < E.layers,
        (s.gpu l).Valid E.cfg (t.requests id).allTokenIds (t.requests id).blockTable p := by
      intro l hl
      rw [h.tokens id hid, htable]
      exact (hsound.1 l hl p hstart).append blocks
    obtain ⟨v', hv', -⟩ := hvalid 0 E.layers_pos
    have heq : v' = v := by
      rw [Option.mem_def, htable] at hv'
      obtain ⟨hlt, -⟩ := List.getElem?_eq_some_iff.mp hv
      rw [List.getElem?_append_left hlt, hv] at hv'
      exact (Option.some.inj hv').symm
    subst heq
    refine ⟨.kept (by rw [h.start id hid]; exact hstart) v' hv' ?_ hvalid, hexclusive v' hv'⟩
    intro x hx hload
    exact h.fresh_free (h.loads_fresh x hx v' hload) hid hmem
  · obtain ⟨hbatch, hlength⟩ := h.own id hrun (by omega)
    have hlt : p / E.cfg.blockSize < (t.requests id).blockTable.length := by
      rw [Nat.div_lt_iff_lt_mul E.cfg.blockSize_pos]
      omega
    have hv := List.getElem?_eq_getElem hlt
    exact ⟨.own hbatch (by omega) _ hv, hexclusive _ hv⟩

theorem Scheduled.sourced_of_starts (h : Scheduled E s t out started)
    (hid : id ∈ s.running ++ started) (hnot : id ∉ s.running)
    (hok : ∀ x ∈ loads t.dispatched, x.1 = id → ¬Fails E.kind E.layers o x.1)
    (hp : p < (t.requests id).numComputedTokens)
    (hlocal : (t.requests id).numLocalTokens / E.cfg.blockSize ≤ p / E.cfg.blockSize) :
    Sourced E.kind E.cfg E.layers t.dispatched (batch t out) o s.gpu (row t out id) p ∧
      Exclusive E.cfg (batch t out) (row t out id) p := by
  by_cases hstart : p < (row t out id).start
  · obtain ⟨x, hx, hxid, v, hv, hpair, hfull⟩ := h.loaded id hid hnot p hlocal hstart
    exact ⟨.loaded hstart v hv x hx (hok x hx hxid) hpair hfull,
      h.exclusive_of_fresh hv (h.fresh id hid hnot _ v hv hlocal)⟩
  · obtain ⟨hbatch, hlength⟩ := h.own id hid (by omega)
    have hlt : p / E.cfg.blockSize < (t.requests id).blockTable.length := by
      rw [Nat.div_lt_iff_lt_mul E.cfg.blockSize_pos]
      omega
    have hv := List.getElem?_eq_getElem hlt
    exact ⟨.own hbatch (by omega) _ hv,
      h.exclusive_of_fresh hv (h.fresh id hid hnot _ _ hv hlocal)⟩

theorem Scheduled.sourced_of_settled (h : Scheduled E s t out started)
    (hid : id ∈ s.running ++ started) (hnot : id ∉ s.running)
    (hsettled : E.Settled s t out (t.requests id) (p / E.cfg.blockSize))
    (hlocal : p / E.cfg.blockSize < (t.requests id).numLocalTokens / E.cfg.blockSize) :
    Sourced E.kind E.cfg E.layers t.dispatched (batch t out) o s.gpu (row t out id) p ∧
      Exclusive E.cfg (batch t out) (row t out id) p := by
  have hslot : p % E.cfg.blockSize < E.cfg.blockSize := Nat.mod_lt _ E.cfg.blockSize_pos
  have hvalid : ∀ l < E.layers,
      (s.gpu l).Valid E.cfg (t.requests id).allTokenIds (t.requests id).blockTable p := by
    intro l hl
    have := hsettled.1 l hl _ hslot
    rwa [E.cfg.block_slot] at this
  obtain ⟨v, hv, -⟩ := hvalid 0 E.layers_pos
  obtain ⟨hfresh, hold⟩ := hsettled.2 v hv
  have hfresh' : ∀ w, ¬Fresh E t out w v := by
    rintro w ⟨item, hitem, -, hmem⟩
    exact hfresh (List.mem_flatMap.mpr ⟨item, hitem, hmem⟩)
  have hstart : p < (row t out id).start := by
    have hle := h.local_le id hid hnot
    have hmul := Nat.mul_le_mul_right E.cfg.blockSize
      (show p / E.cfg.blockSize + 1 ≤ (t.requests id).numLocalTokens / E.cfg.blockSize from hlocal)
    rw [Nat.add_mul] at hmul
    have := E.cfg.block_slot p
    omega
  constructor
  · refine .kept hstart v hv ?_ hvalid
    intro x hx hload
    exact hfresh' _ (h.loads_fresh x hx v hload)
  · refine h.exclusive_of_old hv hfresh' ?_
    intro w hw _ k hk
    obtain ⟨hlt, -⟩ := List.getElem?_eq_some_iff.mp hk
    exact hold w hw k hlt hk

variable {item : Item}

theorem Scheduled.mem_of_item (h : Scheduled E s t out started) (hitem : item ∈ out.items) :
    item.id ∈ s.running ++ started := by
  obtain ⟨id, hid, heq⟩ := h.mem_batch _ (List.mem_map_of_mem (f := out.sequence t.requests) hitem)
  have : item.id = id := congrArg Sequence.id heq
  rw [this]
  exact hid

/-- The requests that keep what they have: not affected, and sound if they have been running. -/
def Good (E : Engine η) (s : EngineState η) (t : State η) (out : SchedulerOutput)
    (started : List ReqId) (o : Outcomes) (q : Sequence) : Prop :=
  ∃ id ∈ s.running ++ started, ¬Affected E.cfg.blockSize (E.invalidBlocks t o) (t.requests id) ∧
    (id ∈ s.running → E.Sound s id) ∧ q = row t out id

theorem Engine.FailsSafely.ok (h : E.FailsSafely s t out started o)
    (hid : ¬Affected E.cfg.blockSize (E.invalidBlocks t o) (t.requests id))
    (x : ReqId × RequestDispatchMeta η) (hx : x ∈ loads t.dispatched) (hxid : x.1 = id) :
    ¬Fails E.kind E.layers o x.1 := by
  intro hfails
  have := h.covered x hx hfails
  rw [hxid] at this
  exact hid this

/-- **The plan of a careful step.** -/
theorem Scheduled.plan (h : Scheduled E s t out started) (hsafe : E.FailsSafely s t out started o) :
    Plan E.kind E.cfg E.layers t.dispatched (batch t out) o s.gpu (Good E s t out started o) := by
  refine ⟨h.pairs_unique, ?_, ?_, ?_, ?_⟩
  · rintro _ ⟨id, hid, -, -, rfl⟩
    exact h.nodup id hid
  · rintro _ ⟨id, hid, -, -, rfl⟩
    exact Nat.sub_le _ _
  · rintro _ ⟨id, hid, -, -, rfl⟩ q hq hqid
    obtain ⟨id', -, rfl⟩ := h.mem_batch q hq
    have : id' = id := hqid
    rw [this]
  · rintro _ ⟨id, hid, hnot, hsound, rfl⟩ p hp
    -- The request's own sources.
    have hself : Sourced E.kind E.cfg E.layers t.dispatched (batch t out) o s.gpu (row t out id) p ∧
        Exclusive E.cfg (batch t out) (row t out id) p → ∃ q, Good E s t out started o q ∧
        p < q.stop ∧ q.table[p / E.cfg.blockSize]? = (row t out id).table[p / E.cfg.blockSize]? ∧
        q.tokens.take ((p / E.cfg.blockSize + 1) * E.cfg.blockSize) =
          (row t out id).tokens.take ((p / E.cfg.blockSize + 1) * E.cfg.blockSize) ∧
        Sourced E.kind E.cfg E.layers t.dispatched (batch t out) o s.gpu q p ∧
        Exclusive E.cfg (batch t out) q p :=
      fun hself => ⟨row t out id, ⟨id, hid, hnot, hsound, rfl⟩, hp, rfl, rfl, hself.1, hself.2⟩
    by_cases hold : id ∈ s.running
    · exact hself (h.sourced_of_sound hold (hsound hold) hp)
    · by_cases hlocal : (t.requests id).numLocalTokens / E.cfg.blockSize ≤ p / E.cfg.blockSize
      · exact hself (h.sourced_of_starts hid hold (hsafe.ok hnot) hp hlocal)
      · rw [Nat.not_le] at hlocal
        obtain ⟨item, hitem, rfl, hkind⟩ := h.starts id hid hold
        rcases hsafe.cached item hitem hkind hnot _ hlocal with hsettled | hdue
        · exact hself (h.sourced_of_settled hid hold hsettled hlocal)
        · obtain ⟨other, hother, hnot', hsource, -, hblock, hcomputed, htokens⟩ := hdue
          have hid' := h.mem_of_item hother
          have hlt : p < (t.requests other.id).numComputedTokens := by
            have := E.cfg.block_slot p
            have hslot : p % E.cfg.blockSize < E.cfg.blockSize :=
              Nat.mod_lt _ E.cfg.blockSize_pos
            rw [Nat.add_mul] at hcomputed
            omega
          by_cases hrunning : other.kind = .running
          · rw [if_pos hrunning] at hsource
            have hold' := (h.kind other hother).mp hrunning
            obtain ⟨hsourced, hexclusive⟩ := h.sourced_of_sound (o := o) hold' hsource hlt
            exact ⟨row t out other.id, ⟨other.id, hid', hnot', fun _ => hsource, rfl⟩, hlt, hblock,
              htokens, hsourced, hexclusive⟩
          · rw [if_neg hrunning] at hsource
            have hold' := mt (h.kind other hother).mpr hrunning
            obtain ⟨hsourced, hexclusive⟩ :=
              h.sourced_of_starts hid' hold' (hsafe.ok hnot') hlt hsource
            exact ⟨row t out other.id, ⟨other.id, hid', hnot', fun hmem => absurd hmem hold', rfl⟩,
              hlt, hblock, htokens, hsourced, hexclusive⟩

theorem Scheduled.due_origin (h : Scheduled E s t out started) (hitem : item ∈ out.items)
    (hsource : if item.kind = .running then E.Sound s item.id
      else (t.requests item.id).numLocalTokens / E.cfg.blockSize ≤ k)
    (hv : (t.requests item.id).blockTable[k]? = some v) :
    (E.Sound s item.id ∧ item.id ∈ s.running ∧ v ∈ (s.scheduler.requests item.id).blockTable) ∨
      Fresh E t out item.id v := by
  have hid := h.mem_of_item hitem
  by_cases hrunning : item.kind = .running
  · rw [if_pos hrunning] at hsource
    have hold := (h.kind item hitem).mp hrunning
    rcases h.origin hid hv with ⟨-, hv⟩ | ⟨hnot, -⟩ | hfresh
    · exact .inl ⟨hsource, hold, List.mem_of_getElem? hv⟩
    · exact absurd hold hnot
    · exact .inr hfresh
  · rw [if_neg hrunning] at hsource
    exact .inr (h.fresh item.id hid (mt (h.kind item hitem).mpr hrunning) k v hv hsource)

theorem Scheduled.left (h : Scheduled E s t out started) (hsafe : E.FailsSafely s t out started o)
    (hgood : Good E s t out started o (row t out id)) (hid' : id' ∈ s.running ++ started)
    (hne : id' ≠ id) (hk : (t.requests id').blockTable[k]? = some v)
    (hv : v ∈ (t.requests id).blockTable) :
    (k + 1) * E.cfg.blockSize ≤ (t.requests id').numComputedTokens := by
  obtain ⟨_, hid, hnot, hsound, heq⟩ := hgood
  have heq := congrArg Sequence.id heq
  cases heq
  obtain ⟨j, hj⟩ := List.getElem?_of_mem hv
  have hgrow : id' ∈ s.running → (s.scheduler.requests id').numComputedTokens ≤
      (t.requests id').numComputedTokens := by
    intro hold
    rw [← h.start id' hold]
    exact Nat.sub_le _ _
  -- A locally cached block of a good request that starts.
  have hcached : id ∉ s.running → j < (t.requests id).numLocalTokens / E.cfg.blockSize →
      (Fresh E t out id' v ∨ id' ∈ s.running ∧ (s.scheduler.requests id').blockTable[k]? = some v) →
      (k + 1) * E.cfg.blockSize ≤ (t.requests id').numComputedTokens := by
    intro hstarts hlocal horigin
    obtain ⟨item, hitem, rfl, hkind⟩ := h.starts id hid hstarts
    rcases hsafe.cached item hitem hkind hnot j hlocal with ⟨-, hsettled⟩ |
      ⟨other, hother, -, hsource, -, hblock, hcomputed, -⟩
    · obtain ⟨hfresh, hold⟩ := hsettled v hj
      rcases horigin with ⟨item', hitem', -, hmem⟩ | ⟨hold', hk'⟩
      · exact absurd (List.mem_flatMap.mpr ⟨item', hitem', hmem⟩) hfresh
      · obtain ⟨hlt, -⟩ := List.getElem?_eq_some_iff.mp hk'
        have := hold id' hold' k hlt hk'
        have := hgrow hold'
        omega
    · rw [hj] at hblock
      by_cases heq : other.id = id'
      · -- The one it gets its contents from.
        rw [heq] at hblock hcomputed
        have hindex := idxOf?_of_nodup (h.nodup id' hid') hblock
        rw [idxOf?_of_nodup (h.nodup id' hid') hk] at hindex
        cases hindex
        exact hcomputed
      · rcases h.due_origin hother hsource hblock with ⟨hsound', hold', hmem⟩ | hfresh'
        · rcases horigin with hfresh | ⟨hold, hk'⟩
          · exact absurd hmem (h.fresh_free hfresh hold')
          · have := hsound'.left hold (Ne.symm heq) hk' hmem
            have := hgrow hold
            omega
        · rcases horigin with hfresh | ⟨hold, hk'⟩
          · exact absurd (h.fresh_unique hfresh' hfresh) heq
          · exact absurd (List.mem_of_getElem? hk') (h.fresh_free hfresh' hold)
  rcases h.origin hid' hk with ⟨hold, hk'⟩ | ⟨hold, hlocal⟩ | hfresh
  · rcases h.origin hid hj with ⟨hold', hj'⟩ | ⟨hstarts, hlocal⟩ | hfresh
    · have := (hsound hold').left hold hne hk' (List.mem_of_getElem? hj')
      have := hgrow hold
      omega
    · exact hcached hstarts hlocal (.inr ⟨hold, hk'⟩)
    · exact absurd (List.mem_of_getElem? hk') (h.fresh_free hfresh hold)
  · have hle := h.local_le id' hid' hold
    have hmul := Nat.mul_le_mul_right E.cfg.blockSize
      (show k + 1 ≤ (t.requests id').numLocalTokens / E.cfg.blockSize from hlocal)
    have hstop : (row t out id').start ≤ (t.requests id').numComputedTokens := Nat.sub_le _ _
    omega
  · rcases h.origin hid hj with ⟨hold', hj'⟩ | ⟨hstarts, hlocal⟩ | hfresh'
    · exact absurd (List.mem_of_getElem? hj') (h.fresh_free hfresh hold')
    · exact hcached hstarts hlocal (.inl hfresh)
    · exact absurd (h.fresh_unique hfresh hfresh') hne

/-! ## From the scheduler -/

theorem row_of_item (hitem : item ∈ out.items) :
    row t out item.id = out.sequence t.requests item := by
  unfold row SchedulerOutput.sequence
  dsimp only
  rw [if_pos (List.mem_map_of_mem hitem)]

theorem row_start_of_notMem (hid : id ∉ out.items.map Item.id) :
    (row t out id).start = (t.requests id).numComputedTokens := by
  unfold row
  dsimp only
  rw [if_neg hid, Nat.sub_zero]

variable {requests : ReqId → Request}

theorem Allocated.unique {item' : Item} (h : Allocated bs s requests out) (hitem : item ∈ out.items)
    (hitem' : item' ∈ out.items) (hv : v ∈ item.fresh bs requests)
    (hv' : v ∈ item'.fresh bs requests) : item = item' := by
  by_contra hne
  obtain ⟨-, hpairwise⟩ := List.nodup_flatMap.mp h.1
  have : Std.Symm (Function.onFun List.Disjoint (Item.fresh bs requests)) :=
    ⟨fun _ _ hd _ ha hb => hd hb ha⟩
  exact hpairwise.forall hitem hitem' hne hv hv'

/-- An item that starts. -/
structure Starting (E : Engine η) (s : EngineState η) (t : State η) (out : SchedulerOutput)
    (item : Item) (numLocal numComputed : Nat) : Prop where
  status : (s.scheduler.requests item.id).status = .waiting ∨
    (s.scheduler.requests item.id).status = .preempted
  matched : (s.scheduler.requests item.id).matched = some (numLocal, numComputed)
  tokens : (t.requests item.id).allTokenIds = (s.scheduler.requests item.id).allTokenIds
  table : (t.requests item.id).blockTable = item.blocks
  numLocalTokens : (t.requests item.id).numLocalTokens = numLocal
  start : (row t out item.id).start = numComputed
  stop : numComputed < (t.requests item.id).numComputedTokens
  length : (t.requests item.id).numComputedTokens ≤ item.blocks.length * E.cfg.blockSize

/-- An item that continues. -/
structure Continuing (E : Engine η) (s : EngineState η) (t : State η) (out : SchedulerOutput)
    (item : Item) : Prop where
  status : (s.scheduler.requests item.id).status = .running
  tokens : (t.requests item.id).allTokenIds = (s.scheduler.requests item.id).allTokenIds
  table : (t.requests item.id).blockTable =
    (s.scheduler.requests item.id).blockTable ++ item.blocks
  start : (row t out item.id).start = (s.scheduler.requests item.id).numComputedTokens
  length : (t.requests item.id).numComputedTokens ≤
    (t.requests item.id).blockTable.length * E.cfg.blockSize

theorem item_cases (hitem : item ∈ out.items)
    (h : (s.scheduler.requests item.id).schedule E.cfg.blockSize item
      (out.numScheduledTokens item.id) = some (t.requests item.id)) :
    (item.kind ≠ .running ∧ ∃ numLocal numComputed, Starting E s t out item numLocal numComputed) ∨
      (item.kind = .running ∧ Continuing E s t out item) := by
  have hstart : (row t out item.id).start =
      (t.requests item.id).numComputedTokens - out.numScheduledTokens item.id := by
    rw [row_of_item hitem]
    rfl
  rcases Request.schedule_cases h with ⟨hkind, hstatus, hbegin⟩ |
    ⟨hkind, hstatus, hn, htokens, hblocks, hr⟩
  · obtain ⟨numLocal, numComputed, hmatched, hn, htokens, hblocks, hr⟩ := Request.begin_spec hbegin
    rw [hr] at hstart
    refine .inl ⟨hkind, numLocal, numComputed, hstatus, hmatched, by rw [hr], by rw [hr],
      by rw [hr], by rw [hstart, Nat.add_sub_cancel], ?_, by rw [hr]; exact hblocks⟩
    rw [hr]
    exact Nat.lt_add_of_pos_right hn
  · rw [hr] at hstart
    refine .inr ⟨hkind, hstatus, by rw [hr], by rw [hr], by rw [hstart, Nat.add_sub_cancel], ?_⟩
    rw [hr]
    exact hblocks

theorem Starting.loads {numLocal numComputed : Nat} (hcp : E.cfg.cpWorldSize = 1)
    (h : Starting E s t out item numLocal numComputed) (hkind : item.kind ≠ .running)
    {m : RequestMeta η} (hm : MetaOk E.cfg (s.scheduler.requests item.id) m)
    (hhbm : m.hbmHitBlockNum * E.cfg.blockSize = numLocal)
    (htotal : numComputed ≤ m.totalHitBlockNum * E.cfg.blockSize)
    (hlocal : numLocal / E.cfg.blockSize ≤ p / E.cfg.blockSize) (hp : p < numComputed) :
    ∃ v, item.blocks[p / E.cfg.blockSize]? = some v ∧
      (blockHash E.cfg (s.scheduler.requests item.id).allTokenIds (p / E.cfg.blockSize), v) ∈
        (generateItem E.cfg out item m).2.loadPairs ∧
      (p / E.cfg.blockSize + 1) * E.cfg.blockSize ≤
        (s.scheduler.requests item.id).allTokenIds.length := by
  have hpos := E.cfg.blockSize_pos
  have hbs := Config.blockSize_eq hcp
  have hblock : p / E.cfg.blockSize < m.totalHitBlockNum := by
    rw [Nat.div_lt_iff_lt_mul hpos]
    omega
  have hfull : (p / E.cfg.blockSize + 1) * E.cfg.blockSize ≤ m.numTokenIds :=
    Nat.le_trans (Nat.mul_le_mul_right _ hblock) hm.total_le
  have hlt : p / E.cfg.blockSize < item.blocks.length := by
    rw [Nat.div_lt_iff_lt_mul hpos]
    have := h.stop
    have := h.length
    omega
  have hhash := hm.hashes (p / E.cfg.blockSize)
  rw [if_pos (by rw [← hbs]; exact hfull)] at hhash
  have hv := List.getElem?_eq_getElem hlt
  refine ⟨_, hv, ?_, Nat.le_trans hfull hm.numTokenIds_le⟩
  rw [← hhbm, Nat.mul_div_cancel _ hpos] at hlocal
  unfold RequestDispatchMeta.loadPairs
  rw [generateItem_load, if_neg hkind, hcp, Nat.mul_one, Nat.mul_one]
  exact mem_zip_slice_of hlocal hblock hhash hv

variable {x : ReqId × RequestDispatchMeta η}

theorem mem_loads {metadata : ConnectorMetadata η} :
    x ∈ loads metadata ↔ x ∈ metadata ∧ x.2.loadBlockIds.1 ≠ [] := by
  unfold Connector.loads
  rw [List.mem_filter]
  simp

theorem EngineInv.load_item (h : EngineInv E s) (hcp : E.cfg.cpWorldSize = 1)
    (hstep : step E.cfg s.scheduler (.schedule out) = some t) (hx : x ∈ loads t.dispatched) :
    ∃ item ∈ out.items, item.kind ≠ .running ∧ ∃ m, s.scheduler.requestsMeta item.id = some m ∧
      x = (item.id, (generateItem E.cfg out item m).2) ∧
      x.2.loadBlockIds.2 =
        slice item.blocks ((t.requests item.id).numLocalTokens / E.cfg.blockSize)
          m.totalHitBlockNum ∧
      x.2.loadBlockIds.1 =
        slice m.ucmBlockIds ((t.requests item.id).numLocalTokens / E.cfg.blockSize)
          m.totalHitBlockNum := by
  obtain ⟨hrequests, -, hdispatched⟩ := step_schedule hstep
  obtain ⟨hnodup, hitems, -, -⟩ := scheduleRequests_spec hrequests
  obtain ⟨hx, hne⟩ := mem_loads.mp hx
  rw [hdispatched] at hx
  rcases mem_foldl_dispatchItem hnodup hx with hx | ⟨item, hitem, m, hm, rfl⟩
  · exact absurd hx List.not_mem_nil
  · have hload := generateItem_load E.cfg out item m
    rcases item_cases hitem (hitems item hitem) with ⟨hkind, numLocal, numComputed, hstarting⟩ |
      ⟨hkind, -⟩
    · rw [if_neg hkind, hcp, Nat.mul_one, Nat.mul_one] at hload
      refine ⟨item, hitem, hkind, m, hm, rfl, ?_⟩
      have hhbm : (t.requests item.id).numLocalTokens / E.cfg.blockSize = m.hbmHitBlockNum := by
        rw [hstarting.numLocalTokens]
        obtain ⟨-, ⟨-, hnone⟩ | ⟨m', hm', hhbm, -⟩⟩ :=
          h.matched item.id hstarting.status numLocal numComputed hstarting.matched
        · -- Without external blocks there is nothing to load.
          exfalso
          apply hne
          rw [hload, hnone m hm]
          simp [slice]
        · cases hm.symm.trans hm'
          rw [← hhbm, Nat.mul_div_cancel _ E.cfg.blockSize_pos]
      rw [hhbm, hload]
      exact ⟨rfl, rfl⟩
    · rw [if_pos hkind] at hload
      exact absurd (congrArg Prod.fst hload) hne

theorem step_item (hstep : step E.cfg s.scheduler (.schedule out) = some t)
    (hitem : item ∈ out.items) :
    (item.kind ≠ .running ∧ ∃ numLocal numComputed, Starting E s t out item numLocal numComputed) ∨
      (item.kind = .running ∧ Continuing E s t out item) := by
  obtain ⟨hrequests, -, -⟩ := step_schedule hstep
  obtain ⟨-, hitems, -, -⟩ := scheduleRequests_spec hrequests
  exact item_cases hitem (hitems item hitem)

theorem EngineInv.item_running (h : EngineInv E s)
    (hstep : step E.cfg s.scheduler (.schedule out) = some t) (hitem : item ∈ out.items) :
    item.kind = .running ↔ item.id ∈ s.running := by
  rw [h.running]
  rcases step_item hstep hitem with ⟨hkind, _, _, hstarting⟩ | ⟨hkind, hcontinuing⟩
  · refine ⟨fun heq => absurd heq hkind, fun heq => ?_⟩
    rcases hstarting.status with hstatus | hstatus <;> rw [hstatus] at heq <;> simp at heq
  · exact ⟨fun _ => hcontinuing.status, fun _ => hkind⟩

theorem mem_started (hperm : started.Perm out.starting) :
    id ∈ started ↔ ∃ item ∈ out.items, item.id = id ∧ item.kind ≠ .running := by
  rw [hperm.mem_iff]
  unfold SchedulerOutput.starting
  simp only [List.mem_map, List.mem_filter, decide_eq_true_eq]
  constructor
  · rintro ⟨item, ⟨hitem, hk⟩, hid⟩
    exact ⟨item, hitem, hid, hk⟩
  · rintro ⟨item, hitem, hid, hk⟩
    exact ⟨item, ⟨hitem, hk⟩, hid⟩

theorem EngineInv.item_mem (h : EngineInv E s)
    (hstep : step E.cfg s.scheduler (.schedule out) = some t) (hperm : started.Perm out.starting)
    (hitem : item ∈ out.items) : item.id ∈ s.running ++ started := by
  by_cases hk : item.kind = .running
  · exact List.mem_append_left _ ((h.item_running hstep hitem).mp hk)
  · exact List.mem_append_right _ ((mem_started hperm).mpr ⟨item, hitem, rfl, hk⟩)

theorem starting_item (hstep : step E.cfg s.scheduler (.schedule out) = some t)
    (hperm : started.Perm out.starting) (hid : id ∈ s.running ++ started) (hnot : id ∉ s.running) :
    ∃ item ∈ out.items, item.id = id ∧ item.kind ≠ .running ∧
      ∃ numLocal numComputed, Starting E s t out item numLocal numComputed := by
  have hid := (List.mem_append.mp hid).resolve_left hnot
  obtain ⟨item, hitem, hid, hk⟩ := (mem_started hperm).mp hid
  rcases step_item hstep hitem with ⟨-, hstarting⟩ | ⟨hk', -⟩
  · exact ⟨item, hitem, hid, hk, hstarting⟩
  · exact absurd hk' hk

theorem EngineInv.continues (h : EngineInv E s)
    (hstep : step E.cfg s.scheduler (.schedule out) = some t) (hid : id ∈ s.running) :
    (id ∉ out.items.map Item.id ∧ t.requests id = s.scheduler.requests id) ∨
      ∃ item ∈ out.items, item.id = id ∧ item.kind = .running ∧ Continuing E s t out item := by
  obtain ⟨hrequests, -, -⟩ := step_schedule hstep
  obtain ⟨-, -, hother, -⟩ := scheduleRequests_spec hrequests
  by_cases hscheduled : id ∈ out.items.map Item.id
  · obtain ⟨item, hitem, rfl⟩ := List.mem_map.mp hscheduled
    have hk := (h.item_running hstep hitem).mpr hid
    rcases step_item hstep hitem with ⟨hk', -⟩ | ⟨-, hcontinuing⟩
    · exact absurd hk hk'
    · exact .inr ⟨item, hitem, rfl, hk, hcontinuing⟩
  · exact .inl ⟨hscheduled, hother id hscheduled⟩

theorem EngineInv.table_grows (h : EngineInv E s)
    (hstep : step E.cfg s.scheduler (.schedule out) = some t)
    (halloc : Allocated E.cfg.blockSize s t.requests out) (hid : id ∈ s.running) :
    ∃ blocks, (∀ v ∈ blocks, Fresh E t out id v) ∧
      (t.requests id).blockTable = (s.scheduler.requests id).blockTable ++ blocks ∧
      blocks.Nodup := by
  rcases h.continues hstep hid with ⟨-, heq⟩ | ⟨item, hitem, rfl, hk, hcontinuing⟩
  · exact ⟨[], by simp, by rw [heq, List.append_nil], List.nodup_nil⟩
  · refine ⟨item.blocks, ?_, hcontinuing.table, halloc.2.2 item hitem⟩
    intro v hv
    refine ⟨item, hitem, rfl, ?_⟩
    unfold Item.fresh
    rw [if_pos hk]
    exact hv

theorem Allocated.fresh_free (halloc : Allocated E.cfg.blockSize s t.requests out)
    (hv : Fresh E t out id v) (hid' : id' ∈ s.running) :
    v ∉ (s.scheduler.requests id').blockTable := by
  obtain ⟨item, hitem, -, hv⟩ := hv
  exact halloc.2.1 v (List.mem_flatMap.mpr ⟨item, hitem, hv⟩) id' hid'

theorem Item.mem_fresh_of_slice {n : Nat} (hk : item.kind ≠ .running)
    (hv : v ∈ slice item.blocks ((requests item.id).numLocalTokens / bs) n) :
    v ∈ item.fresh bs requests := by
  unfold Item.fresh
  rw [if_neg hk]
  exact List.mem_of_mem_take hv

theorem EngineInv.running_after (h : EngineInv E s)
    (hstep : step E.cfg s.scheduler (.schedule out) = some t) (hperm : started.Perm out.starting) :
    id ∈ s.running ++ started ↔ (t.requests id).status = .running := by
  obtain ⟨hrequests, -, -⟩ := step_schedule hstep
  obtain ⟨-, hitems, hother, -⟩ := scheduleRequests_spec hrequests
  by_cases hscheduled : id ∈ out.items.map Item.id
  · obtain ⟨item, hitem, rfl⟩ := List.mem_map.mp hscheduled
    exact ⟨fun _ => Request.schedule_status (hitems item hitem),
      fun _ => h.item_mem hstep hperm hitem⟩
  · rw [hother id hscheduled, ← h.running id, List.mem_append]
    constructor
    · rintro (hid | hid)
      · exact hid
      · obtain ⟨item, hitem, rfl, -⟩ := (mem_started hperm).mp hid
        exact absurd (List.mem_map_of_mem hitem) hscheduled
    · exact .inl

theorem EngineInv.table_nodup (h : EngineInv E s)
    (hstep : step E.cfg s.scheduler (.schedule out) = some t)
    (halloc : Allocated E.cfg.blockSize s t.requests out) (hperm : started.Perm out.starting)
    (hid : id ∈ s.running ++ started) : (t.requests id).blockTable.Nodup := by
  by_cases hrun : id ∈ s.running
  · obtain ⟨blocks, hfresh, heq, hblocks⟩ := h.table_grows hstep halloc hrun
    rw [heq, List.nodup_append]
    refine ⟨h.nodup id hrun, hblocks, ?_⟩
    rintro a ha b hb rfl
    exact halloc.fresh_free (hfresh a hb) hrun ha
  · obtain ⟨item, hitem, rfl, -, _, _, hst⟩ := starting_item hstep hperm hid hrun
    rw [hst.table]
    exact halloc.2.2 item hitem

theorem EngineInv.load_mem (h : EngineInv E s) (hcp : E.cfg.cpWorldSize = 1)
    (hstep : step E.cfg s.scheduler (.schedule out) = some t) {numLocal numComputed : Nat}
    (hitem : item ∈ out.items) (hk : item.kind ≠ .running)
    (hst : Starting E s t out item numLocal numComputed)
    (hlocal : numLocal / E.cfg.blockSize ≤ p / E.cfg.blockSize) (hp : p < numComputed) :
    ∃ x ∈ loads t.dispatched, x.1 = item.id ∧ ∃ v,
      (t.requests item.id).blockTable[p / E.cfg.blockSize]? = some v ∧
      (blockHash E.cfg (t.requests item.id).allTokenIds (p / E.cfg.blockSize), v) ∈ x.2.loadPairs ∧
      (p / E.cfg.blockSize + 1) * E.cfg.blockSize ≤ (t.requests item.id).allTokenIds.length := by
  obtain ⟨hrequests, -, hdispatched⟩ := step_schedule hstep
  obtain ⟨hnodup, -, -, -⟩ := scheduleRequests_spec hrequests
  have hpos := E.cfg.blockSize_pos
  obtain ⟨hmod, ⟨heq, -⟩ | ⟨m, hm, hhbm, -, htotal⟩⟩ :=
    h.matched item.id hst.status numLocal numComputed hst.matched
  · -- Without external tokens nothing is left to load.
    have hmul := Nat.mul_le_mul_right E.cfg.blockSize hlocal
    rw [Nat.div_mul_cancel (Nat.dvd_of_mod_eq_zero hmod)] at hmul
    have := Nat.div_mul_le_self p E.cfg.blockSize
    omega
  · obtain ⟨v, hv, hpair, hfull⟩ := hst.loads hcp hk (h.scheduler.metas item.id m hm) hhbm htotal
      hlocal hp
    rw [hst.table, hst.tokens]
    refine ⟨(item.id, (generateItem E.cfg out item m).2), ?_, rfl, v, hv, hpair, hfull⟩
    rw [mem_loads, hdispatched]
    refine ⟨mem_foldl_dispatchItem_of_meta hnodup hitem hm, ?_⟩
    intro hnil
    unfold RequestDispatchMeta.loadPairs at hpair
    rw [hnil] at hpair
    simp at hpair

theorem EngineInv.load_unique (h : EngineInv E s) (hcp : E.cfg.cpWorldSize = 1)
    (hstep : step E.cfg s.scheduler (.schedule out) = some t)
    (halloc : Allocated E.cfg.blockSize s t.requests out) {y : ReqId × RequestDispatchMeta η}
    (hx : x ∈ loads t.dispatched) (hy : y ∈ loads t.dispatched) {a b : η × VllmBlock}
    (ha : a ∈ x.2.loadPairs) (hb : b ∈ y.2.loadPairs) (heq : a.2 = b.2) : a = b := by
  obtain ⟨item, hitem, hk, m, hm, rfl, hblocks, hhashes⟩ := h.load_item hcp hstep hx
  obtain ⟨item', hitem', hk', m', hm', rfl, hblocks', -⟩ := h.load_item hcp hstep hy
  have hav := RequestDispatchMeta.mem_of_loadPairs ha
  have hbv := RequestDispatchMeta.mem_of_loadPairs hb
  rw [hblocks] at hav
  rw [hblocks', ← heq] at hbv
  have hitems_eq := halloc.unique hitem hitem' (Item.mem_fresh_of_slice hk hav)
    (Item.mem_fresh_of_slice hk' hbv)
  subst hitems_eq
  cases hm.symm.trans hm'
  -- Within one request the blocks are distinct.
  unfold RequestDispatchMeta.loadPairs at ha hb
  rw [hblocks, hhashes] at ha hb
  obtain ⟨j, -, -, hhash, hblock⟩ := mem_zip_slice ha
  obtain ⟨j', -, -, hhash', hblock'⟩ := mem_zip_slice hb
  rw [← heq] at hblock'
  have hindex := idxOf?_of_nodup (halloc.2.2 item hitem) hblock'
  rw [idxOf?_of_nodup (halloc.2.2 item hitem) hblock] at hindex
  cases hindex
  exact Prod.ext (Option.some.inj (hhash.symm.trans hhash')) heq

/-- **A scheduled step.** -/
theorem EngineInv.scheduled (h : EngineInv E s) (hcp : E.cfg.cpWorldSize = 1)
    (hstep : step E.cfg s.scheduler (.schedule out) = some t)
    (halloc : Allocated E.cfg.blockSize s t.requests out) (hperm : started.Perm out.starting) :
    Scheduled E s t out started := by
  refine
    { running := fun _ => h.running_after hstep hperm
      nodup := fun _ hid => h.table_nodup hstep halloc hperm hid
      fresh_unique := ?_
      fresh_free := halloc.fresh_free
      kind := fun _ hitem => h.item_running hstep hitem
      mem_batch := ?_, table := ?_, tokens := ?_, start := ?_, starts := ?_
      local_le := ?_, fresh := ?_, loaded := ?_, own := ?_, loads_fresh := ?_
      pairs_unique := fun _ hx _ hy _ ha _ hb heq => h.load_unique hcp hstep halloc hx hy ha hb heq }
  · rintro id id' v ⟨item, hitem, rfl, hv⟩ ⟨item', hitem', rfl, hv'⟩
    rw [halloc.unique hitem hitem' hv hv']
  · intro q hq
    obtain ⟨item, hitem, rfl⟩ := List.mem_map.mp hq
    exact ⟨item.id, h.item_mem hstep hperm hitem, (row_of_item hitem).symm⟩
  · intro id hid
    obtain ⟨blocks, hfresh, heq, -⟩ := h.table_grows hstep halloc hid
    exact ⟨blocks, hfresh, heq⟩
  · intro id hid
    rcases h.continues hstep hid with ⟨-, heq⟩ | ⟨item, hitem, rfl, -, hcontinuing⟩
    · rw [heq]
    · exact hcontinuing.tokens
  · intro id hid
    rcases h.continues hstep hid with ⟨hnot, heq⟩ | ⟨item, hitem, rfl, -, hcontinuing⟩
    · rw [row_start_of_notMem hnot, heq]
    · exact hcontinuing.start
  · intro id hid hnot
    obtain ⟨item, hitem, hid, hk, -⟩ := starting_item hstep hperm hid hnot
    exact ⟨item, hitem, hid, hk⟩
  · intro id hid hnot
    obtain ⟨item, hitem, rfl, -, numLocal, numComputed, hst⟩ := starting_item hstep hperm hid hnot
    obtain ⟨-, hcomputed⟩ := h.matched item.id hst.status numLocal numComputed hst.matched
    have hle : numLocal ≤ numComputed := by
      rcases hcomputed with ⟨heq, -⟩ | ⟨_, -, -, hle, -⟩
      · omega
      · exact hle
    rw [hst.numLocalTokens, hst.start]
    exact Nat.le_trans (Nat.div_mul_le_self _ _) hle
  · intro id hid hnot k v hv hlocal
    obtain ⟨item, hitem, rfl, hk, numLocal, numComputed, hst⟩ := starting_item hstep hperm hid hnot
    refine ⟨item, hitem, rfl, ?_⟩
    unfold Item.fresh
    rw [if_neg hk]
    rw [hst.table] at hv
    refine List.mem_of_getElem? (i := k - (t.requests item.id).numLocalTokens / E.cfg.blockSize) ?_
    rw [List.getElem?_drop, Nat.add_sub_cancel' hlocal, hv]
  · intro id hid hnot p hlocal hp
    obtain ⟨item, hitem, rfl, hk, numLocal, numComputed, hst⟩ := starting_item hstep hperm hid hnot
    rw [hst.numLocalTokens] at hlocal
    rw [hst.start] at hp
    exact h.load_mem hcp hstep hitem hk hst hlocal hp
  · intro id hid hlt
    by_cases hscheduled : id ∈ out.items.map Item.id
    · obtain ⟨item, hitem, rfl⟩ := List.mem_map.mp hscheduled
      refine ⟨by rw [row_of_item hitem]; exact List.mem_map_of_mem hitem, ?_⟩
      rcases step_item hstep hitem with ⟨-, _, _, hst⟩ | ⟨-, hcontinuing⟩
      · rw [hst.table]
        exact hst.length
      · exact hcontinuing.length
    · rw [row_start_of_notMem hscheduled] at hlt
      exact absurd hlt (Nat.lt_irrefl _)
  · intro x hx v hv
    obtain ⟨item, hitem, hk, m, hm, rfl, hblocks, -⟩ := h.load_item hcp hstep hx
    rw [hblocks] at hv
    exact ⟨item, hitem, rfl, Item.mem_fresh_of_slice hk hv⟩

/-! ## Events of the scheduler -/

theorem Layer.Valid.append_tokens {cfg : Config η} {g : Layer η} {tokens : List Token}
    {table : List VllmBlock} (hcp : cfg.cpWorldSize = 1) (h : g.Valid cfg tokens table p)
    (more : List Token) (hp : p < tokens.length) : g.Valid cfg (tokens ++ more) table p := by
  obtain ⟨v, hv, hvalid⟩ := h
  refine ⟨v, hv, ?_⟩
  cases hcell : g v (p % cfg.blockSize) with
  | garbage => rw [hcell] at hvalid; exact hvalid
  | computed read =>
    rw [hcell] at hvalid
    show read = (tokens ++ more).take (p + 1)
    rw [List.take_append_of_le_length (by omega)]
    exact hvalid
  | loaded hash slot =>
    rw [hcell] at hvalid
    obtain ⟨hhash, hfull, hslot⟩ := hvalid
    have hbs := Config.blockSize_eq hcp
    refine ⟨?_, by rw [List.length_append]; omega, hslot⟩
    rw [blockHash_append cfg tokens more (by rw [← hbs]; exact hfull)]
    exact hhash

theorem EngineInv.frame (h : EngineInv E s) (hcp : E.cfg.cpWorldSize = 1) (id : ReqId)
    (hscheduler : SchedulerInv E.cfg s'.scheduler) (hgpu : s'.gpu = s.gpu)
    (hother : ∀ w, w ≠ id → s'.scheduler.requests w = s.scheduler.requests w ∧
      s'.scheduler.requestsMeta w = s.scheduler.requestsMeta w)
    (hrunning : ∀ w, w ∈ s'.running ↔ (s'.scheduler.requests w).status = .running)
    (hsub : ∀ w ∈ s'.running, w ∈ s.running)
    (hid : id ∈ s'.running → ∃ more,
      s'.scheduler.requests id = { s.scheduler.requests id with
        allTokenIds := (s.scheduler.requests id).allTokenIds ++ more } ∧
      s'.scheduler.requestsMeta id = s.scheduler.requestsMeta id ∧
      (s.scheduler.requests id).numComputedTokens ≤ (s.scheduler.requests id).allTokenIds.length)
    (hmatched : MatchedOk E.cfg (s'.scheduler.requests id) (s'.scheduler.requestsMeta id)) :
    EngineInv E s' := by
  have hsame : ∀ w ∈ s'.running,
      (s'.scheduler.requests w).blockTable = (s.scheduler.requests w).blockTable ∧
      (s'.scheduler.requests w).numComputedTokens = (s.scheduler.requests w).numComputedTokens ∧
      s'.scheduler.requestsMeta w = s.scheduler.requestsMeta w := by
    intro w hw
    by_cases heq : w = id
    · subst heq
      obtain ⟨more, hr, hm, -⟩ := hid hw
      exact ⟨by rw [hr], by rw [hr], hm⟩
    · obtain ⟨hr, hm⟩ := hother w heq
      exact ⟨by rw [hr], by rw [hr], hm⟩
  refine ⟨hscheduler, hrunning, ?_, ?_, ?_⟩
  · intro w hw
    rw [(hsame w hw).1]
    exact h.nodup w (hsub w hw)
  · intro w
    by_cases heq : w = id
    · rw [heq]
      exact hmatched
    · obtain ⟨hr, hm⟩ := hother w heq
      rw [hr, hm]
      exact h.matched w
  · intro w hw hsome
    obtain ⟨htable, hcomputed, hm⟩ := hsame w hw
    rw [hm] at hsome
    have hsound := h.sound w (hsub w hw) hsome
    constructor
    · intro l hl p hp
      rw [hcomputed] at hp
      rw [htable, hgpu]
      have hvalid := hsound.1 l hl p hp
      by_cases heq : w = id
      · subst heq
        obtain ⟨more, hr, -, hle⟩ := hid hw
        rw [hr]
        exact hvalid.append_tokens hcp more (by omega)
      · rw [(hother w heq).1]
        exact hvalid
    · intro w' hw' hne k hk v hv hmem
      obtain ⟨htable', hcomputed', -⟩ := hsame w' hw'
      rw [htable'] at hk hv
      rw [htable] at hmem
      rw [hcomputed']
      exact hsound.left (hsub w' hw') hne hv hmem

theorem EngineInv.matchedOk (h : EngineInv E s) {numLocal : Nat} {lookup : Option Int}
    (hcareful : E.Careful s (.scheduler (.matched id numLocal lookup)))
    (hstep : step E.cfg s.scheduler (.matched id numLocal lookup) = some t) :
    MatchedOk E.cfg (t.requests id) (t.requestsMeta id) := by
  simp only [step] at hstep
  split_ifs at hstep with hguard
  cases hstep
  obtain ⟨hstatus, hlocal, -, hlookup⟩ := hguard
  intro _ l c heq
  dsimp only [State.setRequest] at heq ⊢
  rw [update_self] at heq
  cases heq
  refine ⟨hlocal, ?_⟩
  rcases getNumNewMatchedTokens_spec s.scheduler.requestsMeta id hlocal
    hlookup with ⟨heq, hearly⟩ | ⟨m, external, heq, hhbm, htotal, -⟩
  · rw [heq]
    refine .inl ⟨rfl, ?_⟩
    intro m hm
    rcases hcareful m hm with hlt | ⟨hnone, -⟩
    · rcases hearly with hthreshold | hearly
      · have := (h.scheduler.metas id m hm).threshold
        omega
      · omega
    · exact hnone
  · rw [heq]
    refine .inr ⟨m, ?_, hhbm, Nat.le_add_right _ _, htotal⟩
    rw [Option.mem_def]
    exact update_self _ _ _

theorem Engine.Careful.afresh {e : Event} (h : E.Careful s (.scheduler e)) :
    MatchedAfresh E.cfg s.scheduler e := by
  cases e with
  | matched id numLocal lookup =>
    intro m hm hne hlt
    rcases h m hm with hlocal | ⟨-, hthrough⟩
    · exact hlocal
    · exact absurd (hthrough hne) (by omega)
  | arrive id prompt => trivial
  | schedule out => trivial
  | append id token => trivial
  | preempt id => trivial
  | finish id => trivial

theorem EngineInv.leave (h : EngineInv E s) (hcp : E.cfg.cpWorldSize = 1) {r : Request}
    (hscheduler : SchedulerInv E.cfg (s.scheduler.setRequest id r)) (hr : r.status ≠ .running)
    (hmatched : MatchedOk E.cfg r (s.scheduler.requestsMeta id))
    (hs' : s' = { s with
      scheduler := s.scheduler.setRequest id r, running := s.running.filter (· ≠ id)
      dumps := [], failed := [] }) : EngineInv E s' := by
  subst hs'
  have hself : ((s.scheduler.setRequest id r).requests id) = r := update_self _ _ _
  have hother : ∀ w, w ≠ id →
      (s.scheduler.setRequest id r).requests w = s.scheduler.requests w :=
    fun w hw => update_of_ne hw _ _
  refine h.frame hcp id hscheduler rfl (fun w hw => ⟨hother w hw, rfl⟩) ?_ ?_ ?_ ?_
  · intro w
    simp only [List.mem_filter, decide_eq_true_eq]
    by_cases hw : w = id
    · subst hw
      rw [hself]
      simp [hr]
    · rw [hother w hw, ← h.running w]
      simp [hw]
  · intro w hw
    exact (List.mem_filter.mp hw).1
  · intro hid
    simp at hid
  · show MatchedOk E.cfg ((s.scheduler.setRequest id r).requests id) _
    rw [hself]
    exact hmatched

theorem EngineInv.schedulerEvent [DecidableEq η] (h : EngineInv E s) (hcp : E.cfg.cpWorldSize = 1)
    {e : Event} (hcareful : E.Careful s (.scheduler e))
    (hstep : E.step s (.scheduler e) = some s') : EngineInv E s' ∧ s'.dumps = [] := by
  cases e with
  | schedule out => simp [Engine.step] at hstep
  | arrive id prompt =>
    obtain ⟨t, ht, rfl⟩ := Option.map_eq_some_iff.mp hstep
    have hscheduler := h.scheduler.step hcareful.afresh ht
    simp only [step] at ht
    split_ifs at ht with hguard
    cases ht
    have hnot : id ∉ s.running := by
      rw [h.running, hguard.1]
      simp
    refine ⟨h.frame hcp id hscheduler rfl (fun w hw => ⟨update_of_ne hw _ _, rfl⟩)
      ?_ (fun w hw => hw) (fun hid => absurd hid hnot) ?_, rfl⟩
    · intro w
      by_cases hw : w = id
      · subst hw
        simp [State.setRequest, runningAfter, hnot]
      · simp only [State.setRequest, update_of_ne hw, runningAfter]
        exact h.running w
    · intro _ l c hmatched
      simp [State.setRequest, Request.none] at hmatched
  | matched id numLocal lookup =>
    obtain ⟨t, ht, rfl⟩ := Option.map_eq_some_iff.mp hstep
    have hscheduler := h.scheduler.step hcareful.afresh ht
    have hmatched := h.matchedOk hcareful ht
    simp only [step] at ht
    split_ifs at ht with hguard
    cases ht
    have hnot : id ∉ s.running := by
      rw [h.running]
      rcases hguard.1 with hstatus | hstatus <;> simp [hstatus]
    refine ⟨h.frame hcp id hscheduler rfl ?_ ?_ (fun w hw => hw)
      (fun hid => absurd hid hnot) hmatched, rfl⟩
    · intro w hw
      refine ⟨update_of_ne hw _ _, ?_⟩
      rcases getNumNewMatchedTokens_spec s.scheduler.requestsMeta id
        hguard.2.1 hguard.2.2.2 with ⟨heq, -⟩ | ⟨m, external, heq, -⟩
      · simp only [heq]
      · simp only [heq, update_of_ne hw]
    · intro w
      by_cases hw : w = id
      · subst hw
        simp only [State.setRequest, update_self, runningAfter]
        exact h.running w
      · simp only [State.setRequest, update_of_ne hw, runningAfter]
        exact h.running w
  | append id token =>
    obtain ⟨t, ht, rfl⟩ := Option.map_eq_some_iff.mp hstep
    have hscheduler := h.scheduler.step hcareful.afresh ht
    simp only [step] at ht
    split_ifs at ht with hguard
    cases ht
    refine ⟨h.frame hcp id hscheduler rfl (fun w hw => ⟨update_of_ne hw _ _, rfl⟩)
      ?_ (fun w hw => hw) ?_ ?_, rfl⟩
    · intro w
      by_cases hw : w = id
      · subst hw
        simp only [State.setRequest, update_self, runningAfter]
        exact h.running w
      · simp only [State.setRequest, update_of_ne hw, runningAfter]
        exact h.running w
    · intro _
      exact ⟨[token], update_self _ _ _, rfl, Nat.le_of_eq hguard.2⟩
    · intro hstatus
      simp [State.setRequest, hguard.1] at hstatus
  | preempt id =>
    obtain ⟨t, ht, rfl⟩ := Option.map_eq_some_iff.mp hstep
    have hscheduler := h.scheduler.step hcareful.afresh ht
    simp only [step] at ht
    split_ifs at ht with hguard
    cases ht
    exact ⟨h.leave hcp hscheduler (by simp) (fun _ _ _ hm => absurd hm (by simp)) rfl, rfl⟩
  | finish id =>
    obtain ⟨t, ht, rfl⟩ := Option.map_eq_some_iff.mp hstep
    have hscheduler := h.scheduler.step hcareful.afresh ht
    simp only [step] at ht
    split_ifs at ht with hguard
    cases ht
    exact ⟨h.leave hcp hscheduler (by simp) (fun hs => absurd hs (by simp)) rfl, rfl⟩

/-! ## Steps -/

theorem mem_invalidBlocks : v ∈ E.invalidBlocks t o ↔
    ∃ x ∈ loads t.dispatched, Fails E.kind E.layers o x.1 ∧ v ∈ x.2.loadBlockIds.2 := by
  unfold Engine.invalidBlocks failedBlocks
  simp only [List.mem_flatMap, List.mem_filter, decide_eq_true_eq]
  constructor
  · rintro ⟨x, ⟨hx, hfails⟩, hv⟩
    exact ⟨x, hx, hfails, hv⟩
  · rintro ⟨x, hx, hfails, hv⟩
    exact ⟨x, ⟨hx, hfails⟩, hv⟩

variable {invalid invalid' : List VllmBlock}

theorem Affected.iff_of_mem {r : Request} (h : ∀ v, v ∈ invalid ↔ v ∈ invalid') :
    Affected bs invalid r ↔ Affected bs invalid' r := by
  unfold Affected
  simp only [h]

theorem meta_of_step (hstep : step E.cfg s.scheduler (.schedule out) = some t)
    {m : RequestMeta η} (hm : t.requestsMeta id = some m) :
    (s.scheduler.requestsMeta id).isSome := by
  obtain ⟨hrequests, hmetas, -⟩ := step_schedule hstep
  obtain ⟨hnodup, -, -, -⟩ := scheduleRequests_spec hrequests
  rw [hmetas, foldl_finished] at hm
  split_ifs at hm
  by_cases hid : id ∈ out.items.map Item.id
  · obtain ⟨item, hitem, rfl⟩ := List.mem_map.mp hid
    rw [foldl_dispatchItem_of_mem hnodup hitem] at hm
    obtain ⟨m₀, hm₀, -⟩ := Option.map_eq_some_iff.mp hm
    exact Option.isSome_iff_exists.mpr ⟨m₀, hm₀⟩
  · rw [foldl_dispatchItem_of_notMem hid] at hm
    exact Option.isSome_iff_exists.mpr ⟨m, hm⟩

theorem waiting_of_step (hstep : step E.cfg s.scheduler (.schedule out) = some t)
    (hstatus : (t.requests id).status = .waiting ∨ (t.requests id).status = .preempted) :
    t.requests id = s.scheduler.requests id ∧
      t.requestsMeta id = s.scheduler.requestsMeta id := by
  obtain ⟨hrequests, hmetas, -⟩ := step_schedule hstep
  obtain ⟨hnodup, hitems, hother, hfinished⟩ := scheduleRequests_spec hrequests
  have hid : id ∉ out.items.map Item.id := by
    intro hid
    obtain ⟨item, hitem, rfl⟩ := List.mem_map.mp hid
    rw [Request.schedule_status (hitems item hitem)] at hstatus
    simp at hstatus
  refine ⟨hother id hid, ?_⟩
  rw [hmetas, foldl_finished, if_neg, foldl_dispatchItem_of_notMem hid]
  intro hfin
  rw [hother id hid, hfinished id hfin] at hstatus
  simp at hstatus

theorem Scheduled.sound_after (h : Scheduled E s t out started)
    (hsafe : E.FailsSafely s t out started o) {w : Worker η}
    (hgpu : ∀ l < E.layers, GoodLayer E.cfg (Good E s t out started o) (w.gpu l))
    {x : Repair} (hrepair : Repair.Ok E.cfg.blockSize (E.invalidBlocks t o) t.requests
      (s.running ++ started) x)
    (hs' : s'.scheduler.requests = x.requests ∧ s'.running = s.running ++ started ∧
      s'.gpu = w.gpu) (hgood : Good E s t out started o (row t out id)) : E.Sound s' id := by
  obtain ⟨hrequests, hrunning, hgpu'⟩ := hs'
  have hgood' := hgood
  obtain ⟨_, hid, hnot, -, heq⟩ := hgood'
  have heq := congrArg Sequence.id heq
  cases heq
  have hsame : x.requests id = t.requests id :=
    hrepair.unaffected id fun hmem => hnot ((hrepair.affected id).mp hmem).2
  unfold Engine.Sound
  dsimp only
  rw [hrequests, hrunning, hgpu', hsame]
  constructor
  · intro l hl p hp
    exact hgpu l hl _ hgood p hp
  · intro w' hw' hne k _ v hv hmem
    have htable : (x.requests w').blockTable = (t.requests w').blockTable := by
      rw [hrepair.same w']
    rw [Option.mem_def, htable] at hv
    by_cases haffected : w' ∈ x.affectedReqIds
    · -- It is set back to an invalid block at most, and what is shared is before it.
      obtain ⟨j, b, hj, hb, hle⟩ := hrepair.back w' haffected
      obtain ⟨hlt, -⟩ := List.getElem?_eq_some_iff.mp hv
      have hbefore := hsafe.apart w' hw' ((hrepair.affected w').mp haffected).2 id hid hnot k hlt v
        hv hmem
      have hkj : k < j := by
        by_contra hge
        refine hbefore b (List.mem_of_getElem? (i := j) ?_) hb
        rw [List.getElem?_take, if_pos (by omega), hj]
      exact Nat.le_trans (Nat.mul_le_mul_right _ hkj) hle
    · rw [hrepair.unaffected w' haffected]
      exact h.left hsafe hgood hw' hne hv hmem

theorem EngineInv.dumpOk (h : EngineInv E s) (hcp : E.cfg.cpWorldSize = 1)
    (hstep : step E.cfg s.scheduler (.schedule out) = some t)
    (hsched : Scheduled E s t out started) (hsafe : E.FailsSafely s t out started o) {w : Worker η}
    (hworker : WorkerOk E.kind E.cfg E.layers t.dispatched o (Good E s t out started o) w)
    {x : Repair} (hrepair : Repair.Ok E.cfg.blockSize (E.invalidBlocks t o) t.requests
      (s.running ++ started) x)
    (hs' : s'.scheduler.requests = x.requests ∧ s'.failed = w.failureReqIds)
    {c : DumpCall η} (hc : c ∈ w.dumps) {entry : ReqId × List η × List VllmBlock}
    (hentry : entry ∈ c.entries) : DumpOk E.cfg s' c entry := by
  obtain ⟨hrequests, hfailed⟩ := hs'
  obtain ⟨hentries, hlayers⟩ := hworker.dumps c hc
  rw [hentries] at hentry
  obtain ⟨d, hd, rfl⟩ := List.mem_map.mp hentry
  obtain ⟨hd, hdump⟩ := List.mem_filter.mp hd
  have hnot : ¬Affected E.cfg.blockSize (E.invalidBlocks t o) (t.requests d.1) := by
    intro haffected
    rw [hsafe.silent d hd haffected] at hdump
    simp at hdump
  have hok := ((h.scheduler.schedule hstep).2 d hd).dispatchOk hcp
  -- The request has had metadata, so it has been sound if it has been running.
  have hgood : Good E s t out started o (row t out d.1) := by
    obtain ⟨hreq, -, hdispatched⟩ := step_schedule hstep
    obtain ⟨hnodup, -, -, -⟩ := scheduleRequests_spec hreq
    rw [hdispatched] at hd
    rcases mem_foldl_dispatchItem hnodup hd with hd | ⟨item, hitem, m, hm, rfl⟩
    · exact absurd hd List.not_mem_nil
    · refine ⟨item.id, hsched.mem_of_item hitem, hnot, ?_, rfl⟩
      intro hrun
      exact h.sound item.id hrun (Option.isSome_iff_exists.mpr ⟨m, hm⟩)
  have htable : (x.requests d.1).blockTable = (t.requests d.1).blockTable := by
    rw [hrepair.same d.1]
  have htokens : (x.requests d.1).allTokenIds = (t.requests d.1).allTokenIds := by
    rw [hrepair.same d.1]
  constructor
  · intro hmem
    rw [hfailed] at hmem
    obtain ⟨hfails, y, hy, hid⟩ := hworker.failed d.1 hmem
    exact hsafe.ok hnot y hy hid (hid ▸ hfails)
  · intro pair hpair
    obtain ⟨j, hhash, hcomputed, hblock⟩ := hok.dump pair hpair
    dsimp only
    rw [hrequests, htable, htokens]
    refine ⟨j, hhash, hblock, ?_⟩
    intro l hl p hp
    exact hlayers l hl _ hgood p (Nat.lt_of_lt_of_le hp hcomputed)

/-! ## The repair after a step -/

theorem Repair.Ok.of_mem {seen : List ReqId} {x : Repair} (h : Repair.Ok bs invalid requests seen x)
    (hmem : ∀ v, v ∈ invalid ↔ v ∈ invalid') : Repair.Ok bs invalid' requests seen x := by
  refine ⟨h.same, ?_, h.unaffected, ?_⟩
  · intro id
    rw [h.affected id, Affected.iff_of_mem hmem]
  · intro id hid
    obtain ⟨k, v, hk, hv, hle⟩ := h.back id hid
    exact ⟨k, v, hk, (hmem v).mp hv, hle⟩

theorem handleInvalidBlocks_requestsMeta (running : List ReqId) (invalid : List VllmBlock)
    (t : State η) (id : ReqId) : (handleInvalidBlocks bs running invalid t).requestsMeta id =
      if id ∈ (updateRequestsWithInvalidBlocks bs running invalid t.requests).affectedReqIds then none
      else t.requestsMeta id :=
  foldl_finished _ _ _

theorem SchedulerInv.repaired {cfg : Config η} (h : SchedulerInv cfg t) {running : List ReqId}
    (hok : Repair.Ok bs invalid' t.requests running
      (updateRequestsWithInvalidBlocks bs running invalid t.requests)) :
    SchedulerInv cfg (handleInvalidBlocks bs running invalid t) := by
  constructor
  · intro id hunknown
    have hsame := hok.same id
    rw [handleInvalidBlocks_requestsMeta]
    split_ifs
    · rfl
    · refine h.unknown id ?_
      rw [← hunknown]
      exact (congrArg Request.status hsame).symm
  · intro id m hm
    rw [handleInvalidBlocks_requestsMeta] at hm
    split_ifs at hm with hnot
    have hsame : (handleInvalidBlocks bs running invalid t).requests id = t.requests id :=
      hok.unaffected id hnot
    rw [hsame]
    exact h.metas id m hm

theorem EngineInv.matched_repaired (h : EngineInv E s)
    (hstep : step E.cfg s.scheduler (.schedule out) = some t) (hsched : Scheduled E s t out started)
    (hok : Repair.Ok bs invalid' t.requests (s.running ++ started)
      (updateRequestsWithInvalidBlocks bs (s.running ++ started) invalid t.requests)) (id : ReqId) :
    MatchedOk E.cfg ((handleInvalidBlocks bs (s.running ++ started) invalid t).requests id)
      ((handleInvalidBlocks bs (s.running ++ started) invalid t).requestsMeta id) := by
  intro hstatus
  have hstatus' : (t.requests id).status = .waiting ∨ (t.requests id).status = .preempted := by
    rw [← congrArg Request.status (hok.same id)]
    exact hstatus
  have hnot : id ∉ (updateRequestsWithInvalidBlocks bs (s.running ++ started) invalid
      t.requests).affectedReqIds := by
    intro hmem
    rw [(hsched.running id).mp ((hok.affected id).mp hmem).1] at hstatus'
    simp at hstatus'
  obtain ⟨hreq, hmetas⟩ := waiting_of_step hstep hstatus'
  have hsame : (handleInvalidBlocks bs (s.running ++ started) invalid t).requests id =
      t.requests id := hok.unaffected id hnot
  rw [handleInvalidBlocks_requestsMeta, if_neg hnot, hmetas, hsame, hreq]
  rw [hreq] at hstatus'
  exact h.matched id hstatus'

/-- **A careful step** keeps the invariant, and what it dumps is valid. -/
theorem EngineInv.execute [DecidableEq η] (h : EngineInv E s) (hcp : E.cfg.cpWorldSize = 1)
    (hcareful : E.Careful s (.execute out started o))
    (hstep : E.step s (.execute out started o) = some s') :
    EngineInv E s' ∧ ∀ c ∈ s'.dumps, ∀ entry ∈ c.entries, DumpOk E.cfg s' c entry := by
  obtain ⟨t, ht, hstep⟩ := Option.bind_eq_some_iff.mp hstep
  split_ifs at hstep with hguard
  cases hstep
  have hsafe := hcareful t ht
  have hsched := h.scheduled hcp ht hguard.1 hguard.2
  have hworker := runWorker_ok (hsched.plan hsafe) hcp E.layers_pos
  obtain ⟨hscheduler, -⟩ := h.scheduler.schedule ht
  unfold Engine.execute
  dsimp only
  generalize runWorker E.kind E.cfg E.layers t.dispatched (out.items.map (out.sequence t.requests)) o
    s.gpu = w at hworker ⊢
  have hrepair : Repair.Ok E.cfg.blockSize (E.invalidBlocks t o) t.requests (s.running ++ started)
      (updateRequestsWithInvalidBlocks E.cfg.blockSize (s.running ++ started) w.invalidBlockIds
        t.requests) :=
    (updateRequestsWithInvalidBlocks_spec w.invalidBlockIds E.cfg.blockSize_pos
      (s.running ++ started) t.requests).of_mem
      fun v => (hworker.invalid v).trans mem_invalidBlocks.symm
  constructor
  · refine ⟨hscheduler.repaired hrepair, ?_, ?_, h.matched_repaired ht hsched hrepair, ?_⟩
    · intro id
      rw [hsched.running id, ← congrArg Request.status (hrepair.same id)]
      rfl
    · intro id hid
      have hnodup := hsched.nodup id hid
      rw [← congrArg Request.blockTable (hrepair.same id)] at hnodup
      exact hnodup
    · intro id hid hsome
      obtain ⟨m, hm⟩ := Option.isSome_iff_exists.mp hsome
      dsimp only at hm
      rw [handleInvalidBlocks_requestsMeta] at hm
      split_ifs at hm with hnot
      refine hsched.sound_after hsafe hworker.gpu hrepair ⟨rfl, rfl, rfl⟩ ?_
      refine ⟨id, hid, fun ha => hnot ((hrepair.affected id).mpr ⟨hid, ha⟩), ?_, rfl⟩
      intro hrun
      exact h.sound id hrun (meta_of_step ht hm)
  · intro c hc entry hentry
    exact h.dumpOk hcp ht hsched hsafe hworker hrepair ⟨rfl, rfl⟩ hc hentry

theorem EngineInv.of_reach [DecidableEq η] (hcp : E.cfg.cpWorldSize = 1)
    (h : E.machine.Reach E.Careful s) :
    EngineInv E s ∧ ∀ c ∈ s.dumps, ∀ entry ∈ c.entries, DumpOk E.cfg s c entry := by
  refine h.inv (I := fun s => EngineInv E s ∧
    ∀ c ∈ s.dumps, ∀ entry ∈ c.entries, DumpOk E.cfg s c entry) ?_ ?_
  · rintro s rfl
    exact ⟨⟨⟨fun _ _ => rfl, by simp [EngineState.start, State.start]⟩,
      by simp [EngineState.start, State.start, Request.none], by simp [EngineState.start],
      by simp [EngineState.start, State.start, Request.none, MatchedOk],
      by simp [EngineState.start]⟩, by simp [EngineState.start]⟩
  · intro s e s' hinv hcareful hstep
    cases e with
    | scheduler e =>
      obtain ⟨hinv', hdumps⟩ := hinv.1.schedulerEvent hcp hcareful hstep
      exact ⟨hinv', by simp [hdumps]⟩
    | execute out started o => exact hinv.1.execute hcp hcareful hstep

/-- **No poisoned dump.** Whatever a step of a careful run hands to `dump_data`, with either connector
and any failing loads, is of a request whose load has not failed, and every block goes with all blocks
before it valid at that time. -/
theorem dump_valid [DecidableEq η] (hcp : E.cfg.cpWorldSize = 1)
    (h : E.machine.Reach E.Careful s) :
    ∀ c ∈ s.dumps, ∀ entry ∈ c.entries, DumpOk E.cfg s c entry :=
  (EngineInv.of_reach hcp h).2

/-- Only the loads of request `0` fail, in layer `l`. -/
def failsAt (l : Nat) : Outcomes where
  submit := fun _ _ => true
  wait := fun l' id => !(l' == l && id == 0)

/-- The loads of request `0` fail when it has nothing to dump; it computes everything again, and then
another request is dumped. -/
def recoveringRun (l : Nat) : List EngineEvent :=
  [.scheduler (.arrive 0 [1, 2, 3, 4, 5]), .scheduler (.matched 0 0 (some 1)),
    .execute (startAlone 1 [10, 11, 12]) [0] (failsAt l),
    .execute ⟨[], [⟨0, none, false⟩], fun _ => 5, []⟩ [] (failsAt 2),
    .scheduler (.arrive 1 [7, 8, 9]), .scheduler (.matched 1 0 (some (-1))),
    .execute ⟨[⟨1, [20, 21]⟩], [], fun _ => 3, []⟩ [1] (failsAt 2)]

theorem dump_valid_recovering :
    (∃ s, (Engine.small .direct).machine.Reach (Engine.small .direct).Careful s ∧
      (∃ c ∈ s.dumps, (1, [[7, 8]], [20]) ∈ c.entries) ∧
      ∀ c ∈ s.dumps, ∀ entry ∈ c.entries, DumpOk .small s c entry) ∧
    ∃ s, (Engine.small .layerWise).machine.Reach (Engine.small .layerWise).Careful s ∧
      (∃ c ∈ s.dumps, (1, [[7, 8]], [20]) ∈ c.entries) ∧
      ∀ c ∈ s.dumps, ∀ entry ∈ c.entries, DumpOk .small s c entry := by
  constructor
  · obtain ⟨s, hreach, hdumped⟩ := Machine.exists_reach_of_run
      (M := (Engine.small .direct).machine) (C := (Engine.small .direct).Careful) (s := .start)
      (l := recoveringRun 0) (p := fun s => ∃ c ∈ s.dumps, (1, [[7, 8]], [20]) ∈ c.entries) rfl
      (by decide +kernel)
    exact ⟨s, hreach, hdumped, dump_valid rfl hreach⟩
  · obtain ⟨s, hreach, hdumped⟩ := Machine.exists_reach_of_run
      (M := (Engine.small .layerWise).machine) (C := (Engine.small .layerWise).Careful)
      (s := .start) (l := recoveringRun 1)
      (p := fun s => ∃ c ∈ s.dumps, (1, [[7, 8]], [20]) ∈ c.entries) rfl (by decide +kernel)
    exact ⟨s, hreach, hdumped, dump_valid rfl hreach⟩

/-- A request loads one block and computes the next one in the same step. -/
def failingRun : List EngineEvent :=
  [.scheduler (.arrive 0 [1, 2, 3, 4, 5]), .scheduler (.matched 0 0 (some 0)),
    .execute (startAlone 3 [10, 11, 12]) [0] (failsAt 0)]

/-- The load of the first block of a request fails and its second one is dumped in the same step, with
either connector; the first one holds nothing. -/
theorem dump_poisoned :
    (∃ s, (Engine.small .direct).machine.Reachable s ∧
      ∃ c ∈ s.dumps, ∃ entry ∈ c.entries, ¬DumpOk .small s c entry) ∧
    ∃ s, (Engine.small .layerWise).machine.Reachable s ∧
      ∃ c ∈ s.dumps, ∃ entry ∈ c.entries, ¬DumpOk .small s c entry := by
  constructor
  · obtain ⟨s, hs, hp⟩ := Machine.exists_reachable_of_run (M := (Engine.small .direct).machine)
      (s := .start) (l := failingRun) (p := fun s => ∃ c ∈ s.dumps, ∃ entry ∈ c.entries,
        entry.1 ∈ s.failed ∧ entry.2 = ([[1, 2, 3, 4]], [11]) ∧ c.gpu 0 10 0 = .garbage) rfl
      (by decide +kernel)
    obtain ⟨c, hc, entry, hentry, hfailed, -⟩ := hp
    exact ⟨s, hs, c, hc, entry, hentry, fun hok => hok.not_failed hfailed⟩
  · obtain ⟨s, hs, hp⟩ := Machine.exists_reachable_of_run (M := (Engine.small .layerWise).machine)
      (s := .start) (l := failingRun) (p := fun s => ∃ c ∈ s.dumps, ∃ entry ∈ c.entries,
        entry.1 ∈ s.failed ∧ entry.2 = ([[1, 2, 3, 4]], [11]) ∧ c.gpu 0 10 0 = .garbage) rfl
      (by decide +kernel)
    obtain ⟨c, hc, entry, hentry, hfailed, -⟩ := hp
    exact ⟨s, hs, c, hc, entry, hentry, fun hok => hok.not_failed hfailed⟩

end UnifiedCache.Connector
