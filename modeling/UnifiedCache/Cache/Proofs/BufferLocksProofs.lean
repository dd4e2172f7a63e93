import UnifiedCache.Cache.BufferLocks
import UnifiedCache.Cache.Proofs.TransBufferProofs

/-!
# Proofs: the locks of the buffer

A thread that waits for a node while it holds one waits for a node of a chain whose bucket it
holds. The other candidates that are held in the middle of `Remove` or `MoveTo` are in a chain of
another bucket or in none, so such a thread never waits for another one of its kind.
-/

open Function Lib

namespace UnifiedCache.Cache.BufferLocks

variable {τ : Type*} [DecidableEq τ] {cfg : BufferConfig} {bucketOf : Key → Nat}

/-! ## What a thread holds -/

/-- The locks a thread holds, the last one taken first. -/
def Pc.held (bucketOf : Key → Nat) : Pc → List Lock
  | .out _ | .bucketLock _ _ | .posLock _ _ => []
  | .first k _ | .walkLock k _ _ | .bucketUnlock k _ | .fetchNode k _ | .allocLock k _ _ =>
    [.bucket (bucketOf k)]
  | .compare k _ i | .hitUnlock k i _ | .missUnlock k _ i _ | .inspect k _ i | .retryUnlock k _ i
  | .tryLock k _ i _ | .moveTo k i | .headLock k i _ | .moveEnd k i | .rekey k i
  | .allocUnlock k i => [.node i, .bucket (bucketOf k)]
  | .removePrev k i old | .prevLock k i old _ | .removeNext k i old | .nextLock k i old _
  | .removeEnd k i old _ | .oldUnlock k i old => [.bucket old, .node i, .bucket (bucketOf k)]
  | .prevWrite k i old j | .prevUnlock k i old j | .nextWrite k i old j | .nextUnlock k i old j =>
    [.node j, .bucket old, .node i, .bucket (bucketOf k)]
  | .headWrite k i j | .headUnlock k i j => [.node j, .node i, .bucket (bucketOf k)]
  | .posAccess _ i | .posUnlock _ i _ => [.node i]

@[simp] theorem held_walkAt (k : Key) (c : Caller) (link : Option Nat) :
    (walkAt k c link).held bucketOf = [.bucket (bucketOf k)] := by
  cases link with
  | some i => rfl
  | none => cases c <;> rfl

variable {pc pc' : Pc} {l : Lock}

theorem held_locking (h : pc.locking bucketOf = some (l, pc')) :
    pc'.held bucketOf = l :: pc.held bucketOf := by
  cases pc <;> simp only [Pc.locking, Option.some.injEq, Prod.mk.injEq, reduceCtorEq] at h <;>
    (obtain ⟨rfl, rfl⟩ := h; rfl)

theorem held_unlocking (h : pc.unlocking bucketOf = some (l, pc')) :
    pc.held bucketOf = l :: pc'.held bucketOf := by
  cases pc with
  | missUnlock k c i next =>
    simp only [Pc.unlocking, Option.some.injEq, Prod.mk.injEq] at h
    rw [← h.1, ← h.2, held_walkAt]
    rfl
  | hitUnlock | bucketUnlock | retryUnlock | prevUnlock | nextUnlock | oldUnlock | headUnlock
  | allocUnlock | posUnlock =>
    cases h
    rfl
  | _ => cases h

theorem held_trying (bucketOf : Key → Nat) {got busy : Pc} (h : pc.trying = some (l, got, busy)) :
    got.held bucketOf = l :: pc.held bucketOf ∧ busy.held bucketOf = pc.held bucketOf := by
  cases pc <;> simp only [Pc.trying, Option.some.injEq, Prod.mk.injEq, reduceCtorEq] at h
  obtain ⟨rfl, rfl, rfl⟩ := h
  exact ⟨rfl, rfl⟩

variable {s' : TransBuffer}

theorem held_code {s : TransBuffer} (h : pc.code cfg bucketOf s = some (s', pc')) :
    pc'.held bucketOf = pc.held bucketOf := by
  cases pc with
  | first k c =>
    simp only [Pc.code, Option.some.injEq, Prod.mk.injEq] at h
    rw [← h.2, held_walkAt]
    rfl
  | compare k c i =>
    simp only [Pc.code] at h
    split at h
    · cases c <;> (cases h; rfl)
    · cases h; rfl
  | inspect k ar i =>
    simp only [Pc.code] at h
    split at h
    · cases h; rfl
    · split at h
      · cases h; rfl
      · split at h <;> (cases h; rfl)
  | removePrev k i old | removeNext k i old =>
    simp only [Pc.code] at h
    split at h <;> (cases h; rfl)
  | moveTo k i =>
    simp only [Pc.code, Option.some.injEq, Prod.mk.injEq] at h
    rw [← h.2]
    split <;> rfl
  | fetchNode | prevWrite | nextWrite | removeEnd | headWrite | moveEnd | rekey | posAccess =>
    cases h
    rfl
  | _ => cases h

/-! ## The chain of a bucket while its holder works on it -/

/-- How far the holder of a bucket has got in rewriting its chain. -/
inductive Stage where
  /-- The chain is doubly linked. -/
  | intact
  /-- Node `iNode` is being unlinked: its predecessor skips it, and its successor too if `back`. -/
  | cut (iNode : Nat) (back : Bool)
  /-- Node `iNode` is being pushed: the old head already points back to it. -/
  | pushed (iNode : Nat)

/-- The stage of bucket `b` when a thread at `pc` holds it. -/
def Pc.stage (bucketOf : Key → Nat) (b : Nat) : Pc → Stage
  | .prevUnlock _ i old _ | .removeNext _ i old | .nextLock _ i old _ | .nextWrite _ i old _ =>
    if b = old then .cut i false else .intact
  | .nextUnlock _ i old _ | .removeEnd _ i old _ => if b = old then .cut i true else .intact
  | .headUnlock k i _ | .moveEnd k i => if b = bucketOf k then .pushed i else .intact
  | _ => .intact

/-- The links of bucket `b` at a stage: those of the chain `l` with the writes made so far. -/
def ChainAt (s : TransBuffer) (b : Nat) (l : List Nat) : Stage → Prop
  | .intact => DLinked s.links none (s.firstAt b) l
  | .cut i back => ∃ L : Links Nat, DLinked L none (s.firstAt b) l ∧
      (∀ y ∈ l, s.links.next y = if L.prev i = some y then L.next i else L.next y) ∧
      ∀ y ∈ l, s.links.prev y = if back ∧ L.next i = some y then L.prev i else L.prev y
  | .pushed i => ∃ L : Links Nat, DLinked L none (s.firstAt b) l ∧
      (∀ y ∈ l, s.links.next y = L.next y) ∧
      ∀ y ∈ l, s.links.prev y = if s.firstAt b = some y then some i else L.prev y

/-- What the local variables of a thread say about the nodes and buckets it holds. -/
def Fact (bucketOf : Key → Nat) (s : TransBuffer) : Pc → Prop
  | .tryLock _ _ i old | .removePrev _ i old | .prevUnlock _ i old _ | .removeNext _ i old =>
    (s.metaAt i).hash = some old
  | .prevLock _ i old p | .prevWrite _ i old p =>
    (s.metaAt i).hash = some old ∧ (s.metaAt i).prev = some p
  | .nextLock _ i old n | .nextWrite _ i old n | .nextUnlock _ i old n =>
    (s.metaAt i).hash = some old ∧ (s.metaAt i).next = some n
  | .removeEnd _ i old n => (s.metaAt i).hash = some old ∧ (s.metaAt i).next = n
  | .oldUnlock _ i _ | .moveTo _ i => (s.metaAt i).hash = none
  | .headLock k i n | .headWrite k i n | .headUnlock k i n =>
    (s.metaAt i).hash = none ∧ (s.metaAt i).next = some n ∧ s.firstAt (bucketOf k) = some n
  | .moveEnd k i => (s.metaAt i).hash = none ∧ (s.metaAt i).next = s.firstAt (bucketOf k)
  | _ => True

variable {b : Nat}

theorem stage_of_not_held (h : Lock.bucket b ∉ pc.held bucketOf) :
    pc.stage bucketOf b = .intact := by
  cases pc <;> simp_all [Pc.held, Pc.stage]

@[simp] theorem stage_walkAt (k : Key) (c : Caller) (link : Option Nat) (b : Nat) :
    (walkAt k c link).stage bucketOf b = .intact := by
  cases link with
  | some i => rfl
  | none => cases c <;> rfl

@[simp] theorem fact_walkAt (s : TransBuffer) (k : Key) (c : Caller) (link : Option Nat) :
    Fact bucketOf s (walkAt k c link) := by
  cases link with
  | some i => trivial
  | none => cases c <;> trivial

theorem stage_locking (h : pc.locking bucketOf = some (l, pc')) :
    (∀ b, pc'.stage bucketOf b = pc.stage bucketOf b) ∧
      ∀ s, Fact bucketOf s pc → Fact bucketOf s pc' := by
  cases pc <;> simp only [Pc.locking, Option.some.injEq, Prod.mk.injEq, reduceCtorEq] at h <;>
    (obtain ⟨rfl, rfl⟩ := h; exact ⟨fun _ => rfl, fun _ h => h⟩)

theorem stage_unlocking (h : pc.unlocking bucketOf = some (l, pc')) :
    (∀ b, pc'.stage bucketOf b = pc.stage bucketOf b) ∧
      ∀ s, Fact bucketOf s pc → Fact bucketOf s pc' := by
  cases pc with
  | missUnlock k c i next =>
    simp only [Pc.unlocking, Option.some.injEq, Prod.mk.injEq] at h
    obtain ⟨rfl, rfl⟩ := h
    exact ⟨fun b => stage_walkAt k c next b, fun s _ => fact_walkAt s k c next⟩
  | headUnlock k i n =>
    cases h
    exact ⟨fun _ => rfl, fun s hf => ⟨hf.1, hf.2.1.trans hf.2.2.symm⟩⟩
  | prevUnlock | nextUnlock | oldUnlock =>
    cases h
    exact ⟨fun _ => rfl, fun _ hf => hf⟩
  | hitUnlock | bucketUnlock | retryUnlock | allocUnlock | posUnlock =>
    cases h
    exact ⟨fun _ => rfl, fun _ _ => trivial⟩
  | _ => cases h

theorem stage_trying (bucketOf : Key → Nat) {got busy : Pc} (h : pc.trying = some (l, got, busy)) :
    (∀ b, got.stage bucketOf b = pc.stage bucketOf b ∧ busy.stage bucketOf b = pc.stage bucketOf b) ∧
      ∀ s, Fact bucketOf s pc → Fact bucketOf s got ∧ Fact bucketOf s busy := by
  cases pc <;> simp only [Pc.trying, Option.some.injEq, Prod.mk.injEq, reduceCtorEq] at h
  obtain ⟨rfl, rfl, rfl⟩ := h
  exact ⟨fun _ => ⟨rfl, rfl⟩, fun _ hf => ⟨hf, trivial⟩⟩

/-! ## The invariant -/

/-- The table and the threads agree: `chain b` are the nodes of bucket `b` in order. -/
structure Inv (bucketOf : Key → Nat) (s : State τ) (chain : Nat → List Nat) : Prop where
  held : Held s.owner fun t l => l ∈ (s.pc t).held bucketOf
  nodup_held : ∀ t, ((s.pc t).held bucketOf).Nodup
  nodup : ∀ b, (chain b).Nodup
  hash_iff : ∀ b i, (s.buf.metaAt i).hash = some b ↔ i ∈ chain b
  free_prev : ∀ i, (s.buf.metaAt i).hash = none → (s.buf.metaAt i).prev = none
  free : ∀ b, s.owner (.bucket b) = none → ChainAt s.buf b (chain b) .intact
  busy : ∀ t b, .bucket b ∈ (s.pc t).held bucketOf →
    ChainAt s.buf b (chain b) ((s.pc t).stage bucketOf b)
  fact : ∀ t, Fact bucketOf s.buf (s.pc t)

theorem ChainAt.congr {s : TransBuffer} {l : List Nat} {g : Stage} (h : ChainAt s b l g)
    (hf : s'.firstAt b = s.firstAt b)
    (hm : ∀ y ∈ l, s'.links.next y = s.links.next y ∧ s'.links.prev y = s.links.prev y) :
    ChainAt s' b l g := by
  cases g with
  | intact =>
    change DLinked s'.links none (s'.firstAt b) l
    rw [hf]
    exact DLinked.congr h hm
  | cut i back =>
    obtain ⟨L, hL, hn, hp⟩ := h
    refine ⟨L, by rw [hf]; exact hL, fun y hy => ?_, fun y hy => ?_⟩
    · rw [(hm y hy).1, hn y hy]
    · rw [(hm y hy).2, hp y hy]
  | pushed i =>
    obtain ⟨L, hL, hn, hp⟩ := h
    refine ⟨L, by rw [hf]; exact hL, fun y hy => ?_, fun y hy => ?_⟩
    · rw [(hm y hy).1, hn y hy]
    · rw [(hm y hy).2, hp y hy, hf]

/-- Two tables agree on the links and the bucket of a node. -/
def SameNode (s s' : TransBuffer) (i : Nat) : Prop :=
  (s'.metaAt i).hash = (s.metaAt i).hash ∧ (s'.metaAt i).next = (s.metaAt i).next ∧
    (s'.metaAt i).prev = (s.metaAt i).prev

theorem Fact.congr {s : TransBuffer} (h : Fact bucketOf s pc)
    (hn : ∀ i, .node i ∈ pc.held bucketOf → SameNode s s' i)
    (hb : ∀ b, .bucket b ∈ pc.held bucketOf → s'.firstAt b = s.firstAt b) :
    Fact bucketOf s' pc := by
  cases pc with
  | tryLock k ar i old | removePrev k i old | prevUnlock k i old p | removeNext k i old
  | oldUnlock k i old | moveTo k i =>
    have hi := hn i (by simp [Pc.held])
    exact hi.1.trans h
  | prevLock k i old p | prevWrite k i old p =>
    have hi := hn i (by simp [Pc.held])
    exact ⟨hi.1.trans h.1, hi.2.2.trans h.2⟩
  | nextLock k i old n | nextWrite k i old n | nextUnlock k i old n | removeEnd k i old n =>
    have hi := hn i (by simp [Pc.held])
    exact ⟨hi.1.trans h.1, hi.2.1.trans h.2⟩
  | headLock k i n | headWrite k i n | headUnlock k i n =>
    have hi := hn i (by simp [Pc.held])
    have hk := hb (bucketOf k) (by simp [Pc.held])
    exact ⟨hi.1.trans h.1, hi.2.1.trans h.2.1, hk.trans h.2.2⟩
  | moveEnd k i =>
    have hi := hn i (by simp [Pc.held])
    have hk := hb (bucketOf k) (by simp [Pc.held])
    exact ⟨hi.1.trans h.1, hi.2.1.trans (h.2.trans hk.symm)⟩
  | _ => trivial

/-! ## Lock operations keep the invariant -/

variable {s : State τ} {t : τ}

theorem mem_held_update {u : τ} :
    l ∈ (update s.pc t pc u).held bucketOf ↔
      if u = t then l ∈ pc.held bucketOf else l ∈ (s.pc u).held bucketOf := by
  by_cases hu : u = t
  · subst hu
    simp
  · simp [hu]

variable {chain : Nat → List Nat}

theorem Inv.lock {s' : State τ} (hi : Inv bucketOf s chain)
    (hheld : pc.held bucketOf = l :: (s.pc t).held bucketOf)
    (hstage : ∀ b, pc.stage bucketOf b = (s.pc t).stage bucketOf b) (hfact : Fact bucketOf s.buf pc)
    (h : s.lock t l pc = some s') : Inv bucketOf s' chain := by
  unfold State.lock at h
  split at h
  · rename_i hfree
    cases h
    have hnew : l ∉ (s.pc t).held bucketOf := fun hl => by
      have := (hi.held l t).mpr hl
      rw [hfree] at this
      cases this
    refine
      { held := hi.held.take (t := t) hfree fun u q => ?_
        nodup_held := fun u => ?_
        nodup := hi.nodup
        hash_iff := hi.hash_iff
        free_prev := hi.free_prev
        free := fun b hb => ?_
        busy := fun u b hb => ?_
        fact := fun u => ?_ }
    · rw [mem_held_update, hheld, List.mem_cons]
      by_cases hu : u = t
      · subst hu
        simp [or_comm]
      · simp [hu]
    · by_cases hu : u = t
      · subst hu
        simp only [update_self, hheld, List.nodup_cons]
        exact ⟨hnew, hi.nodup_held u⟩
      · simpa [hu] using hi.nodup_held u
    · by_cases hl : Lock.bucket b = l
      · simp [hl] at hb
      · exact hi.free b (by simpa [hl] using hb)
    · by_cases hu : u = t
      · subst hu
        simp only [update_self, hheld, List.mem_cons] at hb ⊢
        rw [hstage]
        rcases hb with rfl | hb
        · rw [stage_of_not_held hnew]
          exact hi.free b hfree
        · exact hi.busy u b hb
      · simp only [update_of_ne hu] at hb ⊢
        exact hi.busy u b hb
    · by_cases hu : u = t
      · subst hu
        simpa using hfact
      · simpa [hu] using hi.fact u
  · cases h

theorem Inv.unlock (hi : Inv bucketOf s chain)
    (hheld : (s.pc t).held bucketOf = l :: pc.held bucketOf)
    (hstage : ∀ b, pc.stage bucketOf b = (s.pc t).stage bucketOf b)
    (hfact : Fact bucketOf s.buf pc) : Inv bucketOf (s.unlock t l pc) chain := by
  have hnd := hi.nodup_held t
  rw [hheld, List.nodup_cons] at hnd
  have hmine : l ∈ (s.pc t).held bucketOf := by rw [hheld]; simp
  refine
    { held := hi.held.free (t := t) hmine fun u q => ?_
      nodup_held := fun u => ?_
      nodup := hi.nodup
      hash_iff := hi.hash_iff
      free_prev := hi.free_prev
      free := fun b hb => ?_
      busy := fun u b hb => ?_
      fact := fun u => ?_ }
  · change q ∈ (update s.pc t pc u).held bucketOf ↔ _
    rw [mem_held_update]
    by_cases hu : u = t
    · subst hu
      rw [if_pos rfl, hheld, List.mem_cons]
      constructor
      · intro hq
        exact ⟨.inr hq, fun hc => hnd.1 (hc ▸ hq)⟩
      · rintro ⟨rfl | hq, hne⟩
        · exact absurd rfl hne
        · exact hq
    · rw [if_neg hu]
      constructor
      · intro hq
        exact ⟨hq, fun hc => hu (hi.held.unique (hc ▸ hq) hmine)⟩
      · exact And.left
  · by_cases hu : u = t
    · subst hu
      simpa [State.unlock] using hnd.2
    · simpa [State.unlock, hu] using hi.nodup_held u
  · by_cases hl : Lock.bucket b = l
    · subst hl
      -- the bucket that is let go was not being rewritten
      have hb' := hi.busy t b hmine
      rw [← hstage, stage_of_not_held hnd.1] at hb'
      exact hb'
    · exact hi.free b (by simpa [State.unlock, hl] using hb)
  · change _ ∈ (update s.pc t pc u).held bucketOf at hb
    change ChainAt s.buf b (chain b) ((update s.pc t pc u).stage bucketOf b)
    by_cases hu : u = t
    · subst hu
      rw [update_self] at hb ⊢
      rw [hstage]
      exact hi.busy u b (by rw [hheld]; exact List.mem_cons_of_mem _ hb)
    · rw [update_of_ne hu] at hb ⊢
      exact hi.busy u b hb
  · by_cases hu : u = t
    · subst hu
      simpa [State.unlock] using hfact
    · simpa [State.unlock, hu] using hi.fact u

/-! ## Code between lock operations keeps the invariant -/

/-- What a piece of code of thread `t` leaves: the nodes and buckets the thread does not hold are as
before, the chains it holds are at their new stage. -/
structure CodeOk (bucketOf : Key → Nat) (s : TransBuffer) (chain : Nat → List Nat) (pc : Pc)
    (s' : TransBuffer) (chain' : Nat → List Nat) (pc' : Pc) : Prop where
  nodup : ∀ b, (chain' b).Nodup
  hash_iff : ∀ b i, (s'.metaAt i).hash = some b ↔ i ∈ chain' b
  free_prev : ∀ i, (s'.metaAt i).hash = none → (s'.metaAt i).prev = none
  node : ∀ i, .node i ∉ pc.held bucketOf → SameNode s s' i
  first : ∀ b, .bucket b ∉ pc.held bucketOf → s'.firstAt b = s.firstAt b
  other : ∀ b, .bucket b ∉ pc.held bucketOf → chain' b = chain b ∧ ∀ y ∈ chain b, SameNode s s' y
  own : ∀ b, .bucket b ∈ pc.held bucketOf → ChainAt s' b (chain' b) (pc'.stage bucketOf b)
  fact : Fact bucketOf s' pc'

variable {buf : TransBuffer}

theorem Inv.code {chain' : Nat → List Nat} (hi : Inv bucketOf s chain)
    (hheld : pc.held bucketOf = (s.pc t).held bucketOf)
    (h : CodeOk bucketOf s.buf chain (s.pc t) buf chain' pc) :
    Inv bucketOf (s.code t buf pc) chain' := by
  have hother : ∀ b g, .bucket b ∉ (s.pc t).held bucketOf → ChainAt s.buf b (chain b) g →
      ChainAt buf b (chain' b) g := by
    intro b g hb hc
    obtain ⟨hch, hsame⟩ := h.other b hb
    rw [hch]
    exact hc.congr (h.first b hb) fun y hy => ⟨(hsame y hy).2.1, (hsame y hy).2.2⟩
  have hpc : ∀ u, ((s.code t buf pc).pc u).held bucketOf = (s.pc u).held bucketOf := by
    intro u
    by_cases hu : u = t
    · subst hu
      simpa [State.code] using hheld
    · simp [State.code, hu]
  refine
    { held := hi.held.keep fun u q => by rw [hpc]
      nodup_held := fun u => by rw [hpc]; exact hi.nodup_held u
      nodup := h.nodup
      hash_iff := h.hash_iff
      free_prev := h.free_prev
      free := fun b hb => ?_
      busy := fun u b hb => ?_
      fact := fun u => ?_ }
  · have hb' : s.owner (.bucket b) = none := hb
    refine hother b _ (fun hc => ?_) (hi.free b hb')
    have hown := (hi.held _ _).mpr hc
    rw [hb'] at hown
    cases hown
  · rw [hpc] at hb
    change ChainAt buf b (chain' b) ((update s.pc t pc u).stage bucketOf b)
    by_cases hu : u = t
    · subst hu
      rw [update_self]
      exact h.own b hb
    · rw [update_of_ne hu]
      exact hother b _ (fun hc => hu (hi.held.unique hb hc)) (hi.busy u b hb)
  · change Fact bucketOf buf (update s.pc t pc u)
    by_cases hu : u = t
    · subst hu
      rw [update_self]
      exact h.fact
    · rw [update_of_ne hu]
      refine (hi.fact u).congr (fun i hn => h.node i fun hc => ?_) fun b hb => h.first b fun hc => ?_
      · exact hu (hi.held.unique hn hc)
      · exact hu (hi.held.unique hb hc)

variable {i : Nat}

omit [DecidableEq τ] in
theorem Inv.mem_unique (hi : Inv bucketOf s chain) {c : Nat} (hb : i ∈ chain b) (hc : i ∈ chain c) :
    b = c := by
  have h1 := (hi.hash_iff b i).mpr hb
  rw [(hi.hash_iff c i).mpr hc] at h1
  exact (Option.some.inj h1).symm

omit [DecidableEq τ] in
theorem Inv.codeOk_same (hi : Inv bucketOf s chain) (hn : ∀ i, SameNode s.buf buf i)
    (hf : ∀ b, buf.firstAt b = s.buf.firstAt b)
    (hstage : ∀ b, pc.stage bucketOf b = (s.pc t).stage bucketOf b) (hfact : Fact bucketOf buf pc) :
    CodeOk bucketOf s.buf chain (s.pc t) buf chain pc where
  nodup := hi.nodup
  hash_iff := fun b i => by rw [(hn i).1]; exact hi.hash_iff b i
  free_prev := fun i h => by
    rw [(hn i).2.2]
    exact hi.free_prev i (by rw [← (hn i).1]; exact h)
  node := fun i _ => hn i
  first := fun b _ => hf b
  other := fun b _ => ⟨rfl, fun y _ => hn y⟩
  own := fun b hb => by
    rw [hstage]
    exact (hi.busy t b hb).congr (hf b) fun y _ => ⟨(hn y).2.1, (hn y).2.2⟩
  fact := hfact

variable {f : BufferMetaNode → BufferMetaNode}

omit [DecidableEq τ] in
theorem Inv.codeOk_write (hi : Inv bucketOf s chain) {j : Nat} (hf : ∀ m, (f m).hash = m.hash)
    (hprev : (s.buf.metaAt j).hash = none → (f (s.buf.metaAt j)).prev = none)
    (hj : .node j ∈ (s.pc t).held bucketOf)
    (hc : ∀ b, j ∈ chain b → .bucket b ∈ (s.pc t).held bucketOf)
    (hown : ∀ b, .bucket b ∈ (s.pc t).held bucketOf →
      ChainAt (s.buf.modify j f) b (chain b) (pc.stage bucketOf b))
    (hfact : Fact bucketOf (s.buf.modify j f) pc) :
    CodeOk bucketOf s.buf chain (s.pc t) (s.buf.modify j f) chain pc := by
  have hash : ∀ i, ((s.buf.modify j f).metaAt i).hash = (s.buf.metaAt i).hash := by
    intro i
    rw [TransBuffer.modify_metaAt]
    split
    · exact hf _
    · rfl
  have hsame : ∀ i, i ≠ j → SameNode s.buf (s.buf.modify j f) i := by
    intro i hij
    rw [SameNode, TransBuffer.modify_metaAt_ne _ _ hij]
    exact ⟨rfl, rfl, rfl⟩
  refine
    { nodup := hi.nodup
      hash_iff := fun b i => by rw [hash]; exact hi.hash_iff b i
      free_prev := fun i h => ?_
      node := fun i h => hsame i fun hij => h (hij ▸ hj)
      first := fun b _ => rfl
      other := fun b hb => ⟨rfl, fun y hy => hsame y fun hyj => hb (hc b (hyj ▸ hy))⟩
      own := hown
      fact := hfact }
  rw [hash] at h
  by_cases hij : i = j
  · subst hij
    rw [TransBuffer.modify_metaAt_self]
    exact hprev h
  · rw [TransBuffer.modify_metaAt_ne _ _ hij]
    exact hi.free_prev i h

theorem ChainAt.modify {s : TransBuffer} {j : Nat} {l : List Nat} {g : Stage} (h : ChainAt s b l g)
    (hj : j ∉ l) :
    ChainAt (s.modify j f) b l g := by
  refine h.congr rfl fun y hy => ?_
  have hne : y ≠ j := fun hc => hj (hc ▸ hy)
  simp [TransBuffer.links, TransBuffer.modify_metaAt_ne _ _ hne]

theorem ChainAt.prevWrite {s : TransBuffer} {p : Nat} {l : List Nat} (h : ChainAt s b l .intact)
    (hp : (s.metaAt i).prev = some p) :
    ChainAt (s.modify p fun m => { m with next := (s.metaAt i).next }) b l (.cut i false) := by
  refine ⟨s.links, h, fun y hy => ?_, fun y hy => ?_⟩
  · change ((s.modify p _).metaAt y).next =
      if (s.metaAt i).prev = some y then (s.metaAt i).next else (s.metaAt y).next
    rw [hp, TransBuffer.modify_metaAt]
    by_cases hyp : y = p
    · subst hyp
      simp
    · have hpy : p ≠ y := fun hc => hyp hc.symm
      simp [hyp, hpy]
  · change ((s.modify p _).metaAt y).prev = _
    rw [TransBuffer.modify_metaAt]
    split <;> simp [TransBuffer.links]

theorem ChainAt.noPrev {s : TransBuffer} {l : List Nat} (h : ChainAt s b l .intact)
    (hp : (s.metaAt i).prev = none) : ChainAt s b l (.cut i false) := by
  have hp' : s.links.prev i = none := hp
  refine ⟨s.links, h, fun y hy => ?_, fun y hy => ?_⟩
  · simp [hp']
  · simp

theorem ChainAt.cut_self {s : TransBuffer} {l : List Nat} {back : Bool} (L : Links Nat)
    (hL : DLinked L none (s.firstAt b) l) (hnd : l.Nodup) (hi : i ∈ l)
    (hn : ∀ y ∈ l, s.links.next y = if L.prev i = some y then L.next i else L.next y)
    (hp : ∀ y ∈ l, s.links.prev y = if back ∧ L.next i = some y then L.prev i else L.prev y) :
    (s.metaAt i).next = L.next i ∧ (s.metaAt i).prev = L.prev i := by
  have h1 : L.prev i ≠ some i := fun hc => (hL.prev_mem hnd hi hc).2 rfl
  have h2 : L.next i ≠ some i := fun hc => (hL.next_mem hnd hi hc).2 rfl
  have h3 := hn i hi
  have h4 := hp i hi
  rw [if_neg h1] at h3
  rw [if_neg (fun hc => h2 hc.2)] at h4
  exact ⟨h3, h4⟩

theorem ChainAt.cut_next_mem {s : TransBuffer} {n : Nat} {l : List Nat} {back : Bool}
    (h : ChainAt s b l (.cut i back)) (hnd : l.Nodup) (hi : i ∈ l)
    (hn : (s.metaAt i).next = some n) : n ∈ l ∧ n ≠ i := by
  obtain ⟨L, hL, h1, h2⟩ := h
  rw [(ChainAt.cut_self L hL hnd hi h1 h2).1] at hn
  exact hL.next_mem hnd hi hn

theorem ChainAt.nextWrite {s : TransBuffer} {n : Nat} {l : List Nat}
    (h : ChainAt s b l (.cut i false)) (hnd : l.Nodup) (hi : i ∈ l)
    (hn : (s.metaAt i).next = some n) :
    ChainAt (s.modify n fun m => { m with prev := (s.metaAt i).prev }) b l (.cut i true) := by
  obtain ⟨L, hL, h1, h2⟩ := h
  obtain ⟨hin, hip⟩ := ChainAt.cut_self L hL hnd hi h1 h2
  refine ⟨L, hL, fun y hy => ?_, fun y hy => ?_⟩
  · rw [← h1 y hy]
    change ((s.modify n _).metaAt y).next = (s.metaAt y).next
    rw [TransBuffer.modify_metaAt]
    split <;> rfl
  · have h2' : (s.metaAt y).prev = L.prev y := by
      simpa [TransBuffer.links] using h2 y hy
    change ((s.modify n _).metaAt y).prev = _
    rw [← hin, hn, hip, TransBuffer.modify_metaAt]
    by_cases hyn : y = n
    · subst hyn
      simp
    · have hny : n ≠ y := fun hc => hyn hc.symm
      simp [hyn, hny, h2']

theorem ChainAt.noNext {s : TransBuffer} {l : List Nat} (h : ChainAt s b l (.cut i false))
    (hnd : l.Nodup) (hi : i ∈ l) (hn : (s.metaAt i).next = none) : ChainAt s b l (.cut i true) := by
  obtain ⟨L, hL, h1, h2⟩ := h
  have hin := (ChainAt.cut_self L hL hnd hi h1 h2).1
  rw [hn] at hin
  exact ⟨L, hL, h1, fun y hy => by simpa [← hin] using h2 y hy⟩

theorem ChainAt.headWrite {s : TransBuffer} {n : Nat} {l : List Nat} (h : ChainAt s b l .intact)
    (hn : s.firstAt b = some n) :
    ChainAt (s.modify n fun m => { m with prev := some i }) b l (.pushed i) := by
  refine ⟨s.links, h, fun y hy => ?_, fun y hy => ?_⟩
  · change ((s.modify n _).metaAt y).next = (s.metaAt y).next
    rw [TransBuffer.modify_metaAt]
    split <;> rfl
  · change ((s.modify n _).metaAt y).prev =
      if s.firstAt b = some y then some i else (s.metaAt y).prev
    rw [hn, TransBuffer.modify_metaAt]
    by_cases hyn : y = n
    · subst hyn
      simp
    · have hny : n ≠ y := fun hc => hyn hc.symm
      simp [hyn, hny]

theorem ChainAt.noHead {s : TransBuffer} {l : List Nat} (h : ChainAt s b l .intact)
    (hn : s.firstAt b = none) : ChainAt s b l (.pushed i) := by
  refine ⟨s.links, h, fun y hy => rfl, fun y hy => ?_⟩
  simp [hn]

theorem ChainAt.removeEnd {s : TransBuffer} {l : List Nat} (h : ChainAt s b l (.cut i true))
    (hnd : l.Nodup) (hi : i ∈ l)
    (hf : s'.firstAt b = if s.firstAt b = some i then (s.metaAt i).next else s.firstAt b)
    (hm : ∀ y, y ≠ i → s'.metaAt y = s.metaAt y) : ChainAt s' b (l.erase i) .intact := by
  obtain ⟨L, hL, h1, h2⟩ := h
  have hin := (ChainAt.cut_self L hL hnd hi h1 h2).1
  obtain ⟨l1, l2, rfl⟩ := List.append_of_mem hi
  have hi1 : i ∉ l1 := fun hc => (List.nodup_append.mp hnd).2.2 i hc i (by simp) rfl
  have hi2 : i ∉ l2 := (List.nodup_cons.mp (List.nodup_append.mp hnd).2.1).1
  have herase : (l1 ++ i :: l2).erase i = l1 ++ l2 := by
    rw [List.erase_append_right _ hi1, List.erase_cons_head]
  have hmem : ∀ y ∈ l1 ++ l2, y ∈ l1 ++ i :: l2 ∧ y ≠ i := by
    intro y hy
    rcases List.mem_append.mp hy with hy | hy
    · exact ⟨by simp [hy], fun hc => hi1 (hc ▸ hy)⟩
    · exact ⟨by simp [hy], fun hc => hi2 (hc ▸ hy)⟩
  rw [herase]
  change DLinked s'.links none (s'.firstAt b) (l1 ++ l2)
  rw [hf, hin]
  refine hL.unlink hnd (fun y hy => ?_) fun y hy => ?_
  · rw [← h1 y (hmem y hy).1]
    simp [TransBuffer.links, hm y (hmem y hy).2]
  · have hy' := h2 y (hmem y hy).1
    simp only [true_and] at hy'
    rw [← hy']
    simp [TransBuffer.links, hm y (hmem y hy).2]

theorem ChainAt.moveEnd {s : TransBuffer} {l : List Nat} (h : ChainAt s b l (.pushed i))
    (hnd : l.Nodup) (hi : i ∉ l) (hp : (s.metaAt i).prev = none)
    (hn : (s.metaAt i).next = s.firstAt b) (hf : s'.firstAt b = some i)
    (hm : ∀ y, (s'.metaAt y).next = (s.metaAt y).next ∧ (s'.metaAt y).prev = (s.metaAt y).prev) :
    ChainAt s' b (i :: l) .intact := by
  obtain ⟨L, hL, h1, h2⟩ := h
  change DLinked s'.links none (s'.firstAt b) (i :: l)
  rw [hf]
  refine hL.push_front (List.nodup_cons.mpr ⟨hi, hnd⟩) ((hm i).2.trans hp) ((hm i).1.trans hn)
    (fun y hy => ?_) fun y hy => ?_
  · rw [← h1 y hy]
    exact (hm y).1
  · rw [← h2 y hy]
    exact (hm y).2

variable {k : Key} {old : Nat}

omit [DecidableEq τ] in
theorem Inv.codeOk_removeEnd (hi : Inv bucketOf s chain) {n : Option Nat}
    (hpc : s.pc t = .removeEnd k i old n) (hf : ∀ b, buf.firstAt b =
      if b = old ∧ s.buf.firstAt b = some i then n else s.buf.firstAt b)
    (hm : ∀ y, y ≠ i → buf.metaAt y = s.buf.metaAt y)
    (hmi : (buf.metaAt i).hash = none ∧ (buf.metaAt i).prev = none) :
    CodeOk bucketOf s.buf chain (s.pc t) buf
      (update chain old ((chain old).erase i)) (.oldUnlock k i old) := by
  have hfact := hi.fact t
  rw [hpc] at hfact
  obtain ⟨hhash, hnext⟩ := hfact
  have hold : .bucket old ∈ (s.pc t).held bucketOf := by simp [hpc, Pc.held]
  have hmem := (hi.hash_iff old i).mp hhash
  have hsame : ∀ y, y ≠ i → SameNode s.buf buf y := by
    intro y hy
    rw [SameNode, hm y hy]
    exact ⟨rfl, rfl, rfl⟩
  have hne : ∀ b, b ≠ old → ∀ y ∈ chain b, y ≠ i := by
    rintro b hb y hy rfl
    exact hb (hi.mem_unique hy hmem)
  refine
    { nodup := fun b => ?_
      hash_iff := fun b j => ?_
      free_prev := fun j hj => ?_
      node := fun j hj => hsame j fun hc => hj (by simp [hc, hpc, Pc.held])
      first := fun b hb => ?_
      other := fun b hb => ?_
      own := fun b hb => ?_
      fact := hmi.1 }
  · by_cases hb : b = old
    · subst hb
      simpa using (hi.nodup b).erase i
    · simpa [hb] using hi.nodup b
  · by_cases hj : j = i
    · subst hj
      rw [hmi.1]
      by_cases hb : b = old
      · subst hb
        simp [(hi.nodup b).mem_erase_iff]
      · have hnot : j ∉ chain b := fun hc => hne b hb j hc rfl
        simp [hb, hnot]
    · rw [hm j hj, hi.hash_iff b j]
      by_cases hb : b = old
      · subst hb
        simp [(hi.nodup b).mem_erase_iff, hj]
      · simp [hb]
  · by_cases hji : j = i
    · subst hji
      exact hmi.2
    · rw [hm j hji] at hj ⊢
      exact hi.free_prev j hj
  · have hbo : b ≠ old := fun hc => hb (hc ▸ hold)
    rw [hf, if_neg fun hc => hbo hc.1]
  · have hbo : b ≠ old := fun hc => hb (hc ▸ hold)
    exact ⟨by simp [hbo], fun y hy => hsame y (hne b hbo y hy)⟩
  · have hat := hi.busy t b hb
    rw [hpc] at hat
    change ChainAt buf b _ .intact
    by_cases hbo : b = old
    · subst hbo
      simp only [Pc.stage, if_pos] at hat
      rw [update_self]
      refine hat.removeEnd (hi.nodup b) hmem ?_ hm
      rw [hf, hnext]
      simp
    · simp only [Pc.stage, if_neg hbo] at hat
      rw [update_of_ne hbo]
      refine hat.congr (by rw [hf, if_neg fun hc => hbo hc.1]) fun y hy => ?_
      exact ⟨(hsame y (hne b hbo y hy)).2.1, (hsame y (hne b hbo y hy)).2.2⟩

omit [DecidableEq τ] in
theorem Inv.codeOk_moveEnd (hi : Inv bucketOf s chain) (hpc : s.pc t = .moveEnd k i)
    (hf : ∀ b, buf.firstAt b = if b = bucketOf k then some i else s.buf.firstAt b)
    (hm : ∀ y, (buf.metaAt y).next = (s.buf.metaAt y).next ∧
      (buf.metaAt y).prev = (s.buf.metaAt y).prev)
    (hh : ∀ y, (buf.metaAt y).hash = if y = i then some (bucketOf k) else (s.buf.metaAt y).hash) :
    CodeOk bucketOf s.buf chain (s.pc t) buf
      (update chain (bucketOf k) (i :: chain (bucketOf k))) (.rekey k i) := by
  have hfact := hi.fact t
  rw [hpc] at hfact
  obtain ⟨hhash, hnext⟩ := hfact
  have hmine : .bucket (bucketOf k) ∈ (s.pc t).held bucketOf := by simp [hpc, Pc.held]
  have hnone : ∀ b, i ∉ chain b := by
    intro b hc
    rw [← hi.hash_iff, hhash] at hc
    cases hc
  have hsame : ∀ y, y ≠ i → SameNode s.buf buf y := by
    intro y hy
    exact ⟨by rw [hh, if_neg hy], (hm y).1, (hm y).2⟩
  refine
    { nodup := fun b => ?_
      hash_iff := fun b j => ?_
      free_prev := fun j hj => ?_
      node := fun j hj => hsame j fun hc => hj (by simp [hc, hpc, Pc.held])
      first := fun b hb => ?_
      other := fun b hb => ?_
      own := fun b hb => ?_
      fact := trivial }
  · by_cases hb : b = bucketOf k
    · subst hb
      rw [update_self, List.nodup_cons]
      exact ⟨hnone _, hi.nodup _⟩
    · simpa [hb] using hi.nodup b
  · rw [hh]
    by_cases hj : j = i
    · subst hj
      by_cases hb : b = bucketOf k
      · subst hb
        simp
      · have hb' : bucketOf k ≠ b := fun hc => hb hc.symm
        simp [hb, hb', hnone b]
    · rw [if_neg hj, hi.hash_iff b j]
      by_cases hb : b = bucketOf k
      · subst hb
        simp [hj]
      · simp [hb]
  · rw [hh] at hj
    split at hj
    · cases hj
    · rw [(hm j).2]
      exact hi.free_prev j hj
  · have hbo : b ≠ bucketOf k := fun hc => hb (hc ▸ hmine)
    rw [hf, if_neg hbo]
  · have hbo : b ≠ bucketOf k := fun hc => hb (hc ▸ hmine)
    exact ⟨by simp [hbo], fun y hy => hsame y fun hc => hnone b (hc ▸ hy)⟩
  · have hat := hi.busy t b hb
    rw [hpc] at hat
    change ChainAt buf b _ .intact
    by_cases hbo : b = bucketOf k
    · subst hbo
      simp only [Pc.stage, if_pos] at hat
      rw [update_self]
      exact hat.moveEnd (hi.nodup _) (hnone _) (hi.free_prev i hhash) hnext (by simp [hf]) hm
    · simp only [Pc.stage, if_neg hbo] at hat
      rw [update_of_ne hbo]
      exact hat.congr (by rw [hf, if_neg hbo]) fun y _ => hm y

omit [DecidableEq τ] in
theorem Inv.codeOk_read (hi : Inv bucketOf s chain) {p : Pc}
    (hstage : ∀ b, p.stage bucketOf b = (s.pc t).stage bucketOf b) (hfact : Fact bucketOf s.buf p) :
    CodeOk bucketOf s.buf chain (s.pc t) s.buf chain p :=
  hi.codeOk_same (fun _ => ⟨rfl, rfl, rfl⟩) (fun _ => rfl) hstage hfact

theorem sameNode_modify {s : TransBuffer} {j : Nat}
    (hf : ∀ m, (f m).hash = m.hash ∧ (f m).next = m.next ∧ (f m).prev = m.prev) (i : Nat) :
    SameNode s (s.modify j f) i := by
  rw [SameNode, TransBuffer.modify_metaAt]
  split
  · exact hf _
  · exact ⟨rfl, rfl, rfl⟩

theorem sameNode_access (op : PosOp) (s : TransBuffer) (i j : Nat) :
    SameNode s (op.access s i).1 j := by
  cases op with
  | acquire =>
    exact sameNode_modify (f := fun m => { m with reference := m.reference + 1 })
      (fun _ => ⟨rfl, rfl, rfl⟩) j
  | release =>
    exact sameNode_modify (f := fun m => { m with reference := m.reference - 1 })
      (fun _ => ⟨rfl, rfl, rfl⟩) j
  | ready => exact ⟨rfl, rfl, rfl⟩
  | markReady =>
    exact sameNode_modify (f := fun m => { m with ready := true }) (fun _ => ⟨rfl, rfl, rfl⟩) j

omit [DecidableEq τ] in
theorem Inv.old_chain (hi : Inv bucketOf s chain) (hheld : .bucket old ∈ (s.pc t).held bucketOf)
    (hhash : (s.buf.metaAt i).hash = some old) :
    i ∈ chain old ∧ (chain old).Nodup ∧
      ChainAt s.buf old (chain old) ((s.pc t).stage bucketOf old) :=
  ⟨(hi.hash_iff old i).mp hhash, hi.nodup old, hi.busy t old hheld⟩

omit [DecidableEq τ] in
theorem Inv.codeOk_noPrev (hi : Inv bucketOf s chain) (hpc : s.pc t = .removePrev k i old)
    (hprev : (s.buf.metaAt i).prev = none) :
    CodeOk bucketOf s.buf chain (s.pc t) s.buf chain (.removeNext k i old) := by
  have hhash : (s.buf.metaAt i).hash = some old := by
    have hfact := hi.fact t
    rw [hpc] at hfact
    exact hfact
  have hsame := hi.codeOk_read (t := t) (p := .removePrev k i old) (fun b => by rw [hpc]) hhash
  refine { hsame with own := fun b hb => ?_, fact := hhash }
  have hat := hsame.own b hb
  by_cases hbo : b = old
  · subst hbo
    simp only [Pc.stage, if_pos]
    exact ChainAt.noPrev hat hprev
  · simp only [Pc.stage, if_neg hbo]
    exact hat

omit [DecidableEq τ] in
theorem Inv.codeOk_noNext (hi : Inv bucketOf s chain) (hpc : s.pc t = .removeNext k i old)
    (hnext : (s.buf.metaAt i).next = none) :
    CodeOk bucketOf s.buf chain (s.pc t) s.buf chain (.removeEnd k i old none) := by
  have hhash : (s.buf.metaAt i).hash = some old := by
    have hfact := hi.fact t
    rw [hpc] at hfact
    exact hfact
  have hsame := hi.codeOk_read (t := t) (p := .removeNext k i old) (fun b => by rw [hpc]) hhash
  refine { hsame with own := fun b hb => ?_, fact := ⟨hhash, hnext⟩ }
  have hat := hsame.own b hb
  by_cases hbo : b = old
  · subst hbo
    simp only [Pc.stage, if_pos] at hat ⊢
    exact ChainAt.noNext hat (hi.nodup b) ((hi.hash_iff b i).mp hhash) hnext
  · simp only [Pc.stage, if_neg hbo] at hat ⊢
    exact hat

omit [DecidableEq τ] in
theorem Inv.codeOk_prevWrite (hi : Inv bucketOf s chain) {p : Nat}
    (hpc : s.pc t = .prevWrite k i old p) :
    CodeOk bucketOf s.buf chain (s.pc t)
      (s.buf.modify p fun m => { m with next := (s.buf.metaAt i).next }) chain
      (.prevUnlock k i old p) := by
  have hfact := hi.fact t
  rw [hpc] at hfact
  obtain ⟨hhash, hprev⟩ := hfact
  have hold : .bucket old ∈ (s.pc t).held bucketOf := by simp [hpc, Pc.held]
  obtain ⟨hmem, hnd, hat⟩ := hi.old_chain hold hhash
  rw [hpc] at hat
  obtain ⟨hp, hne⟩ := DLinked.prev_mem (L := s.buf.links) hat hnd hmem hprev
  refine hi.codeOk_write (fun _ => rfl) (hi.free_prev p) (by simp [hpc, Pc.held]) ?_ ?_ ?_
  · intro b hb
    rw [hi.mem_unique hb hp]
    exact hold
  · intro b hb
    by_cases hbo : b = old
    · subst hbo
      simp only [Pc.stage, if_pos]
      exact ChainAt.prevWrite hat hprev
    · simp only [Pc.stage, if_neg hbo]
      have hb' := hi.busy t b hb
      rw [hpc] at hb'
      exact hb'.modify fun hc => hbo (hi.mem_unique hc hp)
  · change ((s.buf.modify p _).metaAt i).hash = some old
    rw [TransBuffer.modify_metaAt_ne _ _ hne.symm]
    exact hhash

omit [DecidableEq τ] in
theorem Inv.codeOk_nextWrite (hi : Inv bucketOf s chain) {n : Nat}
    (hpc : s.pc t = .nextWrite k i old n) :
    CodeOk bucketOf s.buf chain (s.pc t)
      (s.buf.modify n fun m => { m with prev := (s.buf.metaAt i).prev }) chain
      (.nextUnlock k i old n) := by
  have hfact := hi.fact t
  rw [hpc] at hfact
  obtain ⟨hhash, hnext⟩ := hfact
  have hold : .bucket old ∈ (s.pc t).held bucketOf := by simp [hpc, Pc.held]
  obtain ⟨hmem, hnd, hat⟩ := hi.old_chain hold hhash
  rw [hpc] at hat
  simp only [Pc.stage, if_pos] at hat
  obtain ⟨hn, hne⟩ := hat.cut_next_mem hnd hmem hnext
  refine hi.codeOk_write (fun _ => rfl) (fun hc => ?_) (by simp [hpc, Pc.held]) ?_ ?_ ?_
  · rw [(hi.hash_iff old n).mpr hn] at hc
    cases hc
  · intro b hb
    rw [hi.mem_unique hb hn]
    exact hold
  · intro b hb
    by_cases hbo : b = old
    · subst hbo
      simp only [Pc.stage, if_pos]
      exact hat.nextWrite hnd hmem hnext
    · simp only [Pc.stage, if_neg hbo]
      have hb' := hi.busy t b hb
      rw [hpc] at hb'
      simp only [Pc.stage, if_neg hbo] at hb'
      exact hb'.modify fun hc => hbo (hi.mem_unique hc hn)
  · change ((s.buf.modify n _).metaAt i).hash = some old ∧
      ((s.buf.modify n _).metaAt i).next = some n
    rw [TransBuffer.modify_metaAt_ne _ _ hne.symm]
    exact ⟨hhash, hnext⟩

omit [DecidableEq τ] in
theorem Inv.codeOk_moveTo (hi : Inv bucketOf s chain) (hpc : s.pc t = .moveTo k i) :
    CodeOk bucketOf s.buf chain (s.pc t)
      (s.buf.modify i fun m => { m with next := s.buf.firstAt (bucketOf k) }) chain
      (match s.buf.firstAt (bucketOf k) with
        | some n => .headLock k i n
        | none => .moveEnd k i) := by
  have hfact := hi.fact t
  rw [hpc] at hfact
  have hhash : (s.buf.metaAt i).hash = none := hfact
  have hnone : ∀ b, i ∉ chain b := by
    intro b hc
    rw [← hi.hash_iff, hhash] at hc
    cases hc
  have hat : ∀ b, .bucket b ∈ (s.pc t).held bucketOf → ChainAt s.buf b (chain b) .intact := by
    intro b hb
    have hb' := hi.busy t b hb
    rw [hpc] at hb'
    exact hb'
  refine hi.codeOk_write (fun _ => rfl) (hi.free_prev i) (by simp [hpc, Pc.held])
    (fun b hb => absurd hb (hnone b)) (fun b hb => ?_) ?_
  · have hb' := (hat b hb).modify (f := fun m => { m with next := s.buf.firstAt (bucketOf k) })
      (hnone b)
    cases hfirst : s.buf.firstAt (bucketOf k) with
    | some n =>
      rw [hfirst] at hb'
      exact hb'
    | none =>
      rw [hfirst] at hb'
      by_cases hbo : b = bucketOf k
      · subst hbo
        simp only [Pc.stage, if_pos]
        exact hb'.noHead hfirst
      · simp only [Pc.stage, if_neg hbo]
        exact hb'
  · cases hfirst : s.buf.firstAt (bucketOf k) with
    | some n => exact ⟨by simpa using hhash, by simp, hfirst⟩
    | none => exact ⟨by simpa using hhash, by simp [hfirst]⟩

omit [DecidableEq τ] in
theorem Inv.codeOk_headWrite (hi : Inv bucketOf s chain) {n : Nat} (hpc : s.pc t = .headWrite k i n) :
    CodeOk bucketOf s.buf chain (s.pc t) (s.buf.modify n fun m => { m with prev := some i }) chain
      (.headUnlock k i n) := by
  have hfact := hi.fact t
  rw [hpc] at hfact
  obtain ⟨hhash, hnext, hfirst⟩ := hfact
  have hmine : .bucket (bucketOf k) ∈ (s.pc t).held bucketOf := by simp [hpc, Pc.held]
  have hat := hi.busy t _ hmine
  rw [hpc] at hat
  have hn : n ∈ chain (bucketOf k) := by
    have hhead := DLinked.head hat
    rw [hfirst] at hhead
    exact List.mem_of_head? hhead.symm
  have hne : i ≠ n := by
    rintro rfl
    rw [← hi.hash_iff, hhash] at hn
    cases hn
  refine hi.codeOk_write (fun _ => rfl) (fun hc => ?_) (by simp [hpc, Pc.held]) ?_ ?_ ?_
  · rw [(hi.hash_iff _ n).mpr hn] at hc
    cases hc
  · intro b hb
    rw [hi.mem_unique hb hn]
    exact hmine
  · intro b hb
    by_cases hbo : b = bucketOf k
    · subst hbo
      simp only [Pc.stage, if_pos]
      exact ChainAt.headWrite hat hfirst
    · simp only [Pc.stage, if_neg hbo]
      have hb' := hi.busy t b hb
      rw [hpc] at hb'
      exact hb'.modify fun hc => hbo (hi.mem_unique hc hn)
  · change ((s.buf.modify n _).metaAt i).hash = none ∧
      ((s.buf.modify n _).metaAt i).next = some n ∧ s.buf.firstAt (bucketOf k) = some n
    rw [TransBuffer.modify_metaAt_ne _ _ hne]
    exact ⟨hhash, hnext, hfirst⟩

omit [DecidableEq τ] in
/-- **Every piece of code between two lock operations** leaves the chains of the other buckets alone
and the chains of its own buckets at the stage it goes on with. -/
theorem Inv.exists_codeOk (hi : Inv bucketOf s chain)
    (h : (s.pc t).code cfg bucketOf s.buf = some (buf, pc)) :
    ∃ chain', CodeOk bucketOf s.buf chain (s.pc t) buf chain' pc := by
  have hfact := hi.fact t
  cases hpc : s.pc t with
  | first k c =>
    rw [hpc] at h
    cases h
    refine ⟨chain, hpc ▸ hi.codeOk_read (fun b => ?_) (fact_walkAt _ _ _ _)⟩
    rw [hpc, stage_walkAt]
    rfl
  | compare k c i =>
    rw [hpc] at h
    simp only [Pc.code] at h
    split at h
    · cases c with
      | get ar =>
        cases h
        exact ⟨chain, hpc ▸ hi.codeOk_same (sameNode_modify fun _ => ⟨rfl, rfl, rfl⟩)
          (fun _ => rfl) (fun b => by rw [hpc]; rfl) trivial⟩
      | exist =>
        cases h
        exact ⟨chain, hpc ▸ hi.codeOk_read (fun b => by rw [hpc]; rfl) trivial⟩
    · cases h
      exact ⟨chain, hpc ▸ hi.codeOk_read (fun b => by rw [hpc]; rfl) trivial⟩
  | fetchNode k ar =>
    rw [hpc] at h
    cases h
    exact ⟨chain, hpc ▸ hi.codeOk_same (fun _ => ⟨rfl, rfl, rfl⟩) (fun _ => rfl)
      (fun b => by rw [hpc]; rfl) trivial⟩
  | inspect k ar i =>
    rw [hpc] at h
    simp only [Pc.code] at h
    split at h
    · cases h
      exact ⟨chain, hpc ▸ hi.codeOk_read (fun b => by rw [hpc]; rfl) trivial⟩
    · cases hhash : (s.buf.metaAt i).hash with
      | none =>
        simp only [hhash] at h
        cases h
        exact ⟨chain, hpc ▸ hi.codeOk_read (fun b => by rw [hpc]; rfl) hhash⟩
      | some old =>
        simp only [hhash] at h
        split at h
        · cases h
          exact ⟨chain, hpc ▸ hi.codeOk_read (fun b => by rw [hpc]; rfl) trivial⟩
        · cases h
          exact ⟨chain, hpc ▸ hi.codeOk_read (fun b => by rw [hpc]; rfl) hhash⟩
  | removePrev k i old =>
    rw [hpc] at h hfact
    simp only [Pc.code] at h
    cases hprev : (s.buf.metaAt i).prev with
    | some p =>
      simp only [hprev] at h
      cases h
      exact ⟨chain, hpc ▸ hi.codeOk_read (fun b => by rw [hpc]; rfl) ⟨hfact, hprev⟩⟩
    | none =>
      simp only [hprev] at h
      cases h
      exact ⟨chain, hpc ▸ hi.codeOk_noPrev hpc hprev⟩
  | prevWrite k i old p =>
    rw [hpc] at h
    cases h
    exact ⟨chain, hpc ▸ hi.codeOk_prevWrite hpc⟩
  | removeNext k i old =>
    rw [hpc] at h hfact
    simp only [Pc.code] at h
    have hhash : (s.buf.metaAt i).hash = some old := hfact
    cases hnext : (s.buf.metaAt i).next with
    | some n =>
      simp only [hnext] at h
      cases h
      exact ⟨chain, hpc ▸ hi.codeOk_read (fun b => by rw [hpc]; rfl) ⟨hhash, hnext⟩⟩
    | none =>
      simp only [hnext] at h
      cases h
      exact ⟨chain, hpc ▸ hi.codeOk_noNext hpc hnext⟩
  | nextWrite k i old n =>
    rw [hpc] at h
    cases h
    exact ⟨chain, hpc ▸ hi.codeOk_nextWrite hpc⟩
  | removeEnd k i old n =>
    rw [hpc] at h
    simp only [Pc.code, Option.some.injEq, Prod.mk.injEq] at h
    obtain ⟨rfl, rfl⟩ := h
    refine ⟨_, hpc ▸ hi.codeOk_removeEnd hpc (fun b => ?_) (fun y hy => ?_) ?_⟩
    · rw [TransBuffer.modify_firstAt]
      by_cases hb : b = old
      · subst hb
        by_cases hfirst : s.buf.firstAt b = some i
        · simp [hfirst, TransBuffer.setFirst_firstAt]
        · simp [hfirst]
      · rw [if_neg (fun hc : b = old ∧ _ => hb hc.1)]
        split
        · rw [TransBuffer.setFirst_firstAt, if_neg hb]
        · rfl
    · rw [TransBuffer.modify_metaAt_ne _ _ hy]
      split <;> rfl
    · rw [TransBuffer.modify_metaAt_self]
      exact ⟨rfl, rfl⟩
  | moveTo k i =>
    rw [hpc] at h
    cases h
    exact ⟨chain, hpc ▸ hi.codeOk_moveTo hpc⟩
  | headWrite k i n =>
    rw [hpc] at h
    cases h
    exact ⟨chain, hpc ▸ hi.codeOk_headWrite hpc⟩
  | moveEnd k i =>
    rw [hpc] at h
    cases h
    refine ⟨_, hpc ▸ hi.codeOk_moveEnd hpc (fun b => rfl) (fun y => ?_) fun y => ?_⟩
    · rw [TransBuffer.setFirst_metaAt, TransBuffer.modify_metaAt]
      split <;> exact ⟨rfl, rfl⟩
    · rw [TransBuffer.setFirst_metaAt, TransBuffer.modify_metaAt]
      split <;> rfl
  | rekey k i =>
    rw [hpc] at h
    cases h
    exact ⟨chain, hpc ▸ hi.codeOk_same (sameNode_modify fun _ => ⟨rfl, rfl, rfl⟩)
      (fun _ => rfl) (fun b => by rw [hpc]; rfl) trivial⟩
  | posAccess op i =>
    rw [hpc] at h
    cases h
    exact ⟨chain, hpc ▸ hi.codeOk_same (sameNode_access op s.buf i) (fun b => by cases op <;> rfl)
      (fun b => by rw [hpc]; rfl) trivial⟩
  | _ =>
    rw [hpc] at h
    cases h

theorem Inv.call (hi : Inv bucketOf s chain) {answer : Option Answer} (hpc : s.pc t = .out answer)
    (c : Call) :
    Inv bucketOf (s.code t s.buf c.start) chain := by
  refine hi.code ?_ (hi.codeOk_read (fun b => ?_) ?_)
  · rw [hpc]
    cases c <;> rfl
  · rw [hpc]
    cases c <;> rfl
  · cases c <;> trivial

/-- **Every step keeps the invariant.** -/
theorem Inv.step {s' : State τ} {e : Event τ} (hi : Inv bucketOf s chain)
    (h : s.step cfg bucketOf e = some s') : ∃ chain', Inv bucketOf s' chain' := by
  cases e with
  | call t c =>
    simp only [State.step] at h
    split at h
    · rename_i answer hpc
      cases h
      exact ⟨chain, hi.call hpc c⟩
    · cases h
  | step t =>
    simp only [State.step] at h
    split at h
    · rename_i buf pc hcode
      cases h
      obtain ⟨chain', hok⟩ := hi.exists_codeOk hcode
      exact ⟨chain', hi.code (held_code hcode) hok⟩
    · split at h
      · rename_i l pc hlock
        obtain ⟨hst, hf⟩ := stage_locking hlock
        exact ⟨chain, hi.lock (held_locking hlock) hst (hf _ (hi.fact t)) h⟩
      · split at h
        · rename_i l pc hunlock
          cases h
          obtain ⟨hst, hf⟩ := stage_unlocking hunlock
          exact ⟨chain, hi.unlock (held_unlocking hunlock) hst (hf _ (hi.fact t))⟩
        · split at h
          · rename_i l got busy htry
            obtain ⟨hgot, hbusy⟩ := held_trying bucketOf htry
            obtain ⟨hst, hf⟩ := stage_trying bucketOf htry
            obtain ⟨hfg, hfb⟩ := hf _ (hi.fact t)
            split at h
            · exact ⟨chain, hi.lock hgot (fun b => (hst b).1) hfg h⟩
            · cases h
              exact ⟨chain, hi.code hbusy (hi.codeOk_read (fun b => (hst b).2) hfb)⟩
          · cases h

/-- **The invariant holds in every reachable state.** -/
theorem exists_inv (h : (machine cfg bucketOf).Reachable s) :
    ∃ chain, Inv bucketOf s chain := by
  refine Machine.Reach.inv (I := fun s => ∃ chain, Inv bucketOf s chain) ?_ ?_ h
  · rintro s rfl
    refine ⟨fun _ => [], ?_⟩
    exact
      { held := fun l t => by simp [Pc.held]
        nodup_held := fun _ => List.nodup_nil
        nodup := fun _ => List.nodup_nil
        hash_iff := by simp [TransBuffer.setup, BufferMetaNode.init]
        free_prev := fun _ _ => rfl
        free := fun _ _ => rfl
        busy := fun t b hb => by simp [Pc.held] at hb
        fact := fun _ => trivial }
  · rintro s e s' ⟨chain, hi⟩ - hstep
    exact hi.step hstep

/-! ## Who waits for whom -/

/-- How much a thread holds when it waits in a lock operation: nothing, a bucket, or a candidate. -/
def Pc.rank : Pc → Nat
  | .walkLock _ _ _ | .allocLock _ _ _ => 1
  | .prevLock _ _ _ _ | .nextLock _ _ _ _ | .headLock _ _ _ => 2
  | _ => 0

omit [DecidableEq τ] in
theorem State.wants_eq_some :
    s.wants bucketOf t = some l ↔ ∃ pc, (s.pc t).locking bucketOf = some (l, pc) := by
  simp [State.wants]

omit [DecidableEq τ] in
theorem Inv.neighbour (hi : Inv bucketOf s chain) (hrank : (s.pc t).rank = 2)
    (hw : s.wants bucketOf t = some l) :
    ∃ j b, l = .node j ∧ (s.buf.metaAt j).hash = some b ∧ .bucket b ∈ (s.pc t).held bucketOf ∧
      .node j ∉ (s.pc t).held bucketOf := by
  have hfact := hi.fact t
  obtain ⟨pc, hl⟩ := State.wants_eq_some.mp hw
  cases hpc : s.pc t with
  | prevLock k i old p =>
    rw [hpc] at hl hfact
    obtain ⟨hhash, hprev⟩ := hfact
    have hold : .bucket old ∈ (s.pc t).held bucketOf := by simp [hpc, Pc.held]
    obtain ⟨hmem, hnd, hat⟩ := hi.old_chain hold hhash
    rw [hpc] at hat
    obtain ⟨hp, hne⟩ := DLinked.prev_mem (L := s.buf.links) hat hnd hmem hprev
    cases hl
    exact ⟨p, old, rfl, (hi.hash_iff old p).mpr hp, hpc ▸ hold, by simp [Pc.held, hne]⟩
  | nextLock k i old n =>
    rw [hpc] at hl hfact
    obtain ⟨hhash, hnext⟩ := hfact
    have hold : .bucket old ∈ (s.pc t).held bucketOf := by simp [hpc, Pc.held]
    obtain ⟨hmem, hnd, hat⟩ := hi.old_chain hold hhash
    rw [hpc] at hat
    simp only [Pc.stage, if_pos] at hat
    obtain ⟨hn, hne⟩ := hat.cut_next_mem hnd hmem hnext
    cases hl
    exact ⟨n, old, rfl, (hi.hash_iff old n).mpr hn, hpc ▸ hold, by simp [Pc.held, hne]⟩
  | headLock k i n =>
    rw [hpc] at hl hfact
    obtain ⟨hhash, -, hfirst⟩ := hfact
    have hmine : .bucket (bucketOf k) ∈ (s.pc t).held bucketOf := by simp [hpc, Pc.held]
    have hat := hi.busy t _ hmine
    rw [hpc] at hat
    have hhead := DLinked.head (L := s.buf.links) hat
    rw [hfirst] at hhead
    have hn : (s.buf.metaAt n).hash = some (bucketOf k) :=
      (hi.hash_iff _ n).mpr (List.mem_of_head? hhead.symm)
    have hne : n ≠ i := by
      rintro rfl
      rw [hhash] at hn
      cases hn
    cases hl
    exact ⟨n, bucketOf k, rfl, hn, hpc ▸ hmine, by simp [Pc.held, hne]⟩
  | _ =>
    rw [hpc] at hrank
    cases hrank

omit [DecidableEq τ] in
theorem Inv.candidate (hi : Inv bucketOf s chain) {j : Nat} (hw : s.wants bucketOf t = some l)
    (hj : .node j ∈ (s.pc t).held bucketOf) (hb : (s.buf.metaAt j).hash = some b) :
    (s.pc t).rank = 2 ∧ .bucket b ∈ (s.pc t).held bucketOf := by
  have hfact := hi.fact t
  obtain ⟨pc, hl⟩ := State.wants_eq_some.mp hw
  cases hpc : s.pc t with
  | prevLock k i old p | nextLock k i old n =>
    rw [hpc] at hfact hj
    obtain rfl : j = i := by simpa [Pc.held] using hj
    rw [hfact.1] at hb
    cases hb
    exact ⟨rfl, by simp [Pc.held]⟩
  | headLock k i n =>
    rw [hpc] at hfact hj
    obtain rfl : j = i := by simpa [Pc.held] using hj
    rw [hfact.1] at hb
    cases hb
  | bucketLock | walkLock | allocLock | posLock =>
    rw [hpc] at hj
    simp [Pc.held] at hj
  | _ =>
    rw [hpc] at hl
    cases hl

theorem rank_of_locking (h : pc.locking bucketOf = some (l, pc')) :
    (pc.rank = 0 ∧ pc.held bucketOf = []) ∨
      (pc.rank = 1 ∧ (∃ j, l = .node j) ∧ ∃ b, pc.held bucketOf = [.bucket b]) ∨ pc.rank = 2 := by
  cases pc with
  | bucketLock | posLock => exact .inl ⟨rfl, rfl⟩
  | walkLock | allocLock =>
    cases h
    exact .inr (.inl ⟨rfl, ⟨_, rfl⟩, _, rfl⟩)
  | prevLock | nextLock | headLock => exact .inr (.inr rfl)
  | _ => cases h

omit [DecidableEq τ] in
/-- **Going from a blocked thread to the one it waits for, if that one is blocked, the rank goes
up.** -/
theorem Inv.ranked (hi : Inv bucketOf s chain) :
    Ranked s.owner (s.wants bucketOf) (fun t => (s.pc t).rank) 2 where
  lt := by
    rintro t u ⟨l, hw, hown⟩ ⟨v, l', hw', -⟩
    have hheld : l ∈ (s.pc u).held bucketOf := (hi.held l u).mp hown
    obtain ⟨pc, hl⟩ := State.wants_eq_some.mp hw
    obtain ⟨pc', hl'⟩ := State.wants_eq_some.mp hw'
    have hu := rank_of_locking hl'
    rcases rank_of_locking hl with ⟨ht, -⟩ | ⟨ht, ⟨j, rfl⟩, -⟩ | ht
    · -- whoever is waited for holds a lock
      rcases hu with ⟨-, hnil⟩ | ⟨hu, -⟩ | hu
      · rw [hnil] at hheld
        cases hheld
      · omega
      · omega
    · -- whoever holds a node and waits is in `Remove` or `MoveTo`
      rcases hu with ⟨-, hnil⟩ | ⟨-, -, b, hb⟩ | hu
      · rw [hnil] at hheld
        cases hheld
      · simp [hb] at hheld
      · omega
    · -- a neighbour is no other thread's candidate
      obtain ⟨j, b, rfl, hb, hbt, hnj⟩ := hi.neighbour ht hw
      obtain ⟨-, hbu⟩ := hi.candidate hw' hheld hb
      rw [hi.held.unique hbt hbu] at hnj
      exact absurd hheld hnj
  le := fun t => by cases s.pc t <;> simp [Pc.rank]

theorem code_ne_none (s : TransBuffer) (hout : ∀ answer, pc ≠ .out answer)
    (hl : pc.locking bucketOf = none) (hu : pc.unlocking bucketOf = none) (ht : pc.trying = none) :
    pc.code cfg bucketOf s ≠ none := by
  cases pc with
  | out answer => exact absurd rfl (hout answer)
  | compare k c i =>
    simp only [Pc.code]
    split
    · cases c <;> exact Option.some_ne_none _
    · exact Option.some_ne_none _
  | inspect k ar i =>
    simp only [Pc.code]
    split
    · exact Option.some_ne_none _
    · split
      · exact Option.some_ne_none _
      · split <;> exact Option.some_ne_none _
  | removePrev k i old | removeNext k i old =>
    simp only [Pc.code]
    split <;> exact Option.some_ne_none _
  | first | fetchNode | prevWrite | nextWrite | removeEnd | moveTo | headWrite | moveEnd | rekey
  | posAccess => exact Option.some_ne_none _
  | bucketLock | walkLock | allocLock | prevLock | nextLock | headLock | posLock => cases hl
  | hitUnlock | missUnlock | bucketUnlock | retryUnlock | prevUnlock | nextUnlock | oldUnlock
  | headUnlock | allocUnlock | posUnlock => cases hu
  | tryLock => cases ht

theorem State.step_ne_none (hpc : ∀ answer, s.pc t ≠ .out answer) (hb : ¬ s.Blocked bucketOf t) :
    s.step cfg bucketOf (.step t) ≠ none := by
  have hfree : ∀ l pc, (s.pc t).locking bucketOf = some (l, pc) → s.owner l = none := by
    intro l pc hl
    by_contra hne
    obtain ⟨u, hu⟩ := Option.ne_none_iff_exists'.mp hne
    exact hb ⟨u, l, State.wants_eq_some.mpr ⟨pc, hl⟩, hu⟩
  intro h
  simp only [State.step] at h
  split at h
  · cases h
  · rename_i hcode
    split at h
    · rename_i l pc hl
      simp [State.lock, hfree l pc hl] at h
    · rename_i hlocking
      split at h
      · cases h
      · rename_i hunlocking
        split at h
        · split at h
          · rename_i hown
            simp [State.lock, hown] at h
          · cases h
        · rename_i htrying
          exact code_ne_none s.buf hpc hlocking hunlocking htrying hcode

/-- **No deadlock.** In every reachable state the waits-for relation has no cycle, nobody waits for a
lock it holds itself, and whoever is blocked waits, in the end, for a thread that can take its next
step. -/
theorem no_deadlock {s : State τ} (h : (machine cfg bucketOf).Reachable s) :
    (∀ t, ¬ Relation.TransGen (s.WaitsFor bucketOf) t t) ∧
      (∀ t l, s.wants bucketOf t = some l → s.owner l ≠ some t) ∧
      ∀ t, s.Blocked bucketOf t → ∃ u, Relation.TransGen (s.WaitsFor bucketOf) t u ∧
        s.step cfg bucketOf (.step u) ≠ none := by
  obtain ⟨chain, hi⟩ := exists_inv h
  refine ⟨hi.ranked.acyclic, fun t l hw hown => ?_, fun t ht => ?_⟩
  · exact hi.ranked.acyclic t (.single ⟨l, hw, hown⟩)
  · obtain ⟨u, htu, hu⟩ := hi.ranked.exists_free ht
    refine ⟨u, htu, State.step_ne_none (fun answer hpc => ?_) hu⟩
    obtain ⟨v, -, l, -, hown⟩ := Relation.TransGen.tail'_iff.mp htu
    have hheld : l ∈ (s.pc u).held bucketOf := (hi.held l u).mp hown
    rw [hpc] at hheld
    cases hheld

/-- Two nodes. -/
def tiny : BufferConfig where
  nNode := 2
  reservedNumber := 0
  blockIdHasher := fun b => UInt64.ofNat b.toNat
  shardHasher := fun n => UInt64.ofNat n
  reserved_lt := by decide

/-- The nodes 0 and 1 are in the chain of bucket 0. A `Get` for bucket 1 takes over node 0 and needs the
lock of its predecessor, node 1, while another thread is in `Acquire(1)`. -/
def neighbourTrace : List (Event Nat) := List.flatten [
  .call 0 (.get (0, 0) true) :: List.replicate 10 (.step 0),
  .call 0 (.get (1, 0) true) :: List.replicate 16 (.step 0),
  .call 0 (.pos .release 0) :: List.replicate 3 (.step 0),
  .call 1 (.get (2, 1) true) :: List.replicate 7 (.step 1),
  [.call 2 (.pos .acquire 1), .step 2]]

/-- The run of `neighbourTrace` ends with thread 1 blocked on node 1, and thread 2 can go on. -/
theorem no_deadlock_neighbour : ∃ s : State Nat, (machine tiny Prod.snd).Reachable s ∧
    s.Blocked Prod.snd 1 ∧ ∃ u, Relation.TransGen (s.WaitsFor Prod.snd) 1 u ∧
      s.step tiny Prod.snd (.step u) ≠ none := by
  obtain ⟨s, hs, hp⟩ := Machine.exists_reachable_of_run (M := machine tiny Prod.snd)
    (s := { buf := .setup, owner := fun _ => none, pc := fun _ => .out none }) (l := neighbourTrace)
    (p := fun s => s.wants Prod.snd 1 = some (.node 1) ∧ s.owner (.node 1) = some 2) rfl
    (by decide +kernel)
  have hb : s.Blocked Prod.snd 1 := by
    obtain ⟨hw, hown⟩ := hp
    exact ⟨2, .node 1, hw, hown⟩
  exact ⟨s, hs, hb, (no_deadlock hs).2.2 1 hb⟩

end UnifiedCache.Cache.BufferLocks
