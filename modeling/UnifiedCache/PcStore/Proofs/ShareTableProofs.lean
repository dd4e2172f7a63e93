import UnifiedCache.PcStore.ShareBuffer

/-!
# Proofs: the table of the shared buffer

The slots are a table of linear probing at any time, and the reference counter of a slot is the number
of its live readers. The call that has the lock of the table knows what it has scanned: ids only
change under that lock, and the counters it has found at zero stay there.
-/

open Function Lib

namespace UnifiedCache.PcStore.ShareBuffer

variable {cfg : Config} {s s' : State} {a : Acquire} {block : ShareBlockId} {p q i j : Nat}

/-! ## Keys -/

theorem table_eq_some {id : ShareBlockId} :
    s.table p = some id ↔ (s.headers p).id = id ∧ id.used = true := by
  unfold State.table
  split_ifs with hused
  · rw [Option.some.injEq]
    constructor
    · rintro rfl
      exact ⟨rfl, hused⟩
    · exact And.left
  · constructor
    · intro h
      cases h
    · rintro ⟨rfl, h⟩
      exact absurd h hused

theorem table_eq_none : s.table p = none ↔ (s.headers p).id.used = false := by
  unfold State.table
  split_ifs with hused
  · simp [hused]
  · simp [Bool.eq_false_iff.mpr hused]

theorem table_isSome : (s.table p).isSome ↔ (s.headers p).id.used = true := by
  unfold State.table
  split_ifs with hused <;> simp [hused]

theorem table_congr (h : ∀ p, (s'.headers p).id = (s.headers p).id) : s'.table = s.table := by
  funext p
  rw [State.table, h, State.table]

theorem headers_setHeader (s : State) (p q : Nat) (h : ShareBlockHeader) :
    (s.setHeader p h).headers q = if q = p then h else s.headers q := by
  simp only [State.setHeader, update_apply]

theorem id_setHeader {h : ShareBlockHeader} (hid : h.id = (s.headers p).id) (q : Nat) :
    ((s.setHeader p h).headers q).id = (s.headers q).id := by
  rw [headers_setHeader]
  split_ifs with hq
  · rw [hid, hq]
  · rfl

theorem table_occupy (hused : block.used = true) :
    ((s.occupy p block).enter block p).table = update s.table p (some block) := by
  funext q
  by_cases hq : q = p
  · subst hq
    rw [update_self, table_eq_some]
    simp [State.enter, State.occupy, headers_setHeader, ShareBlockHeader.occupy, hused]
  · rw [update_of_ne hq, State.table, State.table]
    simp [State.enter, State.occupy, headers_setHeader, hq]

/-! ## Readers -/

/-- What a reader is, but for the record. -/
def Reader.key (r : Reader) : ShareBlockId × Nat × Bool := (r.block, r.pos, r.alive)

theorem liveReaders_congr (h : s'.readers.map Reader.key = s.readers.map Reader.key) (p : Nat) :
    s'.liveReaders p = s.liveReaders p := by
  have hcount : ∀ l : List Reader, (l.countP fun r => r.alive && r.pos = p) =
      (l.map Reader.key).countP fun x => x.2.2 && x.2.1 = p := by
    intro l
    rw [List.countP_map]
    rfl
  rw [State.liveReaders, hcount, h, ← hcount, State.liveReaders]

theorem liveReaders_enter (s : State) (block : ShareBlockId) (p q : Nat) :
    (s.enter block p).liveReaders q = s.liveReaders q + if q = p then 1 else 0 := by
  rw [State.liveReaders, State.enter, List.countP_append, State.liveReaders]
  by_cases hq : q = p
  · simp [hq]
  · simp [hq, Ne.symm hq]

theorem liveReaders_release {r : Reader} (hr : s.readers[i]? = some r) (halive : r.alive = true)
    (hs' : s'.readers = s.readers.set i { r with alive := false }) (q : Nat) :
    s.liveReaders q = s'.liveReaders q + if q = r.pos then 1 else 0 := by
  obtain ⟨hi, rfl⟩ := List.getElem?_eq_some_iff.mp hr
  have hset := List.countP_set (p := fun r : Reader => r.alive && decide (r.pos = q))
    (a := { s.readers[i] with alive := false }) hi
  have hle : (if (s.readers[i].alive && decide (s.readers[i].pos = q)) = true then 1 else 0) ≤
      s.readers.countP fun r => r.alive && decide (r.pos = q) := by
    split_ifs with h
    · exact List.countP_pos_iff.mpr ⟨_, List.getElem_mem hi, h⟩
    · exact Nat.zero_le _
  rw [State.liveReaders, State.liveReaders, hs', hset]
  simp only [halive, Bool.true_and, decide_eq_true_eq, Bool.false_and, Bool.false_eq_true,
    if_false, eq_comm (b := q)] at hle ⊢
  omega

theorem liveReaders_pos {r : Reader} (hr : r ∈ s.readers) (halive : r.alive = true) :
    0 < s.liveReaders r.pos :=
  List.countP_pos_iff.mpr ⟨r, hr, by simp [halive]⟩

/-! ## The invariant -/

/-- Since the call got the lock of the table no id has changed and no counter has risen. -/
def Acquire.Since (a : Acquire) (s : State) : Prop :=
  ∀ p, (s.headers p).id = (a.before p).id ∧ (s.headers p).ref ≤ (a.before p).ref

/-- The first `i` slots of the probe have other blocks. -/
def Acquire.Scanned (cfg : Config) (s : State) (a : Acquire) (i : Nat) : Prop :=
  ∀ j < i, (s.headers (Probing.slot cfg.blockNumber (cfg.hasher a.block) j)).id.used = true ∧
    (s.headers (Probing.slot cfg.blockNumber (cfg.hasher a.block) j)).id ≠ a.block

/-- A slot of the probe that nobody refers to. -/
def Acquire.Reusable (cfg : Config) (s : State) (a : Acquire) (p : Nat) : Prop :=
  (s.headers p).ref ≤ 0 ∧ ∃ j < cfg.blockNumber,
    p = Probing.slot cfg.blockNumber (cfg.hasher a.block) j ∧
      Probing.Taken cfg.blockNumber s.table (cfg.hasher a.block) j

/-- What the call of `AcquireBlock` knows. -/
def AcquirePc.Ok (cfg : Config) (s : State) (a : Acquire) : AcquirePc → Prop
  | .probe i pos reusedPos =>
    i ≤ cfg.blockNumber ∧ pos = Probing.slot cfg.blockNumber (cfg.hasher a.block) i ∧
      a.Scanned cfg s i ∧ (∀ p, reusedPos = some p → a.Reusable cfg s p) ∧
      (reusedPos = none →
        ∀ j < i, 0 < (a.before (Probing.slot cfg.blockNumber (cfg.hasher a.block) j)).ref)
  | .reuse (some p) =>
    a.Reusable cfg s p ∧ ∀ q < cfg.blockNumber, s.table q ≠ some a.block
  | .reuse none =>
    ∀ p < cfg.blockNumber, (a.before p).id.used = true ∧ (a.before p).id ≠ a.block ∧
      0 < (a.before p).ref

/-- **The invariant of the table.** -/
structure TableInv (cfg : Config) (s : State) : Prop where
  valid : Probing.Valid cfg.blockNumber cfg.hasher s.table
  refs : ∀ p < cfg.blockNumber, (s.headers p).ref = s.liveReaders p
  bounds : ∀ r ∈ s.readers, r.pos < cfg.blockNumber
  blocks : ∀ r ∈ s.readers, r.alive = true → s.table r.pos = some r.block
  acquire : ∀ a, s.acquiring = some a → a.block.used = true ∧ a.Since s ∧ a.pc.Ok cfg s a

theorem Acquire.Scanned.taken (h : a.Scanned cfg s i) :
    Probing.Taken cfg.blockNumber s.table (cfg.hasher a.block) i := by
  intro j hj
  exact table_isSome.mpr (h j hj).1

theorem Acquire.Scanned.ne (h : a.Scanned cfg s i) : ∀ j < i,
    s.table (Probing.slot cfg.blockNumber (cfg.hasher a.block) j) ≠ some a.block := by
  intro j hj hk
  exact (h j hj).2 (table_eq_some.mp hk).1

theorem Acquire.Since.congr (hid : ∀ p, (s'.headers p).id = (s.headers p).id)
    (href : ∀ p, (s'.headers p).ref ≤ (s.headers p).ref) (h : a.Since s) : a.Since s' := by
  intro p
  exact ⟨(hid p).trans (h p).1, Int.le_trans (href p) (h p).2⟩

theorem AcquirePc.Ok.congr {pc : AcquirePc} (hid : ∀ p, (s'.headers p).id = (s.headers p).id)
    (href : ∀ p, (s'.headers p).ref ≤ (s.headers p).ref) (h : pc.Ok cfg s a) :
    pc.Ok cfg s' a := by
  have htable := table_congr hid
  have hreusable : ∀ p, a.Reusable cfg s p → a.Reusable cfg s' p := by
    rintro p ⟨hle, j, hj, hp, htaken⟩
    refine ⟨Int.le_trans (href p) hle, j, hj, hp, ?_⟩
    rw [htable]
    exact htaken
  cases pc with
  | probe i pos reusedPos =>
    obtain ⟨hi, hpos, hscan, hreuse, hbusy⟩ := h
    refine ⟨hi, hpos, fun j hj => ?_, fun p hp => hreusable p (hreuse p hp), hbusy⟩
    rw [hid]
    exact hscan j hj
  | reuse reusedPos =>
    cases reusedPos with
    | none => exact h
    | some p =>
      refine ⟨hreusable p h.1, ?_⟩
      rw [htable]
      exact h.2

theorem TableInv.of_same (hi : TableInv cfg s) (hid : ∀ p, (s'.headers p).id = (s.headers p).id)
    (href : ∀ p, (s'.headers p).ref = (s.headers p).ref)
    (hkey : s'.readers.map Reader.key = s.readers.map Reader.key)
    (hacq : s'.acquiring = s.acquiring) : TableInv cfg s' := by
  have htable := table_congr hid
  have hmem : ∀ r' ∈ s'.readers, ∃ r ∈ s.readers, r.key = r'.key := by
    intro r' hr'
    have hk : r'.key ∈ s.readers.map Reader.key := by
      rw [← hkey]
      exact List.mem_map_of_mem hr'
    exact List.mem_map.mp hk
  refine ⟨?_, fun p hp => ?_, fun r' hr' => ?_, fun r' hr' halive => ?_, fun a ha => ?_⟩
  · rw [htable]
    exact hi.valid
  · rw [href, hi.refs p hp, liveReaders_congr hkey]
  · obtain ⟨r, hr, hk⟩ := hmem r' hr'
    have hpos : r.pos = r'.pos := congrArg (fun x => x.2.1) hk
    rw [← hpos]
    exact hi.bounds r hr
  · obtain ⟨r, hr, hk⟩ := hmem r' hr'
    have hpos : r.pos = r'.pos := congrArg (fun x => x.2.1) hk
    have hblock : r.block = r'.block := congrArg Prod.fst hk
    have hal : r.alive = r'.alive := congrArg (fun x => x.2.2) hk
    rw [htable, ← hpos, ← hblock]
    exact hi.blocks r hr (hal.trans halive)
  · rw [hacq] at ha
    obtain ⟨hused, hsince, hok⟩ := hi.acquire a ha
    have hle : ∀ p, (s'.headers p).ref ≤ (s.headers p).ref := fun p => Int.le_of_eq (href p)
    exact ⟨hused, hsince.congr hid hle, hok.congr hid hle⟩

/-! ## `AcquireBlock` -/

theorem TableInv.no_readers (hi : TableInv cfg s) (hp : p < cfg.blockNumber)
    (href : (s.headers p).ref ≤ 0) : s.liveReaders p = 0 := by
  have := hi.refs p hp
  omega

theorem TableInv.empty_no_readers (hi : TableInv cfg s) (hnone : s.table p = none) :
    s.liveReaders p = 0 := by
  rw [State.liveReaders, List.countP_eq_zero]
  intro r hr hlive
  simp only [Bool.and_eq_true, decide_eq_true_eq] at hlive
  have hblock := hi.blocks r hr hlive.1
  rw [hlive.2, hnone] at hblock
  cases hblock

/-- **`Occupy`** of a slot without readers, by a block that is not in the table. -/
theorem TableInv.occupy (hi : TableInv cfg s) (hused : block.used = true)
    (hj : j < cfg.blockNumber) (hp : p = Probing.slot cfg.blockNumber (cfg.hasher block) j)
    (htaken : Probing.Taken cfg.blockNumber s.table (cfg.hasher block) j)
    (habsent : ∀ q < cfg.blockNumber, s.table q ≠ some block) (hlive : s.liveReaders p = 0) :
    TableInv cfg ((s.occupy p block).enter block p) := by
  have htable := table_occupy (s := s) (p := p) hused
  have hheader : ∀ q, (((s.occupy p block).enter block p).headers q).ref =
      if q = p then 1 else (s.headers q).ref := by
    intro q
    simp only [State.enter, State.occupy, headers_setHeader]
    split_ifs <;> rfl
  refine ⟨?_, fun q hq => ?_, fun r hr => ?_, fun r hr halive => ?_, fun a ha => by cases ha⟩
  · rw [htable, hp]
    exact hi.valid.insert habsent hj htaken
  · have hsame : (s.occupy p block).liveReaders q = s.liveReaders q := rfl
    rw [hheader, liveReaders_enter, hsame]
    by_cases hqp : q = p
    · rw [if_pos hqp, if_pos hqp, hqp, hlive]
      rfl
    · rw [if_neg hqp, if_neg hqp, Nat.add_zero, hi.refs q hq]
  · rcases List.mem_append.mp hr with hold | hnew
    · exact hi.bounds r hold
    · rw [List.mem_singleton.mp hnew, hp]
      exact Probing.slot_lt cfg.blockNumber_pos _ _
  · rw [htable]
    rcases List.mem_append.mp hr with hold | hnew
    · have hne : r.pos ≠ p := by
        intro hrp
        have hpos : 0 < s.liveReaders r.pos := liveReaders_pos hold halive
        rw [hrp] at hpos
        omega
      rw [update_of_ne hne]
      exact hi.blocks r hold halive
    · rw [List.mem_singleton.mp hnew, update_self]

/-- **`Refer`** of the slot of the block. -/
theorem TableInv.refer (hi : TableInv cfg s) (hused : block.used = true) (hp : p < cfg.blockNumber)
    (hid : (s.headers p).id = block) :
    TableInv cfg ((s.setHeader p (s.headers p).refer).enter block p) := by
  have htable : ((s.setHeader p (s.headers p).refer).enter block p).table = s.table :=
    table_congr (id_setHeader rfl)
  refine ⟨?_, fun q hq => ?_, fun r hr => ?_, fun r hr halive => ?_, fun a ha => by cases ha⟩
  · rw [htable]
    exact hi.valid
  · have hsame : (s.setHeader p (s.headers p).refer).liveReaders q = s.liveReaders q := rfl
    have href := hi.refs q hq
    rw [liveReaders_enter, hsame]
    show ((s.setHeader p (s.headers p).refer).headers q).ref = _
    rw [headers_setHeader]
    by_cases hqp : q = p
    · subst hqp
      rw [if_pos rfl, if_pos rfl]
      show (s.headers q).ref + 1 = _
      rw [href]
      rfl
    · rw [if_neg hqp, if_neg hqp, href, Nat.add_zero]
  · rcases List.mem_append.mp hr with hold | hnew
    · exact hi.bounds r hold
    · rw [List.mem_singleton.mp hnew]
      exact hp
  · rw [htable]
    rcases List.mem_append.mp hr with hold | hnew
    · exact hi.blocks r hold halive
    · rw [List.mem_singleton.mp hnew]
      exact table_eq_some.mpr ⟨hid, hused⟩

theorem TableInv.setAcquire (hi : TableInv cfg s) (hused : a.block.used = true) (hsince : a.Since s)
    (hok : a.pc.Ok cfg s a) : TableInv cfg (s.setAcquire a) where
  valid := hi.valid
  refs := hi.refs
  bounds := hi.bounds
  blocks := hi.blocks
  acquire := by
    intro a' ha'
    cases ha'
    exact ⟨hused, hsince, hok.congr (fun _ => rfl) fun _ => Int.le_refl _⟩

theorem AcquirePc.Ok.next {reusedPos : Option Nat}
    (hok : (AcquirePc.probe i (Probing.slot cfg.blockNumber (cfg.hasher a.block) i) reusedPos).Ok
      cfg s a) (hsince : a.Since s) (hlt : i < cfg.blockNumber)
    (hused : (s.headers (Probing.slot cfg.blockNumber (cfg.hasher a.block) i)).id.used = true)
    (hne : (s.headers (Probing.slot cfg.blockNumber (cfg.hasher a.block) i)).id ≠ a.block) :
    (AcquirePc.probe (i + 1)
      ((Probing.slot cfg.blockNumber (cfg.hasher a.block) i + 1) % cfg.blockNumber)
      (if (s.headers (Probing.slot cfg.blockNumber (cfg.hasher a.block) i)).ref ≤ 0 ∧
          reusedPos = none then some (Probing.slot cfg.blockNumber (cfg.hasher a.block) i)
        else reusedPos)).Ok cfg s a := by
  obtain ⟨-, -, hscan, hreuse, hbusy⟩ := hok
  refine ⟨hlt, Probing.slot_succ _ _ _, ?_, ?_, ?_⟩
  · intro j hj
    rcases Nat.lt_succ_iff_lt_or_eq.mp hj with hjlt | rfl
    · exact hscan j hjlt
    · exact ⟨hused, hne⟩
  · intro p hp
    split_ifs at hp with hunused
    · obtain rfl := Option.some.inj hp
      exact ⟨hunused.1, i, hlt, rfl, hscan.taken⟩
    · exact hreuse p hp
  · intro hnone j hj
    split_ifs at hnone with hunused
    rcases Nat.lt_succ_iff_lt_or_eq.mp hj with hjlt | rfl
    · exact hbusy hnone j hjlt
    · have hle := (hsince (Probing.slot cfg.blockNumber (cfg.hasher a.block) j)).2
      by_contra hnot
      exact hunused ⟨by omega, hnone⟩

theorem AcquirePc.Ok.last {pos : Nat} {reusedPos : Option Nat} (hi : TableInv cfg s)
    (hok : (AcquirePc.probe i pos reusedPos).Ok cfg s a) (hsince : a.Since s)
    (hend : ¬ i < cfg.blockNumber) : (AcquirePc.reuse reusedPos).Ok cfg s a := by
  obtain ⟨hile, -, hscan, hreuse, hbusy⟩ := hok
  cases reusedPos with
  | some p => exact ⟨hreuse p rfl, hi.valid.absent hscan.ne (.inl (by omega))⟩
  | none =>
    intro p hp
    obtain ⟨j, hj, rfl⟩ := Probing.exists_slot (cfg.hasher a.block) hp
    have hji : j < i := by omega
    rw [← (hsince _).1]
    exact ⟨(hscan j hji).1, (hscan j hji).2, hbusy rfl j hji⟩

/-- **One critical section of `AcquireBlock`**: it takes a reference to the slot of the block,
occupies a slot without readers for a block that is in none, moves on or returns no position. -/
theorem acquireStep_cases (hi : TableInv cfg s) (ha : s.acquiring = some a) :
    (∃ p < cfg.blockNumber, (s.headers p).id = a.block ∧
        acquireStep cfg a s = (s.setHeader p (s.headers p).refer).enter a.block p) ∨
      (∃ p, ∃ j < cfg.blockNumber, p = Probing.slot cfg.blockNumber (cfg.hasher a.block) j ∧
        Probing.Taken cfg.blockNumber s.table (cfg.hasher a.block) j ∧
        (∀ q < cfg.blockNumber, s.table q ≠ some a.block) ∧ s.liveReaders p = 0 ∧
        acquireStep cfg a s = (s.occupy p a.block).enter a.block p) ∨
      (∃ pc, pc.Ok cfg s a ∧ acquireStep cfg a s = s.setAcquire { a with pc := pc }) ∨
      acquireStep cfg a s = { s with acquiring := none } := by
  obtain ⟨-, hsince, hok⟩ := hi.acquire a ha
  obtain ⟨block, pc, before⟩ := a
  cases pc with
  | probe i pos reusedPos =>
    have hpos : pos = Probing.slot cfg.blockNumber (cfg.hasher block) i := hok.2.1
    subst hpos
    have hscan : Acquire.Scanned cfg s ⟨block, .probe i _ reusedPos, before⟩ i := hok.2.2.1
    simp only [acquireStep]
    by_cases hlt : i < cfg.blockNumber
    · rw [if_pos hlt]
      by_cases hid : (s.headers (Probing.slot cfg.blockNumber (cfg.hasher block) i)).id = block
      · rw [if_pos hid]
        exact .inl ⟨_, Probing.slot_lt cfg.blockNumber_pos _ _, hid, rfl⟩
      rw [if_neg hid]
      by_cases hfull :
        (s.headers (Probing.slot cfg.blockNumber (cfg.hasher block) i)).id.used = true
      · rw [if_neg (not_not.mpr hfull)]
        exact .inr (.inr (.inl ⟨_, hok.next hsince hlt hfull hid, rfl⟩))
      have hnone := table_eq_none.mpr (Bool.eq_false_iff.mpr hfull)
      have habsent := hi.valid.absent hscan.ne (.inr hnone)
      rw [if_pos hfull]
      by_cases hsome : reusedPos.isSome = true
      · rw [if_pos hsome]
        obtain ⟨p, rfl⟩ := Option.isSome_iff_exists.mp hsome
        exact .inr (.inr (.inl ⟨.reuse (some p), ⟨hok.2.2.2.1 p rfl, habsent⟩, rfl⟩))
      · rw [if_neg hsome]
        exact .inr (.inl ⟨_, i, hlt, rfl, hscan.taken, habsent, hi.empty_no_readers hnone, rfl⟩)
    · rw [if_neg hlt]
      exact .inr (.inr (.inl ⟨_, hok.last hi hsince hlt, rfl⟩))
  | reuse reusedPos =>
    cases reusedPos with
    | some p =>
      obtain ⟨⟨href, j, hj, hp, htaken⟩, habsent⟩ := hok
      have hlt : p < cfg.blockNumber := by
        rw [hp]
        exact Probing.slot_lt cfg.blockNumber_pos _ _
      exact .inr (.inl ⟨p, j, hj, hp, htaken, habsent, hi.no_readers hlt href, rfl⟩)
    | none => exact .inr (.inr (.inr rfl))

theorem acquireStep_inv (hi : TableInv cfg s) (ha : s.acquiring = some a) :
    TableInv cfg (acquireStep cfg a s) := by
  obtain ⟨hused, hsince, -⟩ := hi.acquire a ha
  rcases acquireStep_cases hi ha with ⟨p, hp, hid, heq⟩ |
    ⟨p, j, hj, hp, htaken, habsent, hlive, heq⟩ | ⟨pc, hok, heq⟩ | heq
  · rw [heq]
    exact hi.refer hused hp hid
  · rw [heq]
    exact hi.occupy hused hj hp htaken habsent hlive
  · rw [heq]
    exact hi.setAcquire hused hsince hok
  · rw [heq]
    exact ⟨hi.valid, hi.refs, hi.bounds, hi.blocks, fun a ha => by cases ha⟩

theorem acquire_inv (hi : TableInv cfg s) (hused : block.used = true) :
    TableInv cfg (s.setAcquire
      ⟨block, .probe 0 (cfg.hasher block % cfg.blockNumber) none, s.headers⟩) := by
  refine hi.setAcquire hused (fun p => ⟨rfl, Int.le_refl _⟩) ⟨Nat.zero_le _, ?_, ?_, ?_, ?_⟩
  · exact (Probing.slot_zero _ _).symm
  · intro j hj
    omega
  · intro p hp
    cases hp
  · intro _ j hj
    omega

/-! ## `ReleaseBlock` -/

theorem id_leave (s : State) (i : Nat) (r : Reader) (q : Nat) :
    ((s.leave i r).headers q).id = (s.headers q).id :=
  id_setHeader (h := (s.headers r.pos).release) rfl q

theorem ref_leave (s : State) (i : Nat) (r : Reader) (q : Nat) :
    ((s.leave i r).headers q).ref = (s.headers q).ref - if q = r.pos then 1 else 0 := by
  show ((s.setHeader r.pos (s.headers r.pos).release).headers q).ref = _
  rw [headers_setHeader]
  split_ifs with hq
  · rw [hq]
    rfl
  · rw [Int.sub_zero]

/-- **A reader is destroyed.** -/
theorem leave_inv {r : Reader} (hi : TableInv cfg s) (hr : s.readers[i]? = some r)
    (halive : r.alive = true) : TableInv cfg (s.leave i r) := by
  have htable : (s.leave i r).table = s.table := table_congr (id_leave s i r)
  have hmem : ∀ r' ∈ (s.leave i r).readers, r' ∈ s.readers ∨ r' = { r with alive := false } :=
    fun r' => List.mem_or_eq_of_mem_set
  refine ⟨?_, fun q hq => ?_, fun r' hr' => ?_, fun r' hr' halive' => ?_, fun a ha => ?_⟩
  · rw [htable]
    exact hi.valid
  · have hlive : s.liveReaders q = (s.leave i r).liveReaders q + if q = r.pos then 1 else 0 :=
      liveReaders_release hr halive rfl q
    rw [ref_leave, hi.refs q hq, hlive]
    split_ifs <;> omega
  · rcases hmem r' hr' with hold | rfl
    · exact hi.bounds r' hold
    · exact hi.bounds r (List.mem_of_getElem? hr)
  · rcases hmem r' hr' with hold | rfl
    · rw [htable]
      exact hi.blocks r' hold halive'
    · cases halive'
  · obtain ⟨hused, hsince, hok⟩ := hi.acquire a ha
    have hle : ∀ q, ((s.leave i r).headers q).ref ≤ (s.headers q).ref := by
      intro q
      rw [ref_leave]
      split_ifs <;> omega
    exact ⟨hused, hsince.congr (id_leave s i r) hle, hok.congr (id_leave s i r) hle⟩

/-! ## `Ready4Read` -/

theorem setStatus_frame (status : ShareBlockStatus) (q : Nat) :
    ((s.setHeader p { s.headers p with status := status }).headers q).id = (s.headers q).id ∧
      ((s.setHeader p { s.headers p with status := status }).headers q).ref =
        (s.headers q).ref := by
  rw [headers_setHeader]
  split_ifs with hq
  · rw [hq]
    exact ⟨rfl, rfl⟩
  · exact ⟨rfl, rfl⟩

theorem keys_setOk {r : Reader} (hr : s.readers[i]? = some r) :
    (s.setOk i r).readers.map Reader.key = s.readers.map Reader.key := by
  obtain ⟨hi, rfl⟩ := List.getElem?_eq_some_iff.mp hr
  rw [State.setOk, List.map_set]
  refine List.ext_getElem (by simp) fun j hj _ => ?_
  by_cases hij : i = j
  · subst hij
    simp [Reader.key]
  · rw [List.getElem_set_of_ne hij]

/-- **A step of `Ready4Read`**: the ids, the counters and the keys of the readers stay. -/
theorem readyStep_frame {c : Nat} {call : Call} {r : Reader} {ok : Bool}
    (hr : s.readers[call.reader]? = some r) (h : readyStep c call r ok s = some s') :
    (∀ q, (s'.headers q).id = (s.headers q).id ∧ (s'.headers q).ref = (s.headers q).ref) ∧
      s'.readers.map Reader.key = s.readers.map Reader.key ∧ s'.acquiring = s.acquiring := by
  obtain ⟨reader, pc⟩ := call
  cases pc with
  | isLoaded =>
    simp only [readyStep] at h
    split_ifs at h <;> cases h
    · exact ⟨fun _ => ⟨rfl, rfl⟩, keys_setOk hr, rfl⟩
    · exact ⟨fun _ => ⟨rfl, rfl⟩, rfl, rfl⟩
  | isFailure | isLoading =>
    simp only [readyStep] at h
    split_ifs at h <;> cases h <;> exact ⟨fun _ => ⟨rfl, rfl⟩, rfl, rfl⟩
  | lock =>
    simp only [readyStep] at h
    split_ifs at h <;> cases h
    · exact ⟨setStatus_frame .loading, rfl, rfl⟩
    · exact ⟨fun _ => ⟨rfl, rfl⟩, rfl, rfl⟩
  | read =>
    cases h
    exact ⟨fun _ => ⟨rfl, rfl⟩, rfl, rfl⟩
  | write success =>
    cases success with
    | true =>
      cases h
      exact ⟨setStatus_frame .loaded, keys_setOk hr, rfl⟩
    | false =>
      cases h
      exact ⟨setStatus_frame .failure, rfl, rfl⟩
  | returned status => cases h

/-! ## The run -/

/-- **What one event does**: the invariant holds after it. -/
theorem tableInv_step {e : Event} (hi : TableInv cfg s) (h : step cfg s e = some s') :
    TableInv cfg s' := by
  cases e with
  | acquire block =>
    simp only [step] at h
    split_ifs at h with hfree
    cases h
    exact acquire_inv hi hfree.2
  | probe =>
    obtain ⟨a, ha, rfl⟩ := Option.map_eq_some_iff.mp h
    exact acquireStep_inv hi ha
  | ready i =>
    simp only [step] at h
    split at h
    · split_ifs at h with halive
      cases h
      exact hi.of_same (fun _ => rfl) (fun _ => rfl) rfl rfl
    · cases h
  | call c ok =>
    obtain ⟨call, -, h⟩ := Option.bind_eq_some_iff.mp h
    obtain ⟨r, hr, h⟩ := Option.bind_eq_some_iff.mp h
    obtain ⟨hheaders, hkey, hacq⟩ := readyStep_frame hr h
    exact hi.of_same (fun q => (hheaders q).1) (fun q => (hheaders q).2) hkey hacq
  | release i =>
    simp only [step] at h
    split at h
    · next r hr =>
      split_ifs at h with halive
      cases h
      exact leave_inv hi hr halive.1
    · cases h

theorem tableInv_start (cfg : Config) : TableInv cfg .start where
  valid := Probing.valid_empty cfg.blockNumber cfg.hasher
  refs := fun _ _ => rfl
  bounds := fun r hr => by cases hr
  blocks := fun r hr => by cases hr
  acquire := fun a ha => by cases ha

theorem tableInv_of_reachable (h : (machine cfg).Reachable s) : TableInv cfg s := by
  refine h.inv ?_ fun s e s' hi _ hstep => tableInv_step hi hstep
  rintro s rfl
  exact tableInv_start cfg

/-! ## Slots in use -/

theorem id_occupy (hne : q ≠ p) :
    (((s.occupy p block).enter block p).headers q).id = (s.headers q).id := by
  show ((s.setHeader p ((s.headers p).occupy block)).headers q).id = _
  rw [headers_setHeader, if_neg hne]

theorem acquireStep_id (hi : TableInv cfg s) (ha : s.acquiring = some a) (hq : q < cfg.blockNumber)
    (href : 0 < (s.headers q).ref) :
    ((acquireStep cfg a s).headers q).id = (s.headers q).id := by
  rcases acquireStep_cases hi ha with ⟨p, -, -, heq⟩ | ⟨p, -, -, -, -, -, hlive, heq⟩ |
    ⟨pc, -, heq⟩ | heq
  · rw [heq]
    exact id_setHeader (h := (s.headers p).refer) rfl q
  · rw [heq]
    refine id_occupy ?_
    rintro rfl
    have hrefs := hi.refs q hq
    omega
  · rw [heq]
    rfl
  · rw [heq]

theorem step_id {e : Event} (hi : TableInv cfg s) (h : step cfg s e = some s')
    (hq : q < cfg.blockNumber) (href : 0 < (s.headers q).ref) :
    (s'.headers q).id = (s.headers q).id := by
  cases e with
  | acquire block =>
    simp only [step] at h
    split_ifs at h
    cases h
    rfl
  | probe =>
    obtain ⟨a, ha, rfl⟩ := Option.map_eq_some_iff.mp h
    exact acquireStep_id hi ha hq href
  | ready i =>
    simp only [step] at h
    split at h
    · split_ifs at h
      cases h
      rfl
    · cases h
  | call c ok =>
    obtain ⟨call, -, h⟩ := Option.bind_eq_some_iff.mp h
    obtain ⟨r, hr, h⟩ := Option.bind_eq_some_iff.mp h
    exact ((readyStep_frame hr h).1 q).1
  | release i =>
    simp only [step] at h
    split at h
    · split_ifs at h
      cases h
      exact id_leave _ _ _ q
    · cases h

/-- **The slots of the shared buffer**, under any number of processes: a block is in one slot at most
and its probe reaches it before an empty slot; the counter of a slot is the number of its live
readers, and a slot with references is not given to another block; and `AcquireBlock` returns no
position only if every slot had another block and a reference when it got the lock of the table. -/
theorem slots_consistent (cfg : Config) (s : State) (h : (machine cfg).Reachable s) :
    (∀ p < cfg.blockNumber, ∀ q < cfg.blockNumber, ∀ block,
        s.table p = some block → s.table q = some block → p = q) ∧
      (∀ p < cfg.blockNumber, ∀ block, s.table p = some block →
        ∃ i < cfg.blockNumber, p = (cfg.hasher block + i) % cfg.blockNumber ∧
          ∀ j < i, (s.table ((cfg.hasher block + j) % cfg.blockNumber)).isSome) ∧
      (∀ p < cfg.blockNumber, (s.headers p).ref = s.liveReaders p) ∧
      (∀ e s', (machine cfg).step s e = some s' → ∀ p < cfg.blockNumber, 0 < (s.headers p).ref →
        (s'.headers p).id = (s.headers p).id) ∧
      ∀ a, s.acquiring = some a → a.pc = .reuse none → ∀ p < cfg.blockNumber,
        (a.before p).id.used = true ∧ (a.before p).id ≠ a.block ∧ 0 < (a.before p).ref := by
  have hi := tableInv_of_reachable h
  refine ⟨hi.valid.unique, hi.valid.reach, hi.refs, ?_, ?_⟩
  · intro e s' hstep p hp href
    exact step_id hi hstep hp href
  · intro a ha hpc
    obtain ⟨-, -, hok⟩ := hi.acquire a ha
    rw [hpc] at hok
    exact hok

/-- Two slots. -/
def Config.two : Config := ⟨2, fun block => block.lo.toNat, Nat.two_pos⟩

/-- A block is put into each of the two slots, and a third one is looked for while the first slot is
released behind the probe. -/
def refused : List Event :=
  [.acquire ⟨2, 0⟩, .probe, .acquire ⟨1, 0⟩, .probe, .acquire ⟨4, 0⟩, .probe, .release 0, .probe,
    .probe]

/-- A call that returns no position, with what it found when it got the lock. -/
theorem slots_consistent_refused : ∃ s a, (machine .two).Reachable s ∧ s.acquiring = some a ∧
    a.pc = .reuse none ∧ 0 < (a.before 0).ref ∧ 0 < (a.before 1).ref ∧
    (s.headers 1).ref = s.liveReaders 1 := by
  obtain ⟨s, hs, hp⟩ := Machine.exists_reachable_of_run (M := machine .two) (s := .start)
    (l := refused) (p := fun s => s.acquiring.map Acquire.pc = some (.reuse none)) rfl
    (by decide +kernel)
  obtain ⟨a, ha, hpc⟩ := Option.map_eq_some_iff.mp (hp)
  obtain ⟨-, -, hrefs, -, hrefused⟩ := slots_consistent .two s hs
  exact ⟨s, a, hs, ha, hpc, (hrefused a ha hpc 0 (by decide)).2.2,
    (hrefused a ha hpc 1 (by decide)).2.2, hrefs 1 (by decide)⟩

/-- The call returns no position although the first slot has no reference any more. -/
theorem refused_with_free_slot : ∃ s s', (machine .two).Reachable s ∧
    s.acquiring.map Acquire.pc = some (.reuse none) ∧ (machine .two).step s .probe = some s' ∧
    s'.acquiring.isNone ∧ s'.readers.length = s.readers.length ∧ (s.headers 0).ref = 0 ∧
    (s'.headers 0).ref = 0 := by
  obtain ⟨s, hs, hp⟩ := Machine.exists_reachable_of_run (M := machine .two) (s := .start)
    (l := refused) (p := fun s => s.acquiring.map Acquire.pc = some (.reuse none) ∧
      (s.headers 0).ref = 0) rfl (by decide +kernel)
  obtain ⟨a, ha, hpc⟩ := Option.map_eq_some_iff.mp hp.1
  refine ⟨s, acquireStep .two a s, hs, hp.1, ?_, ?_⟩
  · show s.acquiring.map _ = _
    rw [ha]
    rfl
  · have heq : acquireStep .two a s = { s with acquiring := none } := by
      rw [acquireStep, hpc]
    rw [heq]
    exact ⟨rfl, rfl, hp.2, hp.2⟩

end UnifiedCache.PcStore.ShareBuffer
