import UnifiedCache.NfsStore.Space

/-!
# Proofs: the space of the nfs store

What an operation does to the counter is compared with what it does to the block files. The counter
stays right exactly in the steps that are booked: any other step moves one of the two and not the
other.
-/

open Lib UnifiedCache.Infra

namespace UnifiedCache.NfsStore

variable {cfg : Config} {s s' : State} {m : Nat} {block : BlockId} {file : DataFile}

/-! ## The counter -/

/-- The space of so many block files. -/
def Config.space (cfg : Config) (n : Nat) : UInt64 := cfg.blockSize * UInt64.ofNat n

theorem space_succ (cfg : Config) (n : Nat) : cfg.space (n + 1) = cfg.space n + cfg.blockSize := by
  rw [Config.space, Config.space, UInt64.ofNat_add, UInt64.mul_add]
  show _ + cfg.blockSize * 1 = _
  rw [UInt64.mul_one]

theorem space_succ_ne (cfg : Config) (n : Nat) : cfg.space (n + 1) ≠ cfg.space n := by
  rw [space_succ]
  intro heq
  exact cfg.blockSize_ne (UInt64.add_eq_left.mp heq)

theorem accounted_iff : Accounted cfg s ↔ s.capacity = cfg.space s.files.card := Iff.rfl

theorem accounted_same (hs : Accounted cfg s) (hcap : s'.capacity = s.capacity)
    (hfiles : s'.files.card = s.files.card) : Accounted cfg s' := by
  rw [accounted_iff, hcap, hfiles]
  exact hs

theorem accounted_increase_iff (hs : Accounted cfg s) {counts : Prop} [Decidable counts]
    (hcap : s'.capacity = if counts then s.capacity + cfg.blockSize else s.capacity)
    (hcard : s'.files.card = s.files.card + 1) : Accounted cfg s' ↔ counts := by
  rw [accounted_iff] at hs ⊢
  rw [hcap, hcard, hs]
  split_ifs with hcounts
  · exact ⟨fun _ => hcounts, fun _ => (space_succ cfg _).symm⟩
  · exact ⟨fun heq => absurd heq.symm (space_succ_ne cfg _), fun h => absurd h hcounts⟩

theorem accounted_again_iff (hs : Accounted cfg s) {again : Prop} [Decidable again]
    (hcap : s'.capacity = if again then s.capacity + cfg.blockSize else s.capacity)
    (hcard : s'.files.card = s.files.card) : Accounted cfg s' ↔ ¬ again := by
  rw [accounted_iff] at hs ⊢
  rw [hcap, hcard, hs]
  split_ifs with hagain
  · rw [← space_succ]
    exact ⟨fun heq => absurd heq (space_succ_ne cfg _), fun h => absurd hagain h⟩
  · exact ⟨fun _ => hagain, fun _ => rfl⟩

theorem accounted_decrease_iff (hs : Accounted cfg s) {removes : Prop} [Decidable removes]
    (hcap : s'.capacity =
      if cfg.blockSize < s.capacity then s.capacity - cfg.blockSize else s.capacity)
    (hcard : s'.files.card + (if removes then 1 else 0) = s.files.card) :
    Accounted cfg s' ↔ (cfg.blockSize < s.capacity ↔ removes) := by
  rw [accounted_iff] at hs ⊢
  rw [hcap]
  by_cases hremoves : removes
  · rw [if_pos hremoves] at hcard
    have hspace : s.capacity = cfg.space s'.files.card + cfg.blockSize := by
      rw [hs, ← hcard, space_succ]
    split_ifs with hlt
    · have hsub : s.capacity - cfg.blockSize = cfg.space s'.files.card := by
        rw [hspace, UInt64.add_sub_cancel]
      exact ⟨fun _ => ⟨fun _ => hremoves, fun _ => hlt⟩, fun _ => hsub⟩
    · constructor
      · intro heq
        rw [hspace, ← space_succ] at heq
        exact absurd heq (space_succ_ne cfg _)
      · intro h
        exact absurd (h.mpr hremoves) hlt
  · rw [if_neg hremoves, Nat.add_zero] at hcard
    rw [hcard, ← hs]
    split_ifs with hlt
    · constructor
      · intro heq
        have hzero : cfg.blockSize = 0 := by
          have hadd : s.capacity - cfg.blockSize + cfg.blockSize = s.capacity :=
            UInt64.sub_add_cancel _ _
          rw [heq] at hadd
          exact UInt64.add_eq_left.mp hadd
        exact absurd hzero cfg.blockSize_ne
      · intro h
        exact absurd (h.mp hlt) hremoves
    · exact ⟨fun _ => ⟨fun h => absurd h hlt, fun h => absurd h hremoves⟩, fun _ => rfl⟩

/-! ## `NewBlock` -/

theorem capacityCheck_frame (cfg : Config) (m : Nat) (s : State) :
    (capacityCheck cfg m s).2.capacity = s.capacity ∧ (capacityCheck cfg m s).2.files = s.files := by
  simp only [capacityCheck]
  split_ifs <;> exact ⟨rfl, rfl⟩

theorem le_of_capacityCheck (hcapacity : cfg.storageCapacity ≠ 0)
    (hok : (capacityCheck cfg m s).1 = .ok) :
    s.capacity ≤ cfg.storageCapacity - cfg.blockSize := by
  unfold capacityCheck at hok
  rw [if_neg hcapacity] at hok
  by_contra hlt
  rw [UInt64.not_le] at hlt
  simp only [if_pos hlt] at hok
  cases hok

variable {env : NewEnv}

theorem newBlock_of_not_opens (h : ¬ Opens cfg m env block s) :
    (newBlock cfg m env block s).1 ≠ .ok ∧
      (newBlock cfg m env block s).2.capacity = s.capacity ∧
      (newBlock cfg m env block s).2.files = s.files := by
  obtain ⟨hcap, hfiles⟩ := capacityCheck_frame cfg m s
  unfold newBlock
  by_cases hcheck : (capacityCheck cfg m s).1 = .ok
  · rw [if_neg (not_not.mpr hcheck)]
    by_cases hmake : env.make = true
    · rw [if_neg (not_not.mpr hmake)]
      by_cases hdir : env.mkDir ≠ .ok ∧ env.mkDir ≠ .duplicateKey
      · rw [if_pos hdir]
        exact ⟨hdir.1, hcap, hfiles⟩
      · rw [if_neg hdir]
        have hdir' : env.mkDir = .ok ∨ env.mkDir = .duplicateKey := by
          by_contra hnot
          exact hdir (not_or.mp hnot)
        by_cases harchived : env.access = true ∧ ⟨block, false⟩ ∈ s.files
        · rw [if_pos harchived]
          exact ⟨(fun heq => by cases heq), hcap, hfiles⟩
        · rw [if_neg harchived, openBlock]
          have hcreate : ¬ env.create = true := by
            intro hcreate
            exact h ⟨hcheck, hmake, hdir', harchived, hcreate⟩
          rw [if_pos hcreate]
          exact ⟨(fun heq => by cases heq), hcap, hfiles⟩
    · rw [if_pos hmake]
      exact ⟨(fun heq => by cases heq), hcap, hfiles⟩
  · rw [if_pos hcheck]
    exact ⟨hcheck, hcap, hfiles⟩

theorem newBlock_of_opens (h : Opens cfg m env block s) :
    newBlock cfg m env block s = openBlock cfg env block (capacityCheck cfg m s).2 := by
  obtain ⟨hcheck, hmake, hdir, harchived, -⟩ := h
  have hdir' : ¬(env.mkDir ≠ .ok ∧ env.mkDir ≠ .duplicateKey) := by
    rintro ⟨hne, hne'⟩
    rcases hdir with heq | heq
    · exact hne heq
    · exact hne' heq
  rw [newBlock, if_neg (not_not.mpr hcheck), if_neg (not_not.mpr hmake), if_neg hdir',
    if_neg harchived]

/-- A file that exists is used again. -/
def NewEnv.reuses (env : NewEnv) : Bool := env.reopen && env.stat && env.stale && env.truncate

theorem openBlock_exists (cfg : Config) (hcreate : env.create = true)
    (hfile : ⟨block, true⟩ ∈ s.files) :
    (openBlock cfg env block s).2.files = s.files ∧
      (openBlock cfg env block s).2.capacity =
        (if env.reuses = true then s.capacity + cfg.blockSize else s.capacity) ∧
      ((openBlock cfg env block s).1 = .ok → env.reuses = true) := by
  rw [openBlock, if_neg (not_not.mpr hcreate), if_pos hfile, truncateBlock, NewEnv.reuses]
  cases env.reopen <;> cases env.stat <;> cases env.stale <;> cases env.truncate <;>
    simp [State.increaseCapacity]

theorem openBlock_new (cfg : Config) (hcreate : env.create = true) (hfile : ⟨block, true⟩ ∉ s.files) :
    (openBlock cfg env block s).2.files.card = s.files.card + 1 ∧
      (openBlock cfg env block s).2.capacity =
        (if env.truncate = true then s.capacity + cfg.blockSize else s.capacity) ∧
      ((openBlock cfg env block s).1 = .ok → env.truncate = true) := by
  have hcard : (insert ⟨block, true⟩ s.files).card = s.files.card + 1 :=
    Finset.card_insert_of_notMem hfile
  rw [openBlock, if_neg (not_not.mpr hcreate), if_neg hfile, truncateBlock]
  split_ifs with htruncate
  · exact ⟨hcard, rfl, fun _ => htruncate⟩
  · exact ⟨hcard, rfl, fun heq => by cases heq⟩

/-- **`NewBlock` and the counter.** -/
theorem newBlock_accounted_iff (hs : Accounted cfg s) :
    Accounted cfg (newBlock cfg m env block s).2 ↔ (Opens cfg m env block s → env.Counts block s) := by
  by_cases hopens : Opens cfg m env block s
  · have hs' : Accounted cfg (capacityCheck cfg m s).2 := by
      obtain ⟨hcap, hfiles⟩ := capacityCheck_frame cfg m s
      exact accounted_same hs hcap (by rw [hfiles])
    have hfiles := (capacityCheck_frame cfg m s).2
    rw [newBlock_of_opens hopens, NewEnv.Counts]
    by_cases hfile : ⟨block, true⟩ ∈ s.files
    · rw [← hfiles] at hfile
      obtain ⟨hsame, hcap, -⟩ := openBlock_exists cfg hopens.2.2.2.2 hfile
      rw [accounted_again_iff hs' hcap (by rw [hsame]), ← hfiles, if_pos hfile]
      simp [NewEnv.reuses, hopens, and_assoc]
    · rw [← hfiles] at hfile
      obtain ⟨hcard, hcap, -⟩ := openBlock_new cfg hopens.2.2.2.2 hfile
      rw [accounted_increase_iff hs' hcap hcard, ← hfiles, if_neg hfile]
      exact ⟨fun h _ => h, fun h => h hopens⟩
  · obtain ⟨-, hcap, hfiles⟩ := newBlock_of_not_opens hopens
    exact ⟨fun _ h => absurd h hopens, fun _ => accounted_same hs hcap (by rw [hfiles])⟩

/-! ## `CommitBlock` and the recycler -/

theorem capacity_decrease (s : State) (delta : UInt64) : (s.decreaseCapacity delta).capacity =
    if delta < s.capacity then s.capacity - delta else s.capacity := by
  unfold State.decreaseCapacity
  split_ifs <;> rfl

theorem files_decrease (s : State) (delta : UInt64) :
    (s.decreaseCapacity delta).files = s.files := by
  unfold State.decreaseCapacity
  split_ifs <;> rfl

theorem card_erase_add (files : Finset DataFile) (file : DataFile) :
    (files.erase file).card + (if file ∈ files then 1 else 0) = files.card := by
  split_ifs with hfile
  · exact Finset.card_erase_add_one hfile
  · rw [Finset.erase_eq_of_notMem hfile, Nat.add_zero]

theorem archiveBlock_cases (cfg : Config) (env : CommitEnv) (block : BlockId) (s : State) :
    (archiveBlock cfg env block s).2 =
      if env.archives cfg = true ∧ ⟨block, true⟩ ∈ s.files then
        s.rename ⟨block, true⟩ ⟨block, false⟩
      else s := by
  unfold archiveBlock
  have harchives : env.archives cfg = true ↔
      env.rename = true ∧ ¬(cfg.tempDumpDirEnable = true ∧ env.mkDir ≠ .ok ∧
        env.mkDir ≠ .duplicateKey) := by
    cases hdir : env.mkDir <;> cases htemp : cfg.tempDumpDirEnable <;>
      simp [CommitEnv.archives, hdir, htemp]
  by_cases hdir : cfg.tempDumpDirEnable = true ∧ env.mkDir ≠ .ok ∧ env.mkDir ≠ .duplicateKey
  · rw [if_pos hdir, if_neg fun h => (harchives.mp h.1).2 hdir]
  rw [if_neg hdir]
  by_cases hrename : env.rename = true
  · rw [if_neg (not_not.mpr hrename)]
    by_cases hfile : ⟨block, true⟩ ∈ s.files
    · rw [if_neg (not_not.mpr hfile), if_pos ⟨harchives.mpr ⟨hrename, hdir⟩, hfile⟩]
    · rw [if_pos hfile, if_neg fun h => hfile h.2]
  · rw [if_pos hrename, if_neg fun h => hrename (harchives.mp h.1).1]

theorem commitBlock_files (cfg : Config) (env : CommitEnv) (block : BlockId) (success : Bool)
    (s : State) : (commitBlock cfg env block success s).2.files =
      if (success && env.archives cfg) = true ∧ ⟨block, true⟩ ∈ s.files then
        insert ⟨block, false⟩ (s.files.erase ⟨block, true⟩)
      else s.files.erase ⟨block, true⟩ := by
  have hfiles : (commitBlock cfg env block success s).2.files =
      (if success = true then (archiveBlock cfg env block s).2 else s).files.erase
        ⟨block, true⟩ := by
    simp only [commitBlock, files_decrease, State.remove]
    cases success <;> rfl
  rw [hfiles]
  cases success with
  | false => rw [if_neg Bool.false_ne_true, if_neg fun h => Bool.false_ne_true h.1]
  | true =>
    rw [if_pos rfl, archiveBlock_cases, Bool.true_and]
    split_ifs with harchives
    · show (insert _ (s.files.erase _)).erase _ = _
      rw [Finset.erase_insert_of_ne (by simp), Finset.erase_idem]
    · rfl

theorem commitBlock_card (cfg : Config) (env : CommitEnv) (block : BlockId) (success : Bool)
    (s : State) : (commitBlock cfg env block success s).2.files.card +
      (if ⟨block, true⟩ ∈ s.files ∧
          ¬((success && env.archives cfg) = true ∧ ⟨block, false⟩ ∉ s.files) then 1 else 0) =
        s.files.card := by
  rw [commitBlock_files]
  by_cases hfile : ⟨block, true⟩ ∈ s.files
  · have herase := Finset.card_erase_add_one hfile
    have hmem : ⟨block, false⟩ ∈ s.files.erase ⟨block, true⟩ ↔ ⟨block, false⟩ ∈ s.files := by
      simp
    by_cases harchives : (success && env.archives cfg) = true
    · rw [if_pos ⟨harchives, hfile⟩]
      by_cases hold : ⟨block, false⟩ ∈ s.files
      · rw [if_pos ⟨hfile, fun h => h.2 hold⟩, Finset.insert_eq_of_mem (hmem.mpr hold), herase]
      · rw [if_neg fun h => h.2 ⟨harchives, hold⟩, Nat.add_zero,
          Finset.card_insert_of_notMem fun h => hold (hmem.mp h), herase]
    · rw [if_neg fun h => harchives h.1, if_pos ⟨hfile, fun h => harchives h.1⟩, herase]
  · rw [if_neg fun h => hfile h.2, if_neg fun h => hfile h.1, Finset.erase_eq_of_notMem hfile,
      Nat.add_zero]

theorem commitBlock_capacity (cfg : Config) (env : CommitEnv) (block : BlockId) (success : Bool)
    (s : State) : (commitBlock cfg env block success s).2.capacity =
      if cfg.blockSize < s.capacity then s.capacity - cfg.blockSize else s.capacity := by
  have hcap : (if success = true then (archiveBlock cfg env block s).2 else s).capacity =
      s.capacity := by
    rw [archiveBlock_cases]
    split_ifs <;> rfl
  have hcommit : (commitBlock cfg env block success s).2.capacity =
      (((if success = true then (archiveBlock cfg env block s).2 else s).remove
        ⟨block, true⟩).decreaseCapacity cfg.blockSize).capacity := by
    cases success <;> rfl
  rw [hcommit, capacity_decrease]
  simp only [State.remove, hcap]

/-- **`CommitBlock` and the counter.** -/
theorem commitBlock_accounted_iff {env : CommitEnv} {success : Bool} (hs : Accounted cfg s) :
    Accounted cfg (commitBlock cfg env block success s).2 ↔
      Booked cfg s (.commitBlock env block success) :=
  accounted_decrease_iff hs (commitBlock_capacity cfg env block success s)
    (commitBlock_card cfg env block success s)

/-- **The recycler and the counter.** -/
theorem recycleOne_accounted_iff {heap : TopNHeap BlockInfo} (hs : Accounted cfg s) :
    Accounted cfg (recycleOne cfg m heap s) ↔
      ∀ info, heap.top = some info → (cfg.blockSize < s.capacity ↔ info.path ∈ s.files) := by
  unfold recycleOne
  cases htop : heap.top with
  | none => exact ⟨(fun _ info h => by cases h), fun _ => hs⟩
  | some info =>
    have hiff : Accounted cfg (((s.remove info.path).decreaseCapacity cfg.blockSize).setRecycler m
        ⟨true, heap.pop cmpTimestamp⟩) ↔ (cfg.blockSize < s.capacity ↔ info.path ∈ s.files) := by
      refine accounted_decrease_iff hs (capacity_decrease (s.remove info.path) cfg.blockSize) ?_
      show ((s.remove info.path).decreaseCapacity cfg.blockSize).files.card + _ = _
      rw [files_decrease]
      exact card_erase_add s.files info.path
    refine hiff.trans ⟨fun h info' heq => ?_, fun h => h info rfl⟩
    cases heq
    exact h

/-! ## The run -/

/-- **The counter stays right in a step exactly if the step is booked.** -/
theorem step_accounted_iff {e : Event} (hs : Accounted cfg s) (h : step cfg s e = some s') :
    Accounted cfg s' ↔ Booked cfg s e := by
  cases e with
  | newBlock m env block =>
    cases h
    exact newBlock_accounted_iff hs
  | commitBlock env block success =>
    cases h
    exact commitBlock_accounted_iff hs
  | scan m found =>
    simp only [step] at h
    split_ifs at h
    cases h
    exact ⟨fun _ => trivial, fun _ => hs⟩
  | recycle m =>
    obtain ⟨heap, hheap, rfl⟩ := Option.map_eq_some_iff.mp h
    rw [recycleOne_accounted_iff hs, Booked, hheap]
    rfl

/-- Where a capacity is set, the block files fit into it. -/
def Bounded (cfg : Config) (s : State) : Prop :=
  cfg.storageCapacity ≠ 0 → cfg.blockSize.toNat * s.files.card ≤ cfg.storageCapacity.toNat

theorem toNat_space {n : Nat} (h : cfg.blockSize.toNat * n < UInt64.size) :
    (cfg.space n).toNat = cfg.blockSize.toNat * n := by
  rw [Config.space, UInt64.toNat_mul, UInt64.toNat_ofNat', Nat.mul_mod_mod, Nat.mod_eq_of_lt h]

theorem space_of_check (hs : Accounted cfg s) (hb : Bounded cfg s)
    (hcapacity : cfg.storageCapacity ≠ 0) (hle : cfg.blockSize ≤ cfg.storageCapacity)
    (hok : (capacityCheck cfg m s).1 = .ok) :
    cfg.blockSize.toNat * (s.files.card + 1) ≤ cfg.storageCapacity.toNat := by
  have hfit := hb hcapacity
  have hlt := cfg.storageCapacity.toNat_lt
  have hused : s.capacity.toNat = cfg.blockSize.toNat * s.files.card := by
    rw [accounted_iff.mp hs]
    exact toNat_space (Nat.lt_of_le_of_lt hfit hlt)
  have hcheck := UInt64.le_iff_toNat_le.mp (le_of_capacityCheck hcapacity hok)
  have hle' := UInt64.le_iff_toNat_le.mp hle
  rw [UInt64.toNat_sub_of_le _ _ hle, hused] at hcheck
  rw [Nat.mul_add, Nat.mul_one]
  omega

/-- **`NewBlock` and the capacity**: what it leaves behind fits, if it succeeds. -/
theorem newBlock_fits (hs : Accounted cfg s) (hb : Bounded cfg s)
    (hle : cfg.storageCapacity = 0 ∨ cfg.blockSize ≤ cfg.storageCapacity)
    (hok : (newBlock cfg m env block s).1 = .ok) : Bounded cfg (newBlock cfg m env block s).2 := by
  intro hcapacity
  by_cases hopens : Opens cfg m env block s
  · have hfiles := (capacityCheck_frame cfg m s).2
    rw [newBlock_of_opens hopens]
    by_cases hfile : ⟨block, true⟩ ∈ s.files
    · rw [← hfiles] at hfile
      rw [(openBlock_exists cfg hopens.2.2.2.2 hfile).1, hfiles]
      exact hb hcapacity
    · rw [← hfiles] at hfile
      rw [(openBlock_new cfg hopens.2.2.2.2 hfile).1, hfiles]
      exact space_of_check hs hb hcapacity (hle.resolve_left hcapacity) hopens.1
  · exact absurd hok (newBlock_of_not_opens hopens).1

theorem step_bounded {e : Event} (hs : Accounted cfg s) (hb : Bounded cfg s)
    (hle : cfg.storageCapacity = 0 ∨ cfg.blockSize ≤ cfg.storageCapacity)
    (hbooked : Booked cfg s e) (h : step cfg s e = some s') : Bounded cfg s' := by
  have hmono : s'.files.card ≤ s.files.card → Bounded cfg s' := by
    intro hcard hcapacity
    exact (Nat.mul_le_mul_left _ hcard).trans (hb hcapacity)
  cases e with
  | newBlock m env block =>
    cases h
    by_cases hopens : Opens cfg m env block s
    · have hcounts := hbooked hopens
      have hfiles := (capacityCheck_frame cfg m s).2
      by_cases hfile : ⟨block, true⟩ ∈ s.files
      · rw [← hfiles] at hfile
        refine hmono ?_
        rw [newBlock_of_opens hopens, (openBlock_exists cfg hopens.2.2.2.2 hfile).1, hfiles]
      · have htruncate : env.truncate = true := by
          rwa [NewEnv.Counts, if_neg hfile] at hcounts
        refine newBlock_fits hs hb hle ?_
        rw [← hfiles] at hfile
        rw [newBlock_of_opens hopens, openBlock, if_neg (not_not.mpr hopens.2.2.2.2), if_neg hfile,
          truncateBlock, if_pos htruncate]
    · refine hmono ?_
      rw [(newBlock_of_not_opens hopens).2.2]
  | commitBlock env block success =>
    cases h
    have hcard := commitBlock_card cfg env block success s
    exact hmono (by omega)
  | scan m found =>
    simp only [step] at h
    split_ifs at h
    cases h
    exact hb
  | recycle m =>
    obtain ⟨heap, -, rfl⟩ := Option.map_eq_some_iff.mp h
    refine hmono ?_
    unfold recycleOne
    cases heap.top with
    | none => exact Nat.le_refl _
    | some info =>
      show ((s.remove info.path).decreaseCapacity cfg.blockSize).files.card ≤ _
      rw [files_decrease]
      exact Finset.card_erase_le

/-- **The space of the storage is accounted for** in every run whose steps are all booked, if the
capacity is at least one block: the counter is the space of the block files, a step keeps it so
exactly if it is booked, and `NewBlock` succeeds only if the space in use afterwards is at most the
capacity. -/
theorem capacity_accounted (cfg : Config)
    (hcfg : cfg.storageCapacity = 0 ∨ cfg.blockSize ≤ cfg.storageCapacity) (s : State)
    (h : (machine cfg).Reach (Booked cfg) s) :
    s.capacity = cfg.blockSize * UInt64.ofNat s.files.card ∧
      (∀ e s', (machine cfg).step s e = some s' → (Accounted cfg s' ↔ Booked cfg s e)) ∧
      (cfg.storageCapacity ≠ 0 → ∀ m env block, (newBlock cfg m env block s).1 = .ok →
        cfg.blockSize.toNat * (newBlock cfg m env block s).2.files.card ≤
          cfg.storageCapacity.toNat) := by
  have hinv : Accounted cfg s ∧ Bounded cfg s := by
    refine h.inv (I := fun s => Accounted cfg s ∧ Bounded cfg s) ?_ fun s e s' hi hbooked hstep =>
      ⟨(step_accounted_iff hi.1 hstep).mpr hbooked, step_bounded hi.1 hi.2 hcfg hbooked hstep⟩
    rintro s rfl
    exact ⟨(UInt64.mul_zero).symm, fun _ => Nat.zero_le _⟩
  refine ⟨hinv.1, fun e s' hstep => step_accounted_iff hinv.1 hstep, ?_⟩
  intro hcapacity m env block hok
  exact newBlock_fits hinv.1 hinv.2 hcfg hok hcapacity

/-- Blocks of four bytes. -/
def Config.four (storageCapacity : UInt64) : Config where
  blockSize := 4
  storageCapacity := storageCapacity
  tempDumpDirEnable := false
  recycleEnable := false
  capacityRecycleThreshold := 0
  recycleNum := 1
  firstBackend := fun _ => true
  blockSize_ne := by decide

/-- The second of two new blocks is cancelled. -/
theorem capacity_accounted_cancel : ∃ s, (machine (.four 8)).Reach (Booked (.four 8)) s ∧
    s.files.card = 1 ∧ s.capacity = 4 * UInt64.ofNat s.files.card ∧
    ∀ m env block, (newBlock (.four 8) m env block s).1 = .ok →
      4 * (newBlock (.four 8) m env block s).2.files.card ≤ 8 := by
  obtain ⟨s, hreach, hp⟩ := Machine.exists_reach_of_run (M := machine (.four 8))
    (C := Booked (.four 8)) (s := .start) (l := [.newBlock 0 { } ⟨0, 1⟩, .newBlock 0 { } ⟨0, 2⟩,
      .commitBlock { } ⟨0, 2⟩ false]) (p := fun s => s.files.card = 1) rfl (by decide +kernel)
  obtain ⟨hcapacity, -, hfits⟩ :=
    capacity_accounted (.four 8) (.inr (by decide)) s hreach
  exact ⟨s, hreach, hp, hcapacity, hfits (by decide)⟩

/-- Committing a block gives its space back though the file stays, so that a third block fits where
there is room for two; and where there is no room for one, the first block fits. -/
theorem capacity_exceeded :
    (∃ s, (machine (.four 8)).Reachable s ∧ s.capacity = 4 ∧ s.files.card = 2 ∧
      (newBlock (.four 8) 0 { } ⟨0, 3⟩ s).1 = .ok ∧
      8 < 4 * (newBlock (.four 8) 0 { } ⟨0, 3⟩ s).2.files.card) ∧
    (newBlock (.four 2) 0 { } ⟨0, 1⟩ .start).1 = .ok ∧
      2 < 4 * (newBlock (.four 2) 0 { } ⟨0, 1⟩ .start).2.files.card := by
  refine ⟨?_, by decide +kernel⟩
  obtain ⟨s, hs, hp⟩ := Machine.exists_reachable_of_run (M := machine (.four 8)) (s := .start)
    (l := [.newBlock 0 { } ⟨0, 1⟩, .newBlock 0 { } ⟨0, 2⟩, .commitBlock { } ⟨0, 1⟩ true])
    (p := fun s => s.capacity = 4 ∧ s.files.card = 2 ∧ (newBlock (.four 8) 0 { } ⟨0, 3⟩ s).1 = .ok ∧
      8 < 4 * (newBlock (.four 8) 0 { } ⟨0, 3⟩ s).2.files.card) rfl (by decide +kernel)
  exact ⟨s, hs, hp⟩

end UnifiedCache.NfsStore
