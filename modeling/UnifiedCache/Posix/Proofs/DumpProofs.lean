import UnifiedCache.Posix.Dump
import UnifiedCache.Lib.Strides

/-!
# Proofs: what an archived file holds

A step of a unit does one of four things: it moves on without touching a file, opens the activated
file of its block, writes the next bytes of its shard, or commits. For every byte a unit has written,
the file holds the byte of a unit of the same shard that was not closed when this one opened the file
(`DumpInv.bytes`). Under the condition this makes a file complete when it is renamed, and what has it
open later can only write the same bytes again.
-/

open Lib

namespace UnifiedCache.Posix

variable {cfg : DumpConfig} {s s' : DumpState} {u u' v : DumpUnit}

/-! ## The steps of a unit -/

/-- What is known of a unit at each place. -/
def DumpUnit.PcOk (cfg : DumpConfig) (u : DumpUnit) : Prop :=
  match u.pc with
  | .check | .open => u.file = none ∧ u.written = 0
  | .write k => cfg.engine u.proc = .psync ∧ u.written = k * cfg.tensorSize
  | .openInsert | .contains | .submit | .inFlight => cfg.engine u.proc = .aio
  | .close _ | .commit _ | .remove _ | .insert | .submitInsert | .failClose | .failCommit
  | .ioInsert | .ioClose _ | .ioCommit _ | .done _ => True

/-- A unit writes inside of its shard. -/
structure DumpUnit.Ok (cfg : DumpConfig) (u : DumpUnit) : Prop where
  shard : cfg.ShardOk u.shard
  written : u.written ≤ cfg.shardSize
  pc : u.PcOk cfg

/-- A unit that moves on without opening or writing its file. -/
structure Quiet (u u' : DumpUnit) : Prop where
  id : u'.id = u.id
  proc : u'.proc = u.proc
  shard : u'.shard = u.shard
  file : u'.file = u.file
  written : u'.written = u.written
  before : u'.before = u.before
  closed : u.pc.closed = true → u'.pc.closed = true
  succeeded : u.pc.succeeded = true → u'.pc.succeeded = true

theorem Quiet.refl (u : DumpUnit) : Quiet u u :=
  ⟨rfl, rfl, rfl, rfl, rfl, rfl, fun h => h, fun h => h⟩

/-- What a step of unit `u`, which becomes `u'`, does to the files. -/
inductive UnitEffect (cfg : DumpConfig) (env : DumpEnv) (s s' : DumpState) (u u' : DumpUnit) :
    Prop where
  | quiet (hq : Quiet u u') (hfs : s'.fs = s.fs)
  | rename (hq : Quiet u u') (hpc : u.pc = .commit true) (hok : env.ok = true)
      (hfs : s.fs.rename (u.shard.owner, true) (u.shard.owner, false) = some s'.fs)
  | remove (hq : Quiet u u') (hfs : s'.fs = s.fs.remove (u.shard.owner, true))
  | open (pc : DumpPc) (hopen : u.pc.closed = false) (hfile : u.file = none)
      (hwritten : u.written = 0)
      (hu : u' = { u with
        pc := pc
        file := some (s.fs.openCreate (u.shard.owner, true)).1
        before := (s.units.filter fun v : DumpUnit => v.pc.closed).map DumpUnit.id })
      (hfs : s'.fs = (s.fs.openCreate (u.shard.owner, true)).2)
  | write (n len : Nat) (pc : DumpPc) (src : Nat → UInt8) (hfile : u.file = some n)
      (hopen : u.pc.closed = false) (hdone : u.pc.succeeded = false)
      (hlen : u.written + len ≤ cfg.shardSize)
      (hsrc : ∀ x < len, src x = cfg.payload u (u.written + x))
      (hu : u' = { u with pc := pc, written := u.written + len })
      (hfs : s'.fs = s.fs.pwrite n (u.shard.index * cfg.shardSize + u.written) len src)

/-- Unit `u` takes a step, which leaves the other units alone. -/
def UnitStep (cfg : DumpConfig) (env : DumpEnv) (s s' : DumpState) (u : DumpUnit) : Prop :=
  ∃ u', s'.units = s.units.set u.id u' ∧ u'.id = u.id ∧ u'.Ok cfg ∧ UnitEffect cfg env s s' u u'

theorem UnitStep.of_pc {env : DumpEnv} {pc : DumpPc}
    (hs : s'.units = s.units.set u.id { u with pc := pc }) (hfs : s'.fs = s.fs)
    (hu : u.Ok cfg) (hpc : ({ u with pc := pc } : DumpUnit).PcOk cfg)
    (hclosed : u.pc.closed = true → pc.closed = true)
    (hsucceeded : u.pc.succeeded = true → pc.succeeded = true) : UnitStep cfg env s s' u :=
  ⟨{ u with pc := pc }, hs, rfl, ⟨hu.shard, hu.written, hpc⟩,
    .quiet ⟨rfl, rfl, rfl, rfl, rfl, rfl, hclosed, hsucceeded⟩ hfs⟩

theorem payload_psync {k x addr : Nat} (heng : cfg.engine u.proc = .psync)
    (haddr : u.shard.addrs[k]? = some addr) (hx : x < cfg.tensorSize) :
    cfg.mem u.proc (addr + x) = cfg.payload u (k * cfg.tensorSize + x) := by
  simp only [DumpConfig.payload, heng, Strides.mul_add_div_of_lt hx, Nat.mul_add_mod_of_lt hx,
    List.getD_eq_getElem?_getD, haddr, Option.getD_some]

theorem written_add_tensor {k addr : Nat} (hs : cfg.ShardOk u.shard)
    (haddr : u.shard.addrs[k]? = some addr) :
    k * cfg.tensorSize + cfg.tensorSize ≤ cfg.shardSize := by
  have hk : k < u.shard.addrs.length := by
    obtain ⟨hk, -⟩ := List.getElem?_eq_some_iff.mp haddr
    exact hk
  calc k * cfg.tensorSize + cfg.tensorSize = (k + 1) * cfg.tensorSize := by
        rw [Nat.add_mul, Nat.one_mul]
    _ ≤ u.shard.addrs.length * cfg.tensorSize := Nat.mul_le_mul_right _ hk
    _ = cfg.shardSize := hs.2

theorem stepUnit_effect {env : DumpEnv} (hu : u.Ok cfg) (h : stepUnit cfg env u s = some s') :
    UnitStep cfg env s s' u := by
  rcases u with ⟨id, proc, owner, shard, pc, file, written, before⟩
  have hpc := hu.pc
  cases pc with
  | check | contains | submit =>
    simp only [stepUnit] at h
    split_ifs at h <;> cases h <;>
      exact .of_pc rfl rfl hu (by trivial) nofun nofun
  | «open» =>
    obtain ⟨hfile, hwritten⟩ := hpc
    simp only at hfile hwritten
    subst hfile hwritten
    simp only [stepUnit] at h
    split at h
    · next heng =>
      split_ifs at h
      · cases h
        refine ⟨_, rfl, rfl, ⟨hu.shard, Nat.zero_le _, ?_⟩, .open (.write 0) rfl rfl rfl rfl rfl⟩
        exact ⟨heng, (Nat.zero_mul _).symm⟩
      · cases h
        exact .of_pc rfl rfl hu trivial nofun nofun
    · next heng =>
      split_ifs at h
      · cases h
        exact ⟨_, rfl, rfl, ⟨hu.shard, Nat.zero_le _, heng⟩, .open .contains rfl rfl rfl rfl rfl⟩
      · cases h
        exact .of_pc rfl rfl hu heng nofun nofun
  | write k =>
    obtain ⟨heng, hwritten⟩ := hpc
    simp only at heng hwritten
    subst hwritten
    simp only [stepUnit] at h
    split at h
    · next addr n haddr =>
      have hroom := written_add_tensor hu.shard haddr
      have hsrc : ∀ x < cfg.tensorSize, cfg.mem proc (addr + x) = cfg.payload
          ⟨id, proc, owner, shard, .write k, some n, k * cfg.tensorSize, before⟩
          (k * cfg.tensorSize + x) := by
        intro x hx
        exact payload_psync
          (u := ⟨id, proc, owner, shard, .write k, some n, k * cfg.tensorSize, before⟩) heng haddr hx
      split_ifs at h with hbytes
      · cases h
        refine ⟨_, rfl, rfl, ⟨hu.shard, hroom, heng, ?_⟩,
          .write n cfg.tensorSize _ _ rfl rfl rfl hroom hsrc rfl rfl⟩
        rw [Nat.add_mul, Nat.one_mul]
      · cases h
        have hlen : k * cfg.tensorSize + env.bytes ≤ cfg.shardSize := by omega
        exact ⟨_, rfl, rfl, ⟨hu.shard, hlen, trivial⟩,
          .write n env.bytes _ _ rfl rfl rfl hlen (fun x hx => hsrc x (by omega)) rfl rfl⟩
    · cases h
      exact .of_pc rfl rfl hu trivial nofun nofun
    · cases h
  | close ok =>
    simp only [stepUnit] at h
    split_ifs at h with hlast hok
    · cases h
      exact .of_pc rfl rfl hu trivial nofun fun h => h
    · cases h
      exact .of_pc rfl rfl hu trivial nofun fun _ => rfl
    · cases h
      exact .of_pc rfl rfl hu trivial nofun fun h => absurd h hok
  | commit ok =>
    simp only [stepUnit] at h
    split_ifs at h with hok
    · subst hok
      split at h
      · next s₁ harch =>
        cases h
        unfold DumpState.archive at harch
        split_ifs at harch with henv
        obtain ⟨fs, hren, rfl⟩ := Option.map_eq_some_iff.mp harch
        exact ⟨_, rfl, rfl, ⟨hu.shard, hu.written, trivial⟩,
          .rename ⟨rfl, rfl, rfl, rfl, rfl, rfl, fun _ => rfl, fun _ => rfl⟩ rfl henv hren⟩
      · cases h
        exact .of_pc rfl rfl hu trivial (fun _ => rfl) fun _ => rfl
    · cases h
      exact .of_pc rfl rfl hu trivial (fun _ => rfl) fun h => absurd h hok
  | remove ok =>
    simp only [stepUnit, DumpState.removeActivated] at h
    split_ifs at h with hok henv henv
    · cases h
      exact ⟨_, rfl, rfl, ⟨hu.shard, hu.written, trivial⟩,
        .remove ⟨rfl, rfl, rfl, rfl, rfl, rfl, fun _ => rfl, fun _ => rfl⟩ rfl⟩
    · cases h
      exact .of_pc rfl rfl hu trivial (fun _ => rfl) fun _ => rfl
    · cases h
      exact ⟨_, rfl, rfl, ⟨hu.shard, hu.written, trivial⟩,
        .remove ⟨rfl, rfl, rfl, rfl, rfl, rfl, fun _ => rfl, fun h => absurd h hok⟩ rfl⟩
    · cases h
      exact .of_pc rfl rfl hu trivial (fun _ => rfl) fun h => absurd h hok
  | insert | failCommit =>
    cases h
    exact .of_pc rfl rfl hu trivial (fun _ => rfl) nofun
  | openInsert =>
    cases h
    exact .of_pc rfl rfl hu hpc nofun nofun
  | submitInsert | ioInsert =>
    cases h
    exact .of_pc rfl rfl hu trivial nofun nofun
  | failClose =>
    simp only [stepUnit] at h
    split_ifs at h <;> cases h <;> exact .of_pc rfl rfl hu trivial nofun nofun
  | inFlight =>
    have heng : cfg.engine proc = .aio := hpc
    simp only [stepUnit] at h
    split at h
    · cases h
    · next n =>
      have hbound := hu.written
      simp only at hbound
      have hlength : cfg.ioLength ≤ cfg.shardSize := Nat.mod_le _ _
      have hlen : written + min env.bytes (cfg.ioLength - written) ≤ cfg.shardSize := by omega
      have hsrc : ∀ x < min env.bytes (cfg.ioLength - written),
          cfg.mem proc (shard.addrs.headD 0 + written + x) = cfg.payload
            ⟨id, proc, owner, shard, .inFlight, some n, written, before⟩ (written + x) := by
        intro x _
        simp only [DumpConfig.payload, heng, Nat.add_assoc]
      split at h
      · cases h
        exact ⟨_, rfl, rfl, ⟨hu.shard, hlen, heng⟩,
          .write n _ _ _ rfl rfl rfl hlen hsrc rfl rfl⟩
      · cases h
        exact ⟨_, rfl, rfl, ⟨hu.shard, hlen, trivial⟩,
          .write n _ _ _ rfl rfl rfl hlen hsrc rfl rfl⟩
      · cases h
        exact ⟨_, rfl, rfl, ⟨hu.shard, hlen, trivial⟩,
          .write n _ _ _ rfl rfl rfl hlen hsrc rfl rfl⟩
  | ioClose ok =>
    simp only [stepUnit] at h
    split_ifs at h <;> cases h <;> exact .of_pc rfl rfl hu trivial nofun fun h => h
  | ioCommit ok =>
    cases h
    exact .of_pc rfl rfl hu trivial (fun _ => rfl) fun h => h
  | done ok => cases h

/-! ## The invariant -/

/-- A unit's number is its place. -/
def Numbered (l : List DumpUnit) : Prop := ∀ i (u : DumpUnit), l[i]? = some u → u.id = i

/-- The invariant of the files and the units. -/
structure DumpInv (cfg : DumpConfig) (s : DumpState) : Prop where
  fs : s.fs.Ok
  ids : Numbered s.units
  unit : ∀ u ∈ s.units, u.Ok cfg
  /-- Files that are open exist. -/
  bound : ∀ u ∈ s.units, ∀ n, u.file = some n → n < s.fs.next
  /-- A file belongs to one block. -/
  owner : ∀ u ∈ s.units, ∀ b a n, u.file = some n → s.fs.dir (b, a) = some n → u.shard.owner = b
  before : ∀ u ∈ s.units, ∀ j ∈ u.before, ∃ v ∈ s.units, v.id = j ∧ v.pc.closed = true
  /-- Where a unit has written, the file holds the byte of a unit of the same shard that was not
  closed before. -/
  bytes : ∀ u ∈ s.units, ∀ n, u.file = some n → ∀ x < u.written, ∃ v ∈ s.units,
    v.file = some n ∧ v.shard.index = u.shard.index ∧ v.id ∉ u.before ∧
      s.fs.files n (u.shard.index * cfg.shardSize + x) = some (cfg.payload v x)
  /-- The shards of an archived file are complete, and who has the file open does not change them. -/
  archived : ∀ b n, s.fs.dir (b, false) = some n → ∀ i < cfg.nShardPerBlock, ∃ u ∈ s.units,
    u.Complete cfg ∧ u.shard.owner = b ∧ u.shard.index = i ∧ Holds cfg s n i u ∧
      ∀ v ∈ s.units, v.file = some n → v.shard.index = i → v.pc.closed = false → SameData cfg v u

variable {l : List DumpUnit}

theorem Numbered.eq_of_id (hids : Numbered l) (hu : u ∈ l) (hv : v ∈ l) (h : u.id = v.id) :
    u = v := by
  obtain ⟨i, hi⟩ := List.getElem?_of_mem hu
  obtain ⟨j, hj⟩ := List.getElem?_of_mem hv
  have hij : i = j := by rw [← hids i u hi, ← hids j v hj, h]
  subst hij
  rw [hi] at hj
  exact Option.some.inj hj

theorem DumpInv.not_before (hi : DumpInv cfg s) (hu : u ∈ s.units) (hv : v ∈ s.units)
    (hopen : v.pc.closed = false) : v.id ∉ u.before := by
  intro hmem
  obtain ⟨w, hw, hid, hclosed⟩ := hi.before u hu _ hmem
  rw [hi.ids.eq_of_id hw hv hid, hopen] at hclosed
  cases hclosed

theorem mem_set_unit (hids : Numbered l) (hu : l[u.id]? = some u) {w : DumpUnit} :
    w ∈ l.set u.id u' ↔ w = u' ∨ (w ∈ l ∧ w.id ≠ u.id) := by
  constructor
  · intro hw
    obtain ⟨i, hi⟩ := List.getElem?_of_mem hw
    rw [List.getElem?_set] at hi
    split_ifs at hi with hui hlt
    · exact .inl (Option.some.inj hi).symm
    · refine .inr ⟨List.mem_of_getElem? hi, ?_⟩
      rw [hids i w hi]
      exact Ne.symm hui
  · rintro (rfl | ⟨hw, hne⟩)
    · obtain ⟨hlt, -⟩ := List.getElem?_eq_some_iff.mp hu
      exact List.mem_set hlt _
    · obtain ⟨i, hi⟩ := List.getElem?_of_mem hw
      have hid := hids i w hi
      refine List.mem_of_getElem? (i := i) ?_
      rw [List.getElem?_set_ne, hi]
      rw [← hid]
      exact Ne.symm hne

theorem Numbered.set (hids : Numbered l) (hid : u'.id = u.id) :
    Numbered (l.set u.id u') := by
  intro i w hw
  rw [List.getElem?_set] at hw
  split_ifs at hw with hui hlt
  · cases hw
    rw [hid, hui]
  · exact hids i w hw

/-- The units after a step in which all of them are quiet. -/
structure QuietUnits (l l' : List DumpUnit) : Prop where
  back : ∀ u' ∈ l', ∃ u ∈ l, Quiet u u'
  forth : ∀ u ∈ l, ∃ u' ∈ l', Quiet u u'

theorem QuietUnits.refl (l : List DumpUnit) : QuietUnits l l :=
  ⟨fun u hu => ⟨u, hu, .refl u⟩, fun u hu => ⟨u, hu, .refl u⟩⟩

theorem QuietUnits.set (hids : Numbered l) (hu : l[u.id]? = some u) (hq : Quiet u u') :
    QuietUnits l (l.set u.id u') := by
  constructor
  · intro w hw
    rcases (mem_set_unit hids hu).mp hw with rfl | ⟨hw, -⟩
    · exact ⟨u, List.mem_of_getElem? hu, hq⟩
    · exact ⟨w, hw, .refl w⟩
  · intro w hw
    by_cases hid : w.id = u.id
    · obtain ⟨i, hi⟩ := List.getElem?_of_mem hw
      have hi' := hids i w hi
      rw [← hi', hid, hu] at hi
      cases hi
      exact ⟨u', (mem_set_unit hids hu).mpr (.inl rfl), hq⟩
    · exact ⟨w, (mem_set_unit hids hu).mpr (.inr ⟨hw, hid⟩), .refl w⟩

/-! ## Steps that write no file -/

theorem Quiet.payload (h : Quiet u u') : cfg.payload u' = cfg.payload u := by
  funext x
  simp only [DumpConfig.payload, h.proc, h.shard]

theorem Quiet.complete (h : Quiet u u') (hc : u.Complete cfg) : u'.Complete cfg :=
  ⟨h.succeeded hc.1, by rw [h.written, hc.2]⟩

theorem DumpInv.holds_of_complete (hi : DumpInv cfg s) {n : Nat} (hu : u ∈ s.units)
    (hc : u.Complete cfg) (hfile : u.file = some n) (hp : Prevails cfg s u) :
    Holds cfg s n u.shard.index u := by
  intro x hx
  obtain ⟨v, hv, hvfile, hvindex, hbefore, hbyte⟩ := hi.bytes u hu n hfile x (by rw [hc.2]; exact hx)
  rw [hbyte]
  rcases hp v hv (by rw [hvfile, hfile]) hvindex with hid | hmem | hsame
  · rw [hi.ids.eq_of_id hv hu hid]
  · exact absurd hmem hbefore
  · rw [hsame x hx]

theorem DumpInv.quiet (hi : DumpInv cfg s) (hq : QuietUnits s.units s'.units)
    (hids : Numbered s'.units) (hunit : ∀ u ∈ s'.units, u.Ok cfg) (hfs : s'.fs.Ok)
    (hfiles : s'.fs.files = s.fs.files) (hnext : s'.fs.next = s.fs.next)
    (hdir : ∀ b a n, s'.fs.dir (b, a) = some n → s.fs.dir (b, a) = some n ∨
      (a = false ∧ s.fs.dir (b, true) = some n ∧ ActivatedComplete cfg s b)) : DumpInv cfg s' where
  fs := hfs
  ids := hids
  unit := hunit
  bound := by
    intro u' hu' n hn
    obtain ⟨u, hu, h⟩ := hq.back u' hu'
    rw [hnext]
    exact hi.bound u hu n (by rw [← h.file, hn])
  owner := by
    intro u' hu' b a n hn hb
    obtain ⟨u, hu, h⟩ := hq.back u' hu'
    rw [h.shard]
    rw [h.file] at hn
    rcases hdir b a n hb with hold | ⟨-, hold, -⟩
    · exact hi.owner u hu b a n hn hold
    · exact hi.owner u hu b true n hn hold
  before := by
    intro u' hu' j hj
    obtain ⟨u, hu, h⟩ := hq.back u' hu'
    rw [h.before] at hj
    obtain ⟨v, hv, hid, hclosed⟩ := hi.before u hu j hj
    obtain ⟨v', hv', hvq⟩ := hq.forth v hv
    exact ⟨v', hv', by rw [hvq.id, hid], hvq.closed hclosed⟩
  bytes := by
    intro u' hu' n hn x hx
    obtain ⟨u, hu, h⟩ := hq.back u' hu'
    rw [h.file] at hn
    rw [h.written] at hx
    obtain ⟨v, hv, hvfile, hvindex, hbefore, hbyte⟩ := hi.bytes u hu n hn x hx
    obtain ⟨v', hv', hvq⟩ := hq.forth v hv
    refine ⟨v', hv', by rw [hvq.file, hvfile], by rw [hvq.shard, h.shard, hvindex], ?_, ?_⟩
    · rw [hvq.id, h.before]
      exact hbefore
    · rw [hfiles, h.shard, hvq.payload, hbyte]
  archived := by
    intro b n hb i hn
    have hold : ∃ u ∈ s.units, u.Complete cfg ∧ u.shard.owner = b ∧ u.shard.index = i ∧
        Holds cfg s n i u ∧ ∀ v ∈ s.units, v.file = some n → v.shard.index = i →
          v.pc.closed = false → SameData cfg v u := by
      rcases hdir b false n hb with hold | ⟨-, hold, hcomplete⟩
      · exact hi.archived b n hold i hn
      · obtain ⟨u, hu, hc, rfl, hfile, hp⟩ := hcomplete i hn
        rw [hold] at hfile
        refine ⟨u, hu, hc, hi.owner u hu b true n hfile hold, rfl,
          hi.holds_of_complete hu hc hfile hp, ?_⟩
        intro v hv hvfile hvindex hopen
        rcases hp v hv (by rw [hvfile, hfile]) hvindex with hid | hmem | hsame
        · rw [hi.ids.eq_of_id hv hu hid]
          exact fun _ _ => rfl
        · exact absurd hmem (hi.not_before hu hv hopen)
        · exact hsame
    obtain ⟨u, hu, hc, hub, hui, hholds, hothers⟩ := hold
    obtain ⟨u', hu', h⟩ := hq.forth u hu
    refine ⟨u', hu', h.complete hc, by rw [h.shard, hub], by rw [h.shard, hui], ?_, ?_⟩
    · intro x hx
      rw [hfiles, h.payload]
      exact hholds x hx
    · intro v' hv' hvfile hvindex hopen x hx
      obtain ⟨v, hv, hvq⟩ := hq.back v' hv'
      have hopen' : v.pc.closed = false := by
        by_contra hclosed
        have := hvq.closed (by simpa using hclosed)
        rw [hopen] at this
        cases this
      rw [hvq.payload, h.payload]
      exact hothers v hv (by rw [← hvq.file, hvfile]) (by rw [← hvq.shard, hvindex]) hopen' x hx

/-! ## Opening -/

theorem DumpUnit.Complete.written_pos (h : u.Complete cfg) : 0 < u.written := by
  have h1 := cfg.tensor_pos
  have h2 := cfg.tensor_le
  rw [h.2]
  omega

theorem DumpInv.open (hi : DumpInv cfg s) (hu : s.units[u.id]? = some u) (hid : u'.id = u.id)
    (hok : u'.Ok cfg) (hopen : u.pc.closed = false) (hfile : u.file = none) (hwritten : u.written = 0)
    (hshard : u'.shard = u.shard) (hwritten' : u'.written = 0)
    (hfile' : u'.file = some (s.fs.openCreate (u.shard.owner, true)).1)
    (hbefore' : u'.before = (s.units.filter fun v : DumpUnit => v.pc.closed).map DumpUnit.id)
    (hunits : s'.units = s.units.set u.id u')
    (hfs : s'.fs = (s.fs.openCreate (u.shard.owner, true)).2) : DumpInv cfg s' := by
  have hmem := List.mem_of_getElem? hu
  have hset : ∀ w, w ∈ s'.units ↔ w = u' ∨ (w ∈ s.units ∧ w.id ≠ u.id) := by
    intro w
    rw [hunits]
    exact mem_set_unit hi.ids hu
  have hfsok : s'.fs.Ok := by
    rw [hfs]
    exact hi.fs.openCreate
  have hname : s'.fs.dir (u.shard.owner, true) = u'.file := by
    rw [hfs, hfile']
    exact FileSystem.dir_openCreate
  have hfiles : s'.fs.files = s.fs.files := by rw [hfs, FileSystem.files_openCreate]
  have harch : ∀ b, s'.fs.dir (b, false) = s.fs.dir (b, false) := by
    intro b
    rw [hfs]
    exact FileSystem.dir_openCreate_of_ne (by simp)
  refine ⟨hfsok, ?_, ?_, ?_, ?_, ?_, ?_, ?_⟩
  · rw [hunits]
    exact hi.ids.set hid
  · intro w hw
    rcases (hset w).mp hw with rfl | ⟨hw, -⟩
    · exact hok
    · exact hi.unit w hw
  · intro w hw n hn
    rcases (hset w).mp hw with rfl | ⟨hw, -⟩
    · exact hfsok.lt_next _ n (by rw [hname, hn])
    · have hlt := hi.bound w hw n hn
      rcases FileSystem.openCreate_cases s.fs (u.shard.owner, true) with
        ⟨-, heq⟩ | ⟨-, -, hnext⟩
      · rw [hfs, heq]
        exact hlt
      · rw [hfs, hnext]
        omega
  · intro w hw b a n hn hb
    rcases (hset w).mp hw with rfl | ⟨hw, -⟩
    · have := hfsok.unique _ _ n (hname.trans hn) hb
      cases this
      rw [hshard]
    · by_cases hba : (b, a) = (u.shard.owner, true)
      · rw [hba] at hb
        rcases FileSystem.openCreate_cases s.fs (u.shard.owner, true) with
          ⟨-, heq⟩ | ⟨-, hnew, -⟩
        · rw [hfs, heq, ← hba] at hb
          exact hi.owner w hw b a n hn hb
        · rw [hname, hfile', hnew] at hb
          cases hb
          exact absurd (hi.bound w hw _ hn) (lt_irrefl _)
      · rw [hfs, FileSystem.dir_openCreate_of_ne hba] at hb
        exact hi.owner w hw b a n hn hb
  · have hkeep : ∀ v ∈ s.units, v.pc.closed = true → v ∈ s'.units := by
      intro v hv hclosed
      refine (hset v).mpr (.inr ⟨hv, fun hvid => ?_⟩)
      rw [hi.ids.eq_of_id hv hmem hvid, hopen] at hclosed
      cases hclosed
    intro w hw j hj
    rcases (hset w).mp hw with rfl | ⟨hw, -⟩
    · rw [hbefore'] at hj
      obtain ⟨v, hv, rfl⟩ := List.mem_map.mp hj
      obtain ⟨hv, hclosed⟩ := List.mem_filter.mp hv
      exact ⟨v, hkeep v hv hclosed, rfl, hclosed⟩
    · obtain ⟨v, hv, hvid, hclosed⟩ := hi.before w hw j hj
      exact ⟨v, hkeep v hv hclosed, hvid, hclosed⟩
  · intro w hw n hn x hx
    rcases (hset w).mp hw with rfl | ⟨hw, -⟩
    · omega
    · obtain ⟨v, hv, hvfile, hvindex, hbefore, hbyte⟩ := hi.bytes w hw n hn x hx
      refine ⟨v, (hset v).mpr (.inr ⟨hv, fun hvid => ?_⟩), hvfile, hvindex, hbefore, ?_⟩
      · rw [hi.ids.eq_of_id hv hmem hvid, hfile] at hvfile
        cases hvfile
      · rw [hfiles, hbyte]
  · intro b n hb i hn
    rw [harch] at hb
    obtain ⟨w, hw, hc, hwb, hwi, hholds, hothers⟩ := hi.archived b n hb i hn
    refine ⟨w, (hset w).mpr (.inr ⟨hw, fun hwid => ?_⟩), hc, hwb, hwi, ?_, ?_⟩
    · have hpos := hc.written_pos
      rw [hi.ids.eq_of_id hw hmem hwid] at hpos
      omega
    · intro x hx
      rw [hfiles]
      exact hholds x hx
    · intro v hv hvfile hvindex hvopen
      rcases (hset v).mp hv with rfl | ⟨hv, -⟩
      · rw [← harch] at hb
        have := hfsok.unique _ _ n hb (hname.trans hvfile)
        simp at this
      · exact hothers v hv hvfile hvindex hvopen

/-! ## Writing -/

theorem shard_of_covered {size i j x w len : Nat} (hx : x < size) (hw : w + len ≤ size)
    (h : j * size + w ≤ i * size + x ∧ i * size + x < j * size + w + len) :
    i = j ∧ w ≤ x ∧ x < w + len := by
  have hij : i = j := by
    rcases Nat.lt_trichotomy i j with hlt | heq | hlt
    · have := Nat.mul_le_mul_right size (Nat.succ_le_of_lt hlt)
      rw [Nat.succ_mul] at this
      omega
    · exact heq
    · have := Nat.mul_le_mul_right size (Nat.succ_le_of_lt hlt)
      rw [Nat.succ_mul] at this
      omega
  subst hij
  omega

theorem DumpInv.write (hi : DumpInv cfg s) (hu : s.units[u.id]? = some u) {n len : Nat} {pc : DumpPc}
    {src : Nat → UInt8} (hfile : u.file = some n) (hopen : u.pc.closed = false)
    (hdone : u.pc.succeeded = false) (hlen : u.written + len ≤ cfg.shardSize)
    (hsrc : ∀ x < len, src x = cfg.payload u (u.written + x))
    (hok : ({ u with pc := pc, written := u.written + len } : DumpUnit).Ok cfg)
    (hunits : s'.units = s.units.set u.id { u with pc := pc, written := u.written + len })
    (hfs : s'.fs = s.fs.pwrite n (u.shard.index * cfg.shardSize + u.written) len src) :
    DumpInv cfg s' := by
  have hmem := List.mem_of_getElem? hu
  have hset : ∀ w, w ∈ s'.units ↔ w = { u with pc := pc, written := u.written + len } ∨
      (w ∈ s.units ∧ w.id ≠ u.id) := by
    intro w
    rw [hunits]
    exact mem_set_unit hi.ids hu
  -- The writer stands for itself, every other unit for itself as well.
  have hforth : ∀ v ∈ s.units, ∃ v' ∈ s'.units, v'.id = v.id ∧ v'.file = v.file ∧
      v'.shard = v.shard ∧ cfg.payload v' = cfg.payload v := by
    intro v hv
    by_cases hvid : v.id = u.id
    · obtain rfl := hi.ids.eq_of_id hv hmem hvid
      exact ⟨_, (hset _).mpr (.inl rfl), rfl, rfl, rfl, rfl⟩
    · exact ⟨v, (hset v).mpr (.inr ⟨hv, hvid⟩), rfl, rfl, rfl, rfl⟩
  have hnew : ∀ x, u.written ≤ x → x < u.written + len →
      s'.fs.files n (u.shard.index * cfg.shardSize + x) = some (cfg.payload u x) := by
    intro x hlo hhi
    obtain ⟨y, rfl⟩ := Nat.exists_eq_add_of_le hlo
    rw [hfs, ← Nat.add_assoc, FileSystem.files_pwrite (by omega), hsrc y (by omega)]
  have hkept : ∀ m i x, x < cfg.shardSize → ¬(m = n ∧ i = u.shard.index ∧ u.written ≤ x ∧
      x < u.written + len) → s'.fs.files m (i * cfg.shardSize + x) =
        s.fs.files m (i * cfg.shardSize + x) := by
    intro m i x hx hnot
    rw [hfs]
    refine FileSystem.files_pwrite_of_not fun hm hcovered => hnot ⟨hm, ?_⟩
    exact shard_of_covered hx hlen hcovered
  have hself : ∀ w ∈ s.units, u.id ∉ w.before := fun w hw => hi.not_before hw hmem hopen
  refine ⟨?_, ?_, ?_, ?_, ?_, ?_, ?_, ?_⟩
  · rw [hfs]
    exact hi.fs.pwrite
  · rw [hunits]
    exact hi.ids.set rfl
  · intro w hw
    rcases (hset w).mp hw with rfl | ⟨hw, -⟩
    · exact hok
    · exact hi.unit w hw
  · intro w hw m hm
    rw [hfs]
    rcases (hset w).mp hw with rfl | ⟨hw, -⟩
    · exact hi.bound u hmem m hm
    · exact hi.bound w hw m hm
  · intro w hw b a m hm hb
    rw [hfs] at hb
    rcases (hset w).mp hw with rfl | ⟨hw, -⟩
    · exact hi.owner u hmem b a m hm hb
    · exact hi.owner w hw b a m hm hb
  · have hkeep : ∀ v ∈ s.units, v.pc.closed = true → v ∈ s'.units := by
      intro v hv hclosed
      refine (hset v).mpr (.inr ⟨hv, fun hvid => ?_⟩)
      rw [hi.ids.eq_of_id hv hmem hvid, hopen] at hclosed
      cases hclosed
    have hold : ∀ w ∈ s.units, ∀ j ∈ w.before, ∃ v ∈ s'.units, v.id = j ∧ v.pc.closed = true := by
      intro w hw j hj
      obtain ⟨v, hv, hvid, hclosed⟩ := hi.before w hw j hj
      exact ⟨v, hkeep v hv hclosed, hvid, hclosed⟩
    intro w hw j hj
    rcases (hset w).mp hw with rfl | ⟨hw, -⟩
    · exact hold u hmem j hj
    · exact hold w hw j hj
  · have hold : ∀ w ∈ s.units, ∀ m, w.file = some m → ∀ x < w.written, ∃ v ∈ s'.units,
        v.file = some m ∧ v.shard.index = w.shard.index ∧ v.id ∉ w.before ∧
          s'.fs.files m (w.shard.index * cfg.shardSize + x) = some (cfg.payload v x) := by
      intro w hw m hm x hx
      by_cases hcovered : m = n ∧ w.shard.index = u.shard.index ∧ u.written ≤ x ∧
          x < u.written + len
      · obtain ⟨rfl, hindex, hlo, hhi⟩ := hcovered
        refine ⟨_, (hset _).mpr (.inl rfl), hfile, hindex.symm, hself w hw, ?_⟩
        rw [hindex]
        exact hnew x hlo hhi
      · obtain ⟨v, hv, hvfile, hvindex, hbefore, hbyte⟩ := hi.bytes w hw m hm x hx
        obtain ⟨v', hv', hid', hfile', hshard', hpayload'⟩ := hforth v hv
        refine ⟨v', hv', by rw [hfile', hvfile], by rw [hshard', hvindex], ?_, ?_⟩
        · rw [hid']
          exact hbefore
        · have hbound := (hi.unit w hw).written
          rw [hkept m _ x (by omega) hcovered, hbyte, hpayload']
    intro w hw m hm x hx
    rcases (hset w).mp hw with rfl | ⟨hw, -⟩
    · by_cases hlo : u.written ≤ x
      · have hmn : m = n := by
          have : some m = some n := by rw [← hfile, ← hm]
          exact Option.some.inj this
        subst hmn
        exact ⟨_, (hset _).mpr (.inl rfl), hfile, rfl, hself u hmem, hnew x hlo hx⟩
      · exact hold u hmem m hm x (by omega)
    · exact hold w hw m hm x hx
  · intro b m hb i hn
    rw [hfs] at hb
    obtain ⟨w, hw, hc, hwb, hwi, hholds, hothers⟩ := hi.archived b m hb i hn
    refine ⟨w, (hset w).mpr (.inr ⟨hw, fun hwid => ?_⟩), hc, hwb, hwi, ?_, ?_⟩
    · have := hc.1
      rw [hi.ids.eq_of_id hw hmem hwid, hdone] at this
      cases this
    · intro x hx
      by_cases hcovered : m = n ∧ i = u.shard.index ∧ u.written ≤ x ∧ x < u.written + len
      · obtain ⟨rfl, rfl, hlo, hhi⟩ := hcovered
        rw [hnew x hlo hhi, hothers u hmem hfile rfl hopen x hx]
      · rw [hkept m i x hx hcovered]
        exact hholds x hx
    · intro v hv hvfile hvindex hvopen
      rcases (hset v).mp hv with rfl | ⟨hv, -⟩
      · exact hothers u hmem hvfile hvindex hopen
      · exact hothers v hv hvfile hvindex hvopen

/-! ## Submitting -/

variable {desc : List Shard}

theorem mem_dumpUnits {p owner id : Nat} (h : u ∈ dumpUnits cfg p owner id desc) :
    u.shard ∈ desc ∧ u.file = none ∧ u.written = 0 ∧ u.before = [] ∧
      u.pc = (cfg.engine p).start := by
  obtain ⟨⟨shard, i⟩, hmem, rfl⟩ := List.mem_map.mp h
  exact ⟨List.fst_mem_of_mem_zipIdx hmem, rfl, rfl, rfl, rfl⟩

theorem ok_of_mem_dumpUnits {p owner id : Nat} (hdesc : ∀ shard ∈ desc, cfg.ShardOk shard)
    (h : u ∈ dumpUnits cfg p owner id desc) :
    u.Ok cfg := by
  obtain ⟨hshard, hfile, hwritten, -, hpc⟩ := mem_dumpUnits h
  refine ⟨hdesc _ hshard, by omega, ?_⟩
  unfold DumpUnit.PcOk
  rw [hpc]
  cases cfg.engine p <;> exact ⟨hfile, hwritten⟩

theorem Numbered.append (hids : Numbered l) {p owner : Nat} :
    Numbered (l ++ dumpUnits cfg p owner l.length desc) := by
  intro i w hw
  rcases Nat.lt_or_ge i l.length with hlt | hge
  · rw [List.getElem?_append_left hlt] at hw
    exact hids i w hw
  · rw [List.getElem?_append_right hge, dumpUnits, List.getElem?_map, List.getElem?_zipIdx] at hw
    obtain ⟨⟨shard, j⟩, hj, rfl⟩ := Option.map_eq_some_iff.mp hw
    obtain ⟨shard', -, heq⟩ := Option.map_eq_some_iff.mp hj
    cases heq
    show l.length + (0 + (i - l.length)) = i
    omega

theorem DumpInv.submit (hi : DumpInv cfg s) {p owner : Nat}
    (hdesc : ∀ shard ∈ desc, cfg.ShardOk shard)
    (hunits : s'.units = s.units ++ dumpUnits cfg p owner s.units.length desc)
    (hfs : s'.fs = s.fs) : DumpInv cfg s' := by
  have hold : ∀ u ∈ s.units, u ∈ s'.units := by
    intro u hu
    rw [hunits]
    exact List.mem_append_left _ hu
  have hcases : ∀ u ∈ s'.units, u ∈ s.units ∨ u ∈ dumpUnits cfg p owner s.units.length desc := by
    intro u hu
    rw [hunits] at hu
    exact List.mem_append.mp hu
  refine ⟨by rw [hfs]; exact hi.fs, ?_, ?_, ?_, ?_, ?_, ?_, ?_⟩
  · rw [hunits]
    exact hi.ids.append
  · intro u hu
    rcases hcases u hu with hu | hu
    · exact hi.unit u hu
    · exact ok_of_mem_dumpUnits hdesc hu
  · intro u hu n hn
    rw [hfs]
    rcases hcases u hu with hu | hu
    · exact hi.bound u hu n hn
    · rw [(mem_dumpUnits hu).2.1] at hn
      cases hn
  · intro u hu b a n hn hb
    rw [hfs] at hb
    rcases hcases u hu with hu | hu
    · exact hi.owner u hu b a n hn hb
    · rw [(mem_dumpUnits hu).2.1] at hn
      cases hn
  · intro u hu j hj
    rcases hcases u hu with hu | hu
    · obtain ⟨v, hv, hid, hclosed⟩ := hi.before u hu j hj
      exact ⟨v, hold v hv, hid, hclosed⟩
    · rw [(mem_dumpUnits hu).2.2.2.1] at hj
      cases hj
  · intro u hu n hn x hx
    rcases hcases u hu with hu | hu
    · obtain ⟨v, hv, hvfile, hvindex, hbefore, hbyte⟩ := hi.bytes u hu n hn x hx
      exact ⟨v, hold v hv, hvfile, hvindex, hbefore, by rw [hfs, hbyte]⟩
    · rw [(mem_dumpUnits hu).2.1] at hn
      cases hn
  · intro b n hb i hn
    rw [hfs] at hb
    obtain ⟨u, hu, hc, hub, hui, hholds, hothers⟩ := hi.archived b n hb i hn
    refine ⟨u, hold u hu, hc, hub, hui, ?_, ?_⟩
    · intro x hx
      rw [hfs]
      exact hholds x hx
    · intro v hv hvfile hvindex hvopen
      rcases hcases v hv with hv | hv
      · exact hothers v hv hvfile hvindex hvopen
      · rw [(mem_dumpUnits hv).2.1] at hvfile
        cases hvfile

/-! ## Runs -/

theorem DumpInv.rename (hi : DumpInv cfg s) (hq : QuietUnits s.units s'.units)
    (hids : Numbered s'.units) (hunit : ∀ u ∈ s'.units, u.Ok cfg) {b : BlockId}
    (hcomplete : ActivatedComplete cfg s b)
    (hren : s.fs.rename (b, true) (b, false) = some s'.fs) : DumpInv cfg s' := by
  have hne : ((b, true) : DataFile) ≠ (b, false) := by simp
  obtain ⟨n, hn, hnew, hfree, hother, hfiles, hnext⟩ := FileSystem.dir_rename hne hren
  refine hi.quiet hq hids hunit (hi.fs.rename hne hren) hfiles hnext ?_
  intro c a m hc
  by_cases hold : ((c, a) : DataFile) = (b, false)
  · cases hold
    rw [hnew] at hc
    cases hc
    exact .inr ⟨rfl, hn, hcomplete⟩
  · by_cases hact : ((c, a) : DataFile) = (b, true)
    · cases hact
      rw [hfree] at hc
      cases hc
    · rw [hother _ hact hold] at hc
      exact .inl hc

theorem DumpInv.remove (hi : DumpInv cfg s) (hq : QuietUnits s.units s'.units)
    (hids : Numbered s'.units) (hunit : ∀ u ∈ s'.units, u.Ok cfg) {b : BlockId}
    (hfs : s'.fs = s.fs.remove (b, true)) : DumpInv cfg s' := by
  refine hi.quiet hq hids hunit (by rw [hfs]; exact hi.fs.remove) (by rw [hfs]; rfl)
    (by rw [hfs]; rfl) ?_
  intro c a m hc
  rw [hfs] at hc
  by_cases hact : ((c, a) : DataFile) = (b, true)
  · cases hact
    simp [FileSystem.remove] at hc
  · simp only [FileSystem.remove, Function.update_of_ne hact] at hc
    exact .inl hc

theorem DumpInv.of_eq (hi : DumpInv cfg s) (hunits : s'.units = s.units) (hfs : s'.fs = s.fs) :
    DumpInv cfg s' := by
  refine hi.quiet ?_ ?_ ?_ ?_ (by rw [hfs]) (by rw [hfs]) ?_
  · rw [hunits]
    exact .refl _
  · rw [hunits]
    exact hi.ids
  · rw [hunits]
    exact hi.unit
  · rw [hfs]
    exact hi.fs
  · intro b a n hb
    rw [hfs] at hb
    exact .inl hb

theorem stepUnit_inv {env : DumpEnv} (hi : DumpInv cfg s) (hu : s.units[u.id]? = some u)
    (hcommit : CommitsComplete cfg s (.unit u.id env)) (h : stepUnit cfg env u s = some s') :
    DumpInv cfg s' := by
  obtain ⟨u', hunits, hid, hok, heffect⟩ := stepUnit_effect (hi.unit u (List.mem_of_getElem? hu)) h
  have hids : Numbered s'.units := by
    rw [hunits]
    exact hi.ids.set hid
  have hunit : ∀ w ∈ s'.units, w.Ok cfg := by
    intro w hw
    rw [hunits] at hw
    rcases (mem_set_unit hi.ids hu).mp hw with rfl | ⟨hw, -⟩
    · exact hok
    · exact hi.unit w hw
  have hquiet : Quiet u u' → QuietUnits s.units s'.units := by
    intro hq
    rw [hunits]
    exact .set hi.ids hu hq
  cases heffect with
  | quiet hq hfs =>
    refine hi.quiet (hquiet hq) hids hunit (by rw [hfs]; exact hi.fs) (by rw [hfs]) (by rw [hfs]) ?_
    intro b a n hb
    rw [hfs] at hb
    exact .inl hb
  | rename hq hpc henv hfs =>
    refine hi.rename (hquiet hq) hids hunit (hcommit _ ?_) hfs
    obtain ⟨n, hn, -⟩ := FileSystem.dir_rename (by simp) hfs
    simp [renames, hu, hpc, henv, hn]
  | remove hq hfs => exact hi.remove (hquiet hq) hids hunit hfs
  | «open» pc hopen hfile hwritten hu' hfs =>
    exact hi.open hu hid hok hopen hfile hwritten (by rw [hu']) (by rw [hu']; exact hwritten)
      (by rw [hu']) (by rw [hu']) hunits hfs
  | write n len pc src hfile hopen hdone hlen hsrc hu' hfs =>
    subst hu'
    exact hi.write hu hfile hopen hdone hlen hsrc hok hunits hfs

theorem stepCommit_inv {env : DumpEnv} {j : Nat} (hi : DumpInv cfg s)
    (hcommit : CommitsComplete cfg s (.commit j env)) (h : stepCommit env j s = some s') :
    DumpInv cfg s' := by
  unfold stepCommit at h
  split at h
  · cases h
  · next task hj =>
    dsimp only at h
    split_ifs at h with hremove
    · cases h
      unfold DumpState.removeActivated
      split_ifs
      · exact hi.remove (.refl _) hi.ids hi.unit rfl
      · exact hi.of_eq rfl rfl
    · split at h
      · next s₁ harch =>
        cases h
        unfold DumpState.archive at harch
        split_ifs at harch with henv
        obtain ⟨fs, hren, rfl⟩ := Option.map_eq_some_iff.mp harch
        refine hi.rename (.refl _) hi.ids hi.unit (hcommit task.id ?_) hren
        obtain ⟨n, hn, -⟩ := FileSystem.dir_rename (by simp) hren
        replace hn : s.fs.dir (task.id, true) = some n := hn
        simp [renames, hj, hremove, henv, hn]
      · cases h
        exact hi.of_eq rfl rfl

theorem dumpStep_inv {e : DumpEvent} (hi : DumpInv cfg s) (hcommit : CommitsComplete cfg s e)
    (h : dumpStep cfg s e = some s') : DumpInv cfg s' := by
  cases e with
  | submit p desc =>
    simp only [dumpStep] at h
    split_ifs at h with hdesc
    cases h
    exact hi.submit hdesc rfl rfl
  | unit id env =>
    obtain ⟨u, hu, hstep⟩ := Option.bind_eq_some_iff.mp h
    obtain rfl := hi.ids id u hu
    exact stepUnit_inv hi hu hcommit hstep
  | commit j env => exact stepCommit_inv hi hcommit h
  | timeout p owner | forget p owner =>
    cases h
    exact hi.of_eq rfl rfl

theorem dumpInv_start : DumpInv cfg .start := by
  refine ⟨FileSystem.ok_empty, ?_, ?_, ?_, ?_, ?_, ?_, ?_⟩
  · intro i u hu
    simp [DumpState.start] at hu
  · intro u hu
    cases hu
  · intro u hu
    cases hu
  · intro u hu
    cases hu
  · intro u hu
    cases hu
  · intro u hu
    cases hu
  · intro b n hb
    cases hb

/-- In a run in which a file is renamed only when all its shards are complete, every shard of an
archived file holds, at every later time, the bytes that a successful unit of the block has written
completely. -/
theorem archived_complete (h : (dumpMachine cfg).Reach (CommitsComplete cfg) s) {b : BlockId}
    {n : Nat} (hb : s.fs.dir (b, false) = some n) :
    ∀ i < cfg.nShardPerBlock, ∃ u ∈ s.units, u.Complete cfg ∧ u.shard.owner = b ∧
      u.shard.index = i ∧ Holds cfg s n i u := by
  have hi : DumpInv cfg s := by
    refine h.inv ?_ ?_
    · rintro s rfl
      exact dumpInv_start
    · intro s e s' hi hcommit hstep
      exact dumpStep_inv hi hcommit hstep
  intro i hlt
  obtain ⟨u, hu, hc, hub, hui, hholds, -⟩ := hi.archived b n hb i hlt
  exact ⟨u, hu, hc, hub, hui, hholds⟩

/-! ## Concrete runs -/

/-- A psync unit of two bytes up to its commit. -/
def dumpPsync (id : Nat) : List DumpEvent :=
  [.unit id { }, .unit id { }, .unit id { bytes := 2 }, .unit id { }, .unit id { }]

/-- An aio unit of two bytes up to its commit. -/
def dumpAio (id : Nat) : List DumpEvent :=
  [.unit id { }, .unit id { }, .unit id { }, .unit id { bytes := 2, result := some true },
    .unit id { }]

/-- The first process dumps block 5 and the second one block 6, two shards each. -/
def dumpTwoBlocks : List DumpEvent :=
  [.submit 0 [⟨5, 0, [10]⟩, ⟨5, 1, [20]⟩], .submit 1 [⟨6, 0, [30]⟩, ⟨6, 1, [40]⟩]]

/-- Both blocks are complete when they are committed. -/
theorem archived_complete_in_order :
    ∃ s, (dumpMachine .small).Reach (CommitsComplete .small) s ∧ ∀ b ∈ [5, 6], ∃ n,
      s.fs.dir (b, false) = some n ∧ ∀ i < DumpConfig.small.nShardPerBlock, ∃ u ∈ s.units,
        u.Complete .small ∧ u.shard.owner = b ∧ u.shard.index = i ∧ Holds .small s n i u := by
  obtain ⟨s, hreach, hp⟩ := Machine.exists_reach_of_run (M := dumpMachine .small)
    (C := CommitsComplete .small) (s := .start) (l := dumpTwoBlocks ++ dumpPsync 0 ++ dumpAio 2 ++
      dumpPsync 1 ++ dumpAio 3 ++ [.unit 1 { }, .unit 3 { }, .commit 0 { }])
    (p := fun s => ∀ b ∈ ([5, 6] : List BlockId), (s.fs.dir (b, false)).isSome) rfl (by decide +kernel)
  refine ⟨s, hreach, fun b hb => ?_⟩
  obtain ⟨n, hn⟩ := Option.isSome_iff_exists.mp (hp b hb)
  exact ⟨n, hn, archived_complete hreach hn⟩

/-- The unit of the last shard commits while the other one has not even opened the file: with both
engines the archived file lacks its first shard, and no unit of it has been successful. -/
theorem archived_incomplete :
    ∃ s, (dumpMachine .small).Reachable s ∧ ∀ b ∈ [5, 6], ∃ n, s.fs.dir (b, false) = some n ∧
      ∃ i < DumpConfig.small.nShardPerBlock, (∀ u ∈ s.units, u.shard.owner = b →
        u.shard.index = i → u.pc.succeeded = false) ∧
        ∀ x < DumpConfig.small.shardSize, s.fs.files n (i * DumpConfig.small.shardSize + x) = none := by
  obtain ⟨s, hs, hp⟩ := Machine.exists_reachable_of_run (M := dumpMachine .small) (s := .start)
    (l := dumpTwoBlocks ++ dumpPsync 1 ++ dumpAio 3 ++ [.unit 1 { }, .unit 3 { }, .commit 0 { }])
    (p := fun s => ∀ b ∈ ([5, 6] : List BlockId), ∃ n ∈ s.fs.dir (b, false), (∀ u ∈ s.units, u.shard.owner = b →
      u.shard.index = 0 → u.pc.succeeded = false) ∧ ∀ x < DumpConfig.small.shardSize,
        s.fs.files n (0 * DumpConfig.small.shardSize + x) = none) rfl (by decide +kernel)
  refine ⟨s, hs, fun b hb => ?_⟩
  obtain ⟨n, hn, hunits, hbytes⟩ := hp b hb
  exact ⟨n, hn, 0, by decide, hunits, hbytes⟩

end UnifiedCache.Posix
