import UnifiedCache.Ds3fs.TransQueue

/-!
# Proofs: transfers report their own outcome

While a unit's I/O is under way it is the only one in its ring (`Own`), as long as no unit starts on what
an earlier one has left. Then the completion that the unit takes is its own, and tells how many of its
bytes have been moved.
-/

open Lib

namespace UnifiedCache.Ds3fs

variable {cfg : Config} {s s' : State} {n m : Nat} {u : IoUnit} {e : Event}

/-! ## What has been moved -/

theorem Moved.mono (h : Moved cfg s n u) (hwritten : ∀ w ∈ s.written, w ∈ s'.written)
    (haddrs : s'.addrs n = s.addrs n) : Moved cfg s' n u := by
  unfold Moved at h ⊢
  cases htype : u.type with
  | load =>
    rw [htype] at h
    dsimp only at h ⊢
    rw [haddrs]
    exact h
  | dump =>
    rw [htype] at h
    obtain ⟨w, hw, hrest⟩ := h
    exact ⟨w, hwritten w hw, hrest⟩

theorem Truthful.mono (h : Truthful cfg s) (hresults : s'.results = s.results)
    (hcommits : s'.commits = s.commits) (hfailed : ∀ t ∈ s.failureSet, t ∈ s'.failureSet)
    (hwritten : ∀ w ∈ s.written, w ∈ s'.written)
    (haddrs : ∀ r ∈ s.results, s'.addrs r.n = s.addrs r.n) : Truthful cfg s' := by
  refine ⟨fun r hr hsuccess => ?_, fun r hr hfailure => ?_, ?_⟩
  · rw [hresults] at hr
    exact (h.moved r hr hsuccess).mono hwritten (haddrs r hr)
  · rw [hresults] at hr
    exact hfailed _ (h.failed r hr hfailure)
  · rw [hcommits, hresults]
    exact h.committed

theorem Truthful.finish {success : Bool} (h : Truthful cfg s)
    (hmoved : success = true → Moved cfg s n u) : Truthful cfg (s.finish cfg n u success) := by
  have hfailed : ∀ t ∈ s.failureSet, t ∈ (s.finish cfg n u success).failureSet := by
    intro t ht
    unfold State.finish
    dsimp only
    split_ifs
    · exact ht
    · exact List.mem_cons_of_mem _ ht
  refine ⟨fun r hr hsuccess => ?_, fun r hr hfailure => ?_, fun c hc hsuccess => ?_⟩
  · rcases List.mem_append.mp hr with hr | hr
    · exact (h.moved r hr hsuccess).mono (fun _ hw => hw) rfl
    · rw [List.mem_singleton.mp hr] at hsuccess ⊢
      exact (hmoved hsuccess).mono (fun _ hw => hw) rfl
  · rcases List.mem_append.mp hr with hr | hr
    · exact hfailed _ (h.failed r hr hfailure)
    · rw [List.mem_singleton.mp hr] at hfailure ⊢
      dsimp only at hfailure
      subst hfailure
      exact List.mem_cons_self
  · have hold : c ∈ s.commits → ∃ r ∈ (s.finish cfg n u success).results,
        r.n = c.1 ∧ r.u.owner = c.2.1 ∧ r.success = true := by
      intro hc
      obtain ⟨r, hr, hrest⟩ := h.committed c hc hsuccess
      exact ⟨r, List.mem_append_left _ hr, hrest⟩
    unfold State.finish at hc
    dsimp only at hc
    split_ifs at hc
    · rcases List.mem_append.mp hc with hc | hc
      · exact hold hc
      · rw [List.mem_singleton.mp hc] at hsuccess ⊢
        exact ⟨_, List.mem_append_right _ (List.mem_singleton_self _), rfl, rfl, hsuccess⟩
    · exact hold hc

/-! ## The invariant -/

/-- The unit that the worker is with. -/
def Pc.unit : Pc → Option Nat
  | .idle => none
  | .opening n _ | .registering n _ | .filling n _ | .preparing n _ | .submitting n _ | .waiting n _
  | .copying n _ | .finishing n _ _ => some n

/-- The bounce buffer holds the bytes of a unit that is written, and nothing is under way that could
change that. -/
structure Filled (cfg : Config) (s : State) (n : Nat) : Prop where
  read : s.iorRead.submitted = []
  bounce : ∀ k < cfg.ioSize, s.bounce k = .addr n k

/-- The I/O of a read is the only one in its ring; when it is completed its bytes are in the bounce
buffer. -/
structure OwnRead (cfg : Config) (s : State) (n : Nat) (u : IoUnit) : Prop where
  all : s.iorRead.all = [u.io cfg n]
  moved : ∀ c ∈ s.iorRead.completed, ∀ k < c.2.toNat,
    s.bounce k = .file n u.path (cfg.shardSize * u.index + k)

/-- The I/O of a write is the only one in its ring; when it is completed its bytes are in the file. -/
structure OwnWrite (cfg : Config) (s : State) (n : Nat) (u : IoUnit) : Prop extends Filled cfg s n where
  all : s.iorWrite.all = [u.io cfg n]
  moved : ∀ c ∈ s.iorWrite.completed, 0 ≤ c.2 → ∃ w ∈ s.written, w.n = n ∧ w.path = u.path ∧
    w.offset = cfg.shardSize * u.index ∧ w.count = c.2.toNat ∧ ∀ k < cfg.ioSize, w.data k = .addr n k

/-- The I/O of a unit is the only one in its ring. -/
def Own (cfg : Config) (s : State) (n : Nat) (u : IoUnit) : Prop :=
  match u.type with
  | .load => OwnRead cfg s n u
  | .dump => OwnWrite cfg s n u

/-- What holds where the worker is. -/
def PcOk (cfg : Config) (s : State) : Prop :=
  match s.pc with
  | .filling _ u => u.type = .dump
  | .preparing n u => u.type = .dump → Filled cfg s n ∧ s.iorWrite.all = []
  | .submitting n u | .waiting n u => Own cfg s n u
  | .copying n u => u.type = .load ∧ s.iorRead.all = [] ∧
      ∀ k < cfg.ioSize, s.bounce k = .file n u.path (cfg.shardSize * u.index + k)
  | .finishing n u success => success = true → Moved cfg s n u
  | .idle | .opening _ _ | .registering _ _ => True

/-- The invariant of a worker. -/
structure WorkerInv (cfg : Config) (s : State) : Prop where
  truthful : Truthful cfg s
  /-- Units are numbered in their order. -/
  numbered : ∀ r ∈ s.results, r.n < s.next ∧ s.pc.unit ≠ some r.n
  unit_lt : ∀ n ∈ s.pc.unit, n < s.next
  pcOk : PcOk cfg s

/-! ## hf3fs -/

theorem move_setRing_frame (s : State) (type : TransType) (io : Io) (result : Int)
    (ring : IoRing Io) :
    let s' := (s.move type io result).setRing type ring
    s'.pc = s.pc ∧ s'.results = s.results ∧ s'.commits = s.commits ∧ s'.failureSet = s.failureSet ∧
      s'.addrs = s.addrs ∧ s'.next = s.next ∧ ∀ w ∈ s.written, w ∈ s'.written := by
  unfold State.move State.setRing
  split_ifs
  · cases type with
    | load | dump => exact ⟨rfl, rfl, rfl, rfl, rfl, rfl, fun _ hw => hw⟩
  · cases type with
    | load => exact ⟨rfl, rfl, rfl, rfl, rfl, rfl, fun _ hw => hw⟩
    | dump => exact ⟨rfl, rfl, rfl, rfl, rfl, rfl, fun _ hw => List.mem_append_left _ hw⟩

theorem move_dump_frame (s : State) (io : Io) (result : Int) (ring : IoRing Io) :
    let s' := (s.move .dump io result).setRing .dump ring
    s'.iorRead = s.iorRead ∧ s'.bounce = s.bounce ∧ s'.iorWrite = ring := by
  unfold State.move State.setRing
  split_ifs <;> exact ⟨rfl, rfl, rfl⟩

theorem move_load_frame (s : State) (io : Io) (result : Int) (ring : IoRing Io) :
    let s' := (s.move .load io result).setRing .load ring
    s'.iorRead = ring ∧ s'.iorWrite = s.iorWrite ∧ s'.written = s.written := by
  unfold State.move State.setRing
  split_ifs <;> exact ⟨rfl, rfl, rfl⟩

theorem Own.complete_load {io : Io} {result : Int} {ring : IoRing Io} (h : Own cfg s n u)
    (hdone : s.iorRead.complete result = some (io, ring)) :
    Own cfg ((s.move .load io result).setRing .load ring) n u := by
  obtain ⟨hread, -, -⟩ := move_load_frame s io result ring
  unfold Own at h ⊢
  cases htype : u.type with
  | dump =>
    rw [htype] at h
    have hnone : s.iorRead.complete result = none :=
      IoRing.complete_eq_none (OwnWrite.toFilled h).read
    rw [hnone] at hdone
    cases hdone
  | load =>
    rw [htype] at h
    dsimp only at h ⊢
    obtain ⟨rfl, hcompleted, -⟩ := IoRing.complete_of_all_eq h.all hdone
    refine ⟨?_, fun c hc k hk => ?_⟩
    · rw [hread, IoRing.all_complete hdone]
      exact h.all
    · rw [hread, hcompleted] at hc
      rw [List.mem_singleton.mp hc] at hk
      dsimp only at hk
      unfold State.move State.setRing
      rw [if_neg (by omega)]
      exact if_pos hk

theorem Own.complete_dump {io : Io} {result : Int} {ring : IoRing Io} (h : Own cfg s n u)
    (hdone : s.iorWrite.complete result = some (io, ring)) :
    Own cfg ((s.move .dump io result).setRing .dump ring) n u := by
  obtain ⟨hread, hbounce, hwrite⟩ := move_dump_frame s io result ring
  unfold Own at h ⊢
  cases htype : u.type with
  | load =>
    rw [htype] at h
    dsimp only at h ⊢
    refine ⟨by rw [hread]; exact h.all, ?_⟩
    rw [hread, hbounce]
    exact h.moved
  | dump =>
    rw [htype] at h
    dsimp only at h ⊢
    obtain ⟨rfl, hcompleted, -⟩ := IoRing.complete_of_all_eq h.all hdone
    refine ⟨⟨by rw [hread]; exact h.read, by rw [hbounce]; exact h.bounce⟩, ?_, fun c hc hpos => ?_⟩
    · rw [hwrite, IoRing.all_complete hdone]
      exact h.all
    · rw [hwrite, hcompleted] at hc
      rw [List.mem_singleton.mp hc] at hpos ⊢
      dsimp only at hpos ⊢
      unfold State.move State.setRing
      rw [if_neg (by omega)]
      exact ⟨_, List.mem_append_right _ (List.mem_singleton_self _), rfl, rfl, rfl, rfl, h.bounce⟩

theorem PcOk.complete {type : TransType} {io : Io} {result : Int} {ring : IoRing Io}
    (h : PcOk cfg s) (hdone : (s.ring type).complete result = some (io, ring)) :
    PcOk cfg ((s.move type io result).setRing type ring) := by
  obtain ⟨hpc, -, -, -, haddrs, -, hwritten⟩ := move_setRing_frame s type io result ring
  have hbusy : (s.ring type).submitted ≠ [] := by
    intro hnil
    rw [IoRing.complete_eq_none hnil] at hdone
    cases hdone
  have hown : ∀ n u, Own cfg s n u →
      Own cfg ((s.move type io result).setRing type ring) n u := by
    intro n u h
    cases type with
    | load => exact h.complete_load hdone
    | dump => exact h.complete_dump hdone
  unfold PcOk at h ⊢
  rw [hpc]
  split at h
  · exact h
  · intro hdump
    obtain ⟨hfilled, hwrite⟩ := h hdump
    -- Nothing is under way in either ring.
    cases type with
    | load => exact absurd hfilled.read hbusy
    | dump => exact absurd (IoRing.submitted_of_all_eq hwrite) hbusy
  · exact hown _ _ h
  · exact hown _ _ h
  · obtain ⟨htype, hall, hbounce⟩ := h
    cases type with
    | load => exact absurd (IoRing.submitted_of_all_eq hall) hbusy
    | dump =>
      obtain ⟨hread, hbounce', -⟩ := move_dump_frame s io result ring
      refine ⟨htype, by rw [hread]; exact hall, ?_⟩
      rw [hbounce']
      exact hbounce
  · exact fun hsuccess => (h hsuccess).mono hwritten (congrFun haddrs _)
  · trivial
  · trivial
  · trivial

/-! ## Steps -/

theorem WorkerInv.move (h : WorkerInv cfg s) (hresults : s'.results = s.results)
    (hcommits : s'.commits = s.commits) (hfailed : s'.failureSet = s.failureSet)
    (hwritten : ∀ w ∈ s.written, w ∈ s'.written) (haddrs : s'.addrs = s.addrs)
    (hnext : s'.next = s.next) (hunit : s'.pc.unit = s.pc.unit) (hpcOk : PcOk cfg s') :
    WorkerInv cfg s' := by
  refine ⟨h.truthful.mono hresults hcommits (fun t ht => hfailed ▸ ht) hwritten
    fun r _ => congrFun haddrs r.n, ?_, ?_, hpcOk⟩
  · rw [hresults, hnext, hunit]
    exact h.numbered
  · rw [hnext, hunit]
    exact h.unit_lt

theorem setRing_frame (s : State) (type : TransType) (ring : IoRing Io) (pc : Pc) :
    let s' := { s.setRing type ring with pc := pc }
    s'.results = s.results ∧ s'.commits = s.commits ∧ s'.failureSet = s.failureSet ∧
      s'.written = s.written ∧ s'.addrs = s.addrs ∧ s'.next = s.next ∧ s'.bounce = s.bounce := by
  cases type <;> exact ⟨rfl, rfl, rfl, rfl, rfl, rfl, rfl⟩

theorem Own.prep (hload : u.type = .load → s.iorRead.all = [])
    (hdump : u.type = .dump → Filled cfg s n ∧ s.iorWrite.all = []) (pc : Pc) :
    Own cfg { s.setRing u.type ((s.ring u.type).prep (u.io cfg n)) with pc := pc } n u := by
  unfold Own
  cases htype : u.type with
  | load =>
    have hall := hload htype
    refine ⟨?_, fun c hc => ?_⟩
    · show (s.iorRead.prep (u.io cfg n)).all = _
      rw [IoRing.all_prep, hall, List.nil_append]
    · have hc' : c ∈ s.iorRead.completed := hc
      rw [IoRing.completed_of_all_eq hall] at hc'
      cases hc'
  | dump =>
    obtain ⟨hfilled, hall⟩ := hdump htype
    refine ⟨⟨hfilled.read, hfilled.bounce⟩, ?_, fun c hc => ?_⟩
    · show (s.iorWrite.prep (u.io cfg n)).all = _
      rw [IoRing.all_prep, hall, List.nil_append]
    · have hc' : c ∈ s.iorWrite.completed := hc
      rw [IoRing.completed_of_all_eq hall] at hc'
      cases hc'

theorem Own.submit (h : Own cfg s n u) (pc : Pc) :
    Own cfg { s.setRing u.type (s.ring u.type).submit with pc := pc } n u := by
  unfold Own at h ⊢
  cases htype : u.type with
  | load =>
    rw [htype] at h
    have hread : OwnRead cfg s n u := h
    exact ⟨(IoRing.all_submit s.iorRead).trans hread.all, hread.moved⟩
  | dump =>
    rw [htype] at h
    have hwrite : OwnWrite cfg s n u := h
    exact ⟨⟨hwrite.read, hwrite.bounce⟩, (IoRing.all_submit s.iorWrite).trans hwrite.all,
      hwrite.moved⟩

theorem Own.fail (h : Own cfg s n u) (failureSet : List TaskHandle) :
    Own cfg { s with failureSet := failureSet } n u := by
  unfold Own at h ⊢
  cases htype : u.type with
  | load =>
    rw [htype] at h
    have hread : OwnRead cfg s n u := h
    exact ⟨hread.all, hread.moved⟩
  | dump =>
    rw [htype] at h
    have hwrite : OwnWrite cfg s n u := h
    exact ⟨⟨hwrite.read, hwrite.bounce⟩, hwrite.all, hwrite.moved⟩

theorem Own.wait (hsize : cfg.tensorSize = cfg.shardSize) (h : Own cfg s n u) {cqe : Io × Int}
    {ring : IoRing Io} (htake : (s.ring u.type).take = some (cqe, ring))
    (hfull : cqe.2 < 0 ∨ cqe.2 = cfg.ioSize) :
    PcOk cfg { s.setRing u.type ring with pc := checkIoResult n u cqe.2 } := by
  have hmem := List.mem_of_mem_head? (IoRing.mem_of_take htake)
  unfold checkIoResult
  by_cases hneg : cqe.2 < 0
  · rw [if_pos hneg]
    exact nofun
  · have hcount : cqe.2 = cfg.ioSize := hfull.resolve_left hneg
    rw [if_neg hneg]
    unfold Own at h
    cases htype : u.type with
    | load =>
      rw [htype] at h htake hmem
      rw [if_pos rfl]
      refine ⟨htype, (IoRing.take_of_all_eq (OwnRead.all h) htake).2, fun k hk => ?_⟩
      exact OwnRead.moved h cqe hmem k (by omega)
    | dump =>
      rw [htype] at h hmem
      rw [if_neg nofun]
      intro _
      unfold Moved
      rw [htype]
      obtain ⟨w, hw, hn, hpath, hoffset, hcount', hdata⟩ := OwnWrite.moved h cqe hmem (by omega)
      refine ⟨w, hw, hn, hpath, hoffset, ?_, fun k hk => hdata k ?_⟩
      · rw [hcount', hcount, Int.toNat_natCast]
        exact hsize
      · show k < cfg.tensorSize
        rw [hsize]
        exact hk

theorem PcOk.fail (h : PcOk cfg s) (failureSet : List TaskHandle) :
    PcOk cfg { s with failureSet := failureSet } := by
  unfold PcOk at h ⊢
  dsimp only
  split at h
  · exact h
  · exact fun hdump => ⟨⟨(h hdump).1.read, (h hdump).1.bounce⟩, (h hdump).2⟩
  · exact h.fail failureSet
  · exact h.fail failureSet
  · exact h
  · exact fun hsuccess => (h hsuccess).mono (fun _ hw => hw) rfl
  · trivial
  · trivial
  · trivial

theorem WorkerInv.step (hsize : cfg.tensorSize = cfg.shardSize) (h : WorkerInv cfg s)
    (hcond : Undisturbed cfg s e) (hstep : step cfg s e = some s') : WorkerInv cfg s' := by
  have hpcOk := h.pcOk
  unfold PcOk at hpcOk
  unfold Ds3fs.step at hstep
  split at hstep
  · -- take
    next u hpc =>
    split_ifs at hstep
    · cases hstep
      exact h
    · cases hstep
      refine ⟨h.truthful.mono rfl rfl (fun _ ht => ht) (fun _ hw => hw) fun _ _ => rfl, ?_, ?_,
        trivial⟩
      · intro r hr
        have hlt := (h.numbered r hr).1
        refine ⟨Nat.lt_succ_of_lt hlt, fun heq => ?_⟩
        rw [Pc.unit, Option.some.injEq] at heq
        omega
      · rintro n hn
        cases hn
        exact Nat.lt_succ_self _
  · -- fail
    next task =>
    cases hstep
    exact ⟨h.truthful.mono rfl rfl (fun _ ht => List.mem_cons_of_mem _ ht) (fun _ hw => hw)
      fun _ _ => rfl, h.numbered, h.unit_lt, h.pcOk.fail _⟩
  · -- openFile
    next success n u hpc =>
    cases hstep
    refine h.move rfl rfl rfl (fun _ hw => hw) rfl rfl ?_ ?_
    · rw [hpc]
      cases success <;> rfl
    · cases success
      · exact nofun
      · trivial
  · -- registerFd
    next success n u hpc =>
    cases hstep
    refine h.move rfl rfl rfl (fun _ hw => hw) rfl rfl ?_ ?_
    · rw [hpc]
      cases success <;> [rfl; (cases u.type <;> rfl)]
    · cases success
      · exact nofun
      · dsimp only [PcOk]
        cases htype : u.type with
        | load => exact fun hdump => by rw [htype] at hdump; cases hdump
        | dump => exact htype
  · -- fill
    next n u hpc =>
    cases hstep
    refine h.move rfl rfl rfl (fun _ hw => hw) rfl rfl (by rw [hpc]; rfl) ?_
    exact fun _ => ⟨⟨hcond.2, fun k hk => if_pos hk⟩, hcond.1⟩
  · -- prep
    next success n u hpc =>
    rw [hpc] at hpcOk
    split_ifs at hstep with hsuccess
    · subst hsuccess
      cases hstep
      obtain ⟨h1, h2, h3, h4, h5, h6, -⟩ := setRing_frame s u.type
        ((s.ring u.type).prep (u.io cfg n)) (.submitting n u)
      exact h.move h1 h2 h3 (fun w hw => h4 ▸ hw) h5 h6 (by rw [hpc]; rfl)
        (Own.prep (hcond n u hpc) hpcOk _)
    · cases hstep
      exact h.move rfl rfl rfl (fun _ hw => hw) rfl rfl (by rw [hpc]; rfl) nofun
  · -- submit
    next success n u hpc =>
    rw [hpc] at hpcOk
    split_ifs at hstep with hsuccess
    · cases hstep
      obtain ⟨h1, h2, h3, h4, h5, h6, -⟩ := setRing_frame s u.type (s.ring u.type).submit
        (.waiting n u)
      exact h.move h1 h2 h3 (fun w hw => h4 ▸ hw) h5 h6 (by rw [hpc]; rfl) (Own.submit hpcOk _)
    · cases hstep
      exact h.move rfl rfl rfl (fun _ hw => hw) rfl rfl (by rw [hpc]; rfl) nofun
  · -- wait
    next success n u hpc =>
    rw [hpc] at hpcOk
    split_ifs at hstep with hsuccess
    · subst hsuccess
      obtain ⟨⟨cqe, ring⟩, htake, rfl⟩ := Option.map_eq_some_iff.mp hstep
      obtain ⟨h1, h2, h3, h4, h5, h6, -⟩ := setRing_frame s u.type ring (checkIoResult n u cqe.2)
      refine h.move h1 h2 h3 (fun w hw => h4 ▸ hw) h5 h6 ?_
        (Own.wait hsize hpcOk htake (hcond n u hpc cqe (IoRing.mem_of_take htake)))
      rw [hpc]
      unfold checkIoResult
      dsimp only
      split_ifs <;> rfl
    · cases hstep
      exact h.move rfl rfl rfl (fun _ hw => hw) rfl rfl (by rw [hpc]; rfl) nofun
  · -- copy
    next n u hpc =>
    rw [hpc] at hpcOk
    obtain ⟨htype, -, hbounce⟩ := hpcOk
    cases hstep
    refine ⟨h.truthful.mono rfl rfl (fun _ ht => ht) (fun _ hw => hw) fun r hr => ?_, ?_, ?_, ?_⟩
    · have hne := (h.numbered r hr).2
      rw [hpc, Pc.unit, ne_eq, Option.some.injEq] at hne
      exact Function.update_of_ne (Ne.symm hne) _ _
    · intro r hr
      have := h.numbered r hr
      rw [hpc] at this
      exact this
    · have := h.unit_lt
      rw [hpc] at this
      exact this
    · intro _
      unfold Moved
      rw [htype]
      intro k hk
      have hk' : k < cfg.ioSize := by
        rw [Config.ioSize, hsize]
        exact hk
      dsimp only
      rw [Function.update_self, if_pos hk']
      exact hbounce k hk'
  · -- finish
    next n u success hpc =>
    rw [hpc] at hpcOk
    cases hstep
    refine ⟨h.truthful.finish hpcOk, ?_, nofun, trivial⟩
    intro r hr
    rcases List.mem_append.mp hr with hr | hr
    · exact ⟨(h.numbered r hr).1, nofun⟩
    · rw [List.mem_singleton.mp hr]
      exact ⟨h.unit_lt n (by rw [hpc]; rfl), nofun⟩
  · -- complete
    next type result =>
    obtain ⟨⟨io, ring⟩, hdone, hstep⟩ := Option.bind_eq_some_iff.mp hstep
    dsimp only at hstep
    split_ifs at hstep
    cases hstep
    obtain ⟨h1, h2, h3, h4, h5, h6, h7⟩ := move_setRing_frame s type io result ring
    exact h.move h2 h3 h4 h7 h5 h6 (by rw [h1]) (h.pcOk.complete hdone)
  · cases hstep

theorem WorkerInv.of_reach (hsize : cfg.tensorSize = cfg.shardSize)
    (h : (workerMachine cfg).Reach (Undisturbed cfg) s) : WorkerInv cfg s := by
  refine h.inv ?_ fun s e s' hinv hcond hstep => hinv.step hsize hcond hstep
  rintro s rfl
  exact ⟨⟨nofun, nofun, nofun⟩, nofun, nofun, trivial⟩

/-- **Transfers report their own outcome.** In every run in which no unit starts on what another one has
left and no completion counts only some of the bytes, a unit is treated as successful only if its own
I/O has moved all bytes of its shard, and a block is committed only for such a unit. -/
theorem transfers_truthful (hsize : cfg.tensorSize = cfg.shardSize)
    (h : (workerMachine cfg).Reach (Undisturbed cfg) s) : Truthful cfg s :=
  (WorkerInv.of_reach hsize h).truthful

/-! ## Runs -/

/-- Blocks of one shard of two bytes. -/
def Config.small : Config where
  storageBackends := ["/mnt/3fs"]
  deviceId := 0
  tensorSize := 2
  shardSize := 2
  blockSize := 2
  streamNumber := 1

/-- The only shard of a block, of a task with the number of the block. -/
def IoUnit.only (type : TransType) (owner : BlockId) : IoUnit := ⟨owner, type, owner, 0⟩

/-- Block 7 is read and then block 8. -/
def readTwice : List Event :=
  [.take (.only .load 7), .openFile true, .registerFd true, .prep true, .submit true, .complete .load 2,
    .wait true, .copy, .finish,
   .take (.only .load 8), .openFile true, .registerFd true, .prep true, .submit true, .complete .load 2,
    .wait true, .copy, .finish]

/-- The wait for the read of block 7 fails, the read is done later, and block 8 is read. -/
def readAfterFailure : List Event :=
  [.take (.only .load 7), .openFile true, .registerFd true, .prep true, .submit true, .wait false,
    .finish,
   .take (.only .load 8), .openFile true, .registerFd true, .prep true, .submit true, .complete .load 2,
    .wait true, .copy, .finish]

/-- One byte of block 7 is written. -/
def writeShort : List Event :=
  [.take (.only .dump 7), .openFile true, .registerFd true, .fill, .prep true, .submit true,
    .complete .dump 1, .wait true, .finish]

/-- `Undisturbed` as a test. -/
def undisturbed (cfg : Config) (s : State) : Event → Bool
  | .prep true => s.iorRead.all = []
  | .fill => s.iorWrite.all = [] ∧ s.iorRead.submitted = []
  | .wait true => ∀ cqe ∈ s.iorRead.completed ++ s.iorWrite.completed, cqe.2 = cfg.ioSize
  | _ => true

theorem undisturbed_spec (h : undisturbed cfg s e = true) : Undisturbed cfg s e := by
  cases e with
  | prep success =>
    cases success with
    | true => exact fun _ _ _ _ => of_decide_eq_true h
    | false => trivial
  | fill =>
    have htest : decide (s.iorWrite.all = [] ∧ s.iorRead.submitted = []) = true := h
    have hempty : s.iorWrite.all = [] ∧ s.iorRead.submitted = [] := of_decide_eq_true htest
    exact hempty
  | wait success =>
    cases success with
    | false => trivial
    | true =>
      intro n u _ cqe hcqe
      have hmem := List.mem_of_mem_head? hcqe
      refine .inr (of_decide_eq_true h cqe ?_)
      cases htype : u.type with
      | load =>
        rw [htype] at hmem
        exact List.mem_append_left _ hmem
      | dump =>
        rw [htype] at hmem
        exact List.mem_append_right _ hmem
  | _ => trivial

/-- Two reads, one after the other. -/
theorem transfers_truthful_twice : ∃ s : State, (workerMachine .small).Reach (Undisturbed .small) s ∧
    s.results = [⟨0, .only .load 7, true⟩, ⟨1, .only .load 8, true⟩] ∧ Truthful .small s := by
  obtain ⟨s, hs, hp⟩ := Machine.exists_reachable_of_run
    (M := (workerMachine .small).guard (undisturbed .small)) (s := .start) (l := readTwice)
    (p := fun s => s.results = [⟨0, .only .load 7, true⟩, ⟨1, .only .load 8, true⟩]) rfl
    (by decide +kernel)
  have hreach := Machine.Reach.of_guard (fun _ _ _ h => undisturbed_spec h) hs
  exact ⟨s, hreach, hp, transfers_truthful rfl hreach⟩

/-- The read of block 8 takes the completion and the bytes of block 7; and block 7 is committed after one
byte of it is written. -/
theorem transfers_mixed_up : Config.small.checkConfig = true ∧
    Config.small.tensorSize = Config.small.shardSize ∧
    (∃ s : State, (workerMachine .small).Reachable s ∧ ⟨1, .only .load 8, true⟩ ∈ s.results ∧
      s.addrs 1 0 = .file 0 (7, false) 0 ∧ ¬ Moved .small s 1 (.only .load 8)) ∧
    ∃ s : State, (workerMachine .small).Reachable s ∧ (0, 7, true) ∈ s.commits ∧
      ⟨0, .only .dump 7, true⟩ ∈ s.results ∧ ¬ Moved .small s 0 (.only .dump 7) := by
  refine ⟨rfl, rfl, ?_, ?_⟩
  · obtain ⟨s, hs, hp⟩ := Machine.exists_reachable_of_run (M := workerMachine .small) (s := .start)
      (l := readAfterFailure) (p := fun s => ⟨1, .only .load 8, true⟩ ∈ s.results ∧
        s.addrs 1 0 = .file 0 (7, false) 0) rfl (by decide +kernel)
    obtain ⟨hmem, haddr⟩ := hp
    refine ⟨s, hs, hmem, haddr, fun hmoved => ?_⟩
    have hown := hmoved 0 (by decide)
    rw [haddr] at hown
    revert hown
    decide
  · obtain ⟨s, hs, hp⟩ := Machine.exists_reachable_of_run (M := workerMachine .small) (s := .start)
      (l := writeShort) (p := fun s => (0, 7, true) ∈ s.commits ∧ ⟨0, .only .dump 7,
        true⟩ ∈ s.results ∧ s.written.map Written.count = [1]) rfl (by decide +kernel)
    obtain ⟨hcommit, hmem, hcount⟩ := hp
    refine ⟨s, hs, hcommit, hmem, ?_⟩
    rintro ⟨w, hw, -, -, -, hfull, -⟩
    have hone : w.count ∈ s.written.map Written.count := List.mem_map_of_mem hw
    rw [hcount, List.mem_singleton, hfull] at hone
    revert hone
    decide

end UnifiedCache.Ds3fs
