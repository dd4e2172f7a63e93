import UnifiedCache.PcStore.Proofs.ShareTableProofs

/-!
# Proofs: loading the slots of the shared buffer

A slot is `LOADING` exactly as long as one call of one live reader executes the read, and `LOADED` only
with the bytes of its block. The counter keeps the status from being reset in between: `Refer` and
`Occupy` do so only where no reader is alive.
-/

open Function Lib

namespace UnifiedCache.PcStore.ShareBuffer

variable {cfg : Config} {s s' : State} {block : ShareBlockId} {c i p q : Nat} {call : Call}
  {r : Reader} {pc : ReadyPc}

/-! ## Calls -/

/-- Where a call stands, and the key of its reader. -/
def State.asked (s : State) (c : Nat) : Option (ReadyPc × ShareBlockId × Nat × Bool) :=
  s.calls[c]?.bind fun call => s.readers[call.reader]?.map fun r => (call.pc, r.key)

theorem asked_of (hc : s.calls[c]? = some call) (hr : s.readers[call.reader]? = some r) :
    s.asked c = some (call.pc, r.block, r.pos, r.alive) := by
  rw [State.asked, hc, Option.bind_some, hr]
  rfl

theorem exists_of_asked {x : ReadyPc × ShareBlockId × Nat × Bool} (h : s.asked c = some x) :
    ∃ call r, s.calls[c]? = some call ∧ s.readers[call.reader]? = some r ∧
      x = (call.pc, r.block, r.pos, r.alive) := by
  obtain ⟨call, hc, hmap⟩ := Option.bind_eq_some_iff.mp h
  obtain ⟨r, hr, hx⟩ := Option.map_eq_some_iff.mp hmap
  exact ⟨call, r, hc, hr, hx.symm⟩

theorem asked_congr (hcalls : s'.calls = s.calls)
    (hkey : s'.readers.map Reader.key = s.readers.map Reader.key) (c : Nat) :
    s'.asked c = s.asked c := by
  have hread : ∀ t : State, t.asked c =
      t.calls[c]?.bind fun call => (t.readers.map Reader.key)[call.reader]?.map (Prod.mk call.pc) := by
    intro t
    simp only [State.asked, List.getElem?_map, Option.map_map]
    rfl
  rw [hread, hread, hcalls, hkey]

theorem asked_setCall (hc : s.calls[c]? = some call) (hr : s.readers[call.reader]? = some r)
    (d : Nat) : (s.setCall c call pc).asked d =
      if d = c then some (pc, r.block, r.pos, r.alive) else s.asked d := by
  obtain ⟨hlt, -⟩ := List.getElem?_eq_some_iff.mp hc
  by_cases hd : d = c
  · subst hd
    rw [if_pos rfl]
    have hcall : (s.setCall d call pc).calls[d]? = some { call with pc := pc } :=
      List.getElem?_set_self hlt
    exact asked_of hcall hr
  · rw [if_neg hd]
    show ((s.calls.set c _)[d]?.bind fun call => s.readers[call.reader]?.map _) = _
    rw [List.getElem?_set_ne (Ne.symm hd)]
    rfl

/-! ## The invariant -/

/-- **The invariant of the loads.** -/
structure LoadInv (s : State) : Prop where
  readers : ∀ call ∈ s.calls, call.reader < s.readers.length
  live : ∀ c pc block p alive, s.asked c = some (pc, block, p, alive) → pc.underway = true →
    alive = true
  executing : ∀ c pc block p alive, s.asked c = some (pc, block, p, alive) → pc.executing = true →
    (s.headers p).status = .loading
  unique : ∀ c c' pc pc' block block' p alive alive', s.asked c = some (pc, block, p, alive) →
    s.asked c' = some (pc', block', p, alive') → pc.executing = true → pc'.executing = true → c = c'
  loading : ∀ p, (s.headers p).status = .loading →
    ∃ c pc block alive, s.asked c = some (pc, block, p, alive) ∧ pc.executing = true
  loaded : ∀ p, (s.headers p).status = .loaded → s.data p = some ((s.headers p).id, s.occupied p)
  since : ∀ c since block p alive, s.asked c = some (.read since, block, p, alive) →
    since = s.occupied p
  written : ∀ c block p alive, s.asked c = some (.write true, block, p, alive) →
    s.data p = some (block, s.occupied p)
  ok : ∀ r ∈ s.readers, r.alive = true → r.ok = true → (s.headers r.pos).status = .loaded

theorem ReadyPc.executing_underway (h : pc.executing = true) : pc.underway = true := by
  cases pc <;> first | rfl | cases h

theorem LoadInv.reader_alive {alive : Bool} (hi : LoadInv s)
    (h : s.asked c = some (pc, block, p, alive)) (hexec : pc.executing = true) :
    0 < s.liveReaders p := by
  have halive := hi.live c pc block p alive h (ReadyPc.executing_underway hexec)
  obtain ⟨call, r, -, hr, hx⟩ := exists_of_asked h
  obtain ⟨-, -, hpos, hal⟩ := by simpa only [Prod.mk.injEq] using hx
  subst hpos
  exact liveReaders_pos (List.mem_of_getElem? hr) (hal.symm.trans halive)

/-- What a step leaves of a slot: everything, or it resets a slot without readers. -/
def Kept (s s' : State) (p : Nat) : Prop :=
  ((s'.headers p).status = (s.headers p).status ∧ (s'.headers p).id = (s.headers p).id ∧
      s'.data p = s.data p ∧ s'.occupied p = s.occupied p) ∨
    s.liveReaders p = 0 ∧ (s'.headers p).status = .init

theorem Kept.of_pos (h : Kept s s' p) (hpos : 0 < s.liveReaders p) :
    (s'.headers p).status = (s.headers p).status ∧ (s'.headers p).id = (s.headers p).id ∧
      s'.data p = s.data p ∧ s'.occupied p = s.occupied p := by
  rcases h with hsame | ⟨hzero, -⟩
  · exact hsame
  · omega

/-- **Steps outside of the reads**: the calls that execute a read stay where they are, and a slot that
is not left alone has no readers. -/
theorem LoadInv.of_kept (hi : LoadInv s)
    (hexec : ∀ c pc block p alive, pc.executing = true →
      (s'.asked c = some (pc, block, p, alive) ↔ s.asked c = some (pc, block, p, alive)))
    (hreaders : ∀ call ∈ s'.calls, call.reader < s'.readers.length)
    (hlive : ∀ c pc block p alive, s'.asked c = some (pc, block, p, alive) → pc.underway = true →
      alive = true)
    (hslot : ∀ p, Kept s s' p)
    (hok : ∀ r' ∈ s'.readers, r'.alive = true → r'.ok = true →
      0 < s.liveReaders r'.pos ∧ (s.headers r'.pos).status = .loaded) : LoadInv s' := by
  refine ⟨hreaders, hlive, ?_, ?_, fun p hp => ?_, fun p hp => ?_, ?_, ?_, fun r' hr' hal ho => ?_⟩
  · intro c pc block p alive hask hpc
    have hold := (hexec c pc block p alive hpc).mp hask
    rw [((hslot p).of_pos (hi.reader_alive hold hpc)).1]
    exact hi.executing c pc block p alive hold hpc
  · intro c c' pc pc' block block' p alive alive' hask hask' hpc hpc'
    exact hi.unique c c' pc pc' block block' p alive alive'
      ((hexec c pc block p alive hpc).mp hask) ((hexec c' pc' block' p alive' hpc').mp hask') hpc hpc'
  · rcases hslot p with ⟨hstatus, -⟩ | ⟨-, hinit⟩
    · rw [hstatus] at hp
      obtain ⟨c, pc, block, alive, hask, hpc⟩ := hi.loading p hp
      exact ⟨c, pc, block, alive, (hexec c pc block p alive hpc).mpr hask, hpc⟩
    · rw [hinit] at hp
      cases hp
  · rcases hslot p with ⟨hstatus, hid, hdata, hocc⟩ | ⟨-, hinit⟩
    · rw [hstatus] at hp
      rw [hid, hdata, hocc]
      exact hi.loaded p hp
    · rw [hinit] at hp
      cases hp
  · intro c since block p alive hask
    have hold := (hexec c (.read since) block p alive rfl).mp hask
    rw [((hslot p).of_pos (hi.reader_alive hold rfl)).2.2.2]
    exact hi.since c since block p alive hold
  · intro c block p alive hask
    have hold := (hexec c (.write true) block p alive rfl).mp hask
    obtain ⟨-, -, hdata, hocc⟩ := (hslot p).of_pos (hi.reader_alive hold rfl)
    rw [hdata, hocc]
    exact hi.written c block p alive hold
  · obtain ⟨hpos, hloaded⟩ := hok r' hr' hal ho
    rw [((hslot r'.pos).of_pos hpos).1]
    exact hloaded

/-- **Steps of a read**: a call that nobody else executes the read of the slot besides moves on. -/
theorem LoadInv.of_active {pc₀ : ReadyPc} (hi : LoadInv s) (halive : r.alive = true)
    (hask : s.asked c = some (pc₀, r.block, r.pos, r.alive))
    (hasked : ∀ d, s'.asked d =
      if d = c then some (pc, r.block, r.pos, r.alive) else s.asked d)
    (hothers : ∀ d pc' block' alive', s.asked d = some (pc', block', r.pos, alive') →
      pc'.executing = true → d = c)
    (hreaders : ∀ call ∈ s'.calls, call.reader < s'.readers.length)
    (hframe : ∀ q, q ≠ r.pos → s'.headers q = s.headers q ∧ s'.data q = s.data q)
    (hoccupied : s'.occupied = s.occupied)
    (hstatus : pc.executing = true ↔ (s'.headers r.pos).status = .loading)
    (hloaded : (s'.headers r.pos).status = .loaded →
      s'.data r.pos = some ((s'.headers r.pos).id, s.occupied r.pos))
    (hsince : ∀ since, pc = .read since → since = s.occupied r.pos)
    (hwritten : pc = .write true → s'.data r.pos = some (r.block, s.occupied r.pos))
    (hbefore : (s.headers r.pos).status ≠ .loaded)
    (hok : ∀ r' ∈ s'.readers, r'.alive = true → r'.ok = true →
      r' ∈ s.readers ∨ r'.pos = r.pos ∧ (s'.headers r.pos).status = .loaded) : LoadInv s' := by
  have hcase : ∀ d x, s'.asked d = some x →
      d = c ∧ x = (pc, r.block, r.pos, r.alive) ∨ d ≠ c ∧ s.asked d = some x := by
    intro d x hd
    rw [hasked] at hd
    split_ifs at hd with hdc
    · exact .inl ⟨hdc, (Option.some.inj hd).symm⟩
    · exact .inr ⟨hdc, hd⟩
  have hother : ∀ d pc' block' p alive', s.asked d = some (pc', block', p, alive') →
      pc'.executing = true → d ≠ c → p ≠ r.pos := by
    rintro d pc' block' p alive' hd hpc hdc rfl
    exact hdc (hothers d pc' block' alive' hd hpc)
  refine ⟨hreaders, ?_, ?_, ?_, fun p hp => ?_, fun p hp => ?_, ?_, ?_, fun r' hr' hal ho => ?_⟩
  · intro d pc' block' p alive' hd hpc
    rcases hcase d _ hd with ⟨-, heq⟩ | ⟨-, hold⟩
    · cases heq
      exact halive
    · exact hi.live d pc' block' p alive' hold hpc
  · intro d pc' block' p alive' hd hpc
    rcases hcase d _ hd with ⟨-, heq⟩ | ⟨hdc, hold⟩
    · cases heq
      exact hstatus.mp hpc
    · rw [(hframe p (hother d pc' block' p alive' hold hpc hdc)).1]
      exact hi.executing d pc' block' p alive' hold hpc
  · intro d d' pc₁ pc₂ block₁ block₂ p alive₁ alive₂ hd hd' hpc₁ hpc₂
    rcases hcase d _ hd with ⟨hdc, heq⟩ | ⟨hdc, hold⟩
    · rcases hcase d' _ hd' with ⟨hdc', -⟩ | ⟨hdc', hold'⟩
      · rw [hdc, hdc']
      · cases heq
        exact absurd rfl (hother d' pc₂ block₂ _ alive₂ hold' hpc₂ hdc')
    · rcases hcase d' _ hd' with ⟨-, heq⟩ | ⟨-, hold'⟩
      · cases heq
        exact absurd rfl (hother d pc₁ block₁ _ alive₁ hold hpc₁ hdc)
      · exact hi.unique d d' pc₁ pc₂ block₁ block₂ p alive₁ alive₂ hold hold' hpc₁ hpc₂
  · by_cases hpr : p = r.pos
    · subst hpr
      exact ⟨c, pc, r.block, r.alive, by rw [hasked, if_pos rfl], hstatus.mpr hp⟩
    · rw [(hframe p hpr).1] at hp
      obtain ⟨d, pc', block', alive', hd, hpc⟩ := hi.loading p hp
      refine ⟨d, pc', block', alive', ?_, hpc⟩
      rw [hasked, if_neg, hd]
      rintro rfl
      rw [hask] at hd
      cases hd
      exact hpr rfl
  · by_cases hpr : p = r.pos
    · subst hpr
      rw [hoccupied]
      exact hloaded hp
    · obtain ⟨hheader, hdata⟩ := hframe p hpr
      rw [hheader] at hp
      rw [hheader, hdata, hoccupied]
      exact hi.loaded p hp
  · intro d since block' p alive' hd
    rw [hoccupied]
    rcases hcase d _ hd with ⟨-, heq⟩ | ⟨-, hold⟩
    · cases heq
      exact hsince since rfl
    · exact hi.since d since block' p alive' hold
  · intro d block' p alive' hd
    rw [hoccupied]
    rcases hcase d _ hd with ⟨-, heq⟩ | ⟨hdc, hold⟩
    · cases heq
      exact hwritten rfl
    · rw [(hframe p (hother d _ block' p alive' hold rfl hdc)).2]
      exact hi.written d block' p alive' hold
  · rcases hok r' hr' hal ho with hold | ⟨hpos, hst⟩
    · have hloaded' := hi.ok r' hold hal ho
      have hne : r'.pos ≠ r.pos := by
        intro hpos
        rw [hpos] at hloaded'
        exact hbefore hloaded'
      rw [(hframe r'.pos hne).1]
      exact hloaded'
    · rw [hpos]
      exact hst

/-! ## `Ready4Read` -/

theorem asked_setOk {i : Nat} {r' : Reader} (hr' : s.readers[i]? = some r') (d : Nat) :
    (s.setOk i r').asked d = s.asked d := by
  have hcalls : (s.setOk i r').calls = s.calls := rfl
  exact asked_congr hcalls (keys_setOk hr') d

theorem readers_setCall {n : Nat} (hreaders : ∀ call ∈ s.calls, call.reader < n)
    (hc : s.calls[c]? = some call) : ∀ call' ∈ (s.setCall c call pc).calls, call'.reader < n := by
  intro call' hmem
  rcases List.mem_or_eq_of_mem_set hmem with hold | rfl
  · exact hreaders call' hold
  · exact hreaders call (List.mem_of_getElem? hc)

theorem mem_setOk {i : Nat} {r' : Reader} (h : r' ∈ (s.setOk i r).readers) :
    r' ∈ s.readers ∨ r' = { r with ok := true } :=
  List.mem_or_eq_of_mem_set h

theorem LoadInv.look (hi : LoadInv s) (hc : s.calls[c]? = some call)
    (hr : s.readers[call.reader]? = some r) (hpc₀ : call.pc.executing = false)
    (hunder : call.pc.underway = true) (hpc : pc.executing = false) :
    LoadInv (s.setCall c call pc) := by
  have hask := asked_of hc hr
  have halive : r.alive = true := hi.live c _ _ _ _ hask hunder
  refine hi.of_kept ?_ (readers_setCall hi.readers hc) ?_ (fun p => .inl ⟨rfl, rfl, rfl, rfl⟩) ?_
  · intro d pc' block' p alive' hpc'
    rw [asked_setCall hc hr]
    split_ifs with hd
    · subst hd
      rw [hask]
      constructor
      · intro heq
        cases heq
        rw [hpc] at hpc'
        cases hpc'
      · intro heq
        cases heq
        rw [hpc₀] at hpc'
        cases hpc'
    · rfl
  · intro d pc' block' p alive' hd hpc'
    rw [asked_setCall hc hr] at hd
    split_ifs at hd
    · cases hd
      exact halive
    · exact hi.live d pc' block' p alive' hd hpc'
  · intro r' hr' hal ho
    exact ⟨liveReaders_pos hr' hal, hi.ok r' hr' hal ho⟩

theorem LoadInv.setOk (hi : LoadInv s) (hr : s.readers[i]? = some r)
    (hstatus : (s.headers r.pos).status = .loaded) : LoadInv (s.setOk i r) := by
  refine hi.of_kept ?_ ?_ ?_ (fun p => .inl ⟨rfl, rfl, rfl, rfl⟩) ?_
  · intro d pc block p alive _
    rw [asked_setOk hr]
  · intro call hmem
    show _ < (s.readers.set i _).length
    rw [List.length_set]
    exact hi.readers call hmem
  · intro d pc block p alive hd
    rw [asked_setOk hr] at hd
    exact hi.live d pc block p alive hd
  · intro r' hr' hal ho
    rcases mem_setOk hr' with hold | rfl
    · exact ⟨liveReaders_pos hold hal, hi.ok r' hold hal ho⟩
    · exact ⟨liveReaders_pos (r := r) (List.mem_of_getElem? hr) hal, hstatus⟩

theorem LoadInv.nobody (hi : LoadInv s) (hstatus : (s.headers p).status ≠ .loading) (d : Nat)
    {alive : Bool} (hd : s.asked d = some (pc, block, p, alive)) : pc.executing = false := by
  by_contra hexec
  exact hstatus (hi.executing d pc block p alive hd ((Bool.not_eq_false _).mp hexec))

theorem status_setHeader (s : State) (p : Nat) (status : ShareBlockStatus) :
    ((s.setHeader p { s.headers p with status := status }).headers p).status = status := by
  rw [headers_setHeader, if_pos rfl]

theorem frame_setHeader {h : ShareBlockHeader} (hne : q ≠ p) :
    (s.setHeader p h).headers q = s.headers q := by
  rw [headers_setHeader, if_neg hne]

/-- **The step to `LOADING`.** -/
theorem LoadInv.begin (hi : LoadInv s) (hc : s.calls[c]? = some call)
    (hr : s.readers[call.reader]? = some r) (hpc₀ : call.pc = .lock)
    (hstatus : (s.headers r.pos).status = .init) :
    LoadInv { (s.setHeader r.pos { s.headers r.pos with status := .loading }).setCall c call
        (.read (s.occupied r.pos)) with
      data := update s.data r.pos none } := by
  have hask := asked_of hc hr
  have hne : (s.headers r.pos).status ≠ .loading := by
    rw [hstatus]
    decide
  have hstatus' := status_setHeader s r.pos .loading
  refine hi.of_active (hi.live c _ _ _ _ hask (by rw [hpc₀]; rfl)) hask
    (asked_setCall (s := s.setHeader r.pos _) hc hr) ?_ (readers_setCall hi.readers hc) ?_ rfl
    ?_ ?_ ?_ ?_ ?_ fun r' hr' _ _ => .inl hr'
  · intro d pc' block' alive' hd hpc'
    rw [hi.nobody hne d hd] at hpc'
    cases hpc'
  · intro q hq
    exact ⟨frame_setHeader hq, update_of_ne hq _ _⟩
  · exact ⟨fun _ => hstatus', fun _ => rfl⟩
  · intro hloaded
    exact absurd (hstatus'.symm.trans hloaded) (by decide)
  · intro since heq
    cases heq
    rfl
  · intro heq
    cases heq
  · rw [hstatus]
    decide

/-- **The file is read.** -/
theorem LoadInv.read {since : Nat} {ok : Bool} (hi : LoadInv s) (hc : s.calls[c]? = some call)
    (hr : s.readers[call.reader]? = some r) (hpc₀ : call.pc = .read since) :
    LoadInv { s.setCall c call (.write ok) with
      data := update s.data r.pos (if ok then some (r.block, since) else none) } := by
  have hask := asked_of hc hr
  rw [hpc₀] at hask
  have hstatus := hi.executing c _ _ _ _ hask rfl
  refine hi.of_active (hi.live c _ _ _ _ hask rfl) hask (asked_setCall hc hr) ?_
    (readers_setCall hi.readers hc) ?_ rfl ?_ ?_ ?_ ?_ ?_ fun r' hr' _ _ => .inl hr'
  · intro d pc' block' alive' hd hpc'
    exact hi.unique d c _ _ _ _ _ _ _ hd hask hpc' rfl
  · intro q hq
    exact ⟨rfl, update_of_ne hq _ _⟩
  · exact ⟨fun _ => hstatus, fun _ => rfl⟩
  · intro hloaded
    exact absurd (hstatus.symm.trans hloaded) (by decide)
  · intro since' heq
    cases heq
  · intro heq
    cases heq
    show update s.data r.pos _ r.pos = _
    rw [update_self, if_pos rfl, hi.since c since _ _ _ hask]
  · rw [hstatus]
    decide

/-- **The last write of the status.** -/
theorem LoadInv.finish {success : Bool} (hi : LoadInv s) (ht : TableInv cfg s)
    (hc : s.calls[c]? = some call) (hr : s.readers[call.reader]? = some r)
    (hpc₀ : call.pc = .write success) (status : ReadyStatus) :
    LoadInv ((s.setHeader r.pos { s.headers r.pos with
      status := if success then .loaded else .failure }).setCall c call (.returned status)) := by
  have hask := asked_of hc hr
  rw [hpc₀] at hask
  have halive := hi.live c _ _ _ _ hask rfl
  have hloading := hi.executing c _ _ _ _ hask rfl
  have hstatus' := status_setHeader s r.pos (if success then .loaded else .failure)
  refine hi.of_active halive hask (asked_setCall (s := s.setHeader r.pos _) hc hr) ?_
    (readers_setCall hi.readers hc) ?_ rfl ?_ ?_ ?_ ?_ ?_ fun r' hr' _ _ => .inl hr'
  · intro d pc' block' alive' hd hpc'
    exact hi.unique d c _ _ _ _ _ _ _ hd hask hpc' rfl
  · intro q hq
    exact ⟨frame_setHeader hq, rfl⟩
  · constructor
    · intro heq
      cases heq
    · intro heq
      have hne := hstatus'.symm.trans heq
      cases success <;> cases hne
  · intro heq
    have hloaded := hstatus'.symm.trans heq
    cases success with
    | true =>
      have hblock := ht.blocks r (List.mem_of_getElem? hr) halive
      have hid : (s.headers r.pos).id = r.block := (table_eq_some.mp hblock).1
      show s.data r.pos = some (((s.setHeader r.pos _).headers r.pos).id, _)
      rw [headers_setHeader, if_pos rfl, hid]
      exact hi.written c _ _ _ hask
    | false => cases hloaded
  · intro since heq
    cases heq
  · intro heq
    cases heq
  · rw [hloading]
    decide

theorem readyStep_load {ok : Bool} (hi : LoadInv s) (ht : TableInv cfg s)
    (hc : s.calls[c]? = some call) (hr : s.readers[call.reader]? = some r)
    (h : readyStep c call r ok s = some s') : LoadInv s' := by
  obtain ⟨reader, pc⟩ := call
  cases pc with
  | isLoaded =>
    simp only [readyStep] at h
    split_ifs at h with hloaded <;> cases h
    · exact LoadInv.setOk (hi.look hc hr rfl rfl rfl) hr hloaded
    · exact hi.look hc hr rfl rfl rfl
  | isFailure | isLoading =>
    simp only [readyStep] at h
    split_ifs at h <;> cases h <;> exact hi.look hc hr rfl rfl rfl
  | lock =>
    simp only [readyStep] at h
    split_ifs at h with hinit <;> cases h
    · exact hi.begin hc hr rfl hinit
    · exact hi.look hc hr rfl rfl rfl
  | read since =>
    cases h
    exact hi.read hc hr rfl
  | write success =>
    cases success with
    | true =>
      cases h
      exact LoadInv.setOk (hi.finish ht hc hr rfl .ok) hr (status_setHeader s r.pos .loaded)
    | false =>
      cases h
      exact hi.finish ht hc hr rfl .error
  | returned status => cases h

/-! ## `AcquireBlock`, new calls and `ReleaseBlock` -/

theorem asked_enter (hi : LoadInv s) (block : ShareBlockId) (p c : Nat) :
    (s.enter block p).asked c = s.asked c := by
  show (s.calls[c]?.bind fun call => (s.readers ++ _)[call.reader]?.map _) = _
  cases hc : s.calls[c]? with
  | none => rw [State.asked, hc, Option.bind_none, Option.bind_none]
  | some call =>
    rw [State.asked, hc, Option.bind_some, Option.bind_some,
      List.getElem?_append_left (hi.readers call (List.mem_of_getElem? hc))]

theorem LoadInv.enter (hi : LoadInv s) (hcalls : s'.calls = s.calls)
    (hreaders : s'.readers = s.readers) (hslot : ∀ q, Kept s s' q) :
    LoadInv (s'.enter block p) := by
  have hasked : ∀ c, (s'.enter block p).asked c = s.asked c := by
    intro c
    rw [← asked_enter hi block p c]
    show (s'.calls[c]?.bind fun call => (s'.readers ++ _)[call.reader]?.map _) = _
    rw [hcalls, hreaders]
    rfl
  refine hi.of_kept ?_ ?_ ?_ hslot ?_
  · intro c pc block p alive _
    rw [hasked]
  · intro call hmem
    show _ < (s'.readers ++ _).length
    have hmem' : call ∈ s'.calls := hmem
    rw [hcalls] at hmem'
    have hlt := hi.readers call hmem'
    rw [hreaders, List.length_append]
    omega
  · intro c pc block p alive hask
    rw [hasked] at hask
    exact hi.live c pc block p alive hask
  · intro r' hr' hal ho
    rcases List.mem_append.mp hr' with hold | hnew
    · rw [hreaders] at hold
      exact ⟨liveReaders_pos hold hal, hi.ok r' hold hal ho⟩
    · rw [List.mem_singleton.mp hnew] at ho
      cases ho

theorem kept_refer (ht : TableInv cfg s) (hp : p < cfg.blockNumber) (q : Nat) :
    Kept s (s.setHeader p (s.headers p).refer) q := by
  by_cases hq : q = p
  · subst hq
    by_cases hreset : (s.headers q).ref = 0 ∧ (s.headers q).status ≠ .loaded
    · refine .inr ⟨ht.no_readers hp (by omega), ?_⟩
      rw [headers_setHeader, if_pos rfl]
      exact if_pos hreset
    · refine .inl ⟨?_, ?_, rfl, rfl⟩
      · rw [headers_setHeader, if_pos rfl]
        exact if_neg hreset
      · exact id_setHeader (h := (s.headers q).refer) rfl q
  · refine .inl ⟨?_, ?_, rfl, rfl⟩ <;> rw [frame_setHeader hq]

theorem kept_occupy (hlive : s.liveReaders p = 0) (block : ShareBlockId) (q : Nat) :
    Kept s (s.occupy p block) q := by
  by_cases hq : q = p
  · subst hq
    refine .inr ⟨hlive, ?_⟩
    show ((s.setHeader q _).headers q).status = _
    rw [headers_setHeader, if_pos rfl]
    rfl
  · refine .inl ⟨?_, ?_, rfl, update_of_ne hq _ _⟩
    · show ((s.setHeader p _).headers q).status = _
      rw [frame_setHeader hq]
    · show ((s.setHeader p _).headers q).id = _
      rw [frame_setHeader hq]

theorem LoadInv.congr (hi : LoadInv s) (acquiring : Option Acquire) :
    LoadInv { s with acquiring := acquiring } :=
  ⟨hi.readers, hi.live, hi.executing, hi.unique, hi.loading, hi.loaded, hi.since, hi.written, hi.ok⟩

theorem acquireStep_load {a : Acquire} (hi : LoadInv s) (ht : TableInv cfg s)
    (ha : s.acquiring = some a) : LoadInv (acquireStep cfg a s) := by
  rcases acquireStep_cases ht ha with ⟨p, hp, -, heq⟩ | ⟨p, -, -, -, -, -, hlive, heq⟩ |
    ⟨pc, -, heq⟩ | heq
  · rw [heq]
    exact hi.enter rfl rfl (kept_refer ht hp)
  · rw [heq]
    exact hi.enter rfl rfl (kept_occupy hlive a.block)
  · rw [heq]
    exact hi.congr _
  · rw [heq]
    exact hi.congr _

theorem asked_ready (hr : s.readers[i]? = some r) (d : Nat) :
    State.asked { s with calls := s.calls ++ [⟨i, .isLoaded⟩] } d =
      if d = s.calls.length then some (.isLoaded, r.block, r.pos, r.alive) else s.asked d := by
  show ((s.calls ++ [⟨i, .isLoaded⟩])[d]?.bind fun call => s.readers[call.reader]?.map _) = _
  rcases Nat.lt_trichotomy d s.calls.length with hlt | heq | hgt
  · rw [if_neg (by omega), List.getElem?_append_left hlt]
    rfl
  · rw [if_pos heq, heq, List.getElem?_concat_length, Option.bind_some, hr]
    rfl
  · have hnone : s.calls[d]? = none := List.getElem?_eq_none (by omega)
    have hnone' : (s.calls ++ [⟨i, .isLoaded⟩])[d]? = none := by
      refine List.getElem?_eq_none ?_
      rw [List.length_append, List.length_singleton]
      omega
    rw [if_neg (by omega), hnone', State.asked, hnone, Option.bind_none]

/-- **A reader is asked.** -/
theorem LoadInv.ready (hi : LoadInv s) (hr : s.readers[i]? = some r) (halive : r.alive = true) :
    LoadInv { s with calls := s.calls ++ [⟨i, .isLoaded⟩] } := by
  obtain ⟨hlt, -⟩ := List.getElem?_eq_some_iff.mp hr
  have hend : s.asked s.calls.length = none := by
    rw [State.asked, List.getElem?_eq_none (Nat.le_refl _), Option.bind_none]
  refine hi.of_kept ?_ ?_ ?_ (fun p => .inl ⟨rfl, rfl, rfl, rfl⟩) ?_
  · intro d pc block p alive hpc
    rw [asked_ready hr]
    split_ifs with hd
    · rw [hd, hend]
      constructor
      · intro heq
        cases heq
        cases hpc
      · intro heq
        cases heq
    · rfl
  · intro call hmem
    rcases List.mem_append.mp hmem with hold | hnew
    · exact hi.readers call hold
    · rw [List.mem_singleton.mp hnew]
      exact hlt
  · intro d pc block p alive hd hpc
    rw [asked_ready hr] at hd
    split_ifs at hd
    · cases hd
      exact halive
    · exact hi.live d pc block p alive hd hpc
  · intro r' hr' hal ho
    exact ⟨liveReaders_pos hr' hal, hi.ok r' hr' hal ho⟩

theorem asked_leave {x : ShareBlockId × Nat × Bool} (hidle : s.idle i = true)
    (hunder : pc.underway = true) (d : Nat) :
    (s.leave i r).asked d = some (pc, x) ↔ s.asked d = some (pc, x) := by
  have hne : ∀ call, s.calls[d]? = some call → call.pc = pc → call.reader ≠ i := by
    rintro call hc rfl hreader
    have hall := List.all_eq_true.mp hidle call (List.mem_of_getElem? hc)
    simp only [hreader, hunder, ne_eq, not_true_eq_false, decide_false, Bool.not_true,
      Bool.or_self, Bool.false_eq_true] at hall
  have hread : ∀ call : Call, call.reader ≠ i →
      (s.leave i r).readers[call.reader]? = s.readers[call.reader]? := by
    intro call hcall
    exact List.getElem?_set_ne (Ne.symm hcall)
  constructor
  · intro hd
    obtain ⟨call, r', hc, hr', hx⟩ := exists_of_asked hd
    have hpc : call.pc = pc := (congrArg Prod.fst hx).symm
    rw [hread call (hne call hc hpc)] at hr'
    rw [asked_of (s := s) hc hr', hx]
  · intro hd
    obtain ⟨call, r', hc, hr', hx⟩ := exists_of_asked hd
    have hpc : call.pc = pc := (congrArg Prod.fst hx).symm
    rw [← hread call (hne call hc hpc)] at hr'
    rw [asked_of (s := s.leave i r) hc hr', hx]

/-- **A reader is destroyed.** -/
theorem LoadInv.leave (hi : LoadInv s) (hidle : s.idle i = true) : LoadInv (s.leave i r) := by
  refine hi.of_kept ?_ ?_ ?_ (fun p => .inl ⟨?_, id_leave s i r p, rfl, rfl⟩) ?_
  · intro d pc block p alive hpc
    exact asked_leave hidle (ReadyPc.executing_underway hpc) d
  · intro call hmem
    show _ < (s.readers.set i _).length
    rw [List.length_set]
    exact hi.readers call hmem
  · intro d pc block p alive hd hpc
    exact hi.live d pc block p alive ((asked_leave hidle hpc d).mp hd) hpc
  · show ((s.setHeader r.pos _).headers p).status = _
    rw [headers_setHeader]
    split_ifs with hp
    · rw [hp]
      rfl
    · rfl
  · intro r' hr' hal ho
    rcases List.mem_or_eq_of_mem_set hr' with hold | rfl
    · exact ⟨liveReaders_pos hold hal, hi.ok r' hold hal ho⟩
    · cases hal

/-! ## The run -/

/-- **What one event does** to the loads. -/
theorem loadInv_step {e : Event} (hi : LoadInv s) (ht : TableInv cfg s)
    (h : step cfg s e = some s') : LoadInv s' := by
  cases e with
  | acquire block =>
    simp only [step] at h
    split_ifs at h
    cases h
    exact hi.congr _
  | probe =>
    obtain ⟨a, ha, rfl⟩ := Option.map_eq_some_iff.mp h
    exact acquireStep_load hi ht ha
  | ready i =>
    simp only [step] at h
    split at h
    · next r hr =>
      split_ifs at h with halive
      cases h
      exact hi.ready hr halive
    · cases h
  | call c ok =>
    obtain ⟨call, hc, h⟩ := Option.bind_eq_some_iff.mp h
    obtain ⟨r, hr, h⟩ := Option.bind_eq_some_iff.mp h
    exact readyStep_load hi ht hc hr h
  | release i =>
    simp only [step] at h
    split at h
    · split_ifs at h with halive
      cases h
      exact hi.leave halive.2
    · cases h

theorem loadInv_start : LoadInv .start where
  readers := fun call hcall => by cases hcall
  live := fun c pc block p alive hask => by cases hask
  executing := fun c pc block p alive hask => by cases hask
  unique := fun c c' pc pc' block block' p alive alive' hask => by cases hask
  loading := fun p hp => by cases hp
  loaded := fun p hp => by cases hp
  since := fun c since block p alive hask => by cases hask
  written := fun c block p alive hask => by cases hask
  ok := fun r hr => by cases hr

theorem loadInv_of_reachable (h : (machine cfg).Reachable s) : TableInv cfg s ∧ LoadInv s := by
  refine h.inv (I := fun s => TableInv cfg s ∧ LoadInv s) ?_ fun s e s' hi _ hstep =>
    ⟨tableInv_step hi.1 hstep, loadInv_step hi.2 hi.1 hstep⟩
  rintro s rfl
  exact ⟨tableInv_start cfg, loadInv_start⟩

/-! ## What the readers get -/

theorem LoadInv.data_of_ok (hi : LoadInv s) (ht : TableInv cfg s) (hr : r ∈ s.readers)
    (halive : r.alive = true) (hok : r.ok = true) :
    s.data r.pos = some (r.block, s.occupied r.pos) := by
  have hblock := ht.blocks r hr halive
  rw [← (table_eq_some.mp hblock).1]
  exact hi.loaded r.pos (hi.ok r hr halive hok)

theorem readyStep_ok {ok : Bool} {call' : Call} (hc : s.calls[c]? = some call)
    (hr : s.readers[call.reader]? = some r) (h : readyStep c call r ok s = some s')
    (hc' : s'.calls[c]? = some call') (hpc' : call'.pc = .returned .ok) :
    s'.readers[call'.reader]? = some { r with ok := true } := by
  obtain ⟨hlt, -⟩ := List.getElem?_eq_some_iff.mp hc
  obtain ⟨hltr, -⟩ := List.getElem?_eq_some_iff.mp hr
  have hnot : ∀ pc, pc ≠ .returned .ok →
      s'.calls = s.calls.set c { call with pc := pc } → False := by
    intro pc hpc hcalls
    rw [hcalls, List.getElem?_set_self hlt] at hc'
    cases hc'
    exact hpc hpc'
  have hyes : ∀ pc, s'.calls = s.calls.set c { call with pc := pc } →
      s'.readers = s.readers.set call.reader { r with ok := true } →
      s'.readers[call'.reader]? = some { r with ok := true } := by
    intro pc hcalls hreaders
    rw [hcalls, List.getElem?_set_self hlt] at hc'
    cases hc'
    rw [hreaders]
    exact List.getElem?_set_self hltr
  obtain ⟨reader, pc⟩ := call
  cases pc with
  | isLoaded =>
    simp only [readyStep] at h
    split_ifs at h <;> cases h
    · exact hyes (.returned .ok) rfl rfl
    · exact (hnot .isFailure (by decide) rfl).elim
  | isFailure =>
    simp only [readyStep] at h
    split_ifs at h <;> cases h
    · exact (hnot (.returned .error) (by decide) rfl).elim
    · exact (hnot .isLoading (by decide) rfl).elim
  | isLoading =>
    simp only [readyStep] at h
    split_ifs at h <;> cases h
    · exact (hnot (.returned .retry) (by decide) rfl).elim
    · exact (hnot .lock (by decide) rfl).elim
  | lock =>
    simp only [readyStep] at h
    split_ifs at h <;> cases h
    · exact (hnot (.read _) (by simp) rfl).elim
    · exact (hnot (.returned .retry) (by decide) rfl).elim
  | read since =>
    cases h
    exact (hnot (.write ok) (by simp) rfl).elim
  | write success =>
    cases success with
    | true =>
      cases h
      exact hyes (.returned .ok) rfl rfl
    | false =>
      cases h
      exact (hnot (.returned .error) (by decide) rfl).elim
  | returned status => cases h

theorem readyStep_data {ok : Bool} (h : readyStep c call r ok s = some s') (p : Nat) :
    s'.data p = s.data p ∨ p = r.pos ∧
      ((s.headers r.pos).status = .init ∨ call.pc.executing = true) := by
  obtain ⟨reader, pc⟩ := call
  have hupdate : ∀ x, update s.data r.pos x p = s.data p ∨ p = r.pos := by
    intro x
    by_cases hp : p = r.pos
    · exact .inr hp
    · exact .inl (update_of_ne hp _ _)
  cases pc with
  | lock =>
    simp only [readyStep] at h
    split_ifs at h with hinit <;> cases h
    · exact (hupdate none).imp_right fun hp => ⟨hp, .inl hinit⟩
    · exact .inl rfl
  | read since =>
    cases h
    exact (hupdate _).imp_right fun hp => ⟨hp, .inr rfl⟩
  | isLoaded | isFailure | isLoading =>
    simp only [readyStep] at h
    split_ifs at h <;> cases h <;> exact .inl rfl
  | write success =>
    cases success <;> cases h <;> exact .inl rfl
  | returned status => cases h

theorem step_data {e : Event} (hi : LoadInv s) (ht : TableInv cfg s) (h : step cfg s e = some s')
    (hloaded : (s.headers p).status = .loaded) : s'.data p = s.data p := by
  cases e with
  | acquire block =>
    simp only [step] at h
    split_ifs at h
    cases h
    rfl
  | probe =>
    obtain ⟨a, ha, rfl⟩ := Option.map_eq_some_iff.mp h
    rcases acquireStep_cases ht ha with ⟨q, -, -, heq⟩ | ⟨q, -, -, -, -, -, -, heq⟩ |
      ⟨pc, -, heq⟩ | heq <;> rw [heq] <;> rfl
  | ready i | release i =>
    simp only [step] at h
    split at h
    · split_ifs at h
      cases h
      rfl
    · cases h
  | call c ok =>
    obtain ⟨call, hc, h⟩ := Option.bind_eq_some_iff.mp h
    obtain ⟨r, hr, h⟩ := Option.bind_eq_some_iff.mp h
    rcases readyStep_data h p with hsame | ⟨rfl, hinit | hexec⟩
    · exact hsame
    · exact absurd (hinit.symm.trans hloaded) (by decide)
    · have hloading := hi.executing c _ _ _ _ (asked_of hc hr) hexec
      exact absurd (hloading.symm.trans hloaded) (by decide)

theorem exists_asked_of_reading (h : s.Reading c p) :
    ∃ since block alive, s.asked c = some (.read since, block, p, alive) := by
  obtain ⟨call, r, since, hc, hpc, hr, rfl⟩ := h
  refine ⟨since, r.block, r.alive, ?_⟩
  rw [← hpc]
  exact asked_of hc hr

/-- **Loading through the shared buffer**: one call at most reads the file into a slot; a call returns
`OK` only when the slot has the bytes of a complete read of the reader's block that began after the
slot was last occupied; a slot is `LOADING` only while a live reader executes the read; and while a
live reader that got `OK` has a slot, its bytes are neither changed nor being read into. -/
theorem loads_exclusive (cfg : Config) (s : State) (h : (machine cfg).Reachable s) :
    (∀ c c' p, s.Reading c p → s.Reading c' p → c = c') ∧
      (∀ c ok s' call r, (machine cfg).step s (.call c ok) = some s' → s'.calls[c]? = some call →
        call.pc = .returned .ok → s'.readers[call.reader]? = some r →
        s'.data r.pos = some (r.block, s'.occupied r.pos)) ∧
      (∀ p, (s.headers p).status = .loading → ∃ c, s.Executing c p) ∧
      ∀ r ∈ s.readers, r.alive = true → r.ok = true →
        (∀ c, ¬ s.Reading c r.pos) ∧
        ∀ e s', (machine cfg).step s e = some s' → s'.data r.pos = s.data r.pos := by
  obtain ⟨ht, hi⟩ := loadInv_of_reachable h
  refine ⟨?_, ?_, ?_, ?_⟩
  · intro c c' p hc hc'
    obtain ⟨since, block, alive, hask⟩ := exists_asked_of_reading hc
    obtain ⟨since', block', alive', hask'⟩ := exists_asked_of_reading hc'
    exact hi.unique c c' _ _ _ _ _ _ _ hask hask' rfl rfl
  · intro c ok s' call' r' hstep hc' hpc' hr'
    have hstep : step cfg s (.call c ok) = some s' := hstep
    have ht' := tableInv_step ht hstep
    have hi' := loadInv_step hi ht hstep
    obtain ⟨call, hc, hstep⟩ := Option.bind_eq_some_iff.mp hstep
    obtain ⟨r, hr, hstep⟩ := Option.bind_eq_some_iff.mp hstep
    have hok := readyStep_ok hc hr hstep hc' hpc'
    rw [hok] at hr'
    have hunder : call.pc.underway = true := by
      obtain ⟨reader, pc⟩ := call
      cases pc with
      | returned status => cases hstep
      | _ => rfl
    have halive : r.alive = true := hi.live c _ _ _ _ (asked_of hc hr) hunder
    cases hr'
    exact hi'.data_of_ok ht' (List.mem_of_getElem? hok) halive rfl
  · intro p hp
    obtain ⟨c, pc, block, alive, hask, hexec⟩ := hi.loading p hp
    have halive := hi.live c pc block p alive hask (ReadyPc.executing_underway hexec)
    obtain ⟨call, r, hc, hr, hx⟩ := exists_of_asked hask
    cases hx
    exact ⟨c, call, r, hc, hexec, hr, halive, rfl⟩
  · intro r hr halive hok
    have hloaded := hi.ok r hr halive hok
    refine ⟨fun c hc => ?_, fun e s' hstep => step_data hi ht hstep hloaded⟩
    obtain ⟨since, block, alive, hask⟩ := exists_asked_of_reading hc
    have hloading := hi.executing c _ _ _ _ hask rfl
    exact absurd (hloading.symm.trans hloaded) (by decide)

/-- Two readers of a block are made and asked: the first one reads the file, the other one is told to try
again. -/
def loadOne : List Event :=
  [.acquire ⟨2, 0⟩, .probe, .acquire ⟨2, 0⟩, .probe, .ready 0, .ready 1] ++
    List.replicate 4 (.call 0 true) ++ List.replicate 3 (.call 1 true) ++ [.call 0 true]

/-- The first reader executes the read and gets the bytes of its block. -/
theorem loads_exclusive_one : ∃ s s', (machine .two).Reachable s ∧
    (machine .two).step s (.call 0 true) = some s' ∧ (∃ c, s.Executing c 0) ∧
    s.calls[1]? = some ⟨1, .returned .retry⟩ ∧ s'.data 0 = some (⟨2, 0⟩, s'.occupied 0) := by
  obtain ⟨s, hs, hp⟩ := Machine.exists_reachable_of_run (M := machine .two) (s := .start)
    (l := loadOne) (p := fun s => (s.headers 0).status = .loading ∧
      s.calls[1]? = some (Call.mk 1 (.returned .retry)) ∧
      ∃ s' ∈ step .two s (.call 0 true), s'.calls[0]? = some (Call.mk 0 (.returned .ok)) ∧
        s'.readers[0]? = some (Reader.mk ⟨2, 0⟩ 0 true true)) rfl (by decide +kernel)
  obtain ⟨hloading, hretry, s', hstep, hc, hr⟩ := hp
  obtain ⟨-, hok, hexec, -⟩ := loads_exclusive .two s hs
  exact ⟨s, s', hs, hstep, hexec 0 hloading, hretry, hok 0 true s' _ _ hstep hc rfl hr⟩

end UnifiedCache.PcStore.ShareBuffer
