import UnifiedCache.Sparse.Proofs.RetrievalBackendProofs

/-!
# Proofs: every request is served once

Every request is in one place: with its `submit`, in the queue, with a worker, or over; and it is over
when its `done` is set. So its result is stored once, and it was made from this request (`ServeInv`).
What a fetch makes of it is settled row by row.
-/

open Function Lib Lib.PartialSort

namespace UnifiedCache.Sparse.RetrievalBackend

section Runs

variable {δ β γ : Type} {k : Kernel δ β} {n w i id : Nat} {s s' : State δ β} {e : Event δ β}
  {r r' : Request δ}

/-! ## The invariant -/

/-- A request with this `done`. -/
structure Pending (numbered : List (Request δ)) (requestStatus : Nat → Option Bool) (done : Option Bool)
    (r : Request δ) : Prop where
  numbered : numbered[r.reqId]? = some r
  status : requestStatus r.reqId = done

/-- The result was made from the request with this id. -/
def Stored [Inhabited δ] (k : Kernel δ β) (numbered : List (Request δ)) (id : Nat) (res : Result β) :
    Prop :=
  ∃ r heaps, numbered[id]? = some r ∧ Request.Sorted r k heaps ∧ res = r.result heaps

/-- How often a result with this id has been fetched or can be. -/
def State.copies (s : State δ β) (id : Nat) : Nat :=
  s.gets.countP (fun g => g.1 = id && g.2.isSome) + (s.results id).isSome.toNat

theorem poll_iff (h : s.copies id = 1) : s.poll id = true ↔ ∀ x, (id, some x) ∉ s.gets := by
  have hgets : (∀ x, (id, some x) ∉ s.gets) ↔
      s.gets.countP (fun g => g.1 = id && g.2.isSome) = 0 := by
    rw [List.countP_eq_zero]
    constructor
    · rintro hnone ⟨id', x⟩ hg hid
      obtain ⟨rfl, hsome⟩ := (Bool.and_eq_true_iff.mp hid).imp_left of_decide_eq_true
      obtain ⟨x, rfl⟩ := Option.isSome_iff_exists.mp hsome
      exact hnone x hg
    · intro hnone x hx
      exact hnone _ hx (by rw [decide_eq_true rfl]; rfl)
  rw [hgets]
  unfold State.copies at h
  unfold State.poll
  cases hres : (s.results id).isSome with
  | true =>
    rw [hres, Bool.toNat_true] at h
    exact iff_of_true rfl (by omega)
  | false =>
    rw [hres, Bool.toNat_false] at h
    exact iff_of_false Bool.false_ne_true (by omega)

/-- The invariant. -/
structure ServeInv [Inhabited δ] (k : Kernel δ β) (s : State δ β) : Prop where
  next : s.nextReqId = s.numbered.length
  ids : ∀ (id : Nat) (r : Request δ), s.numbered[id]? = some r → r.reqId = id
  fresh : ∀ id, s.numbered.length ≤ id → s.requestStatus id = none
  submitting : ∀ r ∈ s.submitting, Pending s.numbered s.requestStatus none r
  submittingNodup : s.submitting.Nodup
  requests : ∀ r ∈ s.requests, Pending s.numbered s.requestStatus (some false) r
  requestsNodup : s.requests.Nodup
  worker : ∀ w r, s.worker w = some r → Pending s.numbered s.requestStatus (some false) r ∧ r ∉ s.requests
  unique : ∀ w w' r, s.worker w = some r → s.worker w' = some r → w = w'
  results : ∀ id res, s.results id = some res → Stored k s.numbered id res
  gets : ∀ id x, (id, some x) ∈ s.gets → ∃ res, Stored k s.numbered id res ∧ x = res.fetch
  finished : ∀ id, s.requestStatus id = some true → s.copies id = 1
  unfinished : ∀ id, s.requestStatus id ≠ some true → s.copies id = 0
  waits : ∀ id ∈ s.waits, s.requestStatus id = some true

section Pending

variable {numbered : List (Request δ)} {requestStatus : Nat → Option Bool} {done done' : Option Bool}

theorem Pending.ext (h : Pending numbered requestStatus done r)
    (h' : Pending numbered requestStatus done' r') (hid : r.reqId = r'.reqId) : r = r' := by
  have heq := h.numbered.symm.trans (hid ▸ h'.numbered)
  exact Option.some.inj heq

theorem Pending.update {b : Bool} (h : Pending numbered requestStatus done r) (hne : r.reqId ≠ id) :
    Pending numbered (update requestStatus id (some b)) done r where
  numbered := h.numbered
  status := by rw [update_of_ne hne, h.status]

theorem getElem?_concat (h : numbered[id]? = some r') (r : Request δ) :
    (numbered ++ [r])[id]? = some r' := by
  rw [List.getElem?_append_left (List.getElem?_eq_some_iff.mp h).1, h]

theorem Pending.concat (h : Pending numbered requestStatus done r') (r : Request δ) :
    Pending (numbered ++ [r]) requestStatus done r' where
  numbered := getElem?_concat h.numbered r
  status := h.status

theorem Stored.concat [Inhabited δ] {res : Result β} (h : Stored k numbered id res) (r : Request δ) :
    Stored k (numbered ++ [r]) id res := by
  obtain ⟨r', heaps, hr', hsorted, rfl⟩ := h
  exact ⟨r', heaps, getElem?_concat hr' r, hsorted, rfl⟩

end Pending

/-! ## Steps -/

theorem toRequest_reqId {query : Array2 δ} {topk : Nat} {indexes : Array2 Int}
    (h : k.toRequest id query topk indexes = .ok r) : r.reqId = id := by
  unfold Kernel.toRequest at h
  split_ifs at h
  cases h
  rfl

variable [Inhabited δ]

theorem ServeInv.submit (h : ServeInv k s) (query : Array2 δ) (topk : Nat) (indexes : Array2 Int) :
    ServeInv k (s.submit k query topk indexes) := by
  unfold State.submit
  split
  · exact h
  next r hr =>
  have hid := toRequest_reqId hr
  rw [h.next] at hid
  have hnew : r ∉ s.submitting := by
    intro hmem
    have hlt := (List.getElem?_eq_some_iff.mp (h.submitting r hmem).numbered).1
    omega
  refine
    { next := ?_
      ids := fun id r' hr' => ?_
      fresh := fun id hid' => h.fresh id ?_
      submitting := fun r' hr' => ?_
      submittingNodup := ?_
      requests := fun r' hr' => (h.requests r' hr').concat r
      requestsNodup := h.requestsNodup
      worker := fun w r' hw => ⟨(h.worker w r' hw).1.concat r, (h.worker w r' hw).2⟩
      unique := h.unique
      results := fun id res hres => (h.results id res hres).concat r
      gets := fun id x hx => ?_
      finished := h.finished
      unfinished := h.unfinished
      waits := h.waits }
  · simp only [List.length_append, List.length_singleton, h.next]
  · have hr'' : (s.numbered ++ [r])[id]? = some r' := hr'
    by_cases hlt : id < s.numbered.length
    · rw [List.getElem?_append_left hlt] at hr''
      exact h.ids id r' hr''
    · rw [List.getElem?_append_right (by omega), List.getElem?_singleton] at hr''
      split_ifs at hr'' with hzero
      cases hr''
      omega
  · simp only [List.length_append, List.length_singleton] at hid'
    omega
  · rcases List.mem_append.mp hr' with hmem | hmem
    · exact (h.submitting r' hmem).concat r
    · rw [List.mem_singleton.mp hmem]
      refine ⟨?_, h.fresh _ hid.ge⟩
      rw [hid]
      exact List.getElem?_concat_length
  · rw [List.nodup_append]
    refine ⟨h.submittingNodup, List.nodup_singleton r, fun a ha b hb => ?_⟩
    rw [List.mem_singleton.mp hb]
    rintro rfl
    exact hnew ha
  · obtain ⟨res, hres, rfl⟩ := h.gets id x hx
    exact ⟨res, hres.concat r, rfl⟩

theorem not_mem_eraseIdx {α : Type*} {l : List α} {x : α} (hl : l.Nodup) (h : l[i]? = some x) :
    x ∉ l.eraseIdx i := by
  intro hmem
  obtain ⟨j, hj, hx⟩ := List.mem_eraseIdx_iff_getElem?.mp hmem
  have hlt := (List.getElem?_eq_some_iff.mp h).1
  exact hj ((List.getElem?_inj hlt hl).mp (h.trans hx.symm)).symm

theorem ServeInv.push (h : ServeInv k s) (hs : s.push i = some s') : ServeInv k s' := by
  unfold State.push at hs
  rw [Option.bind_eq_bind, Option.bind_eq_some_iff] at hs
  obtain ⟨r, hr, hs⟩ := hs
  have hpending := h.submitting r (List.mem_of_getElem? hr)
  have hfalse : ∀ r', Pending s.numbered s.requestStatus (some false) r' → r'.reqId ≠ r.reqId := by
    intro r' hr' heq
    have hstatus := hr'.status
    rw [heq, hpending.status] at hstatus
    cases hstatus
  cases hs
  refine
    { next := h.next
      ids := h.ids
      fresh := fun id hid => ?_
      submitting := fun r' hr' => ?_
      submittingNodup := (List.eraseIdx_sublist s.submitting i).nodup h.submittingNodup
      requests := fun r' hr' => ?_
      requestsNodup := ?_
      worker := fun w r' hw => ?_
      unique := h.unique
      results := h.results
      gets := h.gets
      finished := fun id hid => h.finished id ?_
      unfinished := fun id hid => h.unfinished id ?_
      waits := fun id hid => ?_ }
  · have hlt := (List.getElem?_eq_some_iff.mp hpending.numbered).1
    have hle : s.numbered.length ≤ id := hid
    dsimp only
    rw [update_of_ne (by omega), h.fresh id hle]
  · have hmem := (List.eraseIdx_sublist s.submitting i).subset hr'
    refine (h.submitting r' hmem).update fun heq => ?_
    rw [(h.submitting r' hmem).ext hpending heq] at hr'
    exact not_mem_eraseIdx h.submittingNodup hr hr'
  · rcases List.mem_append.mp hr' with hmem | hmem
    · exact (h.requests r' hmem).update (hfalse r' (h.requests r' hmem))
    · rw [List.mem_singleton.mp hmem]
      exact ⟨hpending.numbered, update_self _ _ _⟩
  · rw [List.nodup_append]
    refine ⟨h.requestsNodup, List.nodup_singleton r, fun a ha b hb => ?_⟩
    rw [List.mem_singleton.mp hb]
    rintro rfl
    exact hfalse _ (h.requests _ ha) rfl
  · obtain ⟨hpending', hnot⟩ := h.worker w r' hw
    refine ⟨hpending'.update (hfalse r' hpending'), fun hmem => ?_⟩
    rcases List.mem_append.mp hmem with hmem | hmem
    · exact hnot hmem
    · rw [List.mem_singleton.mp hmem] at hpending'
      exact hfalse r hpending' rfl
  · have hid' : update s.requestStatus r.reqId (some false) id = some true := hid
    by_cases heq : id = r.reqId
    · rw [heq, update_self] at hid'
      cases hid'
    · rwa [update_of_ne heq] at hid'
  · have hid' : update s.requestStatus r.reqId (some false) id ≠ some true := hid
    by_cases heq : id = r.reqId
    · rw [heq, hpending.status]
      exact nofun
    · rwa [update_of_ne heq] at hid'
  · have hdone := h.waits id hid
    dsimp only
    rw [update_of_ne, hdone]
    rintro rfl
    rw [hpending.status] at hdone
    cases hdone

theorem ServeInv.waitReturn (h : ServeInv k s) (hs : s.waitReturn i = some s') : ServeInv k s' := by
  unfold State.waitReturn at hs
  rw [Option.bind_eq_bind, Option.bind_eq_some_iff] at hs
  obtain ⟨id, -, hs⟩ := hs
  split_ifs at hs with hdone
  cases hs
  refine { h with waits := fun id' hid' => ?_ }
  rcases List.mem_append.mp hid' with hid' | hid'
  · exact h.waits id' hid'
  · rw [List.mem_singleton.mp hid']
    exact hdone

theorem ServeInv.getResult (h : ServeInv k s) (id : Nat) : ServeInv k (s.getResult id) := by
  have hcopies : ∀ id', (s.getResult id).copies id' = s.copies id' := by
    intro id'
    unfold State.copies State.getResult
    dsimp only
    rw [List.countP_append, List.countP_singleton, Option.isSome_map]
    by_cases heq : id' = id
    · subst heq
      rw [update_self, decide_eq_true rfl, Bool.true_and]
      cases (s.results id').isSome
      · rfl
      · rfl
    · rw [update_of_ne heq, decide_eq_false fun h => heq h.symm]
      rfl
  refine { h with
    results := fun id' res hres => ?_
    gets := fun id' x hx => ?_
    finished := fun id' hid' => (hcopies id').trans (h.finished id' hid')
    unfinished := fun id' hid' => (hcopies id').trans (h.unfinished id' hid') }
  · have hres' : update s.results id none id' = some res := hres
    by_cases heq : id' = id
    · rw [heq, update_self] at hres'
      cases hres'
    · rw [update_of_ne heq] at hres'
      exact h.results id' res hres'
  · rcases List.mem_append.mp hx with hx | hx
    · exact h.gets id' x hx
    · obtain ⟨rfl, hx⟩ := Prod.mk.inj (List.mem_singleton.mp hx)
      obtain ⟨res, hres, rfl⟩ := Option.map_eq_some_iff.mp hx.symm
      exact ⟨res, h.results _ res hres, rfl⟩

theorem ServeInv.pop (h : ServeInv k s) (hs : s.pop w = some s') : ServeInv k s' := by
  unfold State.pop at hs
  split at hs
  · next r requests hw hrequests =>
    have hnodup := h.requestsNodup
    have hpending := h.requests r (hrequests ▸ List.mem_cons_self)
    rw [hrequests, List.nodup_cons] at hnodup
    -- nobody else has the request
    have hother : ∀ w', s.worker w' ≠ some r := by
      intro w' hw'
      exact (h.worker w' r hw').2 (hrequests ▸ List.mem_cons_self)
    cases hs
    refine { h with
      requests := fun r' hr' => h.requests r' (hrequests ▸ List.mem_cons_of_mem r hr')
      requestsNodup := hnodup.2
      worker := fun w' r' hw' => ?_
      unique := fun w₁ w₂ r' hw₁ hw₂ => ?_ }
    · have hw'' : update s.worker w (some r) w' = some r' := hw'
      by_cases heq : w' = w
      · rw [heq, update_self] at hw''
        cases hw''
        exact ⟨hpending, hnodup.1⟩
      · rw [update_of_ne heq] at hw''
        obtain ⟨hpending', hnot⟩ := h.worker w' r' hw''
        exact ⟨hpending', fun hmem => hnot (hrequests ▸ List.mem_cons_of_mem r hmem)⟩
    · have hw₁' : update s.worker w (some r) w₁ = some r' := hw₁
      have hw₂' : update s.worker w (some r) w₂ = some r' := hw₂
      by_cases heq₁ : w₁ = w
      · by_cases heq₂ : w₂ = w
        · exact heq₁.trans heq₂.symm
        · rw [heq₁, update_self] at hw₁'
          rw [update_of_ne heq₂, ← hw₁'] at hw₂'
          exact absurd hw₂' (hother w₂)
      · rw [update_of_ne heq₁] at hw₁'
        by_cases heq₂ : w₂ = w
        · rw [heq₂, update_self] at hw₂'
          rw [← hw₂'] at hw₁'
          exact absurd hw₁' (hother w₁)
        · rw [update_of_ne heq₂] at hw₂'
          exact h.unique w₁ w₂ r' hw₁' hw₂'
  · cases hs

theorem ServeInv.finish [DecidableEq β] {heaps : List (List (β × Int))} (h : ServeInv k s)
    (hs : s.finish k w heaps = some s') : ServeInv k s' := by
  unfold State.finish at hs
  rw [Option.bind_eq_bind, Option.bind_eq_some_iff] at hs
  obtain ⟨r, hw, hs⟩ := hs
  split_ifs at hs with hsorted
  obtain ⟨hpending, hnot⟩ := h.worker w r hw
  -- the worker is the only one with the request
  have hother : ∀ w' r', update s.worker w none w' = some r' →
      s.worker w' = some r' ∧ r' ≠ r := by
    intro w' r' hw'
    by_cases heq : w' = w
    · rw [heq, update_self] at hw'
      cases hw'
    · rw [update_of_ne heq] at hw'
      refine ⟨hw', ?_⟩
      rintro rfl
      exact heq (h.unique w' w r' hw' hw)
  have hne : ∀ r', Pending s.numbered s.requestStatus (some false) r' → r' ≠ r → r'.reqId ≠ r.reqId :=
    fun r' hr' hne heq => hne (hr'.ext hpending heq)
  have hzero := h.unfinished r.reqId (by rw [hpending.status]; decide)
  cases hs
  refine
    { next := h.next
      ids := h.ids
      fresh := fun id hid => ?_
      submitting := fun r' hr' => (h.submitting r' hr').update fun heq => ?_
      submittingNodup := h.submittingNodup
      requests := fun r' hr' => (h.requests r' hr').update (hne r' (h.requests r' hr') ?_)
      requestsNodup := h.requestsNodup
      worker := fun w' r' hw' => ?_
      unique := fun w₁ w₂ r' hw₁ hw₂ => h.unique w₁ w₂ r' (hother w₁ r' hw₁).1 (hother w₂ r' hw₂).1
      results := fun id res hres => ?_
      gets := h.gets
      finished := fun id hid => ?_
      unfinished := fun id hid => ?_
      waits := fun id hid => ?_ }
  · have hlt := (List.getElem?_eq_some_iff.mp hpending.numbered).1
    have hle : s.numbered.length ≤ id := hid
    dsimp only
    rw [update_of_ne (by omega), h.fresh id hle]
  · have hstatus := (h.submitting r' hr').status
    rw [heq, hpending.status] at hstatus
    cases hstatus
  · rintro rfl
    exact hnot hr'
  · obtain ⟨hw'', hne'⟩ := hother w' r' hw'
    obtain ⟨hpending', hnot'⟩ := h.worker w' r' hw''
    exact ⟨hpending'.update (hne r' hpending' hne'), hnot'⟩
  · have hres' : update s.results r.reqId (some (r.result heaps)) id = some res := hres
    by_cases heq : id = r.reqId
    · rw [heq, update_self] at hres'
      cases hres'
      exact ⟨r, heaps, heq ▸ hpending.numbered, hsorted, rfl⟩
    · rw [update_of_ne heq] at hres'
      exact h.results id res hres'
  · have hid' : update s.requestStatus r.reqId (some true) id = some true := hid
    unfold State.copies at hzero ⊢
    dsimp only
    by_cases heq : id = r.reqId
    · rw [heq, update_self, Option.isSome_some, Bool.toNat_true]
      omega
    · rw [update_of_ne heq] at hid' ⊢
      exact h.finished id hid'
  · have hid' : update s.requestStatus r.reqId (some true) id ≠ some true := hid
    by_cases heq : id = r.reqId
    · rw [heq, update_self] at hid'
      exact absurd rfl hid'
    · unfold State.copies
      dsimp only
      rw [update_of_ne heq] at hid' ⊢
      exact h.unfinished id hid'
  · dsimp only
    by_cases heq : id = r.reqId
    · rw [heq, update_self]
    · rw [update_of_ne heq]
      exact h.waits id hid

theorem serveInv_start : ServeInv k (State.start : State δ β) where
  next := rfl
  ids _ _ h := by cases h
  fresh _ _ := rfl
  submitting _ h := by cases h
  submittingNodup := List.nodup_nil
  requests _ h := by cases h
  requestsNodup := List.nodup_nil
  worker _ _ h := by cases h
  unique _ _ _ h := by cases h
  results _ _ h := by cases h
  gets _ _ h := by cases h
  finished _ h := by cases h
  unfinished _ _ := rfl
  waits _ h := by cases h

variable [DecidableEq β]

theorem serveInv_step (h : ServeInv k s) (hs : step k n s e = some s') : ServeInv k s' := by
  cases e with
  | submit query topk indexes =>
    cases hs
    exact h.submit query topk indexes
  | push i => exact h.push hs
  | wait id =>
    cases hs
    unfold State.wait
    split
    · exact h
    · exact { h with }
  | waitReturn i => exact h.waitReturn hs
  | getResult id =>
    cases hs
    exact h.getResult id
  | pop w =>
    unfold step at hs
    dsimp only at hs
    split_ifs at hs with hw
    exact h.pop hs
  | finish w heaps => exact h.finish hs

theorem serveInv (h : (machine k n).Reachable s) : ServeInv k s := by
  refine Machine.Reach.inv ?_ ?_ h
  · rintro s rfl
    exact serveInv_start
  · intro s e s' hi _ hs
    exact serveInv_step hi hs

/-! ## What is served -/

variable [LinearOrder γ]

/-- What a caller gets for a request it has waited for. -/
structure Served (rank : β → γ) (score : Nat → Int → β) (s : State δ β) (id : Nat) (r : Request δ) :
    Prop where
  /-- The result is there until it is fetched, and it is fetched once. -/
  once : s.copies id = 1
  polled : s.poll id = true ↔ ∀ x, (id, some x) ∉ s.gets
  available : ∀ res, s.results id = some res → FetchedOk rank score r res.fetch
  fetched : ∀ x, (id, some x) ∈ s.gets → FetchedOk rank score r x

/-- In every run, what is served for a request with these arguments is right. -/
def AlwaysServed (k : Kernel δ β) (rank : β → γ) (score : Request δ → Nat → Int → β)
    (query : Array2 δ) (topk : Nat) (indexes : Array2 Int) : Prop :=
  ∀ n s id r, (machine k n).Reachable s → s.numbered[id]? = some r →
    k.toRequest id query topk indexes = .ok r → id ∈ s.waits → Served rank (score r) s id r

theorem exists_waited {query : Array2 δ} {topk : Nat} {indexes : Array2 Int}
    {heaps : List (List (β × Int))} (h : k.toRequest 0 query topk indexes = .ok r)
    (hsorted : r.Sorted k heaps) :
    ∃ s, (machine k 1).Reachable s ∧ s.numbered[0]? = some r ∧ 0 ∈ s.waits ∧
      s.results 0 = some (r.result heaps) := by
  have hid := toRequest_reqId h
  let s : State δ β :=
    { State.start with
      nextReqId := 1
      results := update (fun _ => none) 0 (some (r.result heaps))
      worker := update (update (fun _ => none) 0 (some r)) 0 none
      requestStatus := update (update (fun _ => none) 0 (some false)) 0 (some true)
      numbered := [r]
      waits := [0] }
  refine ⟨s, ?_, rfl, List.mem_singleton_self 0, rfl⟩
  have hrun : (machine k 1).run State.start [.submit query topk indexes, .push 0, .pop 0,
      .finish 0 heaps, .wait 0, .waitReturn 0] = some s := by
    simp [Machine.run, machine, step, State.submit, State.start, h, State.push, State.pop, State.finish,
      State.wait, State.waitReturn, hid, hsorted, s]
  exact Machine.reachable_of_run rfl hrun

/-- **What is served is right in every run if and only if the request is rectangular.** -/
theorem alwaysServed_iff {rank : β → γ} {score : Request δ → Nat → Int → β} {query : Array2 δ}
    {topk : Nat} {indexes : Array2 Int} (hbefore : ∀ x y, k.before x y = byKey rank x y)
    (hscore : ∀ r, score r = r.scores k) (h : k.toRequest 0 query topk indexes = .ok r) :
    AlwaysServed k rank score query topk indexes ↔ Rectangular rank (score r) r := by
  constructor
  · intro hserved
    rw [hscore]
    refine (forall_fetchedOk_iff hbefore).mp fun heaps hsorted => ?_
    obtain ⟨s, hreach, hr, hwait, hres⟩ := exists_waited h hsorted
    have hok := (hserved 1 s 0 r hreach hr h hwait).available _ hres
    rwa [hscore] at hok
  · intro hrect n s id r' hreach hr' hr hwait
    have hinv := serveInv hreach
    have heq : r' = { r with reqId := id } := by
      unfold Kernel.toRequest at h hr
      split_ifs at h hr
      cases h
      cases hr
      rfl
    have hrect' : Rectangular rank (r'.scores k) r' := by
      rw [hscore] at hrect
      rw [heq]
      exact ⟨hrect.uniform, hrect.spread⟩
    have hok : ∀ res, Stored k s.numbered id res → FetchedOk rank (score r') r' res.fetch := by
      rintro res ⟨r₀, heaps, hr₀, hsorted, rfl⟩
      cases hr'.symm.trans hr₀
      rw [hscore]
      exact (forall_fetchedOk_iff hbefore).mpr hrect' heaps hsorted
    have honce := hinv.finished id (hinv.waits id hwait)
    refine ⟨honce, poll_iff honce, fun res hres => hok res (hinv.results id res hres), fun x hx => ?_⟩
    obtain ⟨res, hres, rfl⟩ := hinv.gets id x hx
    exact hok res hres

end Runs

/-! ## Both backends -/

/-- The inner product of a row of the query and an item. -/
def productScore (dim : Nat) (data : List ℚ) (r : Request ℚ) (b : Nat) (i : Int) : ℚ :=
  innerProduct dim (fun d => r.query.getD (b * dim + d) 0) fun d => data.getD (i.toNat * dim + d) 0

/-- The distance from a row of the query to the nearest token of a block. -/
noncomputable def hammingScore (blockSize dim : Nat) (data : List (BitVec 8)) (r : Request (BitVec 8))
    (b : Nat) (i : Int) : Nat :=
  nearest blockSize dim data (fun d => r.query.getD (b * dim + d) 0) i

theorem productScore_eq (dim : Nat) (data : List ℚ) (r : Request ℚ) :
    productScore dim data r = r.scores (retrieval dim data) := by
  funext b i
  exact (retrieval_score dim data _ i).symm

theorem hammingScore_eq (isa : Isa) {blockSize dim : Nat} (data : List (BitVec 8))
    (hblock : 0 < blockSize) (hdim : dim < 8192) (r : Request (BitVec 8)) :
    hammingScore blockSize dim data r = r.scores (hashRetrieval isa blockSize dim data) := by
  funext b i
  exact (hashRetrieval_score isa data hblock hdim _ i).symm

theorem retrieval_before (dim : Nat) (data : List ℚ) (x y : ℚ) :
    (retrieval dim data).before x y = byKey OrderDual.toDual x y :=
  decide_eq_decide.mpr Iff.rfl

theorem hashRetrieval_before (isa : Isa) (blockSize dim : Nat) (data : List (BitVec 8)) (x y : Nat) :
    (hashRetrieval isa blockSize dim data).before x y = byKey id x y :=
  decide_eq_decide.mpr Iff.rfl

/-- **Callers get the best indices of every row** in every run, from either backend, if and only if all
rows of their request have as many results as the first one and no index can be among them twice. -/
theorem results_served_iff (isa : Isa) {blockSize width dim topk : Nat} {data : List ℚ}
    {hashes : List (BitVec 8)} {indexes : Array2 Int} {query : Array2 ℚ} {hashQuery : Array2 (BitVec 8)}
    {r : Request ℚ} {hashRequest : Request (BitVec 8)} (hblock : 0 < blockSize) (hwidth : width < 8192)
    (hr : (retrieval dim data).toRequest 0 query topk indexes = .ok r)
    (hhash : (hashRetrieval isa blockSize width hashes).toRequest 0 hashQuery topk indexes =
      .ok hashRequest) :
    (AlwaysServed (retrieval dim data) OrderDual.toDual (productScore dim data) query topk indexes ↔
      Rectangular OrderDual.toDual (productScore dim data r) r) ∧
    (AlwaysServed (hashRetrieval isa blockSize width hashes) id (hammingScore blockSize width hashes)
        hashQuery topk indexes ↔
      Rectangular id (hammingScore blockSize width hashes hashRequest) hashRequest) := by
  constructor
  · exact alwaysServed_iff (retrieval_before dim data) (productScore_eq dim data) hr
  · exact alwaysServed_iff (hashRetrieval_before isa blockSize width hashes)
      (hammingScore_eq isa hashes hblock hwidth) hhash

/-- Two rows with three and two valid indices, of which two are asked for. -/
def twoRows : Array2 Int := ⟨2, 3, [2, 0, 1, 1, 2, -1], rfl⟩

/-- Two rows with two and one valid indices. -/
def ragged : Array2 Int := ⟨2, 2, [0, 1, 2, -1], rfl⟩

theorem results_served_two_rows :
    AlwaysServed (retrieval 1 [3, 1, 2]) OrderDual.toDual (productScore 1 [3, 1, 2])
      ⟨2, 1, [1, -1], rfl⟩ 2 twoRows ∧
    AlwaysServed (hashRetrieval .x86 1 2 [0, 1, 3, 3, 7, 7]) id (hammingScore 1 2 [0, 1, 3, 3, 7, 7])
      ⟨2, 2, [0, 1, 3, 7], rfl⟩ 2 twoRows := by
  have hr : (retrieval 1 [3, 1, 2]).toRequest 0 ⟨2, 1, [1, -1], rfl⟩ 2 twoRows =
      .ok ⟨0, [1, -1], 2, 2, [[2, 0, 1], [1, 2]]⟩ := rfl
  have hhash : (hashRetrieval .x86 1 2 [0, 1, 3, 3, 7, 7]).toRequest 0 ⟨2, 2, [0, 1, 3, 7], rfl⟩ 2
      twoRows = .ok ⟨0, [0, 1, 3, 7], 2, 2, [[2, 0, 1], [1, 2]]⟩ := rfl
  have hserved := results_served_iff .x86 Nat.zero_lt_one (by decide) hr hhash
  have hnodup : ∀ b < 2, (([[2, 0, 1], [1, 2]] : List (List Int)).getD b []).Nodup := by decide
  refine ⟨hserved.1.mpr ⟨by decide, ?_⟩, hserved.2.mpr ⟨by decide, ?_⟩⟩
  · exact fun b hb => spread_of_nodup (hnodup b hb)
  · exact fun b hb => spread_of_nodup (hnodup b hb)

/-- **A ragged batch**: the second row has one result, and two are read. -/
theorem ragged_not_served :
    ¬ AlwaysServed (retrieval 1 [3, 1, 2]) OrderDual.toDual (productScore 1 [3, 1, 2])
      ⟨2, 1, [1, 1], rfl⟩ 2 ragged ∧
    ¬ AlwaysServed (hashRetrieval .x86 1 1 [0, 1, 3]) id (hammingScore 1 1 [0, 1, 3])
      ⟨2, 1, [0, 0], rfl⟩ 2 ragged := by
  constructor
  · intro hserved
    have hrect := (alwaysServed_iff (retrieval_before 1 _) (productScore_eq 1 _) rfl).mp hserved
    exact absurd (hrect.uniform 1 (by decide)) (by decide)
  · intro hserved
    have hrect := (alwaysServed_iff (hashRetrieval_before .x86 1 1 _)
      (hammingScore_eq .x86 _ Nat.zero_lt_one (by decide)) rfl).mp hserved
    exact absurd (hrect.uniform 1 (by decide)) (by decide)

end UnifiedCache.Sparse.RetrievalBackend
