import UnifiedCache.Posix.TransQueue
import UnifiedCache.Infra.Proofs.ThreadPoolProofs

/-!
# Proofs: what the latch of a psync task counts

Every step of the engine is a step of its ledger, as long as the monitor of a pool does not give up
on a worker: units move between callers, queues and workers, a task is issued, or one unit is
finished and its latch goes down by one. What the monitor does to a unit it has given up on is the
one step that is not: the worker finishes the unit as well.
-/

open Function Lib UnifiedCache.Infra

namespace UnifiedCache.Posix

variable {cfg : Config} {s s' : State}

/-! ## What is held after a change -/

variable {c : Nat}

theorem State.held_setClient {pc : ClientPc} (h : s.clients[c]? = some pc) (pc' : ClientPc) :
    (pc.held ++ (s.setClient c pc').held).Perm (pc'.held ++ s.held) := by
  have hset := Ledger.flatMap_set h ClientPc.held pc'
  refine List.perm_iff_count.mpr fun u => ?_
  have hcount := hset.count_eq u
  simp only [State.held, State.setClient, List.count_append] at hcount ⊢
  omega

theorem State.held_setPool (s : State) (type : TaskType) (b : Pool) :
    ((s.pools type).held ++ (s.setPool type b).held).Perm (b.held ++ s.held) := by
  refine List.perm_iff_count.mpr fun u => ?_
  cases type <;>
    simp only [State.held, State.setPool, List.count_append, update_self, ne_eq,
      reduceCtorEq, not_false_eq_true, update_of_ne] <;> omega

variable {type : TaskType}

theorem State.held_setPool_of_perm {b : Pool} (h : b.held.Perm (s.pools type).held) :
    (s.setPool type b).held.Perm s.held := by
  have hset := s.held_setPool type b
  refine List.perm_iff_count.mpr fun u => ?_
  have h1 := hset.count_eq u
  have h2 := h.count_eq u
  simp only [List.count_append] at h1
  omega

theorem State.held_setWorker {i : Nat} {w : Worker IoUnit BodyPc}
    (h : (s.pools type).threads[i]? = some w) (w' : Worker IoUnit BodyPc) :
    (w.held ++ (s.setWorker type i w').held).Perm (w'.held ++ s.held) := by
  have hpool := s.held_setPool type ((s.pools type).setWorker i w')
  have hset := ThreadPool.held_setWorker h w'
  refine List.perm_iff_count.mpr fun u => ?_
  have h1 := hpool.count_eq u
  have h2 := hset.count_eq u
  simp only [List.count_append, State.setWorker] at h1 h2 ⊢
  omega

theorem State.setPool_quiet {b : Pool}
    (h : ∀ it u p, b.monitor = .timeout it u p → (s.pools type).monitor = .timeout it u p) :
    ∀ type' it u p, ((s.setPool type b).pools type').monitor = .timeout it u p →
      (s.pools type').monitor = .timeout it u p := by
  intro type' it u p hm
  by_cases htype : type' = type
  · subst htype
    simp only [State.setPool, update_self] at hm
    exact h it u p hm
  · simpa only [State.setPool, update_of_ne htype] using hm

/-! ## The units of a task -/

theorem TransTask.owner_of_mem_units {t : TransTask} {u : IoUnit} (h : u ∈ t.units) :
    u.owner = t.id := by
  obtain ⟨⟨shard, place⟩, -, rfl⟩ := List.mem_map.mp h
  rfl

theorem TransTask.length_units (t : TransTask) : t.units.length = t.desc.length := by
  simp [TransTask.units]

theorem TransTask.nodup_units (t : TransTask) : t.units.Nodup := by
  have hplaces : (t.units.map IoUnit.place).Nodup := by
    have : t.units.map IoUnit.place = List.range' 0 t.desc.length := by
      rw [TransTask.units, List.map_map, ← List.zipIdx_map_snd]
      rfl
    rw [this]
    exact List.nodup_range'
  exact hplaces.of_map _

/-! ## What a state knows about the tasks in the hands of its callers -/

/-- A task with this handle has been submitted. -/
def Known (s : State) (id : Nat) : Prop := ∃ u ∈ s.issued, u.owner = id

/-- A task with this handle has been submitted and its latch is at zero. -/
def Settled (s : State) (id : Nat) : Prop := Known s id ∧ s.latch id = 0

/-- A caller waits for a task that was submitted, and is past the wait only when the latch is at
zero. -/
def ClientPc.Ok (s : State) : ClientPc → Prop
  | .idle | .push _ _ => True
  | .waitFor task | .insert task | .cancel task _ _ | .drain task => Known s task.id
  | .contains task | .remove task _ => Settled s task.id

/-- The invariant of the engine while no monitor gives up on a worker. -/
structure EngineInv (s : State) : Prop where
  balanced : s.ledger.Balanced IoUnit.owner
  fresh : ∀ u ∈ s.issued, u.owner < s.nextId
  quiet : ∀ type it u p, (s.pools type).monitor ≠ .timeout it u p
  clients : ∀ pc ∈ s.clients, pc.Ok s
  tasks : ∀ task ∈ s.tasks, Known s task.id
  returned : ∀ r ∈ s.returned, Settled s r.1

/-- What a step may do to the engine, given that it is a step of the ledger. -/
structure Advance (s s' : State) : Prop where
  ledger : Ledger.Step IoUnit.owner s.ledger s'.ledger
  fresh : (∀ u ∈ s.issued, u.owner < s.nextId) → ∀ u ∈ s'.issued, u.owner < s'.nextId
  quiet : ∀ type it u p, (s'.pools type).monitor = .timeout it u p →
    (s.pools type).monitor = .timeout it u p
  clients : ∀ pc ∈ s'.clients, pc ∈ s.clients ∨ pc.Ok s'
  tasks : ∀ task ∈ s'.tasks, task ∈ s.tasks ∨ Known s' task.id
  returned : ∀ r ∈ s'.returned, r ∈ s.returned ∨ Settled s' r.1

theorem Known.mono {id : Nat} (hs : Ledger.Step IoUnit.owner s.ledger s'.ledger)
    (h : Known s id) : Known s' id := by
  obtain ⟨u, hu, hid⟩ := h
  rcases hs with ⟨-, hissued, -, -⟩ | ⟨k, items, -, -, -, -, hissued, -, -⟩ | ⟨a, -, hissued, -, -⟩
  · exact ⟨u, by rw [show s'.issued = s.issued from hissued]; exact hu, hid⟩
  · refine ⟨u, ?_, hid⟩
    rw [show s'.issued = s.issued ++ items from hissued]
    exact List.mem_append_left _ hu
  · exact ⟨u, by rw [show s'.issued = s.issued from hissued]; exact hu, hid⟩

theorem Settled.mono {id : Nat} (hs : Ledger.Step IoUnit.owner s.ledger s'.ledger)
    (h : Settled s id) : Settled s' id := by
  obtain ⟨⟨u, hu, rfl⟩, hlatch⟩ := h
  exact ⟨Known.mono hs ⟨u, hu, rfl⟩, hs.counter_zero hu hlatch⟩

theorem ClientPc.Ok.mono {pc : ClientPc} (hs : Ledger.Step IoUnit.owner s.ledger s'.ledger)
    (h : pc.Ok s) : pc.Ok s' := by
  cases pc with
  | idle | push _ _ => trivial
  | waitFor _ | insert _ | cancel _ _ _ | drain _ => exact Known.mono hs h
  | contains _ | remove _ _ => exact Settled.mono hs h

theorem Advance.inv (h : Advance s s') (hi : EngineInv s) : EngineInv s' where
  balanced := h.ledger.balanced hi.balanced
  fresh := h.fresh hi.fresh
  quiet := fun type it u p hm => hi.quiet type it u p (h.quiet type it u p hm)
  clients := by
    intro pc hpc
    rcases h.clients pc hpc with hold | hok
    · exact (hi.clients pc hold).mono h.ledger
    · exact hok
  tasks := by
    intro task htask
    rcases h.tasks task htask with hold | hknown
    · exact (hi.tasks task hold).mono h.ledger
    · exact hknown
  returned := by
    intro r hr
    rcases h.returned r hr with hold | hsettled
    · exact (hi.returned r hold).mono h.ledger
    · exact hsettled

theorem Advance.of_client {pc' : ClientPc} (hled : Ledger.Step IoUnit.owner s.ledger s'.ledger)
    (hclients : s'.clients = s.clients.set c pc') (hok : pc'.Ok s') (hnext : s'.nextId = s.nextId)
    (hsub : s'.submitted = s.submitted)
    (hmon : ∀ type it u p, (s'.pools type).monitor = .timeout it u p →
      (s.pools type).monitor = .timeout it u p) (htasks : s'.tasks ⊆ s.tasks)
    (hret : ∀ r ∈ s'.returned, r ∈ s.returned ∨ Settled s' r.1) : Advance s s' where
  ledger := hled
  fresh := by
    intro hfresh u hu
    rw [hnext]
    refine hfresh u ?_
    rwa [State.issued, hsub] at hu
  quiet := hmon
  clients := by
    intro pc hpc
    rw [hclients] at hpc
    rcases List.mem_or_eq_of_mem_set hpc with hold | rfl
    · exact .inl hold
    · exact .inr hok
  tasks := fun task htask => .inl (htasks htask)
  returned := hret

theorem Advance.of_pool (hled : Ledger.Step IoUnit.owner s.ledger s'.ledger)
    (hclients : s'.clients = s.clients) (hnext : s'.nextId = s.nextId)
    (hsub : s'.submitted = s.submitted)
    (hmon : ∀ type it u p, (s'.pools type).monitor = .timeout it u p →
      (s.pools type).monitor = .timeout it u p)
    (htasks : s'.tasks = s.tasks) (hret : s'.returned = s.returned) : Advance s s' where
  ledger := hled
  fresh := by
    intro hfresh u hu
    rw [hnext]
    refine hfresh u ?_
    rwa [State.issued, hsub] at hu
  quiet := hmon
  clients := fun pc hpc => .inl (by rwa [hclients] at hpc)
  tasks := fun task htask => .inl (by rwa [htasks] at htask)
  returned := fun r hr => .inl (by rwa [hret] at hr)

/-! ## The callers -/

theorem State.held_setClient_of_eq {pc : ClientPc} (h : s.clients[c]? = some pc) (pc' : ClientPc)
    (hpc : pc'.held = pc.held) : (s.setClient c pc').held.Perm s.held := by
  have hset := State.held_setClient h pc'
  rw [hpc] at hset
  exact (List.perm_append_left_iff _).mp hset

theorem submit_advance {desc : List Shard} (hi : EngineInv s) (h : submit c type desc s = some s') :
    Advance s s' := by
  unfold submit at h
  split at h
  · next hc =>
    split_ifs at h with hdesc
    cases h
    have hissued : ∀ t : TransTask, (s.submitted ++ [t]).flatMap TransTask.units =
        s.issued ++ t.units := by
      intro t
      simp only [State.issued, List.flatMap_append, List.flatMap_singleton]
    have hknown : ∃ u, u ∈ (⟨s.nextId, type, desc⟩ : TransTask).units := by
      refine List.exists_mem_of_ne_nil _ fun hnil => hdesc ?_
      have hlen := TransTask.length_units ⟨s.nextId, type, desc⟩
      rw [hnil] at hlen
      exact List.length_eq_zero_iff.mp hlen.symm
    refine ⟨?_, ?_, fun _ _ _ _ hm => hm, ?_, ?_, fun r hr => .inl hr⟩
    · refine .issue s.nextId (⟨s.nextId, type, desc⟩ : TransTask).units
        (fun u hu => TransTask.owner_of_mem_units hu) (TransTask.nodup_units _)
        (fun u hu => (hi.fresh u hu).ne) ?_ (hissued _) rfl ?_
      · exact State.held_setClient hc (.push type (⟨s.nextId, type, desc⟩ : TransTask).units)
      · rw [TransTask.length_units]
        rfl
    · intro hfresh u hu
      rw [State.issued, hissued] at hu
      show u.owner < s.nextId + 1
      rcases List.mem_append.mp hu with hold | hnew
      · have := hfresh u hold
        omega
      · have := TransTask.owner_of_mem_units hnew
        simp only at this
        omega
    · intro pc hpc
      rcases List.mem_or_eq_of_mem_set hpc with hold | rfl
      · exact .inl hold
      · exact .inr trivial
    · intro task htask
      rcases List.mem_cons.mp htask with rfl | hold
      · obtain ⟨u, hu⟩ := hknown
        refine .inr ⟨u, ?_, TransTask.owner_of_mem_units hu⟩
        rw [State.issued, hissued]
        exact List.mem_append_right _ hu
      · exact .inl hold
  · cases h

theorem wait_advance {handle : Nat} (hi : EngineInv s) (h : wait c handle s = some s') :
    Advance s s' := by
  unfold wait at h
  split at h
  · next task hc hfind =>
    cases h
    have hperm := State.held_setClient_of_eq hc (.waitFor task) rfl
    exact .of_client (.move hperm rfl rfl rfl) rfl (hi.tasks task (List.mem_of_find?_eq_some hfind))
      rfl rfl (fun _ _ _ _ hm => hm) List.erase_subset fun r hr => .inl hr
  · cases h
    exact .of_pool (.move (.refl _) rfl rfl rfl) rfl rfl rfl (fun _ _ _ _ hm => hm) rfl rfl
  · cases h

theorem cancelStep_advance {env : ClientEnv} {task : TransTask} {t : Traverse IoUnit}
    {visitor : TimeoutPc} (hi : EngineInv s) (hc : s.clients[c]? = some (.cancel task t visitor))
    (h : cancelStep cfg env c task t visitor s = some s') : Advance s s' := by
  have hknown : Known s task.id := hi.clients _ (List.mem_of_getElem? hc)
  unfold cancelStep at h
  split at h
  · next kept ios rest processed =>
    cases h
    have hperm := State.held_setClient_of_eq hc (.cancel task (.visit kept ios rest processed) .done) rfl
    exact .of_client (.move hperm rfl rfl rfl) rfl hknown rfl rfl (fun _ _ _ _ hm => hm) (fun _ h => h)
      fun r hr => .inl hr
  · next kept ios rest processed =>
    cases h
    have hset := State.held_setClient hc (.cancel task (.visited kept rest processed) .insert)
    refine .of_client (.finish ios ?_ rfl rfl rfl) rfl hknown rfl rfl (fun _ _ _ _ hm => hm)
      (fun _ h => h) fun r hr => .inl hr
    refine List.perm_iff_count.mpr fun u => ?_
    have hcount := hset.count_eq u
    simp only [ClientPc.held, Traverse.visited, Traverse.held, List.count_append,
      List.count_cons] at hcount ⊢
    show s.held.count u = (s.setClient c _).held.count u + _
    omega
  · obtain ⟨⟨o, q⟩, ht, rfl⟩ := Option.map_eq_some_iff.mp h
    have hmove := Traverse.step_held ht
    have hpool := s.held_setPool task.type ((s.pools task.type).setQueue q)
    have hmon : ∀ type it u p, ((s.setPool task.type ((s.pools task.type).setQueue q)).pools
        type).monitor = .timeout it u p → (s.pools type).monitor = .timeout it u p :=
      State.setPool_quiet fun _ _ _ hm => hm
    have hheld : ∀ pc' : ClientPc, pc'.held = Traverse.rest o →
        ((s.setPool task.type ((s.pools task.type).setQueue q)).setClient c pc').held.Perm
          s.held := by
      intro pc' hpc'
      have hset := State.held_setClient
        (s := s.setPool task.type ((s.pools task.type).setQueue q)) hc pc'
      rw [hpc'] at hset
      refine List.perm_iff_count.mpr fun u => ?_
      have h1 := hset.count_eq u
      have h2 := hmove.count_eq u
      have h3 := hpool.count_eq u
      have h4 := (ThreadPool.held_setQueue (s.pools task.type) q).count_eq u
      simp only [ClientPc.held, List.count_append] at h1 h2 h3 h4
      omega
    cases o with
    | none =>
      exact .of_client (.move (hheld (.drain task) rfl) rfl rfl rfl) rfl hknown rfl rfl hmon
        (fun _ h => h) fun r hr => .inl hr
    | some t' =>
      exact .of_client (.move (hheld (.cancel task t' .insert) rfl) rfl rfl rfl) rfl hknown rfl rfl
        hmon (fun _ h => h) fun r hr => .inl hr

theorem clientStep_advance {env : ClientEnv} (hi : EngineInv s)
    (h : clientStep cfg env c s = some s') : Advance s s' := by
  unfold clientStep at h
  split at h
  · cases h
  · cases h
  · next type units hc =>
    cases h
    have hpush := (s.pools type).queue.push_held units
    have hqueue := (s.pools type).held_setQueue ((s.pools type).queue.push units)
    have hpool := s.held_setPool type ((s.pools type).setQueue ((s.pools type).queue.push units))
    have hset := State.held_setClient (s := s.setPool type
      ((s.pools type).setQueue ((s.pools type).queue.push units))) hc .idle
    refine .of_client (.move ?_ rfl rfl rfl) rfl trivial rfl rfl
      (State.setPool_quiet fun _ _ _ hm => hm) (fun _ h => h) fun r hr => .inl hr
    refine List.perm_iff_count.mpr fun u => ?_
    have h1 := hset.count_eq u
    have h2 := hpush.count_eq u
    have h3 := hpool.count_eq u
    have h4 := hqueue.count_eq u
    simp only [ClientPc.held, List.count_append, List.count_nil] at h1 h2 h3 h4
    show (State.held _).count u = s.held.count u
    omega
  · next task hc =>
    have hknown : Known s task.id := hi.clients _ (List.mem_of_getElem? hc)
    split_ifs at h with hlatch
    · cases h
      have hperm := State.held_setClient_of_eq hc (.contains task) rfl
      exact .of_client (.move hperm rfl rfl rfl) rfl ⟨hknown, hlatch⟩ rfl rfl (fun _ _ _ _ hm => hm)
        (fun _ h => h) fun r hr => .inl hr
    · cases h
      have hperm := State.held_setClient_of_eq hc (.insert task) rfl
      exact .of_client (.move hperm rfl rfl rfl) rfl hknown rfl rfl (fun _ _ _ _ hm => hm)
        (fun _ h => h) fun r hr => .inl hr
  · next task hc =>
    have hsettled : Settled s task.id := hi.clients _ (List.mem_of_getElem? hc)
    split_ifs at h with hfail
    · cases h
      have hperm := State.held_setClient_of_eq hc (.remove task .error) rfl
      exact .of_client (.move hperm rfl rfl rfl) rfl hsettled rfl rfl (fun _ _ _ _ hm => hm)
        (fun _ h => h) fun r hr => .inl hr
    · cases h
      have hperm := State.held_setClient_of_eq hc .idle rfl
      refine .of_client (.move hperm rfl rfl rfl) rfl trivial rfl rfl (fun _ _ _ _ hm => hm)
        (fun _ h => h) fun r hr => ?_
      rcases List.mem_cons.mp hr with rfl | hold
      · exact .inr hsettled
      · exact .inl hold
  · next task hc =>
    cases h
    have hknown : Known s task.id := hi.clients _ (List.mem_of_getElem? hc)
    have hperm := State.held_setClient_of_eq hc (.cancel task .swap .insert) rfl
    exact .of_client (.move hperm rfl rfl rfl) rfl hknown rfl rfl (fun _ _ _ _ hm => hm)
      (fun _ h => h) fun r hr => .inl hr
  · next task t visitor hc => exact cancelStep_advance hi hc h
  · next task hc =>
    have hknown : Known s task.id := hi.clients _ (List.mem_of_getElem? hc)
    split_ifs at h with hlatch
    cases h
    have hperm := State.held_setClient_of_eq hc (.remove task .timeout) rfl
    exact .of_client (.move hperm rfl rfl rfl) rfl ⟨hknown, hlatch⟩ rfl rfl (fun _ _ _ _ hm => hm)
      (fun _ h => h) fun r hr => .inl hr
  · next task status hc =>
    cases h
    have hsettled : Settled s task.id := hi.clients _ (List.mem_of_getElem? hc)
    have hperm := State.held_setClient_of_eq hc .idle rfl
    refine .of_client (.move hperm rfl rfl rfl) rfl trivial rfl rfl (fun _ _ _ _ hm => hm)
      (fun _ h => h) fun r hr => ?_
    rcases List.mem_cons.mp hr with rfl | hold
    · exact .inr hsettled
    · exact .inl hold

/-! ## Workers and monitors -/

theorem bodyStep_advance {i : Nat} {ok : Bool} {w : Worker IoUnit BodyPc} {ios : IoUnit}
    {p : BodyPc} (hw : (s.pools type).threads[i]? = some w) (hpc : w.pc = .run ios p) :
    Advance s (bodyStep type i ok w ios s p) := by
  have hheld : w.held = [ios] := by rw [Worker.held, hpc]
  have hmove : ∀ p', (s.setWorker type i { w with pc := .run ios p' }).held.Perm s.held := by
    intro p'
    have hset := State.held_setWorker hw { w with pc := .run ios p' }
    rw [hheld] at hset
    exact (List.perm_append_left_iff [ios]).mp hset
  have hquiet : ∀ w', ∀ type' it u p, ((s.setWorker type i w').pools type').monitor =
      .timeout it u p → (s.pools type').monitor = .timeout it u p :=
    fun w' => State.setPool_quiet fun _ _ _ hm => hm
  cases p with
  | check | io =>
    unfold bodyStep
    split_ifs <;> exact .of_pool (.move (hmove _) rfl rfl rfl) rfl rfl rfl (hquiet _) rfl rfl
  | insert => exact .of_pool (.move (hmove _) rfl rfl rfl) rfl rfl rfl (hquiet _) rfl rfl
  | done =>
    have hset := State.held_setWorker hw { w with pc := .ret ios }
    rw [hheld] at hset
    exact .of_pool (.finish ios hset.symm rfl rfl rfl) rfl rfl rfl (hquiet _) rfl rfl

theorem workerStep_advance {i : Nat} {ok : Bool} (h : workerStep type i ok s = some s') :
    Advance s s' := by
  unfold workerStep at h
  split at h
  · cases h
  · next w hw =>
    split at h
    · next ios p hpc =>
      cases h
      exact bodyStep_advance hw hpc
    · obtain ⟨b, hb, rfl⟩ := Option.map_eq_some_iff.mp h
      refine .of_pool (.move ?_ rfl rfl rfl) rfl rfl rfl ?_ rfl rfl
      · exact State.held_setPool_of_perm (ThreadPool.workerStep_held hb)
      · refine State.setPool_quiet fun it u p hm => ?_
        rwa [ThreadPool.workerStep_monitor hb] at hm

theorem monitorStep_advance {overdue added : Bool} (hi : EngineInv s)
    (hquiet : (s.pools type).timesOut overdue = false)
    (h : monitorStep cfg type overdue added s = some s') : Advance s s' := by
  unfold monitorStep at h
  split_ifs at h
  dsimp only at h
  split at h
  · next it ios hm => exact absurd hm (hi.quiet type it ios .insert)
  · next it ios hm => exact absurd hm (hi.quiet type it ios .done)
  · obtain ⟨b, hb, rfl⟩ := Option.map_eq_some_iff.mp h
    refine .of_pool (.move ?_ rfl rfl rfl) rfl rfl rfl ?_ rfl rfl
    · exact State.held_setPool_of_perm (ThreadPool.monitorStep_held hb)
    · refine State.setPool_quiet fun it u p hm => ?_
      exact absurd hm (ThreadPool.monitorStep_quiet hb hquiet it u p)

/-! ## Runs -/

theorem step_advance {e : Event} (hi : EngineInv s) (hquiet : NoTimeout s e)
    (h : step cfg s e = some s') : Advance s s' := by
  cases e with
  | submit c type desc => exact submit_advance hi h
  | wait c handle => exact wait_advance hi h
  | client c env => exact clientStep_advance hi h
  | worker type i ok => exact workerStep_advance h
  | monitor type overdue added => exact monitorStep_advance hi hquiet h

theorem engineInv_start (cfg : Config) (nClient : Nat) : EngineInv (State.start cfg nClient) := by
  have hclients : (List.replicate nClient ClientPc.idle).flatMap ClientPc.held = [] := by
    rw [List.flatMap_eq_nil_iff]
    intro pc hpc
    rw [List.eq_of_mem_replicate hpc]
    rfl
  have hheld : (State.start cfg nClient).held = [] := by
    simp only [State.held, State.start, hclients, ThreadPool.start_held, List.append_nil]
  refine ⟨⟨?_, List.nodup_nil, ?_⟩, ?_, ?_, ?_, ?_, ?_⟩
  · show ((State.start cfg nClient).held ++ []).Perm []
    rw [hheld]
    exact .refl _
  · intro id
    show 0 = (State.start cfg nClient).held.countP _
    rw [hheld]
    rfl
  · intro u hu
    cases hu
  · intro type it u p hm
    cases hm
  · intro pc hpc
    rw [List.eq_of_mem_replicate hpc]
    trivial
  · intro task htask
    cases htask
  · intro r hr
    cases hr

theorem engineInv_reach (h : (machine cfg).Reach NoTimeout s) : EngineInv s := by
  refine h.inv ?_ ?_
  · rintro s ⟨nClient, rfl⟩
    exact engineInv_start cfg nClient
  · intro s e s' hi hquiet hstep
    exact (step_advance hi hquiet hstep).inv hi

/-- In a run in which no monitor gives up on a worker, `Latch::Done` is called once for every unit,
when it has finished executing or is removed from the queue, and never before. The latch of a task is
at zero, and `Wait` has returned for it, only when none of its units is in a queue, in the hands of a
caller or being executed. -/
theorem unit_done_once (h : (machine cfg).Reach NoTimeout s) :
    (∀ u ∈ s.issued, s.dones.count u = if u ∈ s.held then 0 else 1) ∧
      (∀ task ∈ s.submitted, s.latch task.id = 0 → ∀ u ∈ task.units, u ∉ s.held) ∧
      ∀ r ∈ s.returned, ∀ task ∈ s.submitted, task.id = r.1 → ∀ u ∈ task.units, u ∉ s.held := by
  have hi := engineInv_reach h
  have hzero : ∀ task : TransTask, s.latch task.id = 0 → ∀ u ∈ task.units, u ∉ s.held := by
    intro task hlatch u hu
    exact hi.balanced.not_held_of_counter hlatch u (TransTask.owner_of_mem_units hu)
  refine ⟨fun u hu => hi.balanced.count_finished hu, fun task _ => hzero task, ?_⟩
  intro r hr task _ hid
  have hsettled := (hi.returned r hr).2
  rw [← hid] at hsettled
  exact hzero task hsettled

/-! ## Concrete runs -/

/-- The units of the task of two shards submitted below. -/
def twoShards : List Shard := [⟨7, 0, [100]⟩, ⟨7, 1, [200]⟩]

/-- One caller submits a dump of two shards. -/
def submitTwo : List Event :=
  [.submit 0 .dump twoShards, .client 0 { }]

/-- A worker takes a unit, executes it and returns to the queue. -/
def executeUnit (i : Nat) : List Event := List.replicate 8 (.worker .dump i true)

/-- The latch of a task and its wait when both units have been executed. -/
theorem unit_done_once_two_shards : ∃ s, (machine .small).Reach NoTimeout s ∧
    s.returned = [(1, .ok)] ∧ s.dones.length = 2 ∧
    (∀ u ∈ s.issued, s.dones.count u = if u ∈ s.held then 0 else 1) ∧
    ∀ r ∈ s.returned, ∀ task ∈ s.submitted, task.id = r.1 → ∀ u ∈ task.units, u ∉ s.held := by
  obtain ⟨s, hreach, hp⟩ := Machine.exists_reach_of_run (M := machine .small) (C := NoTimeout)
    (s := .start .small 1) (l := submitTwo ++ executeUnit 0 ++ executeUnit 1 ++ [.wait 0 1,
      .client 0 { }, .client 0 { }]) (p := fun s => s.returned = [(1, .ok)] ∧ s.dones.length = 2)
    ⟨1, rfl⟩ (by decide +kernel)
  exact ⟨s, hreach, hp.1, hp.2, (unit_done_once hreach).1, (unit_done_once hreach).2.2⟩

/-- Two workers read from the caller's buffers when the monitor gives up on the first one: it is
finished by the monitor and again by its own worker, and `Wait` returns while the second worker is
still in its file operation. -/
theorem wait_returns_early : ∃ s, (machine .small).Reachable s ∧ ∃ task ∈ s.submitted,
    ∃ r ∈ s.returned, task.id = r.1 ∧ s.latch task.id = 0 ∧
      (∃ u ∈ task.units, s.dones.count u = 2) ∧ ∃ u ∈ task.units, u ∈ s.held := by
  obtain ⟨s, hs, hp⟩ := Machine.exists_reachable_of_run (M := machine .small) (s := .start .small 1)
    (l := List.flatten [submitTwo, List.replicate 4 (.worker .dump 0 true),
      List.replicate 4 (.worker .dump 1 true), List.replicate 6 (.monitor .dump true true),
      List.replicate 2 (.worker .dump 0 true), [.wait 0 1, .client 0 { }, .client 0 { },
      .client 0 { }]]) (p := fun s => ∃ task ∈ s.submitted, ∃ r ∈ s.returned, task.id = r.1 ∧
      s.latch task.id = 0 ∧ (∃ u ∈ task.units, s.dones.count u = 2) ∧ ∃ u ∈ task.units, u ∈ s.held)
    ⟨1, rfl⟩ (by decide +kernel)
  exact ⟨s, hs, hp⟩

end UnifiedCache.Posix
