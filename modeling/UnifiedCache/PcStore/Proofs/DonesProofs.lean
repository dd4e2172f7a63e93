import UnifiedCache.PcStore.TransQueue
import UnifiedCache.Infra.Proofs.ThreadPoolProofs

/-!
# Proofs: how often `Done` is called for a block

Every step of the store is a step of its ledger, as long as `Done` is called in turn: a block moves
from the caller to the file pool and on to the device pool, or `Done` is called for it, by the caller,
by a worker or by the monitor, and the latch goes down by one.
-/

open Function Lib UnifiedCache.Infra

namespace UnifiedCache.PcStore

variable {cfg : Config} {s s' : State} {c : Nat} {pc pc' : ClientPc} {t : BlockTask}

/-! ## What is owed after a change -/

@[simp] theorem State.loads_nil (s : State) : s.loads [] = [] := rfl

theorem State.loads_dump (h : t.type = .dump) : s.loads [t] = [] := by
  simp [State.loads, h]

theorem State.loads_load (h : t.type = .load) (hexp : t.item ∉ s.expired) : s.loads [t] = [t] := by
  simp [State.loads, h, hexp]

theorem State.owed_setClient (h : s.clients[c]? = some pc) (pc' : ClientPc) :
    (pc.owed ++ (s.setClient c pc').owed).Perm (pc'.owed ++ s.owed) := by
  have hset := Ledger.flatMap_set h ClientPc.owed pc'
  have hload : (s.setClient c pc').loading = s.loading := rfl
  refine List.perm_iff_count.mpr fun x => ?_
  have hcount := hset.count_eq x
  simp only [State.owed, hload, List.count_append] at hcount ⊢
  simp only [State.setClient]
  omega

theorem State.owed_setClient_of_eq (h : s.clients[c]? = some pc) (hpc : pc'.owed = pc.owed) :
    (s.setClient c pc').owed.Perm s.owed := by
  have hset := State.owed_setClient h pc'
  rw [hpc] at hset
  exact (List.perm_append_left_iff _).mp hset

theorem State.owed_filePool {b : FilePool} (l l' : List BlockTask)
    (h : (l ++ b.held).Perm (l' ++ s.filePool.held)) :
    ((s.loads l).map BlockTask.item ++ { s with filePool := b }.owed).Perm
      ((s.loads l').map BlockTask.item ++ s.owed) := by
  have hmap := (h.filter fun t => t.type = .load ∧ t.item ∉ s.expired).map BlockTask.item
  refine List.perm_iff_count.mpr fun x => ?_
  have hcount := hmap.count_eq x
  simp only [List.filter_append, List.map_append, List.count_append] at hcount
  simp only [State.owed, State.loading, State.loads, List.count_append]
  omega

theorem State.owed_devPool {b : DevPool} (l l' : List BlockTask)
    (h : (l ++ b.held).Perm (l' ++ s.devPool.held)) :
    (l.map BlockTask.item ++ { s with devPool := b }.owed).Perm (l'.map BlockTask.item ++ s.owed) := by
  have hmap := h.map BlockTask.item
  have hload : { s with devPool := b }.loading = s.loading := rfl
  refine List.perm_iff_count.mpr fun x => ?_
  have hcount := hmap.count_eq x
  simp only [List.map_append, List.count_append] at hcount
  simp only [State.owed, hload, List.count_append]
  omega

theorem State.owed_pushFile (s : State) (t : BlockTask) :
    (s.pushFile t).owed.Perm ((s.loads [t]).map BlockTask.item ++ s.owed) := by
  have h := State.owed_filePool (s := s) [] [t] (s.filePool.held_push [t])
  exact h

theorem State.owed_pushDev (s : State) (t : BlockTask) :
    (s.pushDev t).owed.Perm (t.item :: s.owed) :=
  State.owed_devPool (s := s) [] [t] (s.devPool.held_push [t])

theorem State.owed_setFile {i : Nat} {w w' : Worker BlockTask FilePc}
    (hw : s.filePool.threads[i]? = some w) (hheld : w'.held = w.held) :
    (s.setFile i w').owed.Perm s.owed := by
  have h := State.owed_filePool (s := s) _ _ (ThreadPool.held_setWorker hw w')
  rw [hheld] at h
  exact (List.perm_append_left_iff _).mp h

theorem State.owed_setFile_ret {i : Nat} {w : Worker BlockTask FilePc} {p : FilePc}
    (hw : s.filePool.threads[i]? = some w) (hpc : w.pc = .run t p) :
    ((s.loads [t]).map BlockTask.item ++ (s.setFile i { w with pc := .ret t }).owed).Perm s.owed := by
  have h := State.owed_filePool (s := s) _ _ (ThreadPool.held_setWorker hw { w with pc := .ret t })
  rw [show w.held = [t] by rw [Worker.held, hpc]] at h
  exact h

theorem State.owed_setDev {i : Nat} {w w' : Worker BlockTask DevicePc}
    (hw : s.devPool.threads[i]? = some w) (hheld : w'.held = w.held) :
    (s.setDev i w').owed.Perm s.owed := by
  have h := State.owed_devPool (s := s) _ _ (ThreadPool.held_setWorker hw w')
  rw [hheld] at h
  exact (List.perm_append_left_iff _).mp h

theorem State.owed_setDev_ret {i : Nat} {w : Worker BlockTask DevicePc} {p : DevicePc}
    (hw : s.devPool.threads[i]? = some w) (hpc : w.pc = .run t p) :
    (t.item :: (s.setDev i { w with pc := .ret t }).owed).Perm s.owed := by
  have h := State.owed_devPool (s := s) _ _ (ThreadPool.held_setWorker hw { w with pc := .ret t })
  rw [show w.held = [t] by rw [Worker.held, hpc]] at h
  exact h

/-! ## What a state knows -/

/-- The waiter of a task that was submitted has counted down. -/
def Settled (s : State) (id : Nat) : Prop := id < s.nextId ∧ s.latch id = 0

/-- What `DispatchDump` makes for a task. -/
def BlockTask.DumpOf (id : Nat) (t : BlockTask) : Prop :=
  t.owner = id ∧ t.type = .dump ∧ t.done = false

/-- What a caller has in hand. -/
def ClientPc.Ok (s : State) : ClientPc → Prop
  | .idle => True
  | .dispatch task _ => task.type = .load
  | .copy task _ blocks => task.type = .dump ∧ ∀ b ∈ blocks, b.DumpOf task.id
  | .sync task blocks => ∀ b ∈ blocks, b.DumpOf task.id
  | .failInsert _ blocks | .failDone blocks => blocks.length ≤ 1
  | .push blocks | .done _ blocks => ∀ b ∈ blocks, b.type = .dump ∧ b.done = false
  | .waitFor task | .insert task | .drain task => task.id < s.nextId
  | .contains task | .remove task _ => Settled s task.id

/-- Which branch of `FileWorker` a place belongs to. -/
def FilePc.Ok (t : BlockTask) : FilePc → Prop
  | .contains | .io => True
  | .mkdir | .rename | .remove => t.type = .dump
  | .push | .insert | .done => t.type = .load

/-- What the pools execute: `done` is set for loads, and the device pool gets nothing else. -/
structure PoolsOk (file : FilePool) (dev : DevPool) : Prop where
  fileTask : ∀ t ∈ file.held, t.done = decide (t.type = .load)
  filePc : ∀ t p, file.Runs t p → p.Ok t
  devTask : ∀ t ∈ dev.held, t.type = .load ∧ t.done = true
  devPc : ∀ t, ¬ dev.Runs t .push

/-- The blocks a caller has issued copies of. -/
def ClientPc.copying : ClientPc → List Item
  | .copy _ _ blocks | .sync _ blocks => blocks.map BlockTask.item
  | _ => []

/-- A copy in flight is one of a device worker, or of a caller, who is to synchronise it. -/
def State.Live (s : State) (x : Copy) : Prop :=
  (∃ t, s.devPool.Runs t .sync ∧ t.item = x.item) ∨ ∃ pc ∈ s.clients, x.item ∈ pc.copying

/-- The invariant of the store while `Done` is called in turn. -/
structure QueueInv (s : State) : Prop where
  balanced : s.ledger.Balanced Prod.fst
  fresh : ∀ x ∈ s.issued, x.1 < s.nextId
  known : ∀ task ∈ s.submitted, task.id < s.nextId
  number : ∀ task ∈ s.submitted, (s.issued.countP fun x => x.1 = task.id) = task.groupNumber
  expired : s.expired ⊆ s.dones
  clients : ∀ pc ∈ s.clients, pc.Ok s
  pools : PoolsOk s.filePool s.devPool
  tasks : s.tasks ⊆ s.submitted
  returned : ∀ r ∈ s.returned, Settled s r.1
  copies : ∀ x ∈ s.copies, s.Live x

/-- What a step may do to the store, but for `Submit` taking a new task. -/
structure Advance (s s' : State) : Prop where
  ledger : Ledger.Step Prod.fst s.ledger s'.ledger
  submitted : s'.submitted = s.submitted
  nextId : s'.nextId = s.nextId
  latch : ∀ id, s.latch id = 0 → s'.latch id = 0
  expired : ∀ x ∈ s'.expired, x ∈ s.expired ∨ x ∈ s'.dones
  clients : ∀ pc ∈ s'.clients, pc ∈ s.clients ∨ pc.Ok s'
  pools : PoolsOk s.filePool s.devPool → PoolsOk s'.filePool s'.devPool
  tasks : s'.tasks ⊆ s.tasks
  returned : ∀ r ∈ s'.returned, r ∈ s.returned ∨ Settled s' r.1
  copies : (∀ x ∈ s.copies, s.Live x) → ∀ x ∈ s'.copies, s'.Live x

theorem Settled.mono {id : Nat} (hnext : s.nextId ≤ s'.nextId)
    (hlatch : ∀ id < s.nextId, s.latch id = 0 → s'.latch id = 0) (h : Settled s id) :
    Settled s' id :=
  ⟨Nat.lt_of_lt_of_le h.1 hnext, hlatch id h.1 h.2⟩

theorem ClientPc.Ok.mono (hnext : s.nextId ≤ s'.nextId)
    (hlatch : ∀ id < s.nextId, s.latch id = 0 → s'.latch id = 0) (h : pc.Ok s) : pc.Ok s' := by
  cases pc with
  | waitFor _ | insert _ | drain _ => exact Nat.lt_of_lt_of_le h hnext
  | contains _ | remove _ _ => exact Settled.mono hnext hlatch h
  | idle | dispatch _ _ | copy _ _ _ | sync _ _ | failInsert _ _ | failDone _ | push _ | done _ _ =>
    exact h

theorem Advance.inv (h : Advance s s') (hi : QueueInv s) : QueueInv s' := by
  have hissued : s'.issued = s.issued := by rw [State.issued, h.submitted, State.issued]
  have hnext : s.nextId ≤ s'.nextId := h.nextId.ge
  have hlatch : ∀ id < s.nextId, s.latch id = 0 → s'.latch id = 0 := fun id _ => h.latch id
  refine ⟨h.ledger.balanced hi.balanced, ?_, ?_, ?_, ?_, ?_, h.pools hi.pools, ?_, ?_,
    h.copies hi.copies⟩
  · rw [hissued, h.nextId]
    exact hi.fresh
  · rw [h.submitted, h.nextId]
    exact hi.known
  · rw [hissued, h.submitted]
    exact hi.number
  · intro x hx
    rcases h.expired x hx with hold | hnew
    · exact h.ledger.finished_subset (hi.expired hold)
    · exact hnew
  · intro pc hpc
    rcases h.clients pc hpc with hold | hok
    · exact (hi.clients pc hold).mono hnext hlatch
    · exact hok
  · rw [h.submitted]
    exact List.Subset.trans h.tasks hi.tasks
  · intro r hr
    rcases h.returned r hr with hold | hset
    · exact (hi.returned r hold).mono hnext hlatch
    · exact hset

/-! ## The pools -/

theorem PoolsOk.pushFile {file : FilePool} {dev : DevPool} (h : PoolsOk file dev)
    (ht : t.done = decide (t.type = .load)) : PoolsOk (file.setQueue (file.queue.push [t])) dev where
  fileTask := by
    intro u hu
    rcases List.mem_append.mp ((file.held_push [t]).subset hu) with hnew | hold
    · rw [List.mem_singleton.mp hnew, ht]
    · exact h.fileTask u hold
  filePc := h.filePc
  devTask := h.devTask
  devPc := h.devPc

theorem PoolsOk.pushDev {file : FilePool} {dev : DevPool} (h : PoolsOk file dev)
    (ht : t.type = .load ∧ t.done = true) : PoolsOk file (dev.setQueue (dev.queue.push [t])) where
  fileTask := h.fileTask
  filePc := h.filePc
  devTask := by
    intro u hu
    rcases List.mem_append.mp ((dev.held_push [t]).subset hu) with hnew | hold
    · rw [List.mem_singleton.mp hnew]
      exact ht
    · exact h.devTask u hold
  devPc := h.devPc

theorem PoolsOk.file_of_subset {file file' : FilePool} {dev : DevPool} (h : PoolsOk file dev)
    (hheld : file'.held ⊆ file.held) (hruns : ∀ t p, file'.Runs t p → file.Runs t p ∨ p.Ok t) :
    PoolsOk file' dev where
  fileTask := fun t ht => h.fileTask t (hheld ht)
  filePc := by
    intro t p hr
    rcases hruns t p hr with hold | hok
    · exact h.filePc t p hold
    · exact hok
  devTask := h.devTask
  devPc := h.devPc

theorem PoolsOk.dev_of_subset {file : FilePool} {dev dev' : DevPool} (h : PoolsOk file dev)
    (hheld : dev'.held ⊆ dev.held) (hruns : ∀ t, dev'.Runs t .push → dev.Runs t .push) :
    PoolsOk file dev' where
  fileTask := h.fileTask
  filePc := h.filePc
  devTask := fun t ht => h.devTask t (hheld ht)
  devPc := fun t hr => h.devPc t (hruns t hr)

/-! ## Copies in flight -/

theorem live_setClient (hc : s.clients[c]? = some pc) (hcopying : pc.copying ⊆ pc'.copying)
    (h : ∀ x ∈ s.copies, s.Live x) : ∀ x ∈ s.copies, (s.setClient c pc').Live x := by
  intro x hx
  rcases h x hx with hdev | ⟨pc₁, hpc₁, hmem⟩
  · exact .inl hdev
  · obtain ⟨j, hj⟩ := List.mem_iff_getElem?.mp hpc₁
    by_cases hjc : c = j
    · subst hjc
      rw [hc] at hj
      cases hj
      have hlt : c < s.clients.length := (List.getElem?_eq_some_iff.mp hc).1
      exact .inr ⟨pc', List.mem_set hlt _, hcopying hmem⟩
    · refine .inr ⟨pc₁, List.mem_iff_getElem?.mpr ⟨j, ?_⟩, hmem⟩
      rw [State.setClient, List.getElem?_set_ne hjc, hj]

/-! ## The callers -/

theorem clients_set (c : Nat) (hok : pc'.Ok s') :
    ∀ pc ∈ s.clients.set c pc', pc ∈ s.clients ∨ pc.Ok s' := by
  intro pc hpc
  rcases List.mem_or_eq_of_mem_set hpc with hold | rfl
  · exact .inl hold
  · exact .inr hok

variable {failureSet : Finset Nat}

theorem Advance.of_client (hc : s.clients[c]? = some pc) (pc' : ClientPc)
    (howed : pc'.owed = pc.owed) (hok : pc'.Ok s) {tasks : List TransTask} {copies : List Copy}
    {returned : List (Nat × WaitStatus)} {copied : List Item} {synced : List Nat}
    (htasks : tasks ⊆ s.tasks) (hret : ∀ r ∈ returned, r ∈ s.returned ∨ Settled s r.1)
    (hcopies : (∀ x ∈ s.copies, s.Live x) → ∀ x ∈ copies, (s.setClient c pc').Live x) :
    Advance s { s.setClient c pc' with
      failureSet := failureSet, tasks := tasks, copies := copies, returned := returned
      copied := copied, synced := synced } where
  ledger := .move (State.owed_setClient_of_eq hc howed) rfl rfl rfl
  submitted := rfl
  nextId := rfl
  latch := fun _ h => h
  expired := fun _ hx => .inl hx
  clients := clients_set c (hok.mono (Nat.le_refl _) fun _ _ h => h)
  pools := fun h => h
  tasks := htasks
  returned := hret
  copies := hcopies

theorem Advance.of_move (hc : s.clients[c]? = some pc) (howed : pc'.owed = pc.owed)
    (hcopying : pc.copying = []) (hok : pc'.Ok s) : Advance s (s.setClient c pc') :=
  .of_client hc pc' howed hok (List.Subset.refl _) (fun _ h => .inl h)
    (live_setClient hc (by rw [hcopying]; exact List.nil_subset _))

theorem latch_done (s : State) (t : BlockTask) (id : Nat) (h : s.latch id = 0) :
    (s.done t).latch id = 0 := by
  by_cases hid : id = t.owner
  · subst hid
    simp [State.done, h]
  · simp [State.done, update_of_ne hid, h]

theorem Advance.of_done (hc : s.clients[c]? = some pc) (howed : pc.owed = t.item :: pc'.owed)
    (hcopying : pc.copying = []) (hok : pc'.Ok (s.done t)) :
    Advance s ((s.done t).setClient c pc') where
  ledger := by
    have hset := State.owed_setClient (s := s) hc pc'
    refine .finish t.item ?_ rfl rfl rfl
    rw [howed] at hset
    have hperm : (pc'.owed ++ t.item :: (s.setClient c pc').owed).Perm (pc'.owed ++ s.owed) :=
      List.perm_middle.trans hset
    exact ((List.perm_append_left_iff _).mp hperm).symm
  submitted := rfl
  nextId := rfl
  latch := latch_done s t
  expired := fun _ hx => .inl hx
  clients := clients_set c hok
  pools := fun h => h
  tasks := List.Subset.refl _
  returned := fun _ h => .inl h
  copies := live_setClient hc (by rw [hcopying]; exact List.nil_subset _)

theorem QueueInv.not_expired (hi : QueueInv s) {x : Item} (hx : x ∈ s.owed) : x ∉ s.expired :=
  fun hexp => hi.balanced.not_finished hx (hi.expired hexp)

theorem mem_owed_of_client (hc : s.clients[c]? = some pc) {x : Item} (hx : x ∈ pc.owed) :
    x ∈ s.owed :=
  List.mem_append_left _ (List.mem_flatMap.mpr ⟨pc, List.mem_of_getElem? hc, hx⟩)

theorem Advance.of_pushFile (hi : QueueInv s) (hc : s.clients[c]? = some pc)
    (hload : t.type = .load → pc.owed = t.item :: pc'.owed)
    (hdump : t.type = .dump → pc.owed = pc'.owed) (hcopying : pc.copying = []) (hok : pc'.Ok s)
    (ht : t.done = decide (t.type = .load)) : Advance s ((s.pushFile t).setClient c pc') where
  ledger := by
    have hset := State.owed_setClient (s := s.pushFile t) hc pc'
    have hpush := s.owed_pushFile t
    refine .move ?_ rfl rfl rfl
    cases htype : t.type with
    | dump =>
      rw [hdump htype] at hset
      rw [State.loads_dump htype] at hpush
      exact ((List.perm_append_left_iff _).mp hset).trans hpush
    | load =>
      have hmem : t.item ∈ s.owed := mem_owed_of_client hc (by simp [hload htype])
      rw [State.loads_load htype (hi.not_expired hmem)] at hpush
      have htail := hset.trans (hpush.append_left pc'.owed)
      rw [hload htype] at htail
      refine List.perm_iff_count.mpr fun x => ?_
      have hcount := htail.count_eq x
      simp only [List.cons_append, List.count_cons, List.count_append, List.map_cons, List.map_nil,
        List.nil_append] at hcount
      show ((s.pushFile t).setClient c pc').owed.count x = s.owed.count x
      omega
  submitted := rfl
  nextId := rfl
  latch := fun _ h => h
  expired := fun _ hx => .inl hx
  clients := clients_set c (hok.mono (Nat.le_refl _) fun _ _ h => h)
  pools := fun h => h.pushFile ht
  tasks := List.Subset.refl _
  returned := fun _ h => .inl h
  copies := live_setClient hc (by rw [hcopying]; exact List.nil_subset _)

variable {task : TransTask}

theorem live_copy {rest : List Group} {blocks : List BlockTask} {g : Group} (env : DeviceEnv)
    (sm : Bool) (hc : s.clients[c]? = some (.copy task (g :: rest) blocks))
    (h : ∀ x ∈ s.copies, s.Live x) :
    ∀ x ∈ s.copies ++ env.copies sm (task.dumpTask g),
      (s.setClient c (.copy task rest (blocks ++ [task.dumpTask g]))).Live x := by
  intro x hx
  rcases List.mem_append.mp hx with hold | hnew
  · refine live_setClient hc ?_ h x hold
    intro y hy
    rw [ClientPc.copying, List.map_append]
    exact List.mem_append_left _ hy
  · obtain ⟨shard, -, rfl⟩ := List.mem_map.mp hnew
    have hlt : c < s.clients.length := (List.getElem?_eq_some_iff.mp hc).1
    refine .inr ⟨_, List.mem_set hlt _, ?_⟩
    rw [ClientPc.copying, List.map_append]
    exact List.mem_append_right _ (List.mem_singleton_self _)

theorem live_sync {blocks : List BlockTask} (hc : s.clients[c]? = some (.sync task blocks))
    (hblocks : ∀ b ∈ blocks, b.DumpOf task.id) (pc' : ClientPc) (h : ∀ x ∈ s.copies, s.Live x) :
    ∀ x ∈ s.copies.filter fun copy => copy.owner ≠ task.id, (s.setClient c pc').Live x := by
  intro x hx
  rw [List.mem_filter, decide_eq_true_eq] at hx
  rcases h x hx.1 with hdev | ⟨pc₁, hpc₁, hmem⟩
  · exact .inl hdev
  · obtain ⟨j, hj⟩ := List.mem_iff_getElem?.mp hpc₁
    have hjc : c ≠ j := by
      rintro rfl
      rw [hc] at hj
      cases hj
      obtain ⟨b, hb, hitem⟩ := List.mem_map.mp hmem
      have howner : b.owner = x.owner := congrArg Prod.fst hitem
      exact hx.2 (howner.symm.trans (hblocks b hb).1)
    refine .inr ⟨pc₁, List.mem_iff_getElem?.mpr ⟨j, ?_⟩, hmem⟩
    rw [State.setClient, List.getElem?_set_ne hjc, hj]

variable {env : DeviceEnv}

/-- **The next step of a caller in `Submit`.** -/
theorem dispatchStep_advance (hi : QueueInv s) (hc : s.clients[c]? = some pc)
    (hturn : pc.InTurn env) (h : dispatchStep cfg env c s pc = some s') : Advance s s' := by
  have hok : pc.Ok s := hi.clients pc (List.mem_of_getElem? hc)
  cases pc with
  | dispatch task rest =>
    cases rest with
    | nil =>
      cases h
      exact .of_move hc rfl rfl trivial
    | cons g rest =>
      have hload : task.type = .load := hok
      have hdump : ¬ task.type = .dump := by rw [hload]; decide
      simp only [dispatchStep, if_neg hdump, Option.some.injEq] at h
      subst h
      have ht : (task.blockTask g).type = .load := hload
      refine .of_pushFile hi hc (fun _ => rfl) (fun hd => ?_) rfl hload ?_
      · rw [ht] at hd
        cases hd
      · rw [ht]
        rfl
  | copy task rest blocks =>
    cases rest with
    | nil =>
      cases h
      refine .of_client hc (.sync task blocks) ?_ hok.2 (List.Subset.refl _) (fun _ h => .inl h)
        (live_setClient hc (List.Subset.refl _))
      simp [ClientPc.owed]
    | cons g rest =>
      cases h
      refine .of_client hc (.copy task rest (blocks ++ [task.dumpTask g])) ?_ ⟨hok.1, ?_⟩
        (List.Subset.refl _) (fun _ h => .inl h) (live_copy env _ hc)
      · simp [ClientPc.owed, TransTask.dumpTask, BlockTask.item]
      · intro b hb
        rcases List.mem_append.mp hb with hold | hnew
        · exact hok.2 b hold
        · rw [List.mem_singleton.mp hnew]
          exact ⟨rfl, hok.1, rfl⟩
  | sync task blocks =>
    simp only [dispatchStep] at h
    split_ifs at h with hsync hsettled
    · cases h
      exact .of_client hc (.push blocks) rfl (fun b hb => (hok b hb).2) (List.Subset.refl _)
        (fun _ h => .inl h) (live_sync hc hok _)
    · cases h
      obtain ⟨hlen, -⟩ := hturn (Bool.eq_false_iff.mpr hsync)
      exact .of_client hc (.failInsert task blocks) rfl hlen (List.Subset.refl _)
        (fun _ h => .inl h) (live_sync hc hok _)
    · obtain ⟨-, hsettle⟩ := hturn (Bool.eq_false_iff.mpr hsync)
      exact absurd hsettle hsettled
  | failInsert task blocks =>
    cases h
    exact .of_client hc (.failDone blocks) rfl hok (List.Subset.refl _) (fun _ h => .inl h)
      (live_setClient hc (List.nil_subset _))
  | failDone blocks =>
    cases blocks with
    | nil =>
      cases h
      exact .of_move hc rfl rfl trivial
    | cons b blocks =>
      cases h
      have hnil : blocks = [] := by
        have hlen : (b :: blocks).length ≤ 1 := hok
        rw [List.length_cons] at hlen
        exact List.length_eq_zero_iff.mp (by omega)
      subst hnil
      exact .of_done hc rfl rfl trivial
  | push blocks =>
    cases blocks with
    | nil =>
      cases h
      exact .of_move hc rfl rfl trivial
    | cons b blocks =>
      cases h
      obtain ⟨htype, hdone⟩ := hok b (List.mem_cons_self ..)
      refine .of_pushFile hi hc (fun hl => ?_) (fun _ => rfl) rfl
        (fun b' hb' => hok b' (List.mem_cons_of_mem _ hb')) ?_
      · rw [htype] at hl
        cases hl
      · rw [htype, hdone]
        rfl
  | done b blocks =>
    cases h
    exact .of_done hc rfl rfl hok
  | idle | waitFor _ | contains _ | insert _ | drain _ | remove _ _ => cases h

/-- **The next step of a caller in `Wait`.** -/
theorem waitStep_advance {timedOut : Bool} (hi : QueueInv s) (hc : s.clients[c]? = some pc)
    (h : waitStep cfg timedOut c s pc = some s') : Advance s s' := by
  have hok : pc.Ok s := hi.clients pc (List.mem_of_getElem? hc)
  cases pc with
  | waitFor task =>
    simp only [waitStep] at h
    split_ifs at h with hlatch
    · cases h
      exact .of_move hc rfl rfl ⟨hok, hlatch⟩
    · cases h
      exact .of_move hc rfl rfl hok
  | contains task =>
    simp only [waitStep] at h
    split_ifs at h with hfail
    · cases h
      exact .of_move hc rfl rfl hok
    · cases h
      refine .of_client hc .idle rfl trivial (List.Subset.refl _) (fun r hr => ?_)
        (live_setClient hc (List.nil_subset _))
      rcases List.mem_cons.mp hr with rfl | hold
      · exact .inr hok
      · exact .inl hold
  | insert task =>
    cases h
    exact .of_client hc (.drain task) rfl hok (List.Subset.refl _) (fun _ h => .inl h)
      (live_setClient hc (List.nil_subset _))
  | drain task =>
    simp only [waitStep] at h
    split_ifs at h with hlatch
    cases h
    exact .of_move hc rfl rfl ⟨hok, hlatch⟩
  | remove task status =>
    cases h
    refine .of_client hc .idle rfl trivial (List.Subset.refl _) (fun r hr => ?_)
      (live_setClient hc (List.nil_subset _))
    rcases List.mem_cons.mp hr with rfl | hold
    · exact .inr hok
    · exact .inl hold
  | idle | dispatch _ _ | copy _ _ _ | sync _ _ | failInsert _ _ | failDone _ | push _ | done _ _ =>
    cases h

theorem wait_advance {handle : Nat} (hi : QueueInv s) (h : wait c handle s = some s') :
    Advance s s' := by
  unfold wait at h
  split at h
  · next task hc hfind =>
    cases h
    have hknown := hi.known task (hi.tasks (List.mem_of_find?_eq_some hfind))
    exact .of_client hc (.waitFor task) rfl hknown List.erase_subset (fun _ h => .inl h)
      (live_setClient hc (List.nil_subset _))
  · next hc hfind =>
    cases h
    exact
      { ledger := .move (.refl _) rfl rfl rfl
        submitted := rfl
        nextId := rfl
        latch := fun _ h => h
        expired := fun _ hx => .inl hx
        clients := fun _ hpc => .inl hpc
        pools := fun h => h
        tasks := List.Subset.refl _
        returned := fun _ h => .inl h
        copies := fun h => h }
  · cases h

/-! ## A new task -/

theorem TransTask.fst_of_mem_items {x : Item} (h : x ∈ task.items) :
    x.1 = task.id := by
  obtain ⟨g, -, rfl⟩ := List.mem_map.mp h
  rfl

theorem TransTask.length_items (task : TransTask) : task.items.length = task.groupNumber := by
  rw [TransTask.items, List.length_map, TransTask.groupNumber]

theorem TransTask.nodup_items (task : TransTask) : task.items.Nodup := by
  have hmap : task.items = (task.grouped.groups.map Group.block).map (Prod.mk task.id) := by
    rw [TransTask.items, List.map_map]
    rfl
  rw [hmap]
  exact task.grouped.nodup.map (Prod.mk_right_injective task.id)

theorem TransTask.countP_items (task : TransTask) (id : Nat) :
    (task.items.countP fun x => x.1 = id) = if task.id = id then task.groupNumber else 0 := by
  split_ifs with hid
  · rw [← task.length_items, List.countP_eq_length]
    intro x hx
    rw [decide_eq_true_eq, TransTask.fst_of_mem_items hx, hid]
  · rw [List.countP_eq_zero]
    intro x hx
    rw [decide_eq_true_eq, TransTask.fst_of_mem_items hx]
    exact hid

/-- The store after `Submit` has taken a task. -/
def State.take (s : State) (c : Nat) (pc : ClientPc) (task : TransTask) : State :=
  { s.setClient c pc with
    nextId := s.nextId + 1
    latch := update s.latch task.id task.groupNumber
    tasks := task :: s.tasks
    submitted := s.submitted ++ [task] }

theorem State.take_inv (hi : QueueInv s) (hc : s.clients[c]? = some .idle)
    (hid : task.id = s.nextId) (howed : pc.owed = task.items) (hok : pc.Ok s) :
    QueueInv (s.take c pc task) := by
  have hissued : (s.take c pc task).issued = s.issued ++ task.items := by
    simp only [State.issued, State.take, List.flatMap_append, List.flatMap_singleton]
  have hnext : s.nextId ≤ (s.take c pc task).nextId := Nat.le_succ _
  have hlatch : ∀ id < s.nextId, s.latch id = 0 → (s.take c pc task).latch id = 0 := by
    intro id hlt hzero
    have hne : id ≠ task.id := by omega
    simp only [State.take, update_of_ne hne, hzero]
  have hstep : Ledger.Step Prod.fst s.ledger (s.take c pc task).ledger := by
    refine .issue task.id task.items (fun x hx => TransTask.fst_of_mem_items hx) task.nodup_items
      (fun x hx => ?_) ?_ hissued rfl ?_
    · have := hi.fresh x hx
      omega
    · have hset := State.owed_setClient hc pc
      rw [howed] at hset
      exact hset
    · rw [TransTask.length_items]
      rfl
  refine ⟨hstep.balanced hi.balanced, ?_, ?_, ?_, hi.expired, ?_, hi.pools, ?_, ?_, ?_⟩
  · rw [hissued]
    intro x hx
    show x.1 < s.nextId + 1
    rcases List.mem_append.mp hx with hold | hnew
    · have := hi.fresh x hold
      omega
    · rw [TransTask.fst_of_mem_items hnew]
      omega
  · intro t ht
    show t.id < s.nextId + 1
    rcases List.mem_append.mp ht with hold | hnew
    · have := hi.known t hold
      omega
    · rw [List.mem_singleton.mp hnew]
      omega
  · intro t ht
    rw [hissued, List.countP_append, TransTask.countP_items]
    rcases List.mem_append.mp ht with hold | hnew
    · have := hi.known t hold
      rw [hi.number t hold, if_neg (by omega), Nat.add_zero]
    · rw [List.mem_singleton.mp hnew, if_pos rfl]
      have hnone : (s.issued.countP fun x => x.1 = task.id) = 0 := by
        rw [List.countP_eq_zero]
        intro x hx
        have := hi.fresh x hx
        rw [decide_eq_true_eq]
        omega
      omega
  · intro pc' hpc'
    rcases List.mem_or_eq_of_mem_set hpc' with hold | rfl
    · exact (hi.clients pc' hold).mono hnext hlatch
    · exact hok.mono hnext hlatch
  · intro t ht
    rcases List.mem_cons.mp ht with rfl | hold
    · exact List.mem_append_right _ (List.mem_singleton_self _)
    · exact List.mem_append_left _ (hi.tasks hold)
  · exact fun r hr => (hi.returned r hr).mono hnext hlatch
  · exact live_setClient hc (List.nil_subset _) hi.copies

/-- **`Submit` takes a task.** -/
theorem submit_inv {type : TaskType} {grouped : Grouped} (hi : QueueInv s)
    (h : submit c type grouped s = some s') : QueueInv s' := by
  unfold submit at h
  split at h
  · next hc =>
    cases h
    cases type with
    | dump => exact State.take_inv hi hc rfl rfl ⟨rfl, fun b hb => by cases hb⟩
    | load => exact State.take_inv hi hc rfl rfl rfl
  · cases h

/-! ## File workers -/

theorem Advance.of_filePool {b : FilePool} (howed : { s with filePool := b }.owed.Perm s.owed)
    (hheld : b.held ⊆ s.filePool.held) (hruns : ∀ t p, b.Runs t p → s.filePool.Runs t p ∨ p.Ok t)
    {written archived : List Item} :
    Advance s { s with
      filePool := b, failureSet := failureSet, written := written, archived := archived } where
  ledger := .move howed rfl rfl rfl
  submitted := rfl
  nextId := rfl
  latch := fun _ h => h
  expired := fun _ hx => .inl hx
  clients := fun _ hpc => .inl hpc
  pools := fun h => h.file_of_subset hheld hruns
  tasks := List.Subset.refl _
  returned := fun _ h => .inl h
  copies := fun h => h

theorem Advance.of_file_perm {b : FilePool} (hperm : b.held.Perm s.filePool.held)
    (hruns : ∀ t p, b.Runs t p → s.filePool.Runs t p ∨ p.Ok t) :
    Advance s { s with filePool := b } := by
  refine .of_filePool ?_ hperm.subset hruns
  have h := State.owed_filePool (s := s) [] [] hperm
  exact h

section FileWorker

variable {i : Nat} {w : Worker BlockTask FilePc} {p p' : FilePc}

theorem Advance.of_file (hw : s.filePool.threads[i]? = some w) (hpc : w.pc = .run t p) (p' : FilePc)
    (hok : p'.Ok t) {written archived : List Item} :
    Advance s { s.setFile i { w with pc := .run t p' } with
      failureSet := failureSet, written := written, archived := archived } := by
  have hheld : ({ w with pc := .run t p' } : Worker BlockTask FilePc).held = w.held := by
    simp only [Worker.held, hpc]
  refine .of_filePool (State.owed_setFile hw hheld) (ThreadPool.held_setWorker_subset hw ?_)
    fun t' q hr => ?_
  · rw [hheld]
    exact List.Subset.refl _
  · rcases ThreadPool.runs_setWorker hr with hold | hnew
    · exact .inl hold
    · cases hnew
      exact .inr hok

theorem runs_of_ret {π θ : Type} {b : ThreadPool BlockTask π θ} {w : Worker BlockTask π}
    {t' : BlockTask} {q : π} (hr : (b.setWorker i { w with pc := .ret t }).Runs t' q) :
    b.Runs t' q := by
  rcases ThreadPool.runs_setWorker hr with hold | hnew
  · exact hold
  · cases hnew

theorem Advance.of_file_ret (hw : s.filePool.threads[i]? = some w) (hpc : w.pc = .run t p)
    (ht : t.type = .dump) {archived : List Item} :
    Advance s { s.setFile i { w with pc := .ret t } with archived := archived } := by
  have howed := State.owed_setFile_ret hw hpc
  rw [State.loads_dump ht] at howed
  exact .of_filePool howed (ThreadPool.held_setWorker_subset hw (List.nil_subset _))
    fun _ _ hr => .inl (runs_of_ret hr)

theorem Advance.of_file_push (hw : s.filePool.threads[i]? = some w) (hpc : w.pc = .run t p)
    (ht : t.type = .load) (hdone : t.done = true) (hexp : t.item ∉ s.expired) :
    Advance s ((s.pushDev t).setFile i { w with pc := .ret t }) where
  ledger := by
    have howed := State.owed_setFile_ret (s := s.pushDev t) hw hpc
    have hpush := s.owed_pushDev t
    have hloads : (s.pushDev t).loads [t] = [t] := State.loads_load ht hexp
    rw [hloads] at howed
    exact .move ((List.perm_cons t.item).mp (howed.trans hpush)) rfl rfl rfl
  submitted := rfl
  nextId := rfl
  latch := fun _ h => h
  expired := fun _ hx => .inl hx
  clients := fun _ hpc => .inl hpc
  pools := by
    intro h
    refine (h.pushDev ⟨ht, hdone⟩).file_of_subset ?_ fun _ _ hr => .inl (runs_of_ret hr)
    exact ThreadPool.held_setWorker_subset hw (List.nil_subset _)
  tasks := List.Subset.refl _
  returned := fun _ h => .inl h
  copies := fun h => h

theorem Advance.of_file_done (hw : s.filePool.threads[i]? = some w) (hpc : w.pc = .run t p)
    (ht : t.type = .load) (hexp : t.item ∉ s.expired) :
    Advance s ((s.done t).setFile i { w with pc := .ret t }) where
  ledger := by
    have howed := State.owed_setFile_ret (s := s) hw hpc
    rw [State.loads_load ht hexp] at howed
    exact .finish t.item howed.symm rfl rfl rfl
  submitted := rfl
  nextId := rfl
  latch := latch_done s t
  expired := fun _ hx => .inl hx
  clients := fun _ hpc => .inl hpc
  pools := by
    intro h
    refine h.file_of_subset ?_ fun _ _ hr => .inl (runs_of_ret hr)
    exact ThreadPool.held_setWorker_subset hw (List.nil_subset _)
  tasks := List.Subset.refl _
  returned := fun _ h => .inl h
  copies := fun h => h

/-- **A step inside of `FileWorker`.** -/
theorem fileBody_advance {env : FileEnv} (hi : QueueInv s) (hturn : s.NotExpired i)
    (hw : s.filePool.threads[i]? = some w) (hpc : w.pc = .run t p)
    (h : fileBody cfg i env w t s p = some s') : Advance s s' := by
  have hruns : s.filePool.Runs t p := ⟨w, List.mem_of_getElem? hw, hpc⟩
  have hok : p.Ok t := hi.pools.filePc t p hruns
  have hdone : t.done = decide (t.type = .load) := hi.pools.fileTask t hruns.held
  have hexp : t.item ∉ s.expired := by
    refine hturn w hw t ?_
    rw [Worker.held, hpc]
    exact List.mem_singleton_self _
  cases p with
  | contains =>
    simp only [fileBody] at h
    split_ifs at h with hfail htype
    · cases h
      refine .of_file hw hpc .done ?_
      cases ht : t.type with
      | dump => exact absurd ht htype
      | load => exact ht
    · cases h
      exact .of_file_ret hw hpc (not_not.mp htype)
    · cases h
      exact .of_file hw hpc .io trivial
  | io =>
    simp only [fileBody] at h
    cases ht : t.type with
    | dump =>
      simp only [ht] at h
      split_ifs at h with hsize hshard
      · cases h
        exact .of_file hw hpc .mkdir ht
      · cases h
        exact .of_file hw hpc .rename ht
      · cases h
        exact .of_file hw hpc .remove ht
    | load =>
      simp only [ht] at h
      split_ifs at h with hsize
      · cases h
        exact .of_file hw hpc .push ht
      · cases h
        exact .of_file hw hpc .insert ht
  | mkdir =>
    simp only [fileBody] at h
    split_ifs at h
    · cases h
      exact .of_file hw hpc .rename hok
    · cases h
      exact .of_file hw hpc .remove hok
  | rename =>
    simp only [fileBody] at h
    split_ifs at h
    · cases h
      exact .of_file_ret hw hpc hok
    · cases h
      exact .of_file hw hpc .remove hok
  | remove =>
    cases h
    exact .of_file_ret hw hpc hok
  | push =>
    cases h
    have hload : t.type = .load := hok
    rw [hload] at hdone
    exact .of_file_push hw hpc hload hdone hexp
  | insert =>
    cases h
    exact .of_file hw hpc .done hok
  | done =>
    simp only [fileBody] at h
    split_ifs at h
    cases h
    exact .of_file_done hw hpc hok hexp

/-- **The next step of a file worker.** -/
theorem fileStep_advance {env : FileEnv} (hi : QueueInv s) (hturn : s.NotExpired i)
    (h : fileStep cfg i env s = some s') : Advance s s' := by
  unfold fileStep at h
  split at h
  · cases h
  · next w hw =>
    split at h
    · next t p hpc => exact fileBody_advance hi hturn hw hpc h
    · obtain ⟨b, hb, rfl⟩ := Option.map_eq_some_iff.mp h
      refine .of_file_perm (ThreadPool.workerStep_held hb) fun t p hr => ?_
      rcases ThreadPool.workerStep_runs hb hr with hold | rfl
      · exact .inl hold
      · exact .inr trivial

end FileWorker

/-! ## Device workers -/

section DeviceWorker

variable {i : Nat} {w w' : Worker BlockTask DevicePc} {p p' : DevicePc}

theorem live_setDev (hw : s.devPool.threads[i]? = some w) (hpc : w.pc = .run t p) (hp : p ≠ .sync)
    (h : ∀ x ∈ s.copies, s.Live x) : ∀ x ∈ s.copies, (s.setDev i w').Live x := by
  intro x hx
  rcases h x hx with ⟨t', hr, hitem⟩ | hclient
  · refine .inl ⟨t', hr.setWorker hw (fun hc => ?_) w', hitem⟩
    rw [hpc] at hc
    cases hc
    exact hp rfl
  · exact .inr hclient

theorem live_devIssue (hw : s.devPool.threads[i]? = some w) (hpc : w.pc = .run t .issue)
    (h : ∀ x ∈ s.copies, s.Live x) :
    ∀ x ∈ s.copies ++ env.copies false t, (s.setDev i { w with pc := .run t .sync }).Live x := by
  intro x hx
  rcases List.mem_append.mp hx with hold | hnew
  · exact live_setDev hw hpc (by decide) h x hold
  · obtain ⟨shard, -, rfl⟩ := List.mem_map.mp hnew
    have hlt : i < s.devPool.threads.length := (List.getElem?_eq_some_iff.mp hw).1
    exact .inl ⟨t, ⟨_, List.mem_set hlt _, rfl⟩, rfl⟩

theorem live_devSync (hw : s.devPool.threads[i]? = some w) (hpc : w.pc = .run t .sync)
    (h : ∀ x ∈ s.copies, s.Live x) :
    ∀ x ∈ s.copies.filter fun copy => copy.item ≠ t.item, (s.setDev i w').Live x := by
  intro x hx
  rw [List.mem_filter, decide_eq_true_eq] at hx
  rcases h x hx.1 with ⟨t', hr, hitem⟩ | hclient
  · refine .inl ⟨t', hr.setWorker hw (fun hc => ?_) w', hitem⟩
    rw [hpc] at hc
    cases hc
    exact hx.2 hitem.symm
  · exact .inr hclient

theorem Advance.of_dev (hw : s.devPool.threads[i]? = some w) (hpc : w.pc = .run t p) (p' : DevicePc)
    (hp' : p' ≠ .push) {copies : List Copy} (hcopies : (∀ x ∈ s.copies, s.Live x) →
      ∀ x ∈ copies, (s.setDev i { w with pc := .run t p' }).Live x) :
    Advance s { s.setDev i { w with pc := .run t p' } with
      failureSet := failureSet, copies := copies } := by
  have hheld : ({ w with pc := .run t p' } : Worker BlockTask DevicePc).held = w.held := by
    simp only [Worker.held, hpc]
  exact
    { ledger := .move (State.owed_setDev hw hheld) rfl rfl rfl
      submitted := rfl
      nextId := rfl
      latch := fun _ h => h
      expired := fun _ hx => .inl hx
      clients := fun _ hpc => .inl hpc
      pools := by
        intro h
        refine h.dev_of_subset (ThreadPool.held_setWorker_subset hw ?_) fun t' hr => ?_
        · rw [hheld]
          exact List.Subset.refl _
        · rcases ThreadPool.runs_setWorker hr with hold | hnew
          · exact hold
          · cases hnew
            exact absurd rfl hp'
      tasks := List.Subset.refl _
      returned := fun _ h => .inl h
      copies := hcopies }

theorem Advance.of_dev_done (hw : s.devPool.threads[i]? = some w) (hpc : w.pc = .run t .done) :
    Advance s ((s.done t).setDev i { w with pc := .ret t }) where
  ledger := .finish t.item (State.owed_setDev_ret (s := s) hw hpc).symm rfl rfl rfl
  submitted := rfl
  nextId := rfl
  latch := latch_done s t
  expired := fun _ hx => .inl hx
  clients := fun _ hpc => .inl hpc
  pools := by
    intro h
    refine h.dev_of_subset ?_ fun _ hr => runs_of_ret hr
    exact ThreadPool.held_setWorker_subset hw (List.nil_subset _)
  tasks := List.Subset.refl _
  returned := fun _ h => .inl h
  copies := live_setDev hw hpc (by decide)

/-- **A step inside of `DeviceWorker`.** -/
theorem deviceBody_advance (hi : QueueInv s) (hturn : p.InTurn env t)
    (hw : s.devPool.threads[i]? = some w) (hpc : w.pc = .run t p)
    (h : deviceBody i env w t s p = some s') : Advance s s' := by
  have hruns : s.devPool.Runs t p := ⟨w, List.mem_of_getElem? hw, hpc⟩
  obtain ⟨hload, hdone⟩ := hi.pools.devTask t hruns.held
  cases p with
  | contains =>
    simp only [deviceBody] at h
    split_ifs at h
    · cases h
      exact .of_dev hw hpc .done (by decide) (live_setDev hw hpc (by decide))
    · cases h
      exact .of_dev hw hpc .issue (by decide) (live_setDev hw hpc (by decide))
  | issue =>
    simp only [deviceBody] at h
    split_ifs at h with hcopy
    · cases h
      exact .of_dev hw hpc .sync (by decide) (live_devIssue hw hpc)
    · cases h
      have hnone : env.copies false t = [] := by
        rw [DeviceEnv.copies, hturn (Bool.eq_false_iff.mpr hcopy), List.map_nil]
      rw [hnone, List.append_nil]
      exact .of_dev hw hpc .insert (by decide) (live_setDev hw hpc (by decide))
  | sync =>
    simp only [deviceBody, hload] at h
    split_ifs at h with hsync hsettled
    · cases h
      exact .of_dev hw hpc .done (by decide) (live_devSync hw hpc)
    · cases h
      exact .of_dev hw hpc .insert (by decide) (live_devSync hw hpc)
    · exact absurd (hturn (Bool.eq_false_iff.mpr hsync)) hsettled
  | push => exact absurd hruns (hi.pools.devPc t)
  | insert =>
    cases h
    exact .of_dev hw hpc .done (by decide) (live_setDev hw hpc (by decide))
  | done =>
    simp only [deviceBody, hdone, if_true, Option.some.injEq] at h
    subst h
    exact .of_dev_done hw hpc

/-- **The next step of a device worker.** -/
theorem deviceStep_advance (hi : QueueInv s) (hturn : s.DeviceInTurn i env)
    (h : deviceStep i env s = some s') : Advance s s' := by
  unfold deviceStep at h
  split at h
  · cases h
  · next w hw =>
    split at h
    · next t p hpc =>
      refine deviceBody_advance hi ?_ hw hpc h
      rcases w with ⟨pc, stop, current, tp⟩
      cases hpc
      simp only [State.DeviceInTurn, hw] at hturn
      exact hturn
    · obtain ⟨b, hb, rfl⟩ := Option.map_eq_some_iff.mp h
      have hperm := ThreadPool.workerStep_held hb
      exact
        { ledger := .move (State.owed_devPool (s := s) [] [] hperm) rfl rfl rfl
          submitted := rfl
          nextId := rfl
          latch := fun _ h => h
          expired := fun _ hx => .inl hx
          clients := fun _ hpc => .inl hpc
          pools := by
            intro h
            refine h.dev_of_subset hperm.subset fun t hr => ?_
            rcases ThreadPool.workerStep_runs hb hr with hold | hnew
            · exact hold
            · cases hnew
          tasks := List.Subset.refl _
          returned := fun _ h => .inl h
          copies := by
            intro h x hx
            rcases h x hx with ⟨t, hr, hitem⟩ | hclient
            · exact .inl ⟨t, hr.workerStep hb, hitem⟩
            · exact .inr hclient }

end DeviceWorker

/-! ## The monitor -/

theorem State.loading_expire (hi : QueueInv s) (ht : t ∈ s.loading) :
    (s.loading.map BlockTask.item).Perm
      (t.item :: { s with expired := t.item :: s.expired }.loading.map BlockTask.item) := by
  have hnodup : (s.loading.map BlockTask.item).Nodup := by
    have howed := hi.balanced.held_nodup
    exact (List.nodup_append.mp (List.nodup_append.mp howed).2.1).1
  have hrest : { s with expired := t.item :: s.expired }.loading =
      s.loading.filter fun u => u.item ≠ t.item := by
    simp only [State.loading, List.filter_filter]
    refine List.filter_congr fun u _ => ?_
    rw [← Bool.decide_and]
    refine decide_eq_decide.mpr ?_
    rw [List.mem_cons, not_or]
    tauto
  have hmap : (s.loading.filter fun u => u.item ≠ t.item).map BlockTask.item =
      (s.loading.map BlockTask.item).erase t.item := by
    rw [hnodup.erase_eq_filter, List.filter_map]
    congr 1
    refine List.filter_congr fun u _ => ?_
    rw [Bool.eq_iff_iff]
    simp
  rw [hrest, hmap]
  exact List.perm_cons_erase (List.mem_map_of_mem ht)

theorem Advance.of_expire (hi : QueueInv s) (ht : t ∈ s.loading) {b : FilePool}
    (hheld : b.held = s.filePool.held) (hruns : ∀ t p, b.Runs t p → s.filePool.Runs t p) :
    Advance s { s.done t with expired := t.item :: s.expired, filePool := b } where
  ledger := by
    have hload := State.loading_expire hi ht
    have hnew : { s.done t with expired := t.item :: s.expired, filePool := b }.loading =
        { s with expired := t.item :: s.expired }.loading := by
      rw [State.loading, hheld, State.loading]
    refine .finish t.item ?_ rfl rfl rfl
    show s.owed.Perm (t.item :: State.owed _)
    rw [State.owed, State.owed, hnew]
    refine List.perm_iff_count.mpr fun x => ?_
    have hcount := hload.count_eq x
    simp only [List.count_append, List.count_cons] at hcount ⊢
    simp only [State.done]
    omega
  submitted := rfl
  nextId := rfl
  latch := latch_done s t
  expired := by
    intro x hx
    rcases List.mem_cons.mp hx with rfl | hold
    · exact .inr (List.mem_cons_self ..)
    · exact .inl hold
  clients := fun _ hpc => .inl hpc
  pools := fun h => h.file_of_subset (by rw [hheld]; exact List.Subset.refl _)
    fun t p hr => .inl (hruns t p hr)
  tasks := List.Subset.refl _
  returned := fun _ h => .inl h
  copies := fun h => h

theorem Advance.of_monitor (m : MonitorPc BlockTask TimeoutPc) (failureSet : Finset Nat) :
    Advance s { s with filePool := { s.filePool with monitor := m }, failureSet := failureSet } :=
  .of_filePool (b := { s.filePool with monitor := m }) (.refl _) (List.Subset.refl _)
    fun _ _ hr => .inl hr

/-- **The next step of the monitor.** -/
theorem monitorStep_advance {overdue added : Bool} (hi : QueueInv s) (hturn : s.ExpiresFirst)
    (h : monitorStep cfg overdue added s = some s') : Advance s s' := by
  unfold monitorStep at h
  split_ifs at h with htimeout
  dsimp only at h
  split at h
  · next it t hm =>
    cases h
    split_ifs
    · exact .of_monitor (.timeout it t .done) (insert t.owner s.failureSet)
    · exact .of_monitor (.timeout it t .done) s.failureSet
  · next it t hm =>
    simp only [State.ExpiresFirst, hm] at hturn
    cases h
    split_ifs with hdone
    · exact .of_expire hi (hturn hdone) rfl fun _ _ hr => hr
    · exact .of_monitor (.stop it) s.failureSet
  · obtain ⟨b, hb, rfl⟩ := Option.map_eq_some_iff.mp h
    exact .of_file_perm (ThreadPool.monitorStep_held hb)
      fun _ _ hr => .inl (ThreadPool.monitorStep_runs hb hr)

/-! ## Runs -/

theorem queueInv_start (cfg : Config) (nClient : Nat) : QueueInv (State.start cfg nClient) := by
  have hclients : (List.replicate nClient ClientPc.idle).flatMap ClientPc.owed = [] := by
    rw [List.flatMap_eq_nil_iff]
    intro pc hpc
    rw [List.eq_of_mem_replicate hpc]
    rfl
  have howed : (State.start cfg nClient).owed = [] := by
    simp only [State.owed, State.loading, State.start, hclients, ThreadPool.start_held,
      List.filter_nil, List.map_nil, List.append_nil]
  have hruns : ∀ {π θ : Type} {t : BlockTask} {p : π},
      ¬ (ThreadPool.start cfg.streamNumber : ThreadPool BlockTask π θ).Runs t p := by
    rintro π θ t p hr
    have hheld := hr.held
    rw [ThreadPool.start_held] at hheld
    cases hheld
  refine ⟨⟨?_, List.nodup_nil, ?_⟩, ?_, ?_, ?_, List.nil_subset _, ?_, ⟨?_, ?_, ?_, ?_⟩,
    List.nil_subset _, ?_, ?_⟩
  · show ((State.start cfg nClient).owed ++ []).Perm []
    rw [howed]
    exact .refl _
  · intro id
    show 0 = (State.start cfg nClient).owed.countP _
    rw [howed]
    rfl
  · intro x hx
    cases hx
  · intro task htask
    cases htask
  · intro task htask
    cases htask
  · intro pc hpc
    rw [List.eq_of_mem_replicate hpc]
    trivial
  · intro t ht
    simp only [State.start, ThreadPool.start_held] at ht
    cases ht
  · exact fun t p hr => absurd hr hruns
  · intro t ht
    simp only [State.start, ThreadPool.start_held] at ht
    cases ht
  · exact fun t => hruns
  · intro r hr
    cases hr
  · intro x hx
    cases hx

/-- **One step keeps the invariant.** -/
theorem step_inv {e : Event} (hi : QueueInv s) (hturn : InTurn s e) (h : step cfg s e = some s') :
    QueueInv s' := by
  cases e with
  | submit c type grouped => exact submit_inv hi h
  | wait c handle => exact (wait_advance hi h).inv hi
  | client c env =>
    simp only [step, clientStep] at h
    split at h
    · cases h
    · next pc hc =>
      split_ifs at h with hwaits
      · exact (waitStep_advance hi hc h).inv hi
      · exact (dispatchStep_advance hi hc (hturn pc hc) h).inv hi
  | file i env => exact (fileStep_advance hi hturn h).inv hi
  | device i env => exact (deviceStep_advance hi hturn h).inv hi
  | monitor overdue added => exact (monitorStep_advance hi hturn h).inv hi

theorem queueInv_reach (h : (machine cfg).Reach InTurn s) : QueueInv s := by
  refine h.inv ?_ fun s e s' hi hturn hstep => step_inv hi hturn hstep
  rintro s ⟨nClient, rfl⟩
  exact queueInv_start cfg nClient

/-! ## Who goes on with a block -/

theorem clientStep_ne_none {x : Item} (hc : s.clients[c]? = some pc) (hx : x ∈ pc.owed) :
    step cfg s (.client c { }) ≠ none := by
  simp only [step, clientStep, hc]
  cases pc with
  | dispatch task rest | copy task rest blocks => cases rest <;> simp [ClientPc.waits, dispatchStep]
  | sync task blocks => simp [ClientPc.waits, dispatchStep]
  | failInsert task blocks => simp [ClientPc.waits, dispatchStep]
  | failDone blocks | push blocks => cases blocks <;> simp [ClientPc.waits, dispatchStep]
  | done b blocks => simp [ClientPc.waits, dispatchStep]
  | idle | waitFor _ | contains _ | insert _ | drain _ | remove _ _ => cases hx

theorem fileBody_ne_none {env : FileEnv} {i : Nat} {w : Worker BlockTask FilePc} (p : FilePc)
    (hdone : t.done = true) : fileBody cfg i env w t s p ≠ none := by
  cases p with
  | contains | mkdir | rename | done =>
    simp only [fileBody]
    split_ifs <;> simp
  | io => cases ht : t.type <;> simp only [fileBody, ht] <;> split_ifs <;> simp
  | remove | push | insert => simp [fileBody]

theorem deviceBody_ne_none {i : Nat} {w : Worker BlockTask DevicePc} (p : DevicePc)
    (hdone : t.done = true) : deviceBody i env w t s p ≠ none := by
  cases p with
  | contains | issue | done =>
    simp only [deviceBody]
    split_ifs <;> simp
  | sync => cases ht : t.type <;> simp only [deviceBody, ht] <;> split_ifs <;> simp
  | push | insert => simp [deviceBody]

theorem workerStep_ne_none {π θ : Type} {b : ThreadPool BlockTask π θ} {i : Nat} {p₀ : π}
    {w : Worker BlockTask π} (hw : b.threads[i]? = some w) (ht : t ∈ w.held)
    (hrun : ∀ t p, w.pc ≠ .run t p) : b.workerStep p₀ i ≠ none := by
  rcases w with ⟨pc, stop, current, tp⟩
  simp only [ThreadPool.workerStep, hw, Option.bind_some, ne_eq, Option.map_eq_none_iff]
  cases pc with
  | taken task | stored task => simp [Worker.step]
  | run task p => exact absurd rfl (hrun task p)
  | wait | ret _ | reset _ | exited => cases ht

/-- **A block that is owed** is with a thread that can go on, or in the queue of a pool. -/
theorem QueueInv.moving (hi : QueueInv s) {x : Item} (hx : x ∈ s.owed) : Moving cfg s x := by
  rcases List.mem_append.mp hx with hclient | hpools
  · obtain ⟨pc, hpc, hmem⟩ := List.mem_flatMap.mp hclient
    obtain ⟨c, hc⟩ := List.mem_iff_getElem?.mp hpc
    exact .client c pc { } hc hmem (clientStep_ne_none hc hmem)
  rcases List.mem_append.mp hpools with hfile | hdev
  · obtain ⟨t, ht, rfl⟩ := List.mem_map.mp hfile
    obtain ⟨hheld, hload⟩ := List.mem_filter.mp ht
    rw [decide_eq_true_eq] at hload
    have hdone : t.done = true := by
      rw [hi.pools.fileTask t hheld, hload.1]
      rfl
    rcases List.mem_append.mp hheld with hqueue | hthread
    · exact .fileQueue (List.mem_map_of_mem hqueue)
    · obtain ⟨w, hw, hmem⟩ := List.mem_flatMap.mp hthread
      obtain ⟨i, hi⟩ := List.mem_iff_getElem?.mp hw
      refine .file i w { } hi (List.mem_map_of_mem hmem) ?_
      simp only [step, fileStep, hi]
      split
      · next t' p hpc =>
        rw [Worker.held, hpc] at hmem
        rw [← List.mem_singleton.mp hmem]
        exact fileBody_ne_none p hdone
      · next hrun =>
        rw [ne_eq, Option.map_eq_none_iff]
        exact workerStep_ne_none hi hmem hrun
  · obtain ⟨t, hheld, rfl⟩ := List.mem_map.mp hdev
    have hdone : t.done = true := (hi.pools.devTask t hheld).2
    rcases List.mem_append.mp hheld with hqueue | hthread
    · exact .devQueue (List.mem_map_of_mem hqueue)
    · obtain ⟨w, hw, hmem⟩ := List.mem_flatMap.mp hthread
      obtain ⟨i, hi⟩ := List.mem_iff_getElem?.mp hw
      refine .device i w { } hi (List.mem_map_of_mem hmem) ?_
      simp only [step, deviceStep, hi]
      split
      · next t' p hpc =>
        rw [Worker.held, hpc] at hmem
        rw [← List.mem_singleton.mp hmem]
        exact deviceBody_ne_none p hdone
      · next hrun =>
        rw [ne_eq, Option.map_eq_none_iff]
        exact workerStep_ne_none hi hmem hrun

theorem QueueInv.owed_of_copy (hi : QueueInv s) {x : Copy} (hx : x ∈ s.copies) :
    x.item ∈ s.owed := by
  rcases hi.copies x hx with ⟨t, hr, hitem⟩ | ⟨pc, hpc, hmem⟩
  · rw [← hitem]
    exact List.mem_append_right _ (List.mem_append_right _ (List.mem_map_of_mem hr.held))
  · refine List.mem_append_left _ (List.mem_flatMap.mpr ⟨pc, hpc, ?_⟩)
    cases pc with
    | copy task rest blocks => exact List.mem_append_left _ hmem
    | sync task blocks => exact hmem
    | idle | dispatch _ _ | failInsert _ _ | failDone _ | push _ | done _ _ | waitFor _
    | contains _ | insert _ | drain _ | remove _ _ => cases hmem

/-- **`Done` is called once per group**, in every run in which it is called in turn: the calls made
and the blocks that are still to come are as many as the task has groups, the latch counts the blocks
to come, and for each of them a thread goes on or it is in a queue. When `Wait` has returned there is
none left, and no copy from or to the caller's memory is in flight. -/
theorem done_once_per_group (cfg : Config) (s : State) (h : (machine cfg).Reach InTurn s)
    (task : TransTask) (htask : task ∈ s.submitted) :
    s.doneCalls task.id + s.owedOf task.id = task.groupNumber ∧
      s.latch task.id = s.owedOf task.id ∧
      (∀ x ∈ s.owed, x.1 = task.id → Moving cfg s x) ∧
      ∀ status, (task.id, status) ∈ s.returned →
        s.owedOf task.id = 0 ∧ ∀ copy ∈ s.copies, copy.owner ≠ task.id := by
  have hi := queueInv_reach h
  have hlatch : s.latch task.id = s.owedOf task.id := hi.balanced.counter task.id
  refine ⟨?_, hlatch, fun x hx _ => hi.moving hx, fun status hret => ?_⟩
  · have hcount := hi.balanced.account.countP_eq fun x => decide (x.1 = task.id)
    have hnumber := hi.number task htask
    rw [List.countP_append] at hcount
    show s.dones.countP _ + s.owed.countP _ = _
    have hsum : s.owed.countP (fun x => decide (x.1 = task.id)) +
        s.dones.countP (fun x => decide (x.1 = task.id)) =
          s.issued.countP fun x => decide (x.1 = task.id) := hcount
    omega
  · have hzero : s.latch task.id = 0 := (hi.returned _ hret).2
    refine ⟨hlatch.symm.trans hzero, fun copy hcopy howner => ?_⟩
    exact hi.balanced.not_held_of_counter hzero copy.item howner (hi.owed_of_copy hcopy)

/-- Two blocks of one shard each. -/
def Grouped.two : Grouped := ⟨[⟨6, [100]⟩, ⟨7, [200]⟩], by decide⟩

/-- A file worker does not come back from the first of two blocks that are loaded. The monitor calls
`Done` for it, the other block is loaded, and `Wait` returns. -/
theorem done_once_per_group_stuck : ∃ s, (machine (.small false)).Reach InTurn s ∧
    s.dones = [(1, 6), (1, 7)] ∧ s.returned = [(1, .error)] ∧ ∃ task ∈ s.submitted,
      s.doneCalls task.id + s.owedOf task.id = task.groupNumber ∧ s.owedOf task.id = 0 := by
  obtain ⟨s, hreach, hp⟩ := Machine.exists_reach_of_run (M := machine (.small false)) (C := InTurn)
    (s := .start (.small false) 2) (l := List.flatten [.submit 0 .load .two ::
      List.replicate 3 (.client 0 { }), List.replicate 4 (.file 0 { }),
      List.replicate 6 (.file 1 { nBytes := some 4 }), List.replicate 7 (.device 0 { }),
      List.replicate 6 (.monitor true true), .wait 1 1 :: List.replicate 3 (.client 1 { })])
    (p := fun s => s.dones = [(1, 6), (1, 7)] ∧ s.returned = [(1, .error)] ∧ ∃ task ∈ s.submitted,
      (task.id, .error) ∈ s.returned) ⟨2, rfl⟩ (by decide +kernel)
  obtain ⟨hdones, hret, task, htask, hmem⟩ := hp
  obtain ⟨hcount, -, -, hdone⟩ := done_once_per_group (.small false) s hreach task htask
  exact ⟨s, hreach, hdones, hret, task, htask, hcount, (hdone .error hmem).1⟩

/-- The synchronisation of a dump of two blocks fails: `Done` is called for one of them, and `Wait`
is in its second wait for good. And a file worker comes back after the monitor has called `Done` for
its block and calls it again: `Wait` returns while the other block is copied to the device. -/
theorem done_not_once_per_group :
    (∃ s, (machine (.small false)).Reachable s ∧ ∃ task ∈ s.submitted, task.groupNumber = 2 ∧
      s.doneCalls task.id = 1 ∧ s.owed = [] ∧ s.latch task.id = 1 ∧
      s.clients = [.idle, .drain task]) ∧
    ∃ s, (machine (.small false)).Reachable s ∧ ∃ task ∈ s.submitted, task.groupNumber = 2 ∧
      s.dones = [(task.id, 6), (task.id, 6)] ∧ (task.id, .error) ∈ s.returned ∧
      s.copies = [⟨task.id, 7, 200⟩] := by
  constructor
  · obtain ⟨s, hs, hp⟩ := Machine.exists_reachable_of_run (M := machine (.small false))
      (s := .start (.small false) 2) (l := List.flatten [.submit 0 .dump .two ::
        List.replicate 3 (.client 0 { }), .client 0 { device := { syncOk := false } } ::
        List.replicate 2 (.client 0 { }), [.wait 1 1, .client 1 { timedOut := true },
        .client 1 { }]]) (p := fun s => ∃ task ∈ s.submitted, task.groupNumber = 2 ∧
        s.doneCalls task.id = 1 ∧ s.owed = [] ∧ s.latch task.id = 1 ∧
        s.clients = [.idle, .drain task]) ⟨2, rfl⟩ (by decide +kernel)
    exact ⟨s, hs, hp⟩
  · obtain ⟨s, hs, hp⟩ := Machine.exists_reachable_of_run (M := machine (.small false))
      (s := .start (.small false) 2) (l := List.flatten [.submit 0 .load .two ::
        List.replicate 3 (.client 0 { }), List.replicate 4 (.file 0 { }),
        List.replicate 7 (.file 1 { nBytes := some 4 }), List.replicate 5 (.device 0 { }),
        List.replicate 6 (.monitor true true), List.replicate 3 (.file 0 { }), .wait 1 1 ::
        List.replicate 3 (.client 1 { })]) (p := fun s => ∃ task ∈ s.submitted,
        task.groupNumber = 2 ∧ s.dones = [(task.id, 6), (task.id, 6)] ∧
        (task.id, .error) ∈ s.returned ∧ s.copies = [⟨task.id, 7, 200⟩]) ⟨2, rfl⟩
      (by decide +kernel)
    exact ⟨s, hs, hp⟩

end UnifiedCache.PcStore
