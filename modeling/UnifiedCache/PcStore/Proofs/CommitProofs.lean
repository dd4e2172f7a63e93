import UnifiedCache.PcStore.TransQueue
import UnifiedCache.Infra.Proofs.ThreadPoolProofs

/-!
# Proofs: what a dump commits

A block of a dump reaches the file pool only after the synchronisation of its task has succeeded, and
its file is renamed only after its whole length has been written. What nobody looks at is the status
of the asynchronous copies.
-/

open Lib UnifiedCache.Infra

namespace UnifiedCache.PcStore

variable {cfg : Config} {s s' : State} {c : Nat} {pc pc' : ClientPc} {t : BlockTask}

/-- The copies of the block have been issued and synchronised without an error. -/
def State.Copied (s : State) (x : Item) : Prop := x ∈ s.copied ∧ x.1 ∈ s.synced

/-- What a caller in `Submit` has in hand. -/
def ClientPc.Copied (s : State) : ClientPc → Prop
  | .dispatch task _ => task.type = .load
  | .copy task _ blocks | .sync task blocks => ∀ b ∈ blocks, b.owner = task.id
  | .push blocks | .done _ blocks => ∀ b ∈ blocks, s.Copied b.item
  | _ => True

/-- What a file worker has done for its block. -/
def FilePc.Written (s : State) (t : BlockTask) : FilePc → Prop
  | .mkdir | .rename => t.type = .dump ∧ t.item ∈ s.written
  | .push => t.type = .load
  | _ => True

/-- Every dump in the file pool has been copied, and the device pool has loads only. -/
structure CommitInv (s : State) : Prop where
  clients : ∀ pc ∈ s.clients, pc.Copied s
  fileTask : ∀ t ∈ s.filePool.held, t.type = .dump → s.Copied t.item
  filePc : ∀ t p, s.filePool.Runs t p → p.Written s t
  devTask : ∀ t ∈ s.devPool.held, t.type = .load
  archived : ∀ x ∈ s.archived, s.Copied x ∧ x ∈ s.written

/-- The records only get longer. -/
structure Grows (s s' : State) : Prop where
  copied : s.copied ⊆ s'.copied
  synced : s.synced ⊆ s'.synced
  written : s.written ⊆ s'.written

theorem Grows.of_eq (hcopied : s'.copied = s.copied) (hsynced : s'.synced = s.synced)
    (hwritten : s'.written = s.written) : Grows s s' := by
  refine ⟨?_, ?_, ?_⟩
  · rw [hcopied]
    exact List.Subset.refl _
  · rw [hsynced]
    exact List.Subset.refl _
  · rw [hwritten]
    exact List.Subset.refl _

theorem State.Copied.mono {x : Item} (hg : Grows s s') (h : s.Copied x) : s'.Copied x :=
  ⟨hg.copied h.1, hg.synced h.2⟩

theorem ClientPc.Copied.mono (hg : Grows s s') (h : pc.Copied s) : pc.Copied s' := by
  cases pc with
  | push _ | done _ _ => exact fun b hb => (h b hb).mono hg
  | dispatch _ _ | copy _ _ _ | sync _ _ => exact h
  | idle | failInsert _ _ | failDone _ | waitFor _ | contains _ | insert _ | drain _ | remove _ _ =>
    trivial

theorem FilePc.Written.mono {p : FilePc} (hg : Grows s s') (h : p.Written s t) :
    p.Written s' t := by
  cases p with
  | mkdir | rename => exact ⟨h.1, hg.written h.2⟩
  | push => exact h
  | contains | io | remove | insert | done => trivial

theorem CommitInv.next (hi : CommitInv s) (hg : Grows s s')
    (hclients : ∀ pc ∈ s'.clients, pc ∈ s.clients ∨ pc.Copied s')
    (hfile : ∀ t ∈ s'.filePool.held, t ∈ s.filePool.held ∨ (t.type = .dump → s'.Copied t.item))
    (hfilePc : ∀ t p, s'.filePool.Runs t p → s.filePool.Runs t p ∨ p.Written s' t)
    (hdev : ∀ t ∈ s'.devPool.held, t ∈ s.devPool.held ∨ t.type = .load)
    (harchived : ∀ x ∈ s'.archived, x ∈ s.archived ∨ s'.Copied x ∧ x ∈ s'.written) :
    CommitInv s' where
  clients := by
    intro pc hpc
    rcases hclients pc hpc with hold | hnew
    · exact (hi.clients pc hold).mono hg
    · exact hnew
  fileTask := by
    intro t ht htype
    rcases hfile t ht with hold | hnew
    · exact (hi.fileTask t hold htype).mono hg
    · exact hnew htype
  filePc := by
    intro t p hr
    rcases hfilePc t p hr with hold | hnew
    · exact (hi.filePc t p hold).mono hg
    · exact hnew
  devTask := by
    intro t ht
    rcases hdev t ht with hold | hnew
    · exact hi.devTask t hold
    · exact hnew
  archived := by
    intro x hx
    rcases harchived x hx with hold | hnew
    · obtain ⟨hcopied, hwritten⟩ := hi.archived x hold
      exact ⟨hcopied.mono hg, hg.written hwritten⟩
    · exact hnew

/-! ## The callers -/

theorem CommitInv.of_client (hi : CommitInv s) (hg : Grows s s')
    (hclients : s'.clients = s.clients.set c pc') (hpc : pc'.Copied s')
    (hfile : s'.filePool = s.filePool) (hdev : s'.devPool = s.devPool)
    (harchived : s'.archived = s.archived) : CommitInv s' := by
  refine hi.next hg (fun pc hmem => ?_) (fun t ht => ?_) (fun t p hr => ?_) (fun t ht => ?_)
    fun x hx => ?_
  · rw [hclients] at hmem
    rcases List.mem_or_eq_of_mem_set hmem with hold | rfl
    · exact .inl hold
    · exact .inr hpc
  · rw [hfile] at ht
    exact .inl ht
  · rw [hfile] at hr
    exact .inl hr
  · rw [hdev] at ht
    exact .inl ht
  · rw [harchived] at hx
    exact .inl hx

theorem CommitInv.of_move (hi : CommitInv s) (hpc : pc'.Copied s) :
    CommitInv (s.setClient c pc') :=
  hi.of_client (.of_eq rfl rfl rfl) rfl (hpc.mono (.of_eq rfl rfl rfl)) rfl rfl rfl

theorem CommitInv.of_pushFile (hi : CommitInv s) (hpc : pc'.Copied s)
    (ht : t.type = .dump → s.Copied t.item) : CommitInv ((s.pushFile t).setClient c pc') := by
  refine hi.next (.of_eq rfl rfl rfl) (fun pc hmem => ?_) (fun u hu => ?_) (fun _ _ hr => .inl hr)
    (fun _ hu => .inl hu) fun _ hx => .inl hx
  · rcases List.mem_or_eq_of_mem_set hmem with hold | rfl
    · exact .inl hold
    · exact .inr (hpc.mono (.of_eq rfl rfl rfl))
  · rcases List.mem_append.mp ((s.filePool.held_push [t]).subset hu) with hnew | hold
    · rw [List.mem_singleton.mp hnew]
      exact .inr ht
    · exact .inl hold

/-- **The next step of a caller in `Submit`.** -/
theorem dispatchStep_commit {env : DeviceEnv} (hi : CommitInv s) (hc : s.clients[c]? = some pc)
    (hrep : pc.Reported env s.copied) (h : dispatchStep cfg env c s pc = some s') :
    CommitInv s' := by
  have hok : pc.Copied s := hi.clients pc (List.mem_of_getElem? hc)
  cases pc with
  | dispatch task rest =>
    cases rest with
    | nil =>
      cases h
      exact hi.of_move trivial
    | cons g rest =>
      have hload : task.type = .load := hok
      have hdump : ¬ task.type = .dump := by rw [hload]; decide
      simp only [dispatchStep, if_neg hdump, Option.some.injEq] at h
      subst h
      exact hi.of_pushFile hload fun hd => absurd hd hdump
  | copy task rest blocks =>
    cases rest with
    | nil =>
      cases h
      exact hi.of_move hok
    | cons g rest =>
      cases h
      refine hi.of_client ⟨?_, List.Subset.refl _, List.Subset.refl _⟩ rfl ?_ rfl rfl rfl
      · dsimp only [State.setClient]
        split
        · exact List.subset_cons_self _ _
        · exact List.Subset.refl _
      · intro b hb
        rcases List.mem_append.mp hb with hold | hnew
        · exact hok b hold
        · rw [List.mem_singleton.mp hnew]
          rfl
  | sync task blocks =>
    simp only [dispatchStep] at h
    split_ifs at h with hsync hsettled
    · cases h
      have hg : Grows s { s.setClient c (.push blocks) with
          copies := s.copies.filter fun copy => copy.owner ≠ task.id
          synced := task.id :: s.synced } :=
        ⟨List.Subset.refl _, List.subset_cons_self _ _, List.Subset.refl _⟩
      refine hi.of_client hg rfl (fun b hb => ⟨hrep hsync b hb, ?_⟩) rfl rfl rfl
      have howner : b.owner = task.id := hok b hb
      show b.owner ∈ task.id :: s.synced
      rw [howner]
      exact List.mem_cons_self ..
    · cases h
      exact hi.of_client (.of_eq rfl rfl rfl) rfl trivial rfl rfl rfl
    · cases h
      exact hi.of_client (.of_eq rfl rfl rfl) rfl trivial rfl rfl rfl
  | failInsert task blocks =>
    cases h
    exact hi.of_client (.of_eq rfl rfl rfl) rfl trivial rfl rfl rfl
  | failDone blocks =>
    cases blocks with
    | nil =>
      cases h
      exact hi.of_move trivial
    | cons b blocks =>
      cases h
      exact hi.of_client (.of_eq rfl rfl rfl) rfl trivial rfl rfl rfl
  | push blocks =>
    cases blocks with
    | nil =>
      cases h
      exact hi.of_move trivial
    | cons b blocks =>
      cases h
      exact hi.of_pushFile (fun b' hb' => hok b' (List.mem_cons_of_mem _ hb'))
        fun _ => hok b (List.mem_cons_self ..)
  | done b blocks =>
    cases h
    exact hi.of_client (.of_eq rfl rfl rfl) rfl hok rfl rfl rfl
  | idle | waitFor _ | contains _ | insert _ | drain _ | remove _ _ => cases h

theorem waitStep_commit {timedOut : Bool} (hi : CommitInv s)
    (h : waitStep cfg timedOut c s pc = some s') : CommitInv s' := by
  cases pc with
  | waitFor task | contains task | drain task =>
    simp only [waitStep] at h
    split_ifs at h <;> cases h <;> exact hi.of_client (.of_eq rfl rfl rfl) rfl trivial rfl rfl rfl
  | insert task | remove task status =>
    cases h
    exact hi.of_client (.of_eq rfl rfl rfl) rfl trivial rfl rfl rfl
  | idle | dispatch _ _ | copy _ _ _ | sync _ _ | failInsert _ _ | failDone _ | push _ | done _ _ =>
    cases h

theorem submit_commit {type : TaskType} {grouped : Grouped} (hi : CommitInv s)
    (h : submit c type grouped s = some s') : CommitInv s' := by
  unfold submit at h
  split at h
  · cases h
    cases type with
    | dump => exact hi.of_client (.of_eq rfl rfl rfl) rfl (fun b hb => by cases hb) rfl rfl rfl
    | load => exact hi.of_client (.of_eq rfl rfl rfl) rfl rfl rfl rfl rfl
  · cases h

theorem wait_commit {handle : Nat} (hi : CommitInv s) (h : wait c handle s = some s') :
    CommitInv s' := by
  unfold wait at h
  split at h
  · cases h
    exact hi.of_client (.of_eq rfl rfl rfl) rfl trivial rfl rfl rfl
  · cases h
    exact hi
  · cases h

/-! ## The file pool -/

theorem CommitInv.of_filePool (hi : CommitInv s) (hg : Grows s s')
    (hclients : s'.clients = s.clients) (hheld : s'.filePool.held ⊆ s.filePool.held)
    (hruns : ∀ t p, s'.filePool.Runs t p → s.filePool.Runs t p ∨ p.Written s' t)
    (hdev : ∀ t ∈ s'.devPool.held, t ∈ s.devPool.held ∨ t.type = .load)
    (harchived : ∀ x ∈ s'.archived, x ∈ s.archived ∨ s'.Copied x ∧ x ∈ s'.written) :
    CommitInv s' := by
  refine hi.next hg (fun pc hpc => ?_) (fun t ht => .inl (hheld ht)) hruns hdev harchived
  rw [hclients] at hpc
  exact .inl hpc

section FileWorker

variable {i : Nat} {w : Worker BlockTask FilePc} {p : FilePc}

theorem CommitInv.of_file (hi : CommitInv s) (hw : s.filePool.threads[i]? = some w)
    (hpc : w.pc = .run t p) (p' : FilePc) {failureSet : Finset Nat} {written : List Item}
    (hwritten : s.written ⊆ written)
    (hok : p'.Written { s with written := written } t) :
    CommitInv { s.setFile i { w with pc := .run t p' } with
      failureSet := failureSet, written := written } := by
  refine hi.of_filePool ⟨List.Subset.refl _, List.Subset.refl _, hwritten⟩ rfl ?_ (fun t' q hr => ?_)
    (fun _ ht => .inl ht) fun _ hx => .inl hx
  · refine ThreadPool.held_setWorker_subset hw ?_
    rw [Worker.held, Worker.held, hpc]
    exact List.Subset.refl _
  · rcases ThreadPool.runs_setWorker hr with hold | hnew
    · exact .inl hold
    · cases hnew
      refine .inr ?_
      cases p' with
      | mkdir | rename | push => exact hok
      | contains | io | remove | insert | done => trivial

theorem CommitInv.of_ret (hi : CommitInv s) (hw : s.filePool.threads[i]? = some w)
    (hg : Grows s s') (hclients : s'.clients = s.clients)
    (hfile : s'.filePool = s.filePool.setWorker i { w with pc := .ret t })
    (hdev : ∀ t ∈ s'.devPool.held, t ∈ s.devPool.held ∨ t.type = .load)
    (harchived : ∀ x ∈ s'.archived, x ∈ s.archived ∨ s'.Copied x ∧ x ∈ s'.written) :
    CommitInv s' := by
  refine hi.of_filePool hg hclients ?_ (fun t' q hr => ?_) hdev harchived
  · rw [hfile]
    exact ThreadPool.held_setWorker_subset hw (List.nil_subset _)
  · rw [hfile] at hr
    rcases ThreadPool.runs_setWorker hr with hold | hnew
    · exact .inl hold
    · cases hnew

/-- **A step inside of `FileWorker`.** -/
theorem fileBody_commit {env : FileEnv} (hi : CommitInv s)
    (hw : s.filePool.threads[i]? = some w) (hpc : w.pc = .run t p)
    (h : fileBody cfg i env w t s p = some s') : CommitInv s' := by
  have hruns : s.filePool.Runs t p := ⟨w, List.mem_of_getElem? hw, hpc⟩
  have hok : p.Written s t := hi.filePc t p hruns
  cases p with
  | contains =>
    simp only [fileBody] at h
    split_ifs at h with hfail htype
    · cases h
      exact hi.of_file hw hpc .done (List.Subset.refl _) trivial
    · cases h
      exact hi.of_ret hw (.of_eq rfl rfl rfl) rfl rfl (fun _ ht => .inl ht) fun _ hx => .inl hx
    · cases h
      exact hi.of_file hw hpc .io (List.Subset.refl _) trivial
  | io =>
    simp only [fileBody] at h
    cases ht : t.type with
    | dump =>
      simp only [ht] at h
      have hsub : s.written ⊆ t.item :: s.written := List.subset_cons_self _ _
      split_ifs at h with hsize hshard
      · cases h
        exact hi.of_file hw hpc .mkdir hsub ⟨ht, List.mem_cons_self ..⟩
      · cases h
        exact hi.of_file hw hpc .rename hsub ⟨ht, List.mem_cons_self ..⟩
      · cases h
        exact hi.of_file hw hpc .remove (List.Subset.refl _) trivial
    | load =>
      simp only [ht] at h
      split_ifs at h with hsize
      · cases h
        exact hi.of_file hw hpc .push (List.Subset.refl _) ht
      · cases h
        exact hi.of_file hw hpc .insert (List.Subset.refl _) trivial
  | mkdir =>
    simp only [fileBody] at h
    split_ifs at h
    · cases h
      exact hi.of_file hw hpc .rename (List.Subset.refl _) hok
    · cases h
      exact hi.of_file hw hpc .remove (List.Subset.refl _) trivial
  | rename =>
    simp only [fileBody] at h
    split_ifs at h
    · cases h
      refine hi.of_ret hw (.of_eq rfl rfl rfl) rfl rfl (fun _ ht => .inl ht) fun x hx => ?_
      rcases List.mem_cons.mp hx with rfl | hold
      · exact .inr ⟨hi.fileTask t hruns.held hok.1, hok.2⟩
      · exact .inl hold
    · cases h
      exact hi.of_file hw hpc .remove (List.Subset.refl _) trivial
  | remove =>
    cases h
    exact hi.of_ret hw (.of_eq rfl rfl rfl) rfl rfl (fun _ ht => .inl ht) fun _ hx => .inl hx
  | push =>
    cases h
    refine hi.of_ret hw (.of_eq rfl rfl rfl) rfl rfl (fun u hu => ?_) fun _ hx => .inl hx
    rcases List.mem_append.mp ((s.devPool.held_push [t]).subset hu) with hnew | hold
    · rw [List.mem_singleton.mp hnew]
      exact .inr hok
    · exact .inl hold
  | insert =>
    cases h
    exact hi.of_file hw hpc .done (List.Subset.refl _) trivial
  | done =>
    simp only [fileBody] at h
    split_ifs at h
    cases h
    exact hi.of_ret hw (.of_eq rfl rfl rfl) rfl rfl (fun _ ht => .inl ht) fun _ hx => .inl hx

theorem fileStep_commit {env : FileEnv} (hi : CommitInv s)
    (h : fileStep cfg i env s = some s') : CommitInv s' := by
  unfold fileStep at h
  split at h
  · cases h
  · next w hw =>
    split at h
    · next t p hpc => exact fileBody_commit hi hw hpc h
    · obtain ⟨b, hb, rfl⟩ := Option.map_eq_some_iff.mp h
      refine hi.of_filePool (.of_eq rfl rfl rfl) rfl (ThreadPool.workerStep_held hb).subset
        (fun t p hr => ?_) (fun _ ht => .inl ht) fun _ hx => .inl hx
      rcases ThreadPool.workerStep_runs hb hr with hold | rfl
      · exact .inl hold
      · exact .inr trivial

end FileWorker

theorem monitorStep_commit {overdue added : Bool} (hi : CommitInv s)
    (h : monitorStep cfg overdue added s = some s') : CommitInv s' := by
  unfold monitorStep at h
  split_ifs at h with htimeout
  dsimp only at h
  split at h
  · cases h
    split_ifs <;>
      exact hi.of_filePool (.of_eq rfl rfl rfl) rfl (List.Subset.refl _) (fun _ _ hr => .inl hr)
        (fun _ ht => .inl ht) fun _ hx => .inl hx
  · cases h
    split_ifs <;>
      exact hi.of_filePool (.of_eq rfl rfl rfl) rfl (List.Subset.refl _) (fun _ _ hr => .inl hr)
        (fun _ ht => .inl ht) fun _ hx => .inl hx
  · obtain ⟨b, hb, rfl⟩ := Option.map_eq_some_iff.mp h
    exact hi.of_filePool (.of_eq rfl rfl rfl) rfl (ThreadPool.monitorStep_held hb).subset
      (fun _ _ hr => .inl (ThreadPool.monitorStep_runs hb hr)) (fun _ ht => .inl ht)
      fun _ hx => .inl hx

/-! ## The device pool -/

section DeviceWorker

variable {i : Nat} {w w' : Worker BlockTask DevicePc} {p : DevicePc}

theorem CommitInv.of_devPool (hi : CommitInv s) (hg : Grows s s')
    (hclients : s'.clients = s.clients) (hheld : s'.devPool.held ⊆ s.devPool.held)
    (hfile : ∀ t ∈ s'.filePool.held, t ∈ s.filePool.held ∨ (t.type = .dump → s'.Copied t.item))
    (hruns : ∀ t p, s'.filePool.Runs t p → s.filePool.Runs t p)
    (harchived : s'.archived = s.archived) : CommitInv s' := by
  refine hi.next hg (fun pc hpc => ?_) hfile (fun t p hr => .inl (hruns t p hr))
    (fun t ht => .inl (hheld ht)) fun x hx => ?_
  · rw [hclients] at hpc
    exact .inl hpc
  · rw [harchived] at hx
    exact .inl hx

/-- **A step inside of `DeviceWorker`.** -/
theorem deviceBody_commit {env : DeviceEnv} (hi : CommitInv s)
    (hw : s.devPool.threads[i]? = some w) (hpc : w.pc = .run t p)
    (h : deviceBody i env w t s p = some s') : CommitInv s' := by
  have hruns : s.devPool.Runs t p := ⟨w, List.mem_of_getElem? hw, hpc⟩
  have hload : t.type = .load := hi.devTask t hruns.held
  have hdump : ¬ t.type = .dump := by rw [hload]; decide
  have hkeep : ∀ q, (s.devPool.setWorker i { w with pc := .run t q }).held ⊆ s.devPool.held := by
    intro q
    refine ThreadPool.held_setWorker_subset hw ?_
    rw [Worker.held, Worker.held, hpc]
    exact List.Subset.refl _
  cases p with
  | contains | issue =>
    simp only [deviceBody] at h
    split_ifs at h <;> cases h <;>
      exact hi.of_devPool (.of_eq rfl rfl rfl) rfl (hkeep _) (fun _ ht => .inl ht) (fun _ _ hr => hr) rfl
  | sync =>
    simp only [deviceBody, hload] at h
    split_ifs at h <;> cases h <;>
      exact hi.of_devPool (.of_eq rfl rfl rfl) rfl (hkeep _) (fun _ ht => .inl ht) (fun _ _ hr => hr) rfl
  | push =>
    cases h
    refine hi.of_devPool (.of_eq rfl rfl rfl) rfl (hkeep _) (fun u hu => ?_) (fun _ _ hr => hr) rfl
    rcases List.mem_append.mp ((s.filePool.held_push [t]).subset hu) with hnew | hold
    · rw [List.mem_singleton.mp hnew]
      exact .inr fun hd => absurd hd hdump
    · exact .inl hold
  | insert =>
    cases h
    exact hi.of_devPool (.of_eq rfl rfl rfl) rfl (hkeep _) (fun _ ht => .inl ht) (fun _ _ hr => hr) rfl
  | done =>
    simp only [deviceBody] at h
    split_ifs at h
    cases h
    exact hi.of_devPool (.of_eq rfl rfl rfl) rfl
      (ThreadPool.held_setWorker_subset hw (List.nil_subset _)) (fun _ ht => .inl ht)
      (fun _ _ hr => hr) rfl

theorem deviceStep_commit {env : DeviceEnv} (hi : CommitInv s)
    (h : deviceStep i env s = some s') : CommitInv s' := by
  unfold deviceStep at h
  split at h
  · cases h
  · next w hw =>
    split at h
    · next t p hpc => exact deviceBody_commit hi hw hpc h
    · obtain ⟨b, hb, rfl⟩ := Option.map_eq_some_iff.mp h
      exact hi.of_devPool (.of_eq rfl rfl rfl) rfl (ThreadPool.workerStep_held hb).subset
        (fun _ ht => .inl ht) (fun _ _ hr => hr) rfl

end DeviceWorker

/-! ## Runs -/

theorem commitInv_start (cfg : Config) (nClient : Nat) : CommitInv (State.start cfg nClient) where
  clients := by
    intro pc hpc
    rw [List.eq_of_mem_replicate hpc]
    trivial
  fileTask := by
    intro t ht
    simp only [State.start, ThreadPool.start_held] at ht
    cases ht
  filePc := by
    intro t p hr
    have hheld := hr.held
    simp only [State.start, ThreadPool.start_held] at hheld
    cases hheld
  devTask := by
    intro t ht
    simp only [State.start, ThreadPool.start_held] at ht
    cases ht
  archived := fun x hx => by cases hx

/-- **One step keeps the invariant.** -/
theorem step_commit {e : Event} (hi : CommitInv s) (hrep : CopiesReported s e)
    (h : step cfg s e = some s') : CommitInv s' := by
  cases e with
  | submit c type grouped => exact submit_commit hi h
  | wait c handle => exact wait_commit hi h
  | client c env =>
    simp only [step, clientStep] at h
    split at h
    · cases h
    · next pc hc =>
      split_ifs at h with hwaits
      · exact waitStep_commit hi h
      · exact dispatchStep_commit hi hc (hrep pc hc) h
  | file i env => exact fileStep_commit hi h
  | device i env => exact deviceStep_commit hi h
  | monitor overdue added => exact monitorStep_commit hi h

/-- **Only complete blocks are committed**, in every run in which the copies of a dump are never
synchronised without an error after issuing one of them had one: the archived file of a block is
created only if all its device-to-host copies were issued and synchronised without an error and its
whole length was written. -/
theorem commits_complete (cfg : Config) (s : State) (h : (machine cfg).Reach CopiesReported s)
    (x : Item) (hx : x ∈ s.archived) :
    x ∈ s.copied ∧ x.1 ∈ s.synced ∧ x ∈ s.written := by
  have hi : CommitInv s := by
    refine h.inv ?_ fun s e s' hi hrep hstep => step_commit hi hrep hstep
    rintro s ⟨nClient, rfl⟩
    exact commitInv_start cfg nClient
  obtain ⟨⟨hcopied, hsynced⟩, hwritten⟩ := hi.archived x hx
  exact ⟨hcopied, hsynced, hwritten⟩

/-- One block of two shards. -/
def Grouped.one : Grouped := ⟨[⟨6, [100, 101]⟩], by decide⟩

/-- A caller dumps the block, with these answers of the device, and a file worker writes it. -/
def dumpOne (env : DeviceEnv) : List Event :=
  [.submit 0 .dump .one, .client 0 { device := env }] ++ List.replicate 5 (.client 0 { }) ++
    List.replicate 6 (.file 0 { nBytes := some 8 })

/-- A block that is copied, written and committed. -/
theorem commits_complete_one : ∃ s, (machine (.small true)).Reach CopiesReported s ∧
    s.archived = [(1, 6)] ∧ (1, 6) ∈ s.copied ∧ 1 ∈ s.synced ∧ (1, 6) ∈ s.written := by
  obtain ⟨s, hreach, hp⟩ := Machine.exists_reach_of_run (M := machine (.small true))
    (C := CopiesReported) (s := .start (.small true) 1) (l := dumpOne { })
    (p := fun s => s.archived = [(1, 6)]) ⟨1, rfl⟩ (by decide +kernel)
  have harchived := hp
  refine ⟨s, hreach, harchived, commits_complete (.small true) s hreach (1, 6) ?_⟩
  rw [harchived]
  exact List.mem_singleton_self _

/-- In both ways to dump, issuing the copies of a block fails and the block is committed. -/
theorem commits_incomplete :
    (∃ s, (machine (.small false)).Reachable s ∧ s.archived = [(1, 6)] ∧ s.copied = []) ∧
      ∃ s, (machine (.small true)).Reachable s ∧ s.archived = [(1, 6)] ∧ s.copied = [] := by
  constructor
  · obtain ⟨s, hs, hp⟩ := Machine.exists_reachable_of_run (M := machine (.small false))
      (s := .start (.small false) 1) (l := dumpOne { copyFails := some 1 })
      (p := fun s => s.archived = [(1, 6)] ∧ s.copied = []) ⟨1, rfl⟩ (by decide +kernel)
    exact ⟨s, hs, hp⟩
  · obtain ⟨s, hs, hp⟩ := Machine.exists_reachable_of_run (M := machine (.small true))
      (s := .start (.small true) 1) (l := dumpOne { copyFails := some 1 })
      (p := fun s => s.archived = [(1, 6)] ∧ s.copied = []) ⟨1, rfl⟩ (by decide +kernel)
    exact ⟨s, hs, hp⟩

end UnifiedCache.PcStore
