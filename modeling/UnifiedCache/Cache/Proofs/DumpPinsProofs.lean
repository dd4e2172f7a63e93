import UnifiedCache.Cache.Proofs.OwnersProofs
import UnifiedCache.Cache.Proofs.DurabilityProofs

/-!
# Dump buffers stay pinned

A dump uses a node twice: as the target of a device-to-host copy until the streams are synchronised,
and as the source of a backend dump until the dumper has waited for it. The dispatcher holds the
handles of the first kind; those of the second are handed over in the order of the submissions, and
since the handles of the backend increase the dumper waits for every one of them before it lets go
(`DumpInv`).
-/

open Lib

namespace UnifiedCache.Cache

variable {cfg : Config} {env : Env} {act : Action} {buf buf' : TransBuffer} {q q' : Proc}

/-- The nodes that may be the target of a copy that is not synchronised. -/
def DumpPc.targets : DumpPc → List Nat
  | .get _ _ acc | .skip _ _ acc _ | .ready _ _ _ acc _ | .d2h _ _ _ acc _ | .sync _ acc =>
    acc.map (·.2.pos)
  | _ => []

/-- The context the dispatcher is about to push. -/
def DumpPc.ctx : DumpPc → List DumpCtx
  | .push task acc handle => [⟨task.id, handle, acc.map (·.2)⟩]
  | _ => []

/-- The context the dumper waits for. -/
def DumperPc.ctx : DumperPc → List DumpCtx
  | .wait ctx => [ctx]
  | _ => []

/-- The contexts of the backend dumps that have not been waited for, in the order of submission. -/
def DumpQueue.ctxs (d : DumpQueue) : List DumpCtx := d.dumper.ctx ++ d.dumping ++ d.dispatch.ctx

/-- What the dump queue knows about its copies. -/
structure CopiesHeld (cfg : Config) (d : DumpQueue) : Prop where
  node : ∀ c ∈ d.copies, c.node ∈ d.dispatch.targets
  stream : ∀ c ∈ d.copies, c.stream < cfg.streamNumber
  index : d.streamIndex < cfg.streamNumber

/-- What the dump queue knows about its backend dumps. -/
structure DumpsHeld (d : DumpQueue) (backend : List BackendTask) : Prop where
  held : ∀ b ∈ backend, b.type = .dump → b.waited = false →
    ∃ ctx ∈ d.ctxs, ctx.backendTaskHandle = b.handle ∧
      b.shards.map Prod.snd ⊆ ctx.bufferHandles.map Handle.pos
  increasing : (d.finishedBackendTaskHandle :: d.ctxs.map DumpCtx.backendTaskHandle).Pairwise (· < ·)
  known : ∀ handle ∈ d.finishedBackendTaskHandle :: d.ctxs.map DumpCtx.backendTaskHandle,
    handle = 0 ∨ handle ∈ backend.map BackendTask.handle

/-! ## Copies -/

variable {d : DumpQueue}

theorem CopiesHeld.congr {d' : DumpQueue} (h : CopiesHeld cfg d)
    (htargets : d'.dispatch.targets = d.dispatch.targets) (hcopies : d'.copies = d.copies)
    (hindex : d'.streamIndex = d.streamIndex) : CopiesHeld cfg d' :=
  ⟨by rw [htargets, hcopies]; exact h.node, by rw [hcopies]; exact h.stream,
    by rw [hindex]; exact h.index⟩

theorem CopiesHeld.eq_nil (h : CopiesHeld cfg d) (hpc : d.dispatch.targets = []) :
    d.copies = [] := by
  refine List.eq_nil_iff_forall_not_mem.mpr fun c hc => ?_
  have hn := h.node c hc
  rw [hpc] at hn
  exact absurd hn List.not_mem_nil

theorem copiesHeld_of_nil (hcopies : d.copies = []) (hindex : d.streamIndex < cfg.streamNumber) :
    CopiesHeld cfg d :=
  ⟨by rw [hcopies]; exact fun _ h => absurd h List.not_mem_nil,
    by rw [hcopies]; exact fun _ h => absurd h List.not_mem_nil, hindex⟩

theorem CopiesHeld.collect (h : CopiesHeld cfg d) (task : TransTask) (rest : List Shard)
    (acc : List (Shard × Handle)) (shard : Shard) (hd : Handle) (cs : List Copy) {streamIndex : Nat}
    (htargets : d.dispatch.targets = acc.map (·.2.pos))
    (hcs : ∀ c ∈ cs, c.node = hd.pos ∧ c.stream < cfg.streamNumber)
    (hindex : streamIndex < cfg.streamNumber) :
    CopiesHeld cfg { d with
      streamIndex := streamIndex, copies := d.copies ++ cs
      dispatch := .get task rest (acc ++ [(shard, hd)]) } := by
  refine ⟨fun c hc => ?_, fun c hc => ?_, hindex⟩
  · simp only [DumpPc.targets, List.map_append, List.mem_append, List.map_cons, List.map_nil,
      List.mem_singleton]
    rcases List.mem_append.mp hc with hc | hc
    · exact .inl (htargets ▸ h.node c hc)
    · exact .inr (hcs c hc).1
  · rcases List.mem_append.mp hc with hc | hc
    · exact h.stream c hc
    · exact (hcs c hc).2

theorem issue_node {c : Copy} {task node stream : Nat} {shard : Shard}
    (h : c ∈ Copy.issue cfg env task shard node stream) : c.node = node := by
  obtain ⟨addr, -, rfl⟩ := List.mem_map.mp h
  rfl

theorem issue_eq_nil {task node stream : Nat} {shard : Shard} (h : env.copyFails = some 0) :
    Copy.issue cfg env task shard node stream = [] := by
  simp [Copy.issue, h]

theorem dumpDispatcher_copiesHeld (h : q.dumpDispatcher cfg env buf = some (buf', q'))
    (hinv : CopiesHeld cfg q.dump) (hC : q.DumpFailsSynced cfg env .dumpDispatcher) :
    CopiesHeld cfg q'.dump := by
  obtain ⟨tasks, load, ⟨waiting, dispatch, dumping, dumper, fin, streamIndex, copies⟩, backend⟩ := q
  cases dispatch with
  | idle =>
    cases waiting with
    | nil => cases h
    | cons task waiting =>
      cases h
      exact hinv.congr rfl rfl rfl
  | check task | waitEvent task | push task acc handle =>
    simp only [Proc.dumpDispatcher] at h
    split_ifs at h <;> cases h <;> exact hinv.congr rfl rfl rfl
  | get task rest acc =>
    cases rest with
    | nil =>
      cases acc <;> cases h <;> exact hinv.congr rfl rfl rfl
    | cons shard rest =>
      rcases dumpDispatcher_get rfl h with ⟨-, rfl⟩ | ⟨hd, -, ⟨-, rfl⟩ | ⟨-, rfl⟩⟩ <;>
        exact hinv.congr rfl rfl rfl
  | skip task rest acc hd | insert task | done task =>
    cases h
    exact hinv.congr rfl rfl rfl
  | ready task shard rest acc hd =>
    simp only [Proc.dumpDispatcher] at h
    split_ifs at h <;> cases h
    · have hcol := hinv.collect task rest acc shard hd [] rfl
        (fun _ hc => absurd hc List.not_mem_nil) hinv.index
      rw [List.append_nil] at hcol
      exact hcol
    · exact hinv.congr rfl rfl rfl
  | d2h task shard rest acc hd =>
    have hidx : (streamIndex + 1) % cfg.streamNumber < cfg.streamNumber :=
      Nat.mod_lt _ cfg.stream_pos
    simp only [Proc.dumpDispatcher] at h
    split_ifs at h with hok <;> cases h
    · refine hinv.collect task rest acc shard hd _ rfl (fun c hc => ⟨issue_node hc, ?_⟩) hidx
      rw [(mem_issue hc).2]
      exact hinv.index
    · obtain ⟨hnil, hfirst⟩ := hC (Bool.eq_false_iff.mpr hok)
      refine copiesHeld_of_nil ?_ hidx
      rw [issue_eq_nil hfirst, List.append_nil]
      exact hnil
  | sync task acc =>
    cases h
    refine copiesHeld_of_nil ?_ hinv.index
    exact List.filter_eq_nil_iff.mpr fun c hc => by simpa using hC c hc
  | markReady task acc todo =>
    cases todo <;> cases h <;> exact hinv.congr rfl rfl rfl
  | submit task acc =>
    obtain ⟨-, ⟨-, rfl⟩ | ⟨handle, -, -, -, rfl⟩⟩ := dumpDispatcher_submit rfl h <;>
      exact hinv.congr rfl rfl rfl
  | unwind task handles =>
    cases handles <;> cases h <;> exact hinv.congr rfl rfl rfl

/-! ## Backend dumps -/

/-- The dumps of `backend'` nobody has waited for are among those of `backend`, and no handle of
`backend` is forgotten. -/
structure DumpsFrom (backend backend' : List BackendTask) : Prop where
  dump : ∀ b' ∈ backend', b'.type = .dump → b'.waited = false →
    ∃ b ∈ backend, b.type = .dump ∧ b.waited = false ∧ b.handle = b'.handle ∧ b.shards = b'.shards
  handle : backend.map BackendTask.handle ⊆ backend'.map BackendTask.handle

theorem DumpsFrom.refl (backend : List BackendTask) : DumpsFrom backend backend :=
  ⟨fun b hb ht hw => ⟨b, hb, ht, hw, rfl, rfl⟩, List.Subset.refl _⟩

theorem DumpsFrom.submitLoad (backend : List BackendTask) {b : BackendTask} (hb : b.type = .load) :
    DumpsFrom backend (backend ++ [b]) := by
  refine ⟨fun b' hb' ht hw => ?_, by simp⟩
  rcases List.mem_append.mp hb' with hb' | hb'
  · exact ⟨b', hb', ht, hw, rfl, rfl⟩
  · rw [List.mem_singleton.mp hb', hb] at ht
    cases ht

theorem markWaited_handle (handle : Nat) (backend : List BackendTask) :
    (markWaited handle backend).map BackendTask.handle = backend.map BackendTask.handle := by
  rw [markWaited, List.map_map]
  refine List.map_congr_left fun b _ => ?_
  simp only [Function.comp_apply]
  split_ifs <;> rfl

theorem markFinished_handle (handle : Nat) (ok : Bool) (backend : List BackendTask) :
    (markFinished handle ok backend).map BackendTask.handle = backend.map BackendTask.handle := by
  rw [markFinished, List.map_map]
  refine List.map_congr_left fun b _ => ?_
  simp only [Function.comp_apply]
  split_ifs <;> rfl

theorem DumpsFrom.waited (handle : Nat) (backend : List BackendTask) :
    DumpsFrom backend (markWaited handle backend) := by
  refine ⟨fun b hb ht hw => ?_, by rw [markWaited_handle]; exact List.Subset.refl _⟩
  exact ⟨b, (mem_markWaited hb hw).1, ht, hw, rfl, rfl⟩

theorem DumpsFrom.finished (handle : Nat) (ok : Bool) (backend : List BackendTask) :
    DumpsFrom backend (markFinished handle ok backend) := by
  refine ⟨fun b hb ht hw => ?_, by rw [markFinished_handle]; exact List.Subset.refl _⟩
  obtain ⟨b0, hb0, rfl⟩ := List.mem_map.mp hb
  refine ⟨b0, hb0, ?_⟩
  split_ifs at ht hw ⊢
  · exact ⟨ht, hw, rfl, rfl⟩
  · exact ⟨ht, hw, rfl, rfl⟩

variable {backend : List BackendTask}

theorem DumpsHeld.congr {d' : DumpQueue} {backend' : List BackendTask} (h : DumpsHeld d backend)
    (hctxs : d'.ctxs = d.ctxs) (hfin : d'.finishedBackendTaskHandle = d.finishedBackendTaskHandle)
    (hb : DumpsFrom backend backend') : DumpsHeld d' backend' := by
  refine ⟨fun b' hb' ht hw => ?_, by rw [hctxs, hfin]; exact h.increasing, fun handle hh => ?_⟩
  · obtain ⟨b, hmem, hbt, hbw, hhandle, hshards⟩ := hb.dump b' hb' ht hw
    rw [hctxs, ← hhandle, ← hshards]
    exact h.held b hmem hbt hbw
  · rw [hctxs, hfin] at hh
    exact (h.known handle hh).imp_right fun hm => hb.handle hm

theorem DumpsHeld.submitDump {d' : DumpQueue} (ctx : DumpCtx) {b : BackendTask}
    (h : DumpsHeld d backend) (hctxs : d'.ctxs = d.ctxs ++ [ctx])
    (hfin : d'.finishedBackendTaskHandle = d.finishedBackendTaskHandle)
    (hhandle : ctx.backendTaskHandle = b.handle)
    (hnodes : b.shards.map Prod.snd ⊆ ctx.bufferHandles.map Handle.pos) (h0 : b.handle ≠ 0)
    (hlt : ∀ b' ∈ backend, b'.handle < b.handle) : DumpsHeld d' (backend ++ [b]) := by
  have hold : ∀ x ∈ d.finishedBackendTaskHandle :: d.ctxs.map DumpCtx.backendTaskHandle,
      x < b.handle := by
    intro x hx
    rcases h.known x hx with rfl | hx
    · exact Nat.pos_of_ne_zero h0
    · obtain ⟨b', hb', rfl⟩ := List.mem_map.mp hx
      exact hlt b' hb'
  have hlist : d'.finishedBackendTaskHandle :: d'.ctxs.map DumpCtx.backendTaskHandle =
      (d.finishedBackendTaskHandle :: d.ctxs.map DumpCtx.backendTaskHandle) ++ [b.handle] := by
    rw [hctxs, hfin, List.map_append, List.cons_append, List.map_singleton, hhandle]
  refine ⟨fun b' hb' ht hw => ?_, ?_, fun x hx => ?_⟩
  · rw [hctxs]
    rcases List.mem_append.mp hb' with hb' | hb'
    · obtain ⟨c, hc, hrest⟩ := h.held b' hb' ht hw
      exact ⟨c, List.mem_append_left _ hc, hrest⟩
    · obtain rfl := List.mem_singleton.mp hb'
      exact ⟨ctx, by simp, hhandle, hnodes⟩
  · rw [hlist, List.pairwise_append]
    refine ⟨h.increasing, List.pairwise_singleton _ _, fun x hx y hy => ?_⟩
    rw [List.mem_singleton.mp hy]
    exact hold x hx
  · rw [hlist] at hx
    rw [List.map_append]
    rcases List.mem_append.mp hx with hx | hx
    · exact (h.known x hx).imp_right (List.mem_append_left _)
    · exact .inr (List.mem_append_right _ hx)

theorem DumpsHeld.waitDump {d' : DumpQueue} {ctx : DumpCtx} (h : DumpsHeld d backend)
    (hctxs : d.ctxs = ctx :: d'.ctxs) (hfin : d'.finishedBackendTaskHandle = ctx.backendTaskHandle) :
    DumpsHeld d' (markWaited ctx.backendTaskHandle backend) := by
  obtain ⟨held, increasing, known⟩ := h
  rw [hctxs, List.map_cons] at increasing known
  refine ⟨fun b hb ht hw => ?_, ?_, fun x hx => ?_⟩
  · obtain ⟨hb', hne⟩ := mem_markWaited hb hw
    obtain ⟨c, hc, hhandle, hnodes⟩ := held b hb' ht hw
    rw [hctxs, List.mem_cons] at hc
    rcases hc with rfl | hc
    · exact absurd hhandle.symm hne
    · exact ⟨c, hc, hhandle, hnodes⟩
  · rw [hfin]
    exact (List.pairwise_cons.mp increasing).2
  · rw [markWaited_handle]
    rw [hfin] at hx
    exact known x (List.mem_cons_of_mem _ hx)

theorem dumpDispatcher_dumpsHeld (h : q.dumpDispatcher cfg env buf = some (buf', q'))
    (hinv : DumpsHeld q.dump q.backend)
    (hC : ∀ handle ∈ q.newHandle env .dumpDispatcher, ∀ b ∈ q.backend, b.handle < handle) :
    DumpsHeld q'.dump q'.backend := by
  obtain ⟨tasks, load, ⟨waiting, dispatch, dumping, dumper, fin, streamIndex, copies⟩, backend⟩ := q
  have hsame : ∀ {d : DumpQueue},
      d.ctxs = DumpQueue.ctxs ⟨waiting, dispatch, dumping, dumper, fin, streamIndex, copies⟩ →
      d.finishedBackendTaskHandle = fin → DumpsHeld d backend :=
    fun hctxs hfin => hinv.congr hctxs hfin (.refl _)
  cases dispatch with
  | idle =>
    cases waiting with
    | nil => cases h
    | cons task waiting =>
      cases h
      exact hsame rfl rfl
  | check task | waitEvent task | ready task shard rest acc hd | d2h task shard rest acc hd =>
    simp only [Proc.dumpDispatcher] at h
    split_ifs at h <;> cases h <;> exact hsame rfl rfl
  | get task rest acc =>
    cases rest with
    | nil => cases acc <;> cases h <;> exact hsame rfl rfl
    | cons shard rest =>
      rcases dumpDispatcher_get rfl h with ⟨-, rfl⟩ | ⟨hd, -, ⟨-, rfl⟩ | ⟨-, rfl⟩⟩ <;>
        exact hsame rfl rfl
  | skip task rest acc hd | insert task | done task =>
    cases h
    exact hsame rfl rfl
  | sync task acc =>
    cases h
    refine hsame ?_ rfl
    simp only [DumpQueue.ctxs]
    split_ifs <;> rfl
  | markReady task acc todo => cases todo <;> cases h <;> exact hsame rfl rfl
  | submit task acc =>
    obtain ⟨-, ⟨-, rfl⟩ | ⟨handle, henv, h0, -, rfl⟩⟩ := dumpDispatcher_submit rfl h
    · exact hsame rfl rfl
    · refine hinv.submitDump ⟨task.id, handle, acc.map (·.2)⟩ ?_ rfl rfl ?_ h0 (hC handle henv)
      · simp only [DumpQueue.ctxs, DumpPc.ctx, List.append_nil]
      · simp only [List.map_map]
        exact List.Subset.refl _
  | push task acc handle =>
    simp only [Proc.dumpDispatcher] at h
    split_ifs at h
    cases h
    refine hsame ?_ rfl
    simp only [DumpQueue.ctxs, DumpPc.ctx, List.append_nil, List.append_assoc]
  | unwind task handles => cases handles <;> cases h <;> exact hsame rfl rfl

theorem dumper_dumpsHeld (h : q.dumper buf = some (buf', q')) (hinv : DumpsHeld q.dump q.backend) :
    DumpsHeld q'.dump q'.backend := by
  obtain ⟨tasks, load, ⟨waiting, dispatch, dumping, dumper, fin, streamIndex, copies⟩, backend⟩ := q
  cases dumper with
  | idle =>
    cases dumping with
    | nil => cases h
    | cons ctx dumping =>
      have hlt : fin < ctx.backendTaskHandle :=
        (List.pairwise_cons.mp hinv.increasing).1 _ List.mem_cons_self
      simp only [Proc.dumper, if_pos hlt] at h
      cases h
      exact hinv.congr rfl rfl (.refl _)
  | wait ctx =>
    simp only [Proc.dumper] at h
    split at h
    · cases h
    · rename_i hw
      obtain rfl := waitBackend_eq_some hw
      cases h
      exact hinv.waitDump rfl rfl
  | drop handles =>
    cases handles <;> cases h <;> exact hinv.congr rfl rfl (.refl _)

/-! ## The other threads -/

theorem loadDispatcher_dumpsFrom (h : q.loadDispatcher cfg env buf = some (buf', q')) :
    DumpsFrom q.backend q'.backend := by
  cases hpc : q.load.dispatch with
  | submit task shard rest hd =>
    obtain ⟨-, ⟨-, rfl⟩ | ⟨handle, -, -, rfl⟩⟩ := loadDispatcher_submit hpc h
    · exact .refl _
    · exact .submitLoad _ rfl
  | get task rest =>
    cases rest with
    | nil =>
      simp only [Proc.loadDispatcher, hpc] at h
      cases h
      exact .refl _
    | cons shard rest =>
      rcases loadDispatcher_get hpc h with ⟨-, rfl⟩ | ⟨hd, -, ⟨-, rfl⟩ | ⟨-, rfl⟩⟩ <;> exact .refl _
  | idle =>
    simp only [Proc.loadDispatcher, hpc] at h
    split at h <;> cases h
    exact .refl _
  | check task | ready task shard rest hd | push task st rest =>
    simp only [Proc.loadDispatcher, hpc] at h
    split_ifs at h <;> cases h <;> exact .refl _
  | skip task | failInsert task hd | failDone task hd | failDrop hd =>
    simp only [Proc.loadDispatcher, hpc] at h
    cases h
    exact .refl _

theorem loadTransfer_dumpsFrom (h : q.loadTransfer cfg env buf = some (buf', q')) :
    DumpsFrom q.backend q'.backend := by
  cases hpc : q.load.transfer with
  | waitBackend st =>
    obtain ⟨-, ok, q1, -, rfl⟩ := loadTransfer_waitBackend hpc h
    exact .waited _ _
  | idle | clear st ok =>
    simp only [Proc.loadTransfer, hpc] at h
    split at h <;> cases h <;> exact .refl _
  | check st | poll st | pollFailed st | h2d st =>
    simp only [Proc.loadTransfer, hpc] at h
    split_ifs at h <;> cases h <;> exact .refl _
  | done st =>
    simp only [Proc.loadTransfer, hpc] at h
    cases h
    dsimp only
    split_ifs <;> exact .refl _
  | markReady st | sync st | fail st | drop st =>
    simp only [Proc.loadTransfer, hpc] at h
    cases h
    exact .refl _

/-- **What the dump queue knows**: who holds the targets of its copies and the sources of its backend
dumps. -/
structure DumpInv (cfg : Config) (q : Proc) : Prop where
  copies : CopiesHeld cfg q.dump
  dumps : DumpsHeld q.dump q.backend

theorem DumpInv.congr (h : DumpInv cfg q) (hdispatch : q'.dump.dispatch = q.dump.dispatch)
    (hdumping : q'.dump.dumping = q.dump.dumping) (hdumper : q'.dump.dumper = q.dump.dumper)
    (hfin : q'.dump.finishedBackendTaskHandle = q.dump.finishedBackendTaskHandle)
    (hcopies : q'.dump.copies = q.dump.copies)
    (hindex : q'.dump.streamIndex = q.dump.streamIndex)
    (hb : DumpsFrom q.backend q'.backend) : DumpInv cfg q' := by
  refine ⟨h.copies.congr (by rw [hdispatch]) hcopies hindex, h.dumps.congr ?_ hfin hb⟩
  rw [DumpQueue.ctxs, hdispatch, hdumping, hdumper, DumpQueue.ctxs]

theorem ProcStep.dumpInv {stored stored' : Finset Key}
    (hstep : ProcStep cfg env buf stored q act buf' stored' q') (h : DumpInv cfg q)
    (hC : q.DumpFailsSynced cfg env act)
    (hinc : ∀ handle ∈ q.newHandle env act, ∀ b ∈ q.backend, b.handle < handle) :
    DumpInv cfg q' := by
  have hload : q'.dump = q.dump → DumpsFrom q.backend q'.backend → DumpInv cfg q' := fun hd hb =>
    h.congr (by rw [hd]) (by rw [hd]) (by rw [hd]) (by rw [hd]) (by rw [hd]) (by rw [hd]) hb
  cases hstep with
  | submit type desc ph =>
    unfold Proc.submit
    cases type <;> dsimp only <;> split_ifs <;>
      exact h.congr rfl rfl rfl rfl rfl rfl (.refl _)
  | waitBegin | waitTimeout | waitReturn => exact ⟨h.copies, h.dumps⟩
  | loadDispatcher hr => exact hload (loadDispatcher_tasks hr).1.dump (loadDispatcher_dumpsFrom hr)
  | loadTransfer hr => exact hload (loadTransfer_tasks hr).1.dump (loadTransfer_dumpsFrom hr)
  | dumpDispatcher hr =>
    exact ⟨dumpDispatcher_copiesHeld hr h.copies hC, dumpDispatcher_dumpsHeld hr h.dumps hinc⟩
  | dumper hr =>
    obtain ⟨-, -, -, hpc, hcopies, hindex⟩ := dumper_frame hr
    refine ⟨h.copies.congr ?_ hcopies hindex, dumper_dumpsHeld hr h.dumps⟩
    rw [hpc]
  | backendFinish hr =>
    obtain ⟨rfl, -⟩ := backendFinish_eq_some hr
    exact hload rfl (.finished _ _ _)

theorem DumpInv.pinned (h : DumpInv cfg q) {i : Nat} (hi : q.DumpUses i) :
    ∃ r, (i, r) ∈ q.pins := by
  rcases hi with ⟨c, hc, rfl⟩ | ⟨b, hb, ht, hw, hi⟩
  · have hmem : ∃ r, (c.node, r) ∈ q.dump.dispatch.pins := by
      have hn := h.copies.node c hc
      cases hpc : q.dump.dispatch with
      | get task rest acc | sync task acc =>
        rw [hpc] at hn
        obtain ⟨x, hx, hxn⟩ := List.mem_map.mp hn
        exact ⟨.fill x.1.key, List.mem_map.mpr ⟨x, hx, by rw [← hxn]; rfl⟩⟩
      | skip task rest acc hd | ready task shard rest acc hd | d2h task shard rest acc hd =>
        rw [hpc] at hn
        obtain ⟨x, hx, hxn⟩ := List.mem_map.mp hn
        exact ⟨.fill x.1.key,
          List.mem_cons_of_mem _ (List.mem_map.mpr ⟨x, hx, by rw [← hxn]; rfl⟩)⟩
      | _ =>
        rw [hpc] at hn
        exact absurd hn List.not_mem_nil
    obtain ⟨r, hr⟩ := hmem
    refine ⟨r, ?_⟩
    rw [pins_dumpDispatch]
    exact Multiset.mem_add.mpr (.inl hr)
  · obtain ⟨ctx, hctx, -, hnodes⟩ := h.dumps.held b hb ht hw
    obtain ⟨hd, hhd, rfl⟩ := List.mem_map.mp (hnodes hi)
    refine ⟨.plain, ?_⟩
    have hpin : hd.plain ∈ ctx.pins := List.mem_map_of_mem hhd
    rcases List.mem_append.mp hctx with hctx | hctx
    · rcases List.mem_append.mp hctx with hctx | hctx
      · cases hpc : q.dump.dumper with
        | wait ctx' =>
          rw [hpc] at hctx
          rw [List.mem_singleton.mp hctx] at hpin
          rw [pins_dumper, hpc]
          exact Multiset.mem_add.mpr (.inl hpin)
        | idle | drop handles =>
          rw [hpc] at hctx
          exact absurd hctx List.not_mem_nil
      · have hmem : hd.plain ∈ q.dump.dumping.flatMap DumpCtx.pins :=
          List.mem_flatMap.mpr ⟨ctx, hctx, hpin⟩
        simp only [Proc.pins, Multiset.mem_add, Multiset.mem_coe]
        exact .inl (.inr hmem)
    · cases hpc : q.dump.dispatch with
      | push task acc handle =>
        rw [hpc] at hctx
        rw [List.mem_singleton.mp hctx] at hpin
        rw [pins_dumpDispatch, hpc]
        rw [DumpCtx.pins, List.map_map] at hpin
        exact Multiset.mem_add.mpr (.inl hpin)
      | _ =>
        rw [hpc] at hctx
        exact absurd hctx List.not_mem_nil

section Global

variable {n : Nat} {s s' : State n} {e : Event n}

theorem dumpInv_reach
    (h : (storeMachine cfg n).Reach (fun s e => HandlesIncrease s e ∧ DumpFailsSynced cfg s e) s) :
    ∀ p, DumpInv cfg (s.procs p) := by
  refine h.inv (I := fun s => ∀ p, DumpInv cfg (s.procs p)) (fun s hs p => ?_)
    fun s e s' hs hC hstep => ?_
  · rw [hs.2 p]
    exact
      { copies := copiesHeld_of_nil rfl cfg.stream_pos
        dumps := ⟨fun _ hb => absurd hb List.not_mem_nil, List.pairwise_singleton _ _,
          fun x hx => .inl (List.mem_singleton.mp hx)⟩ }
  · obtain ⟨q', hprocs, hps⟩ := step_proc hstep
    rw [hprocs, Function.forall_update_iff s.procs fun _ q => DumpInv cfg q]
    exact ⟨hps.dumpInv (hs e.p) hC.2 hC.1, fun p _ => hs p⟩

/-- **Dump buffers stay pinned**, in every run in which the backend returns increasing handles and a
dump only returns early when it has no copy under way: a node that is the target of an
unsynchronised device-to-host copy, or the source of a backend dump that has not been waited for, is
referenced, and no step of any process changes its key. -/
theorem dump_pinned (cfg : Config) (n : Nat) (s : State n)
    (h : (storeMachine cfg n).Reach (fun s e => HandlesIncrease s e ∧ DumpFailsSynced cfg s e) s)
    (p : Fin n) (i : Nat) (hi : (s.procs p).DumpUses i) :
    0 < (s.buf.metaAt i).reference ∧
      ∀ e s', s.step cfg e = some s' → ∀ blockId shard,
        s'.buf.Keyed i blockId shard ↔ s.buf.Keyed i blockId shard := by
  have hinv := storeInv_reach h
  obtain ⟨r, hpin⟩ := (dumpInv_reach h p).pinned hi
  have href := hinv.pinned.reference_pos (mem_pins hpin)
  refine ⟨href, fun e s' hstep blockId shard => ?_⟩
  rw [← TransBuffer.pool_key_iff, ← TransBuffer.pool_key_iff, (keeps_step hinv hstep _ href).1]

/-- A dump of two shards; the device-to-host copy of the second cannot be issued, and the dispatcher
lets go of both nodes. -/
def droppedTrace : List (Event 1) :=
  ⟨proc, .submit .dump [⟨7, 0, [200]⟩, ⟨7, 1, [300]⟩] 0, {}⟩ ::
    [⟨proc, .dumpDispatcher, {}⟩, ⟨proc, .dumpDispatcher, {}⟩,
      ⟨proc, .dumpDispatcher, { tryLocks := [true] }⟩, ⟨proc, .dumpDispatcher, {}⟩,
      ⟨proc, .dumpDispatcher, {}⟩, ⟨proc, .dumpDispatcher, { tryLocks := [true] }⟩,
      ⟨proc, .dumpDispatcher, {}⟩, ⟨proc, .dumpDispatcher, { copyFails := some 0 }⟩,
      ⟨proc, .dumpDispatcher, {}⟩, ⟨proc, .dumpDispatcher, {}⟩]

/-- The copy into the first node is under way, and nobody references the node. -/
theorem dump_unpinned :
    ∃ s, (storeMachine .small 1).Reach HandlesIncrease s ∧
      (s.procs 0).dump.copies = [⟨1, 200, 0, 0⟩] ∧ (s.buf.metaAt 0).reference = 0 := by
  obtain ⟨s, hs, hp⟩ := Machine.exists_reach_of_run (M := storeMachine .small 1)
    (C := HandlesIncrease) (s := .start 1 ∅) (l := droppedTrace)
    (p := fun s => (s.procs 0).dump.copies = [⟨1, 200, 0, 0⟩] ∧ (s.buf.metaAt 0).reference = 0)
    ⟨rfl, fun _ => rfl⟩ (by decide +kernel)
  exact ⟨s, hs, hp⟩

/-- A dump of one shard up to its submission to the backend. -/
theorem dump_pinned_one_shard :
    ∃ s, (storeMachine .small 1).Reach
        (fun s e => HandlesIncrease s e ∧ DumpFailsSynced .small s e) s ∧
      (s.procs 0).backend = [⟨1, .dump, [((7, 0), 0)], none, false⟩] ∧
      0 < (s.buf.metaAt 0).reference := by
  obtain ⟨s, hreach, hp⟩ := Machine.exists_reach_of_run (M := storeMachine .small 1)
    (C := fun s e => HandlesIncrease s e ∧ DumpFailsSynced .small s e) (s := .start 1 ∅)
    (l := dumpTrace) (p := fun s => (s.procs 0).backend = [⟨1, .dump, [((7, 0), 0)], none, false⟩])
    ⟨rfl, fun _ => rfl⟩ (by decide +kernel)
  refine ⟨s, hreach, hp, (dump_pinned .small 1 s hreach 0 0
    (.inr ⟨⟨1, .dump, [((7, 0), 0)], none, false⟩, ?_, rfl, rfl, ?_⟩)).1⟩
  · rw [hp]
    exact List.mem_singleton_self _
  · exact List.mem_singleton_self _

end Global

end UnifiedCache.Cache
