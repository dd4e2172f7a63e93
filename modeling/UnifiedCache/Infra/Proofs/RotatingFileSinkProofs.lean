import UnifiedCache.Infra.RotatingFileSink
import Mathlib.Tactic.Common

/-!
# Log rotation ends if the archives to be removed are there

The loop of `rotate_` removes the archive of the first name, and goes round and round if there is none. It
ends exactly if the names that are too many are different ones and have their archives. What a call leaves
when it ends is bounded in any case.
-/

open Lib

namespace UnifiedCache.Infra.RotatingFileSink

variable {cfg : SinkConfig} {s s' : State} {env : Env} {passes msg : Nat} {files files' : Finset Path}
  {names names' : List Path}

/-! ## Names -/

theorem archive_inj {name name' : Path} (h : archive name = archive name') : name = name' :=
  List.append_cancel_right h

theorem eq_of_dot {x y e e' : Path} (hx : '.' ∉ x) (hy : '.' ∉ y) (he : e = [] ∨ e.head? = some '.')
    (he' : e' = [] ∨ e'.head? = some '.') (h : x ++ e = y ++ e') : x = y := by
  have hfront : ∀ (z e : Path), '.' ∉ z → (e = [] ∨ e.head? = some '.') →
      (z ++ e).takeWhile (· ≠ '.') = z := by
    intro z e hz he
    rw [List.takeWhile_append_of_pos]
    · rcases he with rfl | he
      · exact List.append_nil z
      · cases e with
        | nil => cases he
        | cons c e =>
          obtain rfl := Option.some.inj he
          exact List.append_nil z
    · intro c hc
      apply decide_eq_true
      rintro rfl
      exact hz hc
  rw [← hfront x e hx he, h, hfront y e' hy he']

theorem target_ne_archive (now now' : Stamp) : target cfg now ≠ archive (target cfg now') := by
  intro h
  have htail : now.chars ++ cfg.ext = now'.chars ++ (cfg.ext ++ ".gz".toList) := by
    unfold target archive at h
    rw [List.append_assoc, List.append_cancel_left_eq, List.cons_append, List.cons.injEq,
      List.append_assoc] at h
    exact h.2
  have hdot : cfg.ext ++ ".gz".toList = [] ∨ (cfg.ext ++ ".gz".toList).head? = some '.' := by
    rcases cfg.ext_dot with hnil | hdot
    · rw [hnil]
      exact .inr rfl
    · rw [List.head?_append, hdot]
      exact .inr rfl
  have hchars := eq_of_dot now.noDot now'.noDot cfg.ext_dot hdot htail
  rw [hchars] at htail
  have hext := congrArg List.length (List.append_cancel_left htail)
  simp at hext

theorem baseFilename_ne_archive (now : Stamp) : baseFilename cfg ≠ archive (target cfg now) := by
  intro h
  have htail : cfg.ext = '_' :: (now.chars ++ cfg.ext ++ ".gz".toList) := by
    unfold baseFilename target archive at h
    rw [List.append_assoc, List.append_cancel_left_eq] at h
    exact h
  rcases cfg.ext_dot with hnil | hdot
  · rw [hnil] at htail
    cases htail
  · rw [htail] at hdot
    simp at hdot

/-! ## The loop -/

/-- The names that are too many. -/
def doomed (cfg : SinkConfig) (names : List Path) : List Path :=
  names.take (names.length - cfg.maxFiles)

theorem prune_of_le (h : names.length ≤ cfg.maxFiles) :
    prune cfg passes files names = some (files, names) := by
  unfold prune
  exact if_neg (Nat.not_lt.mpr h)

theorem prune_zero (h : cfg.maxFiles < names.length) : prune cfg 0 files names = none := by
  unfold prune
  exact if_pos h

theorem prune_succ {front : Path} {rest : List Path} (h : cfg.maxFiles < (front :: rest).length) :
    prune cfg (passes + 1) files (front :: rest) =
      if archive front ∈ files then prune cfg passes (files.erase (archive front)) rest
      else prune cfg passes files (front :: rest) := by
  rw [prune]
  exact if_pos h

/-- **Without the archive of the first name** the loop does not end. -/
theorem prune_missing {front : Path} {rest : List Path} (h : cfg.maxFiles < (front :: rest).length)
    (hmissing : archive front ∉ files) : prune cfg passes files (front :: rest) = none := by
  induction passes with
  | zero => exact prune_zero h
  | succ passes ih => rw [prune_succ h, if_neg hmissing, ih]

theorem doomed_cons {front : Path} {rest : List Path} (h : cfg.maxFiles < (front :: rest).length) :
    doomed cfg (front :: rest) = front :: doomed cfg rest := by
  unfold doomed
  rw [List.length_cons] at h ⊢
  rw [Nat.sub_add_comm (Nat.le_of_lt_succ h), List.take_succ_cons]

/-- **The loop ends** exactly if the names that are too many are different and have their archives. -/
theorem exists_prune_iff :
    (∃ passes r, prune cfg passes files names = some r) ↔
      (doomed cfg names).Nodup ∧ ∀ name ∈ doomed cfg names, archive name ∈ files := by
  induction names generalizing files with
  | nil =>
    have hnil : doomed cfg [] = [] := List.take_nil
    rw [hnil]
    exact ⟨fun _ => ⟨List.nodup_nil, fun _ h => absurd h List.not_mem_nil⟩,
      fun _ => ⟨0, _, prune_of_le (Nat.zero_le _)⟩⟩
  | cons front rest ih =>
    rcases Nat.lt_or_ge cfg.maxFiles (front :: rest).length with hlt | hle
    · rw [doomed_cons hlt, List.nodup_cons]
      constructor
      · rintro ⟨passes, r, hr⟩
        have hfront : archive front ∈ files := by
          by_contra hmissing
          rw [prune_missing hlt hmissing] at hr
          cases hr
        cases passes with
        | zero =>
          rw [prune_zero hlt] at hr
          cases hr
        | succ passes =>
          rw [prune_succ hlt, if_pos hfront] at hr
          obtain ⟨hnodup, hrest⟩ := ih.mp ⟨passes, r, hr⟩
          refine ⟨⟨?_, hnodup⟩, ?_⟩
          · intro hmem
            exact Finset.notMem_erase _ _ (hrest front hmem)
          · intro name hname
            rcases List.mem_cons.mp hname with rfl | hname
            · exact hfront
            · exact Finset.mem_of_mem_erase (hrest name hname)
      · rintro ⟨⟨hnotMem, hnodup⟩, hall⟩
        have hrest : ∀ name ∈ doomed cfg rest, archive name ∈ files.erase (archive front) := by
          intro name hname
          rw [Finset.mem_erase]
          refine ⟨?_, hall name (List.mem_cons_of_mem _ hname)⟩
          intro heq
          exact hnotMem (archive_inj heq ▸ hname)
        obtain ⟨passes, r, hr⟩ := ih.mpr ⟨hnodup, hrest⟩
        refine ⟨passes + 1, r, ?_⟩
        rw [prune_succ hlt, if_pos (hall front List.mem_cons_self), hr]
    · have hnil : doomed cfg (front :: rest) = [] := by
        unfold doomed
        rw [Nat.sub_eq_zero_of_le hle, List.take_zero]
      rw [hnil]
      exact ⟨fun _ => ⟨List.nodup_nil, fun _ h => absurd h List.not_mem_nil⟩,
        fun _ => ⟨0, _, prune_of_le hle⟩⟩

/-- What the loop leaves. -/
structure Pruned (cfg : SinkConfig) (files : Finset Path) (names : List Path) (files' : Finset Path)
    (names' : List Path) : Prop where
  left : names' = names.drop (names.length - cfg.maxFiles)
  subset : files' ⊆ files
  kept : ∀ name ∈ names, archive name ∈ files' → name ∈ names'

theorem prune_pruned (h : prune cfg passes files names = some (files', names')) :
    Pruned cfg files names files' names' := by
  induction passes generalizing files names with
  | zero =>
    rcases Nat.lt_or_ge cfg.maxFiles names.length with hlt | hle
    · rw [prune_zero hlt] at h
      cases h
    · rw [prune_of_le hle] at h
      cases h
      exact ⟨by rw [Nat.sub_eq_zero_of_le hle, List.drop_zero], fun _ h => h, fun _ h _ => h⟩
  | succ passes ih =>
    rcases Nat.lt_or_ge cfg.maxFiles names.length with hlt | hle
    · cases names with
      | nil => exact absurd hlt (Nat.not_lt_zero _)
      | cons front rest =>
        by_cases hfront : archive front ∈ files
        · rw [prune_succ hlt, if_pos hfront] at h
          obtain ⟨hnames, hfiles, hkept⟩ := ih h
          refine ⟨?_, fun a ha => Finset.mem_of_mem_erase (hfiles ha), ?_⟩
          · rw [List.length_cons] at hlt ⊢
            rw [hnames, Nat.sub_add_comm (Nat.le_of_lt_succ hlt), List.drop_succ_cons]
          · intro name hname harchive
            rcases List.mem_cons.mp hname with rfl | hname
            · exact absurd (hfiles harchive) (Finset.notMem_erase _ _)
            · exact hkept name hname harchive
        · rw [prune_missing hlt hfront] at h
          cases h
    · rw [prune_of_le hle] at h
      cases h
      exact ⟨by rw [Nat.sub_eq_zero_of_le hle, List.drop_zero], fun _ h => h, fun _ h _ => h⟩

/-! ## The invariant -/

/-- There are not too many names, and every archive of the sink that still exists has one. -/
structure Inv (cfg : SinkConfig) (s : State) : Prop where
  length_le : s.compressedFiles.length ≤ cfg.maxFiles
  renamed : ∀ name ∈ s.compressedFiles, ∃ now, name = target cfg now
  kept : ∀ a ∈ s.created, a ∈ s.files → ∃ name ∈ s.compressedFiles, a = archive name
  created : ∀ a ∈ s.created, ∃ now, a = archive (target cfg now)

theorem Inv.congr (h : Inv cfg s) (hnames : s'.compressedFiles = s.compressedFiles)
    (hcreated : s'.created = s.created) (hfiles : ∀ a ∈ s.created, a ∈ s'.files → a ∈ s.files) :
    Inv cfg s' where
  length_le := by
    rw [hnames]
    exact h.length_le
  renamed := by
    rw [hnames]
    exact h.renamed
  kept := by
    rw [hnames, hcreated]
    exact fun a ha hfile => h.kept a ha (hfiles a ha hfile)
  created := by
    rw [hcreated]
    exact h.created

theorem Inv.mem_of_reopen (h : Inv cfg s) {a : Path} (ha : a ∈ s.created)
    (hfile : a ∈ insert (baseFilename cfg) files) : a ∈ files := by
  obtain ⟨now, rfl⟩ := h.created a ha
  exact (Finset.mem_insert.mp hfile).resolve_left (baseFilename_ne_archive now).symm

theorem archive_mem_renameFile (renames : Bool) (now now' : Stamp) :
    archive (target cfg now') ∈ (renameFile renames (baseFilename cfg) (target cfg now) files).2 ↔
      archive (target cfg now') ∈ files := by
  have htarget : archive (target cfg now') ≠ target cfg now := (target_ne_archive now now').symm
  have hbase : archive (target cfg now') ≠ baseFilename cfg := (baseFilename_ne_archive now').symm
  unfold renameFile
  split
  · simp [htarget, hbase]
  · simp [htarget]

theorem Inv.pruned (h : Inv cfg s) (renames : Bool) (now : Stamp)
    (hfiles : files = s.files ∨
      files = (renameFile renames (baseFilename cfg) (target cfg now) s.files).2)
    (hnames : ∀ name ∈ s.compressedFiles, name ∈ names)
    (hrenamed : ∀ name ∈ names, ∃ now, name = target cfg now)
    (hpruned : Pruned cfg files names files' names') :
    Inv cfg (reopen cfg { s with files := files', compressedFiles := names' }) where
  length_le := by
    show names'.length ≤ cfg.maxFiles
    rw [hpruned.left, List.length_drop]
    omega
  renamed name hname := by
    apply hrenamed
    have hmem : name ∈ names.drop (names.length - cfg.maxFiles) := hpruned.left ▸ hname
    exact List.mem_of_mem_drop hmem
  kept a ha hfile := by
    have hleft : a ∈ files' := h.mem_of_reopen ha hfile
    have hold : a ∈ s.files := by
      obtain ⟨now', rfl⟩ := h.created a ha
      rcases hfiles with rfl | rfl
      · exact hpruned.subset hleft
      · exact (archive_mem_renameFile renames now now').mp (hpruned.subset hleft)
    obtain ⟨name, hname, rfl⟩ := h.kept a ha hold
    exact ⟨name, hpruned.kept name (hnames name hname) hleft, rfl⟩
  created := h.created

/-- **`rotate_`** keeps the invariant, and the new name is kept if any is. -/
theorem Inv.rotate (h : Inv cfg s) {src : Option Path}
    (hrotate : rotate cfg passes env s = some (src, s')) :
    Inv cfg s' ∧ (src = none ∨ src = some [] ∨
      src = some (target cfg env.now) ∧ (cfg.maxFiles ≠ 0 → target cfg env.now ∈ s'.compressedFiles)) := by
  have hrenamed : ∀ name ∈ s.compressedFiles ++ [target cfg env.now], ∃ now, name = target cfg now := by
    intro name hname
    rcases List.mem_append.mp hname with hold | hnew
    · exact h.renamed name hold
    · exact ⟨env.now, List.mem_singleton.mp hnew⟩
  unfold RotatingFileSink.rotate at hrotate
  split at hrotate
  · split at hrotate
    · rename_i files hrename
      cases hrotate
      refine ⟨h.congr rfl rfl ?_, .inl rfl⟩
      intro a ha hfile
      obtain ⟨now', rfl⟩ := h.created a ha
      have hmem := h.mem_of_reopen ha hfile
      rw [← archive_mem_renameFile env.renames env.now now', hrename]
      exact hmem
    · rename_i files hrename
      obtain ⟨⟨files', names'⟩, hprune, heq⟩ := Option.bind_eq_some_iff.mp hrotate
      have hpruned := prune_pruned hprune
      cases heq
      refine ⟨h.pruned env.renames env.now (.inr (congrArg Prod.snd hrename).symm)
        (fun name hname => List.mem_append_left _ hname) hrenamed hpruned, .inr (.inr ⟨rfl, ?_⟩)⟩
      intro hpos
      show target cfg env.now ∈ names'
      rw [hpruned.left, List.length_append, List.length_singleton,
        List.drop_append_of_le_length (by omega)]
      exact List.mem_append_right _ List.mem_cons_self
  · obtain ⟨⟨files', names'⟩, hprune, heq⟩ := Option.bind_eq_some_iff.mp hrotate
    cases heq
    exact ⟨h.pruned env.renames env.now (.inl rfl) (fun _ hname => hname) h.renamed
      (prune_pruned hprune), .inr (.inl rfl)⟩

/-- **`compress_`** keeps it, if the file has its name. -/
theorem Inv.compress (h : Inv cfg s) {src : Path} (srcSize : Nat)
    (hsrc : src ≠ [] → cfg.maxFiles ≠ 0 → src ∈ s.compressedFiles) :
    Inv cfg (compress cfg env src srcSize s).2 := by
  unfold RotatingFileSink.compress
  split
  · exact h
  · rename_i hpos
    split
    · exact h
    · rename_i hopen
      split
      · exact h
      · have hmem : src ∈ s.compressedFiles := hsrc (not_not.mp hopen).2.1 hpos
        have hnew : Inv cfg { s with
            files := insert (archive src) s.files, created := insert (archive src) s.created } := by
          refine ⟨h.length_le, h.renamed, ?_, ?_⟩
          · intro a ha hfile
            rcases Finset.mem_insert.mp ha with rfl | ha
            · exact ⟨src, hmem, rfl⟩
            · rcases Finset.mem_insert.mp hfile with rfl | hfile
              · exact ⟨src, hmem, rfl⟩
              · exact h.kept a ha hfile
          · intro a ha
            rcases Finset.mem_insert.mp ha with rfl | ha
            · obtain ⟨now, hnow⟩ := h.renamed src hmem
              exact ⟨now, congrArg archive hnow⟩
            · exact h.created a ha
        dsimp only
        split
        · exact hnew.congr rfl rfl fun a _ hfile => Finset.mem_of_mem_erase hfile
        · exact hnew

theorem Inv.rotateAndCompress (h : Inv cfg s) {outcome : Outcome}
    (hstep : rotateAndCompress cfg passes env s = some (outcome, s')) : Inv cfg s' := by
  obtain ⟨⟨src, t⟩, hrotate, hrest⟩ := Option.bind_eq_some_iff.mp hstep
  obtain ⟨ht, hsrc⟩ := h.rotate hrotate
  cases src with
  | none =>
    cases hrest
    exact ht
  | some src =>
    have hinv : Inv cfg (RotatingFileSink.compress cfg env src s.fileSize t).2 := by
      apply ht.compress
      intro hne hpos
      rcases hsrc with hsrc | hsrc | ⟨hsrc, hmem⟩
      · cases hsrc
      · exact absurd (Option.some.inj hsrc) hne
      · exact Option.some.inj hsrc ▸ hmem hpos
    rw [congrArg Prod.snd (Option.some.inj hrest)] at hinv
    exact hinv

/-- **`sink_it_`** keeps the invariant. -/
theorem Inv.sinkIt (h : Inv cfg s) {outcome : Outcome}
    (hstep : sinkIt cfg passes msg env s = some (outcome, s')) : Inv cfg s' := by
  unfold RotatingFileSink.sinkIt at hstep
  dsimp only at hstep
  split at hstep
  · obtain ⟨⟨result, t⟩, hrotate, hrest⟩ := Option.bind_eq_some_iff.mp hstep
    have ht := h.rotateAndCompress hrotate
    cases result with
    | threw =>
      cases hrest
      exact ht
    | returned =>
      cases hrest
      exact ht.congr rfl rfl fun _ _ hfile => hfile
  · cases hstep
    exact h.congr rfl rfl fun _ _ hfile => hfile

theorem inv_construct {size : Nat} {rotateOnOpen : Bool} {outcome : Outcome}
    (h : construct cfg passes env files size rotateOnOpen = some (outcome, s)) : Inv cfg s := by
  have hnew : Inv cfg ⟨insert (baseFilename cfg) files, size, size, [], ∅⟩ := by
    refine ⟨Nat.zero_le _, ?_, ?_, ?_⟩
    · exact fun _ hname => absurd hname List.not_mem_nil
    · exact fun _ ha => absurd ha (Finset.notMem_empty _)
    · exact fun _ ha => absurd ha (Finset.notMem_empty _)
  unfold construct at h
  dsimp only at h
  split at h
  · obtain ⟨⟨result, t⟩, hrotate, hrest⟩ := Option.bind_eq_some_iff.mp h
    have ht := hnew.rotateAndCompress hrotate
    cases result with
    | threw =>
      cases hrest
      exact ht
    | returned =>
      cases hrest
      exact ht.congr rfl rfl fun _ _ hfile => hfile
  · cases h
    exact hnew

/-- **Run lemma.** -/
theorem inv_of_reachable (h : (sink cfg).Reachable s) : Inv cfg s := by
  refine h.inv ?_ ?_
  · rintro s ⟨passes, env, files, size, rotateOnOpen, hnew⟩
    exact inv_construct hnew
  · intro s e s' hinv _ hstep
    cases e with
    | sinkIt passes msg env =>
      obtain ⟨⟨outcome, t⟩, hcall, rfl⟩ := Option.map_eq_some_iff.mp hstep
      exact hinv.sinkIt hcall
    | remove paths =>
      cases hstep
      exact hinv.congr rfl rfl fun _ _ hfile => (Finset.mem_sdiff.mp hfile).1

/-! ## When a call ends -/

/-- The call gives the log another name. -/
def Renames (cfg : SinkConfig) (msg : Nat) (env : Env) (s : State) : Prop :=
  cfg.maxSize < s.currentSize + msg ∧ 0 < s.fileSize ∧ baseFilename cfg ∈ s.files ∧ env.renames = true

instance (cfg : SinkConfig) (msg : Nat) (env : Env) (s : State) : Decidable (Renames cfg msg env s) :=
  inferInstanceAs (Decidable (_ ∧ _ ∧ _ ∧ _))

/-- If the call gives the log another name, the names that are too many then are different ones, and their
archives exist. -/
def Prunable (cfg : SinkConfig) (msg : Nat) (env : Env) (s : State) : Prop :=
  Renames cfg msg env s →
    (doomed cfg (s.compressedFiles ++ [target cfg env.now])).Nodup ∧
      ∀ name ∈ doomed cfg (s.compressedFiles ++ [target cfg env.now]), archive name ∈ s.files

theorem Inv.doomed_iff (h : Inv cfg s) (env : Env) :
    (∀ name ∈ doomed cfg (s.compressedFiles ++ [target cfg env.now]),
        archive name ∈
          (renameFile env.renames (baseFilename cfg) (target cfg env.now) s.files).2) ↔
      ∀ name ∈ doomed cfg (s.compressedFiles ++ [target cfg env.now]), archive name ∈ s.files := by
  refine forall₂_congr fun name hname => ?_
  obtain ⟨now, rfl⟩ : ∃ now, name = target cfg now := by
    rcases List.mem_append.mp (List.mem_of_mem_take hname) with hold | hnew
    · exact h.renamed name hold
    · exact ⟨env.now, List.mem_singleton.mp hnew⟩
  exact archive_mem_renameFile env.renames env.now now

/-- **`rotate_` ends** exactly if its loop does, after a rename that succeeds. -/
theorem Inv.exists_rotate_iff (h : Inv cfg s) :
    (∃ passes r, RotatingFileSink.rotate cfg passes env s = some r) ↔
      (baseFilename cfg ∈ s.files → env.renames = true →
        (doomed cfg (s.compressedFiles ++ [target cfg env.now])).Nodup ∧
          ∀ name ∈ doomed cfg (s.compressedFiles ++ [target cfg env.now]), archive name ∈ s.files) := by
  rw [← h.doomed_iff env]
  unfold RotatingFileSink.rotate
  by_cases hbase : baseFilename cfg ∈ s.files
  · simp only [if_pos hbase]
    cases hrenames : env.renames with
    | false =>
      constructor
      · intro _ _ htrue
        cases htrue
      · exact fun _ => ⟨0, _, rfl⟩
    | true =>
      constructor
      · rintro ⟨passes, r, hr⟩ - -
        obtain ⟨left, hprune, -⟩ := Option.bind_eq_some_iff.mp hr
        exact exists_prune_iff.mp ⟨passes, left, hprune⟩
      · intro hall
        obtain ⟨passes, left, hprune⟩ := exists_prune_iff.mpr (hall hbase rfl)
        exact ⟨passes, _, Option.bind_eq_some_iff.mpr ⟨left, hprune, rfl⟩⟩
  · simp only [if_neg hbase]
    refine ⟨fun _ hb => absurd hb hbase, fun _ => ⟨0, (some [], reopen cfg s), ?_⟩⟩
    exact Option.bind_eq_some_iff.mpr ⟨(s.files, s.compressedFiles), prune_of_le h.length_le, rfl⟩

theorem exists_rotateAndCompress_iff :
    (∃ passes r, rotateAndCompress cfg passes env s = some r) ↔
      ∃ passes r, rotate cfg passes env s = some r := by
  constructor
  · rintro ⟨passes, r, hr⟩
    obtain ⟨t, hrotate, -⟩ := Option.bind_eq_some_iff.mp hr
    exact ⟨passes, t, hrotate⟩
  · rintro ⟨passes, ⟨src, t⟩, hrotate⟩
    cases src with
    | none | some src => exact ⟨passes, _, Option.bind_eq_some_iff.mpr ⟨_, hrotate, rfl⟩⟩

/-- **`sink_it_` ends** exactly if what it removes is there. -/
theorem Inv.exists_sinkIt_iff (h : Inv cfg s) :
    (∃ passes r, RotatingFileSink.sinkIt cfg passes msg env s = some r) ↔ Prunable cfg msg env s := by
  unfold RotatingFileSink.sinkIt Prunable Renames
  by_cases hsize : cfg.maxSize < s.currentSize + msg ∧ 0 < s.fileSize
  · have hends : (∃ passes r, RotatingFileSink.rotateAndCompress cfg passes env s = some r) ↔ _ :=
      exists_rotateAndCompress_iff.trans h.exists_rotate_iff
    simp only [hsize.1, hsize.2, true_and, and_imp]
    rw [← hends]
    constructor
    · rintro ⟨passes, r, hr⟩
      obtain ⟨t, hrotate, -⟩ := Option.bind_eq_some_iff.mp hr
      exact ⟨passes, t, hrotate⟩
    · rintro ⟨passes, ⟨outcome, t⟩, hrotate⟩
      cases outcome with
      | threw | returned => exact ⟨passes, _, Option.bind_eq_some_iff.mpr ⟨_, hrotate, rfl⟩⟩
  · simp only [if_neg hsize]
    exact ⟨fun _ hrenames => absurd ⟨hrenames.1, hrenames.2.1⟩ hsize, fun _ => ⟨0, _, rfl⟩⟩

/-- **Log rotation.** Wherever a sink has got to, a call of `sink_it_` comes to an end exactly if the
archives that it has to remove are there; and when one returns, there are not more names than allowed, and
every archive of the sink that still exists is among them. -/
theorem log_rotation (cfg : SinkConfig) (s : State) (h : (sink cfg).Reachable s) (msg : Nat)
    (env : Env) :
    ((∃ passes r, sinkIt cfg passes msg env s = some r) ↔ Prunable cfg msg env s) ∧
      ∀ passes s', sinkIt cfg passes msg env s = some (.returned, s') →
        s'.compressedFiles.length ≤ cfg.maxFiles ∧
          ∀ a ∈ s'.created, a ∈ s'.files → ∃ name ∈ s'.compressedFiles, a = archive name := by
  have hinv := inv_of_reachable h
  refine ⟨hinv.exists_sinkIt_iff, fun passes s' hreturned => ?_⟩
  have hinv' := hinv.sinkIt hreturned
  exact ⟨hinv'.length_le, hinv'.kept⟩

/-- A log of one byte, and one archive. -/
def oneArchive : SinkConfig where
  basename := "ucm".toList
  ext := ".log".toList
  maxSize := 1
  maxFiles := 1
  maxSize_pos := by decide
  maxFiles_le := by decide
  ext_dot := .inr rfl

/-- The first and the second reading of the clock. -/
def clock (second : Bool) : Stamp where
  chars := if second then "2".toList else "1".toList
  noDot := by cases second <;> decide

/-- Everything succeeds, or the archive cannot be opened. -/
def reading (second gzopens : Bool) : Env := ⟨clock second, true, true, gzopens, fun _ => true⟩

theorem oneArchive_init : (sink oneArchive).init ⟨{"ucm.log".toList}, 0, 0, [], ∅⟩ :=
  ⟨0, reading false true, ∅, 0, false, rfl⟩

theorem log_rotation_twice : ∃ s, (sink oneArchive).Reachable s ∧
    s.compressedFiles = [target oneArchive (clock false)] ∧
    ∃ passes r, sinkIt oneArchive passes 1 (reading true true) s = some r := by
  obtain ⟨s, hs, hp⟩ := Machine.exists_reachable_of_run (M := sink oneArchive)
    (s := ⟨{"ucm.log".toList}, 0, 0, [], ∅⟩) (l := [.sinkIt 0 1 (reading false true),
      .sinkIt 0 1 (reading false true)]) (p := fun s =>
      s.compressedFiles = [target oneArchive (clock false)] ∧
      archive (target oneArchive (clock false)) ∈ s.files) oneArchive_init (by decide +kernel)
  obtain ⟨hnames, harchive⟩ := hp
  refine ⟨s, hs, hnames, (log_rotation oneArchive s hs 1 (reading true true)).1.mpr fun _ => ?_⟩
  rw [hnames]
  exact ⟨by decide, fun name hname => List.mem_singleton.mp hname ▸ harchive⟩

/-- **The archive of the first file could not be opened.** The message after the next one never returns. -/
theorem log_rotation_forever : ∃ s, (sink oneArchive).Reachable s ∧
    ∀ passes, sinkIt oneArchive passes 1 (reading true true) s = none := by
  obtain ⟨s, hs, hp⟩ := Machine.exists_reachable_of_run (M := sink oneArchive)
    (s := ⟨{"ucm.log".toList}, 0, 0, [], ∅⟩) (l := [.sinkIt 0 1 (reading false true),
      .sinkIt 0 1 (reading false false), .sinkIt 0 1 (reading false true)]) (p := fun s =>
      Renames oneArchive 1 (reading true true) s ∧
      s.compressedFiles = [target oneArchive (clock false)] ∧
      archive (target oneArchive (clock false)) ∉ s.files) oneArchive_init (by decide +kernel)
  obtain ⟨hrenames, hnames, hmissing⟩ := hp
  refine ⟨s, hs, fun passes => ?_⟩
  by_contra hsome
  obtain ⟨r, hr⟩ := Option.ne_none_iff_exists'.mp hsome
  obtain ⟨-, hall⟩ := (inv_of_reachable hs).exists_sinkIt_iff.mp ⟨passes, r, hr⟩ hrenames
  rw [hnames] at hall
  exact hmissing (hall _ List.mem_cons_self)

end UnifiedCache.Infra.RotatingFileSink
