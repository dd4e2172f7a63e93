import UnifiedCache.NfsStore.Recycle
import UnifiedCache.Infra.Proofs.HeapSelectProofs

/-!
# Proofs: recycling in the nfs store

What the iterator has still to give is determined by the directories on its stack. It gives the archived
files of the first backend, and the heap keeps the oldest of what it gives.
-/

open Lib.Words UnifiedCache.Infra

namespace UnifiedCache.NfsStore

variable {readdir : Path → Option (List Path)} {root : Path}

/-! ## The iterator -/

/-- The files of a directory. -/
def filesOf (names : List Path) (dir : Path) : List Path :=
  (names.filter listed).map fun name => dir ++ '/' :: name

/-- What an open directory has still to give. -/
def pending (readdir : Path → Option (List Path)) (root : Path) (frame : Frame) : List Path :=
  if frame.dir = root then
    (filesOf frame.names root).flatMap fun dir => filesOf ((readdir dir).getD []) dir
  else filesOf frame.names frame.dir

variable {name : Path}

theorem listed_eq_false (h : name.head? = some '.' ∨ isActivatedFile name = true) :
    listed name = false := by
  unfold listed
  rcases h with h | h
  · rw [decide_eq_true h]
    rfl
  · rw [h, Bool.not_true, Bool.and_false]

theorem listed_eq_true (hdot : ¬ name.head? = some '.')
    (hactivated : ¬ isActivatedFile name = true) : listed name = true := by
  unfold listed
  rw [decide_eq_false hdot, Bool.eq_false_of_not_eq_true hactivated]
  rfl

variable {dir : Path} {names : List Path}

theorem pending_skipped (h : listed name = false) :
    pending readdir root ⟨name :: names, dir⟩ = pending readdir root ⟨names, dir⟩ := by
  unfold pending filesOf
  dsimp only
  rw [List.filter_cons_of_neg (by rw [h]; exact Bool.false_ne_true)]

theorem pending_file (h : listed name = true) (hdir : dir ≠ root) :
    pending readdir root ⟨name :: names, dir⟩ =
      (dir ++ '/' :: name) :: pending readdir root ⟨names, dir⟩ := by
  unfold pending filesOf
  dsimp only
  rw [if_neg hdir, if_neg hdir, List.filter_cons_of_pos h, List.map_cons]

theorem pending_dir {sub : List Path} (h : listed name = true)
    (hsub : readdir (root ++ '/' :: name) = some sub) :
    pending readdir root ⟨name :: names, root⟩ =
      pending readdir root ⟨sub, root ++ '/' :: name⟩ ++ pending readdir root ⟨names, root⟩ := by
  have hne : root ++ '/' :: name ≠ root := by
    intro heq
    have hlength := congrArg List.length heq
    rw [List.length_append, List.length_cons] at hlength
    omega
  unfold pending
  dsimp only
  rw [if_pos rfl, if_pos rfl, if_neg hne]
  unfold filesOf
  rw [List.filter_cons_of_pos h, List.map_cons, List.flatMap_cons, hsub]
  rfl

theorem turn_skipped {stk : List Frame} (h : name.head? = some '.' ∨ isActivatedFile name = true) :
    turn readdir root (⟨name :: names, dir⟩ :: stk) = .next (⟨names, dir⟩ :: stk) := by
  rw [turn_cons]
  by_cases hdot : name.head? = some '.'
  · rw [if_pos hdot]
  · rw [if_neg hdot, if_pos (h.resolve_left hdot)]

/-- The directories in the root can be opened. -/
def RootOpens (readdir : Path → Option (List Path)) (root : Path) (stk : List Frame) : Prop :=
  ∀ frame ∈ stk, frame.dir = root → ∀ name ∈ frame.names, listed name = true →
    readdir (root ++ '/' :: name) ≠ none

theorem RootOpens.tail {stk : List Frame}
    (h : RootOpens readdir root (⟨name :: names, dir⟩ :: stk)) :
    RootOpens readdir root (⟨names, dir⟩ :: stk) := by
  intro frame hframe hdir name' hname'
  rcases List.mem_cons.mp hframe with rfl | hrest
  · exact h _ List.mem_cons_self hdir name' (List.mem_cons_of_mem _ hname')
  · exact h frame (List.mem_cons_of_mem _ hrest) hdir name' hname'

/-- **Step lemma.** A turn gives what comes first of what is left, and leaves the rest. -/
theorem turn_spec {stk : List Frame} (h : RootOpens readdir root stk) :
    (turn readdir root stk = .stop → stk.flatMap (pending readdir root) = []) ∧
    (∀ stk', turn readdir root stk = .next stk' → RootOpens readdir root stk' ∧
      stk.flatMap (pending readdir root) = stk'.flatMap (pending readdir root)) ∧
    ∀ current stk', turn readdir root stk = .found current stk' → RootOpens readdir root stk' ∧
      stk.flatMap (pending readdir root) = current :: stk'.flatMap (pending readdir root) := by
  match stk with
  | [] => exact ⟨fun _ => rfl, fun _ hturn => (by cases hturn), fun _ _ hturn => (by cases hturn)⟩
  | ⟨[], dir⟩ :: stk =>
    refine ⟨fun hturn => (by cases hturn), fun stk' hturn => ?_, fun _ _ hturn => (by cases hturn)⟩
    cases hturn
    refine ⟨fun frame hframe => h frame (List.mem_cons_of_mem _ hframe), ?_⟩
    rw [List.flatMap_cons]
    have hnil : pending readdir root ⟨[], dir⟩ = [] := by
      unfold pending
      split_ifs <;> rfl
    rw [hnil, List.nil_append]
  | ⟨name :: names, dir⟩ :: stk =>
    by_cases hskip : name.head? = some '.' ∨ isActivatedFile name = true
    · rw [turn_skipped hskip]
      refine ⟨fun heq => (by cases heq), fun stk' heq => ?_, fun _ _ heq => (by cases heq)⟩
      cases heq
      refine ⟨h.tail, ?_⟩
      rw [List.flatMap_cons, pending_skipped (listed_eq_false hskip), List.flatMap_cons]
    · obtain ⟨hdot, hactivated⟩ := not_or.mp hskip
      have hlisted := listed_eq_true hdot hactivated
      rw [turn_cons, if_neg hdot, if_neg hactivated]
      by_cases hdir : dir = root
      · -- A directory is opened.
        subst hdir
        rw [if_pos rfl]
        obtain ⟨sub, hsub⟩ := Option.ne_none_iff_exists'.mp
          (h _ List.mem_cons_self rfl name List.mem_cons_self hlisted)
        rw [hsub]
        refine ⟨fun heq => (by cases heq), fun stk' heq => ?_, fun _ _ heq => (by cases heq)⟩
        cases heq
        refine ⟨fun frame hframe hroot => ?_, ?_⟩
        · rcases List.mem_cons.mp hframe with rfl | hrest
          · have hlength := congrArg List.length hroot
            rw [List.length_append, List.length_cons] at hlength
            omega
          · exact h.tail frame hrest hroot
        · rw [List.flatMap_cons, pending_dir hlisted hsub, List.flatMap_cons, List.flatMap_cons,
            List.append_assoc]
      · -- A file is found.
        rw [if_neg hdir]
        refine ⟨fun heq => (by cases heq), fun _ heq => (by cases heq), fun current stk' heq => ?_⟩
        cases heq
        refine ⟨h.tail, ?_⟩
        rw [List.flatMap_cons, pending_file hlisted hdir, List.flatMap_cons, List.cons_append]

/-- **Run lemma.** The iterator gives what is left of all open directories. -/
theorem enumerate_eq {stk : List Frame} (h : RootOpens readdir root stk) :
    enumerate readdir root stk = stk.flatMap (pending readdir root) := by
  obtain ⟨hstop, hnext, hfound⟩ := turn_spec h
  rw [enumerate]
  split
  · next stk' hturn =>
    obtain ⟨hopens, hpending⟩ := hnext stk' hturn
    rw [hpending, enumerate_eq hopens]
  · next current stk' hturn =>
    obtain ⟨hopens, hpending⟩ := hfound current stk' hturn
    rw [hpending, enumerate_eq hopens]
  · next hturn => exact (hstop hturn).symm
termination_by (rootNames root stk, stackSize stk)
decreasing_by
  · exact turn_less (.inl (by assumption))
  · exact turn_less (.inr ⟨_, by assumption⟩)

theorem dataFilePaths_eq (hroot : readdir root = some names)
    (hopens : ∀ name ∈ names, listed name = true → readdir (root ++ '/' :: name) ≠ none) :
    dataFilePaths readdir root =
      (filesOf names root).flatMap fun dir => filesOf ((readdir dir).getD []) dir := by
  have h : RootOpens readdir root [⟨names, root⟩] := by
    intro frame hframe _ name hname
    rw [List.mem_singleton.mp hframe] at hname
    exact hopens name hname
  unfold dataFilePaths
  rw [hroot]
  dsimp only
  rw [enumerate_eq h, List.flatMap_singleton]
  unfold pending
  rw [if_pos rfl]

/-! ## Names -/

variable {layout : Layout} {hasher : BlockId → Nat} {b : BlockId} {a : Bool}

theorem hexDigit_of_mem {c : Char} {x : Nat} (hc : c ∈ word 16 hexDigit 16 x) :
    47 < c.toNat ∧ c ≠ 't' := by
  obtain ⟨d, hd, rfl⟩ := mem_word (by decide) hc
  have hne : ∀ d < 16, hexDigit d ≠ 't' := by decide
  exact ⟨toNat_hexDigit d hd, hne d hd⟩

theorem head?_word {x : Nat} (rest : Path) : ¬ (word 16 hexDigit 16 x ++ rest).head? = some '.' := by
  intro hhead
  have hne : word 16 hexDigit 16 x ≠ [] := List.ne_nil_of_length_pos (by rw [length_word]; decide)
  rw [List.head?_append_of_ne_nil _ hne] at hhead
  exact absurd (hexDigit_of_mem (List.mem_of_head? hhead)).1 (by decide)

theorem slash_notMem_shardName (b : BlockId) : '/' ∉ Layout.shardName b := fun hmem =>
  absurd (hexDigit_of_mem hmem).1 (by decide)

theorem slash_notMem_fileName (layout : Layout) (b : BlockId) (a : Bool) : '/' ∉ layout.fileName b a := by
  intro hmem
  rcases List.mem_append.mp hmem with hword | hsuffix
  · exact absurd (hexDigit_of_mem hword).1 (by decide)
  · unfold Layout.fileSuffix at hsuffix
    split_ifs at hsuffix
    · exact absurd hsuffix (by decide)
    · exact absurd hsuffix (by decide)

theorem listed_shardName (b : BlockId) : listed (Layout.shardName b) = true := by
  refine listed_eq_true ?_ fun hactivated => ?_
  · rw [← List.append_nil (Layout.shardName b)]
    exact head?_word []
  · have hsuffix : activatedFileSuffix <:+ Layout.shardName b := of_decide_eq_true hactivated
    exact (hexDigit_of_mem (hsuffix.subset (show 't' ∈ activatedFileSuffix by decide))).2 rfl

theorem isActivatedFile_append (name suffix : Path) (h : suffix.length = 3) :
    isActivatedFile (name ++ '.' :: suffix) = decide (suffix = activatedFileSuffix) := by
  refine decide_eq_decide.mpr ⟨fun hsuffix => ?_, fun heq => ?_⟩
  · have hsub : suffix <:+ name ++ '.' :: suffix := ⟨name ++ ['.'], List.append_assoc _ _ _⟩
    have hlength : suffix.length = activatedFileSuffix.length := h
    exact (List.suffix_of_suffix_length_le hsub hsuffix (Nat.le_of_eq hlength)).eq_of_length hlength
  · rw [heq]
    exact ⟨name ++ ['.'], List.append_assoc _ _ _⟩

theorem listed_fileName (layout : Layout) (b : BlockId) (a : Bool) :
    listed (layout.fileName b a) = decide (¬(layout.temp = false ∧ a = true)) := by
  unfold listed Layout.fileName
  rw [decide_eq_false (head?_word _), Bool.not_false, Bool.true_and]
  unfold Layout.fileSuffix
  cases layout.temp <;> cases a <;> rw [isActivatedFile_append _ _ (by rfl)] <;> rfl

theorem dataFilePath_eq_iff {root shard : Path} (hshard : '/' ∉ shard) (hname : '/' ∉ name) :
    layout.dataFilePath hasher b a = root ++ '/' :: shard ++ '/' :: name ↔
      layout.storageBackend hasher b ++ layout.fileRoot a = root ∧ Layout.shardName b = shard ∧
        layout.fileName b a = name := by
  unfold Layout.dataFilePath Layout.dataFileParent
  constructor
  · intro h
    obtain ⟨hparent, hfile⟩ := append_cons_inj (slash_notMem_fileName layout b a) hname h
    obtain ⟨hroot, hdir⟩ := append_cons_inj (slash_notMem_shardName b) hshard hparent
    exact ⟨hroot, hdir, hfile⟩
  · rintro ⟨rfl, rfl, rfl⟩
    rfl

/-! ## What is enumerated -/

variable {archived activated : Finset BlockId} {disk : Disk}

theorem mem_filesOf {path : Path} :
    path ∈ filesOf names dir ↔ ∃ name ∈ names, listed name = true ∧ dir ++ '/' :: name = path := by
  unfold filesOf
  rw [List.mem_map]
  constructor
  · rintro ⟨name, hname, rfl⟩
    exact ⟨name, (List.mem_filter.mp hname).1, (List.mem_filter.mp hname).2, rfl⟩
  · rintro ⟨name, hname, hlisted, rfl⟩
    exact ⟨name, List.mem_filter.mpr ⟨hname, hlisted⟩, rfl⟩

theorem nodup_filesOf (h : names.Nodup) : (filesOf names dir).Nodup := by
  refine (h.filter _).map fun name name' heq => ?_
  exact (List.cons.inj (List.append_cancel_left heq)).2

theorem mem_entries (h : Stored layout hasher archived activated disk readdir)
    (hdir : readdir dir = some names) (hlisted : listed name = true) (hslash : '/' ∉ name) :
    name ∈ names ↔ dir ++ '/' :: name ∈ disk.files ∪ disk.dirs := by
  rw [h.entries dir names hdir name hslash]
  constructor
  · rintro (rfl | rfl | hentry)
    · exact absurd hlisted (by decide)
    · exact absurd hlisted (by decide)
    · exact hentry
  · exact fun hentry => .inr (.inr hentry)

theorem root_spec (h : Stored layout hasher archived activated disk readdir) :
    ∃ names, readdir (layout.front ++ dataFileRoot) = some names ∧
      ∀ name ∈ names, listed name = true → readdir (layout.front ++ dataFileRoot ++ '/' :: name) ≠ none := by
  obtain ⟨names, hroot⟩ := Option.ne_none_iff_exists'.mp ((h.opens _).mpr h.root)
  refine ⟨names, hroot, fun name hname hlisted => (h.opens _).mpr ?_⟩
  have hslash := h.slash _ names hroot name hname
  rcases Finset.mem_union.mp ((mem_entries h hroot hlisted hslash).mp hname) with hfile | hdir
  · exact absurd hfile (h.shards name hslash)
  · exact hdir

/-- **The iterator** gives the archived files of the first backend. -/
theorem mem_dataFilePaths (h : Stored layout hasher archived activated disk readdir) {path : Path} :
    path ∈ dataFilePaths readdir (layout.front ++ dataFileRoot) ↔
      ∃ b ∈ archived, layout.storageBackend hasher b = layout.front ∧
        layout.dataFilePath hasher b false = path := by
  obtain ⟨names, hroot, hopens⟩ := root_spec h
  rw [dataFilePaths_eq hroot hopens, List.mem_flatMap]
  constructor
  · rintro ⟨dir, hdir, hfile⟩
    obtain ⟨shard, hshard, _, rfl⟩ := mem_filesOf.mp hdir
    obtain ⟨name, hname, hlisted, rfl⟩ := mem_filesOf.mp hfile
    have hslash := h.slash _ names hroot shard hshard
    cases hsub : readdir (layout.front ++ dataFileRoot ++ '/' :: shard) with
    | none =>
      rw [hsub] at hname
      cases hname
    | some sub =>
      rw [hsub, Option.getD_some] at hname
      have hslash' := h.slash _ sub hsub name hname
      obtain ⟨hnotdir, hblocks⟩ := h.blocks shard name hslash hslash'
      have hentry := (mem_entries h hsub hlisted hslash').mp hname
      rcases hblocks ((Finset.mem_union.mp hentry).resolve_right hnotdir) with
        ⟨b, hb, hpath⟩ | ⟨b, _, hpath⟩
      · refine ⟨b, hb, ?_, hpath⟩
        obtain ⟨hbackend, -⟩ := (dataFilePath_eq_iff hslash hslash').mp hpath
        unfold Layout.fileRoot at hbackend
        rw [if_neg (fun hand => Bool.false_ne_true hand.2)] at hbackend
        exact List.append_cancel_right hbackend
      · -- An activated file is not listed, or it lies under another root.
        obtain ⟨hbackend, -, rfl⟩ := (dataFilePath_eq_iff hslash hslash').mp hpath
        rw [listed_fileName] at hlisted
        have htemp : layout.temp = true := by
          by_contra hnot
          exact of_decide_eq_true hlisted ⟨Bool.eq_false_of_not_eq_true hnot, rfl⟩
        unfold Layout.fileRoot at hbackend
        rw [if_pos ⟨htemp, rfl⟩] at hbackend
        exact absurd (List.append_inj' hbackend rfl).2 (by decide)
  · rintro ⟨b, hb, hfront, rfl⟩
    have hparent : layout.dataFileParent hasher b false =
        layout.front ++ dataFileRoot ++ '/' :: Layout.shardName b := by
      unfold Layout.dataFileParent Layout.fileRoot
      rw [hfront, if_neg (fun hand => Bool.false_ne_true hand.2)]
    have hdir := h.parents b hb
    have hfile := (h.archivedFiles b hb).1
    unfold Layout.dataFilePath at hfile ⊢
    rw [hparent] at hdir hfile ⊢
    obtain ⟨sub, hsub⟩ := Option.ne_none_iff_exists'.mp ((h.opens _).mpr hdir)
    have hlisted : listed (layout.fileName b false) = true := by
      rw [listed_fileName]
      exact decide_eq_true fun hand => Bool.false_ne_true hand.2
    refine ⟨_, mem_filesOf.mpr ⟨Layout.shardName b, ?_, listed_shardName b, rfl⟩,
      mem_filesOf.mpr ⟨layout.fileName b false, ?_, hlisted, rfl⟩⟩
    · rw [mem_entries h hroot (listed_shardName b) (slash_notMem_shardName b)]
      exact Finset.mem_union_right _ hdir
    · rw [hsub, Option.getD_some, mem_entries h hsub hlisted (slash_notMem_fileName layout b false)]
      exact Finset.mem_union_left _ hfile

theorem nodup_dataFilePaths (h : Stored layout hasher archived activated disk readdir) :
    (dataFilePaths readdir (layout.front ++ dataFileRoot)).Nodup := by
  obtain ⟨names, hroot, hopens⟩ := root_spec h
  rw [dataFilePaths_eq hroot hopens, List.nodup_flatMap]
  have hslash : ∀ dir name, name ∈ (readdir dir).getD [] → '/' ∉ name := by
    intro dir name hname
    cases hsub : readdir dir with
    | none =>
      rw [hsub] at hname
      cases hname
    | some sub =>
      rw [hsub] at hname
      exact h.slash dir sub hsub name hname
  constructor
  · intro dir _
    refine nodup_filesOf ?_
    cases hsub : readdir dir with
    | none => exact List.nodup_nil
    | some sub => exact h.nodup dir sub hsub
  · refine (nodup_filesOf (h.nodup _ names hroot)).imp fun {dir dir'} hne path hpath hpath' => ?_
    obtain ⟨name, hname, _, rfl⟩ := mem_filesOf.mp hpath
    obtain ⟨name', hname', _, heq⟩ := mem_filesOf.mp hpath'
    exact hne (append_cons_inj (hslash _ _ hname') (hslash _ _ hname) heq).1.symm

theorem dataFilePath_inj {b b' : BlockId}
    (h : layout.dataFilePath hasher b a = layout.dataFilePath hasher b' a) : b = b' := by
  obtain ⟨-, hshard, hname⟩ := (dataFilePath_eq_iff (slash_notMem_shardName b')
    (slash_notMem_fileName layout b' a)).mp h
  have hword : ∀ x y : UInt64, word 16 hexDigit 16 x.toNat = word 16 hexDigit 16 y.toNat → x = y :=
    fun x y hxy => UInt64.toNat_inj.mp
      (word_inj unhexDigit_hexDigit (Nat.lt_of_lt_of_le x.toNat_lt (by decide))
        (Nat.lt_of_lt_of_le y.toNat_lt (by decide)) hxy)
  have hback := (List.append_inj hname (length_word.trans length_word.symm)).1
  cases b
  cases b'
  exact congrArg₂ BlockId.mk (hword _ _ hshard) (hword _ _ hback)

theorem dataFilePath_ne {b b' : BlockId} :
    layout.dataFilePath hasher b true ≠ layout.dataFilePath hasher b' false := by
  intro h
  obtain ⟨hroot, -, hname⟩ := (dataFilePath_eq_iff (slash_notMem_shardName b')
    (slash_notMem_fileName layout b' false)).mp h
  cases htemp : layout.temp with
  | true =>
    unfold Layout.fileRoot at hroot
    rw [if_pos ⟨htemp, rfl⟩, if_neg (fun hand => Bool.false_ne_true hand.2)] at hroot
    exact absurd (List.append_inj' hroot rfl).2 (by decide)
  | false =>
    have hlisted := congrArg listed hname
    rw [listed_fileName, listed_fileName, htemp] at hlisted
    exact absurd hlisted (by decide)

/-! ## Removing -/

namespace Disk

theorem rmDir_spec (disk : Disk) (path : Path) :
    (disk.rmDir path).files = disk.files ∧ (disk.rmDir path).dirs ⊆ disk.dirs := by
  unfold rmDir
  split_ifs
  · exact ⟨rfl, Finset.erase_subset _ _⟩
  · exact ⟨rfl, Finset.Subset.refl _⟩

theorem removeBlockFile_spec {path : Path} (h : path ∉ disk.dirs) :
    (disk.removeBlockFile path).files = disk.files.erase path ∧
      (disk.removeBlockFile path).dirs ⊆ disk.dirs := by
  unfold removeBlockFile remove
  rw [if_neg h]
  dsimp only
  split_ifs
  · obtain ⟨hfiles, hdirs⟩ := rmDir_spec { disk with files := disk.files.erase path }
      ((path.reverse.dropWhile (· ≠ '/')).tail.reverse)
    exact ⟨hfiles, hdirs⟩
  · exact ⟨rfl, Finset.Subset.refl _⟩

theorem foldl_removeBlockFile {removed : List SpaceRecycle.BlockInfo}
    (h : ∀ info ∈ removed, info.path ∉ disk.dirs) :
    (removed.foldl (fun disk info => disk.removeBlockFile info.path) disk).files =
      disk.files \ (removed.map SpaceRecycle.BlockInfo.path).toFinset := by
  induction removed generalizing disk with
  | nil => exact (Finset.sdiff_empty).symm
  | cons info removed ih =>
    obtain ⟨hfiles, hdirs⟩ := removeBlockFile_spec (h info List.mem_cons_self)
    rw [List.foldl_cons, ih fun info' hinfo' hdir => h info' (List.mem_cons_of_mem _ hinfo') (hdirs hdir),
      hfiles, List.map_cons, List.toFinset_cons]
    ext path
    rw [Finset.mem_sdiff, Finset.mem_sdiff, Finset.mem_erase, Finset.mem_insert, not_or]
    exact ⟨fun ⟨⟨hne, hfile⟩, hrest⟩ => ⟨hfile, hne, hrest⟩, fun ⟨hfile, hne, hrest⟩ => ⟨⟨hne, hfile⟩, hrest⟩⟩

end Disk

namespace SpaceRecycle

instance : IsStrictWeakOrder BlockInfo fun lhs rhs => cmpTimestamp lhs rhs = true where
  irrefl info h := absurd (of_decide_eq_true h) (Nat.lt_irrefl _)
  trans _ _ _ h h' := decide_eq_true (Nat.lt_trans (of_decide_eq_true h') (of_decide_eq_true h))
  incomp_trans a b c hab hbc := by
    simp only [cmpTimestamp, decide_eq_true_eq] at hab hbc ⊢
    omega

/-- **`DoRecycle`** removes the oldest of the files that the iterator gives. -/
theorem doRecycle_spec (recycleNum : Nat) (hnum : recycleNum < 2 ^ 31)
    {paths : List Path} (hpaths : dataFilePaths readdir (layout.front ++ dataFileRoot) = paths)
    (hnodup : paths.Nodup) (hfiles : ∀ path ∈ paths, path ∈ disk.files ∧ path ∉ disk.dirs ∧
      0 < disk.timestamp path) :
    ∃ removed : List Path, (doRecycle readdir layout disk recycleNum).1.files =
        disk.files \ removed.toFinset ∧
      (doRecycle readdir layout disk recycleNum).2 = removed.length ∧
      removed.length = min recycleNum paths.length ∧ removed.Nodup ∧ removed ⊆ paths ∧
      ∀ path ∈ removed, ∀ other ∈ paths, other ∉ removed →
        disk.timestamp path ≤ disk.timestamp other := by
  let infos : List BlockInfo := paths.map fun path => ⟨path, disk.timestamp path⟩
  have hinfos : ((paths.map fun path => (⟨path, disk.fileTimestamp path⟩ : BlockInfo)).filter fun info =>
      info.timestamp ≠ 0) = infos := by
    have hmap : (paths.map fun path => (⟨path, disk.fileTimestamp path⟩ : BlockInfo)) = infos :=
      List.map_congr_left fun path hpath => by
        unfold Disk.fileTimestamp
        rw [if_pos (Finset.mem_union_left _ (hfiles path hpath).1)]
    rw [hmap, List.filter_eq_self]
    intro info hinfo
    obtain ⟨path, hpath, rfl⟩ := List.mem_map.mp hinfo
    exact decide_eq_true (Nat.ne_of_gt (hfiles path hpath).2.2)
  have hcap : recycleNum % UInt32.size = recycleNum :=
    Nat.mod_eq_of_lt (Nat.lt_trans hnum (by decide))
  obtain ⟨rest, hkeeps⟩ := TopNHeap.keeps_foldl cmpTimestamp recycleNum infos
    (.inl (by rw [hcap]; exact hnum))
  obtain ⟨hfilled, hcapacity⟩ := TopNHeap.filled_foldl cmpTimestamp recycleNum infos
  have hheap : earliestHeap disk paths recycleNum =
      infos.foldl (fun heap info => heap.push cmpTimestamp info) (TopNHeap.new recycleNum) := by
    unfold earliestHeap
    rw [hinfos]
  rw [← hheap] at hkeeps hfilled hcapacity
  generalize hname : earliestHeap disk paths recycleNum = heap at hkeeps hfilled hcapacity
  have hdrain : (heap.drain cmpTimestamp heap.idx.size).Perm heap.live := by
    rw [← hkeeps.inv.live_length]
    exact hkeeps.inv.drain_perm
  generalize hdrained : heap.drain cmpTimestamp heap.idx.size = drained at hdrain
  have hdo : doRecycle readdir layout disk recycleNum =
      (drained.foldl (fun disk info => disk.removeBlockFile info.path) disk, drained.length) := by
    unfold doRecycle
    dsimp only
    rw [hpaths, hname, hdrained]
  have hsplit : (drained ++ rest).Perm infos := (hdrain.append_right rest).trans hkeeps.split
  have hsplitPaths : (drained.map BlockInfo.path ++ rest.map BlockInfo.path).Perm paths := by
    have hmap := hsplit.map BlockInfo.path
    rw [List.map_append, List.map_map] at hmap
    exact hmap.trans (List.Perm.of_eq (List.map_id' paths))
  have htimes : ∀ info ∈ drained ++ rest, disk.timestamp info.path = info.timestamp := by
    intro info hinfo
    obtain ⟨path, _, rfl⟩ := List.mem_map.mp (hsplit.subset hinfo)
    rfl
  have hsub : drained.map BlockInfo.path ⊆ paths := fun path hpath =>
    hsplitPaths.subset (List.mem_append_left _ hpath)
  have hdirs : ∀ info ∈ drained, info.path ∉ disk.dirs := fun info hinfo =>
    (hfiles _ (hsub (List.mem_map_of_mem hinfo))).2.1
  refine ⟨drained.map BlockInfo.path, ?_, ?_, ?_, ?_, hsub, ?_⟩
  · rw [hdo]
    exact Disk.foldl_removeBlockFile hdirs
  · rw [hdo, List.length_map]
  · have hval := hfilled.size
    rw [List.length_map, hdrain.length_eq, hkeeps.inv.live_length, hfilled.idx_size, hval, hcapacity,
      hcap, List.length_map, Nat.min_comm]
  · exact (List.nodup_append.mp (hsplitPaths.nodup_iff.mpr hnodup)).1
  · intro path hpath other hother hnot
    obtain ⟨info, hinfo, rfl⟩ := List.mem_map.mp hpath
    have hrest : other ∈ rest.map BlockInfo.path :=
      (List.mem_append.mp (hsplitPaths.symm.subset hother)).resolve_left hnot
    obtain ⟨info', hinfo', rfl⟩ := List.mem_map.mp hrest
    rw [htimes _ (List.mem_append_left _ hinfo), htimes _ (List.mem_append_right _ hinfo')]
    exact Nat.not_lt.mp (of_decide_eq_false (hkeeps.last info (hdrain.subset hinfo) info' hinfo'))

end SpaceRecycle

/-! ## Main result -/

/-- A pass removes exactly the oldest archived files, if and only if all of them lie in the first
backend. The heap has at most `maxRecycleNum` entries, which is less than 2 ^ 31. -/
theorem recycle_ok_iff {recycleNum : Nat} (hnum : recycleNum < 2 ^ 31)
    (h : Stored layout hasher archived activated disk readdir) :
    RecycleOk layout hasher archived activated disk readdir recycleNum ↔
      ∀ b ∈ archived, layout.storageBackend hasher b = layout.front := by
  have hmem : ∀ {path}, path ∈ dataFilePaths readdir (layout.front ++ dataFileRoot) ↔
      ∃ b ∈ archived, layout.storageBackend hasher b = layout.front ∧
        layout.dataFilePath hasher b false = path := mem_dataFilePaths h
  constructor
  · intro hok b hb
    have hpath := (hok.enumerated.2 _).mpr (Finset.mem_image_of_mem _ hb)
    obtain ⟨b', _, hfront, heq⟩ := hmem.mp hpath
    rwa [← dataFilePath_inj heq]
  · intro hfront
    have harchived : ∀ path, path ∈ dataFilePaths readdir (layout.front ++ dataFileRoot) ↔
        path ∈ archivedPaths layout hasher archived := by
      intro path
      unfold archivedPaths
      rw [hmem, Finset.mem_image]
      exact ⟨fun ⟨b, hb, _, hpath⟩ => ⟨b, hb, hpath⟩, fun ⟨b, hb, hpath⟩ => ⟨b, hb, hfront b hb, hpath⟩⟩
    have hnodup := nodup_dataFilePaths h
    have hfiles : ∀ path ∈ dataFilePaths readdir (layout.front ++ dataFileRoot),
        path ∈ disk.files ∧ path ∉ disk.dirs ∧ 0 < disk.timestamp path := by
      intro path hpath
      obtain ⟨b, hb, hbackend, rfl⟩ := hmem.mp hpath
      refine ⟨(h.archivedFiles b hb).1, ?_, (h.archivedFiles b hb).2⟩
      have hroot : layout.storageBackend hasher b ++ layout.fileRoot false =
          layout.front ++ dataFileRoot := by
        unfold Layout.fileRoot
        rw [hbackend, if_neg (fun hand => Bool.false_ne_true hand.2)]
      rw [(dataFilePath_eq_iff (slash_notMem_shardName b) (slash_notMem_fileName layout b false)).mpr
        ⟨hroot, rfl, rfl⟩]
      exact (h.blocks _ _ (slash_notMem_shardName b) (slash_notMem_fileName layout b false)).1
    obtain ⟨removed, hafter, hdone, hlength, hremoved, hsub, holdest⟩ :=
      SpaceRecycle.doRecycle_spec recycleNum hnum rfl hnodup hfiles
    have hcount : (dataFilePaths readdir (layout.front ++ dataFileRoot)).length = archived.card := by
      rw [← List.toFinset_card_of_nodup hnodup]
      rw [show (dataFilePaths readdir (layout.front ++ dataFileRoot)).toFinset =
        archivedPaths layout hasher archived from
          Finset.ext fun path => List.mem_toFinset.trans (harchived path)]
      exact Finset.card_image_of_injective _ fun _ _ heq => dataFilePath_inj heq
    have hgone : disk.files \ (SpaceRecycle.doRecycle readdir layout disk recycleNum).1.files =
        removed.toFinset := by
      rw [hafter, sdiff_sdiff_right_self]
      refine Finset.inter_eq_right.mpr fun path hpath => ?_
      exact (hfiles path (hsub (List.mem_toFinset.mp hpath))).1
    refine ⟨⟨hnodup, harchived⟩, fun b _ hpath => ?_, ?_, ?_, ?_, ?_, ?_⟩
    · obtain ⟨b', _, _, heq⟩ := hmem.mp hpath
      exact dataFilePath_ne heq.symm
    · rw [hafter]
      exact Finset.sdiff_subset
    · rw [hgone]
      exact fun path hpath => (harchived path).mp (hsub (List.mem_toFinset.mp hpath))
    · rw [hgone, List.toFinset_card_of_nodup hremoved, hlength, hcount]
    · rw [hgone, List.toFinset_card_of_nodup hremoved, hdone]
    · intro path hpath other hother
      rw [hgone, List.mem_toFinset] at hpath
      obtain ⟨hother, hstays⟩ := Finset.mem_inter.mp hother
      rw [hafter, Finset.mem_sdiff, List.mem_toFinset] at hstays
      exact holdest path hpath other ((harchived other).mpr hother) hstays.2

/-! ## Some blocks -/

/-- Two storage backends; the hash is the second half of the id. -/
def twoBackends : Layout := ⟨false, [['/', 'a', '/'], ['/', 'b', '/']]⟩

def backHash (b : BlockId) : Nat := b.back.toNat

theorem setup_twoBackends : Layout.setup ⟨fun _ => .ok, fun _ => true⟩ false
    ["/a".toList, "/b/".toList] = some twoBackends := by
  decide +kernel

/-- The storages with the files of these blocks in them. -/
def someBlocks (archived activated : List BlockId) (timestamp : Path → Nat) : Disk where
  files := archived.toFinset.image (twoBackends.dataFilePath backHash · false) ∪
    activated.toFinset.image (twoBackends.dataFilePath backHash · true)
  dirs := insert (twoBackends.front ++ dataFileRoot)
    ((archived ++ activated).toFinset.image (twoBackends.dataFileParent backHash · false))
  timestamp := timestamp

/-- The names of the files and of the directories of these blocks, each behind the directory it is in. -/
def blockEntries (archived activated : List BlockId) : List (Path × Path) :=
  ((archived ++ activated).map (fun b =>
      (twoBackends.storageBackend backHash b ++ dataFileRoot, Layout.shardName b)) ++
    archived.map (fun b => (twoBackends.dataFileParent backHash b false, twoBackends.fileName b false)) ++
    activated.map fun b =>
      (twoBackends.dataFileParent backHash b false, twoBackends.fileName b true)).dedup

/-- What the directories give. -/
def someEntries (archived activated : List BlockId) (dir : Path) : Option (List Path) :=
  if dir ∈ (someBlocks archived activated fun _ => 0).dirs then
    some ([['.'], ['.', '.']] ++
      ((blockEntries archived activated).filter (·.1 = dir)).map Prod.snd)
  else none

variable {archivedList activatedList : List BlockId} {timestamp : Path → Nat}

theorem length_storageBackend (b : BlockId) : (twoBackends.storageBackend backHash b).length = 3 := by
  have hmem : twoBackends.storageBackend backHash b ∈ twoBackends.storageBackends := by
    unfold Layout.storageBackend
    have hlt : backHash b % twoBackends.storageBackends.length < twoBackends.storageBackends.length :=
      Nat.mod_lt _ (by decide)
    rw [List.getD_eq_getElem?_getD, List.getElem?_eq_getElem hlt, Option.getD_some]
    exact List.getElem_mem hlt
  have hall : ∀ path ∈ twoBackends.storageBackends, path.length = 3 := by decide
  exact hall _ hmem

theorem dataFileParent_twoBackends (b : BlockId) (a : Bool) :
    twoBackends.dataFileParent backHash b a =
      twoBackends.storageBackend backHash b ++ dataFileRoot ++ '/' :: Layout.shardName b := by
  have hroot : twoBackends.fileRoot a = dataFileRoot := by cases a <;> rfl
  unfold Layout.dataFileParent
  rw [hroot]

theorem length_dataFileParent (b : BlockId) :
    (twoBackends.dataFileParent backHash b false).length = 24 := by
  have hroot : dataFileRoot.length = 4 := rfl
  have hshard : (Layout.shardName b).length = 16 := length_word
  rw [dataFileParent_twoBackends, List.length_append, List.length_append, length_storageBackend,
    List.length_cons, hroot, hshard]

theorem length_root : (twoBackends.front ++ dataFileRoot).length = 7 := by decide

theorem length_of_mem_dirs (h : dir ∈ (someBlocks archivedList activatedList timestamp).dirs) :
    7 ≤ dir.length := by
  rcases Finset.mem_insert.mp h with rfl | h
  · exact length_root.ge
  · obtain ⟨b, -, rfl⟩ := Finset.mem_image.mp h
    rw [length_dataFileParent]
    decide

theorem mem_blockEntries : (dir, name) ∈ blockEntries archivedList activatedList ↔
    (∃ b, (b ∈ archivedList ∨ b ∈ activatedList) ∧
      twoBackends.storageBackend backHash b ++ dataFileRoot = dir ∧ Layout.shardName b = name) ∨
    (∃ b ∈ archivedList, twoBackends.dataFileParent backHash b false = dir ∧
      twoBackends.fileName b false = name) ∨
    ∃ b ∈ activatedList, twoBackends.dataFileParent backHash b false = dir ∧
      twoBackends.fileName b true = name := by
  simp only [blockEntries, List.mem_dedup, List.mem_append, List.mem_map, Prod.mk.injEq, or_assoc]

/-- A name in a directory of the storages is that of an entry. -/
theorem mem_disk_iff (hdir : 7 ≤ dir.length) (hname : '/' ∉ name) :
    dir ++ '/' :: name ∈ (someBlocks archivedList activatedList timestamp).files ∪
      (someBlocks archivedList activatedList timestamp).dirs ↔
      (dir, name) ∈ blockEntries archivedList activatedList := by
  have hroot : dir ++ '/' :: name ≠ twoBackends.front ++ dataFileRoot := fun heq => by
    have hlength := congrArg List.length heq
    rw [length_root, List.length_append, List.length_cons] at hlength
    omega
  have hentry : ∀ {dir' name' : Path}, '/' ∉ name' →
      (dir' ++ '/' :: name' = dir ++ '/' :: name ↔ dir' = dir ∧ name' = name) := fun hname' =>
    ⟨append_cons_inj hname' hname, fun ⟨hd, hn⟩ => by rw [hd, hn]⟩
  have hfile : ∀ b a, twoBackends.dataFilePath backHash b a = dir ++ '/' :: name ↔
      twoBackends.dataFileParent backHash b false = dir ∧ twoBackends.fileName b a = name :=
    fun b a => by
      unfold Layout.dataFilePath
      rw [hentry (slash_notMem_fileName twoBackends b a), dataFileParent_twoBackends,
        dataFileParent_twoBackends]
  have hshard : ∀ b, twoBackends.dataFileParent backHash b false = dir ++ '/' :: name ↔
      twoBackends.storageBackend backHash b ++ dataFileRoot = dir ∧ Layout.shardName b = name :=
    fun b => by rw [dataFileParent_twoBackends, hentry (slash_notMem_shardName b)]
  rw [mem_blockEntries]
  simp only [someBlocks, Finset.mem_union, Finset.mem_insert, Finset.mem_image, List.mem_toFinset,
    List.mem_append, hfile, hshard, hroot, false_or]
  exact or_comm

theorem blockEntries_spec {x : Path × Path} (hx : x ∈ blockEntries archivedList activatedList) :
    x.2 ≠ ['.'] ∧ x.2 ≠ ['.', '.'] ∧ '/' ∉ x.2 := by
  have hhex : ∀ y : Nat, ∀ rest : Path, word 16 hexDigit 16 y ++ rest ≠ ['.'] ∧
      word 16 hexDigit 16 y ++ rest ≠ ['.', '.'] := fun y rest =>
    ⟨fun h => head?_word rest (congrArg List.head? h), fun h => head?_word rest (congrArg List.head? h)⟩
  rcases mem_blockEntries.mp hx with ⟨b, -, -, h⟩ | ⟨b, -, -, h⟩ | ⟨b, -, -, h⟩ <;> rw [← h]
  · have hword := hhex b.front.toNat []
    rw [List.append_nil] at hword
    exact ⟨hword.1, hword.2, slash_notMem_shardName b⟩
  · exact ⟨(hhex _ _).1, (hhex _ _).2, slash_notMem_fileName twoBackends b false⟩
  · exact ⟨(hhex _ _).1, (hhex _ _).2, slash_notMem_fileName twoBackends b true⟩

theorem mem_someEntries (h : someEntries archivedList activatedList dir = some names) :
    name ∈ names ↔ name = ['.'] ∨ name = ['.', '.'] ∨
      (dir, name) ∈ blockEntries archivedList activatedList := by
  rw [← Option.some.inj (Option.ite_none_right_eq_some.mp h).2]
  simp only [List.mem_append, List.mem_cons, List.not_mem_nil, or_false, List.mem_map,
    List.mem_filter, decide_eq_true_eq, Prod.exists, or_assoc]
  constructor
  · rintro (h | h | ⟨d, n, ⟨hmem, rfl⟩, rfl⟩)
    · exact .inl h
    · exact .inr (.inl h)
    · exact .inr (.inr hmem)
  · rintro (h | h | hmem)
    · exact .inl h
    · exact .inr (.inl h)
    · exact .inr (.inr ⟨dir, name, ⟨hmem, rfl⟩, rfl⟩)

theorem stored_someBlocks (htime : ∀ path, 0 < timestamp path) :
    Stored twoBackends backHash archivedList.toFinset activatedList.toFinset
      (someBlocks archivedList activatedList timestamp) (someEntries archivedList activatedList) where
  archivedFiles b hb := ⟨Finset.mem_union_left _ (Finset.mem_image_of_mem _ hb), htime _⟩
  activatedFiles b hb := Finset.mem_union_right _ (Finset.mem_image_of_mem _ hb)
  parents b hb := Finset.mem_insert_of_mem (Finset.mem_image_of_mem _ (by
    rw [List.toFinset_append]
    exact Finset.mem_union_left _ hb))
  root := Finset.mem_insert_self _ _
  shards shard hshard hmem := by
    have hfile : ∀ b a, twoBackends.dataFilePath backHash b a ≠
        twoBackends.front ++ dataFileRoot ++ '/' :: shard := fun b a heq => by
      have hdir := congrArg List.length
        (append_cons_inj (slash_notMem_fileName twoBackends b a) hshard heq).1
      rw [dataFileParent_twoBackends, ← dataFileParent_twoBackends b false, length_dataFileParent,
        length_root] at hdir
      exact absurd hdir (by decide)
    rcases Finset.mem_union.mp hmem with hmem | hmem <;>
      obtain ⟨b, -, heq⟩ := Finset.mem_image.mp hmem
    · exact hfile b false heq
    · exact hfile b true heq
  blocks shard name hshard hname := by
    refine ⟨fun hmem => ?_, fun hmem => ?_⟩
    · rcases Finset.mem_insert.mp hmem with heq | hmem
      · have hlength := congrArg List.length heq
        rw [List.length_append, List.length_append, length_root, List.length_cons] at hlength
        omega
      · obtain ⟨b, -, heq⟩ := Finset.mem_image.mp hmem
        rw [dataFileParent_twoBackends] at heq
        have hlength := congrArg List.length
          (append_cons_inj (slash_notMem_shardName b) hname heq).1
        rw [List.length_append, List.length_append, length_storageBackend, length_root,
          List.length_cons] at hlength
        exact absurd hlength (by rw [show dataFileRoot.length = 4 from rfl]; omega)
    · refine (Finset.mem_union.mp hmem).imp (fun hmem => ?_) fun hmem => ?_ <;>
        exact Finset.mem_image.mp hmem
  opens dir := by
    unfold someEntries
    by_cases hdir : dir ∈ (someBlocks archivedList activatedList fun _ => 0).dirs
    · exact iff_of_true (by rw [if_pos hdir]; exact Option.some_ne_none _) hdir
    · exact iff_of_false (fun h => h (if_neg hdir)) hdir
  nodup dir names hnames := by
    obtain ⟨-, hnames⟩ := Option.ite_none_right_eq_some.mp hnames
    rw [← Option.some.inj hnames]
    refine List.nodup_append.mpr ⟨by decide, ?_, ?_⟩
    · refine List.Nodup.map_on (fun x hx y hy heq => ?_) ((List.nodup_dedup _).filter _)
      have hx := of_decide_eq_true (List.mem_filter.mp hx).2
      have hy := of_decide_eq_true (List.mem_filter.mp hy).2
      exact Prod.ext (hx.trans hy.symm) heq
    · rintro dot hdot name hname rfl
      obtain ⟨x, hx, rfl⟩ := List.mem_map.mp hname
      obtain ⟨hone, htwo, -⟩ := blockEntries_spec (List.mem_filter.mp hx).1
      simp [hone, htwo] at hdot
  slash dir names hnames name hname := by
    rcases (mem_someEntries hnames).mp hname with rfl | rfl | hentry
    · decide
    · decide
    · exact (blockEntries_spec hentry).2.2
  entries dir names hnames name hname := by
    have hlength := length_of_mem_dirs (Option.ite_none_right_eq_some.mp hnames).1
    rw [mem_someEntries hnames, mem_disk_iff hlength hname]

/-- Of two blocks of one age a pass removes one; the newer block and the activated one stay. -/
theorem recycle_ok_two : RecycleOk twoBackends backHash [⟨0, 2⟩, ⟨0, 4⟩, ⟨0, 6⟩].toFinset
    [⟨0, 8⟩].toFinset
    (someBlocks [⟨0, 2⟩, ⟨0, 4⟩, ⟨0, 6⟩] [⟨0, 8⟩] fun path =>
      if path = twoBackends.dataFilePath backHash ⟨0, 6⟩ false then 2 else 1)
    (someEntries [⟨0, 2⟩, ⟨0, 4⟩, ⟨0, 6⟩] [⟨0, 8⟩]) 1 :=
  (recycle_ok_iff (by decide) (stored_someBlocks fun path => by split_ifs <;> decide)).mpr (by decide)

/-- A pass does not find a block of the second backend. -/
theorem not_recycle_ok_three : ¬ ∀ (ops : DirOps) (temp : Bool) (storageBackends : List Path)
    (layout : Layout) (hasher : BlockId → Nat) (archived activated : Finset BlockId) (disk : Disk)
    (readdir : Path → Option (List Path)) (recycleNum : Nat), 1 ≤ recycleNum →
    Layout.setup ops temp storageBackends = some layout →
    Stored layout hasher archived activated disk readdir →
    RecycleOk layout hasher archived activated disk readdir recycleNum := by
  intro hall
  have hstored : Stored twoBackends backHash _ _ (someBlocks [⟨0, 3⟩] [] fun _ => 1)
    (someEntries [⟨0, 3⟩] []) := stored_someBlocks fun _ => Nat.one_pos
  have hok := hall _ _ _ _ _ _ _ _ _ 1 (Nat.le_refl 1) setup_twoBackends hstored
  have hpath := (hok.enumerated.2 _).mpr
    (Finset.mem_image_of_mem _ (show (⟨0, 3⟩ : BlockId) ∈ [⟨0, 3⟩].toFinset by decide))
  obtain ⟨b, hb, hfront, _⟩ := (mem_dataFilePaths hstored).mp hpath
  have hb3 : b = ⟨0, 3⟩ := by simpa using hb
  rw [hb3] at hfront
  exact absurd hfront (by decide)

end UnifiedCache.NfsStore
