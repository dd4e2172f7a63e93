import UnifiedCache.Posix.SpaceLayout
import UnifiedCache.Posix.Proofs.ShardGcProofs

/-!
# Proofs: the layout of the posix store

The name of a file is its block id as a word of 32 hexadecimal digits, so that its first digits are the
name of a shard. The collector finds a file where it lies if and only if its backend is the first one.
-/

open Lib.Words UnifiedCache.Infra

namespace UnifiedCache.Posix

variable {b b' n : Nat} {a a' : Bool}

/-! ## Names -/

theorem dataFileName_eq (b : BlockId) : dataFileName b = word 16 hexDigit 32 b := by
  have hwords : ∀ n b, (word 256 UInt8.ofNat n b).flatMap (fun byte => word 16 hexDigit 2 byte.toNat) =
      word 16 hexDigit (n * 2) b := by
    intro n
    induction n with
    | zero => exact fun _ => rfl
    | succ n ih =>
      intro b
      have hbyte : (UInt8.ofNat (b % 256)).toNat = b % 256 :=
        UInt8.toNat_ofNat_of_lt' (Nat.mod_lt b (by decide))
      have hhigh : b % 256 / 16 % 16 = b / 16 % 16 := by omega
      have hlow : b % 256 % 16 = b % 16 := by omega
      have hrest : b / 16 / 16 = b / 256 := by omega
      rw [word, List.flatMap_append, ih, List.flatMap_singleton, hbyte, Nat.succ_mul]
      show _ ++ ([] ++ [hexDigit (b % 256 / 16 % 16)] ++ [hexDigit (b % 256 % 16)]) =
        word 16 hexDigit (n * 2) (b / 16 / 16) ++ [hexDigit (b / 16 % 16)] ++ [hexDigit (b % 16)]
      rw [hhigh, hlow, hrest, List.nil_append, List.append_assoc]
  exact hwords 16 b

theorem lt_of_mem_dataFileName {c : Char} (hc : c ∈ dataFileName b) : 47 < c.toNat := by
  rw [dataFileName_eq] at hc
  obtain ⟨d, hd, rfl⟩ := mem_word (by decide) hc
  exact toNat_hexDigit d hd

theorem length_dataFileName (b : BlockId) : (dataFileName b).length = 32 := by
  rw [dataFileName_eq, length_word]

theorem slash_notMem_baseName (b : BlockId) (a : Bool) : '/' ∉ SpaceLayout.baseName b a := by
  intro hmem
  rcases List.mem_append.mp hmem with hname | hextension
  · exact absurd (lt_of_mem_dataFileName hname) (by decide)
  · cases a with
    | true => exact absurd hextension (by decide)
    | false => exact absurd hextension List.not_mem_nil

theorem hexToByte_digits : ∀ byte < 256,
    (hexToByte (hexDigit (byte / 16 % 16)) <<< 4) ||| hexToByte (hexDigit (byte % 16)) =
      UInt8.ofNat byte := by
  decide +kernel

theorem map_range_hexToByte (bytes : List UInt8) :
    ((List.range bytes.length).map fun i =>
      let name := bytes.flatMap fun byte => word 16 hexDigit 2 byte.toNat
      let high := hexToByte (name.getD (i * 2) (Char.ofNat 0))
      let low := hexToByte (name.getD (i * 2 + 1) (Char.ofNat 0))
      (high <<< 4) ||| low) = bytes := by
  induction bytes with
  | nil => rfl
  | cons byte bytes ih =>
    have hbyte := hexToByte_digits byte.toNat byte.toNat_lt
    rw [UInt8.ofNat_toNat] at hbyte
    rw [List.length_cons, List.range_succ_eq_map, List.map_cons, List.map_map]
    refine congrArg₂ List.cons hbyte (Eq.trans (List.map_congr_left fun i _ => ?_) ih)
    have hplace : (i + 1) * 2 = i * 2 + 1 + 1 := by omega
    show (hexToByte (List.getD _ ((i + 1) * 2) _) <<< 4) |||
      hexToByte (List.getD _ ((i + 1) * 2 + 1) _) = _
    rw [hplace]
    rfl

/-- **`HexToBlockId`** reads the name of a file as its block id. -/
theorem hexToBlockId_dataFileName (hb : b < blockIds) : hexToBlockId (dataFileName b) = b := by
  have hbytes := map_range_hexToByte (blockBytes b)
  rw [show (blockBytes b).length = 16 from length_word] at hbytes
  unfold hexToBlockId
  refine (congrArg (value 256 UInt8.toNat) hbytes).trans (value_word (fun d hd => ?_) hb)
  exact UInt8.toNat_ofNat_of_lt' hd

theorem baseName_inj (hb : b < blockIds) (hb' : b' < blockIds)
    (h : SpaceLayout.baseName b a = SpaceLayout.baseName b' a') : b = b' ∧ a = a' := by
  obtain ⟨hname, hextension⟩ := List.append_inj h
    ((length_dataFileName b).trans (length_dataFileName b').symm)
  refine ⟨?_, ?_⟩
  · rw [← hexToBlockId_dataFileName hb, hname, hexToBlockId_dataFileName hb']
  · cases a with
    | true =>
      cases a' with
      | true => rfl
      | false => exact absurd hextension (by decide)
    | false =>
      cases a' with
      | true => exact absurd hextension (by decide)
      | false => rfl

/-! ## The directories -/

theorem generateHexStrings_eq (hn : n ≠ 0) :
    generateHexStrings n = (List.range (16 ^ n)).map (word 16 hexDigit n) := by
  unfold generateHexStrings
  rw [if_neg hn, Nat.shiftLeft_eq, Nat.one_mul, Nat.mul_comm, Nat.pow_mul]

theorem nodup_relativeRoots (n : Nat) : (SpaceLayout.relativeRoots n).Nodup := by
  unfold SpaceLayout.relativeRoots
  split_ifs with hn
  · rw [generateHexStrings_eq (Nat.ne_of_gt hn)]
    refine List.Nodup.map_on (fun x hx y hy h => ?_) List.nodup_range
    exact word_inj unhexDigit_hexDigit (List.mem_range.mp hx) (List.mem_range.mp hy) h
  · exact List.nodup_singleton _

theorem length_of_mem_relativeRoots {shard shard' : Path} (h : shard ∈ SpaceLayout.relativeRoots n)
    (h' : shard' ∈ SpaceLayout.relativeRoots n) : shard.length = shard'.length := by
  unfold SpaceLayout.relativeRoots at h h'
  split_ifs at h h' with hn
  · rw [generateHexStrings_eq (Nat.ne_of_gt hn)] at h h'
    obtain ⟨x, _, rfl⟩ := List.mem_map.mp h
    obtain ⟨y, _, rfl⟩ := List.mem_map.mp h'
    rw [length_word, length_word]
  · rw [List.mem_singleton.mp h, List.mem_singleton.mp h']

variable {cfg : GcConfig} {ops : DirOps} {layout : SpaceLayout} {hasher : BlockId → Nat}

/-- What `Setup` makes. -/
structure SetupOk (layout : SpaceLayout) : Prop where
  width : layout.dataDirShardBytes ≤ 32
  shards : layout.shards = SpaceLayout.relativeRoots layout.dataDirShardBytes
  backends : layout.storageBackends ≠ []
  covers : ∀ path ∈ layout.storageBackends, ∀ root ∈ layout.shards, path ++ root ∈ layout.directories

theorem none_of_check {c : Prop} [Decidable c] {message : String} {rest : Option String}
    (h : (if c then some message else rest) = none) : ¬c ∧ rest = none := by
  by_cases hc : c
  · rw [if_pos hc] at h
    cases h
  · rw [if_neg hc] at h
    exact ⟨hc, h⟩

theorem setupOk_of_setup (hcfg : cfg.checkConfig = none) (h : SpaceLayout.setup ops cfg = some layout) :
    SetupOk layout := by
  obtain ⟨backends, hbackends, hlayout⟩ := Option.bind_eq_some_iff.mp h
  obtain rfl := Option.some.inj hlayout
  have hchecks : cfg.storageBackends ≠ [] ∧ cfg.dataDirShardBytes ≤ 5 := by
    obtain ⟨hbackends, hrest⟩ := none_of_check hcfg
    obtain ⟨_, hrest⟩ := none_of_check hrest
    obtain ⟨_, hrest⟩ := none_of_check hrest
    refine ⟨fun hnil => hbackends ?_, Nat.not_lt.mp (none_of_check hrest).1⟩
    rw [hnil]
    rfl
  have hpaths : cfg.storageBackends.map String.toList ≠ [] := by
    rw [ne_eq, List.map_eq_nil_iff]
    exact hchecks.1
  obtain ⟨hcovers, hne⟩ := Backends.setup_spec hpaths hbackends
  exact ⟨Nat.le_trans hchecks.2 (by decide), rfl, hne, hcovers⟩

theorem fileShardName_mem (h : SetupOk layout) (hb : b < blockIds) :
    layout.fileShardName (dataFileName b) ∈ layout.shards := by
  have hwidth := h.width
  rw [h.shards]
  unfold SpaceLayout.fileShardName SpaceLayout.relativeRoots
  split_ifs with hn
  · rw [generateHexStrings_eq (Nat.ne_of_gt hn), dataFileName_eq]
    obtain ⟨k, hk⟩ : ∃ k, 32 = layout.dataDirShardBytes + k := ⟨32 - layout.dataDirShardBytes, by omega⟩
    have hpow : blockIds = 16 ^ k * 16 ^ layout.dataDirShardBytes := by
      rw [← pow_add, Nat.add_comm, ← hk]
      rfl
    rw [hk, take_word]
    refine List.mem_map_of_mem (List.mem_range.mpr (Nat.div_lt_of_lt_mul ?_))
    rwa [← hpow]
  · exact List.mem_singleton_self _

theorem front_mem (h : SetupOk layout) : layout.front ∈ layout.storageBackends := by
  unfold SpaceLayout.front
  rw [List.headD_eq_head?_getD, List.head?_eq_some_head h.backends]
  exact List.head_mem h.backends

theorem storageBackend_mem (h : SetupOk layout) (hasher : BlockId → Nat) (b : BlockId) :
    layout.storageBackend hasher b ∈ layout.storageBackends := by
  unfold SpaceLayout.storageBackend
  split_ifs with hone
  · exact front_mem h
  · have hlt := Nat.mod_lt (hasher b) (List.length_pos_of_ne_nil h.backends)
    rw [List.getD_eq_getElem?_getD, List.getElem?_eq_getElem hlt, Option.getD_some]
    exact List.getElem_mem hlt

/-! ## The entries -/

variable {fs : Directories} {archived activated : Finset BlockId} {shard : Path} {entry : DirEntry}

theorem front_append_mem (h : SetupOk layout) (hshard : shard ∈ layout.shards) :
    layout.front ++ shard ∈ layout.directories :=
  h.covers _ (front_mem h) shard hshard

theorem skipped_baseName (b : BlockId) (a : Bool) (stat : Option (Bool × Int)) :
    DirEntry.skipped ⟨SpaceLayout.baseName b a, stat⟩ = a := by
  have hdot : '.' ∉ dataFileName b := fun hmem => absurd (lt_of_mem_dataFileName hmem) (by decide)
  have hhead : (SpaceLayout.baseName b a).head? ≠ some '.' := by
    intro hhead
    unfold SpaceLayout.baseName at hhead
    have hne : dataFileName b ≠ [] := List.ne_nil_of_length_pos (by rw [length_dataFileName]; decide)
    rw [List.head?_append_of_ne_nil _ hne] at hhead
    exact hdot (List.mem_of_head? hhead)
  unfold DirEntry.skipped
  rw [decide_eq_false hhead, Bool.false_or]
  cases a with
  | true => exact decide_eq_true ⟨dataFileName b, [], List.append_nil _⟩
  | false =>
    refine decide_eq_false fun hinfix => hdot ?_
    have hmem := hinfix.subset (show '.' ∈ activatedFileExtension by decide)
    rcases List.mem_append.mp hmem with hname | hnil
    · exact hname
    · exact absurd hnil List.not_mem_nil

theorem dataFilePath_eq_iff {dir name : Path} (hname : '/' ∉ name) :
    layout.dataFilePath hasher b a = dir ++ '/' :: name ↔
      layout.storageBackend hasher b ++ layout.fileShardName (dataFileName b) = dir ∧
        SpaceLayout.baseName b a = name := by
  unfold SpaceLayout.dataFilePath
  constructor
  · intro h
    exact append_cons_inj (slash_notMem_baseName b a) hname h
  · rintro ⟨rfl, rfl⟩
    rfl

theorem mem_countedEntries {dir : Path} :
    entry ∈ countedEntries fs dir ↔ entry ∈ (fs dir).getD [] ∧ DirEntry.skipped entry = false := by
  unfold countedEntries
  rw [List.mem_filter, Bool.not_eq_true']

theorem mem_scannedEntries {dir : Path} :
    entry ∈ scannedEntries fs dir ↔
      entry ∈ countedEntries fs dir ∧ ∃ mtime, entry.stat = some (true, mtime) := by
  unfold scannedEntries
  rw [List.mem_filter]
  refine and_congr_right fun _ => ?_
  rcases entry with ⟨name, stat⟩
  cases stat with
  | none => exact ⟨fun h => absurd h Bool.false_ne_true, fun ⟨_, h⟩ => (by cases h)⟩
  | some stat =>
    obtain ⟨regular, mtime⟩ := stat
    constructor
    · intro h
      exact ⟨mtime, by rw [show regular = true from h]⟩
    · rintro ⟨mtime', h⟩
      cases h
      rfl

/-- What is counted or scanned is listed. -/
def Lists (fs : Directories) (entries : Directories → Path → List DirEntry) : Prop :=
  ∀ dir, (entries fs dir).Sublist ((fs dir).getD [])

theorem lists_countedEntries : Lists fs countedEntries := fun _ => List.filter_sublist

theorem lists_scannedEntries : Lists fs scannedEntries := fun dir =>
  List.filter_sublist.trans (lists_countedEntries dir)

variable {entries : Directories → Path → List DirEntry}

theorem mem_paths {shards : List Path} {path : Path} :
    path ∈ layout.paths fs entries shards ↔ ∃ shard ∈ shards, ∃ entry ∈ entries fs (layout.front ++ shard),
      layout.front ++ shard ++ '/' :: entry.name = path := by
  unfold SpaceLayout.paths
  rw [List.mem_flatMap]
  refine exists_congr fun shard => and_congr_right fun _ => ?_
  rw [List.mem_map]

theorem slash_notMem_of_mem (h : layout.Stored fs hasher archived activated) {dir : Path}
    (hentry : entry ∈ (fs dir).getD []) : '/' ∉ entry.name := by
  cases hfs : fs dir with
  | none =>
    rw [hfs] at hentry
    cases hentry
  | some entries =>
    rw [hfs] at hentry
    exact h.slash dir entries hfs entry hentry

theorem nodup_paths (hsetup : SetupOk layout) (h : layout.Stored fs hasher archived activated)
    (hlists : Lists fs entries) : (layout.paths fs entries layout.shards).Nodup := by
  unfold SpaceLayout.paths
  rw [List.nodup_flatMap]
  refine ⟨fun shard _ => ?_, ?_⟩
  · have hnames : ((entries fs (layout.front ++ shard)).map DirEntry.name).Nodup := by
      refine List.Nodup.sublist ((hlists _).map _) ?_
      cases hfs : fs (layout.front ++ shard) with
      | none => exact List.nodup_nil
      | some listed => exact h.nodup _ listed hfs
    have hpath : Function.Injective fun name : Path => layout.front ++ shard ++ '/' :: name := by
      intro name name' hname
      exact (List.cons.inj (List.append_cancel_left hname)).2
    rw [show (entries fs (layout.front ++ shard)).map (fun entry =>
        layout.front ++ shard ++ '/' :: entry.name) = ((entries fs (layout.front ++ shard)).map
          DirEntry.name).map fun name => layout.front ++ shard ++ '/' :: name by rw [List.map_map]; rfl]
    exact hnames.map hpath
  · rw [hsetup.shards]
    refine (nodup_relativeRoots _).imp fun {shard shard'} hne => ?_
    intro path hpath hpath'
    obtain ⟨entry, hentry, rfl⟩ := List.mem_map.mp hpath
    obtain ⟨entry', hentry', heq⟩ := List.mem_map.mp hpath'
    have hslash := slash_notMem_of_mem h ((hlists _).subset hentry)
    have hslash' := slash_notMem_of_mem h ((hlists _).subset hentry')
    exact hne (List.append_cancel_left (append_cons_inj hslash' hslash heq).1).symm

theorem storageBackend_eq_front (hsetup : SetupOk layout)
    (h : layout.Stored fs hasher archived activated) (hlists : Lists fs entries) (hb : b < blockIds)
    (hmem : layout.dataFilePath hasher b a ∈ layout.paths fs entries layout.shards) :
    layout.storageBackend hasher b = layout.front := by
  obtain ⟨shard, hshard, entry, hentry, hpath⟩ := mem_paths.mp hmem
  have hslash := slash_notMem_of_mem h ((hlists _).subset hentry)
  obtain ⟨hdir, -⟩ := (dataFilePath_eq_iff hslash).mp hpath.symm
  have hmem := fileShardName_mem hsetup hb
  rw [hsetup.shards] at hmem hshard
  exact (List.append_inj' hdir (length_of_mem_relativeRoots hmem hshard)).1

theorem archived_of_scanned (hsetup : SetupOk layout)
    (h : layout.Stored fs hasher archived activated) (hshard : shard ∈ layout.shards)
    (hentry : entry ∈ scannedEntries fs (layout.front ++ shard)) :
    ∃ b ∈ archived, entry.name = dataFileName b ∧
      layout.dataFilePath hasher b false = layout.front ++ shard ++ '/' :: entry.name := by
  obtain ⟨hcounted, mtime, hstat⟩ := mem_scannedEntries.mp hentry
  obtain ⟨hlisted, hskipped⟩ := mem_countedEntries.mp hcounted
  have hslash := slash_notMem_of_mem h hlisted
  cases hfs : fs (layout.front ++ shard) with
  | none =>
    rw [hfs] at hlisted
    cases hlisted
  | some listed =>
    rw [hfs] at hlisted
    have hregular : (⟨entry.name, some (true, mtime)⟩ : DirEntry) ∈ listed := by
      rw [← hstat]
      exact hlisted
    rcases (h.files _ (front_append_mem hsetup hshard) listed hfs entry.name hslash).mp
      ⟨mtime, hregular⟩ with ⟨b, hb, hpath⟩ | ⟨b, hb, hpath⟩
    · refine ⟨b, hb, ?_, hpath⟩
      rw [← ((dataFilePath_eq_iff hslash).mp hpath).2]
      exact List.append_nil _
    · have hname := ((dataFilePath_eq_iff hslash).mp hpath).2
      have hskips := skipped_baseName b true entry.stat
      rw [hname] at hskips
      rw [show (⟨entry.name, entry.stat⟩ : DirEntry) = entry from rfl, hskipped] at hskips
      cases hskips

theorem activated_notMem (h : layout.Stored fs hasher archived activated) (b : BlockId) :
    layout.dataFilePath hasher b true ∉ layout.paths fs countedEntries layout.shards := by
  intro hmem
  obtain ⟨shard, _, entry, hentry, hpath⟩ := mem_paths.mp hmem
  obtain ⟨hlisted, hskipped⟩ := mem_countedEntries.mp hentry
  have hname := ((dataFilePath_eq_iff (slash_notMem_of_mem h hlisted)).mp hpath.symm).2
  have hskips := skipped_baseName b true entry.stat
  rw [hname] at hskips
  rw [show (⟨entry.name, entry.stat⟩ : DirEntry) = entry from rfl, hskipped] at hskips
  cases hskips

theorem archived_mem (hsetup : SetupOk layout) (h : layout.Stored fs hasher archived activated)
    (hb : b ∈ archived) (hfront : layout.storageBackend hasher b = layout.front) :
    layout.dataFilePath hasher b false ∈ layout.paths fs scannedEntries layout.shards := by
  have hid := h.ids b (Finset.mem_union_left _ hb)
  have hshard := fileShardName_mem hsetup hid
  have hdir := front_append_mem hsetup hshard
  obtain ⟨listed, hfs⟩ := Option.ne_none_iff_exists'.mp (h.opens _ hdir)
  have hpath : layout.dataFilePath hasher b false = layout.front ++
      layout.fileShardName (dataFileName b) ++ '/' :: SpaceLayout.baseName b false := by
    unfold SpaceLayout.dataFilePath
    rw [hfront]
  obtain ⟨mtime, hlisted⟩ :=
    (h.files _ hdir listed hfs _ (slash_notMem_baseName b false)).mpr (.inl ⟨b, hb, hpath⟩)
  have hentry : (⟨SpaceLayout.baseName b false, some (true, mtime)⟩ : DirEntry) ∈
      countedEntries fs (layout.front ++ layout.fileShardName (dataFileName b)) := by
    refine mem_countedEntries.mpr ⟨?_, skipped_baseName b false _⟩
    rw [hfs]
    exact hlisted
  exact mem_paths.mpr ⟨_, hshard, _, mem_scannedEntries.mpr ⟨hentry, mtime, rfl⟩, hpath.symm⟩

theorem paths_subset {shards : List Path} :
    layout.paths fs scannedEntries shards ⊆ layout.paths fs countedEntries shards := by
  intro path hpath
  obtain ⟨shard, hshard, entry, hentry, heq⟩ := mem_paths.mp hpath
  exact mem_paths.mpr ⟨shard, hshard, entry, (mem_scannedEntries.mp hentry).1, heq⟩

/-! ## Main result -/

variable {shuffle : List Path → List Path}

/-- The layout and the collector agree on where files are, if and only if all of them lie in the first
backend. -/
theorem agrees_iff (hcfg : cfg.checkConfig = none) (hratio : cfg.posixGcShardSampleRatio = 1)
    (hsetup : SpaceLayout.setup ops cfg = some layout)
    (h : layout.Stored fs hasher archived activated) :
    layout.Agrees fs hasher archived activated cfg
        (layout.sampleShards cfg.posixGcShardSampleRatio shuffle) ↔
      ∀ b ∈ archived, layout.storageBackend hasher b = layout.front := by
  have hok := setupOk_of_setup hcfg hsetup
  have hsample : layout.sampleShards cfg.posixGcShardSampleRatio shuffle = layout.shards := if_pos hratio
  rw [hsample]
  constructor
  · intro hagrees b hb
    have hid := h.ids b (Finset.mem_union_left _ hb)
    refine storageBackend_eq_front (a := false) hok h lists_countedEntries hid ?_
    exact List.one_le_count_iff.mp (Nat.le_of_eq (hagrees.counted b hb).symm)
  · intro hfront
    refine ⟨fun b hb => hexToBlockId_dataFileName hb, fun b hb b' hb' a a' heq => ?_, fun b hb => ?_,
      fun b hb => ?_, fun b hb => ?_, fun b hb => ?_, fun shard hshard blocks hblocks b hb => ?_⟩
    · have hbase := ((dataFilePath_eq_iff (slash_notMem_baseName b' a')).mp heq).2
      exact baseName_inj hb hb' hbase
    · refine ⟨_, hok.covers _ (storageBackend_mem hok hasher b) _ (fileShardName_mem hok hb), ?_⟩
      unfold SpaceLayout.dataFilePath SpaceLayout.baseName
      rw [if_neg Bool.false_ne_true, List.append_nil]
    · exact List.count_eq_one_of_mem (nodup_paths hok h lists_countedEntries)
        (paths_subset (archived_mem hok h hb (hfront b hb)))
    · exact List.count_eq_one_of_mem (nodup_paths hok h lists_scannedEntries)
        (archived_mem hok h hb (hfront b hb))
    · have hnot := activated_notMem h b
      exact ⟨hnot, fun hmem => hnot (paths_subset hmem)⟩
    · obtain ⟨entry, hentry, rfl⟩ : ∃ entry ∈ scannedEntries fs (layout.front ++ shard),
          hexToBlockId entry.name = b := by
        have hmem := (getOldestFiles_spec hblocks).2.subset hb
        obtain ⟨file, hfile, rfl⟩ := List.mem_map.mp hmem
        obtain ⟨entry, hentry, rfl⟩ := List.mem_map.mp hfile
        exact ⟨entry, hentry, rfl⟩
      obtain ⟨b, hb, hname, hpath⟩ := archived_of_scanned hok h hshard hentry
      refine ⟨entry, hentry, rfl, ?_⟩
      rw [hname, hexToBlockId_dataFileName (h.ids b (Finset.mem_union_left _ hb)), ← hname]
      exact hpath

local instance lawfulBEqPath : LawfulBEq (List Char) := inferInstance

/-- The directories with the files of these blocks in them, and `.` and `..`. -/
def listing (layout : SpaceLayout) (hasher : BlockId → Nat) (files : List (BlockId × Bool)) :
    Directories := fun dir =>
  if dir ∈ layout.directories then
    some ((files.filter fun file =>
      layout.storageBackend hasher file.1 ++ layout.fileShardName (dataFileName file.1) = dir).map
        fun file => ⟨SpaceLayout.baseName file.1 file.2, some (true, 1)⟩)
  else none

/-- The blocks with an activated file, or with an archived one. -/
def blocksOf (files : List (BlockId × Bool)) (a : Bool) : Finset BlockId :=
  ((files.filter fun file => file.2 = a).map Prod.fst).toFinset

theorem mem_blocksOf {files : List (BlockId × Bool)} : b ∈ blocksOf files a ↔ (b, a) ∈ files := by
  unfold blocksOf
  rw [List.mem_toFinset, List.mem_map]
  constructor
  · rintro ⟨⟨b', a'⟩, hmem, rfl⟩
    obtain ⟨hfile, ha⟩ := List.mem_filter.mp hmem
    rw [← of_decide_eq_true ha]
    exact hfile
  · intro hfile
    exact ⟨(b, a), List.mem_filter.mpr ⟨hfile, decide_eq_true rfl⟩, rfl⟩

theorem stored_listing {files : List (BlockId × Bool)} (hids : ∀ file ∈ files, file.1 < blockIds)
    (hnodup : files.Nodup) :
    layout.Stored (listing layout hasher files) hasher (blocksOf files false) (blocksOf files true) where
  ids b hb := by
    rcases Finset.mem_union.mp hb with hmem | hmem
    · exact hids _ (mem_blocksOf.mp hmem)
    · exact hids _ (mem_blocksOf.mp hmem)
  opens dir hdir := by
    unfold listing
    rw [if_pos hdir]
    exact Option.some_ne_none _
  nodup dir entries hfs := by
    obtain ⟨_, hentries⟩ := Option.ite_none_right_eq_some.mp hfs
    obtain rfl := Option.some.inj hentries
    rw [List.map_map]
    refine List.Nodup.map_on (fun file hfile file' hfile' heq => ?_) (hnodup.filter _)
    have hbase := baseName_inj (hids _ (List.mem_filter.mp hfile).1) (hids _ (List.mem_filter.mp hfile').1) heq
    exact Prod.ext hbase.1 hbase.2
  slash dir entries hfs entry hentry := by
    obtain ⟨_, hentries⟩ := Option.ite_none_right_eq_some.mp hfs
    obtain rfl := Option.some.inj hentries
    obtain ⟨file, _, rfl⟩ := List.mem_map.mp hentry
    exact slash_notMem_baseName _ _
  files dir hdir entries hfs name hname := by
    obtain ⟨_, hentries⟩ := Option.ite_none_right_eq_some.mp hfs
    obtain rfl := Option.some.inj hentries
    have hpath : ∀ b a, (b, a) ∈ files → layout.dataFilePath hasher b a = dir ++ '/' :: name →
        (⟨name, some (true, 1)⟩ : DirEntry) ∈ (files.filter fun file =>
          layout.storageBackend hasher file.1 ++ layout.fileShardName (dataFileName file.1) = dir).map
            fun file => ⟨SpaceLayout.baseName file.1 file.2, some (true, 1)⟩ := by
      intro b a hfile heq
      obtain ⟨hfiledir, rfl⟩ := (dataFilePath_eq_iff hname).mp heq
      exact List.mem_map.mpr ⟨(b, a), List.mem_filter.mpr ⟨hfile, decide_eq_true hfiledir⟩, rfl⟩
    constructor
    · rintro ⟨mtime, hmem⟩
      obtain ⟨⟨b, a⟩, hfile, hentry⟩ := List.mem_map.mp hmem
      obtain ⟨hfile, hfiledir⟩ := List.mem_filter.mp hfile
      have heq := (dataFilePath_eq_iff hname).mpr
        ⟨of_decide_eq_true hfiledir, (DirEntry.mk.inj hentry).1⟩
      cases a with
      | true => exact .inr ⟨b, mem_blocksOf.mpr hfile, heq⟩
      | false => exact .inl ⟨b, mem_blocksOf.mpr hfile, heq⟩
    · rintro (⟨b, hb, heq⟩ | ⟨b, hb, heq⟩)
      · exact ⟨1, hpath b false (mem_blocksOf.mp hb) heq⟩
      · exact ⟨1, hpath b true (mem_blocksOf.mp hb) heq⟩

/-- Two storage backends, with 16 directories each. -/
def GcConfig.twoBackends : GcConfig :=
  { GcConfig.sixteen 1 with storageBackends := ["/a", "/b"], dataDirShardBytes := 1 }

/-- What `Setup` makes of it. -/
def twoBackends : SpaceLayout where
  storageBackends := [['/', 'a', '/'], ['/', 'b', '/']]
  shards := generateHexStrings 1
  dataDirShardBytes := 1
  directories := (generateHexStrings 1).map (['/', 'a', '/'] ++ ·) ++
    (generateHexStrings 1).map (['/', 'b', '/'] ++ ·)

theorem setup_twoBackends :
    SpaceLayout.setup ⟨fun _ => .ok, fun _ => true⟩ .twoBackends = some twoBackends := by
  decide +kernel

/-- The hash puts blocks 0 and 2 into the first backend. -/
theorem agrees_even : twoBackends.Agrees (listing twoBackends id [(0, false), (2, false), (3, true)]) id
    (blocksOf [(0, false), (2, false), (3, true)] false)
    (blocksOf [(0, false), (2, false), (3, true)] true) .twoBackends
    (twoBackends.sampleShards GcConfig.twoBackends.posixGcShardSampleRatio id) :=
  (agrees_iff (by decide +kernel) rfl setup_twoBackends
    (stored_listing (by decide +kernel) (by decide))).mpr (by decide +kernel)

/-- Block 1 lies in the second backend, where the collector does not find it. -/
theorem not_agrees_one : ¬ twoBackends.Agrees (listing twoBackends id [(1, false)]) id
    (blocksOf [(1, false)] false) (blocksOf [(1, false)] true) .twoBackends
    (twoBackends.sampleShards GcConfig.twoBackends.posixGcShardSampleRatio id) := by
  intro hagrees
  have hcount : (twoBackends.paths (listing twoBackends id [(1, false)]) countedEntries
      twoBackends.shards).count (twoBackends.dataFilePath id 1 false) = 0 := by
    decide +kernel
  have hone := hagrees.counted 1 (mem_blocksOf.mpr List.mem_cons_self)
  rw [show twoBackends.sampleShards GcConfig.twoBackends.posixGcShardSampleRatio id = twoBackends.shards
    from if_pos rfl, hcount] at hone
  exact absurd hone (by decide)

end UnifiedCache.Posix
