import UnifiedCache.Infra.StorageBackends
import UnifiedCache.Lib.Machine
import Mathlib.Data.Finset.Basic

/-!
# The log files

`rotating_file_sink` renames a log that gets too long and compresses it. The names of the renamed files
are kept; when there are more than `max_files_`, the archives of the first ones are removed, each once it
exists.

The calls come one after the other. The clock and the outcome of every operation that may fail are the
environment's, and between the calls others may remove files. What of the file system matters is which
files there are, and how much is in the log.
-/

open Lib

namespace UnifiedCache.Infra.RotatingFileSink

/-- `MaxFiles`. -/
def limitFiles : Nat := 200000

/-- The arguments of the constructor that it accepts, with the name of the log as `split_by_extension`
gives it. -/
structure SinkConfig where
  basename : Path
  ext : Path
  maxSize : Nat
  maxFiles : Nat
  maxSize_pos : maxSize ≠ 0
  maxFiles_le : ¬ limitFiles < maxFiles
  ext_dot : ext = [] ∨ ext.head? = some '.'

/-- `time_str_with_ms`: numbers, `-` and `_`. -/
structure Stamp where
  chars : Path
  noDot : '.' ∉ chars

/-- What a call meets with: the clock, and what succeeds. -/
structure Env where
  now : Stamp
  renames : Bool
  sourceOpens : Bool
  gzopens : Bool
  /-- Whether the `gzwrite` of a chunk succeeds. -/
  gzwrites : Nat → Bool

/-- The sink and the file system. `fileSize` is what is in the open log, and `created` are the archives
that the sink has created so far. -/
structure State where
  files : Finset Path
  fileSize : Nat
  currentSize : Nat
  compressedFiles : List Path
  created : Finset Path

/-- How a call ends. -/
inductive Outcome where
  | returned
  | threw
deriving DecidableEq

/-- The name of the archive of a renamed file. -/
def archive (name : Path) : Path := name ++ ".gz".toList

variable (cfg : SinkConfig)

/-- `base_filename_`. -/
def baseFilename : Path := cfg.basename ++ cfg.ext

/-- `target`. -/
def target (now : Stamp) : Path := cfg.basename ++ '_' :: (now.chars ++ cfg.ext)

/-- `file_helper_.reopen(true)`. -/
def reopen (s : State) : State :=
  { s with files := insert (baseFilename cfg) s.files, fileSize := 0 }

/-- `file_helper_.write`. -/
def write (msg : Nat) (s : State) : State := { s with fileSize := s.fileSize + msg }

/-- `rename_file_`: what is there under the new name is removed first. -/
def renameFile (renames : Bool) (src target : Path) (files : Finset Path) : Bool × Finset Path :=
  if renames then (true, insert target ((files.erase target).erase src))
  else (false, files.erase target)

/-- The loop of `rotate_`, for so many passes: `none` if it is still going on. -/
def prune : Nat → Finset Path → List Path → Option (Finset Path × List Path)
  | passes, files, compressedFiles =>
    if cfg.maxFiles < compressedFiles.length then
      match passes, compressedFiles with
      | 0, _ => none
      | _ + 1, [] => none
      | passes + 1, front :: rest =>
        if archive front ∈ files then prune passes (files.erase (archive front)) rest
        else prune passes files (front :: rest)
    else some (files, compressedFiles)

/-- `rotate_`: the name of the renamed file (empty if there was no log), or `none` after an exception. -/
def rotate (passes : Nat) (env : Env) (s : State) : Option (Option Path × State) :=
  if baseFilename cfg ∈ s.files then
    match renameFile env.renames (baseFilename cfg) (target cfg env.now) s.files with
    | (false, files) => some (none, { reopen cfg { s with files } with currentSize := 0 })
    | (true, files) => do
      let (files, compressedFiles) ←
        prune cfg passes files (s.compressedFiles ++ [target cfg env.now])
      some (some (target cfg env.now), reopen cfg { s with files, compressedFiles })
  else do
    let (files, compressedFiles) ← prune cfg passes s.files s.compressedFiles
    some (some [], reopen cfg { s with files, compressedFiles })

/-- `buffer_size`. -/
def bufferSize : Nat := 16384

/-- `compress_` of a file with so many bytes. -/
def compress (env : Env) (srcPath : Path) (srcSize : Nat) (s : State) : Outcome × State :=
  if cfg.maxFiles = 0 then (.returned, s)
  else if ¬ (env.sourceOpens ∧ srcPath ≠ [] ∧ srcPath ∈ s.files) then (.threw, s)
  else if ¬ env.gzopens then (.threw, s)
  else
    let destPath := archive srcPath
    let s := { s with files := insert destPath s.files, created := insert destPath s.created }
    let chunks := (srcSize + bufferSize - 1) / bufferSize
    if (List.range chunks).all env.gzwrites then (.returned, { s with files := s.files.erase srcPath })
    else (.threw, s)

/-- `rotate_` and `compress_`. -/
def rotateAndCompress (passes : Nat) (env : Env) (s : State) : Option (Outcome × State) := do
  match ← rotate cfg passes env s with
  | (none, s') => some (.threw, s')
  | (some srcPath, s') => some (compress cfg env srcPath s.fileSize s')

/-- `sink_it_` of a message with so many bytes. -/
def sinkIt (passes : Nat) (msg : Nat) (env : Env) (s : State) : Option (Outcome × State) :=
  let newSize := s.currentSize + msg
  if cfg.maxSize < newSize ∧ 0 < s.fileSize then do
    match ← rotateAndCompress cfg passes env s with
    | (.threw, s') => some (.threw, s')
    | (.returned, s') => some (.returned, { write msg s' with currentSize := msg })
  else some (.returned, { write msg s with currentSize := newSize })

/-- The constructor, after its checks: the log has so many bytes. -/
def construct (passes : Nat) (env : Env) (files : Finset Path) (size : Nat) (rotateOnOpen : Bool) :
    Option (Outcome × State) :=
  let s : State := ⟨insert (baseFilename cfg) files, size, size, [], ∅⟩
  if rotateOnOpen ∧ 0 < s.currentSize then do
    match ← rotateAndCompress cfg passes env s with
    | (.threw, s') => some (.threw, s')
    | (.returned, s') => some (.returned, { s' with currentSize := 0 })
  else some (.returned, s)

/-- A call that comes to its end after so many passes of the loop, or files that others remove. -/
inductive Event where
  | sinkIt (passes msg : Nat) (env : Env)
  | remove (paths : Finset Path)

/-- A sink from its construction on. -/
def sink : Machine State Event where
  init s := ∃ passes env files size rotateOnOpen,
    construct cfg passes env files size rotateOnOpen = some (.returned, s)
  step s
    | .sinkIt passes msg env => (sinkIt cfg passes msg env s).map Prod.snd
    | .remove paths => some { s with files := s.files \ paths }

end UnifiedCache.Infra.RotatingFileSink
