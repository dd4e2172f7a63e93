import Mathlib.Data.List.Basic
import Mathlib.Tactic.Common

/-!
# Storage backends

The posix and the nfs layout set up their storage backends in the same way: the directories of the
layout are created under the first path and checked under the others, and a path that is given twice is
one backend. Paths are strings, and different paths are different directories.
-/

namespace UnifiedCache.Infra

abbrev Path := List Char

/-- The status of `MkDir`. -/
inductive MkDirStatus where
  | ok
  | duplicateKey
  | failure
deriving DecidableEq, Repr

/-- How the file system answers when the directories are set up. -/
structure DirOps where
  mkDir : Path → MkDirStatus
  access : Path → Bool

/-- An entry that `readdir` gives: what `stat` says about it is whether it is a regular file, and its
time of modification. -/
structure DirEntry where
  name : Path
  stat : Option (Bool × Int)
deriving DecidableEq, Repr

/-- `storageBackends_`, and the directories that were created or checked. -/
structure Backends where
  storageBackends : List Path
  directories : List Path
deriving DecidableEq, Repr

variable (ops : DirOps) (relativeRoots : List Path) (s : Backends) (path : Path)

namespace Backends

/-- The backend of this path. -/
def add : Backends :=
  ⟨s.storageBackends ++ [path], s.directories ++ relativeRoots.map (path ++ ·)⟩

/-- `AddFirstStorageBackend`. -/
def addFirstStorageBackend : Option Backends :=
  if ∀ root ∈ relativeRoots, ops.mkDir (path ++ root) ≠ .failure then some (s.add relativeRoots path)
  else none

/-- `AddSecondaryStorageBackend`. -/
def addSecondaryStorageBackend : Option Backends :=
  if path ∈ s.storageBackends then some s
  else if ∀ root ∈ relativeRoots, ops.access (path ++ root) then some (s.add relativeRoots path)
  else none

/-- `normalizedPath`. -/
def normalize : Path := if path.getLast? = some '/' then path else path ++ ['/']

/-- `AddStorageBackend`. -/
def addStorageBackend : Option Backends :=
  if s.storageBackends.isEmpty then s.addFirstStorageBackend ops relativeRoots (normalize path)
  else s.addSecondaryStorageBackend ops relativeRoots (normalize path)

/-- The loop of `Setup`. -/
def setup (paths : List Path) : Option Backends :=
  paths.foldlM (fun s path => s.addStorageBackend ops relativeRoots path) ⟨[], []⟩

end Backends

variable {ops relativeRoots s path} {s' : Backends}

/-- The directories of every backend were created or checked. -/
def Backends.Covers (relativeRoots : List Path) (s : Backends) : Prop :=
  ∀ path ∈ s.storageBackends, ∀ root ∈ relativeRoots, path ++ root ∈ s.directories

theorem Backends.Covers.add (h : s.Covers relativeRoots) (path : Path) :
    (s.add relativeRoots path).Covers relativeRoots := by
  intro path' hpath root hroot
  rcases List.mem_append.mp hpath with hold | hnew
  · exact List.mem_append_left _ (h path' hold root hroot)
  · rw [List.mem_singleton.mp hnew]
    exact List.mem_append_right _ (List.mem_map_of_mem hroot)

/-- **Step lemma.** -/
theorem Backends.Covers.addStorageBackend (h : s.Covers relativeRoots)
    (hadd : s.addStorageBackend ops relativeRoots path = some s') :
    s'.Covers relativeRoots ∧ s'.storageBackends ≠ [] := by
  have hne : (s.add relativeRoots (normalize path)).storageBackends ≠ [] :=
    List.append_ne_nil_of_right_ne_nil _ (List.cons_ne_nil _ _)
  unfold Backends.addStorageBackend at hadd
  split_ifs at hadd with hempty
  · obtain ⟨_, hs⟩ := Option.ite_none_right_eq_some.mp hadd
    obtain rfl := Option.some.inj hs
    exact ⟨h.add _, hne⟩
  · unfold Backends.addSecondaryStorageBackend at hadd
    split_ifs at hadd with hmem hall
    · obtain rfl := Option.some.inj hadd
      exact ⟨h, List.ne_nil_of_mem hmem⟩
    · obtain rfl := Option.some.inj hadd
      exact ⟨h.add _, hne⟩

theorem Backends.setup_spec {paths : List Path} (hpaths : paths ≠ [])
    (h : setup ops relativeRoots paths = some s) :
    s.Covers relativeRoots ∧ s.storageBackends ≠ [] := by
  have hrun : ∀ (paths : List Path) (s₀ : Backends), s₀.Covers relativeRoots →
      (paths = [] → s₀.storageBackends ≠ []) →
      paths.foldlM (fun s path => s.addStorageBackend ops relativeRoots path) s₀ = some s →
      s.Covers relativeRoots ∧ s.storageBackends ≠ [] := by
    intro paths
    induction paths with
    | nil =>
      intro s₀ h₀ hne hfold
      obtain rfl := Option.some.inj hfold
      exact ⟨h₀, hne rfl⟩
    | cons path paths ih =>
      intro s₀ h₀ _ hfold
      rw [List.foldlM_cons] at hfold
      obtain ⟨s₁, hadd, hrest⟩ := Option.bind_eq_some_iff.mp hfold
      obtain ⟨h₁, hne₁⟩ := h₀.addStorageBackend hadd
      exact ih s₁ h₁ (fun _ => hne₁) hrest
  exact hrun paths ⟨[], []⟩ (fun _ hpath => absurd hpath List.not_mem_nil) (fun h => absurd h hpaths) h

end UnifiedCache.Infra
