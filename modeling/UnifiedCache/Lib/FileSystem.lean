import Mathlib.Logic.Function.Basic
import Mathlib.Tactic.Common

/-!
# A file system

Names point to files, and a file outlives its name: whoever has it open keeps on reading and writing
it after it was renamed or removed. A file is the bytes written to it, `none` where nothing has been
written yet; it never has more than one name here, since nothing makes links.
-/

namespace Lib

/-- A file system over names `ν`. -/
structure FileSystem (ν : Type*) where
  /-- The file that is created next. -/
  next : Nat
  /-- The file a name points to. -/
  dir : ν → Option Nat
  /-- The bytes of a file by offset. -/
  files : Nat → Nat → Option UInt8

namespace FileSystem

variable {ν : Type*} {fs : FileSystem ν} {a b : ν} {n : Nat}

/-- No names and no files. -/
def empty : FileSystem ν := ⟨0, fun _ => none, fun _ _ => none⟩

/-- `pwrite` of `len` bytes, which are those `src` gives from 0 on. -/
def pwrite (fs : FileSystem ν) (n offset len : Nat) (src : Nat → UInt8) : FileSystem ν :=
  { fs with files := Function.update fs.files n fun x =>
      if offset ≤ x ∧ x < offset + len then some (src (x - offset)) else fs.files n x }

/-- Every file with a name exists, and has no other name. -/
structure Ok (fs : FileSystem ν) : Prop where
  lt_next : ∀ a n, fs.dir a = some n → n < fs.next
  unique : ∀ a b n, fs.dir a = some n → fs.dir b = some n → a = b

theorem ok_empty : (empty : FileSystem ν).Ok := by
  constructor
  · intro a n h
    cases h
  · intro a b n h
    cases h

/-! ## Contents -/

theorem files_pwrite {offset len x : Nat} {src : Nat → UInt8} (hx : x < len) :
    (fs.pwrite n offset len src).files n (offset + x) = some (src x) := by
  unfold pwrite
  have hrange : offset ≤ offset + x ∧ offset + x < offset + len := by omega
  simp only [Function.update_self, hrange, and_self, if_true, Nat.add_sub_cancel_left]

theorem files_pwrite_of_not {offset len x m : Nat} {src : Nat → UInt8}
    (h : m = n → ¬(offset ≤ x ∧ x < offset + len)) :
    (fs.pwrite n offset len src).files m x = fs.files m x := by
  unfold pwrite
  by_cases hm : m = n
  · subst hm
    simp only [Function.update_self, h rfl, if_false]
  · simp only [Function.update_of_ne hm]

theorem Ok.pwrite {offset len : Nat} {src : Nat → UInt8} (h : fs.Ok) :
    (fs.pwrite n offset len src).Ok := ⟨h.lt_next, h.unique⟩

/-! ## Names -/

variable [DecidableEq ν]

/-- `open` with `O_CREAT` and without `O_TRUNC`: the file, and the file system in which it exists. -/
def openCreate (fs : FileSystem ν) (a : ν) : Nat × FileSystem ν :=
  match fs.dir a with
  | some n => (n, fs)
  | none => (fs.next, { fs with next := fs.next + 1, dir := Function.update fs.dir a fs.next })

/-- `rename`: `none` when there is no file of the old name. -/
def rename (fs : FileSystem ν) (a b : ν) : Option (FileSystem ν) :=
  (fs.dir a).map fun n =>
    { fs with dir := Function.update (Function.update fs.dir b (some n)) a none }

/-- `remove`. -/
def remove (fs : FileSystem ν) (a : ν) : FileSystem ν :=
  { fs with dir := Function.update fs.dir a none }

theorem dir_openCreate : (fs.openCreate a).2.dir a = some (fs.openCreate a).1 := by
  unfold openCreate
  split
  · next n h => exact h
  · exact Function.update_self ..

theorem dir_openCreate_of_ne (h : b ≠ a) : (fs.openCreate a).2.dir b = fs.dir b := by
  unfold openCreate
  split
  · rfl
  · exact Function.update_of_ne h ..

@[simp] theorem files_openCreate : (fs.openCreate a).2.files = fs.files := by
  unfold openCreate
  split <;> rfl

theorem openCreate_cases (fs : FileSystem ν) (a : ν) :
    (fs.dir a = some (fs.openCreate a).1 ∧ (fs.openCreate a).2 = fs) ∨
    (fs.dir a = none ∧ (fs.openCreate a).1 = fs.next ∧ (fs.openCreate a).2.next = fs.next + 1) := by
  unfold openCreate
  split
  · next n h => exact .inl ⟨h, rfl⟩
  · next h => exact .inr ⟨h, rfl, rfl⟩

theorem Ok.openCreate (h : fs.Ok) : (fs.openCreate a).2.Ok := by
  rcases openCreate_cases fs a with ⟨-, heq⟩ | ⟨hnone, hfile, hnext⟩
  · rw [heq]
    exact h
  · have hdir : ∀ b n, (fs.openCreate a).2.dir b = some n →
        (b = a ∧ n = fs.next) ∨ (b ≠ a ∧ fs.dir b = some n) := by
      intro b n hb
      by_cases hba : b = a
      · subst hba
        rw [dir_openCreate, hfile] at hb
        exact .inl ⟨rfl, (Option.some.inj hb).symm⟩
      · rw [dir_openCreate_of_ne hba] at hb
        exact .inr ⟨hba, hb⟩
    constructor
    · intro b n hb
      rw [hnext]
      rcases hdir b n hb with ⟨-, rfl⟩ | ⟨-, hold⟩
      · omega
      · have := h.lt_next b n hold
        omega
    · intro b c n hb hc
      rcases hdir b n hb with ⟨rfl, rfl⟩ | ⟨-, hb'⟩ <;> rcases hdir c _ hc with ⟨rfl, hn⟩ | ⟨-, hc'⟩
      · rfl
      · exact absurd (h.lt_next c _ hc') (Nat.lt_irrefl _)
      · subst hn
        exact absurd (h.lt_next b _ hb') (Nat.lt_irrefl _)
      · exact h.unique b c n hb' hc'

theorem Ok.remove (h : fs.Ok) : (fs.remove a).Ok := by
  have hdir : ∀ b n, (fs.remove a).dir b = some n → fs.dir b = some n := by
    intro b n hb
    by_cases hba : b = a
    · subst hba
      simp only [FileSystem.remove, Function.update_self, reduceCtorEq] at hb
    · simpa only [FileSystem.remove, Function.update_of_ne hba] using hb
  exact ⟨fun b n hb => h.lt_next b n (hdir b n hb),
    fun b c n hb hc => h.unique b c n (hdir b n hb) (hdir c n hc)⟩

theorem dir_rename {fs' : FileSystem ν} (hab : a ≠ b) (h : fs.rename a b = some fs') :
    ∃ n, fs.dir a = some n ∧ fs'.dir b = some n ∧ fs'.dir a = none ∧
      (∀ c, c ≠ a → c ≠ b → fs'.dir c = fs.dir c) ∧ fs'.files = fs.files ∧ fs'.next = fs.next := by
  obtain ⟨n, hn, rfl⟩ := Option.map_eq_some_iff.mp h
  refine ⟨n, hn, ?_, Function.update_self .., ?_, rfl, rfl⟩
  · simp only [Function.update_of_ne (Ne.symm hab), Function.update_self]
  · intro c hca hcb
    simp only [Function.update_of_ne hca, Function.update_of_ne hcb]

theorem Ok.rename {fs' : FileSystem ν} (h : fs.Ok) (hab : a ≠ b)
    (hren : fs.rename a b = some fs') : fs'.Ok := by
  obtain ⟨n, hn, hb, ha, hother, -, hnext⟩ := dir_rename hab hren
  have hdir : ∀ c m, fs'.dir c = some m → (c = b ∧ m = n) ∨ (c ≠ b ∧ c ≠ a ∧ fs.dir c = some m) := by
    intro c m hc
    by_cases hcb : c = b
    · subst hcb
      rw [hb] at hc
      exact .inl ⟨rfl, (Option.some.inj hc).symm⟩
    · by_cases hca : c = a
      · subst hca
        rw [ha] at hc
        cases hc
      · rw [hother c hca hcb] at hc
        exact .inr ⟨hcb, hca, hc⟩
  constructor
  · intro c m hc
    rw [hnext]
    rcases hdir c m hc with ⟨-, rfl⟩ | ⟨-, -, hold⟩
    · exact h.lt_next a _ hn
    · exact h.lt_next c m hold
  · intro c d m hc hd
    rcases hdir c m hc with ⟨rfl, rfl⟩ | ⟨-, hca, hc'⟩ <;>
      rcases hdir d _ hd with ⟨rfl, hm⟩ | ⟨-, hda, hd'⟩
    · rfl
    · exact absurd (h.unique d a _ hd' hn) hda
    · subst hm
      exact absurd (h.unique c a _ hc' hn) hca
    · exact h.unique c d m hc' hd'

end FileSystem

end Lib
