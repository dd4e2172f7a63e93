import Mathlib.Data.List.Nodup
import Mathlib.Tactic.Common

/-!
# Independent programs

Programs run on one memory, one after the other. Each owns some places: it reads and writes nothing
else. When no place has two owners, every program finds in its places what was there at the start, in
whatever order they run.
-/

namespace Lib.Programs

variable {ι A V : Type*} {f : ι → (A → V) → A → V} {own : ι → A → Prop} {order : List ι} {i : ι} {a : A}

/-- The programs, one after the other. -/
def run (f : ι → (A → V) → A → V) (order : List ι) (mem : A → V) : A → V :=
  order.foldl (fun mem i => f i mem) mem

/-- A program leaves what it does not own, and depends on what it owns only. -/
structure Local (f : ι → (A → V) → A → V) (own : ι → A → Prop) : Prop where
  frame : ∀ i mem a, ¬ own i a → f i mem a = mem a
  congr : ∀ i mem mem', (∀ a, own i a → mem a = mem' a) → ∀ a, own i a → f i mem a = f i mem' a

/-- No place has two owners. -/
def Disjoint (own : ι → A → Prop) (order : List ι) : Prop :=
  order.Pairwise fun i j => ∀ a, own i a → ¬ own j a

theorem disjoint_of_unique (hnodup : order.Nodup)
    (hunique : ∀ i ∈ order, ∀ j ∈ order, ∀ a, own i a → own j a → i = j) : Disjoint own order := by
  refine List.Pairwise.imp_of_mem ?_ hnodup
  intro i j hi hj hne a hown hown'
  exact hne (hunique i hi j hj a hown hown')

theorem run_of_unowned (hlocal : Local f own) (mem : A → V) (h : ∀ i ∈ order, ¬ own i a) :
    run f order mem a = mem a := by
  induction order generalizing mem with
  | nil => rfl
  | cons j order ih =>
    have hrest : ∀ i ∈ order, ¬ own i a := fun i hi => h i (List.mem_cons_of_mem j hi)
    show run f order (f j mem) a = mem a
    rw [ih (f j mem) hrest, hlocal.frame j mem a (h j List.mem_cons_self)]

theorem run_of_owned (hlocal : Local f own) (hdisj : Disjoint own order) (mem : A → V) (hi : i ∈ order)
    (hown : own i a) : run f order mem a = f i mem a := by
  induction order generalizing mem with
  | nil => exact absurd hi List.not_mem_nil
  | cons j order ih =>
    obtain ⟨hhead, htail⟩ := List.pairwise_cons.mp hdisj
    show run f order (f j mem) a = f i mem a
    rcases List.mem_cons.mp hi with rfl | hi
    · exact run_of_unowned hlocal (f i mem) fun k hk => hhead k hk a hown
    · rw [ih htail (f j mem) hi]
      apply hlocal.congr i (f j mem) mem ?_ a hown
      intro a' hown'
      apply hlocal.frame j mem a'
      intro hj
      exact hhead i hi a' hj hown'

/-! ## Programs that agree

Several programs may write one place, if they write the same there. -/

section Writes

variable {S : Type*} {g : ι → S → S} {obs : S → V} {v : V}

/-- Every program leaves what is observed or makes it this value. -/
def Writes (g : ι → S → S) (order : List ι) (obs : S → V) (v : V) : Prop :=
  ∀ i ∈ order, ∀ s, obs (g i s) = obs s ∨ obs (g i s) = v

theorem Writes.foldl (h : Writes g order obs v) (s : S) :
    obs (order.foldl (fun s i => g i s) s) = obs s ∨ obs (order.foldl (fun s i => g i s) s) = v := by
  induction order generalizing s with
  | nil => exact .inl rfl
  | cons j order ih =>
    have hrest : Writes g order obs v := fun i hi => h i (List.mem_cons_of_mem j hi)
    rw [List.foldl_cons]
    rcases ih hrest (g j s) with hleft | hwritten
    · rw [hleft]
      exact h j List.mem_cons_self s
    · exact .inr hwritten

theorem Writes.foldl_of_mem (h : Writes g order obs v) (hi : i ∈ order) (hv : ∀ s, obs (g i s) = v)
    (s : S) : obs (order.foldl (fun s i => g i s) s) = v := by
  induction order generalizing s with
  | nil => exact absurd hi List.not_mem_nil
  | cons j order ih =>
    have hrest : Writes g order obs v := fun i hi => h i (List.mem_cons_of_mem j hi)
    rw [List.foldl_cons]
    rcases List.mem_cons.mp hi with rfl | hi
    · rcases hrest.foldl (g i s) with hleft | hwritten
      · rw [hleft, hv]
      · exact hwritten
    · exact ih hrest hi (g j s)

end Writes

/-! ## Loops of programs -/

theorem Local.nested {κ : Type*} {f : κ → ι → (A → V) → A → V} {own : κ → ι → A → Prop}
    (hlocal : ∀ k, Local (f k) (own k)) (hdisj : ∀ k, Disjoint (own k) order) :
    Local (fun k => run (f k) order) fun k a => ∃ i ∈ order, own k i a where
  frame k mem a h := run_of_unowned (hlocal k) mem fun i hi hown => h ⟨i, hi, hown⟩
  congr k mem mem' h a := by
    rintro ⟨i, hi, hown⟩
    rw [run_of_owned (hlocal k) (hdisj k) mem hi hown, run_of_owned (hlocal k) (hdisj k) mem' hi hown]
    exact (hlocal k).congr i mem mem' (fun a' hown' => h a' ⟨i, hi, hown'⟩) a hown

theorem foldlM_eq_run {g : ι → (A → V) → Option (A → V)}
    (h : ∀ i ∈ order, ∀ mem, g i mem = some (f i mem)) (mem : A → V) :
    order.foldlM (fun mem i => g i mem) mem = some (run f order mem) := by
  induction order generalizing mem with
  | nil => rfl
  | cons i order ih =>
    have hrest : ∀ i ∈ order, ∀ mem, g i mem = some (f i mem) :=
      fun j hj => h j (List.mem_cons_of_mem i hj)
    rw [List.foldlM_cons, h i List.mem_cons_self mem]
    exact ih hrest (f i mem)

end Lib.Programs
