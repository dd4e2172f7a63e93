import Mathlib.Data.List.Basic
import Mathlib.Tactic.Common

/-!
# Rings of asynchronous I/Os

I/Os are prepared in a ring, submitted together, done by somebody else in their order, and their
completions are taken one by one. Whatever its phase, an I/O is in the ring from `prep` to `take`
(`all`), and the ring is a queue: `take` takes the completion of the oldest I/O.
-/

namespace Lib

/-- A ring of I/Os `ι`; the oldest ones come first. -/
structure IoRing (ι : Type*) where
  prepared : List ι
  submitted : List ι
  /-- The completions that have not been taken. -/
  completed : List (ι × Int)
deriving DecidableEq

namespace IoRing

variable {ι : Type*} {ring ring' : IoRing ι} {io io' : ι} {result : Int}

/-- No I/Os. -/
def empty : IoRing ι := ⟨[], [], []⟩

/-- The I/Os in the ring. -/
def all (ring : IoRing ι) : List ι := ring.completed.map Prod.fst ++ ring.submitted ++ ring.prepared

/-- One more I/O. -/
def prep (ring : IoRing ι) (io : ι) : IoRing ι := { ring with prepared := ring.prepared ++ [io] }

/-- What is prepared is submitted. -/
def submit (ring : IoRing ι) : IoRing ι :=
  { ring with prepared := [], submitted := ring.submitted ++ ring.prepared }

/-- The oldest submitted I/O is done. -/
def complete (ring : IoRing ι) (result : Int) : Option (ι × IoRing ι) :=
  match ring.submitted with
  | [] => none
  | io :: submitted =>
    some (io, { ring with submitted := submitted, completed := ring.completed ++ [(io, result)] })

/-- The oldest completion is taken. -/
def take (ring : IoRing ι) : Option ((ι × Int) × IoRing ι) :=
  match ring.completed with
  | [] => none
  | cqe :: completed => some (cqe, { ring with completed := completed })

@[simp] theorem all_empty : (empty : IoRing ι).all = [] := rfl

@[simp] theorem all_prep (ring : IoRing ι) (io : ι) : (ring.prep io).all = ring.all ++ [io] :=
  (List.append_assoc _ _ _).symm

@[simp] theorem all_submit (ring : IoRing ι) : ring.submit.all = ring.all := by
  simp [all, submit]

theorem all_complete (h : ring.complete result = some (io, ring')) : ring'.all = ring.all := by
  unfold complete at h
  split at h
  · cases h
  · next heq =>
    cases h
    simp [all, heq]

theorem all_take {cqe : ι × Int} (h : ring.take = some (cqe, ring')) :
    ring.all = cqe.1 :: ring'.all := by
  unfold take at h
  split at h
  · cases h
  · next heq =>
    cases h
    simp [all, heq]

theorem mem_of_take {cqe : ι × Int} (h : ring.take = some (cqe, ring')) :
    ring.completed.head? = some cqe := by
  unfold take at h
  split at h
  · cases h
  · next heq =>
    cases h
    rw [heq]
    rfl

theorem complete_of_all_eq (hall : ring.all = [io]) (h : ring.complete result = some (io', ring')) :
    io' = io ∧ ring'.completed = [(io, result)] ∧ ring'.submitted = [] := by
  unfold complete at h
  split at h
  · cases h
  · next first submitted heq =>
    cases h
    -- One of the three parts is the whole ring.
    have hlength := congrArg List.length hall
    rw [all, heq] at hall
    simp only [all, heq, List.length_append, List.length_map, List.length_cons,
      List.length_nil] at hlength
    have hcompleted : ring.completed = [] := List.length_eq_zero_iff.mp (by omega)
    have hsubmitted : submitted = [] := List.length_eq_zero_iff.mp (by omega)
    rw [hcompleted, hsubmitted] at hall
    obtain ⟨rfl, -⟩ := List.cons.inj hall
    dsimp only
    exact ⟨rfl, by rw [hcompleted]; rfl, hsubmitted⟩

theorem take_of_all_eq {cqe : ι × Int} (hall : ring.all = [io])
    (h : ring.take = some (cqe, ring')) : cqe.1 = io ∧ ring'.all = [] := by
  rw [all_take h] at hall
  exact List.cons.inj hall

theorem submitted_of_all_eq (h : ring.all = []) : ring.submitted = [] := by
  simp only [all, List.append_eq_nil_iff] at h
  exact h.1.2

theorem completed_of_all_eq (h : ring.all = []) : ring.completed = [] := by
  simp only [all, List.append_eq_nil_iff, List.map_eq_nil_iff] at h
  exact h.1.1

theorem complete_eq_none (h : ring.submitted = []) : ring.complete result = none := by
  unfold complete
  rw [h]

end IoRing

end Lib
