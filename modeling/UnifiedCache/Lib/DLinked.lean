import Mathlib.Data.List.Nodup
import Mathlib.Tactic.Common
import Mathlib.Logic.Function.Basic

/-!
# Doubly linked chains kept in an array

The links of a chain are two partial maps `next` and `prev` on node indices. `DLinked L p h l` says
that following `next` from `h` visits exactly the nodes `l` and ends, and that `prev` leads back,
the first node's `prev` being `p`. The two splices of intrusive lists, pushing a node in front and
unlinking a node, are defined on the links alone.
-/

namespace Lib

variable {α : Type*}

/-- The `next` and `prev` links of the nodes of an array. -/
structure Links (α : Type*) where
  /-- The following node. -/
  next : α → Option α
  /-- The preceding node. -/
  prev : α → Option α

/-- `l` is the chain that starts at `h`, whose first node has predecessor `p`. -/
def DLinked (L : Links α) : Option α → Option α → List α → Prop
  | _, h, [] => h = none
  | p, h, x :: l => h = some x ∧ L.prev x = p ∧ DLinked L (some x) (L.next x) l

@[simp] theorem dlinked_nil {L : Links α} {p h : Option α} : DLinked L p h [] ↔ h = none := Iff.rfl

@[simp] theorem dlinked_cons {L : Links α} {p h : Option α} {x : α} {l : List α} :
    DLinked L p h (x :: l) ↔ h = some x ∧ L.prev x = p ∧ DLinked L (some x) (L.next x) l := Iff.rfl

theorem DLinked.head {L : Links α} {p h : Option α} {l : List α} (hl : DLinked L p h l) :
    h = l.head? := by
  cases l with
  | nil => simpa using hl
  | cons x l => simpa using hl.1

/-- **Frame.** A chain only depends on the links of its own nodes. -/
theorem DLinked.congr {L L' : Links α} {l : List α} :
    ∀ {p h : Option α}, DLinked L p h l →
      (∀ y ∈ l, L'.next y = L.next y ∧ L'.prev y = L.prev y) → DLinked L' p h l := by
  induction l with
  | nil => intro p h hl _; exact hl
  | cons x l ih =>
    intro p h hl hL
    obtain ⟨h1, h2, h3⟩ := hl
    obtain ⟨hn, hp⟩ := hL x (by simp)
    refine ⟨h1, hp.trans h2, ?_⟩
    rw [hn]
    exact ih h3 fun y hy => hL y (List.mem_cons_of_mem _ hy)

variable [DecidableEq α]

theorem DLinked.set_prev {L L' : Links α} {l : List α} {p p' h : Option α} (hl : DLinked L p h l)
    (hnd : l.Nodup) (hnext : ∀ y ∈ l, L'.next y = L.next y)
    (hprev : ∀ y ∈ l, L'.prev y = if h = some y then p' else L.prev y) : DLinked L' p' h l := by
  cases l with
  | nil => exact hl
  | cons x l =>
    obtain ⟨rfl, -, h3⟩ := hl
    rw [List.nodup_cons] at hnd
    refine ⟨rfl, by simpa using hprev x (by simp), ?_⟩
    rw [hnext x (by simp)]
    refine h3.congr fun y hy => ⟨hnext y (List.mem_cons_of_mem _ hy), ?_⟩
    have hne : x ≠ y := fun hxy => hnd.1 (hxy ▸ hy)
    simpa [hne] using hprev y (List.mem_cons_of_mem _ hy)

theorem DLinked.push_front {L L' : Links α} {l : List α} {h : Option α} {x : α}
    (hl : DLinked L none h l) (hnd : (x :: l).Nodup) (hx : L'.prev x = none)
    (hxn : L'.next x = h) (hnext : ∀ y ∈ l, L'.next y = L.next y)
    (hprev : ∀ y ∈ l, L'.prev y = if h = some y then some x else L.prev y) :
    DLinked L' none (some x) (x :: l) := by
  refine ⟨rfl, hx, ?_⟩
  rw [hxn]
  exact hl.set_prev (List.nodup_cons.mp hnd).2 hnext hprev

omit [DecidableEq α] in
theorem DLinked.around {L : Links α} {l1 l2 : List α} {x : α} :
    ∀ {p h : Option α}, DLinked L p h (l1 ++ x :: l2) →
      L.prev x = l1.getLast?.or p ∧ L.next x = l2.head? ∧ DLinked L (some x) (L.next x) l2 := by
  induction l1 with
  | nil => intro p h hl; exact ⟨by simpa using hl.2.1, hl.2.2.head, hl.2.2⟩
  | cons y l1 ih =>
    intro p h hl
    obtain ⟨h1, h2, h3⟩ := ih hl.2.2
    refine ⟨?_, h2, h3⟩
    rw [h1]
    cases hlast : l1.getLast? <;> simp [List.getLast?_cons, hlast]

omit [DecidableEq α] in
theorem DLinked.next_eq_iff {L : Links α} {l : List α} {p h : Option α} {x y : α}
    (hl : DLinked L p h l) (hx : x ∈ l) (hy : y ∈ l) (hp : p ≠ some x) :
    L.next x = some y ↔ L.prev y = some x := by
  constructor
  · intro hxy
    obtain ⟨l1, l2, rfl⟩ := List.append_of_mem hx
    rw [hl.around.2.1] at hxy
    obtain ⟨l3, rfl⟩ : ∃ l3, l2 = y :: l3 := by
      cases l2 with
      | nil => simp at hxy
      | cons z l3 => exact ⟨l3, by simpa using hxy⟩
    have hl' : DLinked L p h ((l1 ++ [x]) ++ y :: l3) := by simpa using hl
    simpa using hl'.around.1
  · intro hyx
    obtain ⟨l1, l2, rfl⟩ := List.append_of_mem hy
    rw [hl.around.1] at hyx
    cases hlast : l1.getLast? with
    | none => exact absurd (by simpa [hlast] using hyx) hp
    | some z =>
      have hzx : z = x := by simpa [hlast] using hyx
      subst hzx
      obtain ⟨l0, rfl⟩ := List.getLast?_eq_some_iff.mp hlast
      have hl' : DLinked L p h (l0 ++ z :: (y :: l2)) := by simpa using hl
      simpa using hl'.around.2.1

omit [DecidableEq α] in
theorem DLinked.prev_head {L : Links α} {l : List α} {p h : Option α} {x : α}
    (hl : DLinked L p h l) (hx : l.head? = some x) : L.prev x = p := by
  cases l with
  | nil => simp at hx
  | cons y l =>
    rw [List.head?_cons, Option.some.injEq] at hx
    rw [← hx]
    exact hl.2.1

omit [DecidableEq α] in
theorem DLinked.next_last {L : Links α} {l : List α} {p h : Option α} {x : α}
    (hl : DLinked L p h l) (hx : l.getLast? = some x) : L.next x = none := by
  obtain ⟨l0, rfl⟩ := List.getLast?_eq_some_iff.mp hx
  exact hl.around.2.1

omit [DecidableEq α] in
theorem DLinked.prev_mem {L : Links α} {l : List α} {h : Option α} {x y : α}
    (hl : DLinked L none h l) (hnd : l.Nodup) (hx : x ∈ l) (hy : L.prev x = some y) :
    y ∈ l ∧ y ≠ x := by
  obtain ⟨l1, l2, rfl⟩ := List.append_of_mem hx
  rw [hl.around.1, Option.or_none] at hy
  have hmem : y ∈ l1 := List.mem_of_getLast? hy
  refine ⟨List.mem_append_left _ hmem, ?_⟩
  rintro rfl
  exact (List.nodup_append.mp hnd).2.2 y hmem y (by simp) rfl

omit [DecidableEq α] in
theorem DLinked.next_mem {L : Links α} {l : List α} {p h : Option α} {x y : α}
    (hl : DLinked L p h l) (hnd : l.Nodup) (hx : x ∈ l) (hy : L.next x = some y) :
    y ∈ l ∧ y ≠ x := by
  obtain ⟨l1, l2, rfl⟩ := List.append_of_mem hx
  rw [hl.around.2.1] at hy
  have hmem : y ∈ l2 := List.mem_of_head? hy
  refine ⟨by simp [hmem], ?_⟩
  rintro rfl
  rw [List.nodup_append, List.nodup_cons] at hnd
  exact hnd.2.1.1 hmem

theorem DLinked.unlink_aux {L L' : Links α} {l1 l2 : List α} {x : α} :
    ∀ {p h : Option α}, DLinked L p h (l1 ++ x :: l2) → (l1 ++ x :: l2).Nodup →
      (∀ y ∈ l1 ++ l2, L'.next y = if L.prev x = some y ∧ y ∈ l1 then L.next x else L.next y) →
      (∀ y ∈ l1 ++ l2, L'.prev y = if L.next x = some y then L.prev x else L.prev y) →
      DLinked L' p (if h = some x then L.next x else h) (l1 ++ l2) := by
  induction l1 with
  | nil =>
    intro p h hl hnd hnext hprev
    obtain ⟨rfl, hp, h3⟩ := hl
    simp only [List.nil_append, List.nodup_cons] at hnd
    simp only [↓reduceIte, List.nil_append]
    refine h3.set_prev hnd.2 (fun y hy => by simpa using hnext y hy) fun y hy => ?_
    rw [hprev y hy, hp]
  | cons z l1 ih =>
    intro p h hl hnd hnext hprev
    have hlast := hl.around.1
    have hxn := hl.around.2.1
    obtain ⟨rfl, hp, h3⟩ := hl
    simp only [List.cons_append, List.nodup_cons, List.mem_append, List.mem_cons, not_or] at hnd
    obtain ⟨⟨hz1, hzx, hz2⟩, hnd'⟩ := hnd
    have hzn : L.next x ≠ some z := by
      intro hc
      rw [hxn] at hc
      exact hz2 (List.mem_of_head? hc)
    rw [if_neg (by simpa using hzx)]
    refine ⟨rfl, ?_, ?_⟩
    · rw [hprev z (by simp), if_neg hzn, hp]
    · have hrec := ih h3 hnd' (fun y hy => ?_) (fun y hy => hprev y (List.mem_cons_of_mem _ hy))
      · have hz := hnext z (by simp)
        cases l1 with
        | nil =>
          -- `z` is the predecessor of `x`: its link now skips `x`
          have hnx : L.next z = some x := h3.1
          simp only [List.getLast?_singleton] at hlast
          rw [hz, if_pos ⟨by simpa using hlast, by simp⟩]
          simpa [hnx] using hrec
        | cons w l1 =>
          have hnz : L.next z = some w := h3.1
          have hwx : w ≠ x := by
            intro hc
            subst hc
            simp at hnd'
          have hne : ¬ (L.prev x = some z ∧ z ∈ z :: w :: l1) := by
            rintro ⟨hc, -⟩
            rw [hlast] at hc
            have hmem : z ∈ w :: l1 := by
              refine List.mem_of_getLast? (l := w :: l1) ?_
              simpa [List.getLast?_cons] using hc
            exact hz1 hmem
          rw [hz, if_neg hne]
          simpa [hnz, hwx] using hrec
      · rw [hnext y (List.mem_cons_of_mem _ hy)]
        have hyz : y ≠ z := by
          rintro rfl
          rcases List.mem_append.mp hy with hy | hy
          · exact hz1 hy
          · exact hz2 hy
        simp [hyz]

/-- **Unlinking** a node from a chain: its predecessor's `next` and its successor's `prev` are set
past it, and the head moves on when the node was the first. -/
theorem DLinked.unlink {L L' : Links α} {l1 l2 : List α} {x : α} {h : Option α}
    (hl : DLinked L none h (l1 ++ x :: l2)) (hnd : (l1 ++ x :: l2).Nodup)
    (hnext : ∀ y ∈ l1 ++ l2, L'.next y = if L.prev x = some y then L.next x else L.next y)
    (hprev : ∀ y ∈ l1 ++ l2, L'.prev y = if L.next x = some y then L.prev x else L.prev y) :
    DLinked L' none (if h = some x then L.next x else h) (l1 ++ l2) := by
  refine hl.unlink_aux hnd (fun y hy => ?_) hprev
  have hmem : L.prev x = some y → y ∈ l1 := by
    rw [hl.around.1, Option.or_none]
    exact List.mem_of_getLast?
  rw [hnext y hy]
  by_cases hc : L.prev x = some y
  · rw [if_pos hc, if_pos ⟨hc, hmem hc⟩]
  · rw [if_neg hc, if_neg fun h => hc h.1]

end Lib
