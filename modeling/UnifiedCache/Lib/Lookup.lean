import Mathlib.Data.List.Basic

/-!
# Looking up lists

A lookup of a list finds the longest prefix all of which is present (`prefixEnd`). With two layers, a
query goes to the upper one first; what the upper layer misses is gathered, with its places, and asked
of the lower layer in one call. Here is how the two answers are put together: element by element
(`scatter_missesFrom`) or as the length of the longest prefix that one of the layers has
(`takeWhile_union_length`).
-/

namespace Lib

variable {α β : Type*} {upper lower : α → Bool} {l : List α} {i : Nat}

/-! ## Prefixes -/

/-- The last place of the longest prefix whose elements all satisfy `p`; `-1` if there is none. -/
def prefixEnd (p : α → Bool) (l : List α) : Int := (l.takeWhile p).length - 1

theorem prefixEnd_add_one (p : α → Bool) (l : List α) :
    prefixEnd p l + 1 = ((l.takeWhile p).length : Int) := Int.sub_add_cancel _ _

theorem prefixEnd_findIdx (p : α → Bool) (l : List α) :
    prefixEnd p l + 1 = ((l.map p).findIdx (!·) : Int) := by
  rw [prefixEnd_add_one, List.takeWhile_eq_take_findIdx_not, List.length_take,
    List.findIdx_map, Nat.min_eq_left List.findIdx_le_length]
  rfl

theorem lt_length_takeWhile_iff {p : α → Bool} : i < (l.takeWhile p).length ↔
    i < l.length ∧ ∀ j ≤ i, ∀ x, l[j]? = some x → p x = true := by
  rw [List.takeWhile_eq_take_findIdx_not, List.length_take,
    Nat.min_eq_left List.findIdx_le_length, List.lt_findIdx_iff]
  simp only [Bool.not_eq_false']
  constructor
  · rintro ⟨hi, h⟩
    refine ⟨hi, fun j hj x hx => ?_⟩
    obtain ⟨hjlt, rfl⟩ := List.getElem?_eq_some_iff.mp hx
    exact h j hj
  · rintro ⟨hi, h⟩
    refine ⟨hi, fun j hj => ?_⟩
    exact h j hj _ (List.getElem?_eq_getElem (Nat.lt_of_le_of_lt hj hi))

theorem le_prefixEnd_iff {p : α → Bool} (hi : i < l.length) :
    (i : Int) ≤ prefixEnd p l ↔ ∀ j ≤ i, ∀ x, l[j]? = some x → p x = true := by
  have hlt : (i : Int) ≤ prefixEnd p l ↔ i < (l.takeWhile p).length := by
    have := prefixEnd_add_one p l
    omega
  rw [hlt, lt_length_takeWhile_iff, and_iff_right hi]

/-! ## Two layers -/

/-- The elements that the upper layer misses, with their places; the first element has place `i`. -/
def missesFrom (upper : α → Bool) (i : Nat) (l : List α) : List (α × Nat) :=
  (l.zipIdx i).filter fun x => !upper x.1

theorem missesFrom_cons {x : α} : missesFrom upper i (x :: l) =
    if upper x then missesFrom upper (i + 1) l else (x, i) :: missesFrom upper (i + 1) l := by
  unfold missesFrom
  rw [List.zipIdx_cons, List.filter_cons]
  cases upper x <;> rfl

/-- `results[places[j]] = values[j]`, for all `j`. -/
def scatter (places : List Nat) (values results : List β) : List β :=
  (places.zip values).foldl (fun results x => results.set x.1 x.2) results

theorem scatter_cons {p : Nat} {v : β} {places : List Nat} {values results : List β} :
    scatter (p :: places) (v :: values) results = scatter places values (results.set p v) := rfl

theorem scatter_missesFrom (pre : List Bool) (hi : pre.length = i) :
    scatter ((missesFrom upper i l).map (·.2)) ((missesFrom upper i l).map fun x => lower x.1)
        (pre ++ l.map upper) = pre ++ l.map fun x => upper x || lower x := by
  induction l generalizing i pre with
  | nil => rfl
  | cons x l ih =>
    rw [missesFrom_cons]
    split_ifs with hx
    · have hrest := ih (pre ++ [true]) (i := i + 1) (by rw [List.length_append, hi]; rfl)
      simpa [hx] using hrest
    · have hrest := ih (pre ++ [lower x]) (i := i + 1) (by rw [List.length_append, hi]; rfl)
      have hset : (pre ++ (x :: l).map upper).set i (lower x) =
          (pre ++ [lower x]) ++ l.map upper := by
        rw [List.set_append_right _ _ (Nat.le_of_eq hi), hi, Nat.sub_self]
        simp
      rw [List.map_cons, List.map_cons, scatter_cons, hset, hrest]
      simp [hx]

/-- The longest prefix in the union ends before the first miss that the lower layer misses too, or
takes everything. -/
theorem takeWhile_union_length :
    (l.takeWhile fun x => upper x || lower x).length + i =
      ((missesFrom upper i l)[((missesFrom upper i l).takeWhile fun x => lower x.1).length]?.map
        (·.2)).getD (l.length + i) := by
  induction l generalizing i with
  | nil => rfl
  | cons x l ih =>
    have hrest := ih (i := i + 1)
    have hlength : (x :: l).length + i = l.length + (i + 1) := by
      rw [List.length_cons]
      omega
    rw [missesFrom_cons, hlength]
    by_cases hx : upper x = true
    · rw [if_pos hx, ← hrest, List.takeWhile_cons_of_pos (by rw [hx, Bool.true_or]),
        List.length_cons]
      omega
    · rw [if_neg hx]
      by_cases hlow : lower x = true
      · rw [List.takeWhile_cons_of_pos (by rw [hlow, Bool.or_true]),
          List.takeWhile_cons_of_pos (p := fun y : α × Nat => lower y.1) hlow, List.length_cons,
          List.length_cons, List.getElem?_cons_succ, ← hrest]
        omega
      · rw [List.takeWhile_cons_of_neg (by simp [hx, hlow]),
          List.takeWhile_cons_of_neg (p := fun y : α × Nat => lower y.1) hlow, List.length_nil]
        simp

end Lib
