import Mathlib.Data.List.Nodup
import Mathlib.Logic.Function.Basic

/-!
# Caches of blocks

A cache has contents for every block. Several blocks are read or written at once, through a list of
their numbers, as the rows of a tensor are through an index.
-/

namespace Lib.BlockCache

variable {κ β : Type*} [DecidableEq κ] {cache : κ → β} {ids : List κ} {values : List β}

/-- Writes the values one after another. -/
def writeAll (cache : κ → β) : List κ → List β → κ → β
  | i :: ids, v :: values => writeAll (Function.update cache i v) ids values
  | _, _ => cache

/-- `cache[ids] = values` of tensors: a single value is broadcast, any other number of values has to be
the number of blocks. -/
def indexPut (cache : κ → β) (ids : List κ) (values : List β) : Option (κ → β) :=
  if values.length = ids.length then some (writeAll cache ids values)
  else if values.length = 1 then
    some (writeAll cache ids (values.flatMap (List.replicate ids.length)))
  else none

@[simp] theorem writeAll_nil (values : List β) : writeAll cache [] values = cache := rfl

theorem writeAll_cons (i : κ) (v : β) :
    writeAll cache (i :: ids) (v :: values) = writeAll (Function.update cache i v) ids values := rfl

theorem writeAll_of_notMem {k : κ} (h : k ∉ ids) : writeAll cache ids values k = cache k := by
  induction ids generalizing cache values with
  | nil => rfl
  | cons i ids ih =>
    cases values with
    | nil => rfl
    | cons v values =>
      obtain ⟨hne, hnot⟩ := not_or.mp (mt List.mem_cons.mpr h)
      rw [writeAll_cons, ih hnot, Function.update_of_ne hne]

theorem map_writeAll (cache : κ → β) (hnodup : ids.Nodup) (hlength : values.length = ids.length) :
    ids.map (writeAll cache ids values) = values := by
  induction ids generalizing cache values with
  | nil =>
    rw [List.length_nil, List.length_eq_zero_iff] at hlength
    rw [hlength, List.map_nil]
  | cons i ids ih =>
    cases values with
    | nil => cases hlength
    | cons v values =>
      obtain ⟨hnot, hnodup⟩ := List.nodup_cons.mp hnodup
      have hrest := ih (Function.update cache i v) hnodup (Nat.succ.inj hlength)
      rw [List.map_cons, writeAll_cons, hrest, writeAll_of_notMem hnot, Function.update_self]

theorem writeAll_getElem? (hnodup : ids.Nodup) (hlength : values.length = ids.length) {i : Nat}
    {k : κ} (h : ids[i]? = some k) : some (writeAll cache ids values k) = values[i]? := by
  have hmap := congrArg (·[i]?) (map_writeAll cache hnodup hlength)
  rw [List.getElem?_map, h] at hmap
  exact hmap

theorem writeAll_of_mem_zip (hnodup : ids.Nodup) (hlength : values.length = ids.length) {k : κ}
    {v : β} (h : (k, v) ∈ ids.zip values) : writeAll cache ids values k = v := by
  obtain ⟨i, hi⟩ := List.mem_iff_getElem?.mp h
  obtain ⟨hk, hv⟩ := List.getElem?_zip_eq_some.mp hi
  exact Option.some.inj ((writeAll_getElem? hnodup hlength hk).trans hv)

theorem writeAll_append {ids' : List κ} {values' : List β} (h : values.length = ids.length) :
    writeAll (writeAll cache ids values) ids' values' =
      writeAll cache (ids ++ ids') (values ++ values') := by
  induction ids generalizing cache values with
  | nil =>
    rw [List.length_nil, List.length_eq_zero_iff] at h
    rw [h]
    rfl
  | cons id ids ih =>
    cases values with
    | nil => cases h
    | cons v values =>
      rw [writeAll_cons, ih (Nat.succ.inj h), List.cons_append, List.cons_append, writeAll_cons]

theorem indexPut_eq (h : values.length = ids.length) :
    indexPut cache ids values = some (writeAll cache ids values) := if_pos h

theorem indexPut_isSome_iff (cache : κ → β) (ids : List κ) (values : List β) :
    (indexPut cache ids values).isSome ↔ values.length = ids.length ∨ values.length = 1 := by
  unfold indexPut
  split_ifs with hlength hone
  · exact iff_of_true rfl (.inl hlength)
  · exact iff_of_true rfl (.inr hone)
  · exact iff_of_false (by simp) (not_or.mpr ⟨hlength, hone⟩)

/-! ## Tables of blocks -/

theorem idxOf?_getElem {table : List κ} (hnodup : table.Nodup) {i : Nat} (hi : i < table.length) :
    table.idxOf? table[i] = some i := by
  rw [List.idxOf?_eq_some_iff]
  refine ⟨hi, rfl, fun j hj heq => ?_⟩
  have := (hnodup.getElem_inj_iff).mp heq
  omega

theorem nodup_take_append_drop {α : Type*} {table : List α} {a b : Nat} (hnodup : table.Nodup) (h : a ≤ b) :
    (table.take a ++ table.drop b).Nodup := by
  refine List.nodup_append.mpr ⟨hnodup.sublist (List.take_sublist _ _),
    hnodup.sublist (List.drop_sublist _ _), fun x hx y hy heq => ?_⟩
  obtain ⟨i, hi, rfl⟩ := List.mem_take_iff_getElem.mp hx
  obtain ⟨j, hj, rfl⟩ := List.mem_drop_iff_getElem.mp hy
  have := (hnodup.getElem_inj_iff).mp heq
  omega

end Lib.BlockCache
