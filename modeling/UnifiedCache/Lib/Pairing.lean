import Mathlib.Data.List.Nodup
import Mathlib.Data.List.Perm.Basic

/-!
# Changing a pairing

Places are paired with values one to one, and then other values are wanted in the same places. A pair
whose place and value are both still wanted stays, and the other places are paired with the other
values in any order. The pairing is one to one again, and the new pairs are the changes.
-/

namespace Lib.Pairing

variable {κ ν : Type*} {m kept : List (κ × ν)} {places ks : List κ} {values vs : List ν}

/-- The pairs have these places and these values. -/
structure OneToOne (m : List (κ × ν)) (places : List κ) (values : List ν) : Prop where
  places : (m.map Prod.fst).Perm places
  values : (m.map Prod.snd).Perm values

/-- The pairs of `m` that stay, and the places and values that are left. -/
structure Split (m kept : List (κ × ν)) (places ks : List κ) (values vs : List ν) : Prop where
  mem_kept : ∀ p, p ∈ kept ↔ p ∈ m ∧ p.1 ∈ places ∧ p.2 ∈ values
  places : (kept.map Prod.fst ++ ks).Perm places
  values : (kept.map Prod.snd ++ vs).Perm values

namespace Split

theorem length_eq (h : Split m kept places ks values vs) (hlength : places.length = values.length) :
    ks.length = vs.length := by
  have hplaces := h.places.length_eq
  have hvalues := h.values.length_eq
  rw [List.length_append, List.length_map] at hplaces hvalues
  omega

/-- **The new pairing is one to one.** -/
theorem oneToOne (h : Split m kept places ks values vs) (hlength : places.length = values.length) :
    OneToOne (kept ++ ks.zip vs) places values := by
  have heq := h.length_eq hlength
  refine ⟨?_, ?_⟩
  · rw [List.map_append, List.map_fst_zip (Nat.le_of_eq heq)]
    exact h.places
  · rw [List.map_append, List.map_snd_zip (Nat.le_of_eq heq.symm)]
    exact h.values

theorem notMem_kept (h : Split m kept places ks values vs) (hnodup : places.Nodup) {k : κ} {v : ν}
    (hk : k ∈ ks) : (k, v) ∉ kept := by
  intro hmem
  have hall := h.places.nodup_iff.mpr hnodup
  exact (List.nodup_append.mp hall).2.2 _ (List.mem_map_of_mem hmem) _ hk rfl

/-- **The new pairs are changes.** -/
theorem changed (h : Split m kept places ks values vs) (hnodup : places.Nodup) {p : κ × ν}
    (hp : p ∈ ks.zip vs) : p ∉ m := by
  intro hm
  obtain ⟨hk, hv⟩ := List.of_mem_zip hp
  refine h.notMem_kept hnodup hk ((h.mem_kept p).mpr ⟨hm, ?_, ?_⟩)
  · exact h.places.subset (List.mem_append_right _ hk)
  · exact h.values.subset (List.mem_append_right _ hv)

/-- **A pair that is no change stays.** -/
theorem mem_of_notMem_zip (h : Split m kept places ks values vs) {p : κ × ν}
    (hp : p ∈ kept ++ ks.zip vs) (hnot : p ∉ ks.zip vs) : p ∈ m :=
  ((h.mem_kept p).mp ((List.mem_append.mp hp).resolve_right hnot)).1

theorem nodup (h : Split m kept places ks values vs) (hnodup : places.Nodup) : ks.Nodup :=
  (List.nodup_append.mp (h.places.nodup_iff.mpr hnodup)).2.1

end Split

end Lib.Pairing
