import UnifiedCache.Lib.BlockCache
import UnifiedCache.Lib.Pairing

/-!
# Swap areas

A swap area is a set of places of a cache, with a record of what they hold. In a round other values are
wanted. The pairs that are new are loaded, and the record is changed to match.
-/

namespace Lib.SwapArea

open Lib.BlockCache Lib.Pairing

variable {κ ν β : Type*} {record record' loads : List (κ × ν)} {places : List κ} {values : List ν}
  {data : ν → β} {cache cache' : κ → β}

/-- Every place has the contents of its value. -/
def Holds (data : ν → β) (record : List (κ × ν)) (cache : κ → β) : Prop :=
  ∀ p ∈ record, cache p.1 = data p.2

/-- What a round does: the new record pairs the places with the values that are wanted, and the pairs
that the old one does not have are loaded. -/
structure Round (places : List κ) (values : List ν) (record record' loads : List (κ × ν)) : Prop where
  oneToOne : OneToOne record' places values
  loads_iff : ∀ p, p ∈ loads ↔ p ∈ record' ∧ p ∉ record
  nodup : (loads.map Prod.fst).Nodup

theorem holds_nil : Holds data [] cache := fun _ h => absurd h List.not_mem_nil

theorem Holds.congr (h : Holds data record cache) (heq : ∀ p ∈ record, cache' p.1 = cache p.1) :
    Holds data record cache' := fun p hp => (heq p hp).trans (h p hp)

theorem round_of_split {kept : List (κ × ν)} {ks : List κ} {vs : List ν}
    (h : Split record kept places ks values vs) (hplaces : places.Nodup)
    (hlength : places.length = values.length) :
    Round places values record (kept ++ ks.zip vs) (ks.zip vs) where
  oneToOne := h.oneToOne hlength
  loads_iff p := by
    constructor
    · exact fun hp => ⟨List.mem_append_right _ hp, h.changed hplaces hp⟩
    · rintro ⟨hp, hnot⟩
      by_contra hout
      exact hnot (h.mem_of_notMem_zip hp hout)
  nodup := by
    rw [List.map_fst_zip (Nat.le_of_eq (h.length_eq hlength))]
    exact h.nodup hplaces

namespace Round

theorem nodup_fst (h : Round places values record record' loads) (hplaces : places.Nodup) :
    (record'.map Prod.fst).Nodup :=
  h.oneToOne.places.nodup_iff.mpr hplaces

theorem nodup_snd (h : Round places values record record' loads) (hvalues : values.Nodup) :
    (record'.map Prod.snd).Nodup :=
  h.oneToOne.values.nodup_iff.mpr hvalues

theorem perm_of_nil (h : Round places values [] record' loads) (hplaces : places.Nodup) :
    (loads.map Prod.fst).Perm places := by
  refine List.Perm.trans ?_ h.oneToOne.places
  refine (List.perm_ext_iff_of_nodup h.nodup (h.nodup_fst hplaces)).mpr fun k => ?_
  rw [List.mem_map, List.mem_map]
  refine exists_congr fun p => and_congr_left fun _ => ?_
  rw [h.loads_iff p]
  exact and_iff_left List.not_mem_nil

/-- **After the loads every place holds its value.** -/
theorem holds [DecidableEq κ] (h : Round places values record record' loads)
    (hplaces : places.Nodup) (hholds : Holds data record cache) :
    Holds data record' (writeAll cache (loads.map Prod.fst) (loads.map fun p => data p.2)) := by
  intro p hp
  by_cases hload : p ∈ loads
  · refine writeAll_of_mem_zip h.nodup (by rw [List.length_map, List.length_map]) ?_
    rw [List.zip_map']
    exact List.mem_map_of_mem hload
  · have hold : p ∈ record := by
      by_contra hnot
      exact hload ((h.loads_iff p).mpr ⟨hp, hnot⟩)
    have hnot : p.1 ∉ loads.map Prod.fst := by
      intro hmem
      obtain ⟨q, hq, hfst⟩ := List.mem_map.mp hmem
      have hq' := ((h.loads_iff q).mp hq).1
      exact hload (List.inj_on_of_nodup_map (h.nodup_fst hplaces) hq' hp hfst ▸ hq)
    rw [writeAll_of_notMem hnot]
    exact hholds p hold

end Round

end Lib.SwapArea
