import UnifiedCache.Cache.Proofs.BufferManagerProofs

/-!
# Proofs: a lookup of the cache finds the union

With a backend that answers exactly, `LookupFast` marks the blocks that are in the buffer or in the
backend, and `LookupOnPrefixFast` is the longest prefix of such blocks. The buffer is the upper layer and
the backend the lower one; `missIdx` holds the places of what the upper layer misses.
-/

open Lib

namespace UnifiedCache.Cache

namespace BufferManager

variable {cfg : BufferConfig} {present : BlockId → Bool} {backend : Backend}
  {blocks : List (BlockId × TransBuffer)}

theorem lookupLoop_missesFrom : lookupLoop cfg 0 blocks ⟨[], [], []⟩ =
    ⟨blocks.map (hit cfg), (missesFrom (hit cfg) 0 blocks).map (·.1.1),
      (missesFrom (hit cfg) 0 blocks).map (·.2)⟩ := lookupLoop_eq 0 _

theorem lookupFast_eq_found (h : backend.Exact present) :
    lookupFast cfg backend blocks = some (blocks.map (found cfg present)) := by
  have hscatter := @scatter_missesFrom _ (hit cfg) (fun x => present x.1) blocks 0 [] rfl
  rw [List.nil_append, List.nil_append] at hscatter
  simp only [lookupFast, lookupLoop_missesFrom]
  split_ifs with hempty
  · rw [List.isEmpty_iff, List.map_eq_nil_iff] at hempty
    rw [hempty] at hscatter
    exact congrArg some hscatter
  · rw [h.lookup, Option.map_some, List.map_map]
    exact congrArg some hscatter

theorem prefixEnd_misses : prefixEnd present ((missesFrom (hit cfg) 0 blocks).map (·.1.1)) + 1 =
    (((missesFrom (hit cfg) 0 blocks).takeWhile fun x => present x.1.1).length : Int) := by
  rw [prefixEnd_add_one, List.takeWhile_map, List.length_map]
  rfl

theorem lookupOnPrefixFast_eq_found (h : backend.Exact present) :
    lookupOnPrefixFast cfg backend blocks = some (prefixEnd (found cfg present) blocks) := by
  have hunion := @takeWhile_union_length _ (hit cfg) (fun x => present x.1) blocks 0
  rw [Nat.add_zero, Nat.add_zero] at hunion
  have hlength : (blocks.takeWhile (found cfg present)).length = _ := hunion
  simp only [lookupOnPrefixFast, lookupLoop_missesFrom]
  split_ifs with hempty
  · rw [List.isEmpty_iff, List.map_eq_nil_iff] at hempty
    rw [prefixEnd, hlength, hempty]
    rfl
  · rw [h.lookupOnPrefix, Option.map_some, prefixEnd_misses, Int.toNat_natCast, prefixEnd, hlength,
      List.length_map, List.getD_eq_getElem?_getD, List.getElem?_map]
    split_ifs with hall
    · rw [hall, List.getElem?_eq_none (Nat.le_refl _)]
      rfl
    · have hlt := Nat.lt_of_le_of_ne (List.takeWhile_sublist _).length_le hall
      rw [List.getElem?_eq_getElem hlt]
      rfl

theorem missIdx_inRange (h : backend.Exact present) {result : Int}
    (hres : backend.lookupOnPrefix (lookupLoop cfg 0 blocks ⟨[], [], []⟩).missBlk = some result)
    (hne : (result + 1).toNat ≠ (lookupLoop cfg 0 blocks ⟨[], [], []⟩).missIdx.length) :
    0 ≤ result + 1 ∧
      (result + 1).toNat < (lookupLoop cfg 0 blocks ⟨[], [], []⟩).missIdx.length := by
  rw [lookupLoop_missesFrom] at hres hne ⊢
  rw [h.lookupOnPrefix, Option.some.injEq] at hres
  subst hres
  rw [prefixEnd_misses, Int.toNat_natCast, List.length_map] at hne ⊢
  exact ⟨Int.natCast_nonneg _, Nat.lt_of_le_of_ne (List.takeWhile_sublist _).length_le hne⟩

/-- **Lookups refine the union of cache and backend.** With a backend that answers exactly,
`LookupFast` marks the blocks that the buffer or the backend has, `LookupOnPrefixFast` returns the end
of the longest prefix of such blocks, which is the place before the first zero of `LookupFast`, and
`missIdx` is only read within its bounds. -/
theorem lookup_refines_union (cfg : BufferConfig) (present : BlockId → Bool) (backend : Backend)
    (h : backend.Exact present) (blocks : List (BlockId × TransBuffer)) :
    lookupFast cfg backend blocks = some (blocks.map (found cfg present)) ∧
      lookupOnPrefixFast cfg backend blocks = some (prefixEnd (found cfg present) blocks) ∧
      prefixEnd (found cfg present) blocks + 1 =
        ((blocks.map (found cfg present)).findIdx (!·) : Int) ∧
      ∀ result, backend.lookupOnPrefix (lookupLoop cfg 0 blocks ⟨[], [], []⟩).missBlk = some result →
        (result + 1).toNat ≠ (lookupLoop cfg 0 blocks ⟨[], [], []⟩).missIdx.length →
        0 ≤ result + 1 ∧
          (result + 1).toNat < (lookupLoop cfg 0 blocks ⟨[], [], []⟩).missIdx.length :=
  ⟨lookupFast_eq_found h, lookupOnPrefixFast_eq_found h, prefixEnd_findIdx _ _,
    fun _ hres hne => missIdx_inRange h hres hne⟩

/-- The buffer after a task has got a node for block 6. -/
def holdsSix : TransBuffer := (TransBuffer.setup.get Config.small.buffer 6 0 true [true]).2

/-- The backend has block 5, the buffer block 6, and nobody block 7. -/
theorem lookup_refines_union_three :
    let backend : Backend := ⟨fun blocks => some (blocks.map (· == 5)),
      fun blocks => some (prefixEnd (· == 5) blocks)⟩
    let blocks := [(5, holdsSix), (6, holdsSix), (7, holdsSix)]
    lookupFast Config.small.buffer backend blocks = some [true, true, false] ∧
      lookupOnPrefixFast Config.small.buffer backend blocks = some 1 :=
  have h := lookup_refines_union Config.small.buffer (· == 5)
    ⟨fun blocks => some (blocks.map (· == 5)), fun blocks => some (prefixEnd (· == 5) blocks)⟩
    ⟨fun _ => rfl, fun _ => rfl⟩ [(5, holdsSix), (6, holdsSix), (7, holdsSix)]
  ⟨h.1.trans (by decide +kernel), h.2.1.trans (by decide +kernel)⟩

end BufferManager

end UnifiedCache.Cache
