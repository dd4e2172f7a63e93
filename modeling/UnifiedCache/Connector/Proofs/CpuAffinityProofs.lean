import UnifiedCache.Connector.CpuAffinity
import UnifiedCache.Lib.Shares
import Mathlib.Data.List.Range
import Mathlib.Tactic.Common

/-!
# Lists of CPUs go there and back

The printed parts are the runs of the sorted ids, and a printed run is parsed as its range. So `split_cores`
finds the ids that were printed, and every run starts with a core for the worker.
-/

open Lib

namespace UnifiedCache.Connector.CpuAffinity

/-! ## Runs -/

theorem mem_sortedSet {c : Nat} {cores : List Nat} : c ∈ sortedSet cores ↔ c ∈ cores := by
  unfold sortedSet
  rw [List.mem_insertionSort, List.mem_dedup]

theorem sortedSet_pairwise (cores : List Nat) : (sortedSet cores).Pairwise (· < ·) := by
  have hsorted : (sortedSet cores).Pairwise (· ≤ ·) := List.pairwise_insertionSort _ _
  have hnodup : (sortedSet cores).Nodup :=
    (List.perm_insertionSort _ _).nodup_iff.mpr (List.nodup_dedup cores)
  exact hsorted.imp₂ (fun _ _ hle hne => Nat.lt_of_le_of_ne hle hne) hnodup

/-- The ids of a run. -/
def run (p : Nat × Nat) : List Nat := List.range' p.1 (p.2 + 1 - p.1)

/-- The runs of sorted ids, where the first goes from `s` to `e` so far. -/
def runs (s e : Nat) : List Nat → List (Nat × Nat)
  | [] => [(s, e)]
  | c :: cores => if c = e + 1 then runs s c cores else (s, e) :: runs c c cores

variable {s e c : Nat} {cores : List Nat} {p : Nat × Nat}

theorem cpulistParts_eq (s e : Nat) (cores : List Nat) :
    cpulistParts s e cores = (runs s e cores).map fun p => partStr p.1 p.2 := by
  induction cores generalizing s e with
  | nil => rfl
  | cons c cores ih =>
    unfold cpulistParts runs
    split
    · exact ih s c
    · rw [List.map_cons, ih c c]

theorem runs_ne_nil (s e : Nat) (cores : List Nat) : runs s e cores ≠ [] := by
  induction cores generalizing s e with
  | nil => simp [runs]
  | cons c cores ih =>
    unfold runs
    split
    · exact ih s c
    · simp

theorem runs_le (hle : s ≤ e) (hsorted : (e :: cores).Pairwise (· < ·)) (hp : p ∈ runs s e cores) :
    p.1 ≤ p.2 := by
  induction cores generalizing s e with
  | nil =>
    rw [List.mem_singleton.mp hp]
    exact hle
  | cons c cores ih =>
    have hlt : e < c := List.rel_of_pairwise_cons hsorted List.mem_cons_self
    unfold runs at hp
    split at hp
    · exact ih (by omega) hsorted.of_cons hp
    · rcases List.mem_cons.mp hp with rfl | hp
      · exact hle
      · exact ih (Nat.le_refl c) hsorted.of_cons hp

theorem flatMap_runs (hle : s ≤ e) (hsorted : (e :: cores).Pairwise (· < ·)) :
    (runs s e cores).flatMap run = run (s, e) ++ cores := by
  induction cores generalizing s e with
  | nil => simp [runs]
  | cons c cores ih =>
    have hlt : e < c := List.rel_of_pairwise_cons hsorted List.mem_cons_self
    unfold runs
    split
    · rename_i hnext
      rw [ih (by omega) hsorted.of_cons]
      have hrun : run (s, c) = run (s, e) ++ [c] := by
        unfold run
        rw [show c + 1 - s = e + 1 - s + 1 by omega, List.range'_concat]
        simp
        omega
      rw [hrun, List.append_assoc, List.singleton_append]
    · rw [List.flatMap_cons, ih (Nat.le_refl c) hsorted.of_cons]
      simp [run]

theorem eq_start_of_mem_run (hc : c ∈ run p) (hpred : ∀ c' ∈ run p, c' + 1 ≠ c) : c = p.1 := by
  unfold run at hc hpred
  rw [List.mem_range'_1] at hc
  by_contra hne
  refine hpred (c - 1) ?_ (by omega)
  rw [List.mem_range'_1]
  omega

/-! ## Parts -/

theorem isDigit_of_mem_toDigits {n : Nat} {x : Char} (hx : x ∈ Nat.toDigits 10 n) :
    x.isDigit = true :=
  Nat.isDigit_of_mem_toDigits (by decide) (by decide) hx

theorem isSpace_of_isDigit {x : Char} (hx : x.isDigit = true) : isSpace x = false := by
  simp only [Char.isDigit, Bool.and_eq_true, decide_eq_true_eq] at hx
  have h48 : 48 ≤ x.toNat := by simpa using UInt32.le_iff_toNat_le.mp hx.1
  simp only [isSpace, Bool.or_eq_false_iff, Bool.and_eq_false_iff, decide_eq_false_iff_not]
  omega

theorem strip_of_forall {str : Str} (h : ∀ x ∈ str, isSpace x = false) : strip str = str := by
  have hdrop : ∀ l : Str, (∀ x ∈ l, isSpace x = false) → l.dropWhile isSpace = l := by
    intro l hl
    cases l with
    | nil => rfl
    | cons x l => exact List.dropWhile_cons_of_neg (by simp [hl x])
  unfold strip
  rw [hdrop str h, hdrop str.reverse fun x hx => h x (List.mem_reverse.mp hx), List.reverse_reverse]

theorem digits_toDigits (n : Nat) : digits (Nat.toDigits 10 n) = some n := by
  have hgroup : (Nat.toDigits 10 n).splitOn '_' = [Nat.toDigits 10 n] :=
    List.splitOn_eq_singleton Nat.underscore_not_in_toDigits
  have hall : (Nat.toDigits 10 n).all Char.isDigit = true :=
    List.all_eq_true.mpr fun x hx => isDigit_of_mem_toDigits hx
  unfold digits
  simp [hgroup, hall, Nat.toDigits_ne_nil, Nat.ofDigitChars_toDigits]

theorem toInt_toDigits (n : Nat) : toInt (Nat.toDigits 10 n) = some (n : Int) := by
  have hstrip : strip (Nat.toDigits 10 n) = Nat.toDigits 10 n :=
    strip_of_forall fun x hx => isSpace_of_isDigit (isDigit_of_mem_toDigits hx)
  have hdigits := digits_toDigits n
  have hhead : ∀ x ∈ Nat.toDigits 10 n, x ≠ '-' ∧ x ≠ '+' := by
    intro x hx
    have hdigit := isDigit_of_mem_toDigits hx
    constructor
    · rintro rfl
      exact absurd hdigit (by decide)
    · rintro rfl
      exact absurd hdigit (by decide)
  unfold toInt
  rw [hstrip]
  split
  · rename_i heq
    exact absurd rfl (hhead '-' (by rw [heq]; exact List.mem_cons_self)).1
  · rename_i heq
    exact absurd rfl (hhead '+' (by rw [heq]; exact List.mem_cons_self)).2
  · rw [hdigits]
    rfl

theorem mem_partStr {x : Char} (hx : x ∈ partStr s e) : x.isDigit = true ∨ x = '-' := by
  unfold partStr at hx
  split at hx
  · rcases List.mem_append.mp hx with hx | hx
    · exact .inl (isDigit_of_mem_toDigits hx)
    · rcases List.mem_cons.mp hx with rfl | hx
      · exact .inr rfl
      · exact .inl (isDigit_of_mem_toDigits hx)
  · exact .inl (isDigit_of_mem_toDigits hx)

theorem partStr_ne_nil (s e : Nat) : partStr s e ≠ [] := by
  unfold partStr
  split
  · simp
  · exact Nat.toDigits_ne_nil

theorem strip_partStr (s e : Nat) : strip (partStr s e) = partStr s e := by
  refine strip_of_forall fun x hx => ?_
  rcases mem_partStr hx with hx | rfl
  · exact isSpace_of_isDigit hx
  · decide

theorem closedRange_natCast (a b : Nat) :
    closedRange a b = (run (a, b)).map fun c : Nat => (c : Int) := by
  unfold closedRange run
  rw [List.range'_eq_map_range, List.map_map, show ((b : Int) + 1 - a).toNat = b + 1 - a by omega]
  refine List.map_congr_left fun i _ => ?_
  simp

/-- **A printed run is parsed as its ids.** -/
theorem parseSegment_partStr (h : s ≤ e) :
    parseSegment (partStr s e) = some ((run (s, e)).map fun c : Nat => (c : Int)) := by
  have hnot : ∀ n, '-' ∉ Nat.toDigits 10 n :=
    fun n hmem => absurd (isDigit_of_mem_toDigits hmem) (by decide)
  unfold parseSegment partStr
  rcases Nat.eq_or_lt_of_le h with rfl | hlt
  · rw [if_neg (not_not.mpr rfl), if_neg (hnot s), toInt_toDigits]
    simp [run]
  · have hmem : '-' ∈ Nat.toDigits 10 s ++ '-' :: Nat.toDigits 10 e := by simp
    have hall : ∀ x ∈ Nat.toDigits 10 s, decide (x ≠ '-') = true := by
      intro x hx
      refine decide_eq_true fun heq => hnot s ?_
      rw [← heq]
      exact hx
    have htake : (Nat.toDigits 10 s ++ '-' :: Nat.toDigits 10 e).takeWhile (· ≠ '-') =
        Nat.toDigits 10 s := by
      rw [List.takeWhile_append_of_pos hall]
      simp
    have hdrop : ((Nat.toDigits 10 s ++ '-' :: Nat.toDigits 10 e).dropWhile (· ≠ '-')).drop 1 =
        Nat.toDigits 10 e := by
      rw [List.dropWhile_append_of_pos hall]
      simp
    rw [if_pos (Nat.ne_of_lt hlt), if_pos hmem, htake, hdrop, toInt_toDigits, toInt_toDigits]
    show (if (s : Int) > e then some _ else some (closedRange s e)) = _
    rw [if_neg (by omega), closedRange_natCast]

/-! ## The round trip -/

/-- The cores of the worker of these segments. -/
def workerPart (segs : List (List Int)) : List Int := segs.flatMap fun seg => seg.take (middle seg)

/-- The cores of the store of these segments. -/
def storePart (segs : List (List Int)) : List Int := segs.flatMap fun seg => seg.drop (middle seg)

variable {segs : List (List Int)}

theorem splitLoop_eq {parts : List Str} {w st : List Int}
    (h : (parts.map strip |>.filter (· ≠ [])).mapM parseSegment = some segs) :
    splitLoop parts w st = some (w ++ workerPart segs, st ++ storePart segs) := by
  induction parts generalizing segs w st with
  | nil =>
    cases h
    simp [splitLoop, workerPart, storePart]
  | cons part parts ih =>
    unfold splitLoop
    rw [List.map_cons] at h
    by_cases hpart : strip part = []
    · rw [List.filter_cons_of_neg (by simp [hpart])] at h
      rw [if_pos hpart]
      exact ih h
    · rw [List.filter_cons_of_pos (by simp [hpart]), List.mapM_cons] at h
      obtain ⟨seg, hseg, h⟩ := Option.bind_eq_some_iff.mp h
      obtain ⟨rest, hrest, h⟩ := Option.bind_eq_some_iff.mp h
      cases h
      rw [if_neg hpart, hseg]
      show splitLoop parts (w ++ seg.take (middle seg)) (st ++ seg.drop (middle seg)) = _
      rw [ih hrest]
      simp [workerPart, storePart]

theorem perm_workerPart_storePart (segs : List (List Int)) :
    (workerPart segs ++ storePart segs).Perm segs.flatten := by
  induction segs with
  | nil => exact List.Perm.refl _
  | cons seg segs ih =>
    unfold workerPart storePart at ih ⊢
    rw [List.flatMap_cons, List.flatMap_cons, List.flatten_cons]
    calc seg.take (middle seg) ++ segs.flatMap (fun seg => seg.take (middle seg)) ++
          (seg.drop (middle seg) ++ segs.flatMap fun seg => seg.drop (middle seg))
        _ = seg.take (middle seg) ++ (segs.flatMap (fun seg => seg.take (middle seg)) ++
              seg.drop (middle seg) ++ segs.flatMap fun seg => seg.drop (middle seg)) := by simp
        _ |>.Perm (seg.take (middle seg) ++ (seg.drop (middle seg) ++
              segs.flatMap (fun seg => seg.take (middle seg)) ++
              segs.flatMap fun seg => seg.drop (middle seg))) :=
            (List.perm_append_comm.append_right _).append_left _
        _ = seg ++ (segs.flatMap (fun seg => seg.take (middle seg)) ++
              segs.flatMap fun seg => seg.drop (middle seg)) := by
            rw [List.append_assoc (seg.drop _), ← List.append_assoc, List.take_append_drop]
        _ |>.Perm (seg ++ segs.flatten) := ih.append_left seg

theorem head_mem_workerPart {c : Int} {rest : List Int} (h : c :: rest ∈ segs) :
    c ∈ workerPart segs := by
  refine List.mem_flatMap.mpr ⟨_, h, ?_⟩
  have hpos : 0 < middle (c :: rest) := by
    unfold middle
    omega
  obtain ⟨m, hm⟩ := Nat.exists_eq_succ_of_ne_zero (Nat.ne_of_gt hpos)
  rw [hm]
  exact List.mem_cons_self

/-- The ids of the runs, as they are parsed. -/
def parsedRuns (s : Nat) (cores : List Nat) : List (List Int) :=
  (runs s s cores).map fun p => (run p).map fun c : Nat => (c : Int)

theorem flatten_parsedRuns (hsorted : (s :: cores).Pairwise (· < ·)) :
    (parsedRuns s cores).flatten = (s :: cores).map fun c : Nat => (c : Int) := by
  have hruns := flatMap_runs (Nat.le_refl s) hsorted
  have hrun : run (s, s) = [s] := by simp [run]
  rw [hrun] at hruns
  unfold parsedRuns
  rw [← List.flatMap_def, ← List.map_flatMap, hruns]
  rfl

/-- **What is printed is parsed as its runs.** -/
theorem parseSegments_cpulistParts (hsorted : (s :: cores).Pairwise (· < ·)) :
    parseSegments ([','].intercalate (cpulistParts s s cores)) = some (parsedRuns s cores) := by
  have hcomma : ∀ part ∈ cpulistParts s s cores, ',' ∉ part := by
    intro part hpart hmem
    rw [cpulistParts_eq] at hpart
    obtain ⟨p, -, rfl⟩ := List.mem_map.mp hpart
    rcases mem_partStr hmem with h | h
    · exact absurd h (by decide)
    · exact absurd h (by decide)
  have hne : cpulistParts s s cores ≠ [] := by
    rw [cpulistParts_eq]
    simp [runs_ne_nil]
  unfold parseSegments
  rw [List.splitOn_intercalate ',' hcomma hne, cpulistParts_eq, List.map_map]
  have hstrip : (runs s s cores).map (strip ∘ fun p => partStr p.1 p.2) =
      (runs s s cores).map fun p => partStr p.1 p.2 :=
    List.map_congr_left fun p _ => strip_partStr p.1 p.2
  have hfilter : ((runs s s cores).map fun p => partStr p.1 p.2).filter (· ≠ []) =
      (runs s s cores).map fun p => partStr p.1 p.2 := by
    refine List.filter_eq_self.mpr fun part hpart => ?_
    obtain ⟨p, -, rfl⟩ := List.mem_map.mp hpart
    exact decide_eq_true (partStr_ne_nil p.1 p.2)
  rw [hstrip, hfilter]
  have hle : ∀ p ∈ runs s s cores, p.1 ≤ p.2 := fun p hp => runs_le (Nat.le_refl s) hsorted hp
  unfold parsedRuns
  generalize runs s s cores = ps at hle
  induction ps with
  | nil => rfl
  | cons p ps ih =>
    rw [List.map_cons, List.mapM_cons, parseSegment_partStr (hle p List.mem_cons_self),
      ih fun p' hp' => hle p' (List.mem_cons_of_mem p hp')]
    rfl

theorem start_mem_workerPart (hsorted : (s :: cores).Pairwise (· < ·)) (hc : c ∈ s :: cores)
    (hpred : ∀ c' ∈ s :: cores, c' + 1 ≠ c) : (c : Int) ∈ workerPart (parsedRuns s cores) := by
  have hruns := flatMap_runs (Nat.le_refl s) hsorted
  have hrun : run (s, s) = [s] := by simp [run]
  rw [hrun, List.singleton_append] at hruns
  rw [← hruns] at hc hpred
  obtain ⟨p, hp, hcp⟩ := List.mem_flatMap.mp hc
  have hstart : c = p.1 :=
    eq_start_of_mem_run hcp fun c' hc' => hpred c' (List.mem_flatMap.mpr ⟨p, hp, hc'⟩)
  have hle := runs_le (Nat.le_refl s) hsorted hp
  have hhead : run p = c :: List.range' (c + 1) (p.2 - p.1) := by
    unfold run
    rw [show p.2 + 1 - p.1 = p.2 - p.1 + 1 by omega, List.range'_succ, hstart]
  have hmem : (run p).map (fun c : Nat => (c : Int)) ∈ parsedRuns s cores := List.mem_map.mpr ⟨p, hp, rfl⟩
  rw [hhead, List.map_cons] at hmem
  exact head_mem_workerPart hmem

/-- **The split of a parsed string**, if the worker gets a core at all. -/
theorem splitCores_eq {str : Str} (h : parseSegments str = some segs)
    (hworker : workerPart segs ≠ []) (allowed : List Nat) :
    splitCores (some str) allowed = (workerPart segs, storePart segs) := by
  have hstr : str ≠ [] := by
    rintro rfl
    cases h
    exact hworker rfl
  have hloop : splitLoop (str.splitOn ',') [] [] = some (workerPart segs, storePart segs) :=
    splitLoop_eq h
  obtain ⟨x, str, rfl⟩ := List.exists_cons_of_ne_nil hstr
  obtain ⟨c, worker, hcons⟩ := List.exists_cons_of_ne_nil hworker
  unfold splitCores
  rw [hcons] at hloop
  simp only [hloop, hcons]

theorem parts_spec {ids : List Int} (h : segs.flatten = ids) (hnodup : ids.Nodup) :
    (workerPart segs).Disjoint (storePart segs) ∧
      ∀ c, c ∈ workerPart segs ∨ c ∈ storePart segs ↔ c ∈ ids := by
  have hperm := perm_workerPart_storePart segs
  rw [h] at hperm
  constructor
  · exact List.disjoint_of_nodup_append (hperm.nodup_iff.mpr hnodup)
  · intro c
    rw [← List.mem_append]
    exact hperm.mem_iff

/-! ## Slices -/

theorem fallbackCpuAffinity_eq {allowed : List Nat} {d r : Nat} (hr : r < d) :
    fallbackCpuAffinity allowed d r =
      if fallbackSlice (sortedSet allowed) d r = [] then none
      else toCpulistStr (fallbackSlice (sortedSet allowed) d r) := by
  unfold fallbackCpuAffinity
  dsimp only
  rw [if_neg (show ¬ ((d : Int) ≤ 0 ∨ (r : Int) < 0 ∨ (r : Int) ≥ d) by omega), Int.toNat_natCast,
    Int.toNat_natCast]
  split
  · rename_i hnil
    rw [hnil]
    simp [fallbackSlice]
  · rfl

/-- **CPU lists survive the round trip.** The string that is printed for some CPUs is parsed as their ids in
order. The worker and the store get disjoint cores, which are all of them, and the worker gets the first core
of every contiguous segment. The slices of the ranks follow one another, make up the allowed CPUs and are of
even sizes. -/
theorem cpulist_round_trip :
    (∀ cores allowed : List Nat, cores ≠ [] →
      ∃ ids : List Nat, ids.Pairwise (· < ·) ∧ (∀ c, c ∈ ids ↔ c ∈ cores) ∧
      ∃ str segs, toCpulistStr cores = some str ∧ parseSegments str = some segs ∧
        segs.flatten = ids.map (fun c : Nat => (c : Int)) ∧
      ∃ worker store, splitCores (some str) allowed = (worker, store) ∧
        worker.Disjoint store ∧
        (∀ c, c ∈ worker ∨ c ∈ store ↔ ∃ c' ∈ cores, c = (c' : Int)) ∧
        ∀ c ∈ cores, (∀ c' ∈ cores, c' + 1 ≠ c) → (c : Int) ∈ worker) ∧
    ∀ (allowed : List Nat) (d : Nat), 0 < d →
      ∃ ids : List Nat, ids.Pairwise (· < ·) ∧ (∀ c, c ∈ ids ↔ c ∈ allowed) ∧
        (slices ids d).flatten = ids ∧ (slices ids d).Pairwise List.Disjoint ∧
        (∀ s ∈ slices ids d, ∀ s' ∈ slices ids d, s.length ≤ s'.length + 1) ∧
        ∀ r < d, fallbackCpuAffinity allowed d r =
          if fallbackSlice ids d r = [] then none else toCpulistStr (fallbackSlice ids d r) := by
  constructor
  · intro cores allowed hne
    refine ⟨sortedSet cores, sortedSet_pairwise cores, fun c => mem_sortedSet, ?_⟩
    have hsorted := sortedSet_pairwise cores
    have hmem : ∀ c, c ∈ sortedSet cores ↔ c ∈ cores := fun c => mem_sortedSet
    unfold toCpulistStr
    rcases hids : sortedSet cores with _ | ⟨s, rest⟩
    · obtain ⟨c, hc⟩ := List.exists_mem_of_ne_nil cores hne
      have := (hmem c).mpr hc
      rw [hids] at this
      cases this
    rw [hids] at hsorted hmem
    have hparse := parseSegments_cpulistParts hsorted
    have hflat := flatten_parsedRuns hsorted
    have hcast : Function.Injective fun c : Nat => (c : Int) := fun a b hab => Int.ofNat.inj hab
    have hnodup : ((s :: rest).map fun c : Nat => (c : Int)).Nodup :=
      List.Nodup.map hcast (hsorted.imp Nat.ne_of_lt)
    obtain ⟨hdisjoint, hall⟩ := parts_spec hflat hnodup
    have hfirst : (s : Int) ∈ workerPart (parsedRuns s rest) := by
      refine start_mem_workerPart hsorted List.mem_cons_self fun c' hc' => ?_
      rcases List.mem_cons.mp hc' with rfl | hc'
      · omega
      · have := List.rel_of_pairwise_cons hsorted hc'
        omega
    refine ⟨_, _, rfl, hparse, hflat, workerPart (parsedRuns s rest), storePart (parsedRuns s rest),
      splitCores_eq hparse (List.ne_nil_of_mem hfirst) allowed, hdisjoint, ?_, ?_⟩
    · intro c
      rw [hall, List.mem_map]
      constructor
      · rintro ⟨c', hc', rfl⟩
        exact ⟨c', (hmem c').mp hc', rfl⟩
      · rintro ⟨c', hc', rfl⟩
        exact ⟨c', (hmem c').mpr hc', rfl⟩
    · intro c hc hpred
      refine start_mem_workerPart hsorted ((hmem c).mpr hc) fun c' hc' => ?_
      exact hpred c' ((hmem c').mp hc')
  · intro allowed d hd
    have hflat : (slices (sortedSet allowed) d).flatten = sortedSet allowed :=
      Shares.flatten_parts (sortedSet allowed) hd
    have hnodup : (slices (sortedSet allowed) d).flatten.Nodup := by
      rw [hflat]
      exact (sortedSet_pairwise allowed).imp Nat.ne_of_lt
    refine ⟨sortedSet allowed, sortedSet_pairwise allowed, fun c => mem_sortedSet, hflat, ?_, ?_, ?_⟩
    · exact (List.nodup_flatten.mp hnodup).2
    · intro s hs s' hs'
      exact Shares.length_parts_le hs hs'
    · intro r hr
      exact fallbackCpuAffinity_eq hr

theorem cpulist_round_trip_three :
    (∃ ids : List Nat, ids.Pairwise (· < ·) ∧ (∀ c, c ∈ ids ↔ c ∈ [5, 3, 4, 4]) ∧
      ∃ str, toCpulistStr [5, 3, 4, 4] = some str) ∧
    ∃ ids : List Nat, ids.Pairwise (· < ·) ∧ (∀ c, c ∈ ids ↔ c ∈ [8, 2, 3, 9, 4]) ∧
      (slices ids 2).flatten = ids ∧
      ∀ r : Nat, r < 2 → fallbackCpuAffinity [8, 2, 3, 9, 4] 2 r =
        if fallbackSlice ids 2 r = [] then none else toCpulistStr (fallbackSlice ids 2 r) := by
  obtain ⟨ids, hsorted, hmem, str, -, hstr, -⟩ := cpulist_round_trip.1 [5, 3, 4, 4] [] (by decide)
  obtain ⟨allowed, hallowed, hsame, hflat, -, -, hslice⟩ :=
    cpulist_round_trip.2 [8, 2, 3, 9, 4] 2 (by decide)
  exact ⟨⟨ids, hsorted, hmem, str, hstr⟩, allowed, hallowed, hsame, hflat, hslice⟩

example : toCpulistStr [5, 3, 4, 4, 9] = some "3-5,9".toList := by decide

end UnifiedCache.Connector.CpuAffinity
