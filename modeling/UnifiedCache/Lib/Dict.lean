import Mathlib.Data.List.Nodup

/-!
# Dictionaries

A dictionary that keeps the order of insertion, as the list of its pairs.
-/

namespace Lib.Dict

variable {κ α : Type*} [DecidableEq κ] {d : List (κ × α)} {k k' : κ} {v : α}

/-- `d.get(k)`. -/
def get? (d : List (κ × α)) (k : κ) : Option α := (d.find? fun p => p.1 = k).map Prod.snd

/-- `d[k] = v`: a key that is there keeps its place. -/
def set (d : List (κ × α)) (k : κ) (v : α) : List (κ × α) :=
  if k ∈ d.map Prod.fst then d.map fun p => if p.1 = k then (k, v) else p else d ++ [(k, v)]

/-- `{k: v for (k, v) in pairs}`. -/
def ofPairs (pairs : List (κ × α)) : List (κ × α) := pairs.foldl (fun d p => set d p.1 p.2) []

theorem set_of_notMem (h : k ∉ d.map Prod.fst) : set d k v = d ++ [(k, v)] := if_neg h

theorem foldl_set_of_nodup {pairs : List (κ × α)} (h : ((d ++ pairs).map Prod.fst).Nodup) :
    pairs.foldl (fun d p => set d p.1 p.2) d = d ++ pairs := by
  induction pairs generalizing d with
  | nil => rw [List.foldl_nil, List.append_nil]
  | cons p pairs ih =>
    have hnot : p.1 ∉ d.map Prod.fst := by
      rw [List.map_append, List.map_cons] at h
      exact fun hmem => (List.nodup_append.mp h).2.2 _ hmem _ List.mem_cons_self rfl
    rw [List.foldl_cons, set_of_notMem hnot, ih, List.append_assoc, List.singleton_append]
    rwa [List.append_assoc, List.singleton_append]

theorem ofPairs_of_nodup {pairs : List (κ × α)} (h : (pairs.map Prod.fst).Nodup) :
    ofPairs pairs = pairs := by
  have hall := foldl_set_of_nodup (d := []) (by rwa [List.nil_append])
  rwa [List.nil_append] at hall

theorem get?_eq_some_iff (h : (d.map Prod.fst).Nodup) : get? d k = some v ↔ (k, v) ∈ d := by
  unfold get?
  rw [Option.map_eq_some_iff]
  constructor
  · rintro ⟨p, hp, rfl⟩
    have hk := List.find?_some hp
    rw [decide_eq_true_eq] at hk
    rw [← hk]
    exact List.mem_of_find?_eq_some hp
  · intro hmem
    have hsome : (d.find? fun p => p.1 = k).isSome :=
      List.find?_isSome.mpr ⟨_, hmem, decide_eq_true rfl⟩
    obtain ⟨p, hp⟩ := Option.isSome_iff_exists.mp hsome
    have hk := List.find?_some hp
    rw [decide_eq_true_eq] at hk
    refine ⟨p, hp, ?_⟩
    have heq := List.inj_on_of_nodup_map h (List.mem_of_find?_eq_some hp) hmem hk
    rw [heq]

theorem get?_eq_none_iff : get? d k = none ↔ k ∉ d.map Prod.fst := by
  unfold get?
  rw [Option.map_eq_none_iff, List.find?_eq_none]
  refine ⟨fun h hmem => ?_, fun h p hp hk => h ?_⟩
  · obtain ⟨p, hp, rfl⟩ := List.mem_map.mp hmem
    exact h p hp (decide_eq_true rfl)
  · rw [← of_decide_eq_true hk]
    exact List.mem_map_of_mem hp

theorem exists_mapM {γ δ : Type} {f : γ → Option δ} {P : δ → Prop} {l : List γ}
    (h : ∀ x ∈ l, ∃ y, f x = some y ∧ P y) :
    ∃ ys, l.mapM f = some ys ∧ ys.length = l.length ∧ ∀ y ∈ ys, P y := by
  induction l with
  | nil => exact ⟨[], rfl, rfl, fun _ hy => absurd hy List.not_mem_nil⟩
  | cons x l ih =>
    obtain ⟨y, hy, hP⟩ := h x List.mem_cons_self
    obtain ⟨ys, hys, hlength, hall⟩ := ih fun x' hx' => h x' (List.mem_cons_of_mem _ hx')
    refine ⟨y :: ys, ?_, congrArg (· + 1) hlength, List.forall_mem_cons.mpr ⟨hP, hall⟩⟩
    rw [List.mapM_cons, hy, hys]
    rfl

theorem exists_mapM_map {γ δ ε : Type} {f : γ → Option δ} {g : γ → ε} {seen : δ → ε} {l : List γ}
    (h : ∀ x ∈ l, ∃ y, f x = some y ∧ seen y = g x) :
    ∃ ys, l.mapM f = some ys ∧ ys.map seen = l.map g := by
  induction l with
  | nil => exact ⟨[], rfl, rfl⟩
  | cons x l ih =>
    obtain ⟨y, hy, hg⟩ := h x List.mem_cons_self
    obtain ⟨ys, hys, hmap⟩ := ih fun x' hx' => h x' (List.mem_cons_of_mem _ hx')
    refine ⟨y :: ys, ?_, by rw [List.map_cons, List.map_cons, hg, hmap]⟩
    rw [List.mapM_cons, hy, hys]
    rfl

theorem map_eq_of_mapM {γ δ : Type} {f : γ → Option δ} {l : List γ} {ys : List δ}
    (h : l.mapM f = some ys) : l.map f = ys.map some := by
  induction l generalizing ys with
  | nil =>
    rw [List.mapM_nil] at h
    obtain rfl := Option.some.inj h
    rfl
  | cons x l ih =>
    rw [List.mapM_cons] at h
    obtain ⟨y, hy, h⟩ := Option.bind_eq_some_iff.mp h
    obtain ⟨ys, hys, h⟩ := Option.bind_eq_some_iff.mp h
    obtain rfl := Option.some.inj h
    rw [List.map_cons, List.map_cons, hy, ih hys]

theorem nodup_mapM {γ δ : Type} {f : γ → Option δ} {l : List γ} {ys : List δ} (hl : l.Nodup)
    (hinj : ∀ x ∈ l, ∀ x' ∈ l, f x = f x' → x = x') (h : l.mapM f = some ys) : ys.Nodup := by
  refine List.Nodup.of_map some ?_
  rw [← map_eq_of_mapM h]
  exact List.Nodup.map_on hinj hl

end Lib.Dict
