import UnifiedCache.Detail.TaskManager
import UnifiedCache.Lib.Shares
import Mathlib.Data.List.Perm.Basic

/-!
# Splitting a task

`Split` cuts the shards into even parts and gives the last shard of every part the callback. So the counter
of a waiter is the number of callbacks that are still to come, and it gets to zero with the last shard of
its task. A task without shards divides by zero.
-/

open Function Lib

namespace UnifiedCache.Detail

/-! ## Split -/

namespace Task

variable {t : Task} {n id : Nat} {l : List Shard}

/-- A list whose last shard has the callback. -/
def closeLast (id : Nat) (l : List Shard) : List Shard :=
  l.dropLast ++ l.getLast?.toList.map fun s => { s with done := some id }

theorem setDone_eq (hl : l ≠ []) : setDone id l = some (closeLast id l) := by
  unfold setDone closeLast
  rw [List.getLast?_eq_some_getLast hl]
  rfl

theorem closeLast_concat (body : List Shard) (s : Shard) :
    closeLast id (body ++ [s]) = body ++ [{ s with done := some id }] := by
  simp [closeLast]

@[simp] theorem length_closeLast (id : Nat) (l : List Shard) : (closeLast id l).length = l.length := by
  rcases List.eq_nil_or_concat' l with rfl | ⟨body, s, rfl⟩
  · rfl
  · rw [closeLast_concat]
    simp

theorem map_closeLast {l : List Shard} (hl : ∀ s ∈ l, s.done = none) :
    (closeLast id l).map (fun s => { s with done := none }) = l := by
  rcases List.eq_nil_or_concat' l with rfl | ⟨body, s, rfl⟩
  · rfl
  · have hmap : (body ++ [s]).map (fun s => { s with done := none }) = (body ++ [s]).map (fun s => s) := by
      refine List.map_congr_left fun s' hs' => ?_
      have hdone := hl s' hs'
      cases s'
      simp_all
    rw [List.map_id', List.map_append] at hmap
    rw [closeLast_concat, List.map_append, ← hmap]
    simp

theorem splitLoop_eq (id : Nat) {k : Nat} (hk : 0 < k) (hle : k ≤ l.length) :
    ∀ lists i, i + lists ≤ k →
      splitLoop id (l.length / k) (l.length % k) lists i (l.drop (Shares.start l.length k i)) =
        some ((List.range' i lists).map fun j => closeLast id (Shares.part l k j)) := by
  intro lists
  induction lists with
  | zero => intro i _; rfl
  | succ lists ih =>
    intro i hi
    have hend := Shares.start_add_share_le (n := l.length) (show i < k by omega)
    have hfit : Shares.share l.length k i ≤ (l.drop (Shares.start l.length k i)).length := by
      rw [List.length_drop]
      omega
    have hpart : Shares.part l k i ≠ [] :=
      Shares.ne_nil_of_mem_parts hk hle
        (List.mem_map_of_mem (List.mem_range.mpr (show i < k by omega)))
    have hnext : spliceNext (l.length / k + if i < l.length % k then 1 else 0)
        (l.drop (Shares.start l.length k i)) =
        some (Shares.part l k i, l.drop (Shares.start l.length k (i + 1))) := by
      rw [Shares.start_succ, ← List.drop_drop]
      exact if_pos hfit
    rw [List.range'_succ, List.map_cons]
    simp [splitLoop, hnext, setDone_eq hpart, ih (i + 1) (by omega)]

/-- **The lists of `Split`**: the even parts, each with the callback on its last shard. -/
theorem split_eq (h : 0 < min n t.number) :
    t.split n = some (min n t.number,
      (Shares.parts t.shards (min n t.number)).map (closeLast t.id)) := by
  have hle : min n t.number ≤ t.shards.length := by
    rw [← t.number_eq]
    exact Nat.min_le_right _ _
  have hloop := splitLoop_eq t.id h hle (min n t.number) 0 (by omega)
  rw [Shares.start_zero, List.drop_zero, ← t.number_eq, ← List.range_eq_range'] at hloop
  have hne : min n t.number ≠ 0 := by omega
  unfold split
  simp only [if_neg hne, hloop, Shares.parts, List.map_map]
  rfl

theorem split_eq_none (h : t.number = 0) : t.split n = none := by
  unfold split
  rw [h, Nat.min_zero]
  rfl

end Task

/-- What `Split` with `n` queues has to give: a count for the waiter, and lists. -/
structure Partitions (t : Task) (n count : Nat) (lists : List (List Shard)) : Prop where
  length : lists.length = min n t.number
  count : count = lists.length
  ne_nil : ∀ l ∈ lists, l ≠ []
  flatten : lists.flatten.map (fun s => { s with done := none }) = t.shards
  even : ∀ l ∈ lists, ∀ l' ∈ lists, l.length ≤ l'.length + 1
  done : ∀ l ∈ lists, ∃ body last, l = body ++ [last] ∧ last.done = some t.id ∧
    ∀ s ∈ body, s.done = none

section Split

variable {t : Task} {n count : Nat} {lists : List (List Shard)}

theorem done_of_mem_parts {k : Nat} {p : List Shard} {s : Shard} (hk : 0 < k)
    (hp : p ∈ Shares.parts t.shards k) (hs : s ∈ p) : s.owner = t.id ∧ s.done = none := by
  refine t.fresh s ?_
  rw [← Shares.flatten_parts t.shards hk]
  exact List.mem_flatten.mpr ⟨p, hp, hs⟩

theorem partitions_parts (h : 0 < min n t.number) :
    Partitions t n (min n t.number)
      ((Shares.parts t.shards (min n t.number)).map (Task.closeLast t.id)) := by
  have hle : min n t.number ≤ t.shards.length := by
    rw [← t.number_eq]
    exact Nat.min_le_right _ _
  refine ⟨by simp, by simp, ?_, ?_, ?_, ?_⟩
  · intro l hl
    obtain ⟨p, hp, rfl⟩ := List.mem_map.mp hl
    have hne := List.length_pos_iff.mpr (Shares.ne_nil_of_mem_parts h hle hp)
    rw [← Task.length_closeLast t.id p] at hne
    exact List.length_pos_iff.mp hne
  · rw [List.map_flatten, List.map_map]
    have hmap : ∀ p ∈ Shares.parts t.shards (min n t.number),
        (List.map (fun s => { s with done := none }) ∘ Task.closeLast t.id) p = id p := by
      intro p hp
      exact Task.map_closeLast fun s hs => (done_of_mem_parts h hp hs).2
    rw [List.map_congr_left hmap, List.map_id, Shares.flatten_parts t.shards h]
  · intro l hl l' hl'
    obtain ⟨p, hp, rfl⟩ := List.mem_map.mp hl
    obtain ⟨p', hp', rfl⟩ := List.mem_map.mp hl'
    rw [Task.length_closeLast, Task.length_closeLast]
    exact Shares.length_parts_le hp hp'
  · intro l hl
    obtain ⟨p, hp, rfl⟩ := List.mem_map.mp hl
    rcases List.eq_nil_or_concat' p with rfl | ⟨body, s, rfl⟩
    · exact absurd rfl (Shares.ne_nil_of_mem_parts h hle hp)
    · refine ⟨body, { s with done := some t.id }, Task.closeLast_concat body s, rfl, fun s' hs' => ?_⟩
      exact (done_of_mem_parts h hp (List.mem_append_left _ hs')).2

/-- **A split partitions the task**, and the shards in its lists belong to the task. -/
theorem split_spec (h : t.split n = some (count, lists)) :
    Partitions t n count lists ∧ ∀ l ∈ lists, ∀ s ∈ l, s.owner = t.id := by
  by_cases hpos : 0 < min n t.number
  · rw [Task.split_eq hpos, Option.some.injEq, Prod.mk.injEq] at h
    obtain ⟨rfl, rfl⟩ := h
    have hpart := partitions_parts hpos
    refine ⟨hpart, fun l hl s hs => ?_⟩
    have hmem : { s with done := none } ∈ t.shards := by
      rw [← hpart.flatten]
      exact List.mem_map.mpr ⟨s, List.mem_flatten.mpr ⟨l, hl, hs⟩, rfl⟩
    exact (t.fresh _ hmem).1
  · have hzero : min n t.number = 0 := by omega
    unfold Task.split at h
    rw [hzero] at h
    cases h

end Split

/-! ## The waiters -/

/-- From every shard of a list on there is a callback of its task. -/
def Closed : List Shard → Prop
  | [] => True
  | s :: rest => (∃ s' ∈ s :: rest, s'.done = some s.owner) ∧ Closed rest

theorem Closed.append {l l' : List Shard} (h : Closed l) (h' : Closed l') : Closed (l ++ l') := by
  induction l with
  | nil => exact h'
  | cons s l ih =>
    obtain ⟨⟨s', hs', hdone⟩, hrest⟩ := h
    exact ⟨⟨s', List.mem_append_left l' hs', hdone⟩, ih hrest⟩

theorem Closed.exists_done {l : List Shard} (h : Closed l) {s : Shard} (hs : s ∈ l) :
    ∃ s' ∈ l, s'.done = some s.owner := by
  induction l with
  | nil => cases hs
  | cons s' l ih =>
    rcases List.mem_cons.mp hs with rfl | hs
    · exact h.1
    · obtain ⟨s'', hs'', hdone⟩ := ih h.2 hs
      exact ⟨s'', List.mem_cons_of_mem _ hs'', hdone⟩

theorem closed_concat {id : Nat} {body : List Shard} {last : Shard} (hlast : last.done = some id)
    (hown : ∀ s ∈ body ++ [last], s.owner = id) : Closed (body ++ [last]) := by
  induction body with
  | nil =>
    refine ⟨⟨last, List.mem_singleton_self last, ?_⟩, trivial⟩
    rw [hlast, hown last (List.mem_singleton_self last)]
  | cons s body ih =>
    refine ⟨⟨last, by simp, ?_⟩, ih fun s' hs' => hown s' (List.mem_cons_of_mem s hs')⟩
    rw [hlast, hown s (by simp)]

namespace TaskManager

variable {m m' : TaskManager} {id : Nat}

/-- Whether a shard has a callback of a task. -/
def calls (id : Nat) (s : Shard) : Bool := s.done == some id

/-- How the waiters, the callbacks to come and the shards to be finished go together. -/
structure Inv (m : TaskManager) : Prop where
  qIndex : m.qIndex < m.queues.length
  counted : ∀ id, m.waiters id = m.pending.countP (calls id)
  closed : ∀ l ∈ m.lists, Closed l
  own : ∀ s ∈ m.pending, ∀ id, s.done = some id → s.owner = id
  known : ∀ s ∈ m.pending, s.owner ∈ m.submitted
  tasks : ∀ id ∈ m.tasks, id ∈ m.submitted

theorem inv_start {queues : Nat} (h : 0 < queues) : Inv (start queues) := by
  have hpending : (start queues).pending = [] := by
    unfold pending lists start
    simp
  refine ⟨?_, ?_, ?_, ?_, ?_, ?_⟩
  · simpa [start] using h
  · intro id
    rw [hpending]
    rfl
  · intro l hl
    simp only [lists, start, List.append_nil] at hl
    rw [List.eq_of_mem_replicate hl]
    trivial
  · rw [hpending]
    exact fun _ hs => absurd hs List.not_mem_nil
  · rw [hpending]
    exact fun _ hs => absurd hs List.not_mem_nil
  · exact fun _ hid => absurd hid List.not_mem_nil

theorem Inv.perm (hI : m.Inv) (hq : m'.qIndex < m'.queues.length)
    (hpending : m'.pending.Perm m.pending) (hclosed : ∀ l ∈ m'.lists, Closed l)
    (hwaiters : m'.waiters = m.waiters) (hsub : m'.submitted = m.submitted)
    (htasks : m'.tasks ⊆ m.tasks) : m'.Inv where
  qIndex := hq
  counted id := by rw [hwaiters, hI.counted, hpending.countP_eq]
  closed := hclosed
  own s hs := hI.own s (hpending.subset hs)
  known s hs := by
    rw [hsub]
    exact hI.known s (hpending.subset hs)
  tasks id hid := by
    rw [hsub]
    exact hI.tasks id (htasks hid)

theorem countP_calls {t : Task} {n count : Nat} {lists : List (List Shard)}
    (h : Partitions t n count lists) (id : Nat) :
    lists.flatten.countP (calls id) = if id = t.id then count else 0 := by
  have hone : ∀ l ∈ lists, l.countP (calls id) = if id = t.id then 1 else 0 := by
    intro l hl
    obtain ⟨body, last, rfl, hlast, hbody⟩ := h.done l hl
    have hnone : body.countP (calls id) = 0 := by
      refine List.countP_eq_zero.mpr fun s hs => ?_
      simp [calls, hbody s hs]
    rw [List.countP_append, hnone, List.countP_singleton]
    rcases eq_or_ne id t.id with rfl | hne
    · simp [calls, hlast]
    · simp [calls, hlast, hne, hne.symm]
  rw [List.countP_flatten, List.map_congr_left hone, List.map_const', List.sum_replicate_nat, h.count]
  split <;> simp

theorem Inv.submit (hI : m.Inv) {t : Task} (h : m.submit t = some m') : m'.Inv := by
  unfold TaskManager.submit at h
  split at h
  · cases h
  rename_i hfree
  split at h
  · cases h
    exact hI
  rcases hsplit : t.split m.queues.length with _ | ⟨count, lists⟩
  · rw [hsplit] at h
    cases h
  rw [hsplit] at h
  obtain rfl := Option.some.inj h
  have hidle : m.pushing = [] := by
    by_contra hne
    exact hfree (.inl hne)
  have hnew : t.id ∉ m.submitted := fun hmem => hfree (.inr hmem)
  obtain ⟨hpart, hown⟩ := split_spec hsplit
  have hpending : m.pending = m.queues.flatten := by
    unfold pending TaskManager.lists
    rw [hidle, List.append_nil]
  have hmem : ∀ s, s ∈ (m.queues ++ lists).flatten → s ∈ m.pending ∨ ∃ l ∈ lists, s ∈ l := by
    intro s hs
    rw [List.flatten_append, ← hpending] at hs
    rcases List.mem_append.mp hs with hs | hs
    · exact .inl hs
    · exact .inr (List.mem_flatten.mp hs)
  refine ⟨hI.qIndex, ?_, ?_, ?_, ?_, ?_⟩
  · intro id
    show update m.waiters t.id count id = (m.queues ++ lists).flatten.countP (calls id)
    rw [List.flatten_append, ← hpending, List.countP_append, ← hI.counted, countP_calls hpart]
    rcases eq_or_ne id t.id with rfl | hne
    · have hzero : m.waiters t.id = 0 := by
        rw [hI.counted]
        refine List.countP_eq_zero.mpr fun s hs hcall => hnew ?_
        rw [← hI.own s hs t.id (beq_iff_eq.mp hcall)]
        exact hI.known s hs
      rw [update_self, hzero, if_pos rfl, Nat.zero_add]
    · rw [update_of_ne hne, if_neg hne, Nat.add_zero]
  · intro l hl
    rcases List.mem_append.mp hl with hl | hl
    · exact hI.closed l (List.mem_append_left _ hl)
    · obtain ⟨body, last, rfl, hlast, -⟩ := hpart.done l hl
      exact closed_concat hlast (hown _ hl)
  · intro s hs id hdone
    rcases hmem s hs with hs | ⟨l, hl, hs⟩
    · exact hI.own s hs id hdone
    · obtain ⟨body, last, rfl, hlast, hbody⟩ := hpart.done l hl
      rw [hown _ hl s hs]
      rcases List.mem_append.mp hs with hs | hs
      · rw [hbody s hs] at hdone
        cases hdone
      · rw [List.mem_singleton.mp hs, hlast] at hdone
        exact Option.some.inj hdone
  · intro s hs
    rcases hmem s hs with hs | ⟨l, hl, hs⟩
    · exact List.mem_cons_of_mem _ (hI.known s hs)
    · rw [hown l hl s hs]
      exact List.mem_cons_self
  · intro id hid
    rcases List.mem_cons.mp hid with rfl | hid
    · exact List.mem_cons_self
    · exact List.mem_cons_of_mem _ (hI.tasks id hid)

theorem Inv.push (hI : m.Inv) (h : m.push = some m') : m'.Inv := by
  unfold TaskManager.push at h
  split at h
  · cases h
  rename_i shard rest hpushing
  rw [if_pos hI.qIndex] at h
  obtain rfl := Option.some.inj h
  obtain ⟨before, q, after, hqueues, -, hmodify⟩ :=
    List.exists_of_modify (· ++ shard) hI.qIndex
  refine hI.perm ?_ ?_ ?_ rfl rfl (List.Subset.refl _)
  · show (if m.qIndex + 1 = m.queues.length then 0 else m.qIndex + 1) <
      (m.queues.modify m.qIndex (· ++ shard)).length
    have := hI.qIndex
    rw [List.length_modify]
    split <;> omega
  · unfold pending lists
    rw [hmodify, hpushing, hqueues]
    simp only [List.flatten_append, List.flatten_cons, List.append_assoc]
    refine (List.Perm.refl _).append ((List.Perm.refl _).append ?_)
    rw [← List.append_assoc, ← List.append_assoc]
    exact List.perm_append_comm.append_right _
  · intro l hl
    have hclosed : ∀ l ∈ m.queues ++ shard :: rest, Closed l := by
      intro l hl
      rw [← hpushing] at hl
      exact hI.closed l hl
    rw [hqueues] at hclosed
    unfold lists at hl
    rw [hmodify] at hl
    rcases List.mem_append.mp hl with hl | hl
    · rcases List.mem_append.mp hl with hl | hl
      · exact hclosed l (by simp [hl])
      · rcases List.mem_cons.mp hl with rfl | hl
        · exact (hclosed q (by simp)).append (hclosed shard (by simp))
        · exact hclosed l (by simp [hl])
    · exact hclosed l (by simp [hl])

theorem finish_eq (s : Shard) (id : Nat) :
    m.finish s id = m.waiters id - if calls id s then 1 else 0 := by
  unfold finish calls
  rcases s.done with _ | id'
  · rfl
  · rcases eq_or_ne id id' with rfl | hne
    · simp
    · simp [update_of_ne hne, hne.symm]

theorem Inv.work (hI : m.Inv) {q : Nat} (h : m.work q = some m') : m'.Inv := by
  unfold TaskManager.work at h
  split at h
  · rename_i s rest hq
    obtain rfl := Option.some.inj h
    obtain ⟨hlt, hget⟩ := List.getElem?_eq_some_iff.mp hq
    obtain ⟨before, after, hqueues, -, hset⟩ :
        ∃ before after, m.queues = before ++ m.queues[q] :: after ∧ before.length = q ∧
          m.queues.set q rest = before ++ rest :: after := List.exists_of_set hlt
    rw [hget] at hqueues
    have hpending : m.pending.Perm (s :: (before ++ rest :: after ++ m.pushing).flatten) := by
      unfold pending lists
      rw [hqueues]
      simp only [List.append_assoc, List.flatten_append, List.flatten_cons, List.cons_append]
      exact List.perm_middle
    have hmem : ∀ s', s' ∈ (before ++ rest :: after ++ m.pushing).flatten → s' ∈ m.pending :=
      fun s' hs' => hpending.symm.subset (List.mem_cons_of_mem _ hs')
    refine ⟨?_, ?_, ?_, ?_, ?_, hI.tasks⟩
    · show m.qIndex < (m.queues.set q rest).length
      rw [List.length_set]
      exact hI.qIndex
    · intro id
      show m.finish s id = (m.queues.set q rest ++ m.pushing).flatten.countP (calls id)
      rw [hset, finish_eq, hI.counted, hpending.countP_eq, List.countP_cons]
      omega
    · intro l hl
      have hclosed : ∀ l ∈ before ++ (s :: rest) :: after ++ m.pushing, Closed l := by
        rw [← hqueues]
        exact hI.closed
      have hl : l ∈ before ++ rest :: after ++ m.pushing := by
        rw [← hset]
        exact hl
      rcases List.mem_append.mp hl with hl | hl
      · rcases List.mem_append.mp hl with hl | hl
        · exact hclosed l (by simp [hl])
        · rcases List.mem_cons.mp hl with rfl | hl
          · exact (hclosed (s :: l) (by simp)).2
          · exact hclosed l (by simp [hl])
      · exact hclosed l (by simp [hl])
    · intro s' hs'
      refine hI.own s' (hmem s' ?_)
      rw [← hset]
      exact hs'
    · intro s' hs'
      refine hI.known s' (hmem s' ?_)
      rw [← hset]
      exact hs'
  · cases h

theorem Inv.step (hI : m.Inv) {e : Event} (h : m.step e = some m') : m'.Inv := by
  cases e with
  | submit t => exact hI.submit h
  | push => exact hI.push h
  | work q => exact hI.work h
  | wait id =>
    change (if _ then none else some _) = some m' at h
    split at h
    · cases h
    · obtain rfl := Option.some.inj h
      exact hI.perm hI.qIndex (List.Perm.refl _) hI.closed rfl rfl List.erase_subset

theorem Inv.of_reach {C : TaskManager → Event → Prop} (h : machine.Reach C m) : m.Inv := by
  refine h.inv ?_ ?_
  · rintro m ⟨queues, hpos, rfl⟩
    exact inv_start hpos
  · intro m e m' hI _ hstep
    exact hI.step hstep

theorem Inv.waiters_eq_zero_iff (hI : m.Inv) :
    m.waiters id = 0 ↔ ∀ s ∈ m.pending, s.owner ≠ id := by
  rw [hI.counted, List.countP_eq_zero]
  constructor
  · rintro h s hs rfl
    obtain ⟨l, hl, hsl⟩ := List.mem_flatten.mp hs
    obtain ⟨s', hs', hdone⟩ := (hI.closed l hl).exists_done hsl
    exact h s' (List.mem_flatten.mpr ⟨l, hl, hs'⟩) (beq_iff_eq.mpr hdone)
  · intro h s hs hcall
    exact h s hs (hI.own s hs id (beq_iff_eq.mp hcall))

theorem Inv.submit_isSome (hI : m.Inv) {t : Task} (ht : 0 < t.number) (hidle : m.pushing = [])
    (hnew : t.id ∉ m.submitted) : (m.submit t).isSome := by
  have hpos : 0 < min m.queues.length t.number := by
    have := hI.qIndex
    omega
  have hbusy : ¬ (m.pushing ≠ [] ∨ t.id ∈ m.submitted) := by
    rintro (h | h)
    · exact h hidle
    · exact hnew h
  unfold TaskManager.submit
  rw [if_neg hbusy, if_neg fun h => hnew (hI.tasks _ h), Task.split_eq hpos]
  rfl

theorem Inv.push_isSome (hI : m.Inv) (h : m.pushing ≠ []) : m.push.isSome := by
  obtain ⟨shard, rest, hpushing⟩ := List.exists_cons_of_ne_nil h
  unfold TaskManager.push
  rw [hpushing]
  simp [hI.qIndex]

/-- A step that submits submits a task with shards. -/
def HasShards (_ : TaskManager) : Event → Prop
  | .submit t => 0 < t.number
  | _ => True

instance (e : Event) : Decidable (HasShards m e) :=
  match e with
  | .submit t => inferInstanceAs (Decidable (0 < t.number))
  | .push | .work _ | .wait _ => .isTrue trivial

end TaskManager

open TaskManager

/-- **Splitting a task**: `Split` partitions a task exactly when it has shards. While only such tasks are
submitted, every `Submit` gets through and keeps the index within the queues, and the waiter of a task is at
zero exactly when all its shards are finished. -/
theorem split_partitions_iff (t : Task) (n : Nat) (hn : 0 < n) :
    ((∃ count lists, t.split n = some (count, lists) ∧ Partitions t n count lists) ↔
      0 < t.number) ∧
    ∀ m, machine.Reach HasShards m →
      m.qIndex < m.queues.length ∧
      (∀ t : Task, 0 < t.number → m.pushing = [] → t.id ∉ m.submitted → (m.submit t).isSome) ∧
      (m.pushing ≠ [] → m.push.isSome) ∧
      ∀ id, m.waiters id = 0 ↔ ∀ s ∈ m.pending, s.owner ≠ id := by
  refine ⟨⟨?_, fun ht => ?_⟩, fun m hm => ?_⟩
  · rintro ⟨count, lists, hsplit, -⟩
    by_contra hzero
    rw [Task.split_eq_none (by omega)] at hsplit
    cases hsplit
  · have hpos : 0 < min n t.number := by omega
    exact ⟨_, _, Task.split_eq hpos, partitions_parts hpos⟩
  · have hI := Inv.of_reach hm
    refine ⟨hI.qIndex, fun t => hI.submit_isSome, hI.push_isSome, fun id => hI.waiters_eq_zero_iff⟩

/-- Three shards for two queues. -/
def threeShards : Task :=
  (((Task.new 1 .dump .host).append "a" 0 0 8).append "b" 0 8 8).append "c" 0 16 8

/-- The first shard of either queue is finished, and the first queue has another one: the waiter is not
at zero yet. -/
theorem split_partitions_three :
    (∃ count lists, threeShards.split 2 = some (count, lists) ∧
      Partitions threeShards 2 count lists) ∧
    ∃ m, machine.Reach HasShards m ∧ m.waiters 1 = 1 ∧ m.pending.length = 1 ∧
      m.qIndex < m.queues.length ∧ (m.waiters 1 = 0 ↔ ∀ s ∈ m.pending, s.owner ≠ 1) := by
  constructor
  · apply (split_partitions_iff threeShards 2 (by decide)).1.mpr
    decide
  · obtain ⟨m, hreach, hp⟩ := Machine.exists_reach_of_run (M := machine) (C := HasShards)
      (s := start 2) (l := [.submit threeShards, .push, .push, .work 0, .work 1])
      (p := fun m => m.waiters 1 = 1 ∧ m.pending.length = 1) ⟨2, Nat.two_pos, rfl⟩
      (by decide +kernel)
    obtain ⟨hone, hpending⟩ := hp
    obtain ⟨hindex, -, -, hwaiters⟩ := (split_partitions_iff threeShards 2 (by decide)).2 m hreach
    exact ⟨m, hreach, hone, hpending, hindex, hwaiters 1⟩

/-- A task without shards is submitted and not split. -/
theorem split_no_shards :
    (start 4).submit (Task.new 1 .load .device) = none ∧
    ¬ ∃ count lists, (Task.new 1 .load .device).split 4 = some (count, lists) ∧
      Partitions (Task.new 1 .load .device) 4 count lists := by
  have hsplit : (Task.new 1 .load .device).split 4 = none := Task.split_eq_none rfl
  constructor
  · rfl
  · rintro ⟨count, lists, h, -⟩
    rw [hsplit] at h
    cases h

end UnifiedCache.Detail
