import Mathlib.Data.List.Basic
import Mathlib.Tactic.Common

/-!
# Pipelines that signal completion with the last piece

Tasks wait in a queue; a producer takes one after the other and cuts it into pieces, a consumer takes
the pieces in the same order, and only the last piece of a task signals that the task is complete. A
piece may leave effects behind that are not settled when the piece is done.

`Pipeline.Step` are the steps of such a pipeline that never complete a task early. A task that is
complete is not `Busy`: no piece of it is in flight and no effect of it is unsettled.
-/

namespace Lib

/-- A pipeline: where the tasks, their pieces and the effects of these are. -/
structure Pipeline where
  /-- The tasks the producer has not taken yet. -/
  waiting : List Nat
  /-- The task the producer has taken and of which no piece is in flight. -/
  fresh : Option Nat
  /-- The task of which the producer is going to cut more pieces. -/
  more : Option Nat
  /-- The pieces in flight, in order; the flag says which is the last of its task. -/
  pieces : List (Nat × Bool)
  /-- The tasks of the effects that are not settled. -/
  loose : List Nat

namespace Pipeline

variable {v v' : Pipeline} {d : Option Nat} {t : Nat}

/-- Something of the task is still to come, in flight or unsettled. -/
def Busy (v : Pipeline) (t : Nat) : Prop :=
  t ∈ v.waiting ∨ v.fresh = some t ∨ v.more = some t ∨ t ∈ v.pieces.map Prod.fst ∨ t ∈ v.loose

/-- The order in the pipeline. -/
structure Ok (v : Pipeline) : Prop where
  nodup : v.waiting.Nodup
  waiting_new : ∀ t ∈ v.waiting,
    v.fresh ≠ some t ∧ v.more ≠ some t ∧ t ∉ v.pieces.map Prod.fst ∧ t ∉ v.loose
  fresh_new : ∀ t, v.fresh = some t → v.more = none ∧ t ∉ v.pieces.map Prod.fst ∧ t ∉ v.loose
  more_open : ∀ t, v.more = some t → (t, true) ∉ v.pieces
  /-- Behind the last piece of a task there is no other piece of it. -/
  last : v.pieces.Pairwise fun a b => a.2 = true → a.1 ≠ b.1

/-- The steps of a pipeline, with the task they complete. -/
inductive Step (v : Pipeline) : Option Nat → Pipeline → Prop where
  /-- The producer takes a task. -/
  | pop (t : Nat) (w : List Nat) (hfresh : v.fresh = none) (hmore : v.more = none)
      (hw : v.waiting = t :: w) : Step v none { v with waiting := w, fresh := some t }
  /-- It starts cutting; a task may have no pieces at all. -/
  | start (t : Nat) (m : Option Nat) (hfresh : v.fresh = some t) (hm : m = none ∨ m = some t) :
      Step v none { v with fresh := none, more := m }
  /-- A task of which nothing is in flight is complete. -/
  | finish (t : Nat) (hfresh : v.fresh = some t) : Step v (some t) { v with fresh := none }
  /-- One more piece. -/
  | push (t : Nat) (b : Bool) (hmore : v.more = some t) :
      Step v none { v with
        pieces := v.pieces ++ [(t, b)], more := if b then none else some t }
  /-- The producer cuts no more pieces of a task of which nothing is in flight. -/
  | stop (t : Nat) (hmore : v.more = some t) (hp : t ∉ v.pieces.map Prod.fst) (hl : t ∉ v.loose) :
      Step v none { v with more := none, fresh := some t }
  /-- The first piece has effects, and may be done without completing its task. -/
  | emit (t : Nat) (b : Bool) (rest : List (Nat × Bool)) (ts : List Nat) (p : List (Nat × Bool))
      (hp : v.pieces = (t, b) :: rest) (hts : ∀ x ∈ ts, x = t) (hp' : p = v.pieces ∨ p = rest) :
      Step v none { v with pieces := p, loose := v.loose ++ ts }
  /-- The last piece of a task completes it, when no effect of the task is unsettled. -/
  | complete (t : Nat) (rest : List (Nat × Bool)) (hp : v.pieces = (t, true) :: rest)
      (hl : t ∉ v.loose) : Step v (some t) { v with pieces := rest }
  /-- Effects are settled. -/
  | settle (l : List Nat) (hl : l ⊆ v.loose) : Step v none { v with loose := l }

theorem Step.refl (v : Pipeline) : v.Step none v := .settle v.loose (List.Subset.refl _)

theorem Step.busy (h : v.Step d v') (ht : v'.Busy t) : v.Busy t := by
  unfold Busy at ht ⊢
  cases h with
  | pop t' w hfresh hmore hw => grind
  | start t' m hfresh hm => grind
  | finish t' hfresh => grind
  | push t' b hmore => grind
  | stop t' hmore hp hl => grind
  | emit t' b rest ts p hp hts hp' => grind
  | complete t' rest hp hl => grind
  | settle l hl => grind

/-- **A task is not busy once it is complete.** -/
theorem Step.done (hv : v.Ok) (h : v.Step (some t) v') : ¬ v'.Busy t := by
  generalize hd : some t = d at h
  cases h with
  | finish t' hfresh =>
    cases hd
    obtain ⟨hm, hp, hl⟩ := hv.fresh_new t hfresh
    rintro (ht | ht | ht | ht | ht)
    · exact (hv.waiting_new t ht).1 hfresh
    · cases ht
    · exact absurd (hm.symm.trans ht) (by simp)
    · exact hp ht
    · exact hl ht
  | complete t' rest hp hl =>
    cases hd
    have hlast := hv.last
    rw [hp, List.pairwise_cons] at hlast
    have hmem : t ∈ v.pieces.map Prod.fst := by
      rw [hp]
      exact List.mem_cons_self
    rintro (ht | ht | ht | ht | ht)
    · exact (hv.waiting_new t ht).2.2.1 hmem
    · exact (hv.fresh_new t ht).2.1 hmem
    · exact hv.more_open t ht (by rw [hp]; exact List.mem_cons_self)
    · obtain ⟨x, hx, rfl⟩ := List.mem_map.mp ht
      exact hlast.1 x hx rfl rfl
    · exact hl ht
  | _ => cases hd

theorem Step.ok (hv : v.Ok) (h : v.Step d v') : v'.Ok := by
  cases h with
  | pop t w hfresh hmore hw =>
    have hnd := hv.nodup
    rw [hw, List.nodup_cons] at hnd
    have hnew := hv.waiting_new t (hw ▸ List.mem_cons_self)
    refine ⟨hnd.2, fun x hx => ?_, fun x hx => ?_, hv.more_open, hv.last⟩
    · refine ⟨fun h => ?_, (hv.waiting_new x (hw ▸ List.mem_cons_of_mem _ hx)).2⟩
      cases h
      exact hnd.1 hx
    · cases hx
      exact ⟨hmore, hnew.2.2⟩
  | start t m hfresh hm =>
    obtain ⟨hmore, hp, hl⟩ := hv.fresh_new t hfresh
    refine ⟨hv.nodup, fun x hx => ⟨by simp, fun h => ?_, (hv.waiting_new x hx).2.2⟩,
      fun x hx => ?_, fun x hx hmem => ?_, hv.last⟩
    · rcases hm with rfl | rfl
      · cases h
      · cases h
        exact (hv.waiting_new t hx).1 hfresh
    · cases hx
    · rcases hm with rfl | rfl
      · cases hx
      · cases hx
        exact hp (List.mem_map_of_mem hmem)
  | finish t hfresh =>
    exact ⟨hv.nodup, fun x hx => ⟨by simp, (hv.waiting_new x hx).2⟩, fun x hx => (by cases hx),
      hv.more_open, hv.last⟩
  | push t b hmore =>
    refine ⟨hv.nodup, fun x hx => ?_, fun x hx => ?_, fun x hx hmem => ?_, ?_⟩
    · obtain ⟨h1, h2, h3, h4⟩ := hv.waiting_new x hx
      have hxt : x ≠ t := fun h => h2 (h ▸ hmore)
      refine ⟨h1, fun h => ?_, fun h => ?_, h4⟩
      · cases b
        · exact hxt (Option.some.inj h).symm
        · cases h
      · simp only [List.map_append, List.map_cons, List.map_nil, List.mem_append,
          List.mem_singleton] at h
        rcases h with h | h
        · exact h3 h
        · exact hxt h
    · exact absurd ((hv.fresh_new x hx).1.symm.trans hmore) (by simp)
    · cases b
      · cases hx
        rcases List.mem_append.mp hmem with hmem | hmem
        · exact hv.more_open t hmore hmem
        · cases List.mem_singleton.mp hmem
      · cases hx
    · refine List.pairwise_append.mpr ⟨hv.last, List.pairwise_singleton _ _, fun a ha c hc h => ?_⟩
      rw [List.mem_singleton] at hc
      subst hc
      rintro rfl
      exact hv.more_open _ hmore (by rw [← h]; exact ha)
  | stop t hmore hp hl =>
    refine ⟨hv.nodup, fun x hx => ⟨fun h => ?_, by simp, (hv.waiting_new x hx).2.2⟩,
      fun x hx => ?_, fun x hx => (by cases hx), hv.last⟩
    · cases h
      exact (hv.waiting_new t hx).2.1 hmore
    · cases hx
      exact ⟨rfl, hp, hl⟩
  | emit t b rest ts p hp hts hp' =>
    have hmem : t ∈ v.pieces.map Prod.fst := by
      rw [hp]
      exact List.mem_cons_self
    have hsub : p.Sublist v.pieces := by
      rcases hp' with rfl | rfl
      · exact List.Sublist.refl _
      · rw [hp]
        exact List.sublist_cons_self _ _
    have hloose : ∀ x, x ∉ v.pieces.map Prod.fst → x ∉ v.loose → x ∉ v.loose ++ ts := by
      intro x hx hxl h
      rcases List.mem_append.mp h with h | h
      · exact hxl h
      · exact hx (hts x h ▸ hmem)
    have hpieces : ∀ x, x ∉ v.pieces.map Prod.fst → x ∉ p.map Prod.fst :=
      fun x hx h => hx ((hsub.map Prod.fst).subset h)
    refine ⟨hv.nodup, fun x hx => ?_, fun x hx => ?_, fun x hx h => ?_, hv.last.sublist hsub⟩
    · obtain ⟨h1, h2, h3, h4⟩ := hv.waiting_new x hx
      exact ⟨h1, h2, hpieces x h3, hloose x h3 h4⟩
    · obtain ⟨h1, h2, h3⟩ := hv.fresh_new x hx
      exact ⟨h1, hpieces x h2, hloose x h2 h3⟩
    · exact hv.more_open x hx (hsub.subset h)
  | complete t rest hp hl =>
    have hsub : rest.Sublist v.pieces := by
      rw [hp]
      exact List.sublist_cons_self _ _
    have hpieces : ∀ x, x ∉ v.pieces.map Prod.fst → x ∉ rest.map Prod.fst :=
      fun x hx h => hx ((hsub.map Prod.fst).subset h)
    refine ⟨hv.nodup, fun x hx => ?_, fun x hx => ?_, fun x hx h => ?_, hv.last.sublist hsub⟩
    · obtain ⟨h1, h2, h3, h4⟩ := hv.waiting_new x hx
      exact ⟨h1, h2, hpieces x h3, h4⟩
    · obtain ⟨h1, h2, h3⟩ := hv.fresh_new x hx
      exact ⟨h1, hpieces x h2, h3⟩
    · exact hv.more_open x hx (hsub.subset h)
  | settle l hl =>
    refine ⟨hv.nodup, fun x hx => ?_, fun x hx => ?_, hv.more_open, hv.last⟩
    · obtain ⟨h1, h2, h3, h4⟩ := hv.waiting_new x hx
      exact ⟨h1, h2, h3, fun h => h4 (hl h)⟩
    · obtain ⟨h1, h2, h3⟩ := hv.fresh_new x hx
      exact ⟨h1, h2, fun h => h3 (hl h)⟩

theorem Ok.submit (hv : v.Ok) (ht : ¬ v.Busy t) : Ok { v with waiting := v.waiting ++ [t] } := by
  simp only [Busy, not_or] at ht
  obtain ⟨h1, h2, h3, h4, h5⟩ := ht
  refine ⟨?_, fun x hx => ?_, hv.fresh_new, hv.more_open, hv.last⟩
  · rw [List.nodup_append]
    refine ⟨hv.nodup, List.pairwise_singleton _ t, fun a ha b hb => ?_⟩
    rw [List.mem_singleton] at hb
    rintro rfl
    exact h1 (hb ▸ ha)
  · rcases List.mem_append.mp hx with hx | hx
    · exact hv.waiting_new x hx
    · rw [List.mem_singleton] at hx
      subst hx
      exact ⟨h2, h3, h4, h5⟩

theorem busy_submit {x : Nat} (h : Busy { v with waiting := v.waiting ++ [t] } x) :
    v.Busy x ∨ x = t := by
  rcases h with h | h
  · rcases List.mem_append.mp h with h | h
    · exact .inl (.inl h)
    · exact .inr (List.mem_singleton.mp h)
  · exact .inl (.inr h)

end Pipeline

end Lib
