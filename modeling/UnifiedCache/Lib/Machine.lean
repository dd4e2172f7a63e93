import Mathlib.Data.List.Basic
import Mathlib.Tactic.Common

/-!
# Event machines

A concurrent program is a set of threads that take atomic steps in any order. Here the order, and
everything the environment answers (a failed call, a fired timeout), is the *event*, so the
transition function itself is a plain partial function: `step s e = none` when event `e` cannot
happen in state `s`.

`M.Reach C` are the states reached by runs all of whose steps meet the condition `C`; with the
trivial condition these are the reachable states. Invariants are proved once per step and lifted to
runs with `Reach.inv`.
-/

namespace Lib

/-- A machine over states `σ` and events `ε`. -/
structure Machine (σ ε : Type*) where
  /-- The states a run may start in. -/
  init : σ → Prop
  /-- The effect of one event, `none` when the event is not enabled. -/
  step : σ → ε → Option σ

namespace Machine

variable {σ ε : Type*} {M : Machine σ ε} {C D : σ → ε → Prop} {s s' : σ} {e : ε}

/-- Runs the events one after the other. -/
def run (M : Machine σ ε) : σ → List ε → Option σ
  | s, [] => some s
  | s, e :: es => (M.step s e).bind fun s' => run M s' es

/-- The states reached by a run from an initial state all of whose steps meet `C` (a condition on
the state before the step and the event). -/
inductive Reach (M : Machine σ ε) (C : σ → ε → Prop) : σ → Prop where
  /-- The empty run. -/
  | init {s : σ} (h : M.init s) : Reach M C s
  /-- One more step. -/
  | step {s s' : σ} {e : ε} (hs : Reach M C s) (hC : C s e) (h : M.step s e = some s') :
      Reach M C s'

/-- The states reached by any run. -/
abbrev Reachable (M : Machine σ ε) : σ → Prop := M.Reach fun _ _ => True

@[simp] theorem run_nil (s : σ) : M.run s [] = some s := rfl

theorem run_cons (s : σ) (e : ε) (es : List ε) :
    M.run s (e :: es) = (M.step s e).bind fun s' => M.run s' es := rfl

/-- **Invariant rule.** What holds initially and is kept by every step that meets `C` holds in every
state reached. -/
theorem Reach.inv {I : σ → Prop} (hinit : ∀ s, M.init s → I s)
    (hstep : ∀ s e s', I s → C s e → M.step s e = some s' → I s') (h : M.Reach C s) : I s := by
  induction h with
  | init h => exact hinit _ h
  | step _ hC h ih => exact hstep _ _ _ ih hC h

theorem Reach.mono (hCD : ∀ s e, C s e → D s e) (h : M.Reach C s) : M.Reach D s := by
  induction h with
  | init h => exact .init h
  | step _ hC h ih => exact .step ih (hCD _ _ hC) h

theorem Reach.reachable (h : M.Reach C s) : M.Reachable s := h.mono fun _ _ _ => trivial

theorem Reach.run {es : List ε} (hs : M.Reach C s) (hC : ∀ s e, C s e)
    (h : M.run s es = some s') : M.Reach C s' := by
  induction es generalizing s with
  | nil => cases h; exact hs
  | cons e es ih =>
    rw [run_cons, Option.bind_eq_some_iff] at h
    obtain ⟨t, ht, hrest⟩ := h
    exact ih (.step hs (hC _ _) ht) hrest

theorem reachable_of_run {es : List ε} (h0 : M.init s) (h : M.run s es = some s') :
    M.Reachable s' :=
  Reach.run (.init h0) (fun _ _ => trivial) h

/-- **Test rule.** A run that ends in a state with `p` shows that one can be reached. -/
theorem exists_reachable_of_run {l : List ε} {p : σ → Prop} [DecidablePred p] (h0 : M.init s)
    (h : (M.run s l).map (fun s => decide (p s)) = some true) : ∃ s', M.Reachable s' ∧ p s' := by
  obtain ⟨s', hrun, hp⟩ := Option.map_eq_some_iff.mp h
  exact ⟨s', reachable_of_run h0 hrun, of_decide_eq_true hp⟩

/-- The machine that goes on from a state: what it reaches are the later states. -/
def after (M : Machine σ ε) (s : σ) : Machine σ ε := { M with init := fun s' => s' = s }

theorem after_inv {I : σ → Prop} (hs : I s) (hstep : ∀ s e s', I s → M.step s e = some s' → I s')
    (h : (M.after s).Reachable s') : I s' := by
  refine Reach.inv (M := M.after s) ?_ ?_ h
  · rintro s' rfl
    exact hs
  · intro s e s' hi _ h
    exact hstep s e s' hi h

theorem Reach.cons {t : σ} (hC : C s e) (he : M.step s e = some t) (h : (M.after t).Reach C s') :
    (M.after s).Reach C s' := by
  induction h with
  | init h =>
    cases h
    exact .step (.init rfl) hC he
  | step _ hC' h ih => exact .step ih hC' h

/-- **Variant rule.** If in every state with `I` that is no goal some step keeps `I` and makes the
variant smaller, a goal can be reached from every state with `I`. -/
theorem exists_later {β : Type*} [WellFoundedRelation β] {I G : σ → Prop} (f : σ → β)
    (h : ∀ s, I s → ¬ G s → ∃ e s', C s e ∧ M.step s e = some s' ∧ I s' ∧
      WellFoundedRelation.rel (f s') (f s)) (hs : I s) :
    ∃ s', (M.after s).Reach C s' ∧ I s' ∧ G s' := by
  induction s using (invImage f inferInstance).wf.induction with
  | _ s ih =>
    by_cases hG : G s
    · exact ⟨s, .init rfl, hs, hG⟩
    · obtain ⟨e, t, hC, he, ht, hlt⟩ := h s hs hG
      obtain ⟨s', hreach, hs', hG'⟩ := ih t hlt ht
      exact ⟨s', hreach.cons hC he, hs', hG'⟩

/-! ## Responses -/

/-- A continuation of a run, by steps that meet `C`, at least `m` of which are advances. -/
inductive Path (M : Machine σ ε) (C : σ → ε → Prop) (advance : σ → σ → Prop) (s : σ) :
    Nat → σ → Prop where
  /-- No step at all. -/
  | refl : Path M C advance s 0 s
  /-- Any step. -/
  | step {m : Nat} {t t' : σ} {e : ε} (h : Path M C advance s m t) (hC : C t e)
      (ht : M.step t e = some t') : Path M C advance s m t'
  /-- A step that advances. -/
  | advance {m : Nat} {t t' : σ} {e : ε} (h : Path M C advance s m t) (hC : C t e)
      (ht : M.step t e = some t') (ha : advance t t') : Path M C advance s (m + 1) t'

/-- **Response rule.** While `Q` holds every step keeps it or reaches `G`, and every advance makes the
measure smaller; so `G` is reached before there are more advances than the measure. -/
theorem Path.response {advance : σ → σ → Prop} {Q G : σ → Prop} {f : σ → Nat} {m : Nat}
    (hG : ∀ t e t', C t e → M.step t e = some t' → G t → G t')
    (hQ : ∀ t e t', C t e → M.step t e = some t' → Q t →
      G t' ∨ Q t' ∧ f t' ≤ f t ∧ (advance t t' → f t' < f t))
    (h : M.Path C advance s m s') (hs : Q s) (hm : f s < m) : G s' := by
  have hinv : G s' ∨ Q s' ∧ f s' + m ≤ f s := by
    clear hm
    induction h with
    | refl => exact .inr ⟨hs, Nat.le_refl _⟩
    | step _ hC ht ih =>
      rcases ih with hg | ⟨hq, hle⟩
      · exact .inl (hG _ _ _ hC ht hg)
      · rcases hQ _ _ _ hC ht hq with hg | ⟨hq', hle', -⟩
        · exact .inl hg
        · exact .inr ⟨hq', by omega⟩
    | advance _ hC ht ha ih =>
      rcases ih with hg | ⟨hq, hle⟩
      · exact .inl (hG _ _ _ hC ht hg)
      · rcases hQ _ _ _ hC ht hq with hg | ⟨hq', -, hlt⟩
        · exact .inl hg
        · have := hlt ha
          exact .inr ⟨hq', by omega⟩
  rcases hinv with hg | ⟨-, hle⟩
  · exact hg
  · omega

/-- The machine that only takes the steps a test admits. -/
def guard (M : Machine σ ε) (c : σ → ε → Bool) : Machine σ ε where
  init := M.init
  step s e := if c s e then M.step s e else none

theorem Reach.of_guard {c : σ → ε → Bool} (hc : ∀ s e, M.Reachable s → c s e = true → C s e)
    (h : (M.guard c).Reachable s) : M.Reach C s := by
  induction h with
  | init h => exact .init h
  | @step s s' e _ _ h ih =>
    change (if c s e = true then M.step s e else none) = some s' at h
    split_ifs at h with hce
    exact .step ih (hc _ _ ih.reachable hce) h

/-- The test rule for runs all of whose steps meet `C`. -/
theorem exists_reach_of_run {l : List ε} {p : σ → Prop} [∀ s e, Decidable (C s e)] [DecidablePred p]
    (h0 : M.init s)
    (h : ((M.guard fun s e => C s e).run s l).map (fun s => decide (p s)) = some true) :
    ∃ s', M.Reach C s' ∧ p s' := by
  obtain ⟨s', hs, hp⟩ := exists_reachable_of_run (M := M.guard fun s e => C s e) h0 h
  exact ⟨s', .of_guard (fun _ _ _ hc => of_decide_eq_true hc) hs, hp⟩

end Machine

end Lib
