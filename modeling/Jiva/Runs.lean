import Mathlib.Data.List.Induction
import Mathlib.Logic.Function.Basic
import Mathlib.Data.Nat.Notation
import Mathlib.Tactic.TypeStar

/-!
# Runs of a labelled step function, and loops

A system is a partial step function `step : σ → α → Option σ`. A label carries every
choice the environment makes, so a run is a list of labels (`run`), and what a run must
meet is said step by step about the state before each step (`Along`). `inv_of_run` is
the induction : what good steps keep holds at the end of every good run. `since_of_run`
looks back for the step that brought about what holds at the end.

`foldl_range_rec` is the same rule for a counting loop written as a fold.
-/

namespace Transition

variable {σ α τ : Type*} {step : σ → α → Option σ} {good : σ → α → Prop}

/-- Run the labels in order. `none` if some step is not possible. -/
def run (step : σ → α → Option σ) : σ → List α → Option σ
  | s, [] => some s
  | s, a :: as => (step s a).bind fun s' => run step s' as

@[simp] theorem run_nil (step : σ → α → Option σ) (s : σ) : run step s [] = some s :=
  rfl

theorem run_cons (step : σ → α → Option σ) (s : σ) (a : α) (as : List α) :
    run step s (a :: as) = (step s a).bind fun s' => run step s' as :=
  rfl

theorem run_append (step : σ → α → Option σ) :
    ∀ (s : σ) (as bs : List α), run step s (as ++ bs) = (run step s as).bind fun s' =>
    run step s' bs
  | s, [], bs => by simp
  | s, a :: as, bs => by
    simp only [List.cons_append, run_cons]
    cases h : step s a with
    | none => simp
    | some s' => simpa using run_append step s' as bs

/-- Every step of the run from `s` meets `good` in the state before it. -/
def Along (step : σ → α → Option σ) (good : σ → α → Prop) : σ → List α → Prop
  | _, [] => True
  | s, a :: as => good s a ∧ ∀ s', step s a = some s' → Along step good s' as

theorem along_true (step : σ → α → Option σ) : ∀ (s : σ) (as : List α),
    Along step (fun _ _ => True) s as
  | _, [] => trivial
  | _, _ :: as => ⟨trivial, fun s' _ => along_true step s' as⟩

/-- `Along` for a condition that can be decided, as a computation. -/
def check (step : σ → α → Option σ) (good : σ → α → Prop) [∀ s a, Decidable (good s a)] :
    σ → List α → Bool
  | _, [] => true
  | s, a :: as => decide (good s a) &&
    match step s a with
    | none => true
    | some s' => check step good s' as

theorem along_of_check [∀ s a, Decidable (good s a)] :
    ∀ {s : σ} {as : List α}, check step good s as = true → Along step good s as
  | _, [], _ => trivial
  | s, a :: as, h => by
    rw [check, Bool.and_eq_true, decide_eq_true_eq] at h
    refine ⟨h.1, fun s' hs' => along_of_check ?_⟩
    simpa [hs'] using h.2

theorem along_append (good : σ → α → Prop) :
    ∀ {s s' : σ} {as : List α} (bs : List α), run step s as = some s' →
      (Along step good s (as ++ bs) ↔ Along step good s as ∧ Along step good s' bs)
  | s, s', [], bs, h => by
    obtain rfl : s = s' := by simpa using h
    simp [Along]
  | s, s', a :: as, bs, h => by
    obtain ⟨t, ht, h⟩ := Option.bind_eq_some_iff.1 h
    have ih := along_append good bs h
    constructor
    · rintro ⟨hg, hrest⟩
      refine ⟨⟨hg, fun t' ht' => ?_⟩, (ih.1 (hrest t ht)).2⟩
      obtain rfl : t = t' := Option.some.inj (ht.symm.trans ht')
      exact (ih.1 (hrest t ht)).1
    · rintro ⟨⟨hg, hrest⟩, hbs⟩
      refine ⟨hg, fun t' ht' => ?_⟩
      obtain rfl : t = t' := Option.some.inj (ht.symm.trans ht')
      exact ih.2 ⟨hrest t ht, hbs⟩

/-- What every good step keeps, every good run keeps. -/
theorem inv_of_run {I : σ → Prop}
    (hstep : ∀ s a s', I s → good s a → step s a = some s' → I s') :
    ∀ {s s' : σ} {as : List α}, I s → Along step good s as → run step s as = some s' → I s'
  | s, s', [], hI, _, h => by
    obtain rfl : s = s' := by simpa using h
    exact hI
  | s, s', a :: as, hI, hg, h => by
    obtain ⟨t, ht, h⟩ := Option.bind_eq_some_iff.1 h
    exact inv_of_run hstep (hstep s a t hI hg.1 ht) (hg.2 t ht) h

/-- What follows of the end of a run from what can be decided of it. -/
theorem exists_of_any {o : Option σ} {p q : σ → Prop} [DecidablePred p]
    (h : (o.any fun s => p s) = true) (hq : ∀ s, o = some s → p s → q s) :
    ∃ s, o = some s ∧ q s := by
  cases o with
  | none => cases h
  | some s => exact ⟨s, rfl, hq s rfl (of_decide_eq_true h)⟩

/-- Induction along a run, for what depends on the steps made so far. -/
theorem run_rec {P : List α → σ → Prop} {s₀ : σ}
    (h0 : P [] s₀) (hstep : ∀ as s a s', run step s₀ as = some s → P as s → good s a →
      step s a = some s' → P (as ++ [a]) s') (as : List α) :
    ∀ s, Along step good s₀ as → run step s₀ as = some s → P as s := by
  induction as using List.reverseRecOn with
  | nil =>
    intro s _ h
    obtain rfl : s₀ = s := by simpa using h
    exact h0
  | append_singleton as a ih =>
    intro s hg h
    rw [run_append] at h
    obtain ⟨t, ht, h⟩ := Option.bind_eq_some_iff.1 h
    rw [along_append good [a] ht] at hg
    obtain ⟨s', hs', h⟩ := Option.bind_eq_some_iff.1 h
    obtain rfl : s' = s := by simpa using h
    exact hstep as t a s' ht (ih t hg.1 ht) hg.2.1 hs'

/-- Some label of the run satisfies `Q`, and every state since then satisfies `P`. -/
def HeldSince (step : σ → α → Option σ) (Q : α → Prop) (P : σ → Prop) (s : σ) (as : List α) :
    Prop :=
  ∃ before a after t, as = before ++ a :: after ∧ Q a ∧ run step s (before ++ [a]) = some t ∧
    Along step (fun u _ => P u) t after

/-- What does not hold at first and comes about by labels in `Q` only has held since such a
label. -/
theorem since_of_run {Q : α → Prop} {P : σ → Prop} {s₀ : σ} (h0 : ¬P s₀)
    (hin : ∀ as s a s', run step s₀ as = some s → step s a = some s' → P s' → P s ∨ Q a)
    {as : List α} {s : σ} (h : run step s₀ as = some s) (hs : P s) : HeldSince step Q P s₀ as := by
  refine run_rec (P := fun as s => P s → HeldSince step Q P s₀ as) (fun hs => (h0 hs).elim)
    (fun as s a s' hrun ih _ hstep hs => ?_) as s (along_true ..) h hs
  rcases hin as s a s' hrun hstep hs with hold | hnew
  · obtain ⟨before, b, after, t, rfl, hb, ht, hall⟩ := ih hold
    have hafter : run step t after = some s := by
      rw [List.append_cons, run_append, ht] at hrun
      exact hrun
    exact ⟨before, b, after ++ [a], t, by simp, hb, ht, (along_append _ _ hafter).2 ⟨hall, hold,
      fun _ _ => trivial⟩⟩
  · refine ⟨as, a, [], s', rfl, hnew, ?_, trivial⟩
    rw [run_append, hrun, Option.bind_some, run_cons, hstep, Option.bind_some, run_nil]

/-- Invariant rule of a loop that counts from `0` to `n - 1`. -/
theorem foldl_range_rec {P : ℕ → τ → Prop} (f : τ → ℕ → τ) (x : τ) (h0 : P 0 x) :
    ∀ n, (∀ k y, k < n → P k y → P (k + 1) (f y k)) → P n ((List.range n).foldl f x)
  | 0, _ => h0
  | n + 1, hs => by
    rw [List.range_succ, List.foldl_append]
    exact hs n _ (by omega) (foldl_range_rec f x h0 n fun k y hk => hs k y (by omega))

end Transition
