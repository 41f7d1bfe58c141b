import Mathlib.Order.Nat
import Mathlib.Tactic.Common

/-!
# Stacked layers

Layers are numbered from `1`, the lowest, upwards. `P i s` says that layer `i` holds the
key `s`, and `top P u s` is the highest layer at or below `u` that holds it, `0` if none
does. What is seen through the layers up to `u` is read off that layer, so everything
about such a view is a fact about `top` : a layer that has a holder above it can lose
the key unseen (`top_punch`), the highest layer can gain it (`top_succ_of`), an empty layer
can be put on top (`top_succ_of_not`), and a layer merged into the one below it can be
taken out (`top_remove_of_le`).
-/

namespace Layered

variable {σ : Type*} {P Q : ℕ → σ → Bool} {u : ℕ} {s : σ}

/-- The highest layer among `1 .. u` that holds `s`, or `0`. -/
def top (P : ℕ → σ → Bool) : ℕ → σ → ℕ
  | 0, _ => 0
  | u + 1, s => if P (u + 1) s then u + 1 else top P u s

theorem top_succ_of (P : ℕ → σ → Bool) (h : P (u + 1) s = true) : top P (u + 1) s = u + 1 := by
  simp [top, h]

theorem top_succ_of_not (P : ℕ → σ → Bool) (h : P (u + 1) s = false) :
    top P (u + 1) s = top P u s := by
  simp [top, h]

theorem top_le (P : ℕ → σ → Bool) : ∀ (u : ℕ) (s : σ), top P u s ≤ u
  | 0, _ => le_rfl
  | u + 1, s => by
    have ih := top_le P u s
    unfold top
    split <;> omega

/-- The top layer holds the key. -/
theorem holds_top (P : ℕ → σ → Bool) : ∀ (u : ℕ) (s : σ), top P u s ≠ 0 → P (top P u s) s = true
  | 0, _, h => absurd rfl h
  | u + 1, s, h => by
    cases hp : P (u + 1) s with
    | true => rw [top_succ_of P hp]; exact hp
    | false =>
      rw [top_succ_of_not P hp] at h ⊢
      exact holds_top P u s h

/-- No holder at or below `u` is above the top layer. -/
theorem le_top (P : ℕ → σ → Bool) :
    ∀ {u i : ℕ} {s : σ}, i ≤ u → P i s = true → i ≠ 0 → i ≤ top P u s
  | 0, i, s, hi, _, h0 => by omega
  | u + 1, i, s, hi, hp, h0 => by
    cases hu : P (u + 1) s with
    | true => rw [top_succ_of P hu]; exact hi
    | false =>
      rw [top_succ_of_not P hu]
      refine le_top P ?_ hp h0
      rcases Nat.lt_or_ge i (u + 1) with h | h
      · omega
      · obtain rfl : i = u + 1 := by omega
        simp [hp] at hu

theorem top_ne_zero_iff :
    top P u s ≠ 0 ↔ ∃ i, 0 < i ∧ i ≤ u ∧ P i s = true := by
  refine ⟨fun h => ⟨_, Nat.pos_of_ne_zero h, top_le P u s, holds_top P u s h⟩, ?_⟩
  rintro ⟨i, h0, hi, hp⟩
  have := le_top P hi hp h0.ne'
  omega

theorem top_mono (P : ℕ → σ → Bool) {u w : ℕ} (huw : u ≤ w) (s : σ) : top P u s ≤ top P w s := by
  rcases Nat.eq_zero_or_pos (top P u s) with h0 | h0
  · omega
  · exact le_top P ((top_le P u s).trans huw) (holds_top P u s h0.ne') h0.ne'

/-- A layer is the top one if it holds the key, or is `0`, and no layer above it does. -/
theorem top_eq {u t : ℕ} (htu : t ≤ u) (ht : t ≠ 0 → P t s = true)
    (hn : ∀ i, t < i → i ≤ u → P i s = false) : top P u s = t := by
  rcases Nat.lt_trichotomy (top P u s) t with h | h | h
  · have := le_top P htu (ht (by omega)) (by omega)
    omega
  · exact h
  · have := holds_top P u s (by omega)
    rw [hn _ h (top_le P u s)] at this
    simp at this

theorem not_holds_of_top_lt {u i : ℕ} (h : top P u s < i)
    (hi : i ≤ u) : P i s = false := by
  by_contra hp
  have := le_top P hi (by simpa using hp) (by omega)
  omega

theorem top_congr
    (h : ∀ i, i ≠ 0 → i ≤ u → P i s = Q i s) : top P u s = top Q u s := by
  refine top_eq (top_le Q u s) (fun h0 => ?_) fun i hi hiu => ?_
  · rw [h _ h0 (top_le Q u s)]
    exact holds_top Q u s h0
  · rw [h i (by omega) hiu]
    exact not_holds_of_top_lt hi hiu

/-- Layers `Q` that hold no more than `P`, and hold the key where the top of `P` does. -/
theorem top_eq_of_le
    (hle : ∀ i, i ≠ 0 → i ≤ u → Q i s = true → P i s = true)
    (htop : top P u s ≠ 0 → Q (top P u s) s = true) : top Q u s = top P u s := by
  refine top_eq (top_le P u s) htop fun i hi hiu => ?_
  by_contra hq
  have := le_top P hiu (hle i (by omega) hiu (by simpa using hq)) (by omega)
  omega

/-- Layers that keep every key some layer above does not hold look the same. -/
theorem top_punch (hle : ∀ i, i ≠ 0 → i ≤ u → Q i s = true → P i s = true)
    (hcov : ∀ i, i ≠ 0 → i ≤ u → P i s = true → Q i s = false →
      ∃ j, i < j ∧ j ≤ u ∧ P j s = true) : top Q u s = top P u s := by
  refine top_eq_of_le hle fun h0 => ?_
  by_contra hq
  obtain ⟨j, hj, hju, hp⟩ :=
    hcov _ h0 (top_le P u s) (holds_top P u s h0) (by simpa using hq)
  have := le_top P hju hp (by omega)
  omega

/-- The view through fewer layers, when the layers in between do not hold the key. -/
theorem top_eq_of_between {u v : ℕ} (huv : u ≤ v)
    (h : ∀ i, u < i → i ≤ v → P i s = false) : top P v s = top P u s := by
  refine top_eq ((top_le P u s).trans huv) (holds_top P u s) fun i hi hiv => ?_
  rcases Nat.lt_or_ge u i with hu | hu
  · exact h i hu hiv
  · exact not_holds_of_top_lt hi hu

/-! ## Taking a layer out -/

/-- The layers without layer `k` : those above it move down by one. -/
def remove (P : ℕ → σ → Bool) (k i : ℕ) (s : σ) : Bool :=
  if i < k then P i s else P (i + 1) s

/-- If the layer below `k` holds what is seen in layer `k`, taking `k` out moves every top at or
above `k` down by one, and leaves the others. -/
theorem top_remove_of_le {k u : ℕ} (hk : 2 ≤ k) (hu : k ≤ u + 1)
    (hmerge : top P (u + 1) s = k → P (k - 1) s = true) :
    top (remove P k) u s =
      if k ≤ top P (u + 1) s then top P (u + 1) s - 1 else top P (u + 1) s := by
  have hle := top_le P (u + 1) s
  have hnot : ∀ i, top P (u + 1) s < i → i ≤ u + 1 → P i s = false :=
    fun i hi hiu => not_holds_of_top_lt hi hiu
  split_ifs with hkt
  · have hp := holds_top P (u + 1) s (by omega)
    refine top_eq (by omega) (fun _ => ?_) fun i hi hiu => ?_
    · unfold remove
      split_ifs with hlt
      · obtain heq : top P (u + 1) s = k := by omega
        rw [heq]
        exact hmerge heq
      · rw [show top P (u + 1) s - 1 + 1 = top P (u + 1) s by omega]
        exact hp
    · unfold remove
      split_ifs with hlt
      · omega
      · exact hnot _ (by omega) (by omega)
  · refine top_eq (by omega) (fun h0 => ?_) fun i hi hiu => ?_
    · simp only [remove, if_pos (show top P (u + 1) s < k by omega)]
      exact holds_top P (u + 1) s h0
    · unfold remove
      split_ifs with hlt
      · exact hnot i hi (by omega)
      · exact hnot _ (by omega) (by omega)

end Layered
