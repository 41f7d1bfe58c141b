import Mathlib.Data.Set.Finite.Basic
import Mathlib.Data.Fintype.Pigeonhole
import Mathlib.Data.Nat.Find

/-!
# Walks along pointers that may lead back

`next a` is where `a` points to, if it points anywhere. `walk next k s` is where `k` steps from `s`
lead, and `none` if the walk has ended before. A walk among finitely many nodes ends if and only if
it never comes to a node for the second time (`ends_iff`).
-/

namespace Walks

variable {α : Type*} {next : α → Option α}

/-- `k` steps from `s`. -/
def walk (next : α → Option α) : ℕ → Option α → Option α
  | 0, s => s
  | k + 1, s => walk next k (s.bind next)

@[simp] theorem walk_none : ∀ k : ℕ, walk next k none = none
  | 0 => rfl
  | k + 1 => walk_none k

theorem walk_succ' : ∀ (k : ℕ) (s : Option α), walk next (k + 1) s = (walk next k s).bind next
  | 0, _ => rfl
  | k + 1, s => walk_succ' k (s.bind next)

theorem walk_add (i : ℕ) :
    ∀ (j : ℕ) (s : Option α), walk next (i + j) s = walk next j (walk next i s)
  | 0, _ => rfl
  | j + 1, s => by
    rw [← Nat.add_assoc, walk_succ', walk_add i j, walk_succ']

/-- A walk that has ended does not go on. -/
theorem walk_of_le {k m : ℕ} {s : Option α} (h : walk next k s = none) (hkm : k ≤ m) :
    walk next m s = none := by
  obtain ⟨d, rfl⟩ := Nat.exists_eq_add_of_le hkm
  rw [walk_add, h, walk_none]

/-- The walk comes to a node for the second time. -/
def Repeats (next : α → Option α) (s : Option α) : Prop :=
  ∃ i j, i < j ∧ walk next i s = walk next j s ∧ (walk next i s).isSome

/-- From a node that comes again, the walk goes round. -/
theorem Repeats.isSome {s : Option α} (h : Repeats next s) (k : ℕ) : (walk next k s).isSome := by
  obtain ⟨i, j, hij, heq, hsome⟩ := h
  by_contra hnone
  -- take the first end of the walk, and go back by one round
  have hex : ∃ k, walk next k s = none := ⟨k, by simpa using hnone⟩
  classical
  set m := Nat.find hex with hm
  have hend : walk next m s = none := Nat.find_spec hex
  have hj : j < m := by
    by_contra hle
    rw [heq, walk_of_le hend (Nat.le_of_not_lt hle)] at hsome
    cases hsome
  have hback : walk next (i + (m - j)) s = none := by
    rw [walk_add, heq, ← walk_add, Nat.add_sub_cancel' hj.le]
    exact hend
  exact Nat.find_min hex (by omega) hback

/-- Among finitely many nodes, a walk ends or comes to a node for the second time. -/
theorem ends_iff {S : Set α} (hS : S.Finite) {s : Option α}
    (hmem : ∀ k a, walk next k s = some a → a ∈ S) : (∃ k, walk next k s = none) ↔
    ¬Repeats next s := by
  constructor
  · rintro ⟨k, hk⟩ hrep
    have := hrep.isSome k
    rw [hk] at this
    cases this
  · intro hrep
    by_contra hnever
    have hsome : ∀ k, ∃ a, walk next k s = some a := fun k =>
      Option.ne_none_iff_exists'.1 fun hk => hnever ⟨k, hk⟩
    choose a ha using hsome
    have : Finite S := hS
    obtain ⟨i, j, hne, heq⟩ :=
      Finite.exists_ne_map_eq_of_infinite fun k => (⟨a k, hmem k _ (ha k)⟩ : S)
    have heq : walk next i s = walk next j s := by
      rw [ha i, ha j]
      exact congrArg _ (congrArg Subtype.val heq)
    rcases Nat.lt_or_gt_of_ne hne with hlt | hlt
    · exact hrep ⟨i, j, hlt, heq, by rw [ha i]; rfl⟩
    · exact hrep ⟨j, i, hlt, heq.symm, by rw [ha j]; rfl⟩

end Walks
