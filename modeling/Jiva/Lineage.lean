import Mathlib.Data.List.Basic
import Mathlib.Logic.Function.Basic

/-!
# Tables of lineages

A table gives for each node that exists the list of the nodes below it, nearest first. The table is
a `Forest` if what it gives for a node is what following the nodes downwards gives (`Linked`), and
no node is below itself. A new node can be put on top of any linked list (`Forest.add`), and a node
can be taken out of every list (`Forest.erase`). Being below a node (`Under`) is kept by both, and
goes over to everything that is further up (`Under.head`).
-/

namespace Lineage

open Function

variable {α : Type*} {below : α → Option (List α)} {l rest : List α} {c d s t : α}

/-- Each node of the list has the rest of the list below it. -/
def Linked (below : α → Option (List α)) : List α → Prop
  | [] => True
  | s :: rest => below s = some rest ∧ Linked below rest

/-- What is below each node is linked, and does not have the node in it. -/
structure Forest (below : α → Option (List α)) : Prop where
  linked : ∀ s rest, below s = some rest → Linked below rest
  acyclic : ∀ s rest, below s = some rest → s ∉ rest

/-- The node `d` is somewhere below `c`. -/
def Under (below : α → Option (List α)) (d c : α) : Prop :=
  ∃ rest, below c = some rest ∧ d ∈ rest

theorem Linked.suffix_of_mem : ∀ {l : List α}, Linked below l → s ∈ l → ∃ rest,
    below s = some rest ∧ rest <:+ l
  | t :: l, ⟨ht, hl⟩, hs => by
    rcases List.mem_cons.1 hs with rfl | hs
    · exact ⟨l, ht, List.suffix_cons _ _⟩
    · obtain ⟨rest, hrest, hsuffix⟩ := hl.suffix_of_mem hs
      exact ⟨rest, hrest, hsuffix.trans (List.suffix_cons _ _)⟩

theorem Linked.of_append : ∀ {l : List α}, Linked below (l ++ s :: rest) → below s = some rest
  | [], h => h.1
  | _ :: _, h => Linked.of_append h.2

theorem Linked.not_mem (h : Linked below l) (hs : below s = none) : s ∉ l := fun hmem => by
  obtain ⟨rest, hrest, -⟩ := h.suffix_of_mem hmem
  simp [hs] at hrest

theorem forest_empty : Forest fun _ : α => none :=
  ⟨nofun, nofun⟩

theorem Under.ne (h : Forest below) (hd : Under below d c) : d ≠ c := by
  obtain ⟨rest, hrest, hmem⟩ := hd
  rintro rfl
  exact h.acyclic d rest hrest hmem

/-- What is below a node of a linked list is below its first node. -/
theorem Under.head (hl : Linked below (t :: l)) (hc : c ∈ t :: l) (hd : Under below d c) :
    Under below d t := by
  obtain ⟨rest, hrest, hmem⟩ := hd
  rcases List.mem_cons.1 hc with rfl | hc
  · exact ⟨rest, hrest, hmem⟩
  · obtain ⟨rest', hrest', hsuffix⟩ := hl.2.suffix_of_mem hc
    obtain rfl := Option.some.inj (hrest.symm.trans hrest')
    exact ⟨l, hl.1, hsuffix.subset hmem⟩

variable [DecidableEq α]

/-! ## A new node -/

theorem Linked.add (x : Option (List α)) (hs : below s = none) : ∀ {l : List α}, Linked below l →
    Linked (update below s x) l
  | [], _ => trivial
  | t :: l, h => by
    refine ⟨?_, h.2.add x hs⟩
    rw [update_of_ne, h.1]
    rintro rfl
    exact nomatch hs.symm.trans h.1

theorem Linked.cons (hs : below s = none) (h : Linked below l) :
    Linked (update below s (some l)) (s :: l) :=
  ⟨update_self _ _ _, h.add _ hs⟩

theorem Forest.add (h : Forest below) (hs : below s = none) (hl : Linked below l) :
    Forest (update below s (some l)) where
  linked := fun t rest ht => by
    rcases eq_or_ne t s with rfl | hne
    · rw [update_self] at ht
      obtain rfl := Option.some.inj ht
      exact hl.add _ hs
    · rw [update_of_ne hne] at ht
      exact (h.linked t rest ht).add _ hs
  acyclic := fun t rest ht => by
    rcases eq_or_ne t s with rfl | hne
    · rw [update_self] at ht
      obtain rfl := Option.some.inj ht
      exact hl.not_mem hs
    · rw [update_of_ne hne] at ht
      exact h.acyclic t rest ht

theorem Under.add (x : Option (List α)) (hs : below s = none) (h : Under below d c) :
    Under (update below s x) d c := by
  obtain ⟨rest, hrest, hmem⟩ := h
  refine ⟨rest, ?_, hmem⟩
  rw [update_of_ne, hrest]
  rintro rfl
  simp [hs] at hrest

/-! ## A node that goes -/

/-- The list without the node. -/
def without (d : α) (l : List α) : List α :=
  l.filter fun s => decide (s ≠ d)

/-- The table without the node. -/
def erase (d : α) (below : α → Option (List α)) (s : α) : Option (List α) :=
  if s = d then none else (below s).map (without d)

theorem mem_without : s ∈ without d l ↔ s ∈ l ∧ s ≠ d := by
  simp [without]

theorem erase_eq_some (h : erase d below s = some l) :
    ∃ rest, below s = some rest ∧ l = without d rest := by
  unfold erase at h
  split_ifs at h
  obtain ⟨rest, hrest, rfl⟩ := Option.map_eq_some_iff.1 h
  exact ⟨rest, hrest, rfl⟩

theorem Linked.erase (h : Linked below l) : Linked (Lineage.erase d below) (without d l) := by
  induction l with
  | nil => trivial
  | cons s l ih =>
    rcases eq_or_ne s d with rfl | hne
    · simpa [without] using ih h.2
    · have hcons : without d (s :: l) = s :: without d l := by simp [without, hne]
      rw [hcons]
      refine ⟨?_, ih h.2⟩
      rw [Lineage.erase, if_neg hne, h.1]
      rfl

theorem Forest.erase (h : Forest below) : Forest (Lineage.erase d below) where
  linked := fun s l hs => by
    obtain ⟨rest, hrest, rfl⟩ := erase_eq_some hs
    exact (h.linked s rest hrest).erase
  acyclic := fun s l hs hmem => by
    obtain ⟨rest, hrest, rfl⟩ := erase_eq_some hs
    exact h.acyclic s rest hrest (mem_without.1 hmem).1

end Lineage
