import Mathlib.Data.List.Nodup
import Mathlib.Logic.Function.Basic

/-!
# Lists linked by next pointers

`next n` is what a node points to : `none` if the node is not there, `some none` at the end of a
list, and `some (some m)` if `m` comes next. `Follows next s ns` says that following the pointers
from `s` visits exactly the nodes `ns` and comes to an end. Only the nodes that are visited matter
(`Follows.congr`), and none of them is visited twice (`Follows.nodup`). A list can be read from any
of its nodes (`Follows.drop`), a node can be put before it (`Follows.cons`), and a node is taken out
by one change of a pointer (`Follows.unlink`). The pointers stand in a table of what is there, and
what a changed table has is what the old one had, or the change.
-/

namespace Links

open Function

section Table

variable {α β γ : Type*} [DecidableEq α] {f : α → Option β} {g : α → Option γ} {a b : α} {x y : β}

theorem update_none_eq_some : update f a none b = some y ↔ b ≠ a ∧ f b = some y := by
  simp [update_apply, ite_eq_iff]

theorem update_some_eq_some :
    update f a (some x) b = some y ↔ b = a ∧ x = y ∨ b ≠ a ∧ f b = some y := by
  simp [update_apply, ite_eq_iff]

/-- Two tables have the same entries, also when one changes in both. -/
theorem isSome_update {u : Option β} {v : Option γ} (h : ∀ b, (f b).isSome = (g b).isSome)
    (hu : u.isSome = v.isSome) (b : α) :
    (update f a u b).isSome = (update g a v b).isSome := by
  rcases eq_or_ne b a with rfl | hne
  · rw [update_self, update_self, hu]
  · rw [update_of_ne hne, update_of_ne hne, h]

theorem isSome_update_some (ha : (f a).isSome) : (update f a (some x) b).isSome = (f b).isSome := by
  rcases eq_or_ne b a with rfl | hne
  · rw [update_self, ha]
    rfl
  · rw [update_of_ne hne]

end Table

variable {ν : Type*} {next next' : ν → Option (Option ν)} {ns : List ν} {s : Option ν} {n : ν}

/-- From `s`, the pointers lead through `ns` to an end. -/
def Follows (next : ν → Option (Option ν)) : Option ν → List ν → Prop
  | s, [] => s = none
  | s, n :: ns => s = some n ∧ ∃ m, next n = some m ∧ Follows next m ns

theorem Follows.congr : ∀ {ns : List ν} {s : Option ν}, Follows next s ns →
    (∀ n ∈ ns, next' n = next n) → Follows next' s ns
  | [], _, h, _ => h
  | n :: _, _, ⟨hs, m, hm, h⟩, hn =>
    ⟨hs, m, by rw [hn n (by simp), hm], h.congr fun k hk => hn k (by simp [hk])⟩

theorem Follows.start (h : Follows next s ns) : s = ns.head? := by
  cases ns with
  | nil => exact h
  | cons n ns => exact h.1

theorem Follows.drop {bs : List ν} :
    ∀ {as : List ν} {s : Option ν}, Follows next s (as ++ n :: bs) → Follows next (some n) (n :: bs)
  | [], _, ⟨_, h⟩ => ⟨rfl, h⟩
  | _ :: _, _, ⟨_, _, _, h⟩ => h.drop

theorem Follows.cons (h : Follows next s ns)
    (hn : next n = some s) : Follows next (some n) (n :: ns) :=
  ⟨rfl, s, hn, h⟩

theorem Follows.next_eq {as bs : List ν}
    (h : Follows next s (as ++ n :: bs)) : next n = some bs.head? := by
  obtain ⟨-, m, hm, h⟩ := h.drop
  rw [hm, h.start]

theorem Follows.isSome : ∀ {ns : List ν} {s : Option ν}, Follows next s ns → ∀ n ∈ ns,
    (next n).isSome
  | n :: _, _, ⟨_, m, hm, h⟩, k, hk => by
    rcases List.mem_cons.1 hk with rfl | hk
    · rw [hm]
      rfl
    · exact h.isSome k hk

/-- A node of the list that points to another stands right before it. -/
theorem Follows.split {n m : ν} (h : Follows next s ns) (hn : n ∈ ns)
    (hm : next n = some (some m)) : ∃ as bs, ns = as ++ n :: m :: bs := by
  obtain ⟨as, cs, rfl⟩ := List.append_of_mem hn
  have heq := h.next_eq
  rw [hm, Option.some.injEq] at heq
  cases cs with
  | nil => cases heq
  | cons c bs =>
    cases heq
    exact ⟨as, bs, rfl⟩

/-- Pointers lead along one list only. -/
theorem Follows.unique : ∀ {as bs : List ν} {s : Option ν}, Follows next s as → Follows next s bs →
    as = bs
  | [], [], _, _, _ => rfl
  | [], _ :: _, _, ha, ⟨hb, _⟩ => by
    rw [show _ = none from ha] at hb
    cases hb
  | _ :: _, [], _, ⟨ha, _⟩, hb => by
    rw [show _ = none from hb] at ha
    cases ha
  | a :: as, b :: bs, _, ⟨ha, m, hm, h⟩, ⟨hb, m', hm', h'⟩ => by
    obtain rfl : a = b := Option.some.inj (ha.symm.trans hb)
    obtain rfl : m = m' := Option.some.inj (hm.symm.trans hm')
    rw [h.unique h']

/-- A list that comes to an end has no node twice : from there it would never end. -/
theorem Follows.nodup : ∀ {ns : List ν} {s : Option ν}, Follows next s ns → ns.Nodup
  | [], _, _ => List.nodup_nil
  | n :: ns, _, ⟨hs, m, hm, h⟩ => by
    refine List.nodup_cons.2 ⟨fun hn => ?_, h.nodup⟩
    obtain ⟨as, bs, rfl⟩ := List.append_of_mem hn
    have hlist : n :: (as ++ n :: bs) = n :: bs := Follows.unique ⟨rfl, m, hm, h⟩ h.drop
    have := congrArg List.length hlist
    simp only [List.length_cons, List.length_append] at this
    omega

theorem Follows.not_own (h : Follows next s ns) (hn : n ∈ ns) :
    next n ≠ some (some n) := by
  intro hm
  obtain ⟨as, bs, rfl⟩ := h.split hn hm
  have := h.nodup
  rw [List.nodup_append, List.nodup_cons] at this
  exact this.2.1.1 List.mem_cons_self

/-- No two nodes of the list point to the same node. -/
theorem Follows.pointer_unique {a b n : ν} (h : Follows next s ns) (ha : a ∈ ns)
    (hb : b ∈ ns) (han : next a = some (some n)) (hbn : next b = some (some n)) : a = b := by
  classical
  obtain ⟨as, cs, rfl⟩ := h.split ha han
  obtain ⟨bs, ds, heq⟩ := h.split hb hbn
  have hnot : ∀ {xs ys : List ν} {x : ν}, as ++ a :: n :: cs = xs ++ x :: n :: ys →
      n ∉ xs ++ [x] := by
    intro xs ys x hxs
    have hnd := h.nodup
    rw [hxs, show xs ++ x :: n :: ys = (xs ++ [x]) ++ n :: ys by simp, List.nodup_middle,
      List.nodup_cons] at hnd
    exact fun hn => hnd.1 (List.mem_append_left _ hn)
  have hplace : ∀ {xs ys : List ν} {x : ν}, as ++ a :: n :: cs = xs ++ x :: n :: ys →
      (as ++ a :: n :: cs).idxOf n = xs.length + 1 := by
    intro xs ys x hxs
    have hn := hnot hxs
    rw [hxs, show xs ++ x :: n :: ys = (xs ++ [x]) ++ n :: ys by simp,
      List.idxOf_append_of_notMem hn, List.idxOf_cons_self, List.length_append,
      List.length_singleton]
  have hlen : as.length = bs.length := Nat.succ.inj ((hplace rfl).symm.trans (hplace heq))
  exact (List.cons.inj (List.append_inj heq hlen).2).1

/-- Let `a`, which points to `n`, point to what `n` points to. -/
theorem Follows.unlink [DecidableEq ν] {a n : ν} {bs : List ν} : ∀ {as : List ν} {s : Option ν},
    Follows next s (as ++ a :: n :: bs) → (as ++ a :: n :: bs).Nodup →
    Follows (update next a (some bs.head?)) s (as ++ a :: bs)
  | [], s, ⟨hs, m, hm, hn⟩, hd => by
    obtain ⟨-, k, hk, h⟩ := hn
    refine ⟨hs, bs.head?, by simp, ?_⟩
    rw [← h.start]
    refine h.congr fun b hb => update_of_ne ?_ _ _
    rintro rfl
    simp [hb] at hd
  | b :: as, s, ⟨hs, m, hm, h⟩, hd => by
    refine ⟨hs, m, ?_, h.unlink (List.Nodup.of_cons hd)⟩
    rw [update_of_ne ?_, hm]
    rintro rfl
    simp at hd

end Links
