import Jiva.Mirror

/-!
# Calls that read

A call that reads from a replica changes nothing, and if it has no error its value is that of the
replica. `getLatestSnapshot_spec` is what follows for `GetLatestSnapshot` : if it returns a
snapshot, it is the latest one of every data replica.
-/

namespace Jiva

open Hoare Controller

/-- The world has only moved along its tape. -/
structure Unchanged (w w' : World) : Prop where
  c : w'.c = w.c
  nodes : w'.nodes = w.nodes
  signals : w'.signals = w.signals

theorem Unchanged.trans {w w' w'' : World} (h : Unchanged w w') (h' : Unchanged w' w'') :
    Unchanged w w'' :=
  ⟨h'.c.trans h.c, h'.nodes.trans h.nodes, h'.signals.trans h.signals⟩

theorem unchanged_advance (w : World) : Unchanged w w.advance :=
  ⟨rfl, rfl, rfl⟩

theorem iterate_spec (as : List Address) (w : World) :
    Triple (fun s => s = w) (iterate as) fun order s => order.Perm as ∧ s = w.advance := by
  rintro s rfl
  exact ⟨(s.tape 0).order_perm _, rfl⟩

theorem query_run {β : Type} (a : Address) (f : Node → β) (w : World) :
    (query a f).run w = (match (w.tape 0).reply.err with
        | some e => .error e
        | none => .ok (f (w.nodes a)), w.advance) := by
  cases h : (w.tape 0).reply.err with
  | none =>
    simp [query, moment, h]
    rfl
  | some e =>
    simp [query, moment, h]
    rfl

/-- A call that reads changes nothing, and gives the value if it has no error. -/
theorem query_spec {β : Type} (a : Address) (f : Node → β) (w : World) :
    Triple (fun s => s = w) (query a f) fun res s => s = w.advance ∧ ∀ y, res = .ok y →
    y = f (w.nodes a) := by
  rintro s rfl
  rw [query_run]
  refine ⟨rfl, fun y hy => ?_⟩
  cases h : (s.tape 0).reply.err with
  | some e => simp [h] at hy
  | none => simpa [h] using hy.symm

/-- The replicas `as` were asked for `f`, with the answers `res`. -/
structure Asked {β : Type} (f : Node → β) (as : List Address) (res : List (Except String β))
    (w w' : World) : Prop where
  unchanged : Unchanged w w'
  length : res.length = as.length
  value : ∀ p ∈ as.zip res, ∀ y, p.2 = .ok y → y = f (w.nodes p.1)

theorem each_query {β : Type} (f : Node → β) : ∀ (as : List Address) (w : World),
    Triple (fun s => s = w) (each (fun a => query a f) as) fun res => Asked f as res w
  | [], w => by
    rintro s rfl
    exact ⟨⟨rfl, rfl, rfl⟩, rfl, fun p hp => by simp at hp⟩
  | a :: as, w => by
    refine .bind (query_spec a f w) fun r => .fix ?_
    rintro _ ⟨rfl, hr⟩
    refine .bind (each_query f as w.advance) fun res => .pure fun w₂ h₂ => ?_
    refine ⟨(unchanged_advance w).trans h₂.unchanged, by simp [h₂.length], fun p hp y hy => ?_⟩
    rw [List.zip_cons_cons, List.mem_cons] at hp
    rcases hp with rfl | hp
    · exact hr y hy
    · exact h₂.value p hp y hy

/-! ## The latest snapshot -/

theorem head_of_commonSnapshot {s : Option String} : ∀ {chains : List (List String)}
    {snapName : Option String}, Replicator.commonSnapshot chains snapName = .ok s →
      (∀ chain ∈ chains, chain.head? = s) ∧ (snapName ≠ none → s = snapName)
  | [], snapName, h => by
    obtain rfl : snapName = s := Except.ok.inj h
    exact ⟨by simp, fun _ => rfl⟩
  | [] :: _, _, h => nomatch h
  | (x :: xs) :: chains, none, h => by
    have h' : Replicator.commonSnapshot chains (some x) = .ok s := h
    obtain ⟨hall, hs⟩ := head_of_commonSnapshot h'
    refine ⟨fun chain hc => ?_, fun hne => (hne rfl).elim⟩
    rcases List.mem_cons.1 hc with rfl | hc
    · exact (hs (Option.some_ne_none x)).symm
    · exact hall chain hc
  | (x :: xs) :: chains, some x', h => by
    rw [Replicator.commonSnapshot] at h
    split at h
    · rename_i hx
      obtain ⟨hall, hs⟩ := head_of_commonSnapshot h
      have hs := hs (Option.some_ne_none x')
      refine ⟨fun chain hc => ?_, fun _ => hs⟩
      rcases List.mem_cons.1 hc with rfl | hc
      · rw [hs, hx]
        rfl
      · exact hall chain hc
    · exact nomatch h

/-- The errors are those among the answers. -/
theorem ok_of_errorsOf {β : Type} {as : List Address} {res : List (Except String β)}
    {g : Except String β → Option String} (hg : ∀ e, g (.error e) = some e)
    (h : errorsOf as (res.map g) = []) {p : Address × Except String β} (hp : p ∈ as.zip res) :
    ∃ y, p.2 = .ok y := by
  rw [errorsOf, List.zip_map_right, List.filterMap_map, List.filterMap_eq_nil_iff] at h
  have hnone := h p hp
  obtain ⟨a, r⟩ := p
  cases r with
  | error e => simp [hg e] at hnone
  | ok y => exact ⟨y, rfl⟩

theorem exists_mem_zip {β : Type} {as : List Address} {res : List β} (h : res.length = as.length)
    {a : Address} (ha : a ∈ as) : ∃ r, (a, r) ∈ as.zip res := by
  have hmap : (as.zip res).map Prod.fst = as := List.map_fst_zip (by omega)
  rw [← hmap] at ha
  obtain ⟨⟨x, r⟩, hp, rfl⟩ := List.mem_map.1 ha
  exact ⟨r, hp⟩

/-- If there is a latest snapshot, then it is the one of every data replica. -/
theorem getLatestSnapshot_spec (w : World) :
    Triple (fun s => s = w) Replicator.getLatestSnapshot fun res s => Unchanged w s ∧
      ∀ latest, res = .ok latest → ∀ a ∈ w.c.backend.backends.keys,
      (w.nodes a).snaps.head? = latest := by
  refine .get fun w₀ h₀ => ?_
  subst h₀
  refine .bind (iterate_spec _ w₀) fun order => .fix ?_
  rintro _ ⟨horder, rfl⟩
  refine .bind (each_query Node.snaps _ w₀.advance) fun res => .fix fun w₂ h₂ => ?_
  have hw₂ : Unchanged w₀ w₂ := (unchanged_advance w₀).trans h₂.unchanged
  refine .ite (fun _ => .pure fun s hs => hs ▸ ⟨hw₂, nofun⟩) fun herrs => ?_
  refine .ite (fun _ => .pure fun s hs => hs ▸ ⟨hw₂, nofun⟩) fun hlen => ?_
  refine .bind (iterate_spec _ w₂) fun order' => .fix ?_
  rintro _ ⟨horder', rfl⟩
  have hw₃ : Unchanged w₀ w₂.advance := hw₂.trans (unchanged_advance w₂)
  dsimp only
  split
  · rename_i latest hcommon
    refine .pure fun s hs => hs ▸ ⟨hw₃, fun s' hs' a ha => ?_⟩
    obtain rfl := Except.ok.inj hs'
    have hall : w₀.c.backend.leadingRW order = order :=
      (List.takeWhile_prefix _).eq_of_length ((not_not.1 hlen).trans horder.length_eq.symm)
    have hmem : a ∈ w₀.c.backend.leadingRW order := by
      rw [hall]
      exact horder.mem_iff.2 ha
    obtain ⟨r, hr⟩ := exists_mem_zip h₂.length hmem
    obtain ⟨p, hp⟩ := Option.isSome_iff_exists.1
      ((List.find?_isSome (p := fun p : Address × _ => decide (p.1 = a))).2 ⟨_, hr, by simp⟩)
    have hpa : p.1 = a := by simpa using List.find?_some hp
    obtain ⟨y, hy⟩ := ok_of_errorsOf (fun _ => rfl) (not_not.1 herrs) (List.mem_of_find?_eq_some hp)
    have hvalue := h₂.value p (List.mem_of_find?_eq_some hp) y hy
    rw [hpa] at hvalue
    refine (head_of_commonSnapshot hcommon).1 _ (List.mem_filterMap.2 ⟨a, horder'.mem_iff.2 hmem,
      ?_⟩)
    rw [hp, Option.bind_some, hy, hvalue]
    rfl
  · exact .pure fun s hs => hs ▸ ⟨hw₃, nofun⟩

end Jiva
