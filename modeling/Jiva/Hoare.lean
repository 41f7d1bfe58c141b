import Mathlib.Logic.Relation
import Mathlib.Tactic.Common

/-!
# Triples for computations on a state

`Triple P x Q` says that from a state that meets `P`, the computation `x` returns a value and leaves
a state that meet `Q`. There is one rule for each construct. `each` runs a computation for each
element of a list and collects the values, and `Triple.each` is the rule for it : an invariant that
may depend on the values so far.

`Keeps I S x` is about the way there : from a state that meets `I`, the computation `x` leads by
steps of `S` to a state that meets `I` again. What each step keeps is then kept by `x`, and to show
`Keeps` it is enough to look at the parts of `x`.
-/

namespace Hoare

variable {σ α β : Type} {f : α → StateM σ β}

/-- From `P`, the value and the state that `x` gives meet `Q`. -/
def Triple (P : σ → Prop) (x : StateM σ α) (Q : α → σ → Prop) : Prop :=
  ∀ s, P s → Q (x.run s).1 (x.run s).2

/-- Run `f` for each element, in order. -/
def each (f : α → StateM σ β) : List α → StateM σ (List β)
  | [] => pure []
  | a :: as => do
    let b ← f a
    let bs ← each f as
    pure (b :: bs)

theorem run_bind {x : StateM σ α} {s s' : σ} {a : α} (h : x.run s = (a, s')) :
    (x >>= f).run s = (f a).run s' := by
  rw [StateT.run_bind, h]
  rfl

namespace Triple

variable {P P' : σ → Prop} {x : StateM σ α} {Q Q' : α → σ → Prop}

theorem consequence (h : Triple P x Q) (hP : ∀ s, P' s → P s) (hQ : ∀ a s, Q a s → Q' a s) :
    Triple P' x Q' :=
  fun s hs => hQ _ _ (h s (hP s hs))

theorem pre (h : Triple P x Q) (hP : ∀ s, P' s → P s) : Triple P' x Q :=
  h.consequence hP fun _ _ => id

theorem post (h : Triple P x Q) (hQ : ∀ a s, Q a s → Q' a s) : Triple P x Q' :=
  h.consequence (fun _ => id) hQ

/-- The value and the state are those of the run. -/
theorem result (t : σ) : Triple (fun s => s = t) x fun a s => x.run t = (a, s) := by
  rintro s rfl
  rfl

/-- It is enough to look at each state of the precondition. -/
theorem fix (h : ∀ s, P s → Triple (fun t => t = s) x Q) : Triple P x Q :=
  fun s hs => h s hs s rfl

theorem and {P₁ P₂ : σ → Prop} {Q₁ Q₂ : α → σ → Prop} (h₁ : Triple P₁ x Q₁) (h₂ : Triple P₂ x Q₂) :
    Triple (fun s => P₁ s ∧ P₂ s) x fun a s => Q₁ a s ∧ Q₂ a s :=
  fun s hs => ⟨h₁ s hs.1, h₂ s hs.2⟩

theorem pure {a : α} (h : ∀ s, P s → Q a s) : Triple P (Pure.pure a) Q :=
  h

theorem bind {R : β → σ → Prop} (hx : Triple P x Q)
    (hf : ∀ a, Triple (Q a) (f a) R) : Triple P (x >>= f) R :=
  fun s hs => hf _ _ (hx s hs)

/-- The first two of three parts at once. -/
theorem bind₂ {γ : Type} {g : β → StateM σ γ} {Q : β → σ → Prop} {R : γ → σ → Prop}
    (hx : Triple P (x >>= f) Q) (hg : ∀ b, Triple (Q b) (g b) R) :
    Triple P (x >>= fun a => f a >>= g) R :=
  fun s hs => hg _ _ (hx s hs)

/-- The state that is read is the state of the precondition. -/
theorem get {f : σ → StateM σ β} {R : β → σ → Prop}
    (hf : ∀ s, P s → Triple (fun t => t = s) (f s) R) : Triple P (MonadState.get >>= f) R :=
  fun s hs => hf s hs s rfl

/-- A known state is changed into a known state. -/
theorem modify_bind {f : σ → σ} {g : PUnit → StateM σ β} {R : β → σ → Prop} {t : σ}
    (h : Triple (fun s => s = f t) (g ⟨⟩) R) : Triple (fun s => s = t) (modify f >>= g) R := by
  rintro s rfl
  exact h _ rfl

theorem modify {f : σ → σ} {Q : PUnit → σ → Prop} (h : ∀ s, P s → Q ⟨⟩ (f s)) :
    Triple P (modify f) Q :=
  h

theorem ite {c : Prop} [Decidable c] {y : StateM σ α} (hx : c → Triple P x Q)
    (hy : ¬c → Triple P y Q) : Triple P (if c then x else y) Q := by
  split_ifs with h
  · exact hx h
  · exact hy h

/-- The invariant may depend on the values so far. -/
theorem each {I : List β → σ → Prop} :
    ∀ {as : List α} (bs : List β), (∀ a ∈ as, ∀ bs, Triple (I bs) (f a) fun b => I (bs ++ [b])) →
      Triple (I bs) (each f as) fun cs => I (bs ++ cs)
  | [], bs, _ => Triple.pure fun s hs => by simpa using hs
  | a :: _, bs, hf => by
    refine Triple.bind (hf a (by simp) bs) fun b => ?_
    refine Triple.bind (Triple.each (bs ++ [b]) fun x hx => hf x (by simp [hx])) fun cs => ?_
    exact Triple.pure fun s hs => by simpa using hs

/-- An invariant of every round is one of the loop. -/
theorem forM {f : α → StateM σ PUnit} {I : σ → Prop} :
    ∀ {as : List α}, (∀ a ∈ as, Triple I (f a) fun _ => I) → Triple I (List.forM as f) fun _ => I
  | [], _ => Triple.pure fun _ => id
  | a :: _, hf => Triple.bind (hf a (by simp)) fun _ =>
      Triple.forM fun b hb => hf b (by simp [hb])

end Triple

/-! ## Steps -/

open Relation

/-- From a state that meets `I`, the computation `x` leads by steps of `S` to a state that meets `I`
again. -/
def Keeps (I : σ → Prop) (S : σ → σ → Prop) (x : StateM σ α) : Prop :=
  ∀ s, I s → I (x.run s).2 ∧ ReflTransGen S s (x.run s).2

namespace Keeps

variable {I : σ → Prop} {S : σ → σ → Prop} {x : StateM σ α}

theorem of_triple
    (h : ∀ s₀, I s₀ → Triple (fun s => s = s₀) x fun _ s => I s ∧ ReflTransGen S s₀ s) :
    Keeps I S x :=
  fun s hs => h s hs s rfl

theorem triple (h : Keeps I S x) : Triple I x fun _ => I :=
  fun s hs => (h s hs).1

theorem pure (a : α) : Keeps I S (Pure.pure a) :=
  fun _ hs => ⟨hs, .refl⟩

theorem bind (hx : Keeps I S x) (hf : ∀ a, Keeps I S (f a)) : Keeps I S (x >>= f) :=
  fun s hs =>
    ⟨(hf _ _ (hx s hs).1).1, (hx s hs).2.trans (hf _ _ (hx s hs).1).2⟩

theorem get {f : σ → StateM σ β} (hf : ∀ s, Keeps I S (f s)) : Keeps I S (MonadState.get >>= f) :=
  fun s hs => hf s s hs

theorem modify {f : σ → σ} (h : ∀ s, I s → I (f s) ∧ S s (f s)) : Keeps I S (modify f) :=
  fun s hs => ⟨(h s hs).1, .single (h s hs).2⟩

theorem ite {c : Prop} [Decidable c] {y : StateM σ α} (hx : c → Keeps I S x)
    (hy : ¬c → Keeps I S y) : Keeps I S (if c then x else y) := by
  split_ifs with h
  · exact hx h
  · exact hy h

theorem each (hf : ∀ a, Keeps I S (f a)) :
    ∀ as : List α, Keeps I S (each f as)
  | [] => pure []
  | a :: as => bind (hf a) fun b => bind (each hf as) fun bs => pure (b :: bs)

theorem each_of_mem :
    ∀ {as : List α}, (∀ a ∈ as, Keeps I S (f a)) → Keeps I S (Hoare.each f as)
  | [], _ => pure []
  | a :: _, hf => bind (hf a (by simp)) fun b =>
      bind (each_of_mem fun x hx => hf x (by simp [hx])) fun bs => pure (b :: bs)

theorem forM {f : α → StateM σ PUnit} (hf : ∀ a, Keeps I S (f a)) :
    ∀ as : List α, Keeps I S (List.forM as f)
  | [] => pure PUnit.unit
  | a :: as => bind (hf a) fun _ => forM hf as

end Keeps

/-- From `I` to `I`, by whatever steps. -/
abbrev Preserves (I : σ → Prop) (x : StateM σ α) : Prop :=
  Keeps I (fun _ _ => True) x

theorem Triple.preserves {I : σ → Prop} {x : StateM σ α} (h : Triple I x fun _ => I) :
    Preserves I x :=
  fun s hs => ⟨h s hs, .single trivial⟩

end Hoare
