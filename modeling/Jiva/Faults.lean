import Mathlib.Tactic.Ring

/-!
# Computations whose calls can fail, in a process that can stop

An `Act` is a computation on a state `σ` that makes calls at named sites. At most one of the
calls is disturbed, and the `Fate` says which one and how : it reports an error and does
nothing, or the process stops right after it. A computation returns a value, returns an
error, or stops, and in each case leaves a state behind.

Without a disturbance a computation is a function of the state (`calm_bind` and its like).

`Spec P x Q E C` is the triple of such a computation : from a state that meets `P` a value
comes with `Q`, an error with `E`, and a stop leaves a state that meets `C`. Assertions
read the fate too, so that an error can be traced to the call that failed. There is one rule for
each construct, and `Spec.call` is where the fate is split.
-/

namespace Faults

/-- Which call of a computation is disturbed, and how. -/
inductive Fate (S : Type)
  | calm
  | failAt (site : S)
  | crashAt (site : S)
  deriving DecidableEq, Repr

/-- How a computation ends. -/
inductive Exit (ε α : Type)
  | ok (a : α)
  | err (e : ε)
  | crash
  deriving DecidableEq, Repr

/-- A computation on `σ` with calls at the sites `S`. -/
def Act (σ S ε α : Type) : Type :=
  Fate S → σ → Exit ε α × σ

variable {σ S ε δ α β : Type}

namespace Act

instance : Monad (Act σ S ε) where
  pure a := fun _ s => (.ok a, s)
  bind x f := fun fate s =>
    match x fate s with
    | (.ok a, t) => f a fate t
    | (.err e, t) => (.err e, t)
    | (.crash, t) => (.crash, t)

/-- The state. -/
def get : Act σ S ε σ :=
  fun _ s => (.ok s, s)

/-- Change the state in memory. This is no call, and cannot fail. -/
def modify (f : σ → σ) : Act σ S ε Unit :=
  fun _ s => (.ok (), f s)

/-- Return an error. -/
def throw (e : ε) : Act σ S ε α :=
  fun _ s => (.err e, s)

/-- End the process. -/
def fatal : Act σ S ε α :=
  fun _ s => (.crash, s)

/-- A call : its effect, and the error it reports if it fails. -/
def call [DecidableEq S] (site : S) (e : ε) (f : σ → σ) : Act σ S ε Unit :=
  fun fate s =>
    if fate = .failAt site then (.err e, s)
    else if fate = .crashAt site then (.crash, f s)
    else (.ok (), f s)

/-- A call that reads. If it fails, its caller goes on with `other`. -/
def query [DecidableEq S] (site : S) (other : β) (q : σ → β) : Act σ S ε β :=
  fun fate s =>
    if fate = .failAt site then (.ok other, s)
    else if fate = .crashAt site then (.crash, s)
    else (.ok (q s), s)

/-- Go on with `h` after an error. -/
def handle (x : Act σ S ε α) (h : ε → Act σ S δ α) : Act σ S δ α :=
  fun fate s =>
    match x fate s with
    | (.ok a, t) => (.ok a, t)
    | (.err e, t) => h e fate t
    | (.crash, t) => (.crash, t)

/-- An error of `x` is logged and forgotten. -/
def attempt (x : Act σ S ε Unit) : Act σ S δ Unit :=
  x.handle fun _ => pure ()

/-- Clean up after an error of `x`, and return that error. -/
def onError (x : Act σ S ε α) (cleanup : Act σ S ε Unit) : Act σ S ε α :=
  x.handle fun e => do
    cleanup
    throw e

end Act

section Bind

variable {s t : σ} {fate : Fate S} {x : Act σ S ε α} {a : α}

theorem bind_apply (x : Act σ S ε α) (f : α → Act σ S ε β) : (x >>= f) fate s = match x fate s with
    | (.ok a, t) => f a fate t
    | (.err e, t) => (.err e, t)
    | (.crash, t) => (.crash, t) :=
  rfl

theorem bind_of_ok (h : x fate s = (.ok a, t)) (f : α → Act σ S ε β) :
    (x >>= f) fate s = f a fate t := by
  rw [bind_apply, h]

theorem bind_of_err {e : ε} (h : x fate s = (.err e, t)) (f : α → Act σ S ε β) :
    (x >>= f) fate s = (.err e, t) := by
  rw [bind_apply, h]

theorem bind_of_crash (h : x fate s = (.crash, t)) (f : α → Act σ S ε β) :
    (x >>= f) fate s = (.crash, t) := by
  rw [bind_apply, h]

theorem bind_assoc_apply (f : α → Act σ S ε β) (g : β → Act σ S ε δ) :
    ((x >>= f) >>= g) fate s = (x >>= fun a => f a >>= g) fate s := by
  rw [bind_apply, bind_apply, bind_apply]
  cases x fate s with
  | mk e t => cases e <;> rfl

theorem get_apply : (Act.get : Act σ S ε σ) fate s = (.ok s, s) :=
  rfl

theorem modify_apply (f : σ → σ) : (Act.modify f : Act σ S ε Unit) fate s = (.ok (), f s) :=
  rfl

end Bind

/-! ## Undisturbed computations

No call is disturbed under the fate `calm`, so a computation is a function of the state there, and
the lemmas below evaluate it. -/

section Calm

variable {s t : σ} {x : Act σ S ε α} {a : α}

@[simp] theorem calm_pure (a : α) : (pure a : Act σ S ε α) .calm s = (.ok a, s) :=
  rfl

@[simp] theorem calm_get : (Act.get : Act σ S ε σ) .calm s = (.ok s, s) :=
  rfl

@[simp] theorem calm_modify (f : σ → σ) : (Act.modify f : Act σ S ε Unit) .calm s = (.ok (), f s) :=
  rfl

@[simp] theorem calm_throw (e : ε) : (Act.throw e : Act σ S ε α) .calm s = (.err e, s) :=
  rfl

@[simp] theorem calm_fatal : (Act.fatal : Act σ S ε α) .calm s = (.crash, s) :=
  rfl

@[simp] theorem calm_call [DecidableEq S] (site : S) (e : ε) (f : σ → σ) :
    Act.call site e f .calm s = (.ok (), f s) := by
  simp [Act.call]

@[simp] theorem calm_query [DecidableEq S] (site : S) (other : β) (q : σ → β) :
    (Act.query site other q : Act σ S ε β) .calm s = (.ok (q s), s) := by
  simp [Act.query]

theorem calm_bind (h : x .calm s = (.ok a, t)) (f : α → Act σ S ε β) :
    (x >>= f) .calm s = f a .calm t :=
  bind_of_ok h f

/-- A computation that returns a value has come through its first part. -/
theorem calm_bind_ok {f : α → Act σ S ε β} {b : β} :
    (x >>= f) .calm s = (.ok b, t) ↔ ∃ a u, x .calm s = (.ok a, u) ∧ f a .calm u = (.ok b, t) := by
  show (match x .calm s with
    | (.ok a, t) => f a .calm t
    | (.err e, t) => (.err e, t)
    | (.crash, t) => (.crash, t)) = _ ↔ _
  rcases x .calm s with ⟨a | e | -, u⟩
  · constructor
    · exact fun h => ⟨a, u, rfl, h⟩
    · rintro ⟨a', u', heq, h⟩
      cases heq
      exact h
  · constructor
    · exact nofun
    · rintro ⟨a', u', heq, -⟩
      cases heq
  · constructor
    · exact nofun
    · rintro ⟨a', u', heq, -⟩
      cases heq

theorem calm_handle (h : x .calm s = (.ok a, t))
    (g : ε → Act σ S δ α) : x.handle g .calm s = (.ok a, t) := by
  unfold Act.handle
  rw [h]

/-- A computation that returns a value although an error would be passed on has returned it
itself. -/
theorem calm_handle_ok {g : ε → Act σ S δ α}
    (hg : ∀ e u, g e .calm u ≠ (.ok a, t)) (h : x.handle g .calm s = (.ok a, t)) :
    x .calm s = (.ok a, t) := by
  unfold Act.handle at h
  split at h
  · rename_i heq
    cases h
    exact heq
  · exact absurd h (hg _ _)
  · cases h

theorem calm_onError_ok {c : Act σ S ε Unit} :
    x.onError c .calm s = (.ok a, t) ↔ x .calm s = (.ok a, t) := by
  refine ⟨fun h => calm_handle_ok (fun e u h => ?_) h, fun h => calm_handle h _⟩
  obtain ⟨-, v, -, h⟩ := calm_bind_ok.1 h
  cases h

theorem calm_attempt {x : Act σ S ε Unit} (h : x .calm s = (.ok (), t)) :
    (x.attempt : Act σ S δ Unit) .calm s = (.ok (), t) :=
  calm_handle h _

end Calm

/-! ## One call fails

Under the fate `failAt site` the call at `site` returns its error and the other calls go through. -/

theorem call_failed [DecidableEq S] {s : σ} (site : S) (e : ε) (f : σ → σ) :
    Act.call site e f (.failAt site) s = (.err e, s) :=
  if_pos rfl

theorem call_failAt [DecidableEq S] {s : σ} {site other : S} (h : other ≠ site)
    (e : ε) (f : σ → σ) : Act.call site e f (.failAt other) s = (.ok (), f s) := by
  unfold Act.call
  rw [if_neg (by simpa using h), if_neg (by simp)]

theorem query_failAt [DecidableEq S] {s : σ} {site other : S} (h : other ≠ site)
    (b : β) (q : σ → β) :
    (Act.query site b q : Act σ S ε β) (.failAt other) s = (.ok (q s), s) := by
  unfold Act.query
  rw [if_neg (by simpa using h), if_neg (by simp)]

/-! ## Triples -/

/-- From `P`, a value comes with `Q`, an error with `E`, and a stop leaves `C`. -/
def Spec (P : Fate S → σ → Prop) (x : Act σ S ε α) (Q : α → Fate S → σ → Prop)
    (E : ε → Fate S → σ → Prop) (C : Fate S → σ → Prop) : Prop :=
  ∀ fate s, P fate s → match x fate s with
    | (.ok a, t) => Q a fate t
    | (.err e, t) => E e fate t
    | (.crash, t) => C fate t

namespace Spec

variable {P P' : Fate S → σ → Prop} {x : Act σ S ε α} {Q Q' : α → Fate S → σ → Prop}
  {E E' : ε → Fate S → σ → Prop} {C C' : Fate S → σ → Prop} {R : β → Fate S → σ → Prop}

theorem of_err (h : Spec P x Q E C) {fate : Fate S} {s t : σ} {e : ε} (hs : P fate s)
    (hx : x fate s = (.err e, t)) : E e fate t := by
  have := h fate s hs
  rwa [hx] at this

theorem consequence (h : Spec P x Q E C) (hP : ∀ fate s, P' fate s → P fate s)
    (hQ : ∀ a fate s, Q a fate s → Q' a fate s) (hE : ∀ e fate s, E e fate s → E' e fate s)
    (hC : ∀ fate s, C fate s → C' fate s) : Spec P' x Q' E' C' := by
  intro fate s hs
  have hx := h fate s (hP fate s hs)
  split at hx
  · exact hQ _ _ _ hx
  · exact hE _ _ _ hx
  · exact hC _ _ hx

theorem pre (h : Spec P x Q E C) (hP : ∀ fate s, P' fate s → P fate s) : Spec P' x Q E C :=
  h.consequence hP (fun _ _ _ => id) (fun _ _ _ => id) fun _ _ => id

/-- A fact of the precondition that is not about the state. -/
theorem given {A : Prop} (h : A → Spec P x Q E C) : Spec (fun fate s => P fate s ∧ A) x Q E C :=
  fun fate s hs => h hs.2 fate s hs.1

theorem pure {a : α} (h : ∀ fate s, P fate s → Q a fate s) :
    Spec P (Pure.pure a : Act σ S ε α) Q E C :=
  fun fate s hs => h fate s hs

theorem bind {f : α → Act σ S ε β} (hx : Spec P x Q E C)
    (hf : ∀ a, Spec (Q a) (f a) R E C) : Spec P (x >>= f) R E C := by
  intro fate s hs
  have h := hx fate s hs
  show match (match x fate s with
    | (.ok a, t) => f a fate t
    | (.err e, t) => (.err e, t)
    | (.crash, t) => (.crash, t)) with
    | (.ok a, t) => R a fate t
    | (.err e, t) => E e fate t
    | (.crash, t) => C fate t
  split at h
  · exact hf _ fate _ h
  · exact h
  · exact h

/-- The state that is read is the state of the precondition. -/
theorem get {f : σ → Act σ S ε β}
    (hf : ∀ s, Spec (fun fate t => t = s ∧ P fate s) (f s) R E C) :
    Spec P (Act.get >>= f) R E C := by
  intro fate s hs
  exact hf s fate s ⟨rfl, hs⟩

/-- The state that is read is the one before. -/
theorem get_eq {r : σ} {f : σ → Act σ S ε β} (hf : Spec (fun _ t => t = r) (f r) R E C) :
    Spec (fun _ t => t = r) (Act.get >>= f) R E C := by
  rintro fate s rfl
  exact hf fate s rfl

theorem modify {f : σ → σ} {Q : Unit → Fate S → σ → Prop}
    (h : ∀ fate s, P fate s → Q () fate (f s)) : Spec P (Act.modify f) Q E C :=
  fun fate s hs => h fate s hs

theorem throw {e : ε} (h : ∀ fate s, P fate s → E e fate s) : Spec P (Act.throw e) Q E C :=
  fun fate s hs => h fate s hs

theorem fatal (h : ∀ fate s, P fate s → C fate s) : Spec P Act.fatal Q E C :=
  fun fate s hs => h fate s hs

theorem ite {c : Prop} [Decidable c] {y : Act σ S ε α}
    (hx : c → Spec P x Q E C) (hy : ¬c → Spec P y Q E C) : Spec P (if c then x else y) Q E C := by
  split_ifs with h
  · exact hx h
  · exact hy h

theorem handle {h : ε → Act σ S δ α} {F : δ → Fate S → σ → Prop} (hx : Spec P x Q E C)
    (hh : ∀ e, Spec (E e) (h e) Q F C) : Spec P (x.handle h) Q F C := by
  intro fate s hs
  have h' := hx fate s hs
  unfold Act.handle
  split at h'
  · exact h'
  · exact hh _ fate _ h'
  · exact h'

theorem attempt {x : Act σ S ε Unit} {R : Fate S → σ → Prop} {F : δ → Fate S → σ → Prop}
    (hx : Spec P x (fun _ => R) (fun _ => R) C) : Spec P x.attempt (fun _ => R) F C :=
  hx.handle fun _ => Spec.pure fun _ _ => id

theorem onError {cleanup : Act σ S ε Unit} (hx : Spec P x Q E C)
    (hc : ∀ e, Spec (E e) cleanup (fun _ => E' e) E' C) : Spec P (x.onError cleanup) Q E' C :=
  hx.handle fun e => (hc e).bind fun _ => Spec.throw fun _ _ => id

section Calls

variable [DecidableEq S] {site : S}

theorem call {e : ε} {f : σ → σ}
    {Q : Unit → Fate S → σ → Prop} (hok : ∀ fate s, P fate s → fate ≠ .failAt site →
      Q () fate (f s))
    (herr : ∀ s, P (.failAt site) s → E e (.failAt site) s)
    (hcrash : ∀ s, P (.crashAt site) s → C (.crashAt site) (f s)) :
    Spec P (Act.call site e f) Q E C := by
  intro fate s hs
  unfold Act.call
  split_ifs with h1 h2
  · subst h1
    exact herr s hs
  · subst h2
    exact hcrash s hs
  · exact hok fate s hs h1

theorem query {other : β} {q : σ → β} {Q : β → Fate S → σ → Prop}
    (hok : ∀ fate s, P fate s → fate ≠ .failAt site → Q (q s) fate s)
    (herr : ∀ s, P (.failAt site) s → Q other (.failAt site) s)
    (hcrash : ∀ s, P (.crashAt site) s → C (.crashAt site) s) :
    Spec P (Act.query site other q) Q E C := by
  intro fate s hs
  unfold Act.query
  split_ifs with h1 h2
  · subst h1
    exact herr s hs
  · subst h2
    exact hcrash s hs
  · exact hok fate s hs h1

end Calls

end Spec

end Faults
