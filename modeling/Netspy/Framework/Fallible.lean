import Mathlib.Tactic.Common

/-!
# Programs that may raise

A program changes a state, and returns or raises; what it changed before it raised stays
changed, as in a language with exceptions and mutable objects. `WP` is its weakest
precondition: what the state must be, so that `Q` holds if it returns and `E` if it
raises. It is computed along the program (`wp_bind`, `wp_tryCatch`, `wp_tryFinally`), and
what a called program is known to do is used by `WP.mono`.
-/

universe u

def Fallible (σ ε α : Type u) : Type u := σ → Except ε α × σ

namespace Fallible

variable {σ ε α β : Type u}

instance : Monad (Fallible σ ε) where
  pure a s := (.ok a, s)
  bind m f s :=
    match m s with
    | (.ok a, t) => f a t
    | (.error e, t) => (.error e, t)

instance : MonadStateOf σ (Fallible σ ε) where
  get s := (.ok s, s)
  set t _ := (.ok ⟨⟩, t)
  modifyGet f s := (.ok (f s).1, (f s).2)

instance : MonadExceptOf ε (Fallible σ ε) where
  throw e s := (.error e, s)
  tryCatch m handler s :=
    match m s with
    | (.ok a, t) => (.ok a, t)
    | (.error e, t) => handler e t

/-- What the finalizer raises takes the place of what was raised before. -/
instance : MonadFinally (Fallible σ ε) where
  tryFinally' m finalizer s :=
    match m s with
    | (.ok a, t) =>
      match finalizer (some a) t with
      | (.ok b, u) => (.ok (a, b), u)
      | (.error e, u) => (.error e, u)
    | (.error e, t) =>
      match finalizer none t with
      | (.ok _, u) => (.error e, u)
      | (.error e, u) => (.error e, u)

def WP (m : Fallible σ ε α) (Q : α → σ → Prop) (E : ε → σ → Prop) (s : σ) : Prop :=
  match m s with
  | (.ok a, t) => Q a t
  | (.error e, t) => E e t

variable {m m' : Fallible σ ε α} {s : σ} {Q Q' : α → σ → Prop} {E E' : ε → σ → Prop}

theorem WP.mono (h : WP m Q E s) (hQ : ∀ a t, Q a t → Q' a t) (hE : ∀ e t, E e t → E' e t) : WP m Q' E' s := by
  unfold WP at h ⊢
  split at h
  · exact hQ _ _ h
  · exact hE _ _ h

/-- What holds of the state that a program leaves, however it ends. -/
theorem WP.final {I : σ → Prop} (h : WP m (fun _ => I) (fun _ => I) s) : I (m s).2 := by
  unfold WP at h
  split at h
  next heq => rwa [heq]
  next heq => rwa [heq]

@[simp] theorem wp_pure (a : α) : WP (pure a) Q E s ↔ Q a s := Iff.rfl

@[simp] theorem wp_throw (e : ε) : WP (throw e) Q E s ↔ E e s := Iff.rfl

@[simp] theorem wp_get {Q : σ → σ → Prop} : WP get Q E s ↔ Q s s := Iff.rfl

@[simp] theorem wp_set {Q : PUnit → σ → Prop} (t : σ) : WP (set t) Q E s ↔ Q ⟨⟩ t := Iff.rfl

@[simp] theorem wp_modify {Q : PUnit → σ → Prop} (f : σ → σ) : WP (modify f) Q E s ↔ Q ⟨⟩ (f s) := Iff.rfl

theorem bind_apply (m : Fallible σ ε α) (f : α → Fallible σ ε β) (s : σ) :
    (m >>= f) s =
      match m s with
      | (.ok a, t) => f a t
      | (.error e, t) => (.error e, t) := rfl

theorem tryCatch_apply (m : Fallible σ ε α) (handler : ε → Fallible σ ε α) (s : σ) :
    (tryCatch m handler) s =
      match m s with
      | (.ok a, t) => (.ok a, t)
      | (.error e, t) => handler e t := rfl

theorem tryFinally_apply (m : Fallible σ ε α) (finalizer : Fallible σ ε β) (s : σ) :
    (tryFinally m finalizer) s =
      match finalizer (m s).2 with
      | (.ok _, t) => ((m s).1, t)
      | (.error e, t) => (.error e, t) := by
  simp only [tryFinally, Functor.map, tryFinally']
  rcases m s with ⟨e | a, t⟩
  · dsimp only
    rcases finalizer t with ⟨e' | b, u⟩
    · rfl
    · rfl
  · dsimp only
    rcases finalizer t with ⟨e' | b, u⟩
    · rfl
    · rfl

@[simp] theorem wp_bind (f : α → Fallible σ ε β) {Q : β → σ → Prop} :
    WP (m >>= f) Q E s ↔ WP m (fun a => WP (f a) Q E) E s := by
  unfold WP
  rw [bind_apply]
  rcases m s with ⟨e | a, t⟩
  · rfl
  · rfl

@[simp] theorem wp_tryCatch (handler : ε → Fallible σ ε α) :
    WP (tryCatch m handler) Q E s ↔ WP m Q (fun e => WP (handler e) Q E) s := by
  unfold WP
  rw [tryCatch_apply]
  rcases m s with ⟨e | a, t⟩
  · rfl
  · rfl

@[simp] theorem wp_tryFinally (finalizer : Fallible σ ε β) :
    WP (tryFinally m finalizer) Q E s ↔
      WP m (fun a => WP finalizer (fun _ => Q a) E) (fun e => WP finalizer (fun _ => E e) E) s := by
  unfold WP
  rw [tryFinally_apply]
  rcases m s with ⟨e | a, t⟩
  · dsimp only
    rcases finalizer t with ⟨e' | b, u⟩
    · rfl
    · rfl
  · dsimp only
    rcases finalizer t with ⟨e' | b, u⟩
    · rfl
    · rfl

theorem wp_ite {p : Prop} [Decidable p] : WP (if p then m else m') Q E s ↔ if p then WP m Q E s else WP m' Q E s := by
  split
  · rfl
  · rfl

end Fallible
