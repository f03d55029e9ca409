import TileTraffic.Channel.Assignment

/-!
What can be said about a computation before it is run: the property of its result, and that it does
not fail through a fault of the compiler itself. Both are stated at once, by `Yields` for plain
computations and by `Runs` for those with a state, and there is one rule for every way in which
the compiler puts computations together.
-/

namespace TileTraffic

namespace CompileError

/--
The compiler is to blame, and not the graph or the target.
-/
def isInternal : CompileError → Bool
  | .codeGen _ => true
  | .unsupportedPath (.channel _) (.channel _) _ => true
  | _ => false

@[simp]
theorem isInternal_atOp (e : CompileError) (op : Nat) (location : Option String) :
    (e.atOp op location).isInternal = e.isInternal := by
  cases e with
  | unsupportedPath src dst site => cases src <;> cases dst <;> rfl
  | _ => rfl

end CompileError

@[simp]
theorem Op.isInternal_blame (op : Op) (e : CompileError) :
    (op.blame e).isInternal = e.isInternal := by
  apply CompileError.isInternal_atOp

/--
The result of `x` satisfies `P`, unless `x` fails for a reason that lies in its input.
-/
def Yields {α : Type} (x : Except CompileError α) (P : α → Prop) : Prop :=
  match x with
  | .ok a => P a
  | .error e => e.isInternal = false

/--
The same for `x` started in state `s`, where `P` speaks of the final state too.
-/
def Runs {σ α : Type} (x : EStateM CompileError σ α) (s : σ) (P : α → σ → Prop) : Prop :=
  match x s with
  | .ok a s => P a s
  | .error e _ => e.isInternal = false

namespace Yields

variable {α β σ : Type} {x : Except CompileError α} {P Q : α → Prop}

theorem ok {a : α} (h : P a) : Yields (.ok a) P :=
  h

theorem pure {a : α} (h : P a) : Yields (Pure.pure a) P :=
  h

theorem error {e : CompileError} (h : e.isInternal = false) : Yields (.error e) P :=
  h

theorem throw {e : CompileError} (h : e.isInternal = false) :
    Yields (MonadExcept.throw e) P :=
  h

theorem of_eq_ok (h : Yields x P) {a : α} (ha : x = .ok a) : P a := by
  subst ha
  exact h

theorem of_eq_error (h : Yields x P) {e : CompileError} (he : x = .error e) :
    e.isInternal = false := by
  subst he
  exact h

theorem mono (h : Yields x P) (hPQ : ∀ a, P a → Q a) : Yields x Q := by
  cases x with
  | ok a => exact hPQ a h
  | error e => exact h

theorem with_eq (h : Yields x P) : Yields x fun a => x = .ok a ∧ P a := by
  cases x with
  | ok a => exact ⟨rfl, h⟩
  | error e => exact h

theorem bind {f : α → Except CompileError β} {R : β → Prop} (h : Yields x P)
    (hf : ∀ a, P a → Yields (f a) R) : Yields (x >>= f) R := by
  cases x with
  | ok a => exact hf a h
  | error e => exact h

theorem pure_bind {a : α} {f : α → Except CompileError β} {R : β → Prop} (h : Yields (f a) R) :
    Yields (Pure.pure a >>= f) R :=
  h

theorem map {f : α → β} {R : β → Prop} (h : Yields x fun a => R (f a)) : Yields (x.map f) R := by
  cases x with
  | ok a => exact h
  | error e => exact h

theorem mapError {f : CompileError → CompileError} (h : Yields x P)
    (hf : ∀ e, (f e).isInternal = e.isInternal) : Yields (x.mapError f) P := by
  cases x with
  | ok a => exact h
  | error e =>
    apply (hf e).trans
    exact h

/--
A property `I` of the elements seen so far and the state, kept by every step, holds of all elements
and the final state.
-/
theorem foldlM {f : σ → α → Except CompileError σ} (I : List α → σ → Prop) {as : List α} {s : σ}
    (h0 : I [] s)
    (hstep : ∀ done a, a ∈ as → ∀ s, I done s → Yields (f s a) (I (done ++ [a]))) :
    Yields (as.foldlM f s) (I as) := by
  suffices h : ∀ rest done s, (∀ a ∈ rest, a ∈ as) → I done s →
      Yields (rest.foldlM f s) (I (done ++ rest)) by
    apply h as [] s
    . simp
    . exact h0
  intro rest
  induction rest with
  | nil =>
    intro done s _ hs
    rw [List.append_nil]
    exact hs
  | cons a rest ih =>
    intro done s hmem hs
    rw [List.foldlM_cons, List.append_cons]
    apply bind
    . apply hstep
      . apply hmem
        simp
      . exact hs
    . intro s' hs'
      apply ih
      . intro b hb
        apply hmem
        simp [hb]
      . exact hs'

theorem threadM {f : σ → α → Except CompileError (β × σ)} (I : List α → List β → σ → Prop)
    {as : List α} {s : σ} (h0 : I [] [] s)
    (hstep : ∀ done bs a, a ∈ as → ∀ s, I done bs s →
      Yields (f s a) fun r => I (done ++ [a]) (bs ++ [r.1]) r.2) :
    Yields (threadM f s as) fun r => I as r.1 r.2 := by
  suffices h : ∀ rest done bs s, (∀ a ∈ rest, a ∈ as) → I done bs s →
      Yields (TileTraffic.threadM f s rest) fun r => I (done ++ rest) (bs ++ r.1) r.2 by
    apply h as [] [] s
    . simp
    . exact h0
  intro rest
  induction rest with
  | nil =>
    intro done bs s _ hs
    rw [List.append_nil]
    apply ok
    simpa using hs
  | cons a rest ih =>
    intro done bs s hmem hs
    unfold TileTraffic.threadM
    apply bind
    . apply hstep done bs a
      . apply hmem
        simp
      . exact hs
    . intro ⟨b, s'⟩ hs'
      apply bind
      . apply ih (done ++ [a]) (bs ++ [b]) s'
        . intro c hc
          apply hmem
          simp [hc]
        . exact hs'
      . intro ⟨cs, s''⟩ hs''
        apply pure
        simpa using hs''

theorem mapM {f : α → Except CompileError β} (I : List α → List β → Prop) {as : List α}
    (h0 : I [] [])
    (hstep : ∀ done bs a, a ∈ as → I done bs →
      Yields (f a) fun b => I (done ++ [a]) (bs ++ [b])) :
    Yields (as.mapM f) (I as) := by
  suffices h : ∀ rest done bs, (∀ a ∈ rest, a ∈ as) → I done bs →
      Yields (rest.mapM f) fun r => I (done ++ rest) (bs ++ r) by
    apply h as [] []
    . simp
    . exact h0
  intro rest
  induction rest with
  | nil =>
    intro done bs _ hs
    rw [List.append_nil]
    apply pure
    simpa using hs
  | cons a rest ih =>
    intro done bs hmem hs
    rw [List.mapM_cons]
    apply bind
    . apply hstep done bs a
      . apply hmem
        simp
      . exact hs
    . intro b hb
      apply bind
      . apply ih (done ++ [a]) (bs ++ [b])
        . intro c hc
          apply hmem
          simp [hc]
        . exact hb
      . intro cs hcs
        apply pure
        simpa using hcs

theorem forM {f : α → Except CompileError Unit} {as : List α}
    (h : ∀ a ∈ as, Yields (f a) fun _ => P a) : Yields (as.forM f) fun _ => ∀ a ∈ as, P a := by
  induction as with
  | nil =>
    apply pure
    simp
  | cons a as ih =>
    show Yields (f a >>= fun _ => as.forM f) _
    apply bind (h a (by simp))
    intro _ ha
    apply mono
    . apply ih
      intro b hb
      apply h
      simp [hb]
    . intro _ has
      simp [ha]
      exact has

end Yields

namespace Runs

variable {α β σ : Type} {x : EStateM CompileError σ α} {s : σ} {P Q : α → σ → Prop}

theorem pure {a : α} (h : P a s) : Runs (Pure.pure a) s P :=
  h

theorem get {P : σ → σ → Prop} (h : P s s) : Runs MonadState.get s P :=
  h

theorem set {s' : σ} {P : PUnit → σ → Prop} (h : P ⟨⟩ s') : Runs (MonadStateOf.set s') s P :=
  h

theorem modify {f : σ → σ} {P : PUnit → σ → Prop} (h : P ⟨⟩ (f s)) :
    Runs (modify f) s P :=
  h

theorem throw {e : CompileError} (h : e.isInternal = false) :
    Runs (MonadExcept.throw e) s P :=
  h

theorem mono (h : Runs x s P) (hPQ : ∀ a s, P a s → Q a s) : Runs x s Q := by
  unfold Runs at *
  cases hx : x s with
  | ok a s' =>
    rw [hx] at h
    exact hPQ a s' h
  | error e s' =>
    rw [hx] at h
    exact h

theorem bind {f : α → EStateM CompileError σ β} {R : β → σ → Prop} (h : Runs x s P)
    (hf : ∀ a s, P a s → Runs (f a) s R) : Runs (x >>= f) s R := by
  unfold Runs at *
  simp only [Bind.bind, EStateM.bind]
  cases hx : x s with
  | ok a s' =>
    rw [hx] at h
    exact hf a s' h
  | error e s' =>
    rw [hx] at h
    exact h

theorem ofExcept {x : Except CompileError α} (h : Yields x fun a => P a s) :
    Runs (MonadExcept.ofExcept x) s P := by
  cases x with
  | ok a => exact h
  | error e => exact h

theorem attempt (h : Runs x s P) (op : Op) : Yields (attempt op x s) fun r => P r.1 r.2 := by
  unfold Runs at h
  unfold TileTraffic.attempt
  cases hx : x s with
  | ok a s' =>
    rw [hx] at h
    exact h
  | error e s' =>
    rw [hx] at h
    apply Yields.error
    rw [Op.isInternal_blame]
    exact h

end Runs

theorem elementAt_yields {α : Type} {as : List α} {index : Nat} {a : α}
    (h : as[index]? = some a) : Yields (elementAt as index) fun b => b = a := by
  unfold elementAt
  rw [h]
  exact rfl

theorem remainder_yields {n divisor : Nat} (h : 0 < divisor) :
    Yields (remainder n divisor) fun r => r = n % divisor := by
  unfold remainder
  rw [if_pos h]
  exact rfl

end TileTraffic
