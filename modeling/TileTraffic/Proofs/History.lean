/-!
Histories: any number of requests, one after the other, each of which is granted or refused. A
refusal may leave its mark on the state too; where it does not, the requests that follow are answered
as if it had never been made.
-/

namespace TileTraffic

namespace History

variable {ε σ α ρ : Type}

/--
The state that a request leaves behind, be it granted or refused.
-/
def after (f : ρ → EStateM ε σ α) (s : σ) (r : ρ) : σ :=
  match f r s with
  | .ok _ s' => s'
  | .error _ s' => s'

def answer (f : ρ → EStateM ε σ α) (s : σ) (r : ρ) : Except ε α :=
  match f r s with
  | .ok a _ => .ok a
  | .error e _ => .error e

def afterAll (f : ρ → EStateM ε σ α) (s : σ) (rs : List ρ) : σ :=
  rs.foldl (after f) s

/--
What the requests are answered, one by one.
-/
def answers (f : ρ → EStateM ε σ α) (s : σ) : List ρ → List (Except ε α)
  | [] => []
  | r :: rs => answer f s r :: answers f (after f s r) rs

variable {f : ρ → EStateM ε σ α} {s s' : σ} {r : ρ} {a : α} {e : ε}

theorem after_of_ok (h : f r s = .ok a s') : after f s r = s' := by
  unfold after
  rw [h]

theorem after_of_error (h : f r s = .error e s') : after f s r = s' := by
  unfold after
  rw [h]

theorem answer_of_ok (h : f r s = .ok a s') : answer f s r = .ok a := by
  unfold answer
  rw [h]

theorem answer_of_error (h : f r s = .error e s') : answer f s r = .error e := by
  unfold answer
  rw [h]

@[simp]
theorem afterAll_nil : afterAll f s [] = s :=
  rfl

@[simp]
theorem afterAll_cons (rs : List ρ) : afterAll f s (r :: rs) = afterAll f (after f s r) rs :=
  rfl

theorem afterAll_append (rs rs' : List ρ) :
    afterAll f s (rs ++ rs') = afterAll f (afterAll f s rs) rs' :=
  List.foldl_append

theorem answers_append (rs rs' : List ρ) :
    answers f s (rs ++ rs') = answers f s rs ++ answers f (afterAll f s rs) rs' := by
  induction rs generalizing s with
  | nil => rfl
  | cons r rs ih =>
    rw [List.cons_append, answers, answers, ih, List.cons_append, afterAll_cons]

theorem length_answers (rs : List ρ) : (answers f s rs).length = rs.length := by
  induction rs generalizing s with
  | nil => rfl
  | cons r rs ih => rw [answers, List.length_cons, ih, List.length_cons]

/--
What every request keeps, every history keeps.
-/
theorem afterAll_invariant {I : σ → Prop} (h0 : I s) (hstep : ∀ s r, I s → I (after f s r))
    (rs : List ρ) : I (afterAll f s rs) := by
  induction rs generalizing s with
  | nil => exact h0
  | cons r rs ih => exact ih (hstep s r h0)

/--
A refusal that leaves the state alone can be struck out, and its answer with it.
-/
theorem strike_out {before : List ρ}
    (h : f r (afterAll f s before) = .error e (afterAll f s before)) (later : List ρ) :
    afterAll f s (before ++ r :: later) = afterAll f s (before ++ later) ∧
      (answers f s (before ++ r :: later)).eraseIdx before.length =
        answers f s (before ++ later) := by
  have hafter := after_of_error h
  constructor
  . rw [afterAll_append, afterAll_cons, hafter, afterAll_append]
  . rw [answers_append, answers, hafter, answers_append,
      List.eraseIdx_append_of_length_le (Nat.le_of_eq (length_answers before)), length_answers,
      Nat.sub_self, List.eraseIdx_cons_zero]

/-! ### What is granted -/

/--
The requests that are granted, each with what it is granted.
-/
def grants (f : ρ → EStateM ε σ α) (s : σ) (rs : List ρ) : List (ρ × α) :=
  (rs.zip (answers f s rs)).filterMap fun x => x.2.toOption.map fun a => (x.1, a)

theorem grants_cons_of_ok (h : f r s = .ok a s') (rs : List ρ) :
    grants f s (r :: rs) = (r, a) :: grants f s' rs := by
  unfold grants
  rw [answers, answer_of_ok h, after_of_ok h]
  rfl

theorem grants_cons_of_error (h : f r s = .error e s') (rs : List ρ) :
    grants f s (r :: rs) = grants f s' rs := by
  unfold grants
  rw [answers, answer_of_error h, after_of_error h]
  rfl

/--
What holds of the state and of what has been granted so far, and goes on to hold whether a request is
granted or refused, holds in the end.
-/
theorem grants_invariant {I : List (ρ × α) → σ → Prop} {done : List (ρ × α)} (h0 : I done s)
    (hok : ∀ done s r a s', I done s → f r s = .ok a s' → I (done ++ [(r, a)]) s')
    (herror : ∀ done s r e s', I done s → f r s = .error e s' → I done s') (rs : List ρ) :
    I (done ++ grants f s rs) (afterAll f s rs) := by
  induction rs generalizing s done with
  | nil =>
    rw [show grants f s [] = [] from rfl, List.append_nil]
    exact h0
  | cons r rs ih =>
    rw [afterAll_cons]
    cases hr : f r s with
    | ok a s' =>
      rw [grants_cons_of_ok hr, after_of_ok hr, List.append_cons]
      exact ih (hok done s r a s' h0 hr)
    | error e s' =>
      rw [grants_cons_of_error hr, after_of_error hr]
      exact ih (herror done s r e s' h0 hr)

/-! ### Some of the requests -/

/--
What those of the requests are answered that satisfy `q`, one by one.
-/
def answersOf (f : ρ → EStateM ε σ α) (q : ρ → Bool) (s : σ) (rs : List ρ) : List (Except ε α) :=
  ((rs.zip (answers f s rs)).filter fun x => q x.1).map Prod.snd

section answersOf

variable {q : ρ → Bool}

theorem answersOf_cons_of_pos (h : q r = true) (rs : List ρ) :
    answersOf f q s (r :: rs) = answer f s r :: answersOf f q (after f s r) rs := by
  unfold answersOf
  rw [answers, List.zip_cons_cons, List.filter_cons, if_pos h, List.map_cons]

theorem answersOf_cons_of_neg (h : q r = false) (rs : List ρ) :
    answersOf f q s (r :: rs) = answersOf f q (after f s r) rs := by
  unfold answersOf
  rw [answers, List.zip_cons_cons, List.filter_cons, if_neg (by simp [h])]

end answersOf

/--
What is seen of the state through `view` settles how the requests that satisfy `q` are answered and
what they make of the view. The other requests leave the view alone.
-/
structure Separates {β : Type} (f : ρ → EStateM ε σ α) (q : ρ → Bool) (view : σ → β) : Prop where
  answered : ∀ r, q r = true → ∀ s s', view s = view s' → answer f s r = answer f s' r
  seen : ∀ r, q r = true → ∀ s s', view s = view s' → view (after f s r) = view (after f s' r)
  unseen : ∀ r, q r = false → ∀ s, view (after f s r) = view s

namespace Separates

variable {β : Type} {q : ρ → Bool} {view : σ → β}

/--
All other requests can be left out.
-/
theorem purge (h : Separates f q view) (hs : view s = view s') (rs : List ρ) :
    answersOf f q s rs = answers f s' (rs.filter q) ∧
      view (afterAll f s rs) = view (afterAll f s' (rs.filter q)) := by
  induction rs generalizing s s' with
  | nil => exact ⟨rfl, hs⟩
  | cons r rs ih =>
    by_cases hr : q r = true
    . obtain ⟨hanswers, hview⟩ := ih (h.seen r hr s s' hs)
      rw [answersOf_cons_of_pos hr, List.filter_cons_of_pos hr, answers, hanswers,
        h.answered r hr s s' hs]
      exact ⟨rfl, hview⟩
    . have hother : q r = false := by simpa using hr
      rw [answersOf_cons_of_neg hother, List.filter_cons_of_neg hr]
      exact ih ((h.unseen r hother s).trans hs)

/--
Two histories in which the same requests satisfy `q` answer these requests alike and end up with the
same view, however other requests come in between.
-/
theorem apart (h : Separates f q view) (s : σ) {rs rs' : List ρ} (hrs : rs.filter q = rs'.filter q) :
    answersOf f q s rs = answersOf f q s rs' ∧
      view (afterAll f s rs) = view (afterAll f s rs') := by
  obtain ⟨hanswers, hview⟩ := h.purge (rfl : view s = view s) rs
  obtain ⟨hanswers', hview'⟩ := h.purge (rfl : view s = view s) rs'
  rw [hanswers, hanswers', hview, hview', hrs]
  exact ⟨rfl, rfl⟩

end Separates

end History

end TileTraffic
