import TileTraffic.Channel.Assignment

/-!
What failures say. `Fails` and `Raises` look at the errors of a computation and leave its results
alone. The requests that stages make of each other fail without knowing which op they were made for;
it is for the stage to report the failure against the op, and once it has done so the report stays
as it is.
-/

namespace TileTraffic

namespace Op

def site (op : Op) : Site :=
  ⟨some op.id, op.location⟩

end Op

namespace CompileError

/--
The op an error is reported against. Some errors concern no op in particular.
-/
def site? : CompileError → Option Site
  | .capacityExhausted _ site => some site
  | .unsupportedPath _ _ site => some site
  | .nonStaticShape _ op location => some ⟨some op, location⟩
  | .unresolvedBroadcast _ _ site => some site
  | .incompleteFold _ => none
  | .invalidGraph _ site => some site
  | .codeGen _ => none

/--
The error is reported against no other op than this one, or is a senseless request.
-/
def Concerns (op : Op) (e : CompileError) : Prop :=
  (∃ m, e = .codeGen m) ∨ e.site? = some .unknown ∨ e.site? = some op.site

/--
The error is reported against an op of the graph with its id and location, or is a senseless
request.
-/
def Sited (g : Graph) (e : CompileError) : Prop :=
  (∃ m, e = .codeGen m) ∨ ∃ op ∈ g.ops, e.site? = some op.site

variable {g : Graph} {e : CompileError} {op : Op}

theorem concerns_codeGen (m : Misuse) : (codeGen m).Concerns op :=
  .inl ⟨m, rfl⟩

theorem concerns_capacity (what : Shortage) : (capacity what).Concerns op :=
  .inr (.inl rfl)

theorem concerns_path (src dst : PathEnd) : (path src dst).Concerns op :=
  .inr (.inl rfl)

theorem concerns_graph (what : GraphFault) : (CompileError.graph what).Concerns op :=
  .inr (.inl rfl)

theorem sited_codeGen (m : Misuse) : (codeGen m).Sited g :=
  .inl ⟨m, rfl⟩

theorem site?_atOp (id : Nat) (location : Option String) (e : CompileError) :
    (∃ what op location, e = .nonStaticShape what op location) ∨
      (e.atOp id location).site? = e.site?.map fun site => site.orElse id location := by
  cases e with
  | nonStaticShape what op location => exact .inl ⟨what, op, location, rfl⟩
  | _ => exact .inr rfl

/--
Reporting an error against the op that it concerns leaves nothing open.
-/
theorem Concerns.site?_blame (h : e.Concerns op) :
    (∃ m, op.blame e = .codeGen m) ∨ (op.blame e).site? = some op.site := by
  rcases h with ⟨m, rfl⟩ | h
  . exact .inl ⟨m, rfl⟩
  . right
    rcases site?_atOp op.id op.location e with ⟨what, id, location, rfl⟩ | hmap
    . obtain ⟨rfl, rfl⟩ : id = op.id ∧ location = op.location := by
        simpa [site?, Site.unknown, Op.site] using h
      simp [Op.blame, atOp, site?, Op.site]
    . unfold Op.blame
      rw [hmap]
      rcases h with h | h
      . rw [h]
        rfl
      . rw [h]
        rfl

theorem Concerns.concerns_blame (h : e.Concerns op) : (op.blame e).Concerns op := by
  rcases h.site?_blame with hm | hsite
  . exact .inl hm
  . exact .inr (.inr hsite)

theorem Concerns.sited_blame (h : e.Concerns op) (hop : op ∈ g.ops) : (op.blame e).Sited g := by
  rcases h.site?_blame with hm | hsite
  . exact .inl hm
  . exact .inr ⟨op, hop, hsite⟩

end CompileError

/--
If the computation fails, then with an error that satisfies `E`.
-/
def Fails {α : Type} (x : Except CompileError α) (E : CompileError → Prop) : Prop :=
  match x with
  | .ok _ => True
  | .error e => E e

/--
A closed computation that fails, with what can be decided of its error.
-/
theorem exists_error_of_decide {ε α : Type} {x : Except ε α} {E : ε → Prop} [∀ e, Decidable (E e)]
    (h : (match x with
      | .ok _ => false
      | .error e => decide (E e)) = true) : ∃ e, x = .error e ∧ E e := by
  cases x with
  | ok a => cases h
  | error e => exact ⟨e, rfl, of_decide_eq_true h⟩

/--
The same for the result of a computation with a state.
-/
def Refused {σ α : Type} (r : EStateM.Result CompileError σ α) (E : CompileError → Prop) : Prop :=
  match r with
  | .ok _ _ => True
  | .error e _ => E e

/--
If the computation fails in state `s`, then with an error that satisfies `E`.
-/
def Raises {σ α : Type} (x : EStateM CompileError σ α) (s : σ) (E : CompileError → Prop) : Prop :=
  Refused (x s) E

namespace Fails

variable {α β σ : Type} {x : Except CompileError α} {E E' : CompileError → Prop}

theorem of_eq_error (h : Fails x E) {e : CompileError} (he : x = .error e) : E e := by
  subst he
  exact h

theorem mono (h : Fails x E) (hE : ∀ e, E e → E' e) : Fails x E' := by
  cases x with
  | ok a => trivial
  | error e => exact hE e h

theorem with_eq (h : Fails x E) : Fails x fun e => x = .error e ∧ E e := by
  cases x with
  | ok a => trivial
  | error e => exact ⟨rfl, h⟩

theorem bind {f : α → Except CompileError β} (h : Fails x E)
    (hf : ∀ a, x = .ok a → Fails (f a) E) : Fails (x >>= f) E := by
  cases x with
  | ok a => exact hf a rfl
  | error e => exact h

theorem map {f : α → β} (h : Fails x E) : Fails (x.map f) E := by
  cases x with
  | ok a => trivial
  | error e => exact h

theorem foldlM {f : σ → α → Except CompileError σ} {as : List α} {s : σ}
    (h : ∀ s, ∀ a ∈ as, Fails (f s a) E) : Fails (as.foldlM f s) E := by
  induction as generalizing s with
  | nil => trivial
  | cons a as ih =>
    rw [List.foldlM_cons]
    apply bind (h s a (by simp))
    intro s' _
    apply ih
    intro s b hb
    exact h s b (by simp [hb])

theorem mapM {f : α → Except CompileError β} {as : List α} (h : ∀ a ∈ as, Fails (f a) E) :
    Fails (as.mapM f) E := by
  induction as with
  | nil => trivial
  | cons a as ih =>
    rw [List.mapM_cons]
    apply bind (h a (by simp))
    intro b _
    apply bind
    . apply ih
      intro c hc
      exact h c (by simp [hc])
    . intro bs _
      trivial

theorem threadM {f : σ → α → Except CompileError (β × σ)} {as : List α} {s : σ}
    (h : ∀ s, ∀ a ∈ as, Fails (f s a) E) : Fails (threadM f s as) E := by
  induction as generalizing s with
  | nil => trivial
  | cons a as ih =>
    unfold TileTraffic.threadM
    apply bind (h s a (by simp))
    intro ⟨b, s'⟩ _
    apply bind
    . apply ih
      intro s c hc
      exact h s c (by simp [hc])
    . intro ⟨bs, s''⟩ _
      trivial

end Fails

namespace Raises

variable {α β σ : Type} {x : EStateM CompileError σ α} {s : σ} {E : CompileError → Prop}

theorem bind {f : α → EStateM CompileError σ β} (h : Raises x s E)
    (hf : ∀ a s', Raises (f a) s' E) : Raises (x >>= f) s E := by
  unfold Raises Refused at *
  simp only [Bind.bind, EStateM.bind]
  cases hx : x s with
  | ok a s' => exact hf a s'
  | error e s' =>
    rw [hx] at h
    exact h

theorem ofExcept {x : Except CompileError α} (h : Fails x E) :
    Raises (MonadExcept.ofExcept x) s E := by
  cases x with
  | ok a => trivial
  | error e => exact h

/--
Whatever a stage is refused, it reports against the op that it was for.
-/
theorem attempt {g : Graph} {op : Op} (h : Raises x s (CompileError.Concerns op)) (hop : op ∈ g.ops) :
    Fails (attempt op x s) (CompileError.Sited g) := by
  unfold Raises Refused at h
  unfold TileTraffic.attempt
  cases hx : x s with
  | ok a s' => trivial
  | error e s' =>
    rw [hx] at h
    exact h.sited_blame hop

end Raises

theorem elementAt_fails {α : Type} (as : List α) (index : Nat) {E : CompileError → Prop}
    (hE : ∀ m, E (.codeGen m)) : Fails (elementAt as index) E := by
  unfold elementAt
  split
  . trivial
  . apply hE

theorem remainder_fails (n divisor : Nat) {E : CompileError → Prop} (hE : ∀ m, E (.codeGen m)) :
    Fails (remainder n divisor) E := by
  unfold remainder
  split
  . trivial
  . apply hE

end TileTraffic
