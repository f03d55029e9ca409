import TileTraffic.Channel.Assignment

/-!
Computations that succeed, taken apart: what a sequence, a map or a fold has come up with is what
its parts have come up with. Where `Yields` says what to expect of a computation before it is run,
these lemmas say what must have happened once its result is known.
-/

namespace TileTraffic

variable {ε α β σ : Type}

theorem bind_eq_ok {x : Except ε α} {f : α → Except ε β} {b : β} (h : x >>= f = .ok b) :
    ∃ a, x = .ok a ∧ f a = .ok b := by
  cases x with
  | ok a => exact ⟨a, rfl, h⟩
  | error e => cases h

theorem map_eq_ok {x : Except ε α} {f : α → β} {b : β} (h : x.map f = .ok b) :
    ∃ a, x = .ok a ∧ f a = b := by
  cases x with
  | ok a => exact ⟨a, rfl, Except.ok.inj h⟩
  | error e => cases h

theorem mapError_eq_ok_iff {ε' : Type} {x : Except ε α} {f : ε → ε'} {a : α} :
    x.mapError f = .ok a ↔ x = .ok a := by
  cases x with
  | ok b =>
    constructor
    . intro h
      rw [Except.ok.inj h]
    . intro h
      obtain rfl := Except.ok.inj h
      rfl
  | error e => exact iff_of_false (fun h => nomatch h) (fun h => nomatch h)

/--
A closed computation that succeeds, with what can be decided of its result.
-/
theorem exists_ok_of_decide {x : Except ε α} {P : α → Prop} [∀ a, Decidable (P a)]
    (h : (match x with
      | .ok a => decide (P a)
      | .error _ => false) = true) : ∃ a, x = .ok a ∧ P a := by
  cases x with
  | error e => cases h
  | ok a => exact ⟨a, rfl, of_decide_eq_true h⟩

theorem exists_of_isOk {x : Except ε α} (h : x.isOk = true) : ∃ a, x = .ok a := by
  cases x with
  | error e => cases h
  | ok a => exact ⟨a, rfl⟩

/--
Two closed computations that succeed, with what can be decided of their results.
-/
theorem exists_of_decide {x : Except ε α} {y : Except ε β} {P : α → β → Prop}
    [∀ a b, Decidable (P a b)]
    (h : (match x with
      | .ok a =>
        match y with
        | .ok b => decide (P a b)
        | .error _ => false
      | .error _ => false) = true) : ∃ a b, x = .ok a ∧ y = .ok b ∧ P a b := by
  cases x with
  | error e => cases h
  | ok a =>
    cases y with
    | error e => cases h
    | ok b => exact ⟨a, b, rfl, rfl, of_decide_eq_true h⟩

theorem attempt_eq_ok {op : Op} {x : EStateM CompileError σ α} {s s' : σ} {a : α}
    (h : attempt op x s = .ok (a, s')) : x s = .ok a s' := by
  unfold attempt at h
  split at h
  . next heq =>
    obtain ⟨rfl, rfl⟩ := Prod.mk.inj (Except.ok.inj h)
    exact heq
  . cases h

theorem run_bind_eq_ok {x : EStateM ε σ α} {f : α → EStateM ε σ β} {s s' : σ} {b : β}
    (h : (x >>= f) s = .ok b s') : ∃ a s₁, x s = .ok a s₁ ∧ f a s₁ = .ok b s' := by
  simp only [Bind.bind, EStateM.bind] at h
  cases hx : x s with
  | ok a s₁ =>
    rw [hx] at h
    exact ⟨a, s₁, rfl, h⟩
  | error e s₁ =>
    rw [hx] at h
    cases h

theorem run_bind_of_eq_ok {x : EStateM ε σ α} {f : α → EStateM ε σ β} {s s' : σ} {a : α}
    (h : x s = .ok a s') : (x >>= f) s = f a s' := by
  simp only [Bind.bind, EStateM.bind]
  rw [h]

theorem run_bind_of_eq_error {x : EStateM ε σ α} {f : α → EStateM ε σ β} {s s' : σ} {e : ε}
    (h : x s = .error e s') : (x >>= f) s = .error e s' := by
  simp only [Bind.bind, EStateM.bind]
  rw [h]

theorem run_ofExcept {x : Except ε α} {s : σ} {a : α} (h : x = .ok a) :
    (MonadExcept.ofExcept x : EStateM ε σ α) s = .ok a s := by
  rw [h]
  rfl

theorem run_ofExcept_eq_ok {x : Except ε α} {s s' : σ} {a : α}
    (h : (MonadExcept.ofExcept x : EStateM ε σ α) s = .ok a s') : x = .ok a ∧ s = s' := by
  cases x with
  | ok b =>
    obtain ⟨rfl, rfl⟩ := EStateM.Result.ok.inj h
    exact ⟨rfl, rfl⟩
  | error e => cases h

theorem elementAt_of_getElem? {as : List α} {n : Nat} {a : α} (h : as[n]? = some a) :
    elementAt as n = .ok a := by
  unfold elementAt
  rw [h]

theorem elementAt_eq_ok {as : List α} {n : Nat} {a : α} (h : elementAt as n = .ok a) :
    as[n]? = some a := by
  unfold elementAt at h
  split at h
  . next heq =>
    obtain rfl := Except.ok.inj h
    exact heq
  . cases h

theorem remainder_of_pos {n divisor : Nat} (h : 0 < divisor) :
    remainder n divisor = .ok (n % divisor) := by
  unfold remainder
  rw [if_pos h]

theorem remainder_eq_ok {n divisor r : Nat} (h : remainder n divisor = .ok r) :
    r = n % divisor := by
  unfold remainder at h
  split at h
  . exact (Except.ok.inj h).symm
  . cases h

/--
A map that succeeds has succeeded everywhere: what is known of each result is known of all.
-/
theorem map_eq_of_mapM_eq_ok {γ : Type} {f : α → Except ε β} {p : α → γ} {q : β → γ} {as : List α}
    {bs : List β} (h : as.mapM f = .ok bs) (hf : ∀ a b, f a = .ok b → q b = p a) :
    bs.map q = as.map p := by
  induction as generalizing bs with
  | nil =>
    obtain rfl := Except.ok.inj h
    rfl
  | cons a as ih =>
    rw [List.mapM_cons] at h
    obtain ⟨b, hb, h⟩ := bind_eq_ok h
    obtain ⟨bs', hbs, h⟩ := bind_eq_ok h
    obtain rfl := Except.ok.inj h
    rw [List.map_cons, List.map_cons, hf a b hb, ih hbs]

theorem mapM_eq_ok {f : α → Except ε β} {as : List α} {bs : List β} (h : as.mapM f = .ok bs) :
    as.map f = bs.map .ok :=
  (map_eq_of_mapM_eq_ok h fun _ _ hb => hb.symm).symm

theorem getElem?_of_mapM_eq_ok {f : α → Except ε β} {as : List α} {bs : List β}
    (h : as.mapM f = .ok bs) (n : Nat) : as[n]?.map f = bs[n]?.map .ok := by
  rw [← List.getElem?_map, ← List.getElem?_map, mapM_eq_ok h]

theorem mem_of_mapM_eq_ok {f : α → Except ε β} {as : List α} {bs : List β}
    (h : as.mapM f = .ok bs) {b : β} (hb : b ∈ bs) : ∃ a ∈ as, f a = .ok b := by
  have hmem : Except.ok b ∈ as.map f := by
    rw [mapM_eq_ok h]
    exact List.mem_map_of_mem hb
  exact List.mem_map.mp hmem

theorem exists_of_mapM_eq_ok {f : α → Except ε β} {as : List α} {bs : List β}
    (h : as.mapM f = .ok bs) {a : α} (ha : a ∈ as) : ∃ b ∈ bs, f a = .ok b := by
  have hmem : f a ∈ bs.map Except.ok := by
    rw [← mapM_eq_ok h]
    exact List.mem_map_of_mem ha
  obtain ⟨b, hb, heq⟩ := List.mem_map.mp hmem
  exact ⟨b, hb, heq.symm⟩

theorem of_forM_eq_ok {f : α → Except ε Unit} {as : List α} {u : Unit} (h : as.forM f = .ok u)
    {a : α} (ha : a ∈ as) : f a = .ok u := by
  induction as with
  | nil => cases ha
  | cons c as ih =>
    obtain ⟨_, hc, h⟩ := bind_eq_ok h
    rcases List.mem_cons.mp ha with rfl | ha
    . exact hc
    . exact ih h ha

/--
What every successful step of a fold keeps, a successful fold keeps.
-/
theorem foldlM_eq_ok {f : σ → α → Except ε σ} (I : List α → σ → Prop) {as : List α} {s s' : σ}
    (h : as.foldlM f s = .ok s') (h0 : I [] s)
    (hstep : ∀ done a rest s s', as = done ++ a :: rest → I done s → f s a = .ok s' →
      I (done ++ [a]) s') : I as s' := by
  suffices hall : ∀ rest done s, as = done ++ rest → I done s → rest.foldlM f s = .ok s' →
      I as s' by
    exact hall as [] s rfl h0 h
  intro rest
  induction rest with
  | nil =>
    intro done s has hs h
    obtain rfl := Except.ok.inj h
    rw [has, List.append_nil]
    exact hs
  | cons a rest ih =>
    intro done s has hs h
    rw [List.foldlM_cons] at h
    obtain ⟨s₁, hf, h⟩ := bind_eq_ok h
    apply ih (done ++ [a]) s₁ _ _ h
    . rw [has, List.append_assoc]
      rfl
    . exact hstep done a rest s s₁ has hs hf

/--
The same for a state that is handed from each element to the next.
-/
theorem threadM_eq_ok {f : σ → α → Except ε (β × σ)} (I : List α → List β → σ → Prop)
    {as : List α} {bs : List β} {s s' : σ} (h : threadM f s as = .ok (bs, s')) (h0 : I [] [] s)
    (hstep : ∀ done bs a rest s b s', as = done ++ a :: rest → I done bs s →
      f s a = .ok (b, s') → I (done ++ [a]) (bs ++ [b]) s') : I as bs s' := by
  suffices hall : ∀ rest done bs₀ bs₁ s, as = done ++ rest → bs = bs₀ ++ bs₁ → I done bs₀ s →
      threadM f s rest = .ok (bs₁, s') → I as bs s' by
    exact hall as [] [] bs s rfl rfl h0 h
  intro rest
  induction rest with
  | nil =>
    intro done bs₀ bs₁ s has hbs hs h
    obtain ⟨rfl, rfl⟩ := Prod.mk.inj (Except.ok.inj h)
    rw [has, hbs, List.append_nil, List.append_nil]
    exact hs
  | cons a rest ih =>
    intro done bs₀ bs₁ s has hbs hs h
    unfold threadM at h
    obtain ⟨⟨b, s₁⟩, hf, h⟩ := bind_eq_ok h
    obtain ⟨⟨bs₂, s₂⟩, hrest, h⟩ := bind_eq_ok h
    obtain ⟨rfl, rfl⟩ := Prod.mk.inj (Except.ok.inj h)
    apply ih (done ++ [a]) (bs₀ ++ [b]) bs₂ s₁ _ _ _ hrest
    . rw [has, List.append_assoc]
      rfl
    . rw [hbs, List.append_assoc]
      rfl
    . exact hstep done bs₀ a rest s b s₁ has hs hf

theorem mem_of_threadM_eq_ok {f : σ → α → Except ε (β × σ)} {as : List α} {bs : List β} {s s' : σ}
    (h : threadM f s as = .ok (bs, s')) {b : β} (hb : b ∈ bs) :
    ∃ a ∈ as, ∃ s₁ s₂, f s₁ a = .ok (b, s₂) := by
  refine threadM_eq_ok (fun _ bs _ => ∀ b ∈ bs, ∃ a ∈ as, ∃ s₁ s₂, f s₁ a = .ok (b, s₂)) h
    (by simp) ?_ b hb
  intro done bs a rest s₁ c s₂ hsplit hbs hf b hb
  rcases List.mem_append.mp hb with hb | hb
  . exact hbs b hb
  . rw [List.mem_singleton.mp hb]
    exact ⟨a, by simp [hsplit], s₁, s₂, hf⟩

/--
A fold that succeeds has succeeded at every element, in some state.
-/
theorem exists_of_foldlM_eq_ok {f : σ → α → Except ε σ} {as : List α} {s s' : σ}
    (h : as.foldlM f s = .ok s') {a : α} (ha : a ∈ as) : ∃ s₁ s₂, f s₁ a = .ok s₂ := by
  refine foldlM_eq_ok (fun done _ => ∀ a ∈ done, ∃ s₁ s₂, f s₁ a = .ok s₂) h (by simp) ?_ a ha
  intro done c _ s₁ s₂ _ hdone hf a ha
  rcases List.mem_append.mp ha with ha | ha
  . exact hdone a ha
  . rw [List.mem_singleton.mp ha]
    exact ⟨s₁, s₂, hf⟩

/-! ### What is bound to succeed -/

theorem ensure_eq_ok_iff {p : Prop} [Decidable p] {e : ε} :
    (if p then Except.ok () else Except.error e) = .ok () ↔ p := by
  split <;> simp [*]

theorem seq_eq_ok_iff {x : Except ε Unit} {y : Except ε β} {b : β} :
    (x >>= fun _ => y) = .ok b ↔ x = .ok () ∧ y = .ok b := by
  constructor
  . intro h
    obtain ⟨_, hx, hy⟩ := bind_eq_ok h
    exact ⟨hx, hy⟩
  . rintro ⟨rfl, hy⟩
    exact hy

theorem forM_eq_ok_iff {f : α → Except ε Unit} {as : List α} :
    as.forM f = .ok () ↔ ∀ a ∈ as, f a = .ok () := by
  refine ⟨fun h a ha => of_forM_eq_ok h ha, fun h => ?_⟩
  induction as with
  | nil => rfl
  | cons a as ih =>
    show (f a >>= fun _ => as.forM f) = .ok ()
    rw [h a (by simp)]
    exact ih fun b hb => h b (by simp [hb])

theorem exists_mapM_eq_ok {f : α → Except ε β} {as : List α} (h : ∀ a ∈ as, ∃ b, f a = .ok b) :
    ∃ bs, as.mapM f = .ok bs := by
  induction as with
  | nil => exact ⟨[], rfl⟩
  | cons a as ih =>
    obtain ⟨b, hb⟩ := h a (by simp)
    obtain ⟨bs, hbs⟩ := ih fun c hc => h c (by simp [hc])
    refine ⟨b :: bs, ?_⟩
    rw [List.mapM_cons, hb]
    show (as.mapM f >>= fun bs => pure (b :: bs)) = .ok (b :: bs)
    rw [hbs]
    rfl

/--
A fold succeeds if every step succeeds in the states that the steps before it can lead to.
-/
theorem exists_foldlM_eq_ok {f : σ → α → Except ε σ} (I : List α → σ → Prop) {as : List α} {s : σ}
    (h0 : I [] s)
    (hstep : ∀ done a rest s, as = done ++ a :: rest → I done s →
      ∃ s', f s a = .ok s' ∧ I (done ++ [a]) s') : ∃ s', as.foldlM f s = .ok s' ∧ I as s' := by
  suffices hall : ∀ rest done s, as = done ++ rest → I done s →
      ∃ s', rest.foldlM f s = .ok s' ∧ I as s' by
    exact hall as [] s rfl h0
  intro rest
  induction rest with
  | nil =>
    intro done s has hs
    rw [has, List.append_nil]
    exact ⟨s, rfl, hs⟩
  | cons a rest ih =>
    intro done s has hs
    obtain ⟨s₁, hf, hs₁⟩ := hstep done a rest s has hs
    obtain ⟨s', hrest, hs'⟩ := ih (done ++ [a]) s₁ (by simp [has]) hs₁
    refine ⟨s', ?_, hs'⟩
    rw [List.foldlM_cons, hf]
    exact hrest

/-! ### One element more -/

/--
A map that succeeds on one element more has succeeded on the others with what it gives there.
-/
theorem mapM_push_eq_ok {f : α → Except ε β} {as : List α} {a : α} {bs bs' : List β}
    (h : as.mapM f = .ok bs) (h' : (as ++ [a]).mapM f = .ok bs') :
    ∃ b, f a = .ok b ∧ bs' = bs ++ [b] := by
  rw [List.mapM_append, h] at h'
  obtain ⟨_, hbs, h'⟩ := bind_eq_ok h'
  obtain rfl := Except.ok.inj hbs
  obtain ⟨last, hlast, h'⟩ := bind_eq_ok h'
  obtain rfl := Except.ok.inj h'
  rw [List.mapM_cons] at hlast
  obtain ⟨b, hb, hlast⟩ := bind_eq_ok hlast
  obtain rfl := Except.ok.inj hlast
  exact ⟨b, hb, rfl⟩

theorem foldlM_push_eq_ok {f : σ → α → Except ε σ} {as : List α} {a : α} {s s₁ s' : σ}
    (h : as.foldlM f s = .ok s₁) (h' : (as ++ [a]).foldlM f s = .ok s') : f s₁ a = .ok s' := by
  rw [List.foldlM_append, h] at h'
  obtain ⟨_, hs, h'⟩ := bind_eq_ok h'
  obtain rfl := Except.ok.inj hs
  rw [List.foldlM_cons] at h'
  obtain ⟨_, hf, h'⟩ := bind_eq_ok h'
  obtain rfl := Except.ok.inj h'
  exact hf

theorem threadM_push_eq_ok {f : σ → α → Except ε (β × σ)} {as : List α} {a : α} {bs bs' : List β}
    {s s₁ s' : σ} (h : threadM f s as = .ok (bs, s₁))
    (h' : threadM f s (as ++ [a]) = .ok (bs', s')) :
    ∃ b, f s₁ a = .ok (b, s') ∧ bs' = bs ++ [b] := by
  induction as generalizing s bs bs' with
  | nil =>
    obtain ⟨rfl, rfl⟩ := Prod.mk.inj (Except.ok.inj h)
    rw [List.nil_append, threadM] at h'
    obtain ⟨⟨b, s₂⟩, hf, h'⟩ := bind_eq_ok h'
    obtain ⟨_, hnil, h'⟩ := bind_eq_ok h'
    obtain rfl := Except.ok.inj hnil
    obtain ⟨rfl, rfl⟩ := Prod.mk.inj (Except.ok.inj h')
    exact ⟨b, hf, rfl⟩
  | cons c as ih =>
    rw [List.cons_append, threadM] at h'
    rw [threadM] at h
    obtain ⟨⟨b, s₂⟩, hf, h⟩ := bind_eq_ok h
    obtain ⟨⟨rest, s₃⟩, hrest, h⟩ := bind_eq_ok h
    obtain ⟨rfl, rfl⟩ := Prod.mk.inj (Except.ok.inj h)
    rw [hf] at h'
    obtain ⟨_, hsame, h'⟩ := bind_eq_ok h'
    obtain rfl := Except.ok.inj hsame
    obtain ⟨⟨rest', s₄⟩, hrest', h'⟩ := bind_eq_ok h'
    obtain ⟨rfl, rfl⟩ := Prod.mk.inj (Except.ok.inj h')
    obtain ⟨last, hlast, rfl⟩ := ih hrest hrest'
    exact ⟨last, hlast, rfl⟩

end TileTraffic
