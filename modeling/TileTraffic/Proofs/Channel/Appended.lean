import TileTraffic.Proofs.Channel.Passes

/-!
A bundle that comes last. Its ends at one level are assigned after those of all others, so that they
do not change what the others get there. In the external pass it is known from the start, but while
it has no interface channel nobody can share one with it: the others are assigned as if it were not
there.
-/

namespace TileTraffic

/--
None of the channels is on an interface tile.
-/
def Ends.Inland (t : Target) (e : Ends) : Prop :=
  ∀ need, ∀ key ∈ e.keysToward need, t.roleOfRow key.tile.row ≠ .interface

namespace ChannelPool

variable {t : Target} {p : ChannelPool} {index index' : ReuseIndex} {ends : List Ends} {e : Ends}

theorem serveExternal_push (h : index.Adds ends.length index') (he : e.Inland t)
    (ops : List Occurrence) (anchors : List ChannelKey) (need : Direction) :
    p.serveExternal t index' (ends ++ [e]) ops anchors need =
      p.serveExternal t index ends ops anchors need := by
  have hfind : index'.findReuse (ends ++ [e]) anchors need (p.reusable t) =
      index.findReuse ends anchors need (p.reusable t) := by
    apply h.findReuse_eq
    intro key hkey
    simp [reusable, he need key hkey]
  unfold serveExternal
  rw [hfind]

end ChannelPool

namespace Bundle

variable {t : Target} {p p' p'' : ChannelPool} {index index' : ReuseIndex}
  {before after : List Ends} {e : Ends} {b c : Bundle} {bs bs' done rest : List Bundle}

theorem assignExternalProducer_push (h : index.Adds (before ++ c.ends :: after).length index')
    (he : e.Inland t) : c.assignExternalProducer t index' before (after ++ [e]) p =
      c.assignExternalProducer t index before after p := by
  have hends : before ++ c.ends :: (after ++ [e]) = (before ++ c.ends :: after) ++ [e] := by simp
  unfold assignExternalProducer
  rw [hends, ChannelPool.serveExternal_push h he]

theorem assignExternalConsumer_push (h : index.Adds (before ++ c.ends :: after).length index')
    (he : e.Inland t) : c.assignExternalConsumer t index' before (after ++ [e]) p =
      c.assignExternalConsumer t index before after p := by
  have hends : before ++ c.ends :: (after ++ [e]) = (before ++ c.ends :: after) ++ [e] := by simp
  unfold assignExternalConsumer
  simp only [hends, ChannelPool.serveExternal_push h he]

/--
The external pass comes to the last bundle with the bundles and the pool that it ends with where
this one is missing.
-/
theorem assignExternal_push (hb : b.ends.Inland t)
    (h : index.Adds (done.length + rest.length) index')
    (hok : assignExternal t done index p rest = .ok (bs, p')) :
    ∃ index'', assignExternal t done index' p (rest ++ [b]) =
      assignExternal t bs index'' p' [b] := by
  induction rest generalizing done index index' p with
  | nil =>
    obtain ⟨rfl, rfl⟩ := Prod.mk.inj (Except.ok.inj hok)
    exact ⟨index', rfl⟩
  | cons c rest ih =>
    rw [assignExternal_cons] at hok
    obtain ⟨⟨c', p₁⟩, hstep, hok⟩ := bind_eq_ok hok
    have hlength : ∀ c : Bundle, (done.map ends ++ c.ends :: rest.map ends).length =
        done.length + (c :: rest).length := by simp
    have hsame : (c.assignExternalProducer t index' (done.map ends) ((rest ++ [b]).map ends) p >>=
        fun r => r.1.assignExternalConsumer t index' (done.map ends) ((rest ++ [b]).map ends) r.2) =
          .ok (c', p₁) := by
      rw [List.map_append, List.map_singleton, ← hstep,
        assignExternalProducer_push (by rw [hlength]; exact h) hb]
      apply bind_congr
      intro r
      exact assignExternalConsumer_push (by rw [hlength]; exact h) hb
    rw [List.cons_append, assignExternal_cons, hsame]
    apply ih _ hok
    have hnext : (done ++ [c']).length + rest.length = done.length + (c :: rest).length := by
      simp
      omega
    rw [hnext]
    apply h.record
    simp

theorem assignExternal_push_eq_ok (hb : b.ends.Inland t)
    (h : index.Adds (done.length + rest.length) index')
    (hok : assignExternal t done index p rest = .ok (bs, p'))
    (hok' : assignExternal t done index' p (rest ++ [b]) = .ok (bs', p'')) :
    (∃ b', bs' = bs ++ [b']) ∧ p'.Continues p'' := by
  obtain ⟨index'', hlast⟩ := assignExternal_push hb h hok
  rw [hlast, assignExternal_cons] at hok'
  obtain ⟨⟨b', p₂⟩, hstep, hok'⟩ := bind_eq_ok hok'
  obtain ⟨rfl, rfl⟩ := Prod.mk.inj (Except.ok.inj hok')
  obtain ⟨⟨b₁, p₁⟩, hproducer, hconsumer⟩ := bind_eq_ok hstep
  exact ⟨⟨b', rfl⟩, (assignExternalProducer_continues hproducer).trans
    (assignExternalConsumer_continues hconsumer)⟩

end Bundle

namespace Assignment

theorem adds_indexOf (bs : List Bundle) (b : Bundle) :
    (indexOf bs).Adds bs.length (indexOf (bs ++ [b])) := by
  have hpush : indexOf (bs ++ [b]) = (indexOf bs).record bs.length b.ends := by
    unfold indexOf
    rw [List.zipIdx_append, List.foldl_append, Nat.zero_add]
    rfl
  rw [hpush]
  apply ReuseIndex.adds_record
  intro need key hmem
  obtain ⟨_, hget, _⟩ := (ReuseIndex.indexes_indexOf bs need key bs.length).mp hmem
  simp at hget

/--
All bundles but the last are assigned as if it were not there, and its channels, where it shares
them, go on from what the others have on them.
-/
theorem Passes.push {g g' : Graph} {t : Target} {d : Device} {bs bs₁ bs₂ bs₁' bs₂' : List Bundle}
    {b : Bundle} {a a' : Assignment} (h : Passes g t d bs bs₁ bs₂ a)
    (h' : Passes g' t d (bs ++ [b]) bs₁' bs₂' a')
    (htile : g'.computeTile t = g.computeTile t) (hprepared : ∀ b ∈ bs₂', b.Prepared g' t) :
    (∃ b', a'.bundles = a.bundles ++ [b']) ∧
      ∀ level, (a.pool level).Continues (a'.pool level) := by
  have hlocal := h'.tileLocal
  rw [htile] at hlocal
  obtain ⟨b₁, hfirst, rfl⟩ := threadM_push_eq_ok h.tileLocal hlocal
  obtain ⟨b₂, hsecond, rfl⟩ := threadM_push_eq_ok h.shared h'.shared
  have hinland : b₂.ends.Inland t := fun _ _ hkey =>
    (hprepared b₂ (by simp)).not_interface hkey
  have hadds : (indexOf bs₂).Adds (([] : List Bundle).length + bs₂.length)
      (indexOf (bs₂ ++ [b₂])) := by
    rw [List.length_nil, Nat.zero_add]
    exact adds_indexOf bs₂ b₂
  obtain ⟨hbundles, hexternal⟩ :=
    Bundle.assignExternal_push_eq_ok hinland hadds h.external h'.external
  refine ⟨hbundles, ?_⟩
  intro level
  cases level with
  | tileLocal => exact Bundle.assignLevel_continues hfirst
  | shared => exact Bundle.assignLevel_continues hsecond
  | external => exact hexternal

end Assignment

end TileTraffic
