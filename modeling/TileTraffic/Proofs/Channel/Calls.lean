import TileTraffic.Proofs.Channel.Growth
import TileTraffic.Proofs.Channel.Requests
import TileTraffic.Proofs.History

/-!
Calls to a pool, and what becomes of the calls that follow. One that is refused leaves no trace. On
a tile where ops have only ever been served, an id keeps the channel that it was first served by.
-/

namespace TileTraffic

namespace ChannelPool

variable {g : Graph} {t : Target} {level : Level} {p p' q : ChannelPool} {occ : Occurrence}
  {key k : ChannelKey} {tile : Coord} {preferred : Option Nat} {d : Direction}

/-! ### Refusals -/

def call (g : Graph) (t : Target) (r : Nat × PoolRequest) :
    EStateM CompileError ChannelPool ChannelKey :=
  request g t r.1 r.2

theorem after_eq (g : Graph) (t : Target) (p : ChannelPool) (r : Nat × PoolRequest) :
    p.after g t r = History.after (call g t) p r := by
  unfold after History.after call
  cases request g t r.1 r.2 p <;> rfl

theorem afterAll_eq (g : Graph) (t : Target) (p : ChannelPool) (rs : List (Nat × PoolRequest)) :
    p.afterAll g t rs = History.afterAll (call g t) p rs := by
  unfold afterAll History.afterAll
  congr 1
  funext p r
  exact after_eq g t p r

/--
A call that is refused leaves a pool as it is, whatever has been asked of the pool before. What is
asked of it later is answered as if that call had never been made.
-/
theorem refused_leaves_no_trace (g : Graph) (t : Target) (level : Level)
    (before : List (Nat × PoolRequest)) (r : Nat × PoolRequest) {e : CompileError}
    (h : call g t r ((empty level).afterAll g t before) = .error e p') :
    p' = (empty level).afterAll g t before ∧ ∀ later,
      (empty level).afterAll g t (before ++ r :: later) =
        (empty level).afterAll g t (before ++ later) ∧
      (History.answers (call g t) (empty level) (before ++ r :: later)).eraseIdx before.length =
        History.answers (call g t) (empty level) (before ++ later) := by
  have hregular := (regular_empty (g := g) (t := t) level).afterAll before
  obtain rfl := eq_of_request_eq_error hregular.keys_nodup h
  refine ⟨rfl, fun later => ?_⟩
  rw [afterAll_eq] at h
  rw [afterAll_eq, afterAll_eq]
  exact History.strike_out h later

/--
Two loads from external memory.
-/
def haul : Graph where
  scope := "haul"
  buffers := [⟨"far", .external, [16], 4⟩, ⟨"near", .tileLocal, [16], 4⟩]
  channels := []
  regions := [⟨"cell", 0, 2, 1, 1⟩]
  ops := [load 1, load 2]
  host := none
where
  load (id : Nat) : Op :=
    ⟨id, .copy (.whole "far" .external) (.whole "near" .tileLocal), some "cell", some [0, 0], [], [],
      none⟩

/--
An interface tile with two channels, but a single descriptor, refuses the second load.
-/
theorem haul_refused_leaves_no_trace :
    let t : Target := { Target.gen1 4 4 with interface := ⟨2, 16, 1⟩ }
    let before := [(0, PoolRequest.openInterface ⟨2, 2⟩)]
    let r := (1, PoolRequest.openInterface ⟨2, 2⟩)
    ∃ e p', call haul t r ((empty .external).afterAll haul t before) = .error e p' ∧
      p' = (empty .external).afterAll haul t before ∧ ∀ later,
        (empty .external).afterAll haul t (before ++ r :: later) =
          (empty .external).afterAll haul t (before ++ later) ∧
        (History.answers (call haul t) (empty .external) (before ++ r :: later)).eraseIdx
            before.length =
          History.answers (call haul t) (empty .external) (before ++ later) := by
  intro t before r
  have hrefused : call haul t r ((empty .external).afterAll haul t before) =
      .error (.capacity (.descriptors ⟨2, 0⟩)) ((empty .external).afterAll haul t before) := by
    rfl
  exact ⟨_, _, hrefused, refused_leaves_no_trace haul t .external before r hrefused⟩

/-! ### One channel for an id -/

/--
On a tile, no two channels of one direction list the same id, and no channel lists it twice.
-/
structure OnePerId (p : ChannelPool) : Prop where
  once : ∀ a ∈ p.opened, a.opIds.Nodup
  unique : ∀ a ∈ p.opened, ∀ b ∈ p.opened, a.key.tile = b.key.tile →
    a.key.direction = b.key.direction → ∀ id ∈ a.opIds, id ∈ b.opIds → a = b

theorem onePerId_empty (level : Level) : (empty level).OnePerId where
  once := by simp [empty]
  unique := by simp [empty]

theorem mem_opened_enter {a : Allocation} (ha : a ∈ (p.enter occ key partner).opened) :
    a ∈ p.opened ∧ a.key ≠ key ∨
      a.key = key ∧ (a.opIds = [occ.op.id] ∨
        ∃ b ∈ p.opened, b.key = key ∧ a.opIds = b.opIds ++ [occ.op.id]) := by
  by_cases hmem : key ∈ p.keys
  . rw [opened_enter_of_mem hmem] at ha
    obtain ⟨b, hb, rfl⟩ := List.mem_map.mp ha
    by_cases hkey : b.key = key
    . refine .inr ⟨by simp [hkey], .inr ⟨b, hb, hkey, ?_⟩⟩
      rw [Allocation.addAt, if_pos hkey]
      rfl
    . rw [Allocation.addAt, if_neg hkey]
      exact .inl ⟨hb, hkey⟩
  . rw [opened_enter_of_not_mem hmem] at ha
    rcases List.mem_append.mp ha with ha | ha
    . exact .inl ⟨ha, fun hkey => hmem (hkey ▸ List.mem_map_of_mem ha)⟩
    . rw [List.mem_singleton.mp ha]
      exact .inr ⟨rfl, .inl rfl⟩

/--
No channel of the tile lists the id in the direction of the key.
-/
def Unlisted (p : ChannelPool) (id : Nat) (key : ChannelKey) : Prop :=
  ∀ a ∈ p.opened, a.key.tile = key.tile → a.key.direction = key.direction → id ∉ a.opIds

theorem OnePerId.not_mem_of_ne (h : p.OnePerId) (hnew : p.Unlisted occ.op.id key)
    {a b : Allocation} (ha : a ∈ p.opened) (hne : a.key ≠ key)
    (hb : b ∈ (p.enter occ key partner).opened) (hkey : b.key = key)
    (htile : a.key.tile = key.tile) (hd : a.key.direction = key.direction) {id : Nat}
    (hid : id ∈ a.opIds) : id ∉ b.opIds := by
  intro hmem
  -- the id of the op is listed nowhere on the tile, so a shared id would be shared already
  have hother : id ≠ occ.op.id := by
    rintro rfl
    exact hnew a ha htile hd hid
  rcases mem_opened_enter hb with ⟨_, hne'⟩ | ⟨_, hids | ⟨c, hc, rfl, hids⟩⟩
  . exact hne' hkey
  . rw [hids, List.mem_singleton] at hmem
    exact hother hmem
  . rw [hids, List.mem_append, List.mem_singleton] at hmem
    have heq := h.unique a ha c hc htile hd id hid (hmem.resolve_right hother)
    exact hne (congrArg Allocation.key heq)

/--
An op whose id is not listed on the tile yet can be put on any channel there.
-/
theorem OnePerId.enter (h : p.OnePerId) (hkeys : (p.enter occ key partner).keys.Nodup)
    (hnew : p.Unlisted occ.op.id key) : (p.enter occ key partner).OnePerId where
  once := by
    intro a ha
    rcases mem_opened_enter ha with ⟨hold, _⟩ | ⟨_, hids | ⟨b, hb, rfl, hids⟩⟩
    . exact h.once a hold
    . simp [hids]
    . rw [hids]
      exact nodup_push (h.once b hb) (hnew b hb rfl rfl)
  unique := by
    intro a ha b hb htile hd id hida hidb
    rcases mem_opened_enter ha with ⟨holda, hnea⟩ | ⟨hkeya, _⟩
    . rcases mem_opened_enter hb with ⟨holdb, _⟩ | ⟨hkeyb, _⟩
      . exact h.unique a holda b holdb htile hd id hida hidb
      . rw [hkeyb] at htile hd
        exact absurd hidb (h.not_mem_of_ne hnew holda hnea hb hkeyb htile hd hida)
    . rcases mem_opened_enter hb with ⟨holdb, hneb⟩ | ⟨hkeyb, _⟩
      . rw [hkeya] at htile hd
        exact absurd hida (h.not_mem_of_ne hnew holdb hneb ha hkeya htile.symm hd.symm hidb)
      . exact eq_of_nodup_map hkeys ha hb (hkeya.trans hkeyb.symm)

theorem OnePerId.serving?_of_mem (h : p.OnePerId) {a : Allocation} (ha : a ∈ p.opened) {id : Nat}
    (hid : id ∈ a.opIds) : p.serving? a.key.tile a.key.direction id = some a := by
  have hsome : (p.serving? a.key.tile a.key.direction id).isSome := by
    unfold serving? onTile
    rw [List.find?_isSome]
    exact ⟨a, by simp [ha], by simp [hid]⟩
  obtain ⟨b, hb⟩ := Option.isSome_iff_exists.mp hsome
  obtain ⟨hmem, htile, hd, hidb⟩ := serving?_eq_some hb
  rw [hb, h.unique b hmem a ha htile hd id hidb hid]

/-! ### Serving ops -/

theorem unlisted_of_serving? {id : Nat} (h : p.serving? key.tile key.direction id = none) :
    p.Unlisted id key := by
  intro a ha htile hd hid
  unfold serving? onTile at h
  rw [List.find?_eq_none] at h
  exact h a (by simp [ha, htile, hd]) (by simp [hid])

/--
An op of the graph whose id is not listed on the tile is not on the channel yet either.
-/
theorem Regular.commit_enters (h : p.Regular g t level) (hocc : occ ∈ g.occurrences)
    (hnew : p.Unlisted occ.op.id key) (hok : commit t occ key partner p = .ok k p') :
    k = key ∧ p' = p.enter occ key partner := by
  unfold commit at hok
  split at hok
  . next hlisted =>
    -- the channel would list the op, and so its id
    cases hget : p.get? key with
    | none => simp [hget] at hlisted
    | some a =>
      rw [hget, Option.any_some, List.any_eq_true] at hlisted
      obtain ⟨o, ho, href⟩ := hlisted
      obtain ⟨ha, rfl⟩ := mem_of_get?_eq_some hget
      have hregular := h.allocation a ha
      obtain rfl := Graph.eq_of_ref_eq (hregular.ops_mem o ho) hocc (of_decide_eq_true href)
      apply absurd _ (hnew a ha rfl rfl)
      rw [hregular.opIds_eq]
      exact List.mem_map_of_mem ho
  . split at hok
    . obtain ⟨rfl, rfl⟩ := EStateM.Result.ok.inj hok
      exact ⟨rfl, rfl⟩
    . cases hok

/--
An op that is served is given the channel that lists its id. Where there is none, its id is listed
from now on.
-/
theorem Regular.serve_eq_ok (h : p.Regular g t level) (hocc : occ ∈ g.occurrences)
    (hok : serve t occ tile preferred p = .ok k p') :
    p.level ≠ .external ∧ occ.op.directionAt p.level = .ok k.direction ∧ k.tile = tile ∧
      ((∃ a ∈ p.opened, a.key = k ∧ occ.op.id ∈ a.opIds ∧ p' = p) ∨
        p.Unlisted occ.op.id k ∧ p' = p.enter occ k none) := by
  unfold serve at hok
  split at hok
  . cases hok
  . next hlevel =>
    split at hok
    . cases hok
    . next d hd =>
      split at hok
      . next a hserving =>
        obtain ⟨rfl, rfl⟩ := EStateM.Result.ok.inj hok
        obtain ⟨ha, htile, rfl, hid⟩ := serving?_eq_some hserving
        exact ⟨hlevel, hd, htile, .inl ⟨a, ha, rfl, hid, rfl⟩⟩
      . next hserving =>
        have hnew : ∀ id, p.Unlisted occ.op.id ⟨tile, d, id⟩ := fun id =>
          unlisted_of_serving? hserving
        split at hok
        . next a hpreferred =>
          obtain ⟨id, _, hget⟩ := Option.bind_eq_some_iff.mp hpreferred
          rw [(mem_of_get?_eq_some hget).2] at hok
          obtain ⟨rfl, hp'⟩ := h.commit_enters hocc (hnew id) hok
          exact ⟨hlevel, hd, rfl, .inr ⟨hnew id, hp'⟩⟩
        . dsimp only at hok
          split at hok
          . cases hok
          . split at hok
            . cases hok
            . next id _ =>
              obtain ⟨rfl, hp'⟩ := h.commit_enters hocc (hnew id) hok
              exact ⟨hlevel, hd, rfl, .inr ⟨hnew id, hp'⟩⟩

theorem Regular.of_serve (h : p.Regular g t level) (hocc : occ ∈ g.occurrences)
    (hok : serve t occ tile preferred p = .ok k p') : p'.Regular g t level := by
  have hsettles := serve_settles (t := t) h.keys_nodup hocc tile preferred
  rw [hok] at hsettles
  exact hsettles.regular h

theorem OnePerId.of_serve (hone : p.OnePerId) (h : p.Regular g t level) (hocc : occ ∈ g.occurrences)
    (hok : serve t occ tile preferred p = .ok k p') : p'.OnePerId := by
  have hkeys := (h.of_serve hocc hok).keys_nodup
  obtain ⟨_, _, _, ⟨_, _, _, _, rfl⟩ | ⟨hnew, rfl⟩⟩ := h.serve_eq_ok hocc hok
  . exact hone
  . exact hone.enter hkeys hnew

theorem Regular.listed_of_serve (h : p.Regular g t level) (hocc : occ ∈ g.occurrences)
    (hok : serve t occ tile preferred p = .ok k p') :
    ∃ a ∈ p'.opened, a.key = k ∧ occ.op.id ∈ a.opIds := by
  obtain ⟨_, _, _, ⟨a, ha, hkey, hid, rfl⟩ | ⟨_, rfl⟩⟩ := h.serve_eq_ok hocc hok
  . exact ⟨a, ha, hkey, hid⟩
  . exact serves_enter

/-! ### Any number of ops -/

/--
The op at a position is to be served by a channel on a tile.
-/
structure ServeCall where
  op : Nat
  tile : Coord
  preferred : Option Nat
  deriving DecidableEq, Repr

def ServeCall.toRequest (c : ServeCall) : Nat × PoolRequest :=
  (c.op, .serve c.tile c.preferred)

def afterServing (g : Graph) (t : Target) (p : ChannelPool) (calls : List ServeCall) :
    ChannelPool :=
  p.afterAll g t (calls.map ServeCall.toRequest)

theorem after_serve_cases (h : p.keys.Nodup) (c : ServeCall) :
    p.after g t c.toRequest = p ∨ ∃ occ ∈ g.occurrences, ∃ k,
      serve t occ c.tile c.preferred p = .ok k (p.after g t c.toRequest) := by
  cases hrequest : request g t c.op (.serve c.tile c.preferred) p with
  | error e p' =>
    left
    have heq := eq_of_request_eq_error h hrequest
    unfold after ServeCall.toRequest
    rw [hrequest, heq]
  | ok k p' =>
    right
    have hafter : p.after g t c.toRequest = p' := by
      unfold after ServeCall.toRequest
      rw [hrequest]
    rw [hafter]
    unfold request at hrequest
    split at hrequest
    . cases hrequest
    . next occ hocc => exact ⟨occ, List.mem_of_getElem? (elementAt_eq_ok hocc), k, hrequest⟩

/--
However many ops have been served, no id has two channels, and channels only go on.
-/
theorem OnePerId.afterServing (hone : p.OnePerId) (h : p.Regular g t level)
    (calls : List ServeCall) :
    (p.afterServing g t calls).OnePerId ∧ p.Continues (p.afterServing g t calls) := by
  induction calls generalizing p with
  | nil => exact ⟨hone, .refl p⟩
  | cons c calls ih =>
    have hstep : (p.after g t c.toRequest).OnePerId ∧ p.Continues (p.after g t c.toRequest) := by
      rcases after_serve_cases h.keys_nodup c with hsame | ⟨occ, hocc, k, hok⟩
      . rw [hsame]
        exact ⟨hone, .refl p⟩
      . exact ⟨hone.of_serve h hocc hok, serve_continues hok⟩
    obtain ⟨hrest, hcont⟩ := ih hstep.1 (h.after c.toRequest)
    exact ⟨hrest, hstep.2.trans hcont⟩

/--
On its tile, the id has a channel of this direction for good: a look-up finds it, and ops with the
id are given it, whatever they prefer and however many descriptors are left. Nothing changes then.
-/
structure SettledOn (t : Target) (p : ChannelPool) (id : Nat) (key : ChannelKey) : Prop where
  found : ∃ a, p.serving? key.tile key.direction id = some a ∧ p.get? key = some a
  again : ∀ occ preferred, occ.op.id = id → occ.op.directionAt p.level = .ok key.direction →
    serve t occ key.tile preferred p = .ok key p

theorem OnePerId.settledOn (hone : p.OnePerId) (h : p.Regular g t level) (hlevel : level ≠ .external)
    {a : Allocation} (ha : a ∈ p.opened) {id : Nat} (hid : id ∈ a.opIds) :
    p.SettledOn t id a.key where
  found := ⟨a, hone.serving?_of_mem ha hid, get?_of_mem h.keys_nodup ha⟩
  again := by
    rintro occ preferred rfl hd
    unfold serve
    rw [h.level_eq, if_neg hlevel, ← h.level_eq, hd]
    dsimp only
    rw [hone.serving?_of_mem ha hid]

/--
Whatever ops have been served, on whatever tiles and with whatever preferences, no id has two channels
of one direction on a tile. Once an op has been given a channel, its id keeps it.
-/
theorem one_channel_per_id (g : Graph) (t : Target) (level : Level) (calls : List ServeCall) :
    ((empty level).afterServing g t calls).OnePerId ∧
      ∀ occ ∈ g.occurrences, ∀ tile preferred key p',
        serve t occ tile preferred ((empty level).afterServing g t calls) = .ok key p' →
        key.tile = tile ∧ occ.op.directionAt level = .ok key.direction ∧
          ∀ later, (p'.afterServing g t later).SettledOn t occ.op.id key := by
  have hregular := (regular_empty (g := g) (t := t) level).afterAll (calls.map ServeCall.toRequest)
  obtain ⟨hone, _⟩ := (onePerId_empty level).afterServing (regular_empty (g := g) (t := t) level) calls
  refine ⟨hone, ?_⟩
  intro occ hocc tile preferred key p' hok
  obtain ⟨hlevel, hd, htile, _⟩ := hregular.serve_eq_ok hocc hok
  rw [hregular.level_eq] at hlevel hd
  refine ⟨htile, hd, fun later => ?_⟩
  have hregular' := hregular.of_serve hocc hok
  obtain ⟨hone', hcont⟩ := (hone.of_serve hregular hocc hok).afterServing hregular' later
  obtain ⟨a, ha, hkey, hid⟩ := hregular.listed_of_serve hocc hok
  obtain ⟨a', ha', hgoes⟩ := hcont a ha
  rw [← hkey, ← hgoes.key]
  exact hone'.settledOn (hregular'.afterAll _) hlevel ha' (hgoes.opIds.subset hid)

/--
The first load keeps its channel when the second one has taken the last descriptor of the tile.
-/
theorem haul_one_channel_per_id :
    let t : Target := { Target.gen2 4 6 with compute := ⟨2, 16, 2⟩ }
    let key : ChannelKey := ⟨⟨0, 2⟩, .inbound, 0⟩
    ∃ p', serve t ⟨0, haul.load 1⟩ ⟨0, 2⟩ none ((empty .tileLocal).afterServing haul t []) =
        .ok key p' ∧
      (p'.afterServing haul t [⟨1, ⟨0, 2⟩, none⟩]).hasRoom t ⟨0, 2⟩ = false ∧
      (p'.afterServing haul t [⟨1, ⟨0, 2⟩, none⟩]).SettledOn t 1 key := by
  intro t key
  have hserve : serve t ⟨0, haul.load 1⟩ ⟨0, 2⟩ none ((empty .tileLocal).afterServing haul t []) =
      .ok key ((empty .tileLocal).enter ⟨0, haul.load 1⟩ key none) := by
    rfl
  have hsettled := (one_channel_per_id haul t .tileLocal []).2 ⟨0, haul.load 1⟩ (by decide) ⟨0, 2⟩
    none key _ hserve
  exact ⟨_, hserve, by decide, hsettled.2.2 [⟨1, ⟨0, 2⟩, none⟩]⟩

end ChannelPool

end TileTraffic
