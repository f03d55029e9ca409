import Mathlib
import TileTraffic.Proofs.Host.Control
import TileTraffic.Proofs.Host.Parts

/-!
What becomes of the launches of a host program when it is folded. Nothing is launched that was not
launched before, and nothing twice. What gets lost is what parallel loops launch that stand beside a
loop on the way into the nest: the way goes through sequential loops, and only these are counted.
-/

namespace TileTraffic

namespace Control

/--
A parallel loop that is folded, and the nest at that time.
-/
structure Folding where
  nest : List Stmt
  body : List Stmt

/--
The loops of a row up to the first that launches something itself.
-/
def upToLaunch : List Nest → List Nest
  | [] => []
  | loop :: row => loop :: if 0 < launchCount loop.body then [] else upToLaunch row

namespace Folding

/--
The loops that are merged, each with the loop of the nest that it is merged into.
-/
def meetings (f : Folding) : List (Nest × Nest) :=
  (upToLaunch (spine f.body)).zip (spine f.nest)

/--
No parallel loop that launches something stands beside a loop that is brought into the nest: neither
in the body that is folded nor in one that is gone into.
-/
def Unforked (f : Folding) : Prop :=
  ∀ body ∈ f.body :: f.meetings.map fun m => m.1.body,
    launchCount body = 0 → body.any isCandidate = false

variable {nest body before after before' after' : List Stmt} {loop met : Nest}

theorem meetings_of_copy (hnest : firstLoop? nest = none) : meetings ⟨nest, body⟩ = [] := by
  unfold meetings
  rw [spine_eq_nil hnest, List.zip_nil_right]

theorem meetings_of_append (hbody : SplitsAt body before loop after)
    (hnest : SplitsAt nest before' met after') (hlaunch : 0 < launchCount loop.body) :
    meetings ⟨nest, body⟩ = [(loop, met)] := by
  unfold meetings
  rw [hbody.spine_eq, hnest.spine_eq, upToLaunch, if_pos hlaunch, List.zip_cons_cons,
    List.zip_nil_left]

theorem meetings_of_enter (hbody : SplitsAt body before loop after)
    (hnest : SplitsAt nest before' met after') (hnone : launchCount loop.body = 0) :
    meetings ⟨nest, body⟩ = (loop, met) :: meetings ⟨met.body, loop.body⟩ := by
  unfold meetings
  rw [hbody.spine_eq, hnest.spine_eq, upToLaunch, if_neg (by omega), List.zip_cons_cons]

end Folding

/--
The parallel loops that are folded one after another, beginning with the control program and the
number of fresh variables in `state`.
-/
def foldings (state : Control × Nat) : List Stmt → List Folding
  | [] => []
  | s :: rest =>
    folding state.1 s ++ match takeStmt state s with
      | .ok state => foldings state rest
      | .error _ => []
where
  folding (c : Control) (s : Stmt) : List Folding :=
    match s with
    | .launch .. => []
    | .loop _ body => if isCandidate s then [⟨c.body, body⟩] else []

section

variable {source before after nest nest' : List Stmt} {loop : Nest} {ρ : Renaming}
  {used used' : Nat} {place : Place}

theorem isCandidate_eq_launches {s : Stmt} (hlaunch : s.isLaunch = false)
    (hloop : s.isSequential = false) : isCandidate s = s.launches := by
  cases s with
  | launch => cases hlaunch
  | loop head body =>
    cases hkind : head.kind with
    | sequential => simp [Stmt.isSequential, hkind] at hloop
    | parallel => simp [isCandidate, hkind, Stmt.launches]

/--
In a body that launches nothing itself and has a single sequential loop, all other statements are
parallel loops.
-/
theorem SplitsAt.beside (h : SplitsAt source before loop after) (hnone : launchCount source = 0)
    (hone : loopCount source ≤ 1) {s : Stmt} (hs : s ∈ before ++ after) :
    s.isLaunch = false ∧ s.isSequential = false := by
  constructor
  . have hall := List.countP_eq_zero.mp hnone s
    rw [h.eq] at hall
    simpa using hall (by simp at hs ⊢; tauto)
  . rcases List.mem_append.mp hs with hs | hs
    . exact h.none_before s hs
    . have hcount : loopCount after = 0 := by
        rw [h.eq] at hone
        unfold loopCount at hone ⊢
        rw [List.countP_append, List.countP_cons_of_pos (by simp [Stmt.isSequential, h.sequential])]
          at hone
        omega
      simpa using List.countP_eq_zero.mp hcount s hs

theorem SplitsAt.opsAll_beside_eq_nil_iff (h : SplitsAt source before loop after)
    (hnone : launchCount source = 0) (hone : loopCount source ≤ 1) :
    Stmt.opsAll (before ++ after) = [] ↔ source.any isCandidate = false := by
  have hloop : isCandidate (.loop loop.head loop.body) = false := by
    simp [isCandidate, h.sequential]
  have hany : source.any isCandidate = (before ++ after).any isCandidate := by
    rw [h.eq, List.any_append, List.any_cons, hloop, Bool.false_or, List.any_append]
  rw [hany, Stmt.opsAll_eq_nil_iff_forall, List.any_eq_false]
  apply forall₂_congr
  intro s hs
  obtain ⟨hlaunch, hseq⟩ := h.beside hnone hone hs
  rw [isCandidate_eq_launches hlaunch hseq, Bool.not_eq_true]

theorem SplitsAt.opsAll_perm (h : SplitsAt source before loop after) :
    (Stmt.opsAll source).Perm (Stmt.opsAll loop.body ++ Stmt.opsAll (before ++ after)) := by
  rw [h.eq, List.perm_iff_count]
  intro op
  simp only [Stmt.opsAll_append, Stmt.opsAll, Stmt.ops, List.count_append]
  omega

@[simp]
theorem count_opsAll_put (s : Stmt) (body : List Stmt) (place : Place) (op : Nat) :
    (Stmt.opsAll (place.put s body)).count op = s.ops.count op + (Stmt.opsAll body).count op := by
  cases place with
  | first => simp [Place.put, Stmt.opsAll]
  | last =>
    simp [Place.put, Stmt.opsAll]
    omega

/--
Bringing in a loop loses what stands beside the loops on the way, and no more.
-/
theorem Merges.opsAll_perm (h : Merges ρ used place source nest nest' used')
    (hnone : launchCount source = 0) (hone : loopCount source ≤ 1) :
    ∃ lost, (Stmt.opsAll nest' ++ lost).Perm (Stmt.opsAll nest ++ Stmt.opsAll source) ∧
      (lost = [] ↔ Folding.Unforked ⟨nest, source⟩) := by
  induction h with
  | @copy ρ used place source nest before after loop hsource hnest =>
    refine ⟨Stmt.opsAll (before ++ after), ?_, ?_⟩
    . rw [List.perm_iff_count]
      intro op
      have hperm := hsource.opsAll_perm.count_eq op
      simp only [List.count_append, count_opsAll_put, copyLoop, Stmt.ops, Stmt.opsAll_renameAll]
        at hperm ⊢
      omega
    . rw [hsource.opsAll_beside_eq_nil_iff hnone hone]
      simp [Folding.Unforked, Folding.meetings_of_copy hnest, hnone]
  | @append ρ used place source nest before after before' after' loop met hsource hnest hlaunch =>
    refine ⟨Stmt.opsAll (before ++ after), ?_, ?_⟩
    . rw [List.perm_iff_count]
      intro op
      have hperm := hsource.opsAll_perm.count_eq op
      rw [hnest.eq]
      simp only [List.count_append, Stmt.opsAll_append, Stmt.opsAll, Stmt.ops,
        Stmt.opsAll_renameAll] at hperm ⊢
      omega
    . rw [hsource.opsAll_beside_eq_nil_iff hnone hone]
      have hpos : launchCount loop.body ≠ 0 := by omega
      simp [Folding.Unforked, Folding.meetings_of_append hsource hnest hlaunch, hnone, hpos]
  | @enter ρ used used' place source nest inner before after before' after' loop met hsource hnest
      hnone' hone' _ ih =>
    -- what stands beside the loop is lost, and what is lost inside it
    obtain ⟨lost, hinner, hlost⟩ := ih hnone' hone'
    refine ⟨Stmt.opsAll (before ++ after) ++ lost, ?_, ?_⟩
    . rw [List.perm_iff_count]
      intro op
      have hperm := hsource.opsAll_perm.count_eq op
      have hinner := hinner.count_eq op
      rw [hnest.eq]
      simp only [List.count_append, Stmt.opsAll_append, Stmt.opsAll, Stmt.ops] at hperm hinner ⊢
      omega
    . rw [List.append_eq_nil_iff, hsource.opsAll_beside_eq_nil_iff hnone hone, hlost]
      simp [Folding.Unforked, Folding.meetings_of_enter hsource hnest hnone', hnone]

theorem spine_eq_nil_of_loopCount (h : loopCount source = 0) : spine source = [] := by
  apply spine_eq_nil
  unfold firstLoop?
  rw [List.findIdx?_eq_none_iff]
  intro s hs
  simpa using List.countP_eq_zero.mp h s hs

/--
The ids of the ops that a control program launches.
-/
def ops (c : Control) : List Nat :=
  Stmt.opsAll c.prologue ++ Stmt.opsAll c.body

theorem Takes.ops_perm {c c' : Control} {s : Stmt} (h : Takes c used s c' used') :
    ∃ lost, (c'.ops ++ lost).Perm (c.ops ++ s.ops) ∧
      (lost = [] ↔ ∀ f ∈ foldings.folding c s, f.Unforked) := by
  cases h with
  | launch op operands =>
    refine ⟨[], ?_, by simp [foldings.folding]⟩
    rw [List.perm_iff_count]
    intro op'
    simp only [ops, Stmt.opsAll_append, Stmt.opsAll, Stmt.ops, List.count_append, List.count_nil]
    omega
  | @drop head body hnone =>
    refine ⟨[], ?_, by simp [foldings.folding, isCandidate, hnone]⟩
    rw [Stmt.ops, (Stmt.opsAll_eq_nil_iff body).mpr hnone]
  | @direct head body hcandidate _ hlaunch hloops =>
    refine ⟨[], ?_, ?_⟩
    . rw [List.perm_iff_count]
      intro op
      simp only [ops, Stmt.opsAll_append, Stmt.opsAll_renameAll, Stmt.ops, List.count_append,
        List.count_nil]
      omega
    . simp [foldings.folding, hcandidate, Folding.Unforked, Folding.meetings, hlaunch,
        spine_eq_nil_of_loopCount hloops, upToLaunch]
  | nested hcandidate _ hlaunch hone hmerges =>
    obtain ⟨lost, hperm, hlost⟩ := hmerges.opsAll_perm hlaunch hone
    refine ⟨lost, ?_, by simpa [foldings.folding, hcandidate] using hlost⟩
    unfold ops
    rw [List.append_assoc, List.append_assoc]
    exact hperm.append_left _

theorem takeAll_ops_perm {c c' : Control} {rest : List Stmt}
    (h : rest.foldlM takeStmt (c, used) = .ok (c', used')) :
    ∃ lost, (c'.ops ++ lost).Perm (c.ops ++ Stmt.opsAll rest) ∧
      (lost = [] ↔ ∀ f ∈ foldings (c, used) rest, f.Unforked) := by
  induction rest generalizing c used with
  | nil =>
    obtain ⟨rfl, rfl⟩ := Prod.mk.inj (Except.ok.inj h)
    exact ⟨[], by simp [Stmt.opsAll], by simp [foldings]⟩
  | cons s rest ih =>
    obtain ⟨c₁, used₁, htake, htakes, hrest⟩ := takeAll_cons h
    obtain ⟨lost, hperm, hlost⟩ := htakes.ops_perm
    obtain ⟨lost', hperm', hlost'⟩ := ih hrest
    refine ⟨lost ++ lost', ?_, ?_⟩
    . rw [List.perm_iff_count]
      intro op
      have hcount := hperm.count_eq op
      have hcount' := hperm'.count_eq op
      simp only [Stmt.opsAll, List.count_append] at hcount hcount' ⊢
      omega
    . rw [foldings, htake]
      simp only [List.append_eq_nil_iff, hlost, hlost', List.forall_mem_append]

/--
A host program that is not refused keeps all its launches, unless a fork stands in the way of one of
its loops: nothing is ever launched in addition, and nothing twice.
-/
theorem ofHost?_launches (host : Host) (outer inner : Nat) :
    Folds (ofHost? host outer inner) fun
      | none => host.body.any isCandidate = false
      | some c => c.ops.Subperm (Stmt.opsAll host.body) ∧
        (c.ops.Perm (Stmt.opsAll host.body) ↔
          ∀ f ∈ foldings (idle outer inner, 0) host.body, f.Unforked) := by
  apply (ofHost?_folds host outer inner).mono
  rintro (_ | c) h
  . exact h
  . obtain ⟨used, hfold⟩ := h
    obtain ⟨lost, hperm, hlost⟩ := takeAll_ops_perm hfold
    have hnew : (idle outer inner).ops = [] := by simp [ops, idle, Stmt.opsAll]
    rw [hnew, List.nil_append] at hperm
    refine ⟨(List.sublist_append_left c.ops lost).subperm.trans hperm.subperm, ?_⟩
    rw [← hlost]
    constructor
    . intro hall
      -- the lost launches are those that are missing, so there are none
      have hlength := hall.length_eq.trans hperm.length_eq.symm
      simpa using hlength
    . rintro rfl
      rwa [List.append_nil] at hperm

/--
Two loops in a parallel loop: one that is parallel as well, and one that is sequential.
-/
def fork : Host where
  name := "fork"
  body := [.loop (.parallel ["x", "y"] [2, 2])
    [.loop (.parallel ["a", "b"] [2, 2]) [.launch 1 []],
      .loop (.sequential "k" 0 4 1) [.launch 2 []]]]

/--
Only the sequential loop is counted and copied. The launch of the other one is lost without a word.
-/
theorem ofHost?_fork_loses : ∃ c, ofHost? fork 2 2 = .ok (some c) ∧
    ¬ c.ops.Perm (Stmt.opsAll fork.body) := by
  refine ⟨⟨[], "ctrl_x", "ctrl_y", 2, 2,
    [.loop (.sequential "ctrl_iv1" 0 4 1) [.launch 2 []]]⟩, ?_, ?_⟩
  . cbv
  . decide

end

end Control

end TileTraffic
