import TileTraffic.Proofs.Json.Reader
import TileTraffic.Proofs.Lists

/-!
A JSON value spells what is read from it. What the parts of an array or of a record spell is put
together into what the whole spells.
-/

namespace TileTraffic

namespace Json

/--
`value` reads `a` from `j`, and `j` has a text from which it is read back.
-/
structure Spells {α : Type} (value : Json → Option α) (j : Json) (a : α) : Prop where
  reads : value j = some a
  plain : j.Plain

/-! ### Single values -/

theorem spells_str (s : String) : Spells str? (.str s) s :=
  ⟨rfl, trivial⟩

theorem spells_nat64 {n : Nat} (h : n < word64) : Spells (nat? word64) (.int n) n where
  reads := if_pos h
  plain := h

theorem spells_nat32 {n : Nat} (h : n < word32) : Spells (nat? word32) (.int n) n where
  reads := if_pos h
  plain := Nat.lt_trans h (by decide)

/--
A signed number of 64 bits.
-/
def Signed64 (n : Int) : Prop :=
  -0x8000_0000_0000_0000 ≤ n ∧ n < 0x8000_0000_0000_0000

instance (n : Int) : Decidable (Signed64 n) :=
  inferInstanceAs (Decidable (_ ∧ _))

theorem spells_int64 {n : Int} (h : Signed64 n) : Spells int64? (.int n) n where
  reads := if_pos h
  plain := by
    obtain ⟨hlower, hupper⟩ := h
    show n.natAbs < word64
    unfold word64
    omega

/-! ### Lists and options -/

theorem allPlain_iff {items : List Json} : AllPlain items ↔ ∀ j ∈ items, j.Plain := by
  induction items with
  | nil => simp [AllPlain]
  | cons item rest ih => simp [AllPlain, ih]

section

variable {α : Type} {value : Json → Option α} {toJson : α → Json}

theorem spells_list {as : List α} (h : ∀ a ∈ as, Spells value (toJson a) a) :
    Spells (list? value) (.arr (as.map toJson)) as where
  reads := by
    unfold list?
    induction as with
    | nil => rfl
    | cons a as ih =>
      have hrest := ih fun a ha => h a (by simp [ha])
      simp only [List.map_cons, List.mapM_cons, (h a (by simp)).reads, hrest]
      rfl
  plain := by
    refine allPlain_iff.mpr fun j hj => ?_
    obtain ⟨a, ha, rfl⟩ := List.mem_map.mp hj
    exact (h a ha).plain

/--
A missing value is written as `null`, which must not be how another value is written.
-/
theorem spells_option {a? : Option α} (h : ∀ a ∈ a?, Spells value (toJson a) a)
    (hnull : ∀ a, toJson a ≠ .null) : Spells (nullable? value) (ofOption toJson a?) a? := by
  cases a? with
  | none => exact ⟨rfl, trivial⟩
  | some a =>
    obtain ⟨hreads, hplain⟩ := h a rfl
    refine ⟨?_, hplain⟩
    unfold ofOption nullable?
    split
    . next heq => exact absurd heq (hnull a)
    . rw [hreads]
      rfl

end

theorem spells_strs (ss : List String) : Spells (list? str?) (.arr (ss.map .str)) ss :=
  spells_list fun s _ => spells_str s

theorem spells_nats64 {ns : List Nat} (h : ∀ n ∈ ns, n < word64) :
    Spells (list? (nat? word64)) (ofNats ns) ns :=
  spells_list fun n hn => spells_nat64 (h n hn)

theorem spells_nats32 {ns : List Nat} (h : ∀ n ∈ ns, n < word32) :
    Spells (list? (nat? word32)) (ofNats ns) ns :=
  spells_list fun n hn => spells_nat32 (h n hn)

/-! ### Records -/

theorem unrepeated_of_nodup {members : List (String × Json)} (h : (members.map Prod.fst).Nodup)
    (names : List String) : unrepeated names members = true := by
  refine List.all_eq_true.mpr fun name _ => decide_eq_true ?_
  have hcount := List.nodup_iff_count.mp h name
  rw [List.count_eq_countP, List.countP_map] at hcount
  exact hcount

theorem record?_obj {members : List (String × Json)} (h : (members.map Prod.fst).Nodup)
    (fields : List String) : record? fields (.obj members) = some members := by
  rw [record?, if_pos (unrepeated_of_nodup h fields)]

section

variable {α : Type} {value : Json → Option α} {name other : String} {j : Json}
  {rest : List (String × Json)}

@[simp]
theorem field?_cons_self : field? ((name, j) :: rest) name value = value j := by
  rw [field?, List.lookup_cons_self]
  rfl

@[simp]
theorem field?_cons_of_ne (h : name ≠ other) :
    field? ((other, j) :: rest) name value = field? rest name value := by
  rw [field?, List.lookup_cons, beq_eq_false_iff_ne.mpr h]
  rfl

@[simp]
theorem fieldOr?_cons_self {fallback : α} :
    fieldOr? ((name, j) :: rest) name fallback value = value j := by
  rw [fieldOr?, List.lookup_cons_self]

@[simp]
theorem fieldOr?_cons_of_ne {fallback : α} (h : name ≠ other) :
    fieldOr? ((other, j) :: rest) name fallback value = fieldOr? rest name fallback value := by
  rw [fieldOr?, List.lookup_cons, beq_eq_false_iff_ne.mpr h]
  rfl

end

section

variable {α : Type} {value : Json → Option α} {members : List (String × Json)} {j : Json} {a : α}
  (name : String) (hnodup : (members.map Prod.fst).Nodup) (hmem : (name, j) ∈ members)
  (h : Spells value j a)
include hnodup hmem h

theorem field?_of_mem : field? members name value = some a := by
  rw [field?, lookup_of_mem hnodup hmem]
  exact h.reads

theorem fieldOr?_of_mem (fallback : α) : fieldOr? members name fallback value = some a := by
  rw [fieldOr?, lookup_of_mem hnodup hmem]
  exact h.reads

end

mutual

theorem readable_of_plain : ∀ {j : Json}, j.Plain → j.readable = true
  | .arr _, h => allReadable_of_plain h
  | .obj _, h => membersReadable_of_plain h
  | .null, _ | .bool _, _ | .int _, _ | .str _, _ => rfl

theorem allReadable_of_plain : ∀ {items : List Json}, AllPlain items → allReadable items = true
  | [], _ => rfl
  | _ :: _, ⟨hitem, hrest⟩ => by
    rw [allReadable, readable_of_plain hitem, allReadable_of_plain hrest]
    rfl

theorem membersReadable_of_plain :
    ∀ {members : List (String × Json)}, MembersPlain members → membersReadable members = true
  | [], _ => rfl
  | (_, _) :: _, ⟨hvalue, hrest⟩ => by
    rw [membersReadable, readable_of_plain hvalue, membersReadable_of_plain hrest]
    rfl

end

theorem membersPlain_append {members rest : List (String × Json)} :
    MembersPlain (members ++ rest) ↔ MembersPlain members ∧ MembersPlain rest := by
  induction members with
  | nil => simp [MembersPlain]
  | cons member members ih => simp [MembersPlain, ih, and_assoc]

/-! ### Nesting -/

theorem depthAll_le_iff {items : List Json} {n : Nat} :
    depthAll items ≤ n ↔ ∀ j ∈ items, j.depth ≤ n := by
  induction items with
  | nil => simp [depthAll]
  | cons item rest ih => simp [depthAll, Nat.max_le, ih]

theorem depth_map_le {α : Type} {toJson : α → Json} {as : List α} {n : Nat}
    (h : ∀ a ∈ as, (toJson a).depth ≤ n) : (Json.arr (as.map toJson)).depth ≤ n + 1 := by
  refine Nat.succ_le_succ (depthAll_le_iff.mpr fun j hj => ?_)
  obtain ⟨a, ha, rfl⟩ := List.mem_map.mp hj
  exact h a ha

theorem depth_ofNats_le (ns : List Nat) : (ofNats ns).depth ≤ 1 :=
  depth_map_le fun _ _ => Nat.le_refl 0

end Json

end TileTraffic
