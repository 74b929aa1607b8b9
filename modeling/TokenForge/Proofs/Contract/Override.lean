/-
Which mark a function carries, without places and sorting. For distinct
ancestors that all are bases, the mark is `exact`: none for no ancestor,
the plain one for one, and otherwise the names of the bases with everything
else left out (`resolve_of_known`). The list of several is therefore a
matter of which ancestors there are; the order in which they were named is
gone, and with it every difference between histories that name the same
ones (`exact_perm`).

The heart is `sortedByPlace`: sorting distinct names by their place among
the bases and filtering the bases by them is the same list, because both
are in the order of the bases and neither repeats a name.

If an ancestor is no base there is no mark, and the conflict names the
first such ancestor (`resolve_failsWith`); of the functions of a contract, the
first that has one (`Contract.marked_failsWith`).
-/
import Mathlib.Data.List.Basic
import TokenForge.Contract.Override
import TokenForge.Proofs.Traversal

namespace TokenForge

-- ================================================== order of the bases

theorem idxOf?_of_mem {a : String} {l : List String} (h : a ∈ l) :
    l.idxOf? a = some (l.idxOf a) := by
  induction l with
  | nil => cases h
  | cons x l ih =>
      rw [List.idxOf?_cons, List.idxOf_cons]
      by_cases hx : x = a
      · rw [if_pos (beq_iff_eq.2 hx), beq_iff_eq.2 hx]
        rfl
      · have htail : a ∈ l :=
          (List.mem_cons.1 h).resolve_left fun ha => hx ha.symm
        rw [ih htail, beq_false_of_ne hx]
        rfl

/-- In a list without repetition, places follow the order. -/
theorem pairwise_idxOf {l : List String} (h : l.Nodup) :
    l.Pairwise fun a b => l.idxOf a ≤ l.idxOf b := by
  rw [List.pairwise_iff_getElem]
  intro i j hi hj hij
  rw [h.idxOf_getElem, h.idxOf_getElem]
  exact Nat.le_of_lt hij

/-- Sorting some of the bases by their place is leaving out the others. -/
theorem sortedByPlace {bases names : List String} (hb : bases.Nodup)
    (hn : names.Nodup) (hsub : ∀ a ∈ names, a ∈ bases) :
    ((names.map fun a => (bases.idxOf a, a)).mergeSort
        fun a b => a.1 ≤ b.1).map (·.2)
      = bases.filter (· ∈ names) := by
  let placed := names.map fun a => (bases.idxOf a, a)
  let sorted := placed.mergeSort fun a b => a.1 ≤ b.1
  have hmem : ∀ x ∈ sorted, x.1 = bases.idxOf x.2 ∧ x.2 ∈ names := by
    intro x hx
    obtain ⟨a, ha, rfl⟩ := List.mem_map.1 (List.mem_mergeSort.1 hx)
    exact ⟨rfl, ha⟩
  -- both sides hold the same names, and both in the order of their places
  have hperm : (sorted.map (·.2)).Perm (bases.filter (· ∈ names)) := by
    have hnames : (sorted.map (·.2)).Perm names := by
      have hp := (List.mergeSort_perm placed fun a b => a.1 ≤ b.1).map (·.2)
      have hid : placed.map (·.2) = names := by
        rw [List.map_map]
        exact List.map_id _
      rw [hid] at hp
      exact hp
    refine hnames.trans ((List.perm_ext_iff_of_nodup hn (hb.filter _)).2 ?_)
    intro a
    rw [List.mem_filter, decide_eq_true_eq]
    exact ⟨fun ha => ⟨hsub a ha, ha⟩, And.right⟩
  have hsorted : (sorted.map (·.2)).Pairwise fun a b =>
      bases.idxOf a ≤ bases.idxOf b := by
    have hpair : sorted.Pairwise fun a b => decide (a.1 ≤ b.1) = true :=
      List.pairwise_mergeSort
        (fun a b c hab hbc => by
          simp only [decide_eq_true_eq] at hab hbc ⊢
          omega)
        (fun a b => by
          simp only [Bool.or_eq_true, decide_eq_true_eq]
          omega) placed
    rw [List.pairwise_map]
    refine hpair.imp_of_mem fun {a b} ha hb hab => ?_
    rw [← (hmem a ha).1, ← (hmem b hb).1]
    simpa using hab
  have hfiltered : (bases.filter (· ∈ names)).Pairwise fun a b =>
      bases.idxOf a ≤ bases.idxOf b :=
    (pairwise_idxOf hb).filter _
  -- no two names share a place, so there is one such list
  refine List.Perm.eq_of_pairwise
    (fun a b ha _ hab hba => ?_) hsorted hfiltered
    hperm
  have hbase : a ∈ bases := by
    obtain ⟨x, hx, rfl⟩ := List.mem_map.1 ha
    exact hsub _ (hmem x hx).2
  exact (List.idxOf_inj hbase).1 (Nat.le_antisymm hab hba)

-- ============================================================ conflicts

namespace Contract

/-- All ancestors of a function are bases. -/
def Knows (c : Contract) (m : Method) : Prop :=
  ∀ a ∈ m.ancestors, a ∈ c.baseNames

instance (c : Contract) (m : Method) : Decidable (c.Knows m) :=
  inferInstanceAs (Decidable (∀ a ∈ m.ancestors, a ∈ c.baseNames))

/-- The conflict of a function: its first ancestor that is no base. -/
def MethodConflict (c : Contract) (m : Method) (e : ContractError) : Prop :=
  ∃ a, FirstWithout (· ∈ c.baseNames) m.ancestors a
    ∧ e = .unknownAncestor c.name m.signature.text a

/-- The conflict of a contract: that of its first function with an
ancestor that is no base. -/
def Conflict (c : Contract) (e : ContractError) : Prop :=
  ∃ m, FirstWithout c.Knows c.methods m ∧ c.MethodConflict m e

end Contract

namespace OverrideMark

-- =============================================================== the mark

/-- The mark of a function by the bases of its contract and the ancestors
that declare it. -/
def exact (bases : List String) : List String → OverrideMark
  | [] => .new
  | [_] => .single
  | names => .several (bases.filter (· ∈ names))

theorem exact_eq_new {bases l : List String} :
    exact bases l = .new ↔ l = [] := by
  match l with
  | [] => simp [exact]
  | [_] => simp [exact]
  | _ :: _ :: _ => simp [exact]

theorem exact_eq_single {bases l : List String} :
    exact bases l = .single ↔ ∃ a, l = [a] := by
  match l with
  | [] => simp [exact]
  | [_] => simp [exact]
  | _ :: _ :: _ => simp [exact]

theorem exact_eq_several {bases l names : List String} :
    exact bases l = .several names
      ↔ 2 ≤ l.length ∧ names = bases.filter (· ∈ l) := by
  match l with
  | [] => simp [exact]
  | [_] => simp [exact]
  | _ :: _ :: _ => simp [exact, eq_comm]

theorem place_of_mem {c : Contract} {m : Method} {a : String}
    (h : a ∈ c.baseNames) : place c m a = .ok (c.baseNames.idxOf a, a) := by
  have hpos : c.basePosition? a = some (c.baseNames.idxOf a) :=
    idxOf?_of_mem h
  rw [place, hpos]

theorem place_failsWith (c : Contract) (m : Method) (a : String) :
    FailsWith (place c m a) (a ∈ c.baseNames)
      (· = .unknownAncestor c.name m.signature.text a) := by
  by_cases ha : a ∈ c.baseNames
  · rw [place_of_mem ha]
    exact ⟨by simp [ha], fun h => absurd ha h⟩
  · have hpos : c.basePosition? a = none := List.idxOf?_eq_none_iff.2 ha
    rw [place, hpos]
    exact ⟨by simp [ha], fun _ e => by simp [eq_comm]⟩

/-- The mark of distinct ancestors that all are bases. -/
theorem resolve_of_known {c : Contract} {m : Method} (hb : c.baseNames.Nodup)
    (hn : m.ancestors.Nodup) (hsub : ∀ a ∈ m.ancestors, a ∈ c.baseNames) :
    resolve c m = .ok (exact c.baseNames m.ancestors) := by
  have hplaced := mapM_ok_of_forall (f := place c m) m.ancestors fun a ha =>
    place_of_mem (hsub a ha)
  have hmark : ofPlaced (m.ancestors.map fun a => (c.baseNames.idxOf a, a))
      = exact c.baseNames m.ancestors := by
    have hsort := sortedByPlace hb hn hsub
    match hm : m.ancestors with
    | [] => rfl
    | [a] => rfl
    | a :: b :: rest =>
        rw [hm] at hsort
        exact congrArg several hsort
  rw [resolve, hplaced, ← hmark]
  rfl

/-- A mark lists ancestors of the function only. -/
theorem mem_ancestors_of_several {c : Contract} {m : Method}
    {names : List String} (h : resolve c m = .ok (.several names)) {a : String}
    (ha : a ∈ names) : a ∈ m.ancestors := by
  cases hplaced : m.ancestors.mapM (place c m) with
  | error e =>
      rw [resolve, hplaced] at h
      cases h
  | ok placed =>
      rw [resolve, hplaced] at h
      have hmark : ofPlaced placed = .several names := Except.ok.inj h
      have hmem : ∃ p ∈ placed, p.2 = a := by
        match placed with
        | [] => cases hmark
        | [_] => cases hmark
        | x :: y :: rest =>
            rw [← several.inj hmark] at ha
            obtain ⟨p, hp, rfl⟩ := List.mem_map.1 ha
            exact ⟨p, List.mem_mergeSort.1 hp, rfl⟩
      obtain ⟨p, hp, rfl⟩ := hmem
      obtain ⟨b, hb, hplace⟩ := exists_of_mem_mapM hplaced hp
      unfold place at hplace
      split at hplace
      · cases hplace
        exact hb
      · cases hplace

/-- There is a mark if all ancestors are bases. -/
theorem resolve_failsWith (c : Contract) (m : Method) :
    FailsWith (resolve c m) (c.Knows m) (c.MethodConflict m) :=
  (FailsWith.mapM (place_failsWith c m) m.ancestors).bind_ok ofPlaced

/-- The order in which the ancestors were named does not show. -/
theorem exact_perm {bases a b : List String} (h : a.Perm b) :
    exact bases a = exact bases b := by
  have hlen := h.length_eq
  match a, b with
  | [], [] => rfl
  | [_], [_] => rfl
  | x :: y :: a, z :: w :: b =>
      refine congrArg several (List.filter_congr fun n _ => ?_)
      exact decide_eq_decide.2 h.mem_iff
  | [], _ :: _ => simp at hlen
  | [_], [] => simp at hlen
  | [_], _ :: _ :: _ => simp at hlen
  | _ :: _ :: _, [] => simp at hlen
  | _ :: _ :: _, [_] => simp at hlen

end OverrideMark

-- ============================================ the functions of a contract

namespace Contract

/-- The first function that names an ancestor that is no base. -/
def firstUnknown? (c : Contract) : Option Method :=
  c.methods.find? fun m => m.ancestors.any fun a => a ∉ c.baseNames

theorem firstUnknown?_eq_none {c : Contract} :
    c.firstUnknown? = none
      ↔ ∀ m ∈ c.methods, ∀ a ∈ m.ancestors, a ∈ c.baseNames := by
  unfold firstUnknown?
  rw [List.find?_eq_none]
  simp only [List.any_eq_true, decide_eq_true_eq, not_exists, not_and,
    Decidable.not_not]

variable {c : Contract}

/-- A contract whose ancestors all are bases has a mark for every
function. -/
theorem marked_of_known (hb : c.baseNames.Nodup)
    (hn : ∀ m ∈ c.methods, m.ancestors.Nodup)
    (h : ∀ m ∈ c.methods, ∀ a ∈ m.ancestors, a ∈ c.baseNames) :
    c.marked = .ok (c.methods.map fun m =>
      (m, OverrideMark.exact c.baseNames m.ancestors)) := by
  refine mapM_ok_of_forall c.methods fun m hm => ?_
  rw [OverrideMark.resolve_of_known hb (hn m hm) (h m hm)]
  rfl

/-- The functions have marks if all ancestors are bases. -/
theorem marked_failsWith (c : Contract) :
    FailsWith c.marked (∀ m ∈ c.methods, c.Knows m) c.Conflict :=
  FailsWith.mapM (fun m => (OverrideMark.resolve_failsWith c m).bind_ok
    fun mark => (m, mark))
    c.methods

/-- A function with an unknown ancestor leaves the contract without marks;
the conflict is about the first such function. -/
theorem marked_of_unknown {m : Method} (h : c.firstUnknown? = some m) :
    ∃ a ∈ m.ancestors, a ∉ c.baseNames
      ∧ c.marked = .error (.unknownAncestor c.name m.signature.text a) := by
  have hfirst : FirstWithout c.Knows c.methods m := by
    rw [firstWithout_iff_find?, ← h]
    unfold firstUnknown?
    congr 1
    funext m
    rw [Bool.eq_iff_iff]
    simp [Knows]
  have hunknown : ∃ a ∈ m.ancestors, a ∉ c.baseNames := by
    simpa [Knows] using hfirst.mem.2
  obtain ⟨a, ha⟩ := exists_first hunknown
  refine ⟨a, ha.mem.1, ha.mem.2,
    ((marked_failsWith c).error_iff ?_ _).2 ⟨m, hfirst, a, ha, rfl⟩⟩
  exact fun hall => hfirst.mem.2 (hall m hfirst.mem.1)

end Contract

end TokenForge
