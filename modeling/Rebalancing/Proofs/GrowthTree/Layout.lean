-- SUMMARY: Where the nodes of a growth tree stand in its system: every node has one row of its own, and every number of the system is one of its row's node or tip.
import Mathlib
import Rebalancing.Proofs.Checked.GrowthTree
import Rebalancing.Proofs.GrowthTree.Greatest

/-!
# Layout of a growth tree

A tree with `N` leaves has `2 N - 1` nodes, numbered as in a heap, and as many rows that
read a node: two for every inner node, which read its children, and the last one, which
reads the root. The numbering puts the nodes into these rows one to one, so a pass that
fills the system meets no row twice. What a column of the matrix holds is read off the row
of the node that it belongs to.
-/

namespace Rebalancing

namespace GrowthTree

/-! ## Rows of the nodes -/

section Places

variable {F : Type} (t : GrowthTree F)

/-- The row that reads a node: the last one reads the root, and the first two of inner
node `k` read its children `2 k + 1` and `2 k + 2`. -/
def place (j : ℕ) : ℕ :=
  if j = 0 then 3 * t.inner else 3 * ((j - 1) / 2) + (j - 1) % 2

/-- The row reads a child of an inner node. -/
def IsChildRow (r : ℕ) : Prop := ∃ k < t.inner, r = 3 * k ∨ r = 3 * k + 1

/-- The row reads a node: a child of an inner node, or the root. -/
def IsNodeRow (r : ℕ) : Prop := t.IsChildRow r ∨ r = 3 * t.inner

theorem place_root : t.place 0 = 3 * t.inner := if_pos rfl

theorem place_left (k : ℕ) : t.place (2 * k + 1) = 3 * k := by
  rw [place, if_neg (by omega)]
  omega

theorem place_right (k : ℕ) : t.place (2 * k + 2) = 3 * k + 1 := by
  rw [place, if_neg (by omega)]
  omega

variable {t}

/-- Every node is the root or a child of an inner node. -/
theorem node_cases {j : ℕ} (hj : j < 2 * t.leaves - 1) :
    j = 0 ∨ ∃ k < t.inner, j = 2 * k + 1 ∨ j = 2 * k + 2 := by
  have hleaves := t.inner_succ
  rcases Nat.eq_zero_or_pos j with rfl | hpos
  · exact .inl rfl
  · exact .inr ⟨(j - 1) / 2, by omega, by omega⟩

/-- The numbering of the nodes puts them into the rows that read one, one to one. -/
theorem bijOn_place :
    Set.BijOn t.place {j | j < 2 * t.leaves - 1} {r | t.IsNodeRow r} := by
  have hleaves := t.inner_succ
  refine ⟨fun j hj => ?_, fun i hi j hj heq => ?_, fun r hr => ?_⟩
  · obtain rfl | ⟨k, hk, rfl | rfl⟩ := node_cases hj
    · exact .inr t.place_root
    · exact .inl ⟨k, hk, .inl (t.place_left k)⟩
    · exact .inl ⟨k, hk, .inr (t.place_right k)⟩
  · obtain rfl | ⟨k, hk, rfl | rfl⟩ := node_cases hi <;>
      obtain rfl | ⟨l, hl, rfl | rfl⟩ := node_cases hj <;>
      simp only [place_root, place_left, place_right] at heq <;> omega
  · obtain ⟨k, hk, rfl | rfl⟩ | rfl := hr
    · exact ⟨2 * k + 1, Set.mem_ofPred.mpr (by omega), t.place_left k⟩
    · exact ⟨2 * k + 2, Set.mem_ofPred.mpr (by omega), t.place_right k⟩
    · exact ⟨0, Set.mem_ofPred.mpr (by omega), t.place_root⟩

theorem place_lt_rows {j : ℕ} (hj : j < 2 * t.leaves - 1) : t.place j < t.rows := by
  rw [rows]
  obtain ⟨k, hk, hrow⟩ | hrow := bijOn_place.mapsTo hj <;> omega

/-- Every row reads a node or a tip. -/
theorem row_cases {r : ℕ} (hr : r < t.rows) :
    (∃ j < 2 * t.leaves - 1, r = t.place j ∧ t.row r = .value j) ∨
      ∃ k < t.inner, r = 3 * k + 2 ∧ t.row r = .tip k := by
  have hleaves := t.inner_succ
  rw [rows] at hr
  rcases Nat.lt_or_ge r (3 * t.inner) with hlt | hge
  · obtain ⟨k, hk, rfl | rfl | rfl⟩ :
        ∃ k < t.inner, r = 3 * k ∨ r = 3 * k + 1 ∨ r = 3 * k + 2 :=
      ⟨r / 3, by omega, by omega⟩
    · exact .inl ⟨2 * k + 1, by omega, (t.place_left k).symm, t.row_left hk⟩
    · exact .inl ⟨2 * k + 2, by omega, (t.place_right k).symm, t.row_right hk⟩
    · exact .inr ⟨k, hk, rfl, t.row_tip hk⟩
  · obtain rfl : r = 3 * t.inner := by omega
    exact .inl ⟨0, by omega, t.place_root.symm, t.row_root⟩

theorem row_place {j : ℕ} (hj : j < 2 * t.leaves - 1) : t.row (t.place j) = .value j := by
  obtain rfl | ⟨k, hk, rfl | rfl⟩ := node_cases hj
  · rw [place_root, row_root]
  · rw [place_left, t.row_left hk]
  · rw [place_right, t.row_right hk]

theorem isChildRow_place_iff {j : ℕ} (hj : j < 2 * t.leaves - 1) :
    t.IsChildRow (t.place j) ↔ j ≠ 0 := by
  obtain rfl | ⟨k, hk, rfl | rfl⟩ := node_cases hj
  · refine iff_of_false ?_ (by omega)
    rintro ⟨k, hk, hrow⟩
    rw [place_root] at hrow
    omega
  · exact iff_of_true ⟨k, hk, .inl (t.place_left k)⟩ (by omega)
  · exact iff_of_true ⟨k, hk, .inr (t.place_right k)⟩ (by omega)

/-- The row of a node is no tip. -/
theorem place_ne_tip {j k : ℕ} (hj : j < 2 * t.leaves - 1) (hk : k < t.inner) :
    t.place j ≠ 3 * k + 2 := by
  intro h
  have hrow := t.row_tip hk
  rw [← h, row_place hj] at hrow
  cases hrow

end Places

/-! ## Passes over the rows -/

/-- What a pass over the rows of a tree does to a state: with the row of a node, with the
tip of an inner node, and at the end with the row of the root. -/
structure Pass (σ : Type) where
  node : σ → ℕ → ℕ → Option σ
  tip : σ → ℕ → Option σ
  close : σ → Option σ

namespace Pass

variable {σ : Type}

/-- The three rows of an inner node. -/
def cone (p : Pass σ) (s : σ) (k : ℕ) : Option σ := do
  let s ← p.node s (3 * k) (2 * k + 1)
  let s ← p.node s (3 * k + 1) (2 * k + 2)
  p.tip s k

/-- All rows: those of the inner nodes in turn, and last the row of the root. -/
def run (p : Pass σ) (inner : ℕ) (start : σ) : Option σ := do
  let s ← (List.range inner).foldlM p.cone start
  let s ← p.node s (3 * inner) 0
  p.close s

/-- The pass that notes beside its state which rows it was in, each with the node that it
read there. -/
def noted (p : Pass σ) : Pass (σ × List (ℕ × ℕ)) where
  node s row j := (p.node s.1 row j).map (·, s.2 ++ [(row, j)])
  tip s k := (p.tip s.1 k).map (·, s.2)
  close s := (p.close s.1).map (·, s.2)

end Pass

/-- The rows of nodes in the order of a pass, each with its node. -/
def visits {F : Type} (t : GrowthTree F) : List (ℕ × ℕ) :=
  ((List.range t.inner).flatMap fun k => [(3 * k, 2 * k + 1), (3 * k + 1, 2 * k + 2)]) ++
    [(3 * t.inner, 0)]

section Visits

variable {F σ : Type} (t : GrowthTree F) (p : Pass σ)

theorem Pass.cone_noted (s : σ) (l : List (ℕ × ℕ)) (k : ℕ) :
    p.noted.cone (s, l) k =
      (p.cone s k).map (·, l ++ [(3 * k, 2 * k + 1), (3 * k + 1, 2 * k + 2)]) := by
  simp only [cone, noted, Option.bind_eq_bind, Option.map_eq_bind, Option.bind_assoc,
    Option.bind_some, Function.comp_apply, List.append_assoc, List.cons_append, List.nil_append]

/-- By induction on the inner nodes, what is noted does not depend on the pass. -/
theorem Pass.foldlM_cone_noted (s : σ) (m : ℕ) :
    (List.range m).foldlM p.noted.cone (s, []) =
      ((List.range m).foldlM p.cone s).map (·,
        (List.range m).flatMap fun k => [(3 * k, 2 * k + 1), (3 * k + 1, 2 * k + 2)]) := by
  induction m with
  | zero => rfl
  | succ m ih =>
    rw [Checked.foldlM_range_succ, Checked.foldlM_range_succ, ih, List.range_succ,
      List.flatMap_append]
    cases (List.range m).foldlM p.cone s with
    | none => rfl
    | some s' => exact p.cone_noted s' _ m

/-- Whatever a pass does, it is in the same rows in the same order. -/
theorem Pass.run_noted (s : σ) :
    p.noted.run t.inner (s, []) = (p.run t.inner s).map (·, t.visits) := by
  rw [run, p.foldlM_cone_noted, run]
  simp only [noted, Option.bind_eq_bind, Option.map_eq_bind, Option.bind_assoc, Option.bind_some,
    Function.comp_apply, visits]

/-- A pass is in the row of every node once. -/
theorem perm_nodes_visits : (t.visits.map Prod.snd).Perm (List.range (2 * t.leaves - 1)) := by
  have hcones : ∀ m, ((List.range m).flatMap fun k =>
      [(3 * k, 2 * k + 1), (3 * k + 1, 2 * k + 2)]).map Prod.snd = List.range' 1 (2 * m) := by
    intro m
    induction m with
    | zero => rfl
    | succ m ih =>
      rw [List.range_succ, List.flatMap_append, List.map_append, ih, Nat.mul_succ,
        ← List.range'_append_1, Nat.add_comm 1]
      rfl
  have hnodes : 2 * t.leaves - 1 = 2 * t.inner + 1 := by
    have hleaves := t.inner_succ
    omega
  rw [visits, List.map_append, hcones, hnodes, List.range_eq_range', List.range'_succ]
  exact List.perm_append_singleton 0 _

theorem fst_of_mem_visits {v : ℕ × ℕ} (h : v ∈ t.visits) : v.1 = t.place v.2 := by
  simp only [visits, List.mem_append, List.mem_flatMap, List.mem_range, List.mem_cons,
    List.not_mem_nil, or_false] at h
  obtain ⟨k, -, rfl | rfl⟩ | rfl := h
  · exact (t.place_left k).symm
  · exact (t.place_right k).symm
  · exact t.place_root.symm

/-- A pass is in no row for two nodes. -/
theorem nodup_rows_visits : (t.visits.map Prod.fst).Nodup := by
  have hperm := t.perm_nodes_visits
  have hrows : t.visits.map Prod.fst = (t.visits.map Prod.snd).map t.place := by
    rw [List.map_map]
    exact List.map_congr_left fun v hv => t.fst_of_mem_visits hv
  rw [hrows]
  refine List.Nodup.map_on (fun i hi j hj heq => ?_) (hperm.nodup_iff.mpr List.nodup_range)
  have hi := List.mem_range.mp (hperm.mem_iff.mp hi)
  have hj := List.mem_range.mp (hperm.mem_iff.mp hj)
  exact bijOn_place.injOn hi hj heq

end Visits

/-! ## Numbers of the system -/

variable {F : Type} [Scalar F]

/-- The pass that fills the system. -/
def filling (t : GrowthTree F) : Pass (Filling F) where
  node := t.putNode?
  tip s k := do
    let matrix ← s.matrix.put? (3 * k + 2) (2 * t.assets + k) (-Scalar.sqrt Scalar.two)
    some { s with matrix }
  close s := do
    let root ← s.constants.cell? (3 * t.inner) 0
    let constants ← s.constants.put? (3 * t.inner) 0 (root - t.floor)
    some { s with constants }

theorem fill?_eq_run {t : GrowthTree F} (h : 0 < t.assets) :
    t.fill? = t.filling.run t.inner t.blank := by
  rw [fill?, if_pos h]
  rfl

/-- The row of the matrix is zero throughout. -/
def ZeroRow (t : GrowthTree F) (s : Filling F) (r : ℕ) : Prop :=
  ∀ c < t.cols, s.matrix.entry r c = 0

/-- Every number of the system stands in the row of its node, or of its tip. -/
structure LaidOut (t : GrowthTree F) (s : Filling F) : Prop where
  delta : ∀ i < t.assets, ∀ r < t.rows,
    s.matrix.entry r i = if r = t.place (t.inner + i) then -t.coupling else 0
  lam : ∀ i < t.assets, ∀ r < t.rows,
    s.matrix.entry r (t.assets + i) = if r = t.place (t.inner + i) then 1 else 0
  auxiliary : ∀ k < t.inner, ∀ r < t.rows,
    s.matrix.entry r (2 * t.assets + k) =
      if r = 3 * k + 2 then -Scalar.sqrt Scalar.two else if r = t.place k then -1 else 0
  growth : ∀ i < t.assets, s.constants.entry (t.place (t.inner + i)) 0 =
    if t.assets = 1 then t.growth.coord i - t.floor else t.growth.coord i
  /-- As many rows of children are zero as there are leaves beyond the assets. -/
  ncard_zeroRow : {r | t.IsChildRow r ∧ t.ZeroRow s r}.ncard = t.leaves - t.assets
  padding : ∀ r, t.IsChildRow r → t.ZeroRow s r → s.constants.entry r 0 = t.floor
  root : 1 < t.assets → s.constants.entry (3 * t.inner) 0 = 0 - t.floor
  rest : ∀ r < t.rows, r ≠ 3 * t.inner → (∀ i < t.assets, r ≠ t.place (t.inner + i)) →
    ¬ (t.IsChildRow r ∧ t.ZeroRow s r) → s.constants.entry r 0 = 0

section Entries

variable {t : GrowthTree F} {j i k r c : ℕ}

theorem nodeCoefficient_eq (t : GrowthTree F) (j c : ℕ) : t.nodeCoefficient j c =
    if j < t.inner then if c = 2 * t.assets + j then -1 else 0
    else if j - t.inner < t.assets then
      if c = j - t.inner then -t.coupling else if c = t.assets + (j - t.inner) then 1 else 0
    else 0 := by
  by_cases hj : j < t.inner
  · simp only [nodeCoefficient, node, if_pos hj]
  · by_cases hi : j - t.inner < t.assets <;>
      simp only [nodeCoefficient, node, if_neg hj, hi, if_true, if_false]

theorem nodeCoefficient_delta (hi : i < t.assets) :
    t.nodeCoefficient j i = if j = t.inner + i then -t.coupling else 0 := by
  rw [nodeCoefficient_eq]
  split_ifs <;> first | rfl | omega

theorem nodeCoefficient_lam (hi : i < t.assets) :
    t.nodeCoefficient j (t.assets + i) = if j = t.inner + i then 1 else 0 := by
  rw [nodeCoefficient_eq]
  split_ifs <;> first | rfl | omega

theorem nodeCoefficient_auxiliary (hk : k < t.inner) :
    t.nodeCoefficient j (2 * t.assets + k) = if j = k then -1 else 0 := by
  rw [nodeCoefficient_eq]
  split_ifs <;> first | rfl | omega

/-- A column that holds one number in the row of one node, by what the nodes read of it. -/
theorem coefficient_of_node (hc : c < 2 * t.assets) (hj : j < 2 * t.leaves - 1) {v : F}
    (hnode : ∀ l, t.nodeCoefficient l c = if l = j then v else 0) (hr : r < t.rows) :
    t.coefficient r c = if r = t.place j then v else 0 := by
  obtain ⟨l, hl, rfl, hrow⟩ | ⟨k, hk, rfl, hrow⟩ := row_cases hr
  · rw [coefficient_of_value hrow, hnode]
    exact if_congr (bijOn_place.injOn.eq_iff hl hj).symm rfl rfl
  · rw [coefficient_of_tip hrow, if_neg (by omega), if_neg (place_ne_tip hj hk).symm]

theorem coefficient_auxiliary (hk : k < t.inner) (hr : r < t.rows) :
    t.coefficient r (2 * t.assets + k) =
      if r = 3 * k + 2 then -Scalar.sqrt Scalar.two else if r = t.place k then -1 else 0 := by
  have hleaves := t.inner_succ
  have hnode : k < 2 * t.leaves - 1 := by omega
  obtain ⟨l, hl, rfl, hrow⟩ | ⟨m, hm, rfl, hrow⟩ := row_cases hr
  · rw [coefficient_of_value hrow, nodeCoefficient_auxiliary hk, if_neg (place_ne_tip hl hk)]
    exact if_congr (bijOn_place.injOn.eq_iff hl hnode).symm rfl rfl
  · rw [coefficient_of_tip hrow, if_neg (place_ne_tip hnode hm).symm]
    exact if_congr (by omega) rfl rfl

/-- The row of a node is zero just where the node is padding. -/
theorem zeroRow_place_iff (hone : (1 : F) ≠ 0) (hneg : (-1 : F) ≠ 0)
    (hj : j < 2 * t.leaves - 1) :
    (∀ c < t.cols, t.coefficient (t.place j) c = 0) ↔ t.inner + t.assets ≤ j := by
  rw [coefficient_of_value (row_place hj)]
  constructor
  · intro hzero
    by_contra hlt
    rcases lt_or_ge j t.inner with hinner | hinner
    · have hentry := hzero (2 * t.assets + j) (Nat.add_lt_add_left hinner _)
      rw [nodeCoefficient_auxiliary hinner, if_pos rfl] at hentry
      exact hneg hentry
    · obtain ⟨i, rfl⟩ := Nat.exists_eq_add_of_le hinner
      have hi : i < t.assets := by omega
      have hentry := hzero (t.assets + i) (by rw [cols]; omega)
      rw [nodeCoefficient_lam hi, if_pos rfl] at hentry
      exact hone hentry
  · intro hle c hc
    obtain ⟨i, rfl⟩ := Nat.exists_eq_add_of_le (Nat.le_of_add_right_le hle)
    rw [t.nodeCoefficient_padding (by omega)]

/-- The row of a node holds the constant of the node, the root's less the floor. -/
theorem constant_place (hj : j < 2 * t.leaves - 1) :
    t.constant (t.place j) = if j = 0 then t.nodeConstant 0 - t.floor else t.nodeConstant j := by
  split_ifs with h
  · rw [h, place_root, constant_of_root]
  · obtain rfl | ⟨k, hk, hchild⟩ := node_cases hj
    · exact absurd rfl h
    · refine constant_of_value ?_ (row_place hj)
      rcases hchild with rfl | rfl
      · rw [place_left]
        omega
      · rw [place_right]
        omega

end Entries

section System

variable {t : GrowthTree F} (hassets : 0 < t.assets) (hone : (1 : F) ≠ 0) (hneg : (-1 : F) ≠ 0)

include hassets hone hneg

/-- The rows of children that are zero are those of the leaves beyond the assets. -/
theorem setOf_childRow_zero :
    {r | t.IsChildRow r ∧ ∀ c < t.cols, t.coefficient r c = 0} =
      t.place '' Finset.Ico (t.inner + t.assets) (2 * t.leaves - 1) := by
  ext r
  constructor
  · rintro ⟨hchild, hzero⟩
    obtain ⟨j, hj, rfl⟩ := bijOn_place.surjOn (.inl hchild)
    exact ⟨j, Finset.mem_coe.mpr (Finset.mem_Ico.mpr
      ⟨(zeroRow_place_iff hone hneg hj).mp hzero, hj⟩), rfl⟩
  · rintro ⟨j, hj, rfl⟩
    obtain ⟨hle, hlt⟩ := Finset.mem_Ico.mp (Finset.mem_coe.mp hj)
    exact ⟨(isChildRow_place_iff hlt).mpr (by omega), (zeroRow_place_iff hone hneg hlt).mpr hle⟩

theorem ncard_childRow_zero :
    {r | t.IsChildRow r ∧ ∀ c < t.cols, t.coefficient r c = 0}.ncard = t.leaves - t.assets := by
  have hleaves := t.inner_succ
  have hinj : Set.InjOn t.place (Finset.Ico (t.inner + t.assets) (2 * t.leaves - 1)) :=
    bijOn_place.injOn.mono fun j hj => (Finset.mem_Ico.mp (Finset.mem_coe.mp hj)).2
  rw [setOf_childRow_zero hassets hone hneg, hinj.ncard_image, Set.ncard_coe_finset, Nat.card_Ico]
  omega

/-- Those rows hold the floor. -/
theorem constant_of_childRow_zero {r : ℕ} (hchild : t.IsChildRow r)
    (hzero : ∀ c < t.cols, t.coefficient r c = 0) : t.constant r = t.floor := by
  obtain ⟨j, hj, rfl⟩ := (setOf_childRow_zero hassets hone hneg).subset ⟨hchild, hzero⟩
  obtain ⟨hle, hlt⟩ := Finset.mem_Ico.mp (Finset.mem_coe.mp hj)
  obtain ⟨i, rfl⟩ := Nat.exists_eq_add_of_le (Nat.le_of_add_right_le hle)
  rw [constant_place hlt, if_neg (by omega), t.nodeConstant_padding (by omega)]

omit hassets hone hneg in
theorem constant_place_asset {i : ℕ} (hi : i < t.assets) :
    t.constant (t.place (t.inner + i)) =
      if t.assets = 1 then t.growth.coord i - t.floor else t.growth.coord i := by
  have hleaves := t.inner_succ
  have hle := t.assets_le_leaves
  -- The root is an asset only where there is one asset, since otherwise it is an inner node.
  have hroot : t.inner + i = 0 ↔ t.assets = 1 := by
    refine ⟨by omega, fun h => ?_⟩
    have hone : t.leaves = 1 := by rw [leaves_eq, h]; rfl
    omega
  rw [constant_place (by omega), if_congr hroot rfl rfl, t.nodeConstant_asset hi]
  split_ifs with h
  · rw [← hroot.mpr h, t.nodeConstant_asset hi]
  · rfl

/-- The system of a tree is laid out by the rows of its nodes. -/
theorem laidOut_system :
    t.LaidOut { matrix := t.matrix, constants := .ofColumn t.constants } := by
  have hleaves := t.inner_succ
  have hle := t.assets_le_leaves
  have hentry : ∀ {r c}, r < t.rows → c < t.cols → t.matrix.entry r c = t.coefficient r c :=
    fun hr hc => RectMatrix.entry_ofFn _ hr hc
  have hconstant : ∀ {r}, r < t.rows → (RectMatrix.ofColumn t.constants).entry r 0 =
      t.constant r := by
    intro r hr
    rw [RectMatrix.entry_ofColumn, constants, Column.coord_tabulate, if_pos hr]
  have hzero : ∀ r, t.IsChildRow r →
      (t.ZeroRow { matrix := t.matrix, constants := .ofColumn t.constants } r ↔
        ∀ c < t.cols, t.coefficient r c = 0) := by
    rintro r ⟨k, hk, hr⟩
    refine forall₂_congr fun c hc => ?_
    rw [hentry (by rw [rows]; omega) hc]
  refine ⟨fun i hi r hr => ?_, fun i hi r hr => ?_, fun k hk r hr => ?_, fun i hi => ?_, ?_,
    fun r hchild hr => ?_, fun hassets => ?_, fun r hr hroot hasset hother => ?_⟩
  · rw [hentry hr (by rw [cols]; omega)]
    exact coefficient_of_node (by omega) (by omega) (fun _ => nodeCoefficient_delta hi) hr
  · rw [hentry hr (by rw [cols]; omega)]
    exact coefficient_of_node (by omega) (by omega) (fun _ => nodeCoefficient_lam hi) hr
  · rw [hentry hr (by rw [cols]; omega), coefficient_auxiliary hk hr]
  · rw [hconstant (place_lt_rows (by omega)), constant_place_asset hi]
  · rw [← ncard_childRow_zero hassets hone hneg]
    exact congrArg Set.ncard (Set.ext fun r => and_congr_right (hzero r))
  · rw [hconstant (by obtain ⟨k, hk, hrow⟩ := hchild; rw [rows]; omega)]
    exact constant_of_childRow_zero hassets hone hneg hchild ((hzero r hchild).mp hr)
  · rw [hconstant (by rw [rows]; omega), constant_of_root, t.nodeConstant_inner (by omega)]
  · rw [hconstant hr]
    obtain ⟨j, hj, rfl, hrow⟩ | ⟨k, hk, rfl, hrow⟩ := row_cases hr
    · have hne : j ≠ 0 := fun h => hroot (h ▸ t.place_root)
      have hchild := (isChildRow_place_iff hj).mpr hne
      rw [constant_place hj, if_neg hne]
      rcases lt_or_ge j t.inner with hinner | hinner
      · exact t.nodeConstant_inner hinner
      · -- A leaf is an asset or padding, and neither is left here.
        obtain ⟨i, rfl⟩ := Nat.exists_eq_add_of_le hinner
        rcases lt_or_ge i t.assets with hi | hi
        · exact absurd rfl (hasset i hi)
        · exact absurd ⟨hchild, (hzero _ hchild).mpr
            ((zeroRow_place_iff hone hneg hj).mpr (by omega))⟩ hother
    · exact constant_of_tip (by omega) hrow

end System

/-- The leaves are the least power of two that holds the assets, and the numbering puts the
nodes one to one into the rows of children and the last row. Filling the system misses no
cell. It is in the row of every node once and in no row for two nodes, and what it leaves
there is laid out by the rows of the nodes. -/
theorem exists_laidOut {t : GrowthTree F} (hassets : 0 < t.assets) (hone : (1 : F) ≠ 0)
    (hneg : (-1 : F) ≠ 0) :
    IsLeast {m | t.assets ≤ m ∧ ∃ d, m = 2 ^ d} t.leaves ∧
    Set.BijOn t.place {j | j < 2 * t.leaves - 1} {r | t.IsChildRow r ∨ r = 3 * t.inner} ∧
    ∃ s, t.fill? = some s ∧
      t.filling.noted.run t.inner (t.blank, []) = some (s, t.visits) ∧
      (t.visits.map Prod.snd).Perm (List.range (2 * t.leaves - 1)) ∧
      (t.visits.map Prod.fst).Nodup ∧ (∀ v ∈ t.visits, v.1 = t.place v.2) ∧
      t.LaidOut s ∧
      ((∀ a : F, 0 - a = -a) → 1 < t.assets → s.constants.entry (3 * t.inner) 0 = -t.floor) := by
  have hfill := fill?_eq_some hassets
  have hlaid := laidOut_system hassets hone hneg
  refine ⟨t.isLeast_leaves hassets, bijOn_place, _, hfill, ?_, t.perm_nodes_visits,
    t.nodup_rows_visits, fun v => t.fst_of_mem_visits, hlaid, fun hsub hlt => ?_⟩
  · rw [Pass.run_noted, ← fill?_eq_run hassets, hfill]
    rfl
  · rw [hlaid.root hlt, hsub]

/-- A tree of three assets. -/
def threeAssets : GrowthTree Float where
  growth := #[1, 2, 4]
  coupling := 1 / 2
  floor := 2

/-- The leaves of the three assets stand in rows `3`, `4` and `6`, and the one leaf beyond
them in row `7`. -/
theorem exists_laidOut_threeAssets :
    0 < threeAssets.assets ∧ (1 : Float) ≠ 0 ∧ (-1 : Float) ≠ 0 ∧
    ∃ s, threeAssets.fill? = some s ∧
      threeAssets.visits = [(0, 1), (1, 2), (3, 3), (4, 4), (6, 5), (7, 6), (9, 0)] ∧
      s.matrix.entry 6 2 = -(1 / 2) ∧ s.matrix.entry 6 5 = 1 ∧ s.constants.entry 6 0 = 4 ∧
      {r | threeAssets.IsChildRow r ∧ threeAssets.ZeroRow s r}.ncard = 1 ∧
      s.constants.entry 9 0 = 0 - 2 := by
  have hassets : 0 < threeAssets.assets := by decide
  have hone : (1 : Float) ≠ 0 := by decide
  have hneg : (-1 : Float) ≠ 0 := by decide
  obtain ⟨-, -, s, hfill, -, -, -, -, hlaid, -⟩ := exists_laidOut hassets hone hneg
  exact ⟨hassets, hone, hneg, s, hfill, rfl, hlaid.delta 2 (by decide) 6 (by decide),
    hlaid.lam 2 (by decide) 6 (by decide), hlaid.growth 2 (by decide), hlaid.ncard_zeroRow,
    hlaid.root (by decide)⟩

end GrowthTree

end Rebalancing
