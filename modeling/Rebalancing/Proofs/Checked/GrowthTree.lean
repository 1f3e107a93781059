-- SUMMARY: The system of a growth tree filled by checked writes, node by node: no write misses, and what is filled is the system.
import Mathlib
import Rebalancing.Proofs.Checked.Cells
import Rebalancing.Proofs.GrowthTree.Rows

/-!
# Filling the system of a growth tree

The matrix `G` and the column `h` start out as zeros. For every inner node the rows of
its two children and of its tip are filled, and last the row of the root. Every row is
written once, while it is still blank, so after the rows below some row they hold what
the system holds and all others are still zero. After the last row that is the system.
-/

namespace Rebalancing

namespace GrowthTree

variable {F : Type}

/-- The matrix `G` and the column `h`, as far as they are filled. -/
structure Filling (F : Type) where
  matrix : RectMatrix F
  constants : RectMatrix F

variable [Scalar F]

/-! ## Checked writes -/

/-- Nothing is filled yet. -/
def blank (t : GrowthTree F) : Filling F where
  matrix := .ofFn t.rows t.cols fun _ _ => 0
  constants := .ofFn t.rows 1 fun _ _ => 0

/-- Fill a row with what stands at a node. -/
def putNode? (t : GrowthTree F) (s : Filling F) (row node : ℕ) : Option (Filling F) :=
  if node < t.inner then do
    let matrix ← s.matrix.put? row (2 * t.assets + node) (-1)
    some { s with matrix }
  else if node - t.inner < t.assets then do
    let matrix ← s.matrix.put? row (node - t.inner) (-t.coupling)
    let matrix ← matrix.put? row (t.assets + (node - t.inner)) 1
    let growth ← t.growth[node - t.inner]?
    let constants ← s.constants.put? row 0 growth
    some { matrix, constants }
  else do
    let constants ← s.constants.put? row 0 t.floor
    some { s with constants }

/-- Fill the three rows of an inner node: its children and its tip. -/
def putCone? (t : GrowthTree F) (s : Filling F) (k : ℕ) : Option (Filling F) := do
  let s ← t.putNode? s (3 * k) (2 * k + 1)
  let s ← t.putNode? s (3 * k + 1) (2 * k + 2)
  let matrix ← s.matrix.put? (3 * k + 2) (2 * t.assets + k) (-Scalar.sqrt Scalar.two)
  some { s with matrix }

/-- Fill the row of the root, less the floor. -/
def putRoot? (t : GrowthTree F) (s : Filling F) : Option (Filling F) := do
  let s ← t.putNode? s (3 * t.inner) 0
  let root ← s.constants.cell? (3 * t.inner) 0
  let constants ← s.constants.put? (3 * t.inner) 0 (root - t.floor)
  some { s with constants }

/-- Fill the system of a tree for one or more assets. -/
def fill? (t : GrowthTree F) : Option (Filling F) :=
  if 0 < t.assets then (List.range t.inner).foldlM t.putCone? t.blank >>= t.putRoot? else none

/-! ## Rows -/

/-- The factor of variable `c` in the value of a node. -/
def nodeCoefficient (t : GrowthTree F) (j c : ℕ) : F :=
  match t.node j with
  | .inner k => if c = 2 * t.assets + k then -1 else 0
  | .asset i => if c = i then -t.coupling else if c = t.assets + i then 1 else 0
  | .padding => 0

section Nodes

variable (t : GrowthTree F)

theorem nodeCoefficient_inner {j : ℕ} (h : j < t.inner) :
    t.nodeCoefficient j = fun c => if c = 2 * t.assets + j then -1 else 0 := by
  funext c
  rw [nodeCoefficient, t.node_inner h]

theorem nodeCoefficient_asset {i : ℕ} (h : i < t.assets) :
    t.nodeCoefficient (t.inner + i) =
      fun c => if c = i then -t.coupling else if c = t.assets + i then 1 else 0 := by
  funext c
  rw [nodeCoefficient, t.node_asset h]

theorem nodeCoefficient_padding {i : ℕ} (h : t.assets ≤ i) :
    t.nodeCoefficient (t.inner + i) = fun _ => 0 := by
  funext c
  rw [nodeCoefficient, t.node_padding h]

theorem nodeConstant_inner {j : ℕ} (h : j < t.inner) : t.nodeConstant j = 0 := by
  rw [nodeConstant, t.node_inner h]

theorem nodeConstant_asset {i : ℕ} (h : i < t.assets) :
    t.nodeConstant (t.inner + i) = t.growth.coord i := by
  rw [nodeConstant, t.node_asset h]

theorem nodeConstant_padding {i : ℕ} (h : t.assets ≤ i) :
    t.nodeConstant (t.inner + i) = t.floor := by
  rw [nodeConstant, t.node_padding h]

end Nodes

section Rows

variable {t : GrowthTree F} {r j k : ℕ}

theorem coefficient_of_value (h : t.row r = .value j) : t.coefficient r = t.nodeCoefficient j := by
  funext c
  rw [coefficient, h]
  rfl

theorem coefficient_of_tip (h : t.row r = .tip k) (c : ℕ) :
    t.coefficient r c = if c = 2 * t.assets + k then -Scalar.sqrt Scalar.two else 0 := by
  rw [coefficient, h]

theorem constant_of_value (hr : r < 3 * t.inner) (h : t.row r = .value j) :
    t.constant r = t.nodeConstant j := by
  rw [row, if_pos hr] at h
  rw [constant, if_pos hr, h]

theorem constant_of_tip (hr : r < 3 * t.inner) (h : t.row r = .tip k) : t.constant r = 0 := by
  rw [row, if_pos hr] at h
  rw [constant, if_pos hr, h]

theorem constant_of_root (t : GrowthTree F) :
    t.constant (3 * t.inner) = t.nodeConstant 0 - t.floor := by
  rw [constant, if_neg (lt_irrefl _)]

end Rows

/-! ## One row -/

/-- Both parts have the rows and columns of the system. -/
structure Filling.Fits (s : Filling F) (t : GrowthTree F) : Prop where
  rows_matrix : s.matrix.rows = t.rows
  cols_matrix : s.matrix.cols = t.cols
  rows_constants : s.constants.rows = t.rows
  cols_constants : s.constants.cols = 1

omit [Scalar F] in
/-- Every row of the constants can be written. -/
theorem Filling.Fits.put?_constants {s : Filling F} {t : GrowthTree F} (hs : s.Fits t) {row : ℕ}
    (hrow : row < t.rows) (v : F) :
    s.constants.put? row 0 v = some (s.constants.put row 0 v) :=
  RectMatrix.put?_eq_some (hs.rows_constants ▸ hrow) (hs.cols_constants ▸ Nat.one_pos) v

/-- A row that holds zeros only. -/
structure Filling.BlankAt (s : Filling F) (t : GrowthTree F) (row : ℕ) : Prop where
  entry_matrix : ∀ c < t.cols, s.matrix.entry row c = 0
  entry_constants : s.constants.entry row 0 = 0

/-- From `s` to `s'` one row is filled, and no other changes. -/
structure Filling.RowFilled (t : GrowthTree F) (s s' : Filling F) (row : ℕ) (factors : ℕ → F)
    (constant : F) : Prop where
  fits : s'.Fits t
  entry_matrix : ∀ r < t.rows, ∀ c < t.cols,
    s'.matrix.entry r c = if r = row then factors c else s.matrix.entry r c
  entry_constants : ∀ r < t.rows,
    s'.constants.entry r 0 = if r = row then constant else s.constants.entry r 0

section Steps

variable {t : GrowthTree F} {s : Filling F} (hs : s.Fits t) {row : ℕ} (hrow : row < t.rows)
  (hblank : s.BlankAt t row)

include hs hrow hblank

/-- One number in a blank row of the matrix. -/
theorem rowFilled_put {c : ℕ} (hc : c < t.cols) (v : F) :
    Filling.RowFilled t s { s with matrix := s.matrix.put row c v } row
      (fun c' => if c' = c then v else 0) 0 := by
  have hrow' : row < s.matrix.rows := hs.rows_matrix ▸ hrow
  have hc' : c < s.matrix.cols := hs.cols_matrix ▸ hc
  refine ⟨⟨hs.rows_matrix, hs.cols_matrix, hs.rows_constants, hs.cols_constants⟩, ?_, ?_⟩
  · intro r hr c' hcol
    rw [RectMatrix.entry_put hrow' hc' v (hs.rows_matrix ▸ hr)]
    rcases eq_or_ne r row with rfl | hne
    · simp [hblank.entry_matrix c' hcol]
    · simp [hne]
  · intro r hr
    rcases eq_or_ne r row with rfl | hne
    · simp [hblank.entry_constants]
    · simp [hne]

/-- One constant of a blank row. -/
theorem rowFilled_putConstant (v : F) :
    Filling.RowFilled t s { s with constants := s.constants.put row 0 v } row (fun _ => 0) v := by
  have hrow' : row < s.constants.rows := hs.rows_constants ▸ hrow
  have hcol' : 0 < s.constants.cols := hs.cols_constants ▸ Nat.one_pos
  refine ⟨⟨hs.rows_matrix, hs.cols_matrix, hs.rows_constants, hs.cols_constants⟩, ?_, ?_⟩
  · intro r hr c hc
    rcases eq_or_ne r row with rfl | hne
    · simp [hblank.entry_matrix c hc]
    · simp [hne]
  · intro r hr
    rw [RectMatrix.entry_put hrow' hcol' v (hs.rows_constants ▸ hr)]
    simp

/-- The two numbers and the constant of an asset in a blank row. -/
theorem rowFilled_putAsset {i : ℕ} (hi : i < t.assets) :
    Filling.RowFilled t s
      { matrix := (s.matrix.put row i (-t.coupling)).put row (t.assets + i) 1
        constants := s.constants.put row 0 (t.growth.coord i) } row
      (fun c => if c = i then -t.coupling else if c = t.assets + i then 1 else 0)
      (t.growth.coord i) := by
  have hrow' : row < s.matrix.rows := hs.rows_matrix ▸ hrow
  have hfirst : i < s.matrix.cols := by
    rw [hs.cols_matrix, cols]
    omega
  have hsecond : t.assets + i < s.matrix.cols := by
    rw [hs.cols_matrix, cols]
    omega
  have hconstant := rowFilled_putConstant hs hrow hblank (t.growth.coord i)
  refine ⟨⟨hs.rows_matrix, hs.cols_matrix, hs.rows_constants, hs.cols_constants⟩, ?_,
    hconstant.entry_constants⟩
  intro r hr c hc
  have hr' : r < s.matrix.rows := hs.rows_matrix ▸ hr
  rw [RectMatrix.entry_put (m := s.matrix.put row i (-t.coupling)) hrow' hsecond 1 hr',
    RectMatrix.entry_put hrow' hfirst _ hr']
  rcases eq_or_ne r row with rfl | hne
  · -- The two columns of an asset are apart.
    have hapart : ¬ (c = t.assets + i ∧ c = i) := by omega
    have hzero := hblank.entry_matrix c hc
    simp only [true_and, if_true]
    split_ifs <;> tauto
  · simp [hne]

theorem exists_putNode?_inner {node : ℕ} (h : node < t.inner) :
    ∃ s', t.putNode? s row node = some s' ∧
      Filling.RowFilled t s s' row (t.nodeCoefficient node) (t.nodeConstant node) := by
  have hc : 2 * t.assets + node < t.cols := Nat.add_lt_add_left h _
  have hfilled := rowFilled_put hs hrow hblank hc (-1)
  refine ⟨{ s with matrix := s.matrix.put row (2 * t.assets + node) (-1) }, ?_, ?_⟩
  · rw [putNode?, if_pos h, RectMatrix.put?_eq_some (hs.rows_matrix ▸ hrow) (hs.cols_matrix ▸ hc)]
    rfl
  · rwa [t.nodeCoefficient_inner h, t.nodeConstant_inner h]

theorem exists_putNode?_asset {i : ℕ} (h : i < t.assets) :
    ∃ s', t.putNode? s row (t.inner + i) = some s' ∧
      Filling.RowFilled t s s' row (t.nodeCoefficient (t.inner + i))
        (t.nodeConstant (t.inner + i)) := by
  have hrow' : row < s.matrix.rows := hs.rows_matrix ▸ hrow
  have hfirst : i < s.matrix.cols := by
    rw [hs.cols_matrix, cols]
    omega
  have hsecond : t.assets + i < (s.matrix.put row i (-t.coupling)).cols := by
    rw [RectMatrix.cols_put, hs.cols_matrix, cols]
    omega
  have hfilled := rowFilled_putAsset hs hrow hblank h
  refine ⟨{
    matrix := (s.matrix.put row i (-t.coupling)).put row (t.assets + i) 1
    constants := s.constants.put row 0 (t.growth.coord i) }, ?_, ?_⟩
  · rw [putNode?, if_neg (by omega), Nat.add_sub_cancel_left, if_pos h,
      RectMatrix.put?_eq_some hrow' hfirst]
    simp only [Option.bind_eq_bind, Option.bind_some]
    rw [RectMatrix.put?_eq_some (m := s.matrix.put row i _) hrow' hsecond,
      Column.getElem?_eq_some h]
    simp only [Option.bind_some]
    rw [hs.put?_constants hrow]
    rfl
  · rwa [t.nodeCoefficient_asset h, t.nodeConstant_asset h]

theorem exists_putNode?_padding {i : ℕ} (h : t.assets ≤ i) :
    ∃ s', t.putNode? s row (t.inner + i) = some s' ∧
      Filling.RowFilled t s s' row (t.nodeCoefficient (t.inner + i))
        (t.nodeConstant (t.inner + i)) := by
  have hfilled := rowFilled_putConstant hs hrow hblank t.floor
  refine ⟨{ s with constants := s.constants.put row 0 t.floor }, ?_, ?_⟩
  · rw [putNode?, if_neg (by omega), Nat.add_sub_cancel_left, if_neg h.not_gt,
      hs.put?_constants hrow]
    rfl
  · rwa [t.nodeCoefficient_padding h, t.nodeConstant_padding h]

/-- A blank row takes what stands at a node. -/
theorem exists_putNode?_rowFilled (node : ℕ) :
    ∃ s', t.putNode? s row node = some s' ∧
      Filling.RowFilled t s s' row (t.nodeCoefficient node) (t.nodeConstant node) := by
  rcases lt_or_ge node t.inner with hinner | hinner
  · exact exists_putNode?_inner hs hrow hblank hinner
  · obtain ⟨i, rfl⟩ := Nat.exists_eq_add_of_le hinner
    rcases lt_or_ge i t.assets with hasset | hpadding
    · exact exists_putNode?_asset hs hrow hblank hasset
    · exact exists_putNode?_padding hs hrow hblank hpadding

end Steps

/-! ## All rows -/

/-- The rows below `m` are filled, and the others blank. -/
structure Filling.FilledTo (s : Filling F) (t : GrowthTree F) (m : ℕ) : Prop where
  fits : s.Fits t
  entry_matrix : ∀ r < t.rows, ∀ c < t.cols,
    s.matrix.entry r c = if r < m then t.coefficient r c else 0
  entry_constants : ∀ r < t.rows, s.constants.entry r 0 = if r < m then t.constant r else 0

namespace Filling.FilledTo

variable {t : GrowthTree F} {s s' : Filling F} {m : ℕ}

theorem blank (t : GrowthTree F) : t.blank.FilledTo t 0 := by
  refine ⟨⟨rfl, rfl, rfl, rfl⟩, fun r hr c hc => ?_, fun r hr => ?_⟩
  · rw [if_neg r.not_lt_zero]
    exact RectMatrix.entry_ofFn _ hr hc
  · rw [if_neg r.not_lt_zero]
    exact RectMatrix.entry_ofFn _ hr Nat.one_pos

/-- The next row is blank. -/
theorem blankAt (h : s.FilledTo t m) (hm : m < t.rows) : s.BlankAt t m where
  entry_matrix c hc := by rw [h.entry_matrix m hm c hc, if_neg (lt_irrefl _)]
  entry_constants := by rw [h.entry_constants m hm, if_neg (lt_irrefl _)]

/-- With row `m` filled, the rows below `m + 1` are. -/
theorem ite_succ {α : Type} (filled : ℕ → α) (zero : α) (r m : ℕ) :
    (if r = m then filled m else if r < m then filled r else zero) =
      if r < m + 1 then filled r else zero := by
  rcases lt_trichotomy r m with hlt | rfl | hgt
  · rw [if_neg hlt.ne, if_pos hlt, if_pos (by omega)]
  · rw [if_pos rfl, if_pos (by omega)]
  · rw [if_neg hgt.ne', if_neg hgt.not_gt, if_neg (by omega)]

/-- One more row. -/
theorem succ (h : s.FilledTo t m)
    (hrow : Filling.RowFilled t s s' m (t.coefficient m) (t.constant m)) :
    s'.FilledTo t (m + 1) := by
  refine ⟨hrow.fits, fun r hr c hc => ?_, fun r hr => ?_⟩
  · rw [hrow.entry_matrix r hr c hc, h.entry_matrix r hr c hc]
    exact ite_succ (t.coefficient · c) 0 r m
  · rw [hrow.entry_constants r hr, h.entry_constants r hr]
    exact ite_succ t.constant 0 r m

/-- With every row filled, the parts are those of the system. -/
theorem eq_system (h : s.FilledTo t t.rows) :
    s = { matrix := t.matrix, constants := .ofColumn t.constants } := by
  have hmatrix : s.matrix = t.matrix := by
    refine RectMatrix.ext_entry h.fits.rows_matrix h.fits.cols_matrix fun r hr c hc => ?_
    have hr : r < t.rows := hr.trans_eq h.fits.rows_matrix
    have hc : c < t.cols := hc.trans_eq h.fits.cols_matrix
    rw [h.entry_matrix r hr c hc, if_pos hr, GrowthTree.matrix,
      RectMatrix.entry_ofFn _ hr hc]
  have hconstants : s.constants = .ofColumn t.constants := by
    refine RectMatrix.ext_entry (h.fits.rows_constants.trans t.size_constants.symm)
      h.fits.cols_constants fun r hr c hc => ?_
    have hr : r < t.rows := hr.trans_eq h.fits.rows_constants
    obtain rfl : c = 0 := Nat.lt_one_iff.mp (hc.trans_eq h.fits.cols_constants)
    rw [h.entry_constants r hr, if_pos hr, RectMatrix.entry_ofColumn, GrowthTree.constants,
      Column.coord_tabulate, if_pos hr]
  rw [← hmatrix, ← hconstants]

end Filling.FilledTo

section Filling

variable {t : GrowthTree F} {s : Filling F}

/-- The next row of a node is filled with the value of the node. -/
theorem exists_putNode?_filledTo {m node : ℕ} (h : s.FilledTo t m) (hm : m < 3 * t.inner)
    (hrow : t.row m = .value node) :
    ∃ s', t.putNode? s m node = some s' ∧ s'.FilledTo t (m + 1) := by
  have hrows : m < t.rows := by
    rw [rows]
    omega
  obtain ⟨s', hput, hfilled⟩ := exists_putNode?_rowFilled h.fits hrows (h.blankAt hrows) node
  rw [← coefficient_of_value hrow, ← constant_of_value hm hrow] at hfilled
  exact ⟨s', hput, h.succ hfilled⟩

/-- The rows of an inner node are filled after those of the nodes before it. -/
theorem exists_putCone?_filledTo {k : ℕ} (h : s.FilledTo t (3 * k)) (hk : k < t.inner) :
    ∃ s', t.putCone? s k = some s' ∧ s'.FilledTo t (3 * (k + 1)) := by
  obtain ⟨left, hleft, hs⟩ := exists_putNode?_filledTo h (by omega) (t.row_left hk)
  obtain ⟨right, hright, hs⟩ := exists_putNode?_filledTo hs (by omega) (t.row_right hk)
  have htip : 3 * k + 2 < t.rows := by
    rw [rows]
    omega
  have hc : 2 * t.assets + k < t.cols := Nat.add_lt_add_left hk _
  have hfilled := rowFilled_put hs.fits htip (hs.blankAt htip) hc (-Scalar.sqrt Scalar.two)
  have hcoefficient := funext (coefficient_of_tip (t.row_tip hk))
  rw [← hcoefficient, ← constant_of_tip (by omega) (t.row_tip hk)] at hfilled
  refine ⟨_, ?_, hs.succ hfilled⟩
  have hrow : 3 * k + 2 < right.matrix.rows := hs.fits.rows_matrix ▸ htip
  simp only [putCone?, hleft, hright, Option.bind_eq_bind, Option.bind_some]
  rw [RectMatrix.put?_eq_some hrow (hs.fits.cols_matrix ▸ hc)]
  rfl

/-- By induction on the inner nodes, their rows are filled. -/
theorem exists_cones_filledTo (t : GrowthTree F) (k : ℕ) (hk : k ≤ t.inner) :
    ∃ s, (List.range k).foldlM t.putCone? t.blank = some s ∧ s.FilledTo t (3 * k) := by
  induction k with
  | zero => exact ⟨t.blank, rfl, .blank t⟩
  | succ k ih =>
    obtain ⟨s, hfold, hs⟩ := ih (by omega)
    obtain ⟨s', hput, hs'⟩ := exists_putCone?_filledTo hs (by omega)
    refine ⟨s', ?_, hs'⟩
    rw [Checked.foldlM_range_succ, hfold, Option.bind_some, hput]

theorem exists_putRoot?_filledTo (h : s.FilledTo t (3 * t.inner)) :
    ∃ s', t.putRoot? s = some s' ∧ s'.FilledTo t t.rows := by
  have hrow : 3 * t.inner < t.rows := Nat.lt_succ_self _
  obtain ⟨s₁, hput, hfilled⟩ := exists_putNode?_rowFilled h.fits hrow (h.blankAt hrow) 0
  have hconstant : 3 * t.inner < s₁.constants.rows := hfilled.fits.rows_constants ▸ hrow
  have hcolumn : 0 < s₁.constants.cols := hfilled.fits.cols_constants ▸ Nat.one_pos
  have hroot : s₁.constants.entry (3 * t.inner) 0 = t.nodeConstant 0 := by
    rw [hfilled.entry_constants _ hrow, if_pos rfl]
  have hfits := hfilled.fits
  refine ⟨{ s₁ with
    constants := s₁.constants.put (3 * t.inner) 0 (t.nodeConstant 0 - t.floor) }, ?_,
    h.succ ⟨?_, ?_, ?_⟩⟩
  · simp only [putRoot?, hput, Option.bind_eq_bind, Option.bind_some]
    rw [RectMatrix.cell?_eq_some hconstant hcolumn, hroot]
    simp only [Option.bind_some]
    rw [hfits.put?_constants hrow]
    rfl
  · exact ⟨hfits.rows_matrix, hfits.cols_matrix, hfits.rows_constants, hfits.cols_constants⟩
  · rw [coefficient_of_value t.row_root]
    exact hfilled.entry_matrix
  · intro r hr
    rw [RectMatrix.entry_put hconstant hcolumn _ (hfits.rows_constants ▸ hr),
      hfilled.entry_constants r hr, constant_of_root]
    simp only [and_true]
    split <;> rfl

end Filling

/-- No write misses, and what is filled is the system of the tree. -/
theorem fill?_eq_some {t : GrowthTree F} (h : 0 < t.assets) :
    t.fill? = some { matrix := t.matrix, constants := .ofColumn t.constants } := by
  obtain ⟨s, hcones, hs⟩ := t.exists_cones_filledTo t.inner le_rfl
  obtain ⟨s', hroot, hs'⟩ := exists_putRoot?_filledTo hs
  rw [fill?, if_pos h, hcones, Option.bind_eq_bind, Option.bind_some, hroot, hs'.eq_system]

end GrowthTree

end Rebalancing
