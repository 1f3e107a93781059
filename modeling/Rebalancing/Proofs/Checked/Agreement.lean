-- SUMMARY: The methods of a stored program agree with the block operators of the program, on all columns and wherever sums commute.
import Mathlib
import Rebalancing.Proofs.Checked.Methods
import Rebalancing.Proofs.MachineFloat.Laws

/-!
# Methods and block operators

A block operator has its four functions by one list of blocks. What it makes of an entry
is a fold over the blocks that meet the entry's row or column, and what a method makes of
it comes from the vector functions that were let loose on its part. The two are compared
entry by entry, part by part. Where a column does not fit, a split fails, or the first
matrix that meets it has no result.
-/

namespace Rebalancing

variable {F : Type} [Scalar F]

/-! ## Block operators entry by entry -/

namespace Operator

open Checked

variable {dim : ℕ} {x y : Column F}

omit [Scalar F] in
theorem fits_one_iff : fits 1 x = true ↔ x.size = 1 := by
  simp [fits]

omit [Scalar F] in
theorem fits_iff_of_one_lt (h : 1 < dim) : fits dim x = true ↔ dim ≤ x.size := by
  simp [fits, h.ne']

omit [Scalar F] in
theorem le_of_fits (h : fits dim x = true) : dim ≤ x.size := by
  unfold fits at h
  split at h
  next hdim => exact (hdim.trans (of_decide_eq_true h).symm).le
  next => exact of_decide_eq_true h

omit [Scalar F] in
theorem fits_congr (h : x.size = y.size) : fits dim x = fits dim y := by
  rw [fits, fits, h]

/-- Where a side is replaced, its entries change and those beyond it stay. -/
theorem keepRest_tabulate (f : ℕ → F → F) {n : ℕ} (hn : dim ≤ n) (v : ℕ → F) :
    keepRest (Column.tabulate n v)
        (Column.tabulate dim fun i => f i ((Column.tabulate n v).coord i)) =
      Column.tabulate n fun i => Stretch.along ⟨0, dim⟩ f i (v i) := by
  have hsize : (keepRest (Column.tabulate n v) (Column.tabulate dim fun i =>
      f i ((Column.tabulate n v).coord i))).size = n := by
    simp [keepRest, hn]
  apply Column.ext_coord (hsize.trans (Column.size_tabulate _ _).symm)
  intro i hi
  rw [hsize] at hi
  rw [keepRest, Column.coord_append, Column.size_tabulate, Column.coord_extract]
  rcases lt_or_ge i dim with hlt | hge
  · simp only [Column.coord_tabulate, if_pos hlt, if_pos hi, Stretch.along_mk, Nat.sub_zero,
      Nat.zero_add, Nat.zero_le, true_and]
  · simp only [Column.coord_tabulate, if_pos hi, Stretch.along_mk,
      Nat.zero_add, Nat.add_sub_cancel' hge, hge.not_gt, and_false, if_false]

section Entries

variable {op : Operator F} {x y : Column F} (a b : F)

/-- A function that replaces a side does so entry by entry. -/
theorem entrywise_of_fits {f : Column F → Option (Column F)} (h : ℕ → F → F)
    (hf : ∀ y, fits dim y = true →
      f y = some (keepRest y (Column.tabulate dim fun i => h i (y.coord i))))
    (hy : fits dim y = true) : Entrywise f y.size (Stretch.along ⟨0, dim⟩ h) := by
  intro v
  rw [hf _ ((fits_congr (Column.size_tabulate _ _)).trans hy)]
  exact congrArg some (keepRest_tabulate h (le_of_fits hy) v)

omit [Scalar F] in
theorem ite_eq_along (start length : ℕ) (h : ℕ → F → F) (i : ℕ) (e : F) :
    (if (start ≤ i && i < start + length : Bool) then h (i - start) e else e) =
      Stretch.along ⟨start, length⟩ h i e := by
  simp [Stretch.along_mk]

theorem entrywise_mulAdd? (hx : fits op.cols x = true) (hy : fits op.rows y = true) :
    Entrywise (op.mulAdd? a x b) y.size (Stretch.along ⟨0, op.rows⟩ fun r e =>
      op.blocks.foldl (fun acc blk => Stretch.along ⟨blk.top, blk.body.rows⟩
        (fun k acc => blk.signed a * blk.body.rowDot k x blk.left + acc) r acc) (b * e)) := by
  refine entrywise_of_fits _ (fun y hy => ?_) hy
  rw [mulAdd?, hx, hy]
  simp only [mulAdd, ← ite_eq_along]
  rfl

theorem entrywise_transMulAdd? (hx : fits op.rows x = true) (hy : fits op.cols y = true) :
    Entrywise (op.transMulAdd? a x b) y.size (Stretch.along ⟨0, op.cols⟩ fun c e =>
      op.blocks.foldl (fun acc blk => Stretch.along ⟨blk.left, blk.body.cols⟩
        (fun k acc => blk.signed a * blk.body.colDot k x blk.top + acc) c acc) (b * e)) := by
  refine entrywise_of_fits _ (fun y hy => ?_) hy
  rw [transMulAdd?, hx, hy]
  simp only [transMulAdd, ← ite_eq_along]
  rfl

theorem entrywise_addAbsRows? (hy : fits op.rows y = true) :
    Entrywise op.addAbsRows? y.size (Stretch.along ⟨0, op.rows⟩ fun r e =>
      op.sumOrder.foldl (fun acc blk =>
        Stretch.along ⟨blk.top, blk.body.rows⟩ blk.body.addAbsRow r acc) e) := by
  refine entrywise_of_fits _ (fun y hy => ?_) hy
  rw [addAbsRows?, if_pos hy]
  simp only [addAbsRows, ← ite_eq_along]
  rfl

theorem entrywise_addAbsCols? (hy : fits op.cols y = true) :
    Entrywise op.addAbsCols? y.size (Stretch.along ⟨0, op.cols⟩ fun c e =>
      op.sumOrder.foldl (fun acc blk =>
        Stretch.along ⟨blk.left, blk.body.cols⟩ blk.body.addAbsCol c acc) e) := by
  refine entrywise_of_fits _ (fun y hy => ?_) hy
  rw [addAbsCols?, if_pos hy]
  simp only [addAbsCols, ← ite_eq_along]
  rfl

theorem mulAdd?_eq_none (h : ¬ (fits op.cols x = true ∧ fits op.rows y = true)) :
    op.mulAdd? a x b y = none := by
  rw [mulAdd?, if_neg (by rwa [Bool.and_eq_true])]

theorem transMulAdd?_eq_none (h : ¬ (fits op.rows x = true ∧ fits op.cols y = true)) :
    op.transMulAdd? a x b y = none := by
  rw [transMulAdd?, if_neg (by rwa [Bool.and_eq_true])]

theorem addAbsRows?_eq_none (h : ¬ fits op.rows y = true) : op.addAbsRows? y = none :=
  if_neg h

theorem addAbsCols?_eq_none (h : ¬ fits op.cols y = true) : op.addAbsCols? y = none :=
  if_neg h

end Entries

end Operator

/-! ## Methods agree with block operators -/

/-- Sums do not depend on the order of two numbers, and a factor of one changes nothing. A
method adds a part to what a column holds where a block operator adds it the other way
round, and has a factor of one where a block operator has none. -/
structure Scalar.Plain (F : Type) [Scalar F] : Prop where
  add_comm : ∀ a b : F, a + b = b + a
  one_mul : ∀ a : F, 1 * a = a

theorem Scalar.plain_real : Scalar.Plain ℝ where
  add_comm a b := add_comm a b
  one_mul a := one_mul a

theorem Scalar.plain_float : Scalar.Plain Float where
  add_comm := MachineFloat.float_add_comm
  one_mul := MachineFloat.float_one_mul

namespace Checked

open Operator StoredProgram

section Agree

variable {p : TradeProgram F} (hpos : 0 < p.assets)

include hpos

omit [Scalar F] in
theorem fits_point {x : Column F} :
    fits p.cols x = true ↔ 2 * p.assets + p.auxiliaries + 1 ≤ x.size :=
  fits_iff_of_one_lt (by rw [TradeProgram.cols]; omega)

omit [Scalar F] in
theorem fits_slack {x : Column F} :
    fits p.rows x = true ↔ (2 + p.assets) + p.tree.rows + 2 * p.assets ≤ x.size :=
  fits_iff_of_one_lt (by rw [TradeProgram.rows]; omega)

variable (laws : Scalar.Plain F)

include laws

/-! ### The cost -/

section Cost

theorem mulAdd?_costParts (a : F) (x : Column F) (b : F) (y : Column F) :
    (ofProgram p).costParts.mulAdd? a x b y = p.cost.mulAdd? a x b y := by
  have hreturns : p.returns.size = p.assets := rfl
  simp only [CostParts.mulAdd?, dim?_costParts, returns_costParts, split?_point,
    Option.bind_eq_bind, Option.bind_some]
  rcases lt_or_ge y.size (2 * p.assets + p.auxiliaries + 1) with hshort | hy
  · rw [mulAdd?_eq_none _ _ fun h => hshort.not_ge ((fits_point hpos).mp h.2), if_neg hshort.not_ge]
    rfl
  rw [if_pos hy]
  rcases ne_or_eq x.size 1 with hne | hx
  · have hnone : (RectMatrix.ofColumn p.returns).mulAdd? a x b (y.on ⟨0, p.assets⟩) = none :=
      mulAddBy?_eq_none fun h => hne h.1
    rw [mulAdd?_eq_none _ _ fun h => hne (fits_one_iff.mp h.1)]
    simp only [Option.bind_some, onStretch?_eq_none hnone, Option.bind_none]
  have hpart := fun a =>
    (RectMatrix.ofColumn p.returns).entrywise_mulAdd? hreturns rfl hpos Nat.one_pos a b hx
  have hmethod : Entrywise _ y.size _ :=
    ((hpart a).onStretch? 0 (by omega)).comp <|
    ((hpart (-a)).onStretch? p.assets (by omega)).comp <|
    ((entrywise_scale? p.auxiliaries b).onStretch? (2 * p.assets) (by omega)).comp <|
    ((entrywise_scale? 1 b).onStretch? (2 * p.assets + p.auxiliaries) (by omega)).comp <|
    (entrywise_addScaled? 1 a hx).onStretch? (2 * p.assets + p.auxiliaries) (by omega)
  have hcost : Entrywise (p.cost.mulAdd? a x b) y.size _ :=
    entrywise_mulAdd? a b (fits_one_iff.mpr hx) ((fits_point hpos).mpr hy)
  refine hmethod.apply_eq hcost fun i _ e => ?_
  simp only [TradeProgram.cost, TradeProgram.cols, List.foldl_cons, List.foldl_nil, Block.signed,
    BlockBody.rows, BlockBody.rowDot, RectMatrix.rows_ofColumn, hreturns, if_true,
    Bool.false_eq_true, if_false, Nat.zero_add]
  clear hmethod hcost hpart
  rcases point_cases p.assets p.auxiliaries i with h | h | h | h | h
  all_goals
    simp (disch := omega) only [Stretch.along_of_mem, Stretch.along_of_lt,
      Stretch.along_of_stop_le, Nat.sub_zero, laws.add_comm]

theorem transMulAdd?_costParts (a : F) (x : Column F) (b : F) (y : Column F) :
    (ofProgram p).costParts.transMulAdd? a x b y = p.cost.transMulAdd? a x b y := by
  simp only [CostParts.transMulAdd?, dim?_costParts, returns_costParts, split?_point,
    Option.bind_eq_bind, Option.bind_some]
  rcases lt_or_ge x.size (2 * p.assets + p.auxiliaries + 1) with hshort | hx
  · rw [transMulAdd?_eq_none _ _ fun h => hshort.not_ge ((fits_point hpos).mp h.1),
      if_neg hshort.not_ge]
    rfl
  rw [if_pos hx]
  rcases ne_or_eq y.size 1 with hne | hy
  · have hnone : (RectMatrix.ofColumn p.returns).transMulAdd? a (x.on ⟨0, p.assets⟩) b y = none :=
      mulAddBy?_eq_none fun h => hne h.2
    rw [transMulAdd?_eq_none _ _ fun h => hne (fits_one_iff.mp h.2)]
    simp only [Option.bind_some, hnone, Option.bind_none]
  have hpart := fun a start b => (RectMatrix.ofColumn p.returns).entrywise_transMulAdd? rfl
    hy.symm hpos (hy.symm ▸ Nat.one_pos) a b (x.size_on ⟨start, p.assets⟩)
  have hmethod : Entrywise _ y.size _ :=
    (hpart a 0 b).comp <| (hpart (-a) p.assets 1).comp <|
    entrywise_addScaled? y.size a ((x.size_on ⟨2 * p.assets + p.auxiliaries, 1⟩).trans hy.symm)
  have hcost : Entrywise (p.cost.transMulAdd? a x b) y.size _ :=
    entrywise_transMulAdd? a b ((fits_point hpos).mpr hx) (fits_one_iff.mpr hy)
  refine hmethod.apply_eq hcost fun i hi e => ?_
  have hdot : ∀ start i, (RectMatrix.ofColumn p.returns).colDot i (x.on ⟨start, p.assets⟩) 0 =
      (RectMatrix.ofColumn p.returns).colDot i x start :=
    fun _ i => RectMatrix.colDot_on _ i x le_rfl
  simp only [TradeProgram.cost, List.foldl_cons, List.foldl_nil, Block.signed, BlockBody.cols,
    BlockBody.colDot, RectMatrix.cols_ofColumn, if_true, Bool.false_eq_true, if_false, hdot]
  simp (disch := omega) only [Stretch.along_of_mem, Nat.sub_zero, Column.coord_on, laws.one_mul,
    laws.add_comm]

omit hpos in
theorem addAbsCols?_costParts (y : Column F) :
    (ofProgram p).costParts.addAbsCols? y = p.cost.addAbsCols? y := by
  simp only [CostParts.addAbsCols?, returns_costParts, Option.bind_eq_bind]
  rcases ne_or_eq y.size 1 with hne | hy
  · have hnone : (RectMatrix.ofColumn p.returns).addAbsCols? y = none := addAbsBy?_eq_none hne
    rw [hnone, addAbsCols?_eq_none fun h => hne (fits_one_iff.mp h)]
    rfl
  have hpart := (RectMatrix.ofColumn p.returns).entrywise_addAbsCols? laws.add_comm hy.symm
  have hmethod : Entrywise _ y.size _ :=
    hpart.comp <| hpart.comp <| entrywise_addToFirst? 1 (hy.symm ▸ Nat.one_pos)
  have hcost : Entrywise p.cost.addAbsCols? y.size _ :=
    entrywise_addAbsCols? (fits_one_iff.mpr hy)
  refine hmethod.apply_eq hcost fun i hi e => ?_
  simp only [TradeProgram.cost, List.foldl_cons, List.foldl_nil, BlockBody.cols,
    RectMatrix.cols_ofColumn]
  simp (disch := omega) only [Stretch.along_of_mem, Nat.sub_zero, if_pos]
  rfl

theorem addAbsRows?_costParts (y : Column F) :
    (ofProgram p).costParts.addAbsRows? y = p.cost.addAbsRows? y := by
  have hreturns : p.returns.size = p.assets := rfl
  simp only [CostParts.addAbsRows?, dim?_costParts, returns_costParts, split?_point,
    Option.bind_eq_bind, Option.bind_some]
  rcases lt_or_ge y.size (2 * p.assets + p.auxiliaries + 1) with hshort | hy
  · rw [addAbsRows?_eq_none fun h => hshort.not_ge ((fits_point hpos).mp h), if_neg hshort.not_ge]
    rfl
  rw [if_pos hy]
  have hpart := (RectMatrix.ofColumn p.returns).entrywise_addAbsRows? laws.add_comm hreturns
  have hmethod : Entrywise _ y.size _ :=
    (hpart.onStretch? 0 (by omega)).comp <|
    (hpart.onStretch? p.assets (by omega)).comp <|
    (entrywise_addToFirst? 1 Nat.one_pos).onStretch? (2 * p.assets + p.auxiliaries) (by omega)
  have hcost : Entrywise p.cost.addAbsRows? y.size _ :=
    entrywise_addAbsRows? ((fits_point hpos).mpr hy)
  refine hmethod.apply_eq hcost fun i _ e => ?_
  simp only [TradeProgram.cost, TradeProgram.cols, List.foldl_cons, List.foldl_nil,
    BlockBody.rows, RectMatrix.rows_ofColumn, hreturns]
  clear hmethod hcost hpart
  rcases point_cases p.assets p.auxiliaries i with h | h | h | h | h
  all_goals
    simp (disch := omega) only [Stretch.along_of_mem, Stretch.along_of_lt,
      Stretch.along_of_stop_le, Nat.sub_zero, if_pos]
  rfl

end Cost

/-! ### The system -/

section System

variable (hp : p.Sized)

include hp

theorem mulAdd?_systemParts (a : F) (x : Column F) (b : F) (y : Column F) :
    (ofProgram p).systemParts.mulAdd? a x b y = p.system.mulAdd? a x b y := by
  simp only [SystemParts.mulAdd?, dim?_systemParts p hp, riskRoot_systemParts,
    treeMatrix_systemParts, split?_point, split?_slack, Option.bind_eq_bind, Option.bind_some]
  rcases lt_or_ge x.size (2 * p.assets + p.auxiliaries + 1) with hshort | hx
  · rw [mulAdd?_eq_none _ _ fun h => hshort.not_ge ((fits_point hpos).mp h.1), if_neg hshort.not_ge]
    rfl
  rw [if_pos hx, split?_tree _ _ _ hx]
  rcases lt_or_ge y.size ((2 + p.assets) + p.tree.rows + 2 * p.assets) with hshort | hy
  · rw [mulAdd?_eq_none _ _ fun h => hshort.not_ge ((fits_slack hpos).mp h.2), if_neg hshort.not_ge]
    rfl
  rw [if_pos hy]
  simp only [Option.bind_some]
  have hcols := cols_tree hp
  have hrows : 0 < p.tree.rows := Nat.succ_pos _
  have hroot := fun a start b =>
    SymMatrix.entrywise_mulAdd? hp.order_riskRoot hpos a (x.size_on ⟨start, p.assets⟩) b
  have htree := RectMatrix.entrywise_mulAdd? p.tree.rows_matrix hcols hrows (by omega) a b
    (x.size_on ⟨0, 2 * p.assets + p.auxiliaries⟩)
  have hadd := fun length start =>
    entrywise_addScaled? length (-a) (x.size_on ⟨start, length⟩)
  have hmethod : Entrywise _ y.size _ :=
    ((entrywise_scale? 1 b).onStretch? 0 (by omega)).comp <|
    ((entrywise_scale? 1 b).onStretch? 1 (by omega)).comp <|
    ((hadd 1 (2 * p.assets + p.auxiliaries)).onStretch? 1 (by omega)).comp <|
    ((hroot a 0 b).onStretch? 2 (by omega)).comp <|
    ((hroot (-a) p.assets 1).onStretch? 2 (by omega)).comp <|
    (htree.onStretch? (2 + p.assets) (by omega)).comp <|
    ((entrywise_scale? p.assets b).onStretch? (2 + p.assets + p.tree.rows) (by omega)).comp <|
    ((hadd p.assets 0).onStretch? (2 + p.assets + p.tree.rows) (by omega)).comp <|
    ((entrywise_scale? p.assets b).onStretch? (2 + p.assets + p.tree.rows + p.assets)
      (by omega)).comp <|
    (hadd p.assets p.assets).onStretch? (2 + p.assets + p.tree.rows + p.assets) (by omega)
  have hsystem : Entrywise (p.system.mulAdd? a x b) y.size _ :=
    entrywise_mulAdd? a b ((fits_point hpos).mpr hx) ((fits_slack hpos).mpr hy)
  refine hmethod.apply_eq hsystem fun i _ e => ?_
  simp only [TradeProgram.system, TradeProgram.rows, List.foldl_cons, List.foldl_nil,
    Block.signed, BlockBody.rows, BlockBody.rowDot, GrowthTree.rows_matrix, hp.order_riskRoot,
    if_true, Bool.false_eq_true, if_false, SymMatrix.rowDot_on _ _ _ hp.order_riskRoot.le,
    RectMatrix.rowDot_on _ _ _ hcols.le]
  clear hmethod hsystem hroot htree hadd
  rcases slack_cases p.assets p.tree.rows i with h | h | h | h | h | h | h
  all_goals
    simp (disch := omega) only [Stretch.along_of_mem, Stretch.along_of_lt,
      Stretch.along_of_stop_le, Nat.sub_zero, Nat.zero_add, Column.coord_on, laws.one_mul,
      laws.add_comm]

theorem transMulAdd?_systemParts (a : F) (x : Column F) (b : F) (y : Column F) :
    (ofProgram p).systemParts.transMulAdd? a x b y = p.system.transMulAdd? a x b y := by
  simp only [SystemParts.transMulAdd?, dim?_systemParts p hp, riskRoot_systemParts,
    treeMatrix_systemParts, split?_bound, split?_slack, Option.bind_eq_bind, Option.bind_some]
  rcases lt_or_ge x.size ((2 + p.assets) + p.tree.rows + 2 * p.assets) with hshort | hx
  · rw [transMulAdd?_eq_none _ _ fun h => hshort.not_ge ((fits_slack hpos).mp h.1),
      if_neg hshort.not_ge]
    rfl
  rw [if_pos hx]
  rcases lt_or_ge y.size (2 * p.assets + p.auxiliaries + 1) with hshort | hy
  · rw [transMulAdd?_eq_none _ _ fun h => hshort.not_ge ((fits_point hpos).mp h.2),
      if_neg hshort.not_ge]
    rfl
  rw [if_pos hy]
  simp only [Option.bind_some, split?_trade]
  have hcols := cols_tree hp
  have hrows : 0 < p.tree.rows := Nat.succ_pos _
  have hroot := fun a =>
    SymMatrix.entrywise_mulAdd? hp.order_riskRoot hpos a (x.size_on ⟨2, p.assets⟩) 1
  have htree := RectMatrix.entrywise_transMulAdd? p.tree.rows_matrix hcols hrows (by omega) a b
    (x.size_on ⟨2 + p.assets, p.tree.rows⟩)
  have hadd := fun length start =>
    entrywise_addScaled? length (-a) (x.size_on ⟨start, length⟩)
  have hmethod : Entrywise _ y.size _ :=
    (htree.onStretch? 0 (by omega)).comp <|
    ((hroot a).onStretch? 0 (by omega)).comp <|
    ((hadd p.assets (2 + p.assets + p.tree.rows)).onStretch? 0 (by omega)).comp <|
    ((hroot (-a)).onStretch? p.assets (by omega)).comp <|
    ((hadd p.assets (2 + p.assets + p.tree.rows + p.assets)).onStretch? p.assets (by omega)).comp <|
    ((entrywise_scale? 1 b).onStretch? (2 * p.assets + p.auxiliaries) (by omega)).comp <|
    (hadd 1 1).onStretch? (2 * p.assets + p.auxiliaries) (by omega)
  have hsystem : Entrywise (p.system.transMulAdd? a x b) y.size _ :=
    entrywise_transMulAdd? a b ((fits_slack hpos).mpr hx) ((fits_point hpos).mpr hy)
  refine hmethod.apply_eq hsystem fun i _ e => ?_
  simp only [TradeProgram.system, TradeProgram.cols, List.foldl_cons, List.foldl_nil,
    Block.signed, BlockBody.cols, BlockBody.colDot, hcols, hp.order_riskRoot,
    if_true, Bool.false_eq_true, if_false, SymMatrix.rowDot_on _ _ _ hp.order_riskRoot.le,
    RectMatrix.colDot_on _ _ _ p.tree.rows_matrix.le]
  clear hmethod hsystem hroot htree hadd
  rcases point_cases p.assets p.auxiliaries i with h | h | h | h | h
  all_goals
    simp (disch := omega) only [Stretch.along_of_mem, Stretch.along_of_lt,
      Stretch.along_of_stop_le, Nat.sub_zero, Column.coord_on, laws.one_mul, laws.add_comm]

theorem addAbsCols?_systemParts (y : Column F) :
    (ofProgram p).systemParts.addAbsCols? y = p.system.addAbsCols? y := by
  simp only [SystemParts.addAbsCols?, dim?_systemParts p hp, riskRoot_systemParts,
    treeMatrix_systemParts, split?_bound, Option.bind_eq_bind, Option.bind_some]
  rcases lt_or_ge y.size (2 * p.assets + p.auxiliaries + 1) with hshort | hy
  · rw [addAbsCols?_eq_none fun h => hshort.not_ge ((fits_point hpos).mp h), if_neg hshort.not_ge]
    rfl
  rw [if_pos hy]
  simp only [Option.bind_some, split?_trade]
  have hcols := cols_tree hp
  have htree := p.tree.matrix.entrywise_addAbsCols? laws.add_comm hcols
  have hroot := p.riskRoot.entrywise_addAbs? laws.add_comm hp.order_riskRoot
  have hunit := entrywise_addToAll? p.assets (1 : F)
  have hmethod : Entrywise _ y.size _ :=
    (htree.onStretch? 0 (by omega)).comp <|
    (hroot.onStretch? 0 (by omega)).comp <|
    (hunit.onStretch? 0 (by omega)).comp <|
    (hroot.onStretch? p.assets (by omega)).comp <|
    (hunit.onStretch? p.assets (by omega)).comp <|
    (entrywise_addToFirst? 1 Nat.one_pos).onStretch? (2 * p.assets + p.auxiliaries) (by omega)
  have hsystem : Entrywise p.system.addAbsCols? y.size _ :=
    entrywise_addAbsCols? ((fits_point hpos).mpr hy)
  refine hmethod.apply_eq hsystem fun i _ e => ?_
  simp only [TradeProgram.system, TradeProgram.cols, List.foldl_cons, List.foldl_nil,
    BlockBody.cols, hcols, hp.order_riskRoot]
  clear hmethod hsystem hroot htree hunit
  rcases point_cases p.assets p.auxiliaries i with h | h | h | h | h
  all_goals
    simp (disch := omega) only [Stretch.along_of_mem, Stretch.along_of_lt,
      Stretch.along_of_stop_le, Nat.sub_zero, BlockBody.addAbsCol, if_pos]

theorem addAbsRows?_systemParts (y : Column F) :
    (ofProgram p).systemParts.addAbsRows? y = p.system.addAbsRows? y := by
  simp only [SystemParts.addAbsRows?, dim?_systemParts p hp, riskRoot_systemParts,
    treeMatrix_systemParts, split?_slack, Option.bind_eq_bind, Option.bind_some]
  rcases lt_or_ge y.size ((2 + p.assets) + p.tree.rows + 2 * p.assets) with hshort | hy
  · rw [addAbsRows?_eq_none fun h => hshort.not_ge ((fits_slack hpos).mp h), if_neg hshort.not_ge]
    rfl
  rw [if_pos hy]
  simp only [Option.bind_some]
  have htree := p.tree.matrix.entrywise_addAbsRows? laws.add_comm p.tree.rows_matrix
  have hroot := p.riskRoot.entrywise_addAbs? laws.add_comm hp.order_riskRoot
  have hunit := entrywise_addToAll? p.assets (1 : F)
  have hmethod : Entrywise _ y.size _ :=
    ((entrywise_addToFirst? 1 Nat.one_pos).onStretch? 1 (by omega)).comp <|
    (hroot.onStretch? 2 (by omega)).comp <|
    (hroot.onStretch? 2 (by omega)).comp <|
    (htree.onStretch? (2 + p.assets) (by omega)).comp <|
    (hunit.onStretch? (2 + p.assets + p.tree.rows) (by omega)).comp <|
    hunit.onStretch? (2 + p.assets + p.tree.rows + p.assets) (by omega)
  have hsystem : Entrywise p.system.addAbsRows? y.size _ :=
    entrywise_addAbsRows? ((fits_slack hpos).mpr hy)
  refine hmethod.apply_eq hsystem fun i _ e => ?_
  simp only [TradeProgram.system, TradeProgram.rows, List.foldl_cons, List.foldl_nil,
    BlockBody.rows, GrowthTree.rows_matrix, hp.order_riskRoot]
  clear hmethod hsystem hroot htree hunit
  rcases slack_cases p.assets p.tree.rows i with h | h | h | h | h | h | h
  all_goals
    simp (disch := omega) only [Stretch.along_of_mem, Stretch.along_of_lt,
      Stretch.along_of_stop_le, Nat.sub_zero, BlockBody.addAbsRow, if_pos]

end System

/-! ### The right-hand side -/

section RightHand

variable (hp : p.Sized)

include hp

theorem mulAdd?_rightHandParts (a : F) (x : Column F) (b : F) (y : Column F) :
    (ofProgram p).rightHandParts.mulAdd? a x b y = p.rightHand.mulAdd? a x b y := by
  simp only [RightHandParts.mulAdd?, dim?_rightHandParts p hp, riskNow_rightHandParts,
    treeConstants_rightHandParts, split?_orthant, Option.bind_eq_bind, Option.bind_some]
  rcases lt_or_ge y.size ((2 + p.assets) + p.tree.rows + 2 * p.assets) with hshort | hy
  · rw [mulAdd?_eq_none _ _ fun h => hshort.not_ge ((fits_slack hpos).mp h.2), if_neg hshort.not_ge]
    rfl
  rw [if_pos hy]
  simp only [Option.bind_some]
  rcases ne_or_eq x.size 1 with hne | hx
  · have hnone : ∀ y : Column F, onStretch? (addScaled? a x) ⟨0, 1⟩ y = none := fun y =>
      onStretch?_eq_none (addScaled?_eq_none _ (by rwa [Column.size_on]))
    rw [mulAdd?_eq_none _ _ fun h => hne (fits_one_iff.mp h.1)]
    simp only [hnone, Option.bind_none, Option.bind_fun_none]
  have hrows : 0 < p.tree.rows := Nat.succ_pos _
  have hrisk := RectMatrix.entrywise_mulAdd? (m := .ofColumn p.riskNow) hp.size_riskNow rfl hpos
    Nat.one_pos a b hx
  have htree := RectMatrix.entrywise_mulAdd? (m := .ofColumn p.tree.constants)
    p.tree.size_constants rfl hrows Nat.one_pos a b hx
  have hmethod : Entrywise _ y.size _ :=
    ((entrywise_scale? 1 b).onStretch? 0 (by omega)).comp <|
    ((entrywise_addScaled? 1 a hx).onStretch? 0 (by omega)).comp <|
    ((entrywise_scale? 1 b).onStretch? 1 (by omega)).comp <|
    (hrisk.onStretch? 2 (by omega)).comp <|
    (htree.onStretch? (2 + p.assets) (by omega)).comp <|
    (entrywise_scale? (2 * p.assets) b).onStretch? (2 + p.assets + p.tree.rows) (by omega)
  have hright : Entrywise (p.rightHand.mulAdd? a x b) y.size _ :=
    entrywise_mulAdd? a b (fits_one_iff.mpr hx) ((fits_slack hpos).mpr hy)
  refine hmethod.apply_eq hright fun i _ e => ?_
  simp only [TradeProgram.rightHand, TradeProgram.rows, List.foldl_cons, List.foldl_nil,
    Block.signed, BlockBody.rows, BlockBody.rowDot, RectMatrix.rows_ofColumn, hp.size_riskNow,
    GrowthTree.size_constants, Bool.false_eq_true, if_false]
  clear hmethod hright hrisk htree
  rcases slack_cases p.assets p.tree.rows i with h | h | h | h | h | h | h
  all_goals
    simp (disch := omega) only [Stretch.along_of_mem, Stretch.along_of_lt,
      Stretch.along_of_stop_le, Nat.sub_zero, Nat.zero_add, laws.add_comm]

theorem transMulAdd?_rightHandParts (a : F) (x : Column F) (b : F) (y : Column F) :
    (ofProgram p).rightHandParts.transMulAdd? a x b y = p.rightHand.transMulAdd? a x b y := by
  simp only [RightHandParts.transMulAdd?, dim?_rightHandParts p hp, riskNow_rightHandParts,
    treeConstants_rightHandParts, split?_orthant, Option.bind_eq_bind, Option.bind_some]
  rcases lt_or_ge x.size ((2 + p.assets) + p.tree.rows + 2 * p.assets) with hshort | hx
  · rw [transMulAdd?_eq_none _ _ fun h => hshort.not_ge ((fits_slack hpos).mp h.1),
      if_neg hshort.not_ge]
    rfl
  rw [if_pos hx]
  simp only [Option.bind_some]
  rcases ne_or_eq y.size 1 with hne | hy
  · have hnone : (RectMatrix.ofColumn p.riskNow).transMulAdd? a (x.on ⟨2, p.assets⟩) b y = none :=
      mulAddBy?_eq_none fun h => hne h.2
    rw [transMulAdd?_eq_none _ _ fun h => hne (fits_one_iff.mp h.2)]
    simp only [hnone, Option.bind_none]
  have hrows : 0 < p.tree.rows := Nat.succ_pos _
  have hrisk := RectMatrix.entrywise_transMulAdd? (m := .ofColumn p.riskNow) hp.size_riskNow
    hy.symm hpos (hy.symm ▸ Nat.one_pos) a b (x.size_on ⟨2, p.assets⟩)
  have htree := RectMatrix.entrywise_transMulAdd? (m := .ofColumn p.tree.constants)
    p.tree.size_constants hy.symm hrows (hy.symm ▸ Nat.one_pos) a 1
    (x.size_on ⟨2 + p.assets, p.tree.rows⟩)
  have hmethod : Entrywise _ y.size _ :=
    hrisk.comp <| htree.comp <|
    entrywise_addScaled? y.size a ((x.size_on ⟨0, 1⟩).trans hy.symm)
  have hright : Entrywise (p.rightHand.transMulAdd? a x b) y.size _ :=
    entrywise_transMulAdd? a b ((fits_slack hpos).mpr hx) (fits_one_iff.mpr hy)
  refine hmethod.apply_eq hright fun i hi e => ?_
  simp only [TradeProgram.rightHand, List.foldl_cons, List.foldl_nil, Block.signed, BlockBody.cols,
    BlockBody.colDot, RectMatrix.cols_ofColumn, Bool.false_eq_true, if_false,
    RectMatrix.colDot_on (.ofColumn p.riskNow) _ _ hp.size_riskNow.le,
    RectMatrix.colDot_on (.ofColumn p.tree.constants) _ _ p.tree.size_constants.le]
  simp (disch := omega) only [Stretch.along_of_mem, Nat.sub_zero, Column.coord_on, laws.one_mul,
    laws.add_comm]

omit hpos hp in
theorem addAbsCols?_rightHandParts (y : Column F) :
    (ofProgram p).rightHandParts.addAbsCols? y = p.rightHand.addAbsCols? y := by
  simp only [RightHandParts.addAbsCols?, riskNow_rightHandParts, treeConstants_rightHandParts,
    Option.bind_eq_bind]
  rcases ne_or_eq y.size 1 with hne | hy
  · rw [addAbsCols?_eq_none fun h => hne (fits_one_iff.mp h)]
    cases hfirst : addToFirst? 1 y with
    | none => rfl
    | some z =>
      have hnone : (RectMatrix.ofColumn p.riskNow).addAbsCols? z = none :=
        addAbsBy?_eq_none ((size_of_change? hfirst).trans_ne hne)
      rw [Option.bind_some, hnone]
      rfl
  have hrisk := (RectMatrix.ofColumn p.riskNow).entrywise_addAbsCols? laws.add_comm hy.symm
  have htree := (RectMatrix.ofColumn p.tree.constants).entrywise_addAbsCols? laws.add_comm hy.symm
  have hmethod : Entrywise _ y.size _ :=
    (entrywise_addToFirst? 1 (hy.symm ▸ Nat.one_pos)).comp <| hrisk.comp htree
  have hright : Entrywise p.rightHand.addAbsCols? y.size _ :=
    entrywise_addAbsCols? (fits_one_iff.mpr hy)
  refine hmethod.apply_eq hright fun i hi e => ?_
  simp only [TradeProgram.rightHand, List.foldl_cons, List.foldl_nil, BlockBody.cols,
    RectMatrix.cols_ofColumn]
  simp (disch := omega) only [Stretch.along_of_mem, Nat.sub_zero, if_pos]
  rfl

theorem addAbsRows?_rightHandParts (y : Column F) :
    (ofProgram p).rightHandParts.addAbsRows? y = p.rightHand.addAbsRows? y := by
  simp only [RightHandParts.addAbsRows?, dim?_rightHandParts p hp, riskNow_rightHandParts,
    treeConstants_rightHandParts, split?_orthant, Option.bind_eq_bind, Option.bind_some]
  rcases lt_or_ge y.size ((2 + p.assets) + p.tree.rows + 2 * p.assets) with hshort | hy
  · rw [addAbsRows?_eq_none fun h => hshort.not_ge ((fits_slack hpos).mp h), if_neg hshort.not_ge]
    rfl
  rw [if_pos hy]
  simp only [Option.bind_some]
  have hrisk := (RectMatrix.ofColumn p.riskNow).entrywise_addAbsRows? laws.add_comm hp.size_riskNow
  have htree := (RectMatrix.ofColumn p.tree.constants).entrywise_addAbsRows? laws.add_comm
    p.tree.size_constants
  have hmethod : Entrywise _ y.size _ :=
    ((entrywise_addToFirst? 1 Nat.one_pos).onStretch? 0 (by omega)).comp <|
    (hrisk.onStretch? 2 (by omega)).comp <|
    htree.onStretch? (2 + p.assets) (by omega)
  have hright : Entrywise p.rightHand.addAbsRows? y.size _ :=
    entrywise_addAbsRows? ((fits_slack hpos).mpr hy)
  refine hmethod.apply_eq hright fun i _ e => ?_
  simp only [TradeProgram.rightHand, TradeProgram.rows, List.foldl_cons, List.foldl_nil,
    BlockBody.rows, RectMatrix.rows_ofColumn, hp.size_riskNow, GrowthTree.size_constants]
  clear hmethod hright hrisk htree
  rcases slack_cases p.assets p.tree.rows i with h | h | h | h | h | h | h
  all_goals
    simp (disch := omega) only [Stretch.along_of_mem, Stretch.along_of_lt,
      Stretch.along_of_stop_le, Nat.sub_zero, BlockBody.addAbsRow, if_pos]

end RightHand

/-! ### All of them -/

/-- The methods of the cost are those of its block operator. -/
theorem methods_costParts : (ofProgram p).costParts.methods = p.cost.methods := by
  ext1
  · rfl
  · funext a x b y
    exact mulAdd?_costParts hpos laws a x b y
  · funext a x b y
    exact transMulAdd?_costParts hpos laws a x b y
  · exact funext (addAbsCols?_costParts laws)
  · exact funext (addAbsRows?_costParts hpos laws)

variable (hp : p.Sized)

include hp

/-- The methods of the system are those of its block operator. -/
theorem methods_systemParts : (ofProgram p).systemParts.methods = p.system.methods := by
  ext1
  · simp only [SystemParts.methods, SystemParts.size?, dim?_systemParts p hp]
    rfl
  · funext a x b y
    exact mulAdd?_systemParts hpos laws hp a x b y
  · funext a x b y
    exact transMulAdd?_systemParts hpos laws hp a x b y
  · exact funext (addAbsCols?_systemParts hpos laws hp)
  · exact funext (addAbsRows?_systemParts hpos laws hp)

/-- The methods of the right-hand side are those of its block operator. -/
theorem methods_rightHandParts : (ofProgram p).rightHandParts.methods = p.rightHand.methods := by
  ext1
  · simp only [RightHandParts.methods, RightHandParts.size?, dim?_rightHandParts p hp]
    rfl
  · funext a x b y
    exact mulAdd?_rightHandParts hpos laws hp a x b y
  · funext a x b y
    exact transMulAdd?_rightHandParts hpos laws hp a x b y
  · exact funext (addAbsCols?_rightHandParts laws)
  · exact funext (addAbsRows?_rightHandParts hpos laws hp)

end Agree

end Checked

end Rebalancing
