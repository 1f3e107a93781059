-- SUMMARY: Passes over the cone of a trade program by checked splits of the column, one for nearest points and one for groups.
import Mathlib
import Rebalancing.Proofs.Checked.Cells
import Rebalancing.Proofs.Conic.NearestPoint
import Rebalancing.TradeProgram

/-!
# Passes over the cone of a trade program

A column of the cone of a trade program is split in a part for the risk, one for the
growth tree and one for the half lines, and the part of the tree is split again for every
cone of it. Each split is checked, and what is split off is overwritten in place. The pass
for nearest points and the pass for groups both work through the blocks of the cone in
their order, so they agree with the total functions that put a column together anew.
-/

namespace Rebalancing

/-! ## Cones of trade programs -/

namespace TradeProgram

/-- The cone of a trade program for `n` assets with `m` auxiliary variables. -/
def coneOf (n m : ℕ) : ProductCone where
  rotated := (2 + n) :: List.replicate m 3
  orthant := 1 + 2 * n

theorem cone_eq_coneOf {F : Type} [Scalar F] (p : TradeProgram F) :
    p.cone = coneOf p.assets p.auxiliaries := rfl

theorem sum_rotated_coneOf (n m : ℕ) : (coneOf n m).rotated.sum = (2 + n) + 3 * m := by
  simp [coneOf, mul_comm]

theorem dim_coneOf (n m : ℕ) : (coneOf n m).dim = (2 + n) + 3 * m + (1 + 2 * n) := by
  rw [ProductCone.dim_eq, sum_rotated_coneOf]
  rfl

theorem groups_coneOf (n m : ℕ) :
    (coneOf n m).groups = ⟨0, 2 + n⟩ :: (List.range m).map fun j => ⟨2 + n + 3 * j, 3⟩ := by
  simp [ProductCone.groups, coneOf, Stretch.consecutive, Stretch.consecutive_replicate]

end TradeProgram

namespace Checked

open TradeProgram

/-! ## Splits -/

/-- Split a stretch in the places of a length and those behind them, if it is long
enough. -/
def cut? (g : Stretch) (length : ℕ) : Option (Stretch × Stretch) :=
  if length ≤ g.length then
    some (⟨g.start, length⟩, ⟨g.start + length, g.length - length⟩)
  else none

theorem cut?_eq_some {start length size : ℕ} (h : length ≤ size) :
    cut? ⟨start, size⟩ length = some (⟨start, length⟩, ⟨start + length, size - length⟩) :=
  if_pos h

theorem cut?_eq_none {start length size : ℕ} (h : size < length) :
    cut? ⟨start, size⟩ length = none :=
  if_neg (not_le.mpr h)

/-! ## Passes -/

section Pass

variable {σ : Type}

/-- Work through the blocks of a cone in a column of some size. A pass breaks off where
a split fails, and stops at the first block that is refused. -/
def pass? (onRotated onHalfLines : Stretch → σ → Except Unit σ) (n m size : ℕ) (s : σ) :
    ExceptT Unit Option σ := do
  let (risk, rest) ← cut? ⟨0, size⟩ (2 + n)
  let (tree, rest) ← cut? rest (3 * m)
  let (halfLines, _) ← cut? rest (1 + 2 * n)
  let s ← onRotated risk s
  let s ← (List.range m).foldlM
    (fun s k => do
      let (_, rest) ← cut? tree (3 * k)
      let (cone, _) ← cut? rest 3
      onRotated cone s) s
  onHalfLines halfLines s

/-- A loop whose every step has a result. -/
theorem foldlM_eq_pure {m : Type → Type} [Monad m] [LawfulMonad m] {α : Type} {f : σ → α → m σ}
    {g : σ → α → σ} {l : List α} (h : ∀ a ∈ l, ∀ s, f s a = pure (g s a)) (s : σ) :
    l.foldlM f s = pure (l.foldl g s) := by
  induction l generalizing s with
  | nil => rfl
  | cons a l ih =>
    rw [List.foldlM_cons, h a List.mem_cons_self, pure_bind,
      ih fun b hb => h b (List.mem_cons_of_mem _ hb), List.foldl_cons]

theorem liftM_some_bind {α : Type} (a : α) (f : α → ExceptT Unit Option σ) :
    (liftM (some a) : ExceptT Unit Option α) >>= f = f a := rfl

theorem liftM_ok_bind {α : Type} (a : α) (f : α → ExceptT Unit Option σ) :
    (liftM (Except.ok a : Except Unit α) : ExceptT Unit Option α) >>= f = f a := rfl

variable (onRotated onHalfLines : Stretch → σ → σ) {n m size : ℕ} (s : σ)

/-- A column that is long enough is worked through from the first block to the last. -/
theorem pass?_eq_some (h : (coneOf n m).dim ≤ size) :
    pass? (fun g s => .ok (onRotated g s)) (fun g s => .ok (onHalfLines g s)) n m size s =
      (some (.ok (onHalfLines ⟨(coneOf n m).rotated.sum, (coneOf n m).orthant⟩
        ((coneOf n m).groups.foldl (fun s g => onRotated g s) s))) : Option (Except Unit σ)) := by
  rw [dim_coneOf] at h
  have hrisk : 2 + n ≤ size := by omega
  have htree : 3 * m ≤ size - (2 + n) := by omega
  have hrest : 1 + 2 * n ≤ size - (2 + n) - 3 * m := by omega
  have hstep : ∀ k ∈ List.range m, ∀ s : σ,
      (do
        let (_, rest) ← cut? ⟨0 + (2 + n), 3 * m⟩ (3 * k)
        let (cone, _) ← cut? rest 3
        (Except.ok (onRotated cone s) : Except Unit σ) : ExceptT Unit Option σ) =
      pure (onRotated ⟨2 + n + 3 * k, 3⟩ s) := by
    intro k hk s
    have hlt := List.mem_range.mp hk
    have hdone : 3 * k ≤ 3 * m := by omega
    have hcone : 3 ≤ 3 * m - 3 * k := by omega
    simp only [cut?_eq_some hdone, cut?_eq_some hcone, liftM_some_bind, Nat.zero_add]
    rfl
  simp only [pass?, cut?_eq_some hrisk, cut?_eq_some htree, cut?_eq_some hrest, liftM_some_bind,
    liftM_ok_bind, foldlM_eq_pure hstep, pure_bind]
  rw [groups_coneOf, sum_rotated_coneOf, List.foldl_cons, List.foldl_map, Nat.zero_add]
  rfl

/-- A column that is too short is not worked through at all. -/
theorem pass?_eq_none (onRotated onHalfLines : Stretch → σ → Except Unit σ) (s : σ)
    (h : size < (coneOf n m).dim) :
    pass? onRotated onHalfLines n m size s = (none : Option (Except Unit σ)) := by
  rw [dim_coneOf] at h
  rcases lt_or_ge size (2 + n) with hrisk | hrisk
  · rw [pass?, cut?_eq_none hrisk]
    rfl
  rcases lt_or_ge (size - (2 + n)) (3 * m) with htree | htree
  · simp only [pass?, cut?_eq_some hrisk, liftM_some_bind, cut?_eq_none htree]
    rfl
  have hrest : size - (2 + n) - 3 * m < 1 + 2 * n := by omega
  simp only [pass?, cut?_eq_some hrisk, cut?_eq_some htree, liftM_some_bind, cut?_eq_none hrest]
  rfl

end Pass

/-! ## Nearest points -/

section Nearest

variable {F : Type} [Scalar F]

/-- The nearest point of a rotated cone or of its dual. They are the same, and there is
always one. -/
def nearestRotated (_dual : Bool) (x : Column F) : Except Unit (Column F) := .ok x.nearestRotated

/-- The nearest point of half lines or of their dual. -/
def nearestHalfLines (_dual : Bool) (x : Column F) : Except Unit (Column F) :=
  .ok (x.map fun e => Scalar.max e 0)

/-- Overwrite a stretch by what a function makes of it, unless it is refused. -/
def overwrite (f : Column F → Except Unit (Column F)) (g : Stretch) (x : Column F) :
    Except Unit (Column F) :=
  (f (x.on g)).map fun y => x.extract 0 g.start ++ y ++ x.extract g.stop

/-- Overwrite a column by the nearest point of the cone or of its dual. -/
def nearest? (n m : ℕ) (dual : Bool) (x : Column F) : Option (Except Unit (Column F)) :=
  pass? (overwrite (nearestRotated dual)) (overwrite (nearestHalfLines dual)) n m x.size x

/-- The pass finds the nearest point of the cone, and breaks off where there is none. -/
theorem nearest?_eq (n m : ℕ) (dual : Bool) (x : Column F) :
    nearest? n m dual x = ((coneOf n m).nearest? x).map .ok := by
  rw [ProductCone.nearest?]
  split
  next hx =>
    have hrotated : overwrite (nearestRotated dual) =
        fun g (x : Column F) => .ok (x.rewrite Column.nearestRotated g) := rfl
    have hhalfLines : overwrite (nearestHalfLines dual) =
        fun g (x : Column F) => .ok (x.rewrite (·.map fun e => Scalar.max e 0) g) := rfl
    rw [nearest?, hrotated, hhalfLines, pass?_eq_some _ _ _ hx,
      ProductCone.rewrite_foldl_groups _ Column.size_nearestRotated]
    rfl
  next hx => exact pass?_eq_none _ _ _ (not_le.mp hx)

end Nearest

/-! ## Groups -/

section Groups

variable {F : Type} [Scalar F]

/-- A column whose groups are overwritten, and the stretches on which the function for
groups was called, one after the other. -/
structure Grouping (F : Type) where
  column : Column F
  calls : List Stretch

/-- Call the function for groups on a stretch. -/
def Grouping.call (f : Column F → Column F) (s : Grouping F) (g : Stretch) : Grouping F where
  column := s.column.rewrite f g
  calls := s.calls ++ [g]

/-- Overwrite every group of a column by what a function makes of it. Half lines each
have a scale of their own and are in no group. -/
def mapGroups? (n m : ℕ) (f : Column F → Column F) (x : Column F) :
    Option (Except Unit (Grouping F)) :=
  pass? (fun g s => .ok (s.call f g)) (fun _ s => .ok s) n m x.size { column := x, calls := [] }

theorem foldl_call (f : Column F → Column F) (gs : List Stretch) (s : Grouping F) :
    gs.foldl (Grouping.call f) s =
      { column := gs.foldl (Column.rewrite f) s.column, calls := s.calls ++ gs } := by
  induction gs generalizing s with
  | nil => simp
  | cons g gs ih => simp [ih, Grouping.call]

/-- The pass overwrites the groups of the cone with a call for each of them, and breaks
off where the column is too short. -/
theorem mapGroups?_eq (n m : ℕ) {f : Column F → Column F} (hf : ∀ y, (f y).size = y.size)
    (x : Column F) :
    mapGroups? n m f x = ((coneOf n m).mapGroups? f x).map fun column =>
      .ok { column, calls := (coneOf n m).groups } := by
  rw [ProductCone.mapGroups?]
  split
  next hx =>
    rw [Option.map_some, ProductCone.mapGroups, ← (coneOf n m).foldl_groups hf x hx]
    refine (pass?_eq_some (fun g s => Grouping.call f s g) (fun _ s => s) _ hx).trans ?_
    rw [foldl_call, List.nil_append]
  next hx => exact pass?_eq_none _ _ _ (not_le.mp hx)

/-- No place was in two of the calls, each call left what the function makes of the
entries that stood there at first, and every other entry stays. -/
structure Grouping.CallsOnce (f : Column F → Column F) (x : Column F) (s : Grouping F) : Prop where
  size_eq : s.column.size = x.size
  apart : s.calls.Pairwise Stretch.Apart
  stop_le : ∀ g ∈ s.calls, g.stop ≤ x.size
  called : ∀ g ∈ s.calls, s.column.on g = f (x.on g)
  kept : ∀ i, (∀ g ∈ s.calls, i < g.start ∨ g.stop ≤ i) → s.column.coord i = x.coord i

theorem callsOnce_of_blockwise {k : ProductCone} {f : Column F → Column F} {x y : Column F}
    (hx : k.dim ≤ x.size) (h : k.Blockwise f id x y) :
    Grouping.CallsOnce f x { column := y, calls := k.groups } where
  size_eq := h.size_eq
  apart := Stretch.consecutive_apart _ _
  stop_le g hg := by
    have hstop := (Stretch.bounds_of_mem_consecutive hg).2
    rw [ProductCone.dim_eq] at hx
    omega
  called := h.block
  kept i hi := by
    have hbehind : k.rotated.sum ≤ i := by
      by_contra hlt
      obtain ⟨g, hg, hstart, hstop⟩ :=
        Stretch.exists_mem_consecutive i.zero_le (by rwa [Nat.zero_add, ← not_le])
      exact (hi g hg).elim (not_lt.mpr hstart) (not_le.mpr hstop)
    obtain ⟨j, rfl⟩ := Nat.exists_eq_add_of_le hbehind
    rcases lt_or_ge j k.orthant with hj | hj
    · exact h.entry j hj
    · exact h.beyond _ (by rw [ProductCone.dim_eq]; omega)

/-- On a column that is long enough the pass overwrites group by group, and calls the
function once on each of them. -/
theorem exists_mapGroups {n m : ℕ} {f : Column F → Column F} (hf : ∀ y, (f y).size = y.size)
    {x : Column F} (hx : (coneOf n m).dim ≤ x.size) :
    ∃ y, (coneOf n m).mapGroups? f x = some y ∧
      mapGroups? n m f x = some (.ok { column := y, calls := (coneOf n m).groups }) ∧
      (coneOf n m).Blockwise f id x y := by
  refine ⟨_, if_pos hx, ?_, ProductCone.blockwise_mapBlocks hf id hx⟩
  rw [mapGroups?_eq n m hf, ProductCone.mapGroups?, if_pos hx, Option.map_some,
    ProductCone.mapGroups]

end Groups

end Checked

end Rebalancing
