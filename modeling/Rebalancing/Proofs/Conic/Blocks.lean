-- SUMMARY: The blocks of a product cone as stretches of a column, and a function applied block by block as a pass of writes in place.
import Mathlib
import Rebalancing.Proofs.Conic.Duality

/-!
# Blocks in place

The rotated cones of a product cone follow each other, so each of them has a stretch of
every column to itself. `mapBlocks` puts a column together from new blocks. A pass that
overwrites one stretch after the other leaves the same column: in front of the place
that it has reached stand the new blocks, and behind it what stood there before.
-/

open Finset

namespace Rebalancing

/-! ## Stretches -/

/-- Neighbouring places of a column. -/
structure Stretch where
  start : ℕ
  length : ℕ

namespace Stretch

/-- The first place behind the stretch. -/
def stop (g : Stretch) : ℕ := g.start + g.length

/-- Two stretches share no place. -/
def Apart (g g' : Stretch) : Prop := g.stop ≤ g'.start ∨ g'.stop ≤ g.start

/-- Stretches of some lengths that follow each other from a place on. -/
def consecutive : ℕ → List ℕ → List Stretch
  | _, [] => []
  | start, k :: ks => ⟨start, k⟩ :: consecutive (start + k) ks

theorem bounds_of_mem_consecutive {g : Stretch} {ks : List ℕ} {start : ℕ}
    (hg : g ∈ consecutive start ks) : start ≤ g.start ∧ g.stop ≤ start + ks.sum := by
  induction ks generalizing start with
  | nil => exact absurd hg List.not_mem_nil
  | cons k ks ih =>
    rw [List.sum_cons]
    rcases List.mem_cons.mp hg with rfl | hg
    · exact ⟨le_rfl, by simp only [stop]; omega⟩
    · have := ih hg
      omega

theorem exists_mem_consecutive {ks : List ℕ} {start i : ℕ} (hle : start ≤ i)
    (hlt : i < start + ks.sum) : ∃ g ∈ consecutive start ks, g.start ≤ i ∧ i < g.stop := by
  induction ks generalizing start with
  | nil =>
    rw [List.sum_nil] at hlt
    omega
  | cons k ks ih =>
    rcases lt_or_ge i (start + k) with hi | hi
    · exact ⟨_, List.mem_cons_self, hle, hi⟩
    · rw [List.sum_cons, ← Nat.add_assoc] at hlt
      obtain ⟨g, hg, hmem⟩ := ih hi hlt
      exact ⟨g, List.mem_cons_of_mem _ hg, hmem⟩

theorem consecutive_apart (start : ℕ) (ks : List ℕ) :
    (consecutive start ks).Pairwise Apart := by
  induction ks generalizing start with
  | nil => exact .nil
  | cons k ks ih => exact .cons (fun g hg => .inl (bounds_of_mem_consecutive hg).1) (ih _)

theorem consecutive_replicate (start k m : ℕ) :
    consecutive start (List.replicate m k) = (List.range m).map fun j => ⟨start + k * j, k⟩ := by
  induction m generalizing start with
  | zero => rfl
  | succ m ih =>
    rw [List.replicate_succ, consecutive, ih, List.range_succ_eq_map, List.map_cons, List.map_map]
    refine congrArg _ (List.map_congr_left fun j _ => ?_)
    simp only [Function.comp, Nat.mul_succ]
    congr 1
    omega

end Stretch

/-! ## Writes in place -/

namespace Column

variable {F : Type} [Scalar F]

/-- The entries of a column in a stretch. -/
def on (x : Column F) (g : Stretch) : Column F := x.slice g.start g.length

@[simp] theorem size_on (x : Column F) (g : Stretch) : (x.on g).size = g.length := x.size_slice _ _

/-- Overwrite a stretch by what a function makes of it. -/
def rewrite (f : Column F → Column F) (x : Column F) (g : Stretch) : Column F :=
  x.extract 0 g.start ++ f (x.on g) ++ x.extract g.stop

theorem coord_extract (x : Column F) (start i : ℕ) :
    coord (x.extract start) i = x.coord (start + i) := by
  rcases lt_or_ge (start + i) x.size with hi | hi
  · have hlt : i < (x.extract start).size := by simp; omega
    rw [coord_eq_getElem hi, coord_eq_getElem hlt, Array.getElem_extract]
  · rw [coord_of_size_le hi, coord_of_size_le (by simp; omega)]

/-- A slice of what follows a column. -/
theorem slice_append {pre : Column F} {start : ℕ} (hpre : pre.size = start) (x : Column F)
    (k : ℕ) : slice (pre ++ x) start k = x.slice 0 k := by
  apply ext_coord (by simp)
  intro i hi
  rw [size_slice] at hi
  rw [coord_slice _ _ hi, coord_slice _ _ hi, coord_append, if_neg (by omega), hpre,
    Nat.add_sub_cancel_left, Nat.zero_add]

theorem slice_extract (x : Column F) (start k : ℕ) :
    slice (x.extract start) 0 k = x.slice start k := by
  apply ext_coord (by simp)
  intro i hi
  rw [size_slice] at hi
  rw [coord_slice _ _ hi, coord_slice _ _ hi, Nat.zero_add, coord_extract]

/-- A column is the slice of its own length in front of what follows it. -/
theorem slice_zero_append (x y : Column F) {k : ℕ} (hk : x.size = k) : slice (x ++ y) 0 k = x := by
  apply ext_coord (by simp [hk])
  intro i hi
  rw [size_slice] at hi
  rw [coord_slice _ _ hi, Nat.zero_add, coord_append, if_pos (by omega)]

theorem map_slice (x : Column F) (e : F → F) (start k : ℕ) :
    (x.slice start k).map e = tabulate k fun i => e (x.coord (start + i)) := by
  apply ext_coord (by simp)
  intro i hi
  rw [Array.size_map, size_slice] at hi
  rw [coord_map _ (by simpa using hi), coord_slice _ _ hi, coord_tabulate, if_pos hi]

theorem slice_append_extract {x : Column F} {start k : ℕ} (h : start + k ≤ x.size) :
    x.slice start k ++ x.extract (start + k) = x.extract start := by
  apply ext_coord (by simp; omega)
  intro i _
  rw [coord_append, size_slice, coord_extract, coord_extract]
  split
  next hi => exact coord_slice _ _ hi
  next hi =>
    congr 1
    omega

/-- One write moves the border between what is new and what is as before. -/
theorem rewrite_append_extract (f : Column F → Column F) (x : Column F) {pre : Column F}
    {start : ℕ} (hpre : pre.size = start) (k : ℕ) :
    rewrite f (pre ++ x.extract start) ⟨start, k⟩ =
      pre ++ f (x.slice start k) ++ x.extract (start + k) := by
  have hon : on (pre ++ x.extract start) ⟨start, k⟩ = x.slice start k := by
    rw [on, slice_append hpre, slice_extract]
  have hfront : (pre ++ x.extract start).extract 0 start = pre := by
    rw [← hpre, Array.extract_append_left]
    simp
  have hback : (pre ++ x.extract start).extract (start + k) = x.extract (start + k) := by
    apply ext_coord (by simp; omega)
    intro i _
    rw [coord_extract, coord_append, if_neg (by omega), coord_extract, coord_extract]
    congr 1
    omega
  rw [rewrite, hon, Stretch.stop, hfront, hback]

end Column

namespace ProductCone

open Column Stretch

/-! ## Passes over the blocks -/

section Pass

variable {F : Type} [Scalar F] {f : Column F → Column F} (hf : ∀ y, (f y).size = y.size)
  (e : F → F) (x : Column F) {orthant : ℕ}

include hf

/-- A pass that has overwritten the places in front of some blocks goes on to put the
remaining blocks behind them. -/
theorem foldl_rewrite {ks : List ℕ} {start : ℕ} {pre : Column F} (hpre : pre.size = start) :
    (consecutive start ks).foldl (rewrite f) (pre ++ x.extract start) =
      pre ++ mapBlocks f e x start ks 0 ++ x.extract (start + ks.sum) := by
  induction ks generalizing start pre with
  | nil => simp [consecutive, mapBlocks, tabulate]
  | cons k ks ih =>
    have hnext : (pre ++ f (x.slice start k)).size = start + k := by
      rw [Array.size_append, hpre, hf, size_slice]
    rw [consecutive, List.foldl_cons, rewrite_append_extract f x hpre, ih hnext, List.sum_cons,
      ← Nat.add_assoc, mapBlocks]
    simp only [Array.append_assoc]

omit hf in
/-- The entries of the orthant follow the blocks. -/
theorem mapBlocks_eq_append (orthant : ℕ) (ks : List ℕ) (start : ℕ) :
    mapBlocks f e x start ks orthant =
      mapBlocks f e x start ks 0 ++ (x.slice (start + ks.sum) orthant).map e := by
  induction ks generalizing start with
  | nil => simp [mapBlocks, map_slice, tabulate]
  | cons k ks ih => rw [mapBlocks, ih, mapBlocks, List.sum_cons, Array.append_assoc, Nat.add_assoc]

theorem size_mapBlocks (ks : List ℕ) (start : ℕ) :
    (mapBlocks f e x start ks orthant).size = ks.sum + orthant := by
  induction ks generalizing start with
  | nil => simp [mapBlocks]
  | cons k ks ih =>
    rw [mapBlocks, Array.size_append, hf, size_slice, ih, List.sum_cons, Nat.add_assoc]

theorem on_mapBlocks {ks : List ℕ} {start : ℕ} {pre : Column F} (hpre : pre.size = start)
    (post : Column F) {g : Stretch} (hg : g ∈ consecutive start ks) :
    on (pre ++ mapBlocks f e x start ks orthant ++ post) g = f (x.on g) := by
  induction ks generalizing start pre with
  | nil => exact absurd hg List.not_mem_nil
  | cons k ks ih =>
    have hblock : (f (x.slice start k)).size = k := by rw [hf, size_slice]
    rw [mapBlocks]
    rcases List.mem_cons.mp hg with rfl | hg
    · rw [on, Array.append_assoc, Array.append_assoc, slice_append hpre,
        slice_zero_append _ _ hblock, on]
    · rw [← Array.append_assoc]
      exact ih (by rw [Array.size_append, hpre, hblock]) hg

theorem coord_mapBlocks {ks : List ℕ} {start : ℕ} {i : ℕ} (hi : i < orthant) :
    (mapBlocks f e x start ks orthant).coord (ks.sum + i) = e (x.coord (start + ks.sum + i)) := by
  induction ks generalizing start with
  | nil => rw [mapBlocks, coord_tabulate, List.sum_nil, Nat.zero_add, if_pos hi, Nat.add_zero]
  | cons k ks ih =>
    rw [mapBlocks, coord_append, hf, size_slice, List.sum_cons, if_neg (by omega), Nat.add_assoc k,
      Nat.add_sub_cancel_left, ih, ← Nat.add_assoc start]

end Pass

/-! ## Columns block by block -/

/-- The stretches of the rotated cones. -/
def groups (k : ProductCone) : List Stretch := consecutive 0 k.rotated

/-- `y` is `x` with one function applied to every block of a rotated cone and another to
every entry of the orthant. -/
structure Blockwise {F : Type} [Scalar F] (k : ProductCone) (f : Column F → Column F) (e : F → F)
    (x y : Column F) : Prop where
  size_eq : y.size = x.size
  block : ∀ g ∈ k.groups, y.on g = f (x.on g)
  entry : ∀ i < k.orthant, y.coord (k.rotated.sum + i) = e (x.coord (k.rotated.sum + i))
  beyond : ∀ i, k.dim ≤ i → y.coord i = x.coord i

section Mapped

variable {F : Type} [Scalar F] {k : ProductCone} {f : Column F → Column F}
  (hf : ∀ y, (f y).size = y.size) (e : F → F) {x : Column F}

include hf

theorem blockwise_mapBlocks (hx : k.dim ≤ x.size) :
    k.Blockwise f e x (mapBlocks f e x 0 k.rotated k.orthant ++ x.extract k.dim) where
  size_eq := by
    rw [Array.size_append, size_mapBlocks hf, ← dim_eq, Array.size_extract]
    omega
  block g hg := by
    have hon : on (#[] ++ mapBlocks f e x 0 k.rotated k.orthant ++ x.extract k.dim) g =
        f (x.on g) := on_mapBlocks hf e x rfl _ hg
    rwa [Array.empty_append] at hon
  entry i hi := by
    rw [coord_append, size_mapBlocks hf, if_pos (by omega), coord_mapBlocks hf e x hi, Nat.zero_add]
  beyond i hi := by
    rw [coord_append, size_mapBlocks hf, ← dim_eq, if_neg (by omega), coord_extract,
      Nat.add_sub_cancel' hi]

end Mapped

section Overwritten

variable {F : Type} [Scalar F] (k : ProductCone) {f : Column F → Column F}
  (hf : ∀ y, (f y).size = y.size) (e : F → F) (x : Column F)

include hf

theorem foldl_groups_eq :
    k.groups.foldl (rewrite f) x =
      mapBlocks f e x 0 k.rotated 0 ++ x.extract k.rotated.sum := by
  have hpass : (consecutive 0 k.rotated).foldl (rewrite f) (#[] ++ x.extract 0) =
      #[] ++ mapBlocks f e x 0 k.rotated 0 ++ x.extract (0 + k.rotated.sum) :=
    foldl_rewrite hf e x rfl
  simpa [groups] using hpass

/-- Overwriting every block and then the orthant puts the column of new blocks in front of
what lies beyond the cone. -/
theorem rewrite_foldl_groups :
    rewrite (·.map e) (k.groups.foldl (rewrite f) x) ⟨k.rotated.sum, k.orthant⟩ =
      mapBlocks f e x 0 k.rotated k.orthant ++ x.extract k.dim := by
  have hsize : (mapBlocks f e x 0 k.rotated 0).size = k.rotated.sum := size_mapBlocks hf e x _ _
  rw [foldl_groups_eq k hf e, rewrite_append_extract _ _ hsize, dim_eq,
    mapBlocks_eq_append e x k.orthant, Nat.zero_add]

/-- Overwriting every block leaves the orthant as it is. -/
theorem foldl_groups (hx : k.dim ≤ x.size) :
    k.groups.foldl (rewrite f) x =
      mapBlocks f id x 0 k.rotated k.orthant ++ x.extract k.dim := by
  rw [dim_eq] at hx
  rw [foldl_groups_eq k hf id, mapBlocks_eq_append id x k.orthant, Nat.zero_add, Array.map_id,
    Array.append_assoc, dim_eq, slice_append_extract hx]

end Overwritten

/-! ## Cones block by block -/

section Real

variable {x y : Column ℝ} {orthant : ℕ}

theorem containsFrom_iff (x : Column ℝ) (start : ℕ) (ks : List ℕ) (orthant : ℕ) :
    ContainsFrom x start ks orthant ↔ (∀ g ∈ consecutive start ks, (x.on g).InRotated) ∧
      ∀ i < orthant, 0 ≤ x.coord (start + ks.sum + i) := by
  induction ks generalizing start with
  | nil => simp [ContainsFrom, consecutive]
  | cons k ks ih =>
    rw [ContainsFrom, ih, consecutive, List.forall_mem_cons, and_assoc, List.sum_cons,
      Nat.add_assoc start k]
    rfl

/-- A column of the right size lies in the cone when every block of it does. -/
theorem contains_iff {k : ProductCone} (hx : x.size = k.dim) :
    k.Contains x ↔ (∀ g ∈ k.groups, (x.on g).InRotated) ∧
      ∀ i < k.orthant, 0 ≤ x.coord (k.rotated.sum + i) := by
  rw [Contains, and_iff_right hx, containsFrom_iff, groups, Nat.zero_add]

/-- Columns with no product on any block have none. -/
theorem product_eq_zero_of_blocks {ks : List ℕ} {start : ℕ}
    (hblock : ∀ g ∈ consecutive start ks, (x.on g).product (y.on g) 0 g.length = 0)
    (hentry : ∀ i < orthant,
      x.coord (start + ks.sum + i) * y.coord (start + ks.sum + i) = 0) :
    x.product y start (ks.sum + orthant) = 0 := by
  induction ks generalizing start with
  | nil =>
    rw [List.sum_nil, Nat.add_zero] at hentry
    rw [List.sum_nil, Nat.zero_add]
    exact sum_eq_zero fun i hi => hentry i (mem_range.mp hi)
  | cons k ks ih =>
    obtain ⟨hfirst, hrest⟩ := List.forall_mem_cons.mp hblock
    rw [List.sum_cons, ← Nat.add_assoc] at hentry
    rw [List.sum_cons, Nat.add_assoc, Column.product_add, ← Column.product_slice x y start k,
      ih hrest hentry, add_zero]
    exact hfirst

end Real

end ProductCone

end Rebalancing
