-- SUMMARY: Reads, writes and loops that stop at the first entry or cell that is not there, and the total ones that they agree with.
import Mathlib
import Rebalancing.Covariance

/-!
# Checked cells

The library reads zero beyond the end of a column, so no read of it can fail. A checked
read has no result there, and a checked loop stops with the first of its steps that has
none. Where every index is in range a checked read, write or loop is the total one.
-/

namespace Rebalancing

variable {F : Type}

/-! ## Loops -/

namespace Checked

/-- A loop of one step more. -/
theorem foldlM_range_succ {β : Type} (f : β → ℕ → Option β) (start : β) (n : ℕ) :
    (List.range (n + 1)).foldlM f start = ((List.range n).foldlM f start).bind (f · n) := by
  rw [List.range_succ, List.foldlM_append]
  simp

/-- Steps that all have a result make a loop that has one. -/
theorem foldlM_range {β : Type} {f : β → ℕ → Option β} {g : ℕ → β → β} {n : ℕ}
    (h : ∀ i < n, ∀ acc, f acc i = some (g i acc)) (start : β) :
    (List.range n).foldlM f start = some (n.fold (fun i _ acc => g i acc) start) := by
  induction n with
  | zero => rfl
  | succ n ih =>
    have hinit := ih fun i hi => h i (Nat.lt_succ_of_lt hi)
    rw [foldlM_range_succ, hinit, Option.bind_some, h n (Nat.lt_succ_self n), Nat.fold_succ]

/-- Add numbers to `start`, one after the other, as long as there are any. -/
def sumFrom? [Scalar F] (start : F) (n : ℕ) (f : ℕ → Option F) : Option F :=
  (List.range n).foldlM (fun acc i => (f i).map (acc + ·)) start

theorem sumFrom?_eq_some [Scalar F] {n : ℕ} {f : ℕ → Option F} {g : ℕ → F}
    (h : ∀ i < n, f i = some (g i)) (start : F) :
    sumFrom? start n f = some (sumFrom start n g) := by
  refine foldlM_range (g := fun i acc => acc + g i) (fun i hi acc => ?_) start
  rw [h i hi, Option.map_some]

/-- The column with the entries that a partial function has. -/
def tabulate? (n : ℕ) (f : ℕ → Option F) : Option (Column F) :=
  (List.range n).foldlM (fun x i => (f i).map x.push) (Array.emptyWithCapacity n)

theorem tabulate?_eq_some {n : ℕ} {f : ℕ → Option F} {g : ℕ → F} (h : ∀ i < n, f i = some (g i)) :
    tabulate? n f = some (Column.tabulate n g) := by
  refine foldlM_range (g := fun i (x : Column F) => x.push (g i)) (fun i hi x => ?_) _
  rw [h i hi, Option.map_some]

/-- A search whose every test has a result. -/
theorem findM?_eq_some {α : Type} {test : α → Option Bool} {p : α → Bool} {l : List α}
    (h : ∀ a ∈ l, test a = some (p a)) : l.findM? test = some (l.find? p) := by
  induction l with
  | nil => rfl
  | cons a l ih =>
    have hrest := ih fun b hb => h b (List.mem_cons_of_mem _ hb)
    rw [List.findM?, h a (List.mem_cons_self ..), List.find?_cons]
    cases p a with
    | true => rfl
    | false => exact hrest

theorem findSomeM?_eq_some {α β : Type} {test : α → Option (Option β)} {p : α → Option β}
    {l : List α} (h : ∀ a ∈ l, test a = some (p a)) :
    l.findSomeM? test = some (l.findSome? p) := by
  induction l with
  | nil => rfl
  | cons a l ih =>
    have hrest := ih fun b hb => h b (List.mem_cons_of_mem _ hb)
    rw [List.findSomeM?, h a (List.mem_cons_self ..), List.findSome?_cons]
    cases p a with
    | some b => rfl
    | none => exact hrest

end Checked

/-! ## Columns -/

namespace Column

/-- Put a number in an entry, if the column has it. -/
def put? (x : Column F) (i : ℕ) (v : F) : Option (Column F) :=
  if i < x.size then some (x.setIfInBounds i v) else none

theorem put?_eq_some {x : Column F} {i : ℕ} (h : i < x.size) (v : F) :
    put? x i v = some (x.setIfInBounds i v) :=
  if_pos h

variable [Scalar F] {x : Column F} {i : ℕ}

theorem getElem?_eq_some (h : i < x.size) : x[i]? = some (x.coord i) := by
  rw [coord_eq_getElem h, Array.getElem?_eq_getElem h]

/-- A write changes its own entry and no other. -/
theorem coord_setIfInBounds (h : i < x.size) (v : F) (j : ℕ) :
    coord (x.setIfInBounds i v) j = if j = i then v else x.coord j := by
  simp only [coord, Array.getD_eq_getD_getElem?, Array.getElem?_setIfInBounds, h, if_true,
    eq_comm (a := i)]
  split <;> rfl

/-- A slice within a column is a part of it. -/
theorem slice_eq_extract {start n : ℕ} (h : start + n ≤ x.size) :
    x.slice start n = x.extract start (start + n) := by
  have hsize : (x.extract start (start + n)).size = n := by
    rw [Array.size_extract]
    omega
  apply Array.ext ((x.size_slice start n).trans hsize.symm)
  intro i hi hi'
  rw [size_slice] at hi
  rw [← coord_eq_getElem, x.coord_slice start hi, Array.getElem_extract, coord_eq_getElem]

end Column

/-! ## Rectangular matrices -/

namespace RectMatrix

/-- Where a cell stands in the listing by columns. -/
theorem place_lt {rows cols r c : ℕ} (hr : r < rows) (hc : c < cols) :
    c * rows + r < rows * cols := by
  calc c * rows + r < c * rows + rows := by omega
    _ = rows * (c + 1) := by rw [Nat.mul_succ, Nat.mul_comm]
    _ ≤ rows * cols := Nat.mul_le_mul_left _ hc

/-- Two cells stand at one place only if they are one. -/
theorem place_eq_iff {rows r r' : ℕ} (hr : r < rows) (hr' : r' < rows) (c c' : ℕ) :
    c' * rows + r' = c * rows + r ↔ r' = r ∧ c' = c := by
  constructor
  · intro h
    have hmod : (c' * rows + r') % rows = (c * rows + r) % rows := by rw [h]
    have hdiv : (c' * rows + r') / rows = (c * rows + r) / rows := by rw [h]
    have hpos : 0 < rows := by omega
    rw [Nat.add_comm, Nat.add_mul_mod_self_right, Nat.mod_eq_of_lt hr', Nat.add_comm (c * rows),
      Nat.add_mul_mod_self_right, Nat.mod_eq_of_lt hr] at hmod
    rw [Nat.add_comm, Nat.add_mul_div_right _ _ hpos, Nat.div_eq_of_lt hr', Nat.add_comm (c * rows),
      Nat.add_mul_div_right _ _ hpos, Nat.div_eq_of_lt hr, Nat.zero_add, Nat.zero_add] at hdiv
    exact ⟨hmod, hdiv⟩
  · rintro ⟨rfl, rfl⟩
    rfl

/-- The cell in a row and a column, if it is one of the matrix. -/
def cell? (m : RectMatrix F) (r c : ℕ) : Option F :=
  if r < m.rows ∧ c < m.cols then m.cells[c * m.rows + r]? else none

/-- Put a number in a cell. -/
def put (m : RectMatrix F) (r c : ℕ) (v : F) : RectMatrix F where
  rows := m.rows
  cols := m.cols
  cells := m.cells.setIfInBounds (c * m.rows + r) v
  size_cells := by rw [Array.size_setIfInBounds, m.size_cells]

/-- Put a number in a cell, if it is one of the matrix. -/
def put? (m : RectMatrix F) (r c : ℕ) (v : F) : Option (RectMatrix F) :=
  if r < m.rows ∧ c < m.cols then some (m.put r c v) else none

@[simp] theorem rows_put (m : RectMatrix F) (r c : ℕ) (v : F) : (m.put r c v).rows = m.rows := rfl

@[simp] theorem cols_put (m : RectMatrix F) (r c : ℕ) (v : F) : (m.put r c v).cols = m.cols := rfl

theorem put?_eq_some {m : RectMatrix F} {r c : ℕ} (hr : r < m.rows) (hc : c < m.cols) (v : F) :
    m.put? r c v = some (m.put r c v) :=
  if_pos ⟨hr, hc⟩

variable [Scalar F]

theorem cell?_eq_some {m : RectMatrix F} {r c : ℕ} (hr : r < m.rows) (hc : c < m.cols) :
    m.cell? r c = some (m.entry r c) := by
  rw [cell?, if_pos ⟨hr, hc⟩, Column.getElem?_eq_some (m.size_cells ▸ place_lt hr hc), entry]

/-- A write changes its own cell and no other. -/
theorem entry_put {m : RectMatrix F} {r c : ℕ} (hr : r < m.rows) (hc : c < m.cols) (v : F)
    {r' c' : ℕ} (hr' : r' < m.rows) :
    (m.put r c v).entry r' c' = if r' = r ∧ c' = c then v else m.entry r' c' := by
  have hplace : c * m.rows + r < m.cells.size := m.size_cells ▸ place_lt hr hc
  rw [entry, entry, put, Column.coord_setIfInBounds hplace]
  exact if_congr (place_eq_iff hr hr' c c') rfl rfl

/-- A matrix is known by its size and its cells. -/
theorem ext_entry {m m' : RectMatrix F} (hrows : m.rows = m'.rows) (hcols : m.cols = m'.cols)
    (h : ∀ r < m.rows, ∀ c < m.cols, m.entry r c = m'.entry r c) : m = m' := by
  obtain ⟨rows, cols, cells, hsize⟩ := m
  obtain ⟨rows', cols', cells', hsize'⟩ := m'
  obtain rfl : rows = rows' := hrows
  obtain rfl : cols = cols' := hcols
  have hcells : cells = cells' := by
    apply Column.ext_coord (hsize.trans hsize'.symm)
    intro k hk
    rw [hsize] at hk
    have hpos : 0 < rows := Nat.pos_of_mul_pos_right (Nat.zero_lt_of_lt hk)
    have hcell := h (k % rows) (Nat.mod_lt k hpos) (k / rows) (Nat.div_lt_of_lt_mul hk)
    rwa [entry, entry, Nat.div_add_mod'] at hcell
  subst hcells
  rfl

end RectMatrix

/-! ## Symmetric matrices -/

namespace SymMatrix

/-- The cell in a row and a column, in either order, if it is one of the matrix. -/
def cell? (m : SymMatrix F) (r c : ℕ) : Option F :=
  if r ≤ c then m.columns[c]?.bind (·[r]?) else m.columns[r]?.bind (·[c]?)

/-- The symmetric matrix with the cells that a partial function has. -/
def ofFn? [Scalar F] (n : ℕ) (f : ℕ → ℕ → Option F) : Option (SymMatrix F) :=
  if ∀ j < n, ∀ i < j + 1, (f i j).isSome then some (ofFn n fun i j => (f i j).getD 0) else none

variable [Scalar F]

/-- A cell of the stored triangle is an entry of its column. -/
theorem upper_eq_coord {m : SymMatrix F} {j : ℕ} (hj : j < m.columns.size) (i : ℕ) :
    m.upper i j = Column.coord m.columns[j] i := by
  rw [upper, Array.getD, dif_pos hj]
  rfl

theorem cell?_eq_some {m : SymMatrix F} {r c : ℕ} (hr : r < m.order) (hc : c < m.order) :
    m.cell? r c = some (m.entry r c) := by
  have hupper : ∀ i j, i ≤ j → j < m.order →
      m.columns[j]?.bind (·[i]?) = some (m.upper i j) := by
    intro i j hij hj
    have hj : j < m.columns.size := hj
    have hi : i < m.columns[j].size := by
      rw [m.size_column j hj]
      omega
    rw [Array.getElem?_eq_getElem hj, Option.bind_some, Column.getElem?_eq_some hi,
      upper_eq_coord hj]
  unfold cell? entry
  split
  · exact hupper r c ‹_› hc
  · exact hupper c r (by omega) hr

theorem ofFn?_eq_some {n : ℕ} {f : ℕ → ℕ → Option F} {g : ℕ → ℕ → F}
    (h : ∀ i j, i ≤ j → j < n → f i j = some (g i j)) : ofFn? n f = some (ofFn n g) := by
  have hall : ∀ j < n, ∀ i < j + 1, (f i j).isSome := by
    intro j hj i hi
    rw [h i j (Nat.le_of_lt_succ hi) hj]
    rfl
  rw [ofFn?, if_pos hall]
  congr 1
  refine ext_upper ((order_ofFn _ _).trans (order_ofFn _ _).symm) fun i j hij hj => ?_
  rw [order_ofFn] at hj
  rw [upper_ofFn _ hij hj, upper_ofFn _ hij hj, h i j hij hj, Option.getD_some]

end SymMatrix

/-! ## Covariances -/

/-- The cell in a row and a column, if it is one of the covariance. -/
def Covariance.cell? : Covariance F → ℕ → ℕ → Option F
  | full m, r, c => m.cell? r c
  | packed m, r, c => m.cell? r c

theorem Covariance.cell?_eq_some [Scalar F] {s : Covariance F} {n r c : ℕ} (hsize : s.size = (n, n))
    (hr : r < n) (hc : c < n) : s.cell? r c = some (s.entry r c) := by
  have hfst : s.size.1 = n := congrArg Prod.fst hsize
  have hsnd : s.size.2 = n := congrArg Prod.snd hsize
  cases s with
  | full m => exact RectMatrix.cell?_eq_some (hr.trans_eq hfst.symm) (hc.trans_eq hsnd.symm)
  | packed m => exact SymMatrix.cell?_eq_some (hr.trans_eq hfst.symm) (hc.trans_eq hfst.symm)

end Rebalancing
