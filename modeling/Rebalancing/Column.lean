-- SUMMARY: Columns of numbers, read as zero beyond their end, and the sums and norms over them in a fixed order.
import Rebalancing.Scalar

/-!
# Columns

A column is an array of scalars that reads as zero beyond its end. Sums run
from the first index to the last, and every sum of the library is an instance
of `sumFrom`.
-/

namespace Rebalancing

/-- A finite sequence of scalars. -/
abbrev Column (F : Type) := Array F

variable {F : Type}

/-! ## Building -/

/-- The column of length `n` whose entry at `i` is `f i`. -/
@[inline] def Column.tabulate (n : Nat) (f : Nat → F) : Column F :=
  n.fold (fun i _ x => x.push (f i)) (Array.emptyWithCapacity n)

theorem Column.tabulate_eq_ofFn (n : Nat) (f : Nat → F) :
    tabulate n f = Array.ofFn fun i : Fin n => f i := by
  suffices h : ∀ m, n.fold (fun i _ x => x.push (f i)) (Array.emptyWithCapacity m)
      = Array.ofFn fun i : Fin n => f i from h n
  intro m
  induction n with
  | zero => simp
  | succ n ih => rw [Nat.fold_succ, ih, Array.ofFn_succ]; rfl

@[simp] theorem Column.size_tabulate (n : Nat) (f : Nat → F) : (tabulate n f).size = n := by
  simp [tabulate_eq_ofFn]

variable [Scalar F]

/-! ## Sums -/

/-- Add `f 0`, …, `f (n - 1)` to `start`, one after the other. -/
@[inline] def sumFrom (start : F) (n : Nat) (f : Nat → F) : F :=
  n.fold (fun i _ acc => acc + f i) start

/-- The sum of `f 0`, …, `f (n - 1)`, from zero upwards. -/
@[inline] def sumTo (n : Nat) (f : Nat → F) : F := sumFrom 0 n f

@[simp] theorem sumFrom_zero (start : F) (f : Nat → F) : sumFrom start 0 f = start := rfl

theorem sumFrom_succ (start : F) (n : Nat) (f : Nat → F) :
    sumFrom start (n + 1) f = sumFrom start n f + f n := by
  simp [sumFrom, Nat.fold_succ]

namespace Column

/-! ## Reading -/

/-- The entry at an index; zero beyond the end. -/
@[inline] def coord (x : Column F) (i : Nat) : F := x.getD i 0

theorem coord_of_size_le {x : Column F} {i : Nat} (h : x.size ≤ i) : x.coord i = 0 := by
  simp [coord, Array.getD, Nat.not_lt.2 h]

theorem coord_eq_getElem {x : Column F} {i : Nat} (h : i < x.size) : x.coord i = x[i] := by
  simp [coord, h]

theorem coord_map {x : Column F} (f : F → F) {i : Nat} (h : i < x.size) :
    coord (x.map f) i = f (x.coord i) := by
  simp [coord, h]

theorem forall_mem_iff (x : Column F) (P : F → Prop) :
    (∀ e ∈ x, P e) ↔ ∀ i < x.size, P (x.coord i) := by
  constructor
  · intro h i hi
    rw [coord_eq_getElem hi]
    exact h _ (Array.getElem_mem hi)
  · intro h e he
    obtain ⟨i, hi, rfl⟩ := Array.mem_iff_getElem.mp he
    rw [← coord_eq_getElem hi]
    exact h i hi

theorem coord_tabulate (n : Nat) (f : Nat → F) (i : Nat) :
    (tabulate n f).coord i = if i < n then f i else 0 := by
  by_cases h : i < n <;> simp [coord, tabulate_eq_ofFn, Array.getD, h]

theorem coord_append (x y : Column F) (i : Nat) :
    coord (x ++ y) i = if i < x.size then x.coord i else y.coord (i - x.size) := by
  unfold coord
  simp only [Array.getD_eq_getD_getElem?, Array.getElem?_append]
  split <;> rfl

/-- Columns of one length with the same entries are equal. -/
theorem ext_coord {x y : Column F} (hs : x.size = y.size)
    (h : ∀ i, i < x.size → x.coord i = y.coord i) : x = y := by
  apply Array.ext hs
  intro i hx hy
  simpa [coord, Array.getD, hx, hy] using h i hx

/-- The zero column of length `n`. -/
def zeros (n : Nat) : Column F := Array.replicate n 0

@[simp] theorem size_zeros (n : Nat) : (zeros n : Column F).size = n := by simp [zeros]

@[simp] theorem coord_zeros (n i : Nat) : (zeros n : Column F).coord i = 0 := by
  by_cases h : i < n <;> simp [coord, zeros, Array.getD, h]

/-- The `n` entries that start at `start`. -/
@[inline] def slice (x : Column F) (start n : Nat) : Column F :=
  tabulate n fun i => x.coord (start + i)

@[simp] theorem size_slice (x : Column F) (start n : Nat) : (x.slice start n).size = n :=
  size_tabulate _ _

theorem coord_slice (x : Column F) (start : Nat) {n i : Nat} (h : i < n) :
    (x.slice start n).coord i = x.coord (start + i) := by
  rw [slice, coord_tabulate, if_pos h]

/-! ## Norm, least and greatest -/

/-- Euclidean length: the root of the sum of squares. -/
def norm (x : Column F) : F :=
  Scalar.sqrt (sumTo x.size fun i => x.coord i * x.coord i)

/-- The least entry that is not `nan`, if there is one. -/
def least? (x : Column F) : Option F :=
  x.foldl (fun least e =>
    if Scalar.isNaN e then least else some ((least.map fun m => Scalar.min m e).getD e)) none

/-- The greatest absolute value; zero where every entry is `nan`. -/
def maxAbs (x : Column F) : F :=
  x.foldl (fun greatest e => Scalar.max greatest (Scalar.abs e)) 0

end Column

end Rebalancing
