-- SUMMARY: Eigenvalues and eigenvectors of a symmetric matrix by sweeps of plane rotations, and matrices rebuilt from changed eigenvalues.
import Rebalancing.Matrix.Rect
import Rebalancing.Matrix.Sym

/-!
# Spectra

A symmetric matrix is brought to diagonal form by plane rotations. A rotation
in the plane of two rows clears the cell where they cross; a sweep visits every
cell above the diagonal and rotates where the cell is not yet negligible, and
sweeps are repeated until one makes no rotation.

A rotation lowers the sum of the squares above the diagonal by the square of
the cell that it clears, and that square exceeds the tolerance. So the number
of sweeps is bounded by that sum divided by the tolerance.
-/

namespace Rebalancing

variable {F : Type}

/-- A symmetric matrix, turned by the rotations made so far, beside the product
of those rotations. -/
structure Spectrum (F : Type) where
  turned : SymMatrix F
  /-- The product of the rotations; column `k` belongs to the `k`-th number on
  the diagonal. -/
  basis : RectMatrix F

namespace Spectrum

/-- The cells above the diagonal of a matrix of order `n`, row by row. -/
def cellsAbove (n : Nat) : List (Nat × Nat) :=
  (List.range n).flatMap fun i => (List.range' (i + 1) (n - (i + 1))).map fun j => (i, j)

variable [Scalar F]

/-! ## Rotations -/

/-- The spectrum before any rotation. -/
def start (m : SymMatrix F) : Spectrum F where
  turned := m
  basis := RectMatrix.ofFn m.order m.order fun r c => if r = c then 1 else 0

/-- Whether the cell `(i, j)` is too large to be left. -/
def isDue (s : Spectrum F) (tol : F) (i j : Nat) : Bool :=
  let a := s.turned.entry i i
  let b := s.turned.entry j j
  let d := s.turned.entry i j
  tol * a * b < d * d && tol < d * d

/-- Rotate in the plane of rows `i < j`, so that the cell `(i, j)` becomes zero. -/
def rotate (s : Spectrum F) (i j : Nat) : Spectrum F :=
  let x := s.turned
  let a := x.entry i i
  let b := x.entry j j
  let d := x.entry i j
  -- The tangent of the angle is the smaller root of `t² + 2 ζ t = 1`.
  let zeta := (b - a) / (Scalar.two * d)
  let t :=
    if 0 < zeta then 1 / (zeta + Scalar.sqrt (1 + zeta * zeta))
    else -1 / (-zeta + Scalar.sqrt (1 + zeta * zeta))
  let c := 1 / Scalar.sqrt (1 + t * t)
  let s' := c * t
  let first u v := c * u - s' * v
  let second u v := s' * u + c * v
  let cell (p q : Nat) : F :=
    if p = i then
      if q = i then c * c * a + s' * s' * b - Scalar.two * c * s' * d
      else if q = j then 0
      else first (x.entry q i) (x.entry q j)
    else if p = j then
      if q = j then s' * s' * a + c * c * b + Scalar.two * c * s' * d
      else second (x.entry q i) (x.entry q j)
    else if q = i then first (x.entry p i) (x.entry p j)
    else if q = j then second (x.entry p i) (x.entry p j)
    else x.upper p q
  let axis (k l : Nat) : F :=
    if l = i then first (s.basis.entry k i) (s.basis.entry k j)
    else if l = j then second (s.basis.entry k i) (s.basis.entry k j)
    else s.basis.entry k l
  { turned := SymMatrix.ofFn x.order cell
    basis := RectMatrix.ofFn s.basis.rows s.basis.cols axis }

/-! ## Sweeps -/

/-- Visit every cell above the diagonal once. Returns whether a rotation was
made. -/
def sweep (tol : F) (s : Spectrum F) : Spectrum F × Bool :=
  (cellsAbove s.turned.order).foldl (fun (s, moved) (i, j) =>
    if s.isDue tol i j then (s.rotate i j, true) else (s, moved)) (s, false)

/-- Sweep until a sweep makes no rotation, at most a number of times. -/
def sweeps (tol : F) : Nat → Spectrum F → Spectrum F
  | 0, s => s
  | fuel + 1, s =>
    let (s, moved) := s.sweep tol
    if moved then sweeps tol fuel s else s

/-- A number of sweeps that is enough: every sweep but the last lowers the sum
of the squares above the diagonal by more than the tolerance. The surplus
allows for rounding. -/
def sweepBound (tol : F) (m : SymMatrix F) : Nat :=
  let above := sumTo m.order fun j => sumTo j fun i => m.upper i j * m.upper i j
  Scalar.ceilCount (above / tol) + 64

/-- The spectrum of a symmetric matrix: a cell above the diagonal is negligible
once its square is at most `eps ^ 2`, or at most that share of the product of the
two diagonal cells. -/
def ofMatrix (m : SymMatrix F) (eps : F) : Spectrum F :=
  sweeps (eps * eps) (sweepBound (eps * eps) m) (start m)

/-! ## Reading a spectrum -/

/-- The eigenvalues, in the order of the diagonal. -/
def values (s : Spectrum F) : Column F :=
  Column.tabulate s.turned.order fun k => s.turned.entry k k

/-- The matrix with the same eigenvectors and changed eigenvalues; an
eigenvalue that `f` refuses counts as zero. -/
def rebuild (s : Spectrum F) (f : F → Option F) : SymMatrix F :=
  let changed := s.values.map f
  SymMatrix.ofFn s.turned.order fun i j =>
    changed.size.fold (fun k _ acc =>
      match changed.getD k none with
      | some e => e * s.basis.entry i k * s.basis.entry j k + acc
      | none => acc) 0

end Spectrum

variable [Scalar F]

/-! ## Symmetric matrices through their spectra -/

/-- The least eigenvalue and the greatest absolute value of one. -/
structure SpectralRange (F : Type) where
  least : F
  maxAbs : F

/-- The range of the eigenvalues. A matrix without a proper eigenvalue has the
range from infinity to zero. -/
def SymMatrix.spectralRange (m : SymMatrix F) (eps : F) : SpectralRange F :=
  let values := (Spectrum.ofMatrix m eps).values
  { least := values.least?.getD Scalar.infinity, maxAbs := values.maxAbs }

/-- A way to take symmetric roots of matrices, told up to which size a number
counts as zero. -/
abbrev RootMethod (F : Type) := SymMatrix F → F → SymMatrix F

/-- The symmetric root: eigenvalues above zero become their roots and all
others zero. -/
def SymMatrix.sqrt (m : SymMatrix F) (eps : F) : SymMatrix F :=
  (Spectrum.ofMatrix m eps).rebuild fun e => if 0 < e then some (Scalar.sqrt e) else none

end Rebalancing
