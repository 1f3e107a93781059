-- SUMMARY: Covariance matrices as callers give them, in full or packed form, and their quadratic form.
import Rebalancing.Matrix.Rect
import Rebalancing.Matrix.Sym

/-!
# Covariances

A caller gives a covariance either in full, every cell on its own, or packed,
as a symmetric matrix. A full covariance may be slightly asymmetric; the
library works on its symmetric part.
-/

namespace Rebalancing

variable {F : Type}

/-- A covariance as a caller gives it. -/
inductive Covariance (F : Type) where
  | full (m : RectMatrix F)
  | packed (m : SymMatrix F)

namespace Covariance

/-! ## Reading -/

def size : Covariance F → Nat × Nat
  | full m => (m.rows, m.cols)
  | packed m => (m.order, m.order)

/-- The stored cells, a packed covariance's once for both halves. -/
def cells : Covariance F → Column F
  | full m => m.cells
  | packed m => m.packed

/-- The symmetric matrix of a packed covariance. -/
def packed? : Covariance F → Option (SymMatrix F)
  | full _ => none
  | packed m => some m

variable [Scalar F]

def entry : Covariance F → Nat → Nat → F
  | full m, r, c => m.entry r c
  | packed m, r, c => m.entry r c

/-! ## Symmetric part -/

/-- The symmetric part: a packed covariance itself, and the mean of a full one
with its transpose. -/
def symmetrize : Covariance F → SymMatrix F
  | full m => SymMatrix.ofFn m.rows fun i j => (m.entry i j + m.entry j i) * Scalar.half
  | packed m => m

/-- The symmetric part of a square covariance; of another there is none. -/
def symmetrize? (s : Covariance F) : Option (SymMatrix F) :=
  if s.size.1 = s.size.2 then some s.symmetrize else none

/-! ## Quadratic form -/

/-- The variance `zᵀ Σ z` of an allocation, summed column by column. -/
def quadForm (s : Covariance F) (z : Column F) : F :=
  z.size.fold (fun c _ acc => sumFrom acc z.size fun r => z.coord r * s.entry r c * z.coord c) 0

/-- The variance of an allocation of the covariance's size. -/
def quadForm? (s : Covariance F) (z : Column F) : Option F :=
  if s.size = (z.size, z.size) then some (s.quadForm z) else none

end Covariance

end Rebalancing
