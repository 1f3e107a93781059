-- SUMMARY: Functions that change a column in place, entry by entry or on a stretch of it, and the products and absolute sums of matrices as such functions.
import Mathlib
import Rebalancing.Conic.Operator
import Rebalancing.Proofs.Checked.ConePass

/-!
# Functions in place

A vector function overwrites a column from its first entry to its last. Each of them
changes every entry by itself: what an entry becomes depends on its index and on what
stood there before, not on the entries that were overwritten already. This is what
`Entrywise` says, and it is kept when one function follows another or when a function is
let loose on a stretch of a longer column. So a method that works through the parts of a
column is known from what it makes of each entry.
-/

namespace Rebalancing

variable {F : Type} [Scalar F]

/-- What becomes of an entry where those of a stretch are changed by their places in it. -/
def Stretch.along {F : Type} (g : Stretch) (h : ℕ → F → F) (i : ℕ) (e : F) : F :=
  if g.start ≤ i ∧ i < g.stop then h (i - g.start) e else e

section Along

variable {F : Type} {start length i : ℕ} (h : ℕ → F → F) (e : F)

theorem Stretch.along_mk :
    Stretch.along ⟨start, length⟩ h i e =
      if start ≤ i ∧ i < start + length then h (i - start) e else e :=
  rfl

theorem Stretch.along_of_lt (hi : i < start) : Stretch.along ⟨start, length⟩ h i e = e :=
  if_neg fun hin => hi.not_ge hin.1

theorem Stretch.along_of_stop_le (hi : start + length ≤ i) :
    Stretch.along ⟨start, length⟩ h i e = e :=
  if_neg fun hin => hi.not_gt hin.2

theorem Stretch.along_of_mem (hi : start ≤ i) (hi' : i < start + length) :
    Stretch.along ⟨start, length⟩ h i e = h (i - start) e :=
  if_pos ⟨hi, hi'⟩

end Along

theorem sumFrom_congr {n : ℕ} {f f' : ℕ → F} (h : ∀ i < n, f i = f' i) (start : F) :
    sumFrom start n f = sumFrom start n f' := by
  induction n with
  | zero => rfl
  | succ n ih =>
    rw [sumFrom_succ, sumFrom_succ, ih fun i hi => h i (Nat.lt_succ_of_lt hi),
      h n (Nat.lt_succ_self n)]

/-! ## Tabulated columns -/

namespace Column

theorem tabulate_coord (x : Column F) : tabulate x.size x.coord = x := by
  apply ext_coord (size_tabulate _ _)
  intro i hi
  rw [size_tabulate] at hi
  rw [coord_tabulate, if_pos hi]

omit [Scalar F] in
theorem tabulate_congr {n : ℕ} {v w : ℕ → F} (h : ∀ i < n, v i = w i) :
    tabulate n v = tabulate n w := by
  rw [tabulate_eq_ofFn, tabulate_eq_ofFn]
  exact congrArg Array.ofFn (funext fun i => h i i.isLt)

theorem setIfInBounds_tabulate {n i : ℕ} (hi : i < n) (v : ℕ → F) (e : F) :
    (tabulate n v).setIfInBounds i e = tabulate n (Function.update v i e) := by
  apply ext_coord (by simp)
  intro j hj
  have hlt : j < n := by simpa using hj
  rw [coord_setIfInBounds (by simpa using hi), coord_tabulate, coord_tabulate, if_pos hlt,
    if_pos hlt, Function.update_apply]

theorem coord_on (x : Column F) {start length i : ℕ} (hi : i < length) :
    (x.on ⟨start, length⟩).coord i = x.coord (start + i) :=
  x.coord_slice start hi

/-- A stretch that is overwritten holds what it was overwritten with. -/
theorem coord_overwrite {x z : Column F} {start : ℕ} (h : start + z.size ≤ x.size) (i : ℕ) :
    coord (x.extract 0 start ++ z ++ x.extract (start + z.size)) i =
      if start ≤ i ∧ i < start + z.size then z.coord (i - start) else x.coord i := by
  have hfront : x.extract 0 start = x.slice 0 start := by
    rw [slice_eq_extract (by omega), Nat.zero_add]
  rw [hfront, coord_append, coord_append, Array.size_append, size_slice]
  rcases lt_or_ge i start with hi | hi
  · rw [if_pos (by omega), if_pos hi, if_neg (by omega), coord_slice _ _ hi, Nat.zero_add]
  rcases lt_or_ge i (start + z.size) with hi' | hi'
  · rw [if_pos hi', if_neg (by omega), if_pos ⟨hi, hi'⟩]
  · rw [if_neg (by omega), if_neg (by omega), coord_extract, Nat.add_sub_cancel' hi']

end Column

namespace Checked

open Column

/-! ## Entry by entry -/

/-- On columns of a length a function has a result, and changes every entry by itself. -/
def Entrywise (f : Column F → Option (Column F)) (n : ℕ) (h : ℕ → F → F) : Prop :=
  ∀ v : ℕ → F, f (tabulate n v) = some (tabulate n fun i => h i (v i))

namespace Entrywise

variable {f f' : Column F → Option (Column F)} {n : ℕ} {h h' : ℕ → F → F}

omit [Scalar F] in
theorem congr (hf : Entrywise f n h) (heq : ∀ i < n, ∀ e, h i e = h' i e) : Entrywise f n h' := by
  intro v
  rw [hf v]
  exact congrArg some (tabulate_congr fun i hi => heq i hi (v i))

omit [Scalar F] in
theorem comp (hf : Entrywise f n h) (hf' : Entrywise f' n h') :
    Entrywise (fun y => (f y).bind f') n fun i e => h' i (h i e) := by
  intro v
  change (f (tabulate n v)).bind f' = _
  rw [hf v]
  exact hf' _

/-- Two functions that change every entry of a column alike are equal there. -/
theorem apply_eq {x : Column F} (hf : Entrywise f x.size h) (hf' : Entrywise f' x.size h')
    (heq : ∀ i < x.size, ∀ e, h i e = h' i e) : f x = f' x := by
  rw [← x.tabulate_coord, hf.congr heq x.coord, hf' x.coord]

end Entrywise

/-- Change an entry, if the column has it and there is something to change it to. -/
def change? (f : F → Option F) (x : Column F) (i : ℕ) : Option (Column F) := do
  let e ← x[i]?
  let e ← f e
  x.put? i e

theorem change?_tabulate {f : F → Option F} {h : F → F} {n i : ℕ} (hi : i < n) {v : ℕ → F}
    (hf : f (v i) = some (h (v i))) :
    change? f (tabulate n v) i = some (tabulate n (Function.update v i (h (v i)))) := by
  have hlt : i < (tabulate n v).size := by simpa using hi
  unfold change?
  rw [getElem?_eq_some hlt, coord_tabulate, if_pos hi, Option.bind_eq_bind, Option.bind_some, hf,
    Option.bind_some, put?_eq_some hlt, setIfInBounds_tabulate hi]

omit [Scalar F] in
theorem size_of_change? {f : F → Option F} {x z : Column F} {i : ℕ} (h : change? f x i = some z) :
    z.size = x.size := by
  obtain ⟨e, -, h⟩ := Option.bind_eq_some_iff.mp h
  obtain ⟨e', -, h⟩ := Option.bind_eq_some_iff.mp h
  obtain ⟨-, h⟩ := Option.ite_none_right_eq_some.mp h
  rw [← Option.some.inj h, Array.size_setIfInBounds]

/-- A loop that has changed some of the entries left the others as they were. -/
theorem foldlM_change? {f : ℕ → F → Option F} {h : ℕ → F → F} {n k : ℕ} (hk : k ≤ n)
    (hf : ∀ i < k, ∀ e, f i e = some (h i e)) (v : ℕ → F) :
    (List.range k).foldlM (fun x i => change? (f i) x i) (tabulate n v) =
      some (tabulate n fun i => if i < k then h i (v i) else v i) := by
  induction k with
  | zero => simp
  | succ k ih =>
    have hlt : k < n := hk
    rw [foldlM_range_succ, ih (Nat.le_of_lt hlt) fun i hi => hf i (Nat.lt_succ_of_lt hi),
      Option.bind_some, change?_tabulate hlt (hf k (Nat.lt_succ_self k) _)]
    refine congrArg some (tabulate_congr fun i _ => ?_)
    rw [Function.update_apply, if_neg (lt_irrefl k)]
    rcases lt_trichotomy i k with hi | rfl | hi
    · rw [if_neg (Nat.ne_of_lt hi), if_pos hi, if_pos (Nat.lt_succ_of_lt hi)]
    · rw [if_pos rfl, if_pos (Nat.lt_succ_self i)]
    · rw [if_neg (Nat.ne_of_gt hi), if_neg (by omega), if_neg (by omega)]

/-- Change the entries of a column from the first to the last. -/
def sweep? (f : ℕ → F → Option F) (x : Column F) : Option (Column F) :=
  (List.range x.size).foldlM (fun x i => change? (f i) x i) x

theorem entrywise_sweep? {f : ℕ → F → Option F} {h : ℕ → F → F} {n : ℕ}
    (hf : ∀ i < n, ∀ e, f i e = some (h i e)) : Entrywise (sweep? f) n h := by
  intro v
  rw [sweep?, size_tabulate, foldlM_change? le_rfl hf]
  exact congrArg some (tabulate_congr fun i hi => if_pos hi)

/-! ## Stretches -/

/-- The stretch of all entries of a column. -/
def whole (x : Column F) : Stretch := ⟨0, x.size⟩

/-- Let a function loose on a stretch of a column. -/
def onStretch? (f : Column F → Option (Column F)) (g : Stretch) (x : Column F) :
    Option (Column F) :=
  (f (x.on g)).map fun z => x.extract 0 g.start ++ z ++ x.extract g.stop

/-- On a stretch of a column a function changes the entries of the stretch. -/
theorem Entrywise.onStretch? {f : Column F → Option (Column F)} {length : ℕ} {h : ℕ → F → F}
    (hf : Entrywise f length h) (start : ℕ) {n : ℕ} (hn : start + length ≤ n) :
    Entrywise (onStretch? f ⟨start, length⟩) n (Stretch.along ⟨start, length⟩ h) := by
  intro v
  have hon : (tabulate n v).on ⟨start, length⟩ = tabulate length fun i => v (start + i) := by
    refine tabulate_congr fun i hi => ?_
    have hlt : start + i < n := (Nat.add_lt_add_left hi start).trans_le hn
    exact (coord_tabulate _ _ _).trans (if_pos hlt)
  let z := tabulate length fun i => h i (v (start + i))
  have hz : z.size = length := size_tabulate _ _
  have hle : start + z.size ≤ (tabulate n v).size := by rwa [hz, size_tabulate]
  have hwritten : Checked.onStretch? f ⟨start, length⟩ (tabulate n v) =
      some ((tabulate n v).extract 0 start ++ z ++ (tabulate n v).extract (start + z.size)) := by
    rw [Checked.onStretch?, hon, hf, hz]
    rfl
  rw [hwritten]
  refine congrArg some (ext_coord ?_ fun i hi => ?_)
  · simp
    omega
  have hlt : i < n := by
    simp at hi
    omega
  rw [coord_overwrite hle, hz, coord_tabulate, coord_tabulate, coord_tabulate, if_pos hlt,
    if_pos hlt, Stretch.along_mk]
  split
  next hin => rw [if_pos (by omega), Nat.add_sub_cancel' hin.1]
  next => rfl

/-- There is nothing to put on a stretch if the function has no result on it. -/
theorem onStretch?_eq_none {f : Column F → Option (Column F)} {g : Stretch} {x : Column F}
    (h : f (x.on g) = none) : onStretch? f g x = none := by
  rw [onStretch?, h, Option.map_none]

/-- Split a stretch in parts of some lengths, if it is long enough. -/
def split? : Stretch → List ℕ → Option (List Stretch)
  | _, [] => some []
  | g, k :: ks => do
    let (part, rest) ← cut? g k
    let parts ← split? rest ks
    some (part :: parts)

theorem split?_eq (start size : ℕ) (ks : List ℕ) :
    split? ⟨start, size⟩ ks =
      if ks.sum ≤ size then some (Stretch.consecutive start ks) else none := by
  induction ks generalizing start size with
  | nil => simp [split?, Stretch.consecutive]
  | cons k ks ih =>
    rw [split?, List.sum_cons]
    rcases lt_or_ge size k with hk | hk
    · rw [cut?_eq_none hk, if_neg (by omega)]
      rfl
    · rw [cut?_eq_some hk, Option.bind_eq_bind, Option.bind_some]
      dsimp only
      rw [ih]
      rcases lt_or_ge (size - k) ks.sum with hks | hks
      · rw [if_neg (by omega), if_neg (by omega)]
        rfl
      · rw [if_pos hks, if_pos (by omega)]
        rfl

/-! ## Vector functions -/

/-- Multiply every entry of a column. -/
def scale? (b : F) : Column F → Option (Column F) :=
  sweep? fun _ e => some (b * e)

/-- Add a multiple of a column to another of its length. -/
def addScaled? (a : F) (x y : Column F) : Option (Column F) :=
  if x.size = y.size then sweep? (fun i e => (x[i]?).map fun e' => e + a * e') y else none

/-- Add a number to every entry of a column. -/
def addToAll? (s : F) : Column F → Option (Column F) :=
  sweep? fun _ e => some (e + s)

/-- Add a number to the first entry of a column. -/
def addToFirst? (s : F) (x : Column F) : Option (Column F) :=
  change? (fun e => some (e + s)) x 0

section Vectors

variable (n : ℕ) (a b s : F)

theorem entrywise_scale? : Entrywise (scale? b) n fun _ e => b * e :=
  entrywise_sweep? fun _ _ _ => rfl

theorem entrywise_addScaled? {x : Column F} (hx : x.size = n) :
    Entrywise (addScaled? a x) n fun i e => e + a * x.coord i := by
  intro v
  rw [addScaled?, size_tabulate, if_pos hx]
  have hentry : ∀ i < n, ∀ e, ((x[i]?).map fun e' => e + a * e') = some (e + a * x.coord i) := by
    intro i hi e
    rw [getElem?_eq_some (hi.trans_eq hx.symm), Option.map_some]
  exact entrywise_sweep? hentry v

theorem addScaled?_eq_none {x y : Column F} (h : x.size ≠ y.size) : addScaled? a x y = none :=
  if_neg h

theorem entrywise_addToAll? : Entrywise (addToAll? s) n fun _ e => e + s :=
  entrywise_sweep? fun _ _ _ => rfl

theorem entrywise_addToFirst? {n : ℕ} (hn : 0 < n) :
    Entrywise (addToFirst? s) n fun i e => if i = 0 then e + s else e := by
  intro v
  rw [addToFirst?, @change?_tabulate F _ _ (· + s) n 0 hn v rfl]
  refine congrArg some (tabulate_congr fun i _ => ?_)
  by_cases hi : i = 0 <;> simp [hi]

end Vectors

/-! ## Matrices by their cells -/

/-- Overwrite `y` by `a * M * x + b * y` for the matrix `M` of some cells. Without a cell it
becomes `b * y`. -/
def mulAddBy? (rows cols : ℕ) (cell? : ℕ → ℕ → Option F) (a : F) (x : Column F) (b : F)
    (y : Column F) : Option (Column F) :=
  if x.size = cols ∧ y.size = rows then
    if rows = 0 ∨ cols = 0 then scale? b y
    else
      sweep? (fun r e => do
        let product ← sumFrom? 0 cols fun c => do
          let cell ← cell? r c
          let entry ← x[c]?
          some (cell * entry)
        some (a * product + b * e)) y
  else none

/-- Add to every entry the absolute values of the cells in its row. -/
def addAbsBy? (rows cols : ℕ) (cell? : ℕ → ℕ → Option F) (y : Column F) : Option (Column F) :=
  if y.size = rows then
    sweep? (fun r e => do
      let total ← sumFrom? 0 cols fun c => (cell? r c).map Scalar.abs
      some (total + e)) y
  else none

theorem mulAddBy?_eq_none {rows cols : ℕ} {cell? : ℕ → ℕ → Option F} {a b : F} {x y : Column F}
    (h : ¬ (x.size = cols ∧ y.size = rows)) : mulAddBy? rows cols cell? a x b y = none :=
  if_neg h

theorem addAbsBy?_eq_none {rows cols : ℕ} {cell? : ℕ → ℕ → Option F} {y : Column F}
    (h : y.size ≠ rows) : addAbsBy? rows cols cell? y = none :=
  if_neg h

section Cells

variable {rows cols : ℕ} {cell? : ℕ → ℕ → Option F} {cell : ℕ → ℕ → F}
  (hcell : ∀ r < rows, ∀ c < cols, cell? r c = some (cell r c))

include hcell

theorem entrywise_mulAddBy? (hrows : 0 < rows) (hcols : 0 < cols) (a : F) {x : Column F}
    (hx : x.size = cols) (b : F) :
    Entrywise (mulAddBy? rows cols cell? a x b) rows fun r e =>
      a * (sumTo cols fun c => cell r c * x.coord c) + b * e := by
  intro v
  have hzero : ¬ (rows = 0 ∨ cols = 0) := by omega
  rw [mulAddBy?, if_pos ⟨hx, size_tabulate _ _⟩, if_neg hzero]
  refine entrywise_sweep? (h := fun r e => a * (sumTo cols fun c => cell r c * x.coord c) + b * e)
    (fun r hr e => ?_) v
  have hsum : (sumFrom? 0 cols fun c => do
      let cell ← cell? r c
      let entry ← x[c]?
      some (cell * entry)) = some (sumTo cols fun c => cell r c * x.coord c) := by
    refine sumFrom?_eq_some (fun c hc => ?_) 0
    rw [hcell r hr c hc, getElem?_eq_some (hc.trans_eq hx.symm)]
    rfl
  rw [hsum]
  rfl

theorem entrywise_addAbsBy? :
    Entrywise (addAbsBy? rows cols cell?) rows fun r e =>
      (sumTo cols fun c => Scalar.abs (cell r c)) + e := by
  intro v
  rw [addAbsBy?, if_pos (size_tabulate _ _)]
  refine entrywise_sweep? (h := fun r e => (sumTo cols fun c => Scalar.abs (cell r c)) + e)
    (fun r hr e => ?_) v
  have hsum : (sumFrom? 0 cols fun c => (cell? r c).map Scalar.abs) =
      some (sumTo cols fun c => Scalar.abs (cell r c)) := by
    refine sumFrom?_eq_some (fun c hc => ?_) 0
    rw [hcell r hr c hc, Option.map_some]
  rw [hsum]
  rfl

end Cells

end Checked

/-! ## Rectangular matrices -/

namespace RectMatrix

open Checked

/-- Overwrite `y` by `a * M * x + b * y`, for columns of the sides of the matrix. -/
def mulAdd? (m : RectMatrix F) : F → Column F → F → Column F → Option (Column F) :=
  mulAddBy? m.rows m.cols m.cell?

/-- Overwrite `y` by `a * Mᵀ * x + b * y`, for columns of the sides of the matrix. -/
def transMulAdd? (m : RectMatrix F) : F → Column F → F → Column F → Option (Column F) :=
  mulAddBy? m.cols m.rows fun c r => m.cell? r c

/-- Add to every entry the absolute values in its row. -/
def addAbsRows? (m : RectMatrix F) : Column F → Option (Column F) :=
  addAbsBy? m.rows m.cols m.cell?

/-- Add to every entry the absolute values in its column. -/
def addAbsCols? (m : RectMatrix F) : Column F → Option (Column F) :=
  addAbsBy? m.cols m.rows fun c r => m.cell? r c

section Products

variable {m : RectMatrix F} {rows cols : ℕ} (hrows : m.rows = rows) (hcols : m.cols = cols)
  (hr : 0 < rows) (hc : 0 < cols) (a : F) {x : Column F} (b : F)

include hrows hcols hr hc

theorem entrywise_mulAdd? (hx : x.size = cols) :
    Entrywise (m.mulAdd? a x b) rows fun r e => a * m.rowDot r x 0 + b * e := by
  subst hrows hcols
  refine (entrywise_mulAddBy? (fun r hr c hc => cell?_eq_some hr hc) hr hc a hx b).congr ?_
  intro r _ e
  simp only [rowDot, Nat.zero_add]

theorem entrywise_transMulAdd? (hx : x.size = rows) :
    Entrywise (m.transMulAdd? a x b) cols fun c e => a * m.colDot c x 0 + b * e := by
  subst hrows hcols
  refine (entrywise_mulAddBy? (fun c hc r hr => cell?_eq_some hr hc) hc hr a hx b).congr ?_
  intro c _ e
  simp only [colDot, Nat.zero_add]

end Products

section Stretches

variable (m : RectMatrix F) (i : ℕ) (x : Column F) {start length : ℕ}

theorem rowDot_on (h : m.cols ≤ length) :
    m.rowDot i (x.on ⟨start, length⟩) 0 = m.rowDot i x start := by
  refine sumFrom_congr (fun c hc => ?_) 0
  rw [Nat.zero_add, Column.coord_on x (hc.trans_le h)]

theorem colDot_on (h : m.rows ≤ length) :
    m.colDot i (x.on ⟨start, length⟩) 0 = m.colDot i x start := by
  refine sumFrom_congr (fun r hr => ?_) 0
  rw [Nat.zero_add, Column.coord_on x (hr.trans_le h)]

end Stretches

section Sums

variable (hadd : ∀ a b : F, a + b = b + a) (m : RectMatrix F)

include hadd

theorem entrywise_addAbsRows? {n : ℕ} (h : m.rows = n) :
    Entrywise m.addAbsRows? n (BlockBody.rect m).addAbsRow := by
  subst h
  exact (entrywise_addAbsBy? fun _ hr _ hc => cell?_eq_some hr hc).congr fun _ _ _ => hadd _ _

theorem entrywise_addAbsCols? {n : ℕ} (h : m.cols = n) :
    Entrywise m.addAbsCols? n (BlockBody.rect m).addAbsCol := by
  subst h
  exact (entrywise_addAbsBy? fun _ hc _ hr => cell?_eq_some hr hc).congr fun _ _ _ => hadd _ _

end Sums

end RectMatrix

/-! ## Symmetric matrices -/

namespace SymMatrix

open Checked

/-- Overwrite `y` by `a * M * x + b * y`, for columns of the order of the matrix. -/
def mulAdd? (m : SymMatrix F) : F → Column F → F → Column F → Option (Column F) :=
  mulAddBy? m.order m.order m.cell?

/-- Read a column of the stored triangle: in full for the entry of its diagonal cell, and
cell by cell for the entries above that. -/
def addAbsColumn? (m : SymMatrix F) (y : Column F) (k : ℕ) : Option (Column F) := do
  let y ← change? (fun e => do
    let total ← sumFrom? 0 (k + 1) fun i => (m.cell? i k).map Scalar.abs
    some (total + e)) y k
  (List.range k).foldlM
    (fun y i => change? (fun e => (m.cell? i k).map fun c => e + Scalar.abs c) y i) y

/-- Add to every entry the absolute values in its row, which is also its column. -/
def addAbs? (m : SymMatrix F) (y : Column F) : Option (Column F) :=
  if y.size = m.order then (List.range m.order).foldlM m.addAbsColumn? y else none

theorem entrywise_mulAdd? {m : SymMatrix F} {n : ℕ} (horder : m.order = n) (hn : 0 < n) (a : F)
    {x : Column F} (hx : x.size = n) (b : F) :
    Entrywise (m.mulAdd? a x b) n fun r e => a * m.rowDot r x 0 + b * e := by
  subst horder
  refine (entrywise_mulAddBy? (fun r hr c hc => cell?_eq_some hr hc) hn hn a hx b).congr ?_
  intro r _ e
  simp only [rowDot, Nat.zero_add]

theorem rowDot_on (m : SymMatrix F) (i : ℕ) (x : Column F) {start length : ℕ}
    (h : m.order ≤ length) : m.rowDot i (x.on ⟨start, length⟩) 0 = m.rowDot i x start := by
  refine sumFrom_congr (fun c hc => ?_) 0
  rw [Nat.zero_add, Column.coord_on x (hc.trans_le h)]

section Sums

variable (hadd : ∀ a b : F, a + b = b + a) (m : SymMatrix F) {k j : ℕ} (e : F)

/-- What an entry has become after some columns of the triangle. -/
def absAfter (k j : ℕ) (e : F) : F :=
  if j < k then
    sumFrom (e + sumTo (j + 1) fun i => Scalar.abs (m.upper i j)) (k - (j + 1)) fun i =>
      Scalar.abs (m.upper j (j + 1 + i))
  else e

theorem absAfter_of_le (h : k ≤ j) : m.absAfter k j e = e :=
  if_neg (not_lt.mpr h)

/-- The column of an entry adds what stands above the diagonal cell, and that cell. -/
theorem absAfter_succ_self (k : ℕ) :
    m.absAfter (k + 1) k e = e + sumTo (k + 1) fun i => Scalar.abs (m.upper i k) := by
  rw [absAfter, if_pos (Nat.lt_succ_self k), Nat.sub_self, sumFrom_zero]

/-- A column behind that of an entry adds the cell in its row. -/
theorem absAfter_succ (h : j < k) :
    m.absAfter (k + 1) j e = m.absAfter k j e + Scalar.abs (m.upper j k) := by
  have hcount : k + 1 - (j + 1) = k - (j + 1) + 1 := by omega
  have hlast : j + 1 + (k - (j + 1)) = k := by omega
  rw [absAfter, absAfter, if_pos (Nat.lt_succ_of_lt h), if_pos h, hcount, sumFrom_succ, hlast]

include hadd

/-- A column of the triangle takes the entries one column further. -/
theorem addAbsColumn?_eq (hk : k < m.order) (v : ℕ → F) :
    m.addAbsColumn? (Column.tabulate m.order fun j => m.absAfter k j (v j)) k =
      some (Column.tabulate m.order fun j => m.absAfter (k + 1) j (v j)) := by
  have hcell : ∀ i ≤ k, m.cell? i k = some (m.upper i k) := by
    intro i hi
    rw [cell?_eq_some (hi.trans_lt hk) hk, entry, if_pos hi]
  have hsum : (sumFrom? 0 (k + 1) fun i => (m.cell? i k).map Scalar.abs) =
      some (sumTo (k + 1) fun i => Scalar.abs (m.upper i k)) := by
    refine sumFrom?_eq_some (fun i hi => ?_) 0
    rw [hcell i (Nat.le_of_lt_succ hi), Option.map_some]
  have hdiagonal := @change?_tabulate F _
    (fun e => do
      let total ← sumFrom? 0 (k + 1) fun i => (m.cell? i k).map Scalar.abs
      some (total + e))
    (fun e => e + sumTo (k + 1) fun i => Scalar.abs (m.upper i k)) m.order k hk
    (fun j => m.absAfter k j (v j)) (by rw [hsum, hadd]; rfl)
  have habove := fun w => @foldlM_change? F _
    (fun i e => (m.cell? i k).map fun c => e + Scalar.abs c)
    (fun i e => e + Scalar.abs (m.upper i k)) m.order k hk.le
    (fun i hi e => by rw [hcell i hi.le, Option.map_some]) w
  unfold addAbsColumn?
  rw [hdiagonal, Option.bind_eq_bind, Option.bind_some, habove]
  refine congrArg some (Column.tabulate_congr fun j hj => ?_)
  rw [Function.update_apply]
  rcases lt_trichotomy j k with hlt | rfl | hgt
  · rw [if_pos hlt, if_neg hlt.ne, m.absAfter_succ _ hlt]
  · rw [if_neg (lt_irrefl j), if_pos rfl, m.absAfter_of_le _ le_rfl, m.absAfter_succ_self]
  · rw [if_neg hgt.not_gt, if_neg hgt.ne', m.absAfter_of_le _ hgt.le, m.absAfter_of_le _ hgt]

theorem entrywise_addAbs? {n : ℕ} (horder : m.order = n) :
    Entrywise m.addAbs? n (BlockBody.sym m).addAbsRow := by
  subst horder
  intro v
  have hloop : ∀ k ≤ m.order, (List.range k).foldlM m.addAbsColumn? (Column.tabulate m.order v) =
      some (Column.tabulate m.order fun j => m.absAfter k j (v j)) := by
    intro k hk
    induction k with
    | zero => rfl
    | succ k ih =>
      rw [foldlM_range_succ, ih (Nat.le_of_succ_le hk), Option.bind_some]
      exact m.addAbsColumn?_eq hadd hk v
  rw [addAbs?, if_pos (Column.size_tabulate _ _), hloop _ le_rfl]
  exact congrArg some (Column.tabulate_congr fun j hj => if_pos hj)

end Sums

end SymMatrix

end Rebalancing
