-- SUMMARY: Magnitudes of the inputs within which the program of a period is finite on machine floats, and accepted inputs beyond them.
import Mathlib
import Rebalancing.Proofs.FirstFault
import Rebalancing.Proofs.TradeProgram.FiniteData

/-!
# Magnitudes

Every step from the inputs to the program has a budget: a sum of two covariances, a
doubled risk aversion, products along the eigenvectors, a row of the root times the
allocation, and an exponential of a mean of logarithms. Budgets are powers of two. A
product adds exponents and a sum of many adds that of their number, so the program is
finite as long as the exponents of the inputs add up to less than the greatest one.
-/

namespace Rebalancing

open RoundedScalar

section Parts

variable {F : Type} [Scalar F] [RoundedScalar F]

/-! ## Symmetric part -/

/-- The symmetric part adds opposite cells before it halves them. -/
theorem Covariance.allFinite_symmetrize {s : Covariance F} {n : ℕ} (hs : s.size = (n, n))
    (hcells : ∀ e ∈ s.cells, AtMost (2 ^ 1022) e) : s.symmetrize.AllFinite := by
  have hentry := (forall_mem_cells_iff hs _).mp hcells
  intro i j hij hj
  rw [order_symmetrize hs] at hj
  have hi : i < n := by omega
  cases s with
  | packed m =>
    have hcell := hentry i hi j hj
    rw [entry, SymMatrix.entry, if_pos hij] at hcell
    exact hcell.isFinite
  | full m =>
    have hrows : m.rows = n := congrArg Prod.fst hs
    have hbound : IsBound F (2 ^ 1022 + 2 ^ 1022) := by
      rw [← two_mul, ← pow_succ']
      exact isBound_two_pow le_rfl
    have hsum := (hentry i hi j hj).add_atMost (hentry j hj i hi) hbound
    rw [symmetrize, SymMatrix.upper_ofFn _ hij (hrows ▸ hj)]
    exact (hsum.mul atMost_half (by rwa [mul_one])).isFinite

/-! ## Roots -/

namespace Spectrum

variable {s : Spectrum F} {f : F → Option F} {i j a b : ℕ}

/-- An eigenvalue adds its product to a rebuilt cell, unless it is refused. -/
theorem atMost_step {root : Option F} {acc u v : F} {c d : ℝ} (hacc : AtMost c acc) (hd : 0 ≤ d)
    (hterm : ∀ e, root = some e → AtMost d (e * u * v)) (hsum : IsBound F (d + c)) :
    AtMost (d + c) (match root with
      | some e => e * u * v + acc
      | none => acc) := by
  cases root with
  | none => exact hacc.mono (by linarith) (by linarith)
  | some e => exact (hterm e rfl).add_atMost hacc hsum

theorem atMost_rebuild (hij : i ≤ j) (hj : j < s.turned.order)
    (hterm : ∀ k < s.turned.order, ∀ e, f (s.turned.entry k k) = some e →
      AtMost (2 ^ b) (e * s.basis.entry i k * s.basis.entry j k))
    (horder : s.turned.order ≤ 2 ^ a) (ha : a ≤ 53) (hab : a + b ≤ 1023) :
    AtMost (2 ^ (a + b)) ((s.rebuild f).upper i j) := by
  have hvalues : s.values.size = s.turned.order := Column.size_tabulate _ _
  have hchanged : ∀ k < s.turned.order,
      (s.values.map f).getD k none = f (s.turned.entry k k) := by
    intro k hk
    simp [Array.getD, hk, values, Column.tabulate_eq_ofFn]
  -- By induction on the number of eigenvalues: each adds at most one more step.
  have hfold : ∀ n ≤ s.turned.order, AtMost (n * 2 ^ b) (n.fold (fun k _ acc =>
      match (s.values.map f).getD k none with
      | some e => e * s.basis.entry i k * s.basis.entry j k + acc
      | none => acc) (0 : F)) := by
    intro n hn
    induction n with
    | zero => exact exactly_zero.mono (by simp) (by simp)
    | succ n ih =>
      have hsum : IsBound F ((n + 1 : ℕ) * 2 ^ b) := isBound_mul_two_pow (hn.trans horder) ha hab
      rw [Nat.cast_succ, add_one_mul, add_comm] at hsum ⊢
      rw [Nat.fold_succ, hchanged n hn]
      exact atMost_step (ih (by omega)) (by positivity) (hterm n hn) hsum
  have hle := cast_mul_two_pow_le b horder
  rw [rebuild, SymMatrix.upper_ofFn _ hij hj, Array.size_map, hvalues]
  exact (hfold _ le_rfl).mono (neg_le_neg hle) hle

end Spectrum

/-- The size of the eigenvalues, by the exponent of their roots, and of the eigenvectors. These
are of length one but for rounding. -/
structure Spectrum.Within (s : Spectrum F) (e : ℕ) : Prop where
  values : ∀ k < s.turned.order, AtMost (2 ^ (2 * e)) (s.turned.entry k k)
  basis : ∀ r < s.turned.order, ∀ k < s.turned.order, AtMost 2 (s.basis.entry r k)

/-- A spectrum found without a rotation has the eigenvalues on the diagonal. -/
theorem Spectrum.within_start {m : SymMatrix F} {e : ℕ}
    (h : ∀ k < m.order, AtMost (2 ^ (2 * e)) (m.entry k k)) : (start m).Within e := by
  refine ⟨h, fun r hr k hk => ?_⟩
  have hcell : (start m).basis.entry r k = if r = k then 1 else 0 :=
    RectMatrix.entry_ofFn _ hr hk
  rw [hcell]
  split
  · exact exactly_one.mono (by norm_num) (by norm_num)
  · exact exactly_zero.mono (by norm_num) (by norm_num)

namespace SymMatrix

variable {m : SymMatrix F} {eps : F} {i j s e : ℕ}

omit [RoundedScalar F] in
theorem upper_scale (a : F) (hij : i ≤ j) (hj : j < m.order) :
    (m.scale a).upper i j = a * m.upper i j :=
  upper_ofFn _ hij hj

theorem atMost_sqrt (h : (Spectrum.ofMatrix m eps).Within e) (hij : i ≤ j) (hj : j < m.order)
    (horder : m.order ≤ 2 ^ s) (hs : s ≤ 53) (hse : s + (e + 2) ≤ 1023) :
    AtMost (2 ^ (s + (e + 2))) ((m.sqrt eps).upper i j) := by
  have hsame : (Spectrum.ofMatrix m eps).turned.order = m.order := Spectrum.order_ofMatrix m eps
  obtain ⟨hvalues, hbasis⟩ := h
  rw [hsame] at hvalues hbasis
  refine Spectrum.atMost_rebuild hij (hsame ▸ hj) (fun k hk root hroot => ?_) (hsame ▸ horder) hs
    hse
  rw [hsame] at hk
  obtain ⟨hpos, hroot⟩ := Option.ite_none_right_eq_some.mp hroot
  obtain rfl := Option.some.inj hroot
  have hvalue := hvalues k hk
  rw [pow_mul'] at hvalue
  have hpos : 0 < value ((Spectrum.ofMatrix m eps).turned.entry k k) :=
    (zero_lt_iff hvalue.isFinite).mp hpos
  have hroot := Between.sqrt ⟨hvalue.isFinite, hpos.le, hvalue.le⟩ (isBound_two_pow (by omega))
    (by positivity)
  have hroot : AtMost (2 ^ e) (Scalar.sqrt _) :=
    hroot.mono (neg_nonpos.mpr (by positivity)) le_rfl
  have hleft := hbasis i (by omega) k hk
  have hright := hbasis j hj k hk
  rw [← pow_one (2 : ℝ)] at hleft hright
  exact (hroot.mul_two_pow hleft (by omega)).mul_two_pow hright (by omega)

end SymMatrix

/-! ## Means of logarithms -/

/-- Logarithms and exponentials that stay in the range of the exact ones, with some room, on
what growth proxies can be. -/
structure LogRange (F : Type) [Scalar F] [RoundedScalar F] : Prop where
  log {x : F} : Scalar.isFinite x = true → 0 < value x → value x ≤ 2 ^ 1000 →
    Between (-1024) 704 (Scalar.log x)
  exp {x : F} : Scalar.isFinite x = true → value x ≤ 704 →
    AtLeast 0 (Scalar.exp x)

theorem Column.atLeast_geometricMean (hrange : LogRange F) {v : Column F} (hpos : 0 < v.size)
    (hsize : v.size ≤ 2 ^ 49)
    (hv : ∀ e ∈ v, Scalar.isFinite e = true ∧ 0 < value e ∧ value e ≤ 2 ^ 1000) :
    AtLeast 0 v.geometricMean := by
  rw [Column.forall_mem_iff v fun e => Scalar.isFinite e = true ∧ 0 < value e ∧ value e ≤ 2 ^ 1000]
    at hv
  have hlog : ∀ i < v.size, Between (-1024) 704 (Scalar.log (v.coord i)) := by
    intro i hi
    obtain ⟨hfinite, hgrows, hle⟩ := hv i hi
    exact hrange.log hfinite hgrows hle
  have hlow : ∀ i ≤ v.size, IsBound F (i * -1024) := by
    intro i hi
    have hbound := isBound_count (F := F) (c := i) (j := 10) (by omega) (by omega)
    rw [mul_neg]
    norm_num at hbound ⊢
    exact hbound.neg
  have hhigh : ∀ i ≤ v.size, IsBound F (i * 704) := by
    intro i hi
    have hbound := isBound_count (F := F) (c := i * 11) (j := 6) (by omega) (by omega)
    rw [Nat.cast_mul, mul_assoc] at hbound
    norm_num at hbound
    exact hbound
  have hone : 1 ≤ v.size := hpos
  have hmean := (between_sumTo hlog hlow hhigh).div_count hpos (by omega)
    (by simpa using hlow 1 hone) (by simpa using hhigh 1 hone)
  rw [geometricMean, if_neg (by simpa using Array.ne_empty_of_size_pos hpos)]
  exact hrange.exp hmean.isFinite hmean.le

namespace GrowthTree

variable {t : GrowthTree F}

/-- The last constant is the value at the root less the floor. -/
theorem isFinite_constant (hgrowth : ∀ e ∈ t.growth, AtLeast 0 e) (hfloor : AtLeast 0 t.floor) :
    Scalar.isFinite (t.constant (3 * t.inner)) = true := by
  have hzero : AtLeast 0 (0 : F) := ⟨isFinite_zero, value_zero.ge⟩
  have hroot : AtLeast 0 (t.nodeConstant 0) := by
    unfold nodeConstant
    cases hnode : t.node 0 with
    | inner k => exact hzero
    | asset i =>
      rcases lt_or_ge i t.growth.size with hi | hi
      · exact (Column.forall_mem_iff _ (AtLeast 0)).mp hgrowth i hi
      · simp only [Column.coord_of_size_le hi]
        exact hzero
    | padding => exact hfloor
  rw [constant, if_neg (lt_irrefl _)]
  exact isFinite_sub hroot hfloor

end GrowthTree

/-! ## Validated inputs -/

namespace Inputs

/-- The magnitudes of inputs by exponents of two: of the number of assets, of the roots of the
eigenvalues, of the root of the risk aversion, and of the allocation. -/
structure Moderate (inp : Inputs F) (epsZero : F) (s e k z : ℕ) : Prop where
  assets_le : inp.assets ≤ 2 ^ s
  spectrum : (Spectrum.ofMatrix inp.covariance.symmetrize epsZero).Within e
  riskAversion_le : value inp.riskAversion ≤ 2 ^ (2 * k)
  allocation : ∀ a ∈ inp.allocation, AtMost (2 ^ z) a
  growth_le : ∀ r ∈ inp.growth, value r ≤ 2 ^ 1000
  s_le : s ≤ 49
  k_le : k ≤ 511
  sum_le : 2 * s + e + k + z ≤ 1020

variable {inp : Inputs F} {par : Settings F} {n s e k z : ℕ} {epsZero : F}

omit [RoundedScalar F] in
theorem riskRoot_program (h : inp.Sized) {i j : ℕ} (hij : i ≤ j) (hj : j < inp.assets) :
    (inp.program SymMatrix.sqrt epsZero).riskRoot.upper i j =
      Scalar.sqrt (inp.riskAversion + inp.riskAversion) *
        (inp.covariance.symmetrize.sqrt epsZero).upper i j := by
  have horder := Covariance.order_symmetrize h.size_covariance
  exact SymMatrix.upper_scale _ hij (((SymMatrix.order_sqrt _ _).trans horder).symm ▸ hj)

section Signs

variable (hn : inp.validate par = .ok n)

include hn

theorem atLeast_riskAversion : AtLeast 0 inp.riskAversion := by
  have hfinite := (finiteData_of_validate hn).riskAversion
  have hsign := not_lt_zero_of_fault?_eq_none (validate_eq_ok_iff.mp hn).2
  rw [lt_zero_iff hfinite, not_lt] at hsign
  exact ⟨hfinite, hsign⟩

theorem growth_value_pos : ∀ r ∈ inp.growth, Scalar.isFinite r = true ∧ 0 < value r := by
  intro r hr
  have hfinite := (finiteData_of_validate hn).growth r hr
  have hsign := growth_not_le_zero_of_fault?_eq_none (validate_eq_ok_iff.mp hn).2 r hr
  rw [le_zero_iff hfinite, not_le] at hsign
  exact ⟨hfinite, hsign⟩

end Signs

namespace Moderate

variable (h : inp.Moderate epsZero s e k z) (hn : inp.validate par = .ok n)

include h hn

/-- The factor of the root. -/
theorem atMost_factor :
    AtMost (2 ^ (k + 1)) (Scalar.sqrt (inp.riskAversion + inp.riskAversion)) := by
  have hk := h.k_le
  have hnonneg := atLeast_riskAversion hn
  have hzero : IsBound F (0 + 0) := by
    rw [add_zero]
    exact isBound_zero
  have htwice : IsBound F (2 ^ (2 * k) + 2 ^ (2 * k)) := by
    rw [← two_mul, ← pow_succ']
    exact isBound_two_pow (by omega)
  have haversion : Between 0 (2 ^ (2 * k)) inp.riskAversion :=
    ⟨hnonneg.isFinite, hnonneg.ge, h.riskAversion_le⟩
  have hsum := haversion.add haversion hzero htwice
  have hsquare : (2 : ℝ) ^ (2 * k) + 2 ^ (2 * k) ≤ (2 ^ (k + 1)) ^ 2 :=
    calc (2 : ℝ) ^ (2 * k) + 2 ^ (2 * k) = 2 ^ (2 * k + 1) := by ring
      _ ≤ 2 ^ (2 * (k + 1)) := pow_le_pow_right₀ one_le_two (by omega)
      _ = (2 ^ (k + 1)) ^ 2 := pow_mul' ..
  have hroot := (hsum.mono (add_zero (0 : ℝ)).ge hsquare).sqrt (isBound_two_pow (by omega))
    (by positivity)
  exact hroot.mono (neg_nonpos.mpr (by positivity)) le_rfl

theorem atMost_riskRoot {r c : ℕ} (hr : r < inp.assets) (hc : c < inp.assets) :
    AtMost (2 ^ (s + e + k + 3)) ((inp.program SymMatrix.sqrt epsZero).riskRoot.entry r c) := by
  have hs := h.s_le
  have hsum := h.sum_le
  have hsized := (sized_of_validate hn).1
  have horder := Covariance.order_symmetrize hsized.size_covariance
  have hupper : ∀ i j, i ≤ j → j < inp.assets → AtMost (2 ^ (s + e + k + 3))
      ((inp.program SymMatrix.sqrt epsZero).riskRoot.upper i j) := by
    intro i j hij hj
    have hcell := SymMatrix.atMost_sqrt h.spectrum hij (horder ▸ hj) (horder ▸ h.assets_le)
      (by omega) (by omega)
    have hscaled := (h.atMost_factor hn).mul_two_pow hcell (by omega)
    have hexponent : k + 1 + (s + (e + 2)) = s + e + k + 3 := by omega
    rw [hexponent] at hscaled
    rw [riskRoot_program hsized hij hj]
    exact hscaled
  rw [SymMatrix.entry]
  split
  · exact hupper r c ‹_› hc
  · exact hupper c r (by omega) hr

theorem atMost_riskNow :
    ∀ a ∈ (inp.program SymMatrix.sqrt epsZero).riskNow,
      AtMost (2 ^ (2 * s + e + k + z + 3)) a := by
  have hs := h.s_le
  have hsum := h.sum_le
  have hsized := (sized_of_validate hn).1
  have hshape := hsized.sized_program epsZero
  have horder : (inp.program SymMatrix.sqrt epsZero).riskRoot.order = inp.assets :=
    hshape.order_riskRoot
  have hallocation := h.allocation
  rw [Column.forall_mem_iff, hsized.size_allocation] at hallocation
  rw [Column.forall_mem_iff, hshape.size_riskNow]
  intro r hr
  have hr : r < inp.assets := hr
  have hterm : ∀ c < inp.assets, AtMost (2 ^ (s + e + k + 3 + z))
      ((inp.program SymMatrix.sqrt epsZero).riskRoot.entry r c *
        inp.allocation.coord (0 + c)) := by
    intro c hc
    rw [Nat.zero_add]
    exact (h.atMost_riskRoot hn hr hc).mul_two_pow (hallocation c hc) (by omega)
  have hrow := atMost_sumTo hterm h.assets_le (by omega) (by omega)
  have hexponent : s + (s + e + k + 3 + z) = 2 * s + e + k + z + 3 := by omega
  have hread : (inp.program SymMatrix.sqrt epsZero).riskNow.coord r =
      (inp.program SymMatrix.sqrt epsZero).riskRoot.rowDot r inp.allocation 0 :=
    (Column.coord_tabulate _ _ r).trans (if_pos hr)
  rw [hread, SymMatrix.rowDot, horder, ← hexponent]
  exact hrow

theorem atLeast_floor (hrange : LogRange F) :
    AtLeast 0 (inp.program SymMatrix.sqrt epsZero).tree.floor := by
  have hsized := (sized_of_validate hn).1
  have hsize : inp.growth.size ≤ 2 ^ 49 :=
    hsized.size_growth ▸ h.assets_le.trans (Nat.pow_le_pow_right two_pos h.s_le)
  refine Column.atLeast_geometricMean hrange (hsized.size_growth ▸ hsized.assets_pos) hsize ?_
  intro r hr
  obtain ⟨hfinite, hpos⟩ := growth_value_pos hn r hr
  exact ⟨hfinite, hpos, h.growth_le r hr⟩

/-- Exponents that add up to less than the greatest one leave room for the whole program. -/
theorem allFinite_program (hrange : LogRange F) {p : TradeProgram F}
    (hp : p = inp.program SymMatrix.sqrt epsZero) :
    p.system.AllFinite ∧ p.rightHand.AllFinite := by
  subst hp
  obtain ⟨-, hsystem, hright⟩ := Inputs.allFinite_program hn epsZero rfl
  have horder := ((sized_of_validate hn).1.sized_program epsZero).order_riskRoot
  rw [hsystem, hright]
  refine ⟨fun i j hij hj => ?_, fun a ha => (h.atMost_riskNow hn a ha).isFinite, ?_⟩
  · rw [horder] at hj
    have hcell := h.atMost_riskRoot hn (lt_of_le_of_lt hij hj) hj
    rw [SymMatrix.entry, if_pos hij] at hcell
    exact hcell.isFinite
  · refine GrowthTree.isFinite_constant (fun r hr => ?_) (h.atLeast_floor hn hrange)
    obtain ⟨hfinite, hpos⟩ := growth_value_pos hn r hr
    exact ⟨hfinite, hpos.le⟩

end Moderate

/-- A risk aversion whose double is not finite shows in the system. -/
theorem exists_program_not_allFinite (hn : inp.validate par = .ok n) (epsZero : F)
    (h : Scalar.isFinite (Scalar.sqrt (inp.riskAversion + inp.riskAversion)) = false) :
    ∃ p, inp.program? SymMatrix.sqrt epsZero = some p ∧ ¬ p.conic.system.AllFinite := by
  have hsized := (sized_of_validate hn).1
  refine ⟨_, program?_eq_some _ _ hsized, fun hfinite => ?_⟩
  have hroot := (allFinite_program hn epsZero rfl).2.1.mp hfinite
  have hcell := hroot 0 0 le_rfl
    ((hsized.sized_program epsZero).order_riskRoot.symm ▸ hsized.assets_pos)
  rw [riskRoot_program hsized le_rfl hsized.assets_pos] at hcell
  exact Bool.false_ne_true (h.symm.trans (isFinite_of_mul hcell).1)

end Inputs

end Parts

/-! ## Machine floats -/

section MachineFloats

variable {el : Elementary}

/-- Inputs that pass validation have a program on machine floats. Its cost is finite, its
system is finite where the scaled root of the covariance is, and its right-hand side where the
product of that root with the allocation is and the last constant of the growth tree. The
symmetric part of a covariance does not overflow below half of the greatest power of two, and
nothing does for inputs of moderate magnitudes. -/
theorem exists_program_allFinite {inp : Inputs (MachineFloat.On el)}
    {par : Settings (MachineFloat.On el)} {n : ℕ} (hn : inp.validate par = .ok n)
    (epsZero : MachineFloat.On el) :
    ∃ p, inp.program? SymMatrix.sqrt epsZero = some p ∧
      p.conic.cost.AllFinite ∧
      (p.conic.system.AllFinite ↔ p.riskRoot.AllFinite) ∧
      (p.conic.rightHand.AllFinite ↔
        p.riskNow.AllFinite ∧ Scalar.isFinite (p.tree.constant (3 * p.tree.inner)) = true) ∧
      ((∀ e ∈ inp.covariance.cells, AtMost (2 ^ 1022) e) →
        inp.covariance.symmetrize.AllFinite) ∧
      ∀ s e k z, inp.Moderate epsZero s e k z → LogRange (MachineFloat.On el) →
        p.conic.system.AllFinite ∧ p.conic.rightHand.AllFinite := by
  have hsized := (Inputs.sized_of_validate hn).1
  obtain ⟨hcost, hsystem, hright⟩ := Inputs.allFinite_program hn epsZero rfl
  refine ⟨_, Inputs.program?_eq_some _ _ hsized, hcost, hsystem, hright, fun hcells => ?_,
    fun s e k z hmoderate hrange => hmoderate.allFinite_program hn hrange rfl⟩
  exact Covariance.allFinite_symmetrize hsized.size_covariance hcells

/-! ## Two assets -/

/-- Two assets without correlation. -/
def uncorrelatedTwo {F : Type} [Scalar F] (riskAversion : F) : Inputs F where
  returns := #[1, 1]
  covariance := .packed (.ofFn 2 fun i j => if i = j then 1 else 0)
  riskAversion
  coupling := 1
  allocation := #[1, 1]
  growth := #[1, 1]

theorem ofMatrix_uncorrelatedTwo (κ : MachineFloat.On el) :
    Spectrum.ofMatrix (uncorrelatedTwo κ).covariance.symmetrize
        (Settings.default (F := MachineFloat.On el)).solver.epsZero =
      Spectrum.start (uncorrelatedTwo κ).covariance.symmetrize := by
  have htol : ¬ (Settings.default (F := Float)).solver.epsZero *
      (Settings.default (F := Float)).solver.epsZero < 0 * 0 := by decide +kernel
  refine Spectrum.ofMatrix_of_not_isDue fun i j hij hj => ?_
  have hj : j < 2 := hj
  obtain ⟨rfl, rfl⟩ : i = 0 ∧ j = 1 := by omega
  rw [Spectrum.isDue, Bool.and_eq_false_imp]
  intro _
  exact decide_eq_false htol

theorem definiteFault_uncorrelatedTwo (κ : MachineFloat.On el) :
    Inputs.definiteFault? (Settings.default (F := MachineFloat.On el)).psdTol
      (Settings.default (F := MachineFloat.On el)).solver.epsZero
      (uncorrelatedTwo κ).covariance = none := by
  let values := (Spectrum.start (uncorrelatedTwo (1 : Float)).covariance.symmetrize).values
  have hleast : ¬ values.least?.getD Scalar.infinity <
      -(Settings.default (F := Float)).psdTol * Scalar.max 1 values.maxAbs := by decide +kernel
  rw [Inputs.definiteFault?, SymMatrix.spectralRange, ofMatrix_uncorrelatedTwo]
  exact if_neg hleast

variable (el) in
theorem validate_uncorrelatedTwo {κ : MachineFloat.On el} (hfinite : Scalar.isFinite κ = true)
    (hsign : ¬ κ < 0) : (uncorrelatedTwo κ).validate Settings.default = .ok 2 := by
  have hones : ∀ datum, Inputs.finiteFault? (F := MachineFloat.On el) datum #[1, 1] = none := by
    intro datum
    simp [Inputs.finiteFault?, isFinite_one]
  have haversion : Inputs.finiteFault? .riskAversion #[κ] = none := by
    simp [Inputs.finiteFault?, hfinite]
  have hcoupling : Inputs.finiteFault? (F := MachineFloat.On el) .coupling #[1] = none := by
    simp [Inputs.finiteFault?, isFinite_one]
  have hcells : Inputs.finiteFault? .covariance (uncorrelatedTwo κ).covariance.cells = none := by
    have hfloats : (uncorrelatedTwo (1 : Float)).covariance.cells.all Scalar.isFinite = true := by
      decide +kernel
    exact if_pos hfloats
  have hgrowth : Inputs.growthFault? (F := MachineFloat.On el) #[1, 1] = none := by
    have hfloats : Inputs.growthFault? (F := Float) #[1, 1] = none := by decide +kernel
    exact hfloats
  have hdefinite := definiteFault_uncorrelatedTwo κ
  refine Inputs.validate_eq_ok_iff.mpr ⟨rfl, ?_⟩
  rw [Inputs.fault?, hdefinite, hcells]
  simp [uncorrelatedTwo, Inputs.assets, Inputs.sizeFault?, Covariance.size, hones, haversion,
    hcoupling, hgrowth, hsign, Inputs.symmetryFault?]

/-- The values at one and at zero, everywhere. -/
def Elementary.steady : Elementary where
  log _ := 0
  exp _ := 1

theorem logRange_steady : LogRange (MachineFloat.On .steady) where
  log _ _ _ := exactly_zero.mono (by norm_num) (by norm_num)
  exp _ _ := ⟨isFinite_one, value_one.ge.trans' zero_le_one⟩

theorem moderate_uncorrelatedTwo : (uncorrelatedTwo (1 : MachineFloat.On el)).Moderate
    (Settings.default (F := MachineFloat.On el)).solver.epsZero 1 0 0 0 := by
  have hones : ∀ e ∈ (#[1, 1] : Column (MachineFloat.On el)), e = 1 := by simp
  refine ⟨le_rfl, ?_, ?_, fun a ha => ?_, fun r hr => ?_, by omega, by omega, by omega⟩
  · rw [ofMatrix_uncorrelatedTwo]
    refine Spectrum.within_start fun k hk => ?_
    have hk : k < 2 := hk
    rw [uncorrelatedTwo, Covariance.symmetrize, SymMatrix.entry_ofFn _ le_rfl hk, if_pos rfl]
    exact exactly_one.mono (by norm_num) (by norm_num)
  · exact (exactly_one (F := MachineFloat.On el)).value_eq.le.trans (by norm_num)
  · obtain rfl := hones a ha
    exact exactly_one.mono (by norm_num) (by norm_num)
  · obtain rfl := hones r hr
    exact (exactly_one (F := MachineFloat.On el)).value_eq.le.trans
      (one_le_pow₀ one_le_two)

/-- The program of two assets without correlation is finite. -/
theorem exists_program_allFinite_uncorrelatedTwo :
    (uncorrelatedTwo (1 : MachineFloat.On .steady)).validate Settings.default = .ok 2 ∧
      ∃ p, (uncorrelatedTwo (1 : MachineFloat.On .steady)).program? SymMatrix.sqrt
          (Settings.default (F := MachineFloat.On .steady)).solver.epsZero = some p ∧
        p.conic.cost.AllFinite ∧ p.conic.system.AllFinite ∧ p.conic.rightHand.AllFinite := by
  have hvalid : (uncorrelatedTwo (1 : MachineFloat.On .steady)).validate Settings.default = .ok 2 :=
    validate_uncorrelatedTwo .steady isFinite_one (by
      rw [lt_zero_iff isFinite_one, value_one]
      norm_num)
  obtain ⟨p, hp, hcost, -, -, -, hfinite⟩ := exists_program_allFinite hvalid
    (Settings.default (F := MachineFloat.On .steady)).solver.epsZero
  obtain ⟨hsystem, hright⟩ := hfinite 1 0 0 0 moderate_uncorrelatedTwo logRange_steady
  exact ⟨hvalid, p, hp, hcost, hsystem, hright⟩

/-- A risk aversion that is finite while its double is not. -/
def largeAversion : Float := Scalar.ofCount (10 ^ 308)

/-- Two assets without correlation are accepted with it, and their system is not finite. -/
theorem system_overflows_largeAversion :
    (uncorrelatedTwo largeAversion).validate Settings.default = .ok 2 ∧
      ∃ p, (uncorrelatedTwo largeAversion).program? SymMatrix.sqrt
          (Settings.default (F := Float)).solver.epsZero = some p ∧
        ¬ p.conic.system.AllFinite := by
  have hfinite : Scalar.isFinite largeAversion = true := by decide +kernel
  have hsign : ¬ largeAversion < 0 := by decide +kernel
  have hdouble : Scalar.isFinite (Scalar.sqrt (largeAversion + largeAversion)) = false := by
    decide +kernel
  have hvalid : (uncorrelatedTwo largeAversion).validate Settings.default = .ok 2 :=
    validate_uncorrelatedTwo ⟨Float.log, Float.exp⟩ hfinite hsign
  exact ⟨hvalid, Inputs.exists_program_not_allFinite hvalid _ hdouble⟩

end MachineFloats

end Rebalancing
