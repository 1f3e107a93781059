-- SUMMARY: What texts by name make of settings: every setting answers to its own name, and every text is reported once, in order.
import Mathlib
import Rebalancing.Override
import Rebalancing.Proofs.Text.Blank
import Rebalancing.Proofs.Text.Reader

/-!
# Overridden settings

The settings differ in their names and in which texts write a value of theirs.
Everything else is one step, the same for all of them: a setting without a text
keeps its value, and so does one whose text writes no value. What the whole
override does is read off that step.
-/

namespace Rebalancing

open Text

/-! ## Settings by name -/

/-- A setting that has a name. -/
inductive Setting where
  | maxIter
  | epsAcc
  | epsInf
  | epsZero
  | logPeriod
  | symTol
  | psdTol
  | epsClip

namespace Setting

/-- All of them, in the order in which they are overridden. -/
def all : List Setting :=
  [maxIter, epsAcc, epsInf, epsZero, logPeriod, symTol, psdTol, epsClip]

def name : Setting → String
  | maxIter => "MAX_ITER"
  | epsAcc => "EPS_ACC"
  | epsInf => "EPS_INF"
  | epsZero => "EPS_ZERO"
  | logPeriod => "LOG_PERIOD"
  | symTol => "SYM_TOL"
  | psdTol => "PSD_TOL"
  | epsClip => "EPS_CLIP"

abbrev Value : Setting → Type
  | maxIter => Option ℕ
  | logPeriod => ℕ
  | epsAcc | epsInf | epsZero | symTol | psdTol | epsClip => Float

def get (p : Settings Float) : (s : Setting) → s.Value
  | maxIter => p.solver.maxIter
  | epsAcc => p.solver.epsAcc
  | epsInf => p.solver.epsInf
  | epsZero => p.solver.epsZero
  | logPeriod => p.solver.logPeriod
  | symTol => p.symTol
  | psdTol => p.psdTol
  | epsClip => p.epsClip

def kind : (s : Setting) → SettingKind s.Value
  | maxIter => .limit
  | logPeriod => .count
  | epsAcc | epsInf | epsZero | symTol | psdTol | epsClip => .float

/-- The characters write a value of the setting. -/
def Writes : (s : Setting) → List Char → s.Value → Prop
  | maxIter => fun cs v => ∃ n, WritesCount cs n ∧ v = some n
  | logPeriod => WritesCount
  | epsAcc | epsInf | epsZero | symTol | psdTol | epsClip => WritesFloat

/-- The text writes a value of the setting, but for white space at its ends. -/
def Reads (s : Setting) (raw : String) (v : s.Value) : Prop :=
  ∃ t, Trimmed raw.toList t ∧ s.Writes t v

/-- What the text under its name makes of the value of a setting. -/
structure Becomes (s : Setting) (env : Environment) (before after : s.Value) : Prop where
  unset : env s.name = none → after = before
  read : ∀ raw v, env s.name = some raw → s.Reads raw v → after = v
  unread : ∀ raw, env s.name = some raw → (∀ v, ¬ s.Reads raw v) → after = before

/-- The event that reports the text of a setting. -/
structure ReportedBy (s : Setting) (raw : String) (e : OverrideEvent) : Prop where
  read : ∀ v, s.Reads raw v → e = .accepted s.name (s.kind.write v) ∧ e.level = .info
  unread : (∀ v, ¬ s.Reads raw v) → e = .ignored s.name raw ∧ e.level = .warn

end Setting

theorem Settings.ext_get {p q : Settings Float} (h : ∀ s, Setting.get p s = Setting.get q s) :
    p = q := by
  rcases p with ⟨⟨_, _, _, _, _⟩, _, _, _⟩
  rcases q with ⟨⟨_, _, _, _, _⟩, _, _, _⟩
  simp only [Settings.mk.injEq, SolverSettings.mk.injEq]
  exact ⟨⟨h .maxIter, h .epsAcc, h .epsInf, h .epsZero, h .logPeriod⟩, h .symTol, h .psdTol,
    h .epsClip⟩

/-! ## One setting -/

namespace SettingKind

variable {α : Type} (kind : SettingKind α) {env : Environment} {name raw : String} (before : α)

theorem override_of_unset (h : env name = none) :
    kind.override env name before = (before, []) := by
  rw [override, h]

theorem override_of_read (h : env name = some raw) {v : α}
    (hv : kind.read? (trim raw.toList) = some v) :
    kind.override env name before = (v, [.accepted name (kind.write v)]) := by
  rw [override, h]
  simp only [hv]

theorem override_of_unread (h : env name = some raw)
    (hv : kind.read? (trim raw.toList) = none) :
    kind.override env name before = (before, [.ignored name raw]) := by
  rw [override, h]
  simp only [hv]

variable (env name)

/-- A second override finds what the first one left. -/
theorem override_override :
    kind.override env name (kind.override env name before).1 = kind.override env name before := by
  cases h : env name with
  | none => rw [kind.override_of_unset before h, kind.override_of_unset before h]
  | some raw =>
    cases hv : kind.read? (trim raw.toList) with
    | none => rw [kind.override_of_unread before h hv, kind.override_of_unread before h hv]
    | some v => rw [kind.override_of_read _ h hv, kind.override_of_read _ h hv]

end SettingKind

namespace Setting

variable (s : Setting) (env : Environment)

theorem read?_eq_some_iff {cs : List Char} {v : s.Value} :
    s.kind.read? cs = some v ↔ s.Writes cs v := by
  cases s with
  | maxIter =>
    refine Option.map_eq_some_iff.trans (exists_congr fun n => ?_)
    rw [Reader.count?_eq_some_iff, eq_comm]
  | logPeriod => exact Reader.count?_eq_some_iff
  | epsAcc | epsInf | epsZero | symTol | psdTol | epsClip => exact Reader.float?_eq_some_iff

theorem reads_iff {raw : String} {v : s.Value} :
    s.Reads raw v ↔ s.kind.read? (trim raw.toList) = some v := by
  simp only [Reads, trimmed_iff, exists_eq_left, read?_eq_some_iff]

theorem not_reads_iff {raw : String} :
    (∀ v, ¬ s.Reads raw v) ↔ s.kind.read? (trim raw.toList) = none := by
  simp only [reads_iff, Option.eq_none_iff_forall_ne_some]

theorem becomes_override (before : s.Value) :
    s.Becomes env before (s.kind.override env s.name before).1 where
  unset h := by rw [s.kind.override_of_unset before h]
  read raw v h hv := by rw [s.kind.override_of_read before h (s.reads_iff.mp hv)]
  unread raw h hv := by rw [s.kind.override_of_unread before h (s.not_reads_iff.mp hv)]

theorem exists_reportedBy {raw : String} (h : env s.name = some raw) (before : s.Value) :
    ∃ e, (s.kind.override env s.name before).2 = [e] ∧ s.ReportedBy raw e := by
  cases hv : s.kind.read? (trim raw.toList) with
  | none =>
    rw [s.kind.override_of_unread before h hv]
    exact ⟨_, rfl, fun v hread => absurd hread (s.not_reads_iff.mpr hv v), fun _ => ⟨rfl, rfl⟩⟩
  | some v =>
    rw [s.kind.override_of_read before h hv]
    refine ⟨_, rfl, fun w hw => ?_, fun hnone => absurd (s.reads_iff.mpr hv) (hnone v)⟩
    obtain rfl : v = w := Option.some.inj (hv.symm.trans (s.reads_iff.mp hw))
    exact ⟨rfl, rfl⟩

/-! ## All settings -/

variable (p : Settings Float)

theorem get_override :
    get (p.override env).1 s = (s.kind.override env s.name (get p s)).1 := by
  cases s <;> dsimp only [Settings.override, get, kind, name]

theorem log_override :
    (p.override env).2 = all.flatMap fun s => (s.kind.override env s.name (get p s)).2 := by
  simp only [Settings.override, all, List.flatMap_cons, List.flatMap_nil, List.append_nil,
    List.append_assoc, get, kind, name]

theorem override_get_override :
    s.kind.override env s.name (get (p.override env).1 s) =
      s.kind.override env s.name (get p s) := by
  rw [get_override, SettingKind.override_override]

/-- Of some settings, those that have a text are reported one by one. -/
theorem forall₂_reportedBy (ss : List Setting) :
    List.Forall₂ (fun s e => ∃ raw, env s.name = some raw ∧ s.ReportedBy raw e)
      (ss.filter fun s => (env s.name).isSome)
      (ss.flatMap fun s => (s.kind.override env s.name (get p s)).2) := by
  induction ss with
  | nil => exact .nil
  | cons s ss ih =>
    rw [List.flatMap_cons, List.filter_cons]
    cases h : env s.name with
    | none =>
      rw [s.kind.override_of_unset _ h]
      exact ih
    | some raw =>
      obtain ⟨e, he, hreport⟩ := s.exists_reportedBy env h (get p s)
      rw [he]
      exact .cons ⟨raw, h, hreport⟩ ih

end Setting

namespace Settings

theorem override_override (p : Settings Float) (env : Environment) :
    (p.override env).1.override env = p.override env := by
  refine Prod.ext (ext_get fun s => ?_) ?_
  · rw [Setting.get_override, Setting.override_get_override, Setting.get_override]
  · simp only [Setting.log_override, Setting.override_get_override]

/-- Every setting takes the value that the text under its own name writes, and keeps its
value if there is no such text; no other text and no other setting counts. Every text
that is set has one event, in the order of the settings. A second override with the same
texts changes nothing and reports the same. -/
theorem override_outcome (p : Settings Float) (env : Environment) :
    (∀ s, Setting.Becomes s env (s.get p) (s.get (p.override env).1)) ∧
    (∀ (s : Setting) (p' : Settings Float) (env' : Environment),
      env' s.name = env s.name → s.get p' = s.get p →
        s.get (p'.override env').1 = s.get (p.override env).1) ∧
    List.Forall₂ (fun s e => ∃ raw, env s.name = some raw ∧ Setting.ReportedBy s raw e)
      (Setting.all.filter fun s => (env s.name).isSome) (p.override env).2 ∧
    (p.override env).1.override env = p.override env := by
  refine ⟨fun s => ?_, fun s p' env' henv hget => ?_, ?_, ?_⟩
  · rw [Setting.get_override]
    exact s.becomes_override env _
  · rw [Setting.get_override, Setting.get_override, SettingKind.override, SettingKind.override,
      henv, hget]
  · rw [Setting.log_override]
    exact Setting.forall₂_reportedBy env p Setting.all
  · exact p.override_override env

/-- A limit to be read, a count that is too large, and a tolerance that is no number. -/
def mixedTexts : Environment
  | "MAX_ITER" => some " +500\n"
  | "LOG_PERIOD" => some "18446744073709551616"
  | "PSD_TOL" => some "tight"
  | _ => none

theorem override_outcome_mixedTexts :
    (Settings.default.override mixedTexts).1.solver.maxIter = some 500 ∧
      (Settings.default.override mixedTexts).1.solver.logPeriod = 10000 ∧
      (Settings.default.override mixedTexts).1.psdTol = Settings.default.psdTol ∧
      (Settings.default.override mixedTexts).1.epsClip = Settings.default.epsClip ∧
      (Settings.default.override mixedTexts).2.map OverrideEvent.level = [.info, .warn, .warn] := by
  obtain ⟨hbecomes, -, hlog, -⟩ := override_outcome Settings.default mixedTexts
  have hlimit : Setting.Reads .maxIter " +500\n" (some 500) := (Setting.reads_iff _).mpr rfl
  have hperiod : ∀ v, ¬ Setting.Reads .logPeriod "18446744073709551616" v :=
    (Setting.not_reads_iff _).mpr rfl
  have hpsd : ∀ v, ¬ Setting.Reads .psdTol "tight" v := (Setting.not_reads_iff _).mpr rfl
  have hset : (Setting.all.filter fun s => (mixedTexts s.name).isSome) =
      [.maxIter, .logPeriod, .psdTol] := rfl
  rw [hset] at hlog
  refine ⟨(hbecomes .maxIter).read _ _ rfl hlimit, (hbecomes .logPeriod).unread _ rfl hperiod,
    (hbecomes .psdTol).unread _ rfl hpsd, (hbecomes .epsClip).unset rfl, ?_⟩
  generalize (Settings.default.override mixedTexts).2 = log at hlog
  obtain _ | ⟨⟨_, h₁, e₁⟩, _ | ⟨⟨_, h₂, e₂⟩, _ | ⟨⟨_, h₃, e₃⟩, _ | _⟩⟩⟩ := hlog
  cases h₁
  cases h₂
  cases h₃
  simp only [List.map_cons, List.map_nil, (e₁.read _ hlimit).2, (e₂.unread hperiod).2,
    (e₃.unread hpsd).2]

end Settings

end Rebalancing
