-- SUMMARY: Settings overridden by named texts, such as environment variables, and what is reported of it.
import Rebalancing.Event
import Rebalancing.Settings
import Rebalancing.Text.Quoted
import Rebalancing.Text.Reader

/-!
# Overrides

Every setting has a name. A text under that name, with white space at its ends
ignored, replaces the setting if it reads as a number of the setting's kind;
any other text is reported and ignored.
-/

namespace Rebalancing

/-- Texts by name. -/
abbrev Environment := String → Option String

/-- What became of a text. -/
inductive OverrideEvent where
  /-- The text was read; `value` is how the number read is written. -/
  | accepted (name value : String)
  /-- The text was not read. -/
  | ignored (name text : String)
  deriving DecidableEq, Repr

namespace OverrideEvent

def level : OverrideEvent → Level
  | accepted .. => .info
  | ignored .. => .warn

def text : OverrideEvent → String
  | accepted name value => s!"{name} = {value} by environment"
  | ignored name raw => name ++ " = " ++ String.ofList (Text.quote raw.toList) ++ " ignored"

end OverrideEvent

/-! ## Kinds of settings -/

/-- How the values of a setting are read and written. -/
structure SettingKind (α : Type) where
  /-- Read a value from text without white space at its ends. -/
  read? : List Char → Option α
  /-- Write a value. -/
  write : α → String

def SettingKind.count : SettingKind Nat where
  read? := Reader.count?
  write n := toString n

def SettingKind.float : SettingKind Float where
  read? := Reader.float?
  write := Numeral.plain

/-- The value of a setting under a name, after what stood before, and what
became of the text. -/
def SettingKind.override {α : Type} (kind : SettingKind α) (env : Environment) (name : String)
    (before : α) : α × List OverrideEvent :=
  match env name with
  | none => (before, [])
  | some raw =>
    match kind.read? (Text.trim raw.toList) with
    | some value => (value, [.accepted name (kind.write value)])
    | none => (before, [.ignored name raw])

/-! ## All settings -/

/-- A limit on the number of steps is a count, and no limit stays until a count
is given. -/
def SettingKind.limit : SettingKind (Option Nat) where
  read? cs := (Reader.count? cs).map some
  write n := n.elim "" toString

/-- Override settings by the texts under their names. -/
def Settings.override (p : Settings Float) (env : Environment) :
    Settings Float × List OverrideEvent :=
  let (maxIter, log₁) := SettingKind.limit.override env "MAX_ITER" p.solver.maxIter
  let (epsAcc, log₂) := SettingKind.float.override env "EPS_ACC" p.solver.epsAcc
  let (epsInf, log₃) := SettingKind.float.override env "EPS_INF" p.solver.epsInf
  let (epsZero, log₄) := SettingKind.float.override env "EPS_ZERO" p.solver.epsZero
  let (logPeriod, log₅) := SettingKind.count.override env "LOG_PERIOD" p.solver.logPeriod
  let (symTol, log₆) := SettingKind.float.override env "SYM_TOL" p.symTol
  let (psdTol, log₇) := SettingKind.float.override env "PSD_TOL" p.psdTol
  let (epsClip, log₈) := SettingKind.float.override env "EPS_CLIP" p.epsClip
  ({ solver := { maxIter, epsAcc, epsInf, epsZero, logPeriod }, symTol, psdTol, epsClip },
   log₁ ++ log₂ ++ log₃ ++ log₄ ++ log₅ ++ log₆ ++ log₇ ++ log₈)

end Rebalancing
