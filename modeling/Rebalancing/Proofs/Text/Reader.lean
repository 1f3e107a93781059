-- SUMMARY: The written forms of counts and of machine floats as a grammar, and that reading takes what the grammar derives and nothing else.
import Mathlib
import Rebalancing.Text.Reader

/-!
# Written numbers

What reading does by splitting a text from the left is said here the other way:
which texts write a number, put together from their parts. A text is read as a
number exactly if it writes that number, so no text writes two.
-/

namespace Rebalancing

namespace Text

/-! ## Grammar -/

/-- The number that a decimal digit stands for. -/
def digitValue (c : Char) : ℕ := c.toNat - '0'.toNat

/-- One or more ASCII digits, the last of which counts ones. -/
structure WritesNat (ds : List Char) (n : ℕ) : Prop where
  ne_nil : ds ≠ []
  isDigit : ∀ c ∈ ds, c.isDigit = true
  ofDigits_eq : Nat.ofDigits 10 (ds.reverse.map digitValue) = n

/-- A number below `2 ^ 64`, perhaps after a plus sign. -/
inductive WritesCount : List Char → ℕ → Prop
  | plain {ds n} : WritesNat ds n → n < 2 ^ 64 → WritesCount ds n
  | plus {ds n} : WritesNat ds n → n < 2 ^ 64 → WritesCount ('+' :: ds) n

/-- A sign or none, and whether it is a minus. -/
inductive WritesSign : List Char → Bool → Prop
  | none : WritesSign [] false
  | plus : WritesSign ['+'] false
  | minus : WritesSign ['-'] true

/-- A power of ten or none. -/
inductive WritesExponent : List Char → ℤ → Prop
  | none : WritesExponent [] 0
  | power {e sign negative ds n} : e = 'e' ∨ e = 'E' → WritesSign sign negative →
      WritesNat ds n → WritesExponent (e :: (sign ++ ds)) (if negative then -n else n)

/-- Digits with a point among them or none, and a power of ten. There is at least
one digit, on either side of the point. -/
inductive WritesDecimal : List Char → Decimal → Prop
  | whole {ds n tail e} : WritesNat ds n → WritesExponent tail e →
      WritesDecimal (ds ++ tail) ⟨n, e⟩
  | point {ds part n tail e} : WritesNat (ds ++ part) n → WritesExponent tail e →
      WritesDecimal (ds ++ '.' :: (part ++ tail)) ⟨n, e - part.length⟩

/-- The word, in either case of its letters. -/
def Spells (cs : List Char) (word : String) : Prop := String.ofList (cs.map Char.toLower) = word

instance (cs : List Char) (word : String) : Decidable (Spells cs word) :=
  inferInstanceAs (Decidable (String.ofList (cs.map Char.toLower) = word))

/-- One of the words for a special value. -/
inductive WritesWord : List Char → Float → Prop
  | infinity {cs} : Spells cs "inf" ∨ Spells cs "infinity" → WritesWord cs Scalar.infinity
  | nan {cs} : Spells cs "nan" → WritesWord cs Scalar.nan

/-- A machine float without a sign: the one nearest to a decimal, or a special value. -/
inductive WritesMagnitude : List Char → Float → Prop
  | decimal {cs d} : WritesDecimal cs d → WritesMagnitude cs d.toFloat
  | word {cs x} : WritesWord cs x → WritesMagnitude cs x

/-- A machine float, with a sign or none. -/
inductive WritesFloat : List Char → Float → Prop
  | signed {sign negative body x} : WritesSign sign negative → WritesMagnitude body x →
      WritesFloat (sign ++ body) (if negative then -x else x)

/-! ## How texts begin -/

theorem WritesNat.exists_cons {ds : List Char} {n : ℕ} (h : WritesNat ds n) :
    ∃ c cs, ds = c :: cs ∧ c.isDigit = true := by
  obtain ⟨c, cs, rfl⟩ := List.exists_cons_of_ne_nil h.ne_nil
  exact ⟨c, cs, rfl, h.isDigit c List.mem_cons_self⟩

theorem WritesExponent.head_not_digit_or_point {tail : List Char} {e : ℤ}
    (h : WritesExponent tail e) : ∀ c ∈ tail.head?, c.isDigit = false ∧ c ≠ '.' := by
  intro c hc
  cases h with
  | none => cases hc
  | power he _ _ =>
    cases hc
    rcases he with rfl | rfl <;> decide

theorem WritesDecimal.exists_cons {cs : List Char} {d : Decimal} (h : WritesDecimal cs d) :
    ∃ c rest, cs = c :: rest ∧ (c.isDigit = true ∨ c = '.') := by
  cases h with
  | whole hn _ =>
    obtain ⟨c, ds, rfl, hc⟩ := hn.exists_cons
    exact ⟨c, _, rfl, .inl hc⟩
  | @point ds _ _ _ _ hn _ =>
    cases ds with
    | nil => exact ⟨'.', _, rfl, .inr rfl⟩
    | cons c ds => exact ⟨c, _, rfl, .inl (hn.isDigit c List.mem_cons_self)⟩

theorem not_sign_of_isDigit {c : Char} (h : c.isDigit = true) : c ≠ '-' ∧ c ≠ '+' := by
  constructor <;> rintro rfl <;> exact absurd h (by decide)

theorem WritesNat.head_not_sign {ds : List Char} {n : ℕ} (h : WritesNat ds n) :
    ∀ c ∈ ds.head?, c ≠ '-' ∧ c ≠ '+' :=
  fun c hc => not_sign_of_isDigit (h.isDigit c (List.mem_of_mem_head? hc))

theorem toLower_of_isDigit {c : Char} (h : c.isDigit = true) : c.toLower = c := by
  simp only [Char.isDigit, Bool.and_eq_true, decide_eq_true_eq] at h
  have hupper : ¬ (c.val ≥ 'A'.val ∧ c.val ≤ 'Z'.val) := by
    rintro ⟨hA, -⟩
    exact absurd (UInt32.le_trans hA h.2) (by decide)
  rw [Char.toLower, dif_neg hupper]

theorem Spells.exists_cons {cs : List Char} {word : String} (h : Spells cs word) {l : Char}
    (hl : word.toList.head? = some l) : ∃ c rest, cs = c :: rest ∧ c.toLower = l := by
  rw [← h, String.toList_ofList, List.head?_map, Option.map_eq_some_iff] at hl
  obtain ⟨c, hc, hlower⟩ := hl
  exact ⟨c, _, (List.cons_head?_tail hc).symm, hlower⟩

theorem WritesWord.exists_cons {cs : List Char} {x : Float} (h : WritesWord cs x) :
    ∃ c rest, cs = c :: rest ∧ (c.toLower = 'i' ∨ c.toLower = 'n') := by
  rcases h with (h | h) | h
  · obtain ⟨c, rest, rfl, hc⟩ := h.exists_cons rfl
    exact ⟨c, rest, rfl, .inl hc⟩
  · obtain ⟨c, rest, rfl, hc⟩ := h.exists_cons rfl
    exact ⟨c, rest, rfl, .inl hc⟩
  · obtain ⟨c, rest, rfl, hc⟩ := h.exists_cons rfl
    exact ⟨c, rest, rfl, .inr hc⟩

/-- No word begins as a decimal does. -/
theorem WritesDecimal.not_writesWord {cs : List Char} {d : Decimal} (h : WritesDecimal cs d)
    (x : Float) : ¬ WritesWord cs x := by
  intro hword
  obtain ⟨c, rest, rfl, hc⟩ := h.exists_cons
  obtain ⟨_, _, heq, hletter⟩ := hword.exists_cons
  cases heq
  rcases hc with hdigit | rfl
  · rw [toLower_of_isDigit hdigit] at hletter
    rcases hletter with rfl | rfl <;> exact absurd hdigit (by decide)
  · exact absurd hletter (by decide)

theorem WritesMagnitude.head_not_sign {cs : List Char} {x : Float} (h : WritesMagnitude cs x) :
    ∀ c ∈ cs.head?, c ≠ '-' ∧ c ≠ '+' := by
  intro c hc
  cases h with
  | decimal hd =>
    obtain ⟨_, _, rfl, hdigit | rfl⟩ := hd.exists_cons
    · cases hc
      exact not_sign_of_isDigit hdigit
    · cases hc
      decide
  | word hword =>
    obtain ⟨_, _, rfl, hletter⟩ := hword.exists_cons
    cases hc
    constructor <;> rintro rfl <;> exact absurd hletter (by decide)

end Text

namespace Reader

open Text

/-! ## Digits -/

theorem ofDigits_eq (ds : List Char) :
    ofDigits ds = Nat.ofDigits 10 (ds.reverse.map digitValue) := by
  induction ds using List.reverseRecOn with
  | nil => rfl
  | append_singleton ds c ih =>
    have hlast : ofDigits (ds ++ [c]) = 10 * ofDigits ds + digitValue c := by
      rw [ofDigits, List.foldl_append]
      rfl
    rw [hlast, ih, List.reverse_append, List.reverse_singleton, List.singleton_append,
      List.map_cons, Nat.ofDigits_cons, Nat.add_comm]

theorem digits?_eq_some_iff {ds : List Char} {n : ℕ} : digits? ds = some n ↔ WritesNat ds n := by
  rw [digits?, Option.ite_none_right_eq_some, Bool.and_eq_true, Bool.not_eq_true',
    List.isEmpty_eq_false_iff, List.all_eq_true, Option.some.injEq, ofDigits_eq]
  constructor
  · rintro ⟨⟨hne, hdigits⟩, hvalue⟩
    exact ⟨hne, hdigits, hvalue⟩
  · intro h
    exact ⟨⟨h.ne_nil, h.isDigit⟩, h.ofDigits_eq⟩

/-! ## Counts -/

theorem bind_digits?_eq_some_iff {ds : List Char} {n : ℕ} :
    ((digits? ds).bind fun n => if n < countLimit then some n else none) = some n ↔
      WritesNat ds n ∧ n < 2 ^ 64 := by
  have hlimit : countLimit = 2 ^ 64 := rfl
  simp only [Option.bind_eq_some_iff, Option.ite_none_right_eq_some, Option.some.injEq,
    digits?_eq_some_iff, hlimit]
  constructor
  · rintro ⟨_, hn, hlt, rfl⟩
    exact ⟨hn, hlt⟩
  · rintro ⟨hn, hlt⟩
    exact ⟨n, hn, hlt, rfl⟩

theorem count?_eq_some_iff {cs : List Char} {n : ℕ} : count? cs = some n ↔ WritesCount cs n := by
  by_cases hplus : ∃ ds, cs = '+' :: ds
  · obtain ⟨ds, rfl⟩ := hplus
    rw [count?]
    refine bind_digits?_eq_some_iff.trans ⟨fun h => .plus h.1 h.2, fun h => ?_⟩
    cases h with
    | plus hn hlt => exact ⟨hn, hlt⟩
    | plain hn _ =>
      -- A plus sign is not a digit.
      exact absurd (hn.isDigit _ List.mem_cons_self) (by decide)
  · have hplain : ∀ ds, cs = '+' :: ds → False := fun ds h => hplus ⟨ds, h⟩
    rw [count?]
    · refine bind_digits?_eq_some_iff.trans ⟨fun h => .plain h.1 h.2, fun h => ?_⟩
      cases h with
      | plus _ _ => exact absurd rfl (hplain _)
      | plain hn hlt => exact ⟨hn, hlt⟩
    · exact hplain

/-! ## Signs -/

theorem exists_splitSign (s : List Char) :
    ∃ sign negative body,
      splitSign s = (negative, body) ∧ s = sign ++ body ∧ WritesSign sign negative := by
  unfold splitSign
  split
  next cs => exact ⟨_, _, cs, rfl, rfl, .minus⟩
  next cs => exact ⟨_, _, cs, rfl, rfl, .plus⟩
  next => exact ⟨_, _, _, rfl, rfl, .none⟩

theorem splitSign_append {sign body : List Char} {negative : Bool} (h : WritesSign sign negative)
    (hbody : ∀ c ∈ body.head?, c ≠ '-' ∧ c ≠ '+') :
    splitSign (sign ++ body) = (negative, body) := by
  cases h with
  | plus => rfl
  | minus => rfl
  | none =>
    cases body with
    | nil => rfl
    | cons c cs =>
      obtain ⟨hminus, hplus⟩ := hbody c rfl
      rw [List.nil_append, splitSign]
      · exact fun cs h => hminus (List.cons.inj h).1
      · exact fun cs h => hplus (List.cons.inj h).1

/-! ## Decimals -/

theorem exponent?_cons {e : Char} {cs ds : List Char} {negative : Bool}
    (hsplit : splitSign cs = (negative, ds)) {k : ℤ} :
    exponent? (e :: cs) = some k ↔ (e = 'e' ∨ e = 'E') ∧
      ∃ n : ℕ, WritesNat ds n ∧ (if negative then -(n : ℤ) else n) = k := by
  rw [exponent?, hsplit, Option.ite_none_right_eq_some]
  simp only [Bool.or_eq_true, decide_eq_true_eq, Option.map_eq_some_iff, Option.bind_eq_bind,
    Option.bind_eq_some_iff, digits?_eq_some_iff, Option.pure_def, Option.some.injEq]
  refine and_congr_right fun _ => ⟨?_, ?_⟩
  · rintro ⟨_, ⟨n, hn, rfl⟩, hk⟩
    exact ⟨n, hn, hk⟩
  · rintro ⟨n, hn, hk⟩
    exact ⟨n, ⟨n, hn, rfl⟩, hk⟩

theorem exponent?_eq_some_iff {tail : List Char} {k : ℤ} :
    exponent? tail = some k ↔ WritesExponent tail k := by
  constructor
  · intro h
    cases tail with
    | nil =>
      cases h
      exact .none
    | cons e cs =>
      obtain ⟨sign, negative, ds, hsplit, rfl, hsign⟩ := exists_splitSign cs
      obtain ⟨he, n, hn, rfl⟩ := (exponent?_cons hsplit).mp h
      exact .power he hsign hn
  · intro h
    cases h with
    | none => rfl
    | power he hsign hn =>
      have hsplit := splitSign_append hsign hn.head_not_sign
      exact (exponent?_cons hsplit).mpr ⟨he, _, hn, rfl⟩

/-- Digits before what does not begin with a digit are split off as they are. -/
theorem span_isDigit_append {ds tail : List Char} (hds : ∀ c ∈ ds, c.isDigit = true)
    (htail : ∀ c ∈ tail.head?, c.isDigit = false) :
    (ds ++ tail).span Char.isDigit = (ds, tail) := by
  have hstop : tail.takeWhile Char.isDigit = [] ∧ tail.dropWhile Char.isDigit = tail := by
    cases tail with
    | nil => exact ⟨rfl, rfl⟩
    | cons c cs =>
      have hc : ¬ c.isDigit = true := by simp [htail c rfl]
      rw [List.takeWhile_cons, if_neg hc, List.dropWhile_cons, if_neg hc]
      exact ⟨rfl, rfl⟩
  rw [List.span_eq_takeWhile_dropWhile, List.takeWhile_append_of_pos hds,
    List.dropWhile_append_of_pos hds, hstop.1, hstop.2, List.append_nil]

theorem exists_span_isDigit (cs : List Char) :
    ∃ ds tail, cs.span Char.isDigit = (ds, tail) ∧ cs = ds ++ tail ∧
      ∀ c ∈ ds, c.isDigit = true :=
  ⟨_, _, List.span_eq_takeWhile_dropWhile _ cs, List.takeWhile_append_dropWhile.symm,
    fun _ hc => List.mem_takeWhile_imp hc⟩

/-- What is made of the digits before a point, those after it, and the rest. -/
def assemble? (whole part tail : List Char) : Option Decimal := do
  if whole.isEmpty && part.isEmpty then none
  let exponent ← exponent? tail
  some ⟨ofDigits (whole ++ part), exponent - part.length⟩

theorem decimal?_of_point {cs whole part rest tail : List Char}
    (hcs : cs.span Char.isDigit = (whole, '.' :: rest))
    (hrest : rest.span Char.isDigit = (part, tail)) :
    decimal? cs = assemble? whole part tail := by
  simp only [decimal?, hcs, hrest]
  rfl

theorem decimal?_of_no_point {cs whole tail : List Char}
    (hcs : cs.span Char.isDigit = (whole, tail)) (htail : ∀ c ∈ tail.head?, c ≠ '.') :
    decimal? cs = assemble? whole [] tail := by
  rw [decimal?, hcs]
  dsimp only
  split
  next rest => exact absurd rfl (htail '.' rfl)
  next => rfl

theorem assemble?_eq_some_iff {whole part tail : List Char} {d : Decimal}
    (hdigits : ∀ c ∈ whole ++ part, c.isDigit = true) :
    assemble? whole part tail = some d ↔
      ∃ n e, WritesNat (whole ++ part) n ∧ WritesExponent tail e ∧ d = ⟨n, e - part.length⟩ := by
  have hempty : (whole.isEmpty && part.isEmpty) = true ↔ whole ++ part = [] := by
    simp
  rw [assemble?]
  constructor
  · intro h
    by_cases hne : whole ++ part = []
    · rw [if_pos (hempty.mpr hne)] at h
      cases h
    · rw [if_neg (mt hempty.mp hne)] at h
      obtain ⟨e, he, h⟩ := Option.bind_eq_some_iff.mp h
      exact ⟨_, e, ⟨hne, hdigits, (ofDigits_eq _).symm⟩, exponent?_eq_some_iff.mp he,
        (Option.some.inj h).symm⟩
  · rintro ⟨n, e, hn, he, rfl⟩
    rw [if_neg (mt hempty.mp hn.ne_nil), exponent?_eq_some_iff.mpr he, ofDigits_eq, hn.ofDigits_eq]
    rfl

theorem writesDecimal_of_decimal? {cs : List Char} {d : Decimal} (h : decimal? cs = some d) :
    WritesDecimal cs d := by
  obtain ⟨whole, rest, hcs, rfl, hwhole⟩ := exists_span_isDigit cs
  by_cases hpoint : ∃ after, rest = '.' :: after
  · obtain ⟨after, rfl⟩ := hpoint
    obtain ⟨part, tail, hafter, rfl, hpart⟩ := exists_span_isDigit after
    rw [decimal?_of_point hcs hafter] at h
    obtain ⟨n, e, hn, he, rfl⟩ :=
      (assemble?_eq_some_iff (List.forall_mem_append.mpr ⟨hwhole, hpart⟩)).mp h
    exact .point hn he
  · have hrest : ∀ c ∈ rest.head?, c ≠ '.' := by
      rintro c hc rfl
      exact hpoint ⟨_, (List.cons_head?_tail hc).symm⟩
    rw [decimal?_of_no_point hcs hrest] at h
    obtain ⟨n, e, hn, he, rfl⟩ := (assemble?_eq_some_iff (by simpa using hwhole)).mp h
    rw [List.append_nil] at hn
    rw [List.length_nil, Nat.cast_zero, sub_zero]
    exact .whole hn he

theorem decimal?_of_writesDecimal {cs : List Char} {d : Decimal} (h : WritesDecimal cs d) :
    decimal? cs = some d := by
  cases h with
  | @whole ds n tail e hn he =>
    have hcs := span_isDigit_append hn.isDigit fun c hc => (he.head_not_digit_or_point c hc).1
    have hds : ∀ c ∈ ds ++ [], c.isDigit = true := by simpa using hn.isDigit
    rw [decimal?_of_no_point hcs fun c hc => (he.head_not_digit_or_point c hc).2,
      assemble?_eq_some_iff hds]
    exact ⟨n, e, by simpa using hn, he, by simp⟩
  | @point ds part n tail e hn he =>
    obtain ⟨hds, hpart⟩ := List.forall_mem_append.mp hn.isDigit
    have hafter := span_isDigit_append hpart fun c hc => (he.head_not_digit_or_point c hc).1
    have hcs : (ds ++ '.' :: (part ++ tail)).span Char.isDigit = (ds, '.' :: (part ++ tail)) := by
      refine span_isDigit_append hds fun c hc => ?_
      cases hc
      rfl
    rw [decimal?_of_point hcs hafter, assemble?_eq_some_iff hn.isDigit]
    exact ⟨n, e, hn, he, rfl⟩

/-! ## Machine floats -/

theorem word?_eq (cs : List Char) :
    word? cs =
      if Spells cs "inf" ∨ Spells cs "infinity" then some Scalar.infinity
      else if Spells cs "nan" then some Scalar.nan
      else none := by
  simp only [word?, Bool.or_eq_true, decide_eq_true_eq]
  rfl

theorem word?_eq_some_iff {cs : List Char} {x : Float} : word? cs = some x ↔ WritesWord cs x := by
  have hapart : Spells cs "inf" ∨ Spells cs "infinity" → ¬ Spells cs "nan" := by
    rintro (h | h) hnan <;> exact absurd (h.symm.trans hnan) (by decide)
  rw [word?_eq]
  constructor
  · intro h
    split at h
    next hinfinite =>
      cases h
      exact .infinity hinfinite
    next =>
      obtain ⟨hnan, h⟩ := Option.ite_none_right_eq_some.mp h
      cases h
      exact .nan hnan
  · intro h
    cases h with
    | infinity hinfinite => rw [if_pos hinfinite]
    | nan hnan => rw [if_neg fun hinfinite => hapart hinfinite hnan, if_pos hnan]

/-- What is read behind a sign. -/
theorem magnitude_eq_some_iff {cs : List Char} {x : Float} :
    (word? cs <|> (decimal? cs).map Decimal.toFloat) = some x ↔ WritesMagnitude cs x := by
  rw [Option.orElse_eq_some, word?_eq_some_iff, Option.map_eq_some_iff]
  constructor
  · rintro (hword | ⟨-, d, hd, rfl⟩)
    · exact .word hword
    · exact .decimal (writesDecimal_of_decimal? hd)
  · intro h
    cases h with
    | word hword => exact .inl hword
    | decimal hd =>
      have hnone : word? cs = none :=
        Option.eq_none_iff_forall_ne_some.mpr fun x hx =>
          hd.not_writesWord x (word?_eq_some_iff.mp hx)
      exact .inr ⟨hnone, _, decimal?_of_writesDecimal hd, rfl⟩

theorem float?_eq_some_iff {cs : List Char} {x : Float} :
    float? cs = some x ↔ WritesFloat cs x := by
  constructor
  · intro h
    obtain ⟨sign, negative, body, hsplit, rfl, hsign⟩ := exists_splitSign cs
    rw [float?, hsplit] at h
    obtain ⟨x, hx, rfl⟩ := Option.map_eq_some_iff.mp h
    exact .signed hsign (magnitude_eq_some_iff.mp hx)
  · intro h
    cases h with
    | signed hsign hx =>
      rw [float?, splitSign_append hsign hx.head_not_sign]
      exact Option.map_eq_some_iff.mpr ⟨_, magnitude_eq_some_iff.mpr hx, rfl⟩

end Reader

end Rebalancing
