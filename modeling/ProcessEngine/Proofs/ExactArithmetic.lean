import ProcessEngine.Expr.Eval
import ProcessEngine.Proofs.FloatRange

/-!
# Whole numbers in expressions

An operator on two signed 64-bit numbers asks for the exact result first, and goes over to
floats where there is none in that range.  Floats of whole numbers are moderate, so there
the result is a float and no error.

A remainder is looked for only where the quotient is in range too.  There is one quotient
that is not, of the least number by minus one; its remainder is zero, but as a float.

Main statement: `Expr.eval_whole`.
-/

namespace ProcessEngine

/-! ## Exact results -/

/-- The whole number `q` is the exact result of an operator on two whole numbers.  A remainder is
the one of a truncated division: it is smaller than the divisor and has the sign of the dividend. -/
def Arith.Exact (a b q : Int) : Arith → Prop
  | add => a + b = q
  | sub => a - b = q
  | mul => a * b = q
  | div => b * q = a
  | rem => (∃ k, b * k + q = a) ∧ q.natAbs < b.natAbs ∧ (0 ≤ a → 0 ≤ q) ∧ (a ≤ 0 → q ≤ 0)

/-- The least signed 64-bit number. -/
def leastSigned : Int := -2 ^ 63

theorem Arith.exact_rem_iff {a b q : Int} (hb : b ≠ 0) : rem.Exact a b q ↔ a.tmod b = q := by
  constructor
  · rintro ⟨⟨k, hk⟩, hsmall, hpos, hneg⟩
    rcases Int.le_total 0 a with ha | ha
    · have hsign := hpos ha
      exact ((Int.tdiv_tmod_unique (q := k) ha hb).mpr ⟨by omega, hsign, by omega⟩).2
    · have hsign := hneg ha
      exact ((Int.tdiv_tmod_unique' (q := k) ha hb).mpr ⟨by omega, by omega, hsign⟩).2
  · rintro rfl
    refine ⟨⟨a.tdiv b, Int.mul_tdiv_add_tmod a b⟩, ?_, Int.tmod_nonneg b, fun ha => ?_⟩
    · rw [Int.natAbs_tmod]
      exact Nat.mod_lt _ (Int.natAbs_pos.mpr hb)
    · have := Int.tmod_nonneg b (Int.neg_nonneg_of_nonpos ha)
      rw [Int.neg_tmod] at this
      omega

theorem Arith.exact_div_iff {a b q : Int} (hb : b ≠ 0) :
    div.Exact a b q ↔ a.tmod b = 0 ∧ a.tdiv b = q := by
  constructor
  · rintro (rfl : b * q = a)
    exact ⟨Int.mul_tmod_right b q, Int.mul_tdiv_cancel_left q hb⟩
  · rintro ⟨hzero, rfl⟩
    exact Int.mul_tdiv_cancel_of_tmod_eq_zero hzero

theorem fitsSigned_iff {n : Int} : fitsSigned n = true ↔ -2 ^ 63 ≤ n ∧ n < 2 ^ 63 :=
  decide_eq_true_iff

/-- Only one quotient of signed 64-bit numbers leaves their range. -/
theorem fitsSigned_tdiv {a b : Int} (ha : fitsSigned a = true) (hb : b ≠ 0) :
    fitsSigned (a.tdiv b) = true ↔ ¬ (a = leastSigned ∧ b = -1) := by
  rw [fitsSigned_iff] at ha ⊢
  unfold leastSigned
  by_cases hone : b.natAbs = 1
  · rcases (show b = 1 ∨ b = -1 by omega) with rfl | rfl
    · rw [Int.tdiv_one]
      omega
    · rw [Int.tdiv_neg, Int.tdiv_one]
      omega
  · have hhalf : (a.tdiv b).natAbs ≤ a.natAbs / 2 := by
      rw [Int.natAbs_tdiv]
      exact Nat.div_le_div_left (by omega) (by decide)
    omega

/-- An operator on signed 64-bit numbers finds the exact result wherever it is in their range, but
for the one remainder whose quotient is not. -/
theorem Arith.wholeResult?_eq_some {op : Arith} {a b q : Int} (ha : fitsSigned a = true)
    (hb : op.divides = true → b ≠ 0) :
    op.wholeResult? a b = some q ↔
      op.Exact a b q ∧ fitsSigned q = true ∧ ¬ (op = .rem ∧ a = leastSigned ∧ b = -1) := by
  unfold wholeResult?
  rw [Option.filter_eq_some_iff]
  cases op with
  | add => simp [Exact]
  | sub => simp [Exact]
  | mul => simp [Exact]
  | div => simp [exact_div_iff (hb rfl)]
  | rem =>
      simp only [exact_rem_iff (hb rfl), fitsSigned_tdiv ha (hb rfl), Option.ite_none_right_eq_some,
        Option.some.injEq, true_and]
      constructor
      · rintro ⟨⟨hcorner, hvalue⟩, hfits⟩
        exact ⟨hvalue, hfits, hcorner⟩
      · rintro ⟨hvalue, hfits, hcorner⟩
        exact ⟨⟨hcorner, hvalue⟩, hfits⟩

/-! ## The floats that take their place -/

theorem Json.ofFloat_of_isFinite {x : Float} (hx : x.isFinite = true) :
    Json.ofFloat x = .ok (.number (.float x)) := by
  have hunpacked : x.toModel.unpack.isFinite = true := hx
  have htests : x.isNaN = x.toModel.unpack.isNaN ∧ x.isInf = x.toModel.unpack.isInf := ⟨rfl, rfl⟩
  rw [Json.ofFloat, htests.1, htests.2]
  cases hshape : x.toModel.unpack with
  | notANumber => rw [hshape] at hunpacked; cases hunpacked
  | infinity s => rw [hshape] at hunpacked; cases hunpacked
  | zero s => rfl
  | finite s m e h => rfl

open FloatRange in
theorem Arith.evalFloats_whole {op : Arith} {a b : Int} (ha : fitsSigned a = true)
    (hb : fitsSigned b = true) (hzero : op.divides = true → b ≠ 0) (hrem : op ≠ .rem) :
    ∃ x : Float, x.isFinite = true ∧
      op.evalFloats (Float.ofInt a) (Float.ofInt b) = .ok (.number (.float x)) := by
  cases op with
  | add => exact ⟨_, isFinite_add ha hb, Json.ofFloat_of_isFinite (isFinite_add ha hb)⟩
  | sub => exact ⟨_, isFinite_sub ha hb, Json.ofFloat_of_isFinite (isFinite_sub ha hb)⟩
  | mul => exact ⟨_, isFinite_mul ha hb, Json.ofFloat_of_isFinite (isFinite_mul ha hb)⟩
  | div =>
      have hfinite := isFinite_div ha hb (hzero rfl)
      refine ⟨_, hfinite, ?_⟩
      rw [evalFloats, ofInt_ne_zero hb (hzero rfl)]
      exact Json.ofFloat_of_isFinite hfinite
  | rem => exact absurd rfl hrem

theorem Arith.evalFloats_rem_least :
    rem.evalFloats (Float.ofInt leastSigned) (Float.ofInt (-1)) =
      .ok (.number (.float (-0.0))) := by
  have hvalue : floatRem (Float.ofInt leastSigned) (Float.ofInt (-1)) = -0.0 := by decide +kernel
  have hdivisor : (Float.ofInt (-1) == 0.0) = false := by decide +kernel
  have hfinite : (-0.0 : Float).isFinite = true := by decide +kernel
  rw [← Json.ofFloat_of_isFinite hfinite, ← hvalue, evalFloats, hdivisor]
  rfl

/-- A remainder of signed 64-bit numbers is one of them. -/
theorem fitsSigned_tmod {a b : Int} (hb : fitsSigned b = true) (hzero : b ≠ 0) :
    fitsSigned (a.tmod b) = true := by
  rw [fitsSigned_iff] at hb ⊢
  have hsmall : (a.tmod b).natAbs < b.natAbs := by
    rw [Int.natAbs_tmod]
    exact Nat.mod_lt _ (Int.natAbs_pos.mpr hzero)
  omega

/-! ## Values -/

/-- The exact result of an operation where it is a signed 64-bit number, and else a float. -/
def ExactOrFloat (exact : Int → Prop) (result : Except ExprError Json) : Prop :=
  (∀ q, exact q → fitsSigned q = true → result = .ok (.ofInt q)) ∧
    ((∀ q, exact q → fitsSigned q = false) →
      ∃ x : Float, x.isFinite = true ∧ result = .ok (.number (.float x)))

/-- What an operator gives on two signed 64-bit numbers. -/
def Arith.Gives (op : Arith) (a b : Int) (result : Except ExprError Json) : Prop :=
  if op.divides = true ∧ b = 0 then result = .error .divisionByZero
  else if op = .rem ∧ a = leastSigned ∧ b = -1 then result = .ok (.number (.float (-0.0)))
  else ExactOrFloat (op.Exact a b) result

theorem Number.signed?_whole {n : Int} (hn : fitsSigned n = true) :
    (Number.whole n).signed? = some n := if_pos hn

theorem Arith.evalNumbers_gives (op : Arith) {a b : Int} (ha : fitsSigned a = true)
    (hb : fitsSigned b = true) : op.Gives a b (op.evalNumbers (.whole a) (.whole b)) := by
  have hguard : (op.divides && b == 0) = true ↔ op.divides = true ∧ b = 0 := by simp
  rw [evalNumbers, Number.signed?_whole ha, Number.signed?_whole hb]
  dsimp only
  unfold Gives
  by_cases hzero : op.divides = true ∧ b = 0
  · rw [if_pos hzero, if_pos (hguard.mpr hzero)]
  · have hdivisor : op.divides = true → b ≠ 0 := fun hdivides hb => hzero ⟨hdivides, hb⟩
    have hiff (q : Int) := wholeResult?_eq_some (q := q) ha hdivisor
    rw [if_neg hzero, if_neg (mt hguard.mp hzero)]
    by_cases hcorner : op = .rem ∧ a = leastSigned ∧ b = -1
    · rw [if_pos hcorner]
      obtain ⟨rfl, rfl, rfl⟩ := hcorner
      exact evalFloats_rem_least
    · rw [if_neg hcorner]
      constructor
      · intro q hexact hfits
        rw [(hiff q).mpr ⟨hexact, hfits, hcorner⟩]
      · intro hnone
        have hrem : op ≠ .rem := by
          rintro rfl
          have hfits := hnone _ ((exact_rem_iff (hdivisor rfl)).mpr rfl)
          rw [fitsSigned_tmod hb (hdivisor rfl)] at hfits
          cases hfits
        have hwhole : op.wholeResult? a b = none := by
          rw [Option.eq_none_iff_forall_ne_some]
          intro q hq
          obtain ⟨hexact, hfits, -⟩ := (hiff q).mp hq
          rw [hnone q hexact] at hfits
          cases hfits
        rw [hwhole]
        exact evalFloats_whole ha hb hdivisor hrem

theorem Number.negate_whole {n : Int} (hn : fitsSigned n = true) :
    ExactOrFloat (-n = ·) (Number.whole n).negate := by
  rw [negate, signed?_whole hn]
  dsimp only
  constructor
  · rintro q rfl hfits
    rw [if_pos hfits]
  · intro hnone
    rw [hnone (-n) rfl]
    exact ⟨_, FloatRange.isFinite_neg hn, Json.ofFloat_of_isFinite (FloatRange.isFinite_neg hn)⟩

variable {vars : Variables} {l r : Expr} {a b : Int}

theorem Expr.eval_arith_whole (op : Arith) (hl : l.eval vars = .ok (.ofInt a))
    (hr : r.eval vars = .ok (.ofInt b)) :
    (Expr.arith op l r).eval vars = op.evalNumbers (.whole a) (.whole b) := by
  rw [Expr.eval, hl, hr]
  change op.eval (.ofInt a) (.ofInt b) = _
  rw [Arith.eval, if_neg (fun h => by cases h.2)]
  rfl

/-- **Arithmetic on whole numbers** is exact wherever the exact result is a signed 64-bit number,
and gives a float everywhere else, so nothing wraps around.  Only a division by zero fails. -/
theorem Expr.eval_whole (ha : fitsSigned a = true) (hl : l.eval vars = .ok (.ofInt a)) :
    ExactOrFloat (-a = ·) ((Expr.neg l).eval vars) ∧
      ∀ (op : Arith) (r : Expr) (b : Int), fitsSigned b = true → r.eval vars = .ok (.ofInt b) →
        op.Gives a b ((Expr.arith op l r).eval vars) := by
  constructor
  · have hneg := Number.negate_whole ha
    rw [Expr.eval, hl]
    exact hneg
  · intro op r b hb hr
    rw [Expr.eval_arith_whole op hl hr]
    exact op.evalNumbers_gives ha hb

/-- The least signed 64-bit number and minus one. -/
def leastAndMinusOne : Variables := [("a", .ofInt leastSigned), ("b", .ofInt (-1))]

/-- The quotient of the two is one too large, hence a float. -/
theorem Expr.eval_least_by_minus_one :
    fitsSigned leastSigned = true ∧ fitsSigned (-1) = true ∧
      (Expr.path "a" []).eval leastAndMinusOne = .ok (.ofInt leastSigned) ∧
      (Expr.path "b" []).eval leastAndMinusOne = .ok (.ofInt (-1)) ∧
      ∃ x : Float, x.isFinite = true ∧
        (Expr.arith .div (.path "a" []) (.path "b" [])).eval leastAndMinusOne
          = .ok (.number (.float x)) := by
  have ha : (Expr.path "a" []).eval leastAndMinusOne = .ok (.ofInt leastSigned) := rfl
  have hb : (Expr.path "b" []).eval leastAndMinusOne = .ok (.ofInt (-1)) := rfl
  refine ⟨rfl, rfl, ha, hb, ?_⟩
  have hgives := (Expr.eval_whole (by decide) ha).2 .div _ _ (by decide) hb
  rw [Arith.Gives, if_neg (by decide), if_neg (by decide)] at hgives
  refine hgives.2 fun q hq => decide_eq_false fun hfits => ?_
  have hquotient : -1 * q = leastSigned := hq
  unfold leastSigned at hquotient
  omega

/-- Their remainder is zero, and yet no whole number is found. -/
theorem Expr.eval_remainder_of_least :
    Arith.rem.Exact leastSigned (-1) 0 ∧ fitsSigned 0 = true ∧
      (Expr.arith .rem (.path "a" []) (.path "b" [])).eval leastAndMinusOne ≠ .ok (.ofInt 0) := by
  refine ⟨⟨⟨2 ^ 63, by decide⟩, by decide, by decide, by decide⟩, by decide, ?_⟩
  rw [Expr.eval_arith_whole (a := leastSigned) (b := -1) .rem rfl rfl]
  change Arith.rem.evalFloats (Float.ofInt leastSigned) (Float.ofInt (-1)) ≠ _
  rw [Arith.evalFloats_rem_least]
  intro h
  cases h

end ProcessEngine
