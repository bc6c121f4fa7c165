import Mathlib.Data.Int.ModEq
import Treewalk.Proofs.Evaluation.Literals

/-!
Arithmetic of integers. A sum, a difference, a product or a negation of integers is the
exact one wrapped around, that is, moved by a multiple of `2 ^ 64` into the range of
integers. This may happen at any node of an expression, and any number of times; still the
whole has the exact value wrapped around once, since each operation maps integers that are
congruent modulo `2 ^ 64` to such integers again. A quotient of integers is not determined
by its operands modulo `2 ^ 64`, so nothing is said of quotients inside of expressions.
-/

namespace Treewalk

/-- An integer of 64 bits stands for an exact value: it is in the range of integers and is
congruent to the value modulo `2 ^ 64`. -/
structure Wraps (a : Int) (n : Int64) : Prop where
  least : -2 ^ 63 ≤ n.toInt
  below : n.toInt < 2 ^ 63
  modEq : n.toInt ≡ a [ZMOD 2 ^ 64]

namespace Wraps

variable {a b : Int} {n m : Int64}

theorem of_modEq (h : n.toInt ≡ a [ZMOD 2 ^ 64]) : Wraps a n :=
  ⟨n.le_toInt, n.toInt_lt, h⟩

/-- What a machine operation yields: an exact result of its operands, reduced. -/
theorem of_bmod {x : Int} (hn : n.toInt = x.bmod (2 ^ 64)) (hx : x ≡ a [ZMOD 2 ^ 64]) :
    Wraps a n := by
  have hreduced : n.toInt ≡ x [ZMOD 2 ^ 64] := by
    rw [hn]
    exact Int.bmod_emod
  exact of_modEq (hreduced.trans hx)

theorem toInt (n : Int64) : Wraps n.toInt n :=
  of_modEq rfl

theorem add (hn : Wraps a n) (hm : Wraps b m) : Wraps (a + b) (n + m) :=
  of_bmod (Int64.toInt_add n m) (hn.modEq.add hm.modEq)

theorem sub (hn : Wraps a n) (hm : Wraps b m) : Wraps (a - b) (n - m) :=
  of_bmod (Int64.toInt_sub n m) (hn.modEq.sub hm.modEq)

theorem mul (hn : Wraps a n) (hm : Wraps b m) : Wraps (a * b) (n * m) :=
  of_bmod (Int64.toInt_mul n m) (hn.modEq.mul hm.modEq)

theorem neg (hn : Wraps a n) : Wraps (-a) (-n) :=
  of_bmod (Int64.toInt_neg n) hn.modEq.neg

theorem div (n m : Int64) : Wraps (n.toInt.tdiv m.toInt) (n / m) :=
  of_bmod (Int64.toInt_div n m) rfl

/-- One quotient of integers is no integer. -/
theorem toInt_div (n m : Int64) (h : n ≠ Int64.minValue ∨ m ≠ -1) :
    (n / m).toInt = n.toInt.tdiv m.toInt := by
  obtain hn | hm := h
  · exact Int64.toInt_div_of_ne_left n m hn
  · exact Int64.toInt_div_of_ne_right n m hm

/-- No two integers stand for the same exact value. -/
theorem unique (hn : Wraps a n) (hm : Wraps a m) : n = m := by
  have hcongruent : n.toInt % 2 ^ 64 = m.toInt % 2 ^ 64 := hn.modEq.trans hm.modEq.symm
  obtain ⟨hnleast, hnbelow, -⟩ := hn
  obtain ⟨hmleast, hmbelow, -⟩ := hm
  rw [← Int64.toInt_inj]
  omega

end Wraps

namespace InfixOp

/-- The exact result of a sum, a difference or a product. -/
def exactResult? : InfixOp → Int → Int → Option Int
  | add, a, b => some (a + b)
  | subtract, a, b => some (a - b)
  | multiply, a, b => some (a * b)
  | _, _, _ => none

/-- On integers that stand for exact values the operator yields one that stands for the exact
result. -/
theorem exists_apply_of_exactResult? {op : InfixOp} {a b c : Int} {n m : Int64} (hn : Wraps a n)
    (hm : Wraps b m) (hc : op.exactResult? a b = some c) :
    ∃ k, Wraps c k ∧ op.apply (.integer n) (.integer m) = .ok (.integer k) := by
  cases op with
  | add =>
      cases hc
      exact ⟨n + m, hn.add hm, rfl⟩
  | subtract =>
      cases hc
      exact ⟨n - m, hn.sub hm, rfl⟩
  | multiply =>
      cases hc
      exact ⟨n * m, hn.mul hm, rfl⟩
  | divide | less | greater | equal | unequal => cases hc

theorem divide_eq_error_iff (l r : Int64) :
    divide.apply (.integer l) (.integer r) = .error .divisionByZero ↔ r = 0 := by
  by_cases hr : r = 0 <;> simp [apply, applyIntegers, hr]

theorem divide_of_ne_zero (l : Int64) {r : Int64} (hr : r ≠ 0) :
    divide.apply (.integer l) (.integer r) = .ok (.integer (l / r)) := by
  simp [apply, applyIntegers, hr]

end InfixOp

namespace Expr

/-- The expression is made of integers by sums, differences, products and negations, and has
that exact value. -/
inductive Exact : Expr → Int → Prop where
  | integer (t : Token) (n : Int64) : Exact (.integer t n) n.toInt
  | negated (t : Token) {e : Expr} {a : Int} (operand : Exact e a) :
      Exact (.prefixed t .negate e) (-a)
  | binary (t : Token) {op : InfixOp} {l r : Expr} {a b c : Int} (left : Exact l a)
      (right : Exact r b) (value : op.exactResult? a b = some c) : Exact (.binary t op l r) c

theorem denotes_binary {l r : Expr} {op : InfixOp} {v w x : Value} (t : Token)
    (hl : l.Denotes v) (hr : r.Denotes w) (hx : op.apply v w = .ok x) :
    (binary t op l r).Denotes x := by
  intro policy call
  refine ((hl policy call).bind ((hr policy call).bind ?_)).unlessInterrupted
  rw [hx]
  exact Eval.yields_pure x

/-- However often the nodes inside have wrapped around, the exact value of the whole wraps
around to what the expression denotes. -/
theorem Exact.exists_denotes {e : Expr} {a : Int} (h : e.Exact a) :
    ∃ n, Wraps a n ∧ e.Denotes (.integer n) := by
  induction h with
  | integer t n => exact ⟨n, .toInt n, denotes_integer t n⟩
  | negated t _ ih =>
      obtain ⟨n, hn, he⟩ := ih
      exact ⟨-n, hn.neg, denotes_negated t he⟩
  | binary t _ _ hc ihl ihr =>
      obtain ⟨n, hn, hl⟩ := ihl
      obtain ⟨m, hm, hr⟩ := ihr
      obtain ⟨k, hk, happly⟩ := InfixOp.exists_apply_of_exactResult? hn hm hc
      exact ⟨k, hk, denotes_binary t hl hr happly⟩

end Expr

/-- An expression of integers, sums, differences, products and negations always has a value,
unless it is asked to stop, and leaves the state alone: the one integer of 64 bits that is
congruent to its exact value.
A division of integers fails by zero only, and otherwise yields the one integer that is
congruent to the quotient truncated toward zero. This is the quotient itself, but for the
smallest integer divided by -1, which is the smallest integer again. -/
theorem arithmetic_wraps_once :
    (∀ (e : Expr) (a : Int) (ctx : Context) (m : Machine), e.Exact a → m.flag.StaysDown →
      ∃ n, Wraps a n ∧ (∀ k, Wraps a k → k = n) ∧
        ∃ looks, e.eval ctx m = some (.ok (.integer n), m.lookTimes looks)) ∧
    (∀ l r : Int64,
      (InfixOp.divide.apply (.integer l) (.integer r) = .error .divisionByZero ↔ r = 0) ∧
      (r ≠ 0 → ∃ q, Wraps (l.toInt.tdiv r.toInt) q ∧
        (∀ k, Wraps (l.toInt.tdiv r.toInt) k → k = q) ∧
        (l ≠ Int64.minValue ∨ r ≠ -1 → q.toInt = l.toInt.tdiv r.toInt) ∧
        InfixOp.divide.apply (.integer l) (.integer r) = .ok (.integer q))) ∧
    InfixOp.divide.apply (.integer Int64.minValue) (.integer (-1)) =
      .ok (.integer Int64.minValue) := by
  refine ⟨fun e a ctx m he hm => ?_, fun l r => ⟨InfixOp.divide_eq_error_iff l r, ?_⟩, rfl⟩
  · obtain ⟨n, hn, hdenotes⟩ := he.exists_denotes
    exact ⟨n, hn, fun k hk => hk.unique hn, hdenotes .prompt _ m hm⟩
  · intro hr
    exact ⟨l / r, .div l r, fun k hk => hk.unique (.div l r), Wraps.toInt_div l r,
      InfixOp.divide_of_ne_zero l hr⟩

/-- A negated product of which each part wraps around, and a division that truncates. -/
theorem arithmetic_wraps_once_negated :
    let most := Expr.integer ⟨.int, "9223372036854775807"⟩ Int64.maxValue
    let sum := Expr.binary ⟨.plus, "+"⟩ .add most most
    let e := Expr.prefixed ⟨.minus, "-"⟩ .negate (.binary ⟨.asterisk, "*"⟩ .multiply sum most)
    let a : Int := -((0x7fffffffffffffff + 0x7fffffffffffffff) * 0x7fffffffffffffff)
    e.Exact a ∧
      (∃ looks, e.eval {} .initial = some (.ok (.integer (-2)), Machine.initial.lookTimes looks)) ∧
      InfixOp.divide.apply (.integer (-7)) (.integer 2) = .ok (.integer (-3)) := by
  intro most sum e a
  have hmost : most.Exact 0x7fffffffffffffff := .integer _ Int64.maxValue
  have he : e.Exact a := .negated _ (.binary _ (.binary _ hmost hmost rfl) hmost rfl)
  obtain ⟨hexpr, hdivide, -⟩ := arithmetic_wraps_once
  obtain ⟨n, -, hunique, heval⟩ := hexpr e a {} .initial he Flag.staysDown_fixed
  obtain ⟨q, -, hquotient, -, happly⟩ := (hdivide (-7) 2).2 (by decide)
  have hn : -2 = n := hunique _ (.of_modEq (by decide))
  have hq : -3 = q := hquotient _ (.of_modEq (by decide))
  rw [hn, hq]
  exact ⟨he, heval, happly⟩

end Treewalk
