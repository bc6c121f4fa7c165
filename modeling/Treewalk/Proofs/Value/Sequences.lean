import Mathlib.Algebra.Group.Int.Defs
import Mathlib.Algebra.Group.Nat.Defs
import Treewalk.Evaluation

/-!
Arrays as sequences. Indexing looks only at where an index stands among the numbers that
count the items; so what the builtins for arrays yield can be said by indexing, at every
index, the smallest and the largest integer included. An array has fewer than `2 ^ 63`
items, so that its length is an integer.
-/

namespace Treewalk

theorem toInt_succ {i : Int64} (h : i ≠ Int64.maxValue) : (i + 1).toInt = i.toInt + 1 := by
  have hleast := i.le_toInt
  have hbelow := i.toInt_lt
  have hmax : i.toInt ≠ 2 ^ 63 - 1 := fun heq => h (Int64.toInt_inj.1 heq)
  rw [Int64.toInt_add, Int64.toInt_one]
  exact Int.bmod_eq_of_le (by omega) (by omega)

theorem toInt_pred {i : Int64} (h : 0 ≤ i.toInt) : (i - 1).toInt = i.toInt - 1 := by
  have hbelow := i.toInt_lt
  rw [Int64.toInt_sub, Int64.toInt_one]
  exact Int.bmod_eq_of_le (by omega) (by omega)

namespace Value

variable {xs : List Value} {x : Value} {i n : Int64}

theorem elementAt_of_neg (h : i.toInt < 0) (xs : List Value) : elementAt xs i = .null := by
  rw [elementAt, if_pos h]

theorem elementAt_of_eq {k : Nat} (h : i.toInt = k) (xs : List Value) :
    elementAt xs i = xs[k]?.getD .null := by
  have hcounts : ¬ (k : Int) < 0 := by omega
  rw [elementAt, h, if_neg hcounts, Int.toNat_natCast]

theorem elementAt_outside (h : i.toInt < 0 ∨ xs.length ≤ i.toInt) : elementAt xs i = .null := by
  obtain hneg | hlarge := h
  · exact elementAt_of_neg hneg xs
  · have hi : i.toInt = i.toInt.toNat := by omega
    rw [elementAt_of_eq hi, List.getElem?_eq_none (by omega)]
    rfl

/-- The first item stands at 0. -/
theorem elementAt_zero (xs : List Value) : elementAt xs 0 = xs.head?.getD .null := by
  rw [elementAt, List.head?_eq_getElem?]
  rfl

/-- The last item stands before the length; without items there is none, as at -1. -/
theorem elementAt_pred_length (hn : n.toInt = xs.length) :
    elementAt xs (n - 1) = xs.getLast?.getD .null := by
  have hpred : (n - 1).toInt = xs.length - 1 := by
    rw [toInt_pred (by omega), hn]
  cases xs with
  | nil =>
      have hneg : (n - 1).toInt < 0 := by
        rw [hpred]
        decide
      exact elementAt_of_neg hneg []
  | cons x xs =>
      have hi : (n - 1).toInt = xs.length := by
        simpa using hpred
      rw [elementAt_of_eq hi, List.getLast?_eq_getElem?]
      rfl

/-- What stands behind the first item stands one index earlier in the rest. -/
theorem elementAt_cons_succ (h : 0 ≤ i.toInt) (hmax : i ≠ Int64.maxValue) (x : Value)
    (xs : List Value) : elementAt (x :: xs) (i + 1) = elementAt xs i := by
  obtain ⟨k, hk⟩ := Int.eq_ofNat_of_zero_le h
  have hsucc : (i + 1).toInt = (k + 1 : Nat) := by
    rw [toInt_succ hmax, hk]
    rfl
  rw [elementAt_of_eq hsucc, elementAt_of_eq hk, List.getElem?_cons_succ]

theorem elementAt_append_self (hn : n.toInt = xs.length) : elementAt (xs ++ [x]) n = x := by
  rw [elementAt_of_eq hn, List.getElem?_concat_length]
  rfl

theorem elementAt_append_of_ne (hn : n.toInt = xs.length) (h : i ≠ n) :
    elementAt (xs ++ [x]) i = elementAt xs i := by
  by_cases hneg : i.toInt < 0
  · rw [elementAt_of_neg hneg, elementAt_of_neg hneg]
  · obtain ⟨k, hk⟩ := Int.eq_ofNat_of_zero_le (Int.not_lt.1 hneg)
    have hne : k ≠ xs.length := by
      rintro rfl
      exact h (Int64.toInt_inj.1 (hk.trans hn.symm))
    rw [elementAt_of_eq hk, elementAt_of_eq hk, List.getElem?_append]
    split
    · rfl
    · rw [List.getElem?_eq_none (by simp; omega), List.getElem?_eq_none (by omega)]

/-- Pushing items one after another appends them. -/
theorem foldlM_push (xs ys : List Value) :
    ys.foldlM (fun zs y => Builtin.push.apply [zs, y]) (array xs) = .ok (.array (xs ++ ys)) := by
  induction ys generalizing xs with
  | nil => rw [List.append_nil]; rfl
  | cons y ys ih =>
      rw [List.foldlM_cons, List.append_cons]
      exact ih (xs ++ [y])

/-- Calling a builtin that prints nothing changes nothing. -/
theorem call_builtin (ctx : Context) {b : Builtin} (hb : b ≠ .puts) (args : List Value)
    (m : Machine) : (builtin b).call ctx args m = some (b.apply args, m) := by
  have hcall : (builtin b).call ctx args = Eval.callBuiltin b args := by
    rw [call]
    cases ctx.callAllowance <;> rfl
  cases b with
  | puts => exact absurd rfl hb
  | len | first | last | rest | push => simp [hcall, Eval.callBuiltin, Builtin.printed]

/-- The operations on arrays agree with indexing. It yields the items at the indices that
count the items before them, and `null` at every other. The first item is at 0 and the last
one before the length. Behind the first item, the rest has the same items one index earlier,
and there is none just if there is no item. A pushed value is at the length, and everything
else is where it was. Pushing the items of the rest to the first one makes the array again.
None of the calls changes anything, so an array stays as it is whatever is made from it. -/
theorem array_operations_agree (xs : List Value) (h : xs.length < 2 ^ 63) :
    ∃ n : Int64, n.toInt = xs.length ∧ Builtin.len.apply [.array xs] = .ok (.integer n) ∧
      (∀ i : Int64,
        (∀ (k : Nat) (hk : k < xs.length), i.toInt = k →
          (array xs).select (.integer i) = .ok xs[k]) ∧
        (i.toInt < 0 ∨ xs.length ≤ i.toInt → (array xs).select (.integer i) = .ok .null)) ∧
      Builtin.first.apply [.array xs] = (array xs).select (.integer 0) ∧
      Builtin.last.apply [.array xs] = (array xs).select (.integer (n - 1)) ∧
      (Builtin.rest.apply [.array xs] = .ok .null ↔ xs = []) ∧
      (xs ≠ [] → ∃ x ys, Builtin.first.apply [.array xs] = .ok x ∧
        Builtin.rest.apply [.array xs] = .ok (.array ys) ∧
        ys.length = xs.length - 1 ∧ Builtin.len.apply [.array ys] = .ok (.integer (n - 1)) ∧
        (∀ i : Int64, 0 ≤ i.toInt → i ≠ Int64.maxValue →
          (array ys).select (.integer i) = (array xs).select (.integer (i + 1))) ∧
        ys.foldlM (fun zs y => Builtin.push.apply [zs, y]) (array [x]) = .ok (.array xs)) ∧
      (∀ x, ∃ zs, Builtin.push.apply [.array xs, x] = .ok (.array zs) ∧
        zs.length = xs.length + 1 ∧ Builtin.len.apply [.array zs] = .ok (.integer (n + 1)) ∧
        (array zs).select (.integer n) = .ok x ∧
        ∀ i : Int64, i ≠ n → (array zs).select (.integer i) = (array xs).select (.integer i)) ∧
      ∀ ctx b args m, b ≠ .puts →
        (builtin b).call ctx args m = some (Builtin.apply b args, m) := by
  have hn : (Int64.ofNat xs.length).toInt = xs.length := Int64.toInt_ofNat_of_lt h
  refine ⟨Int64.ofNat xs.length, hn, rfl, fun i => ⟨fun k hk hi => ?inside, fun hi => ?outside⟩,
    ?first, ?last, ?null, fun hne => ?rest, fun x => ?push, fun ctx b args m hb => ?call⟩
  case inside =>
    rw [select, elementAt_of_eq hi, List.getElem?_eq_getElem hk]
    rfl
  case outside => rw [select, elementAt_outside hi]
  case first =>
    rw [select, elementAt_zero]
    rfl
  case last =>
    rw [select, elementAt_pred_length hn]
    rfl
  case null => cases xs <;> simp [Builtin.apply]
  case rest =>
    obtain ⟨x, ys, rfl⟩ := List.exists_cons_of_ne_nil hne
    have hpred : Int64.ofNat ys.length = Int64.ofNat (x :: ys).length - 1 := by
      simp [Int64.ofNat_add]
    refine ⟨x, ys, rfl, rfl, rfl, congrArg (Except.ok ∘ integer) hpred, fun i hi hmax => ?_,
      foldlM_push [x] ys⟩
    rw [select, select, elementAt_cons_succ hi hmax]
  case push =>
    have hsucc : Int64.ofNat (xs ++ [x]).length = Int64.ofNat xs.length + 1 := by
      simp [Int64.ofNat_add]
    refine ⟨xs ++ [x], rfl, List.length_append, congrArg (Except.ok ∘ integer) hsucc, ?_,
      fun i hi => ?_⟩
    · rw [select, elementAt_append_self hn]
    · rw [select, select, elementAt_append_of_ne hn hi]
  case call => exact call_builtin ctx hb args m

/-- An array of three items, indexed from either end and beyond, and made again. -/
theorem array_operations_agree_three :
    let xs : List Value := [.integer 7, .null, .string "a"]
    Builtin.len.apply [.array xs] = .ok (.integer 3) ∧
      (array xs).select (.integer 2) = .ok (.string "a") ∧
      (array xs).select (.integer Int64.minValue) = .ok .null ∧
      (array xs).select (.integer Int64.maxValue) = .ok .null ∧
      Builtin.last.apply [.array xs] = .ok (.string "a") ∧
      (∃ x ys, Builtin.first.apply [.array xs] = .ok x ∧
        Builtin.rest.apply [.array xs] = .ok (.array ys) ∧
        (array ys).select (.integer 1) = .ok (.string "a") ∧
        ys.foldlM (fun zs y => Builtin.push.apply [zs, y]) (array [x]) = .ok (.array xs)) ∧
      (builtin .rest).call {} [.array xs] .initial =
        some (.ok (.array [.null, .string "a"]), .initial) := by
  intro xs
  obtain ⟨n, hn, hlen, hindex, -, hlast, -, hrest, -, hcall⟩ :=
    array_operations_agree xs (by decide)
  obtain rfl : n = 3 := Int64.toInt_inj.1 hn
  obtain ⟨x, ys, hfirst, hys, -, -, hitems, hagain⟩ := hrest (List.cons_ne_nil _ _)
  have htwo := (hindex 2).1 2 (by decide) rfl
  exact ⟨hlen, htwo, (hindex _).2 (.inl (by decide)), (hindex _).2 (.inr (by decide)),
    hlast.trans htwo, ⟨x, ys, hfirst, hys, (hitems 1 (by decide) (by decide)).trans htwo, hagain⟩,
    hcall {} .rest _ .initial nofun⟩

end Value
end Treewalk
