import Treewalk.Evaluation.Operators

/-!
Values that differ in their functions only. Given which functions answer to which,
two values are alike if one is the other with functions exchanged, at any depth.
Operators, indices and builtins cannot tell alike values apart: they fail with the
same error or yield alike values, and alike values are shown by the same text.
-/

namespace Treewalk

mutual

/-- One value is the other with functions exchanged for functions that answer to
them. -/
inductive Value.Alike (R : Function → Function → Prop) : Value → Value → Prop where
  | integer (n : Int64) : Value.Alike R (.integer n) (.integer n)
  | boolean (b : Bool) : Value.Alike R (.boolean b) (.boolean b)
  | string (s : String) : Value.Alike R (.string s) (.string s)
  | null : Value.Alike R .null .null
  | array {xs ys : List Value} (items : AlikeItems R xs ys) : Value.Alike R (.array xs) (.array ys)
  | hash {es fs : List (HashKey × Value)} (keys : es.map Prod.fst = fs.map Prod.fst)
      (values : AlikeItems R (es.map Prod.snd) (fs.map Prod.snd)) :
      Value.Alike R (.hash es) (.hash fs)
  | function {f g : Function} (answers : R f g) : Value.Alike R (.function f) (.function g)
  | builtin (b : Builtin) : Value.Alike R (.builtin b) (.builtin b)
  | error (message : String) : Value.Alike R (.error message) (.error message)

/-- Lists of values alike, item for item. -/
inductive AlikeItems (R : Function → Function → Prop) : List Value → List Value → Prop where
  | nil : AlikeItems R [] []
  | cons {v w : Value} {vs ws : List Value} (head : Value.Alike R v w)
      (tail : AlikeItems R vs ws) : AlikeItems R (v :: vs) (w :: ws)

end

/-- Entries with the same keys in the same order and alike values. -/
def AlikeEntries {κ : Type} (R : Function → Function → Prop) (es fs : List (κ × Value)) :
    Prop :=
  es.map Prod.fst = fs.map Prod.fst ∧ AlikeItems R (es.map Prod.snd) (fs.map Prod.snd)

/-- The errors of operations on values: not those of calls and scopes, and no return. -/
def EvalError.isFault : EvalError → Bool
  | .stackOverflow _ _ | .interrupted | .danglingScope | .returning _ => false
  | _ => true

/-- Alike values, or the same fault. -/
inductive AlikeResults (R : Function → Function → Prop) :
    Except EvalError Value → Except EvalError Value → Prop where
  | ok {v w : Value} (values : Value.Alike R v w) : AlikeResults R (.ok v) (.ok w)
  | error {e : EvalError} (fault : e.isFault = true) : AlikeResults R (.error e) (.error e)

section

variable {R S : Function → Function → Prop} {κ : Type}

mutual

theorem Value.Alike.mono {v w : Value} (hRS : ∀ f g, R f g → S f g) :
    Value.Alike R v w → Value.Alike S v w
  | .integer n => .integer n
  | .boolean b => .boolean b
  | .string s => .string s
  | .null => .null
  | .array items => .array (items.mono hRS)
  | .hash keys values => .hash keys (values.mono hRS)
  | .function answers => .function (hRS _ _ answers)
  | .builtin b => .builtin b
  | .error message => .error message

theorem AlikeItems.mono {vs ws : List Value} (hRS : ∀ f g, R f g → S f g) :
    AlikeItems R vs ws → AlikeItems S vs ws
  | .nil => .nil
  | .cons head tail => .cons (head.mono hRS) (tail.mono hRS)

end

theorem AlikeEntries.mono {es fs : List (κ × Value)} (h : AlikeEntries R es fs)
    (hRS : ∀ f g, R f g → S f g) : AlikeEntries S es fs :=
  ⟨h.1, h.2.mono hRS⟩

theorem AlikeEntries.nil : AlikeEntries R ([] : List (κ × Value)) [] :=
  ⟨rfl, .nil⟩

theorem AlikeEntries.cons {es fs : List (κ × Value)} (k : κ) {v w : Value}
    (head : Value.Alike R v w) (tail : AlikeEntries R es fs) :
    AlikeEntries R ((k, v) :: es) ((k, w) :: fs) :=
  ⟨by simp [tail.1], .cons head tail.2⟩

theorem AlikeEntries.cases {es fs : List (κ × Value)} (h : AlikeEntries R es fs) :
    (es = [] ∧ fs = []) ∨ ∃ k v w es' fs', es = (k, v) :: es' ∧ fs = (k, w) :: fs' ∧
      Value.Alike R v w ∧ AlikeEntries R es' fs' := by
  obtain ⟨keys, values⟩ := h
  cases es with
  | nil =>
      cases fs with
      | nil => exact .inl ⟨rfl, rfl⟩
      | cons f fs => simp at keys
  | cons e es =>
      cases fs with
      | nil => simp at keys
      | cons f fs =>
          obtain ⟨k, v⟩ := e
          obtain ⟨l, w⟩ := f
          simp only [List.map_cons, List.cons.injEq] at keys
          obtain ⟨rfl, keys⟩ := keys
          cases values with
          | cons head tail => exact .inr ⟨k, v, w, es, fs, rfl, rfl, head, keys, tail⟩

theorem AlikeItems.length_eq {vs ws : List Value} :
    AlikeItems R vs ws → vs.length = ws.length
  | .nil => rfl
  | .cons _ tail => congrArg (· + 1) tail.length_eq

theorem AlikeItems.append {vs ws vs' ws' : List Value} (h : AlikeItems R vs ws)
    (h' : AlikeItems R vs' ws') : AlikeItems R (vs ++ vs') (ws ++ ws') := by
  cases h with
  | nil => exact h'
  | cons head tail => exact .cons head (tail.append h')

theorem AlikeItems.getElem? {vs ws : List Value} (h : AlikeItems R vs ws) (i : Nat) :
    Value.Alike R (vs[i]?.getD .null) (ws[i]?.getD .null) := by
  cases h with
  | nil => simpa using .null
  | cons head tail =>
      cases i with
      | zero => simpa using head
      | succ i => simpa using tail.getElem? i

theorem AlikeItems.getLast? {vs ws : List Value} (h : AlikeItems R vs ws) :
    Value.Alike R (vs.getLast?.getD .null) (ws.getLast?.getD .null) := by
  rw [List.getLast?_eq_getElem?, List.getLast?_eq_getElem?, h.length_eq]
  exact h.getElem? _

/-! What alike values have in common. -/

namespace Value.Alike

variable {v w : Value}

theorem type_eq (h : Alike R v w) : v.type = w.type := by
  cases h <;> rfl

theorem isTruthy_eq (h : Alike R v w) : v.isTruthy = w.isTruthy := by
  cases h <;> rfl

theorem error?_eq (h : Alike R v w) : v.error? = w.error? := by
  cases h <;> rfl

theorem ofValue?_eq (h : Alike R v w) : HashKey.ofValue? v = HashKey.ofValue? w := by
  cases h <;> rfl

end Value.Alike

theorem inspectEntries_eq_zipWith (es : List (HashKey × Value)) :
    inspectEntries es =
      List.zipWith (fun k text => k.inspect ++ ": " ++ text) (es.map Prod.fst)
        (inspectItems (es.map Prod.snd)) := by
  induction es with
  | nil => rfl
  | cons e es ih =>
      obtain ⟨k, v⟩ := e
      simp [inspectEntries, inspectItems, ih]

mutual

/-- Alike values look the same if functions that answer to each other do. -/
theorem Value.Alike.inspect_eq {v w : Value} (hR : ∀ f g, R f g → f.inspect = g.inspect) :
    Value.Alike R v w → v.inspect = w.inspect
  | .integer _ | .boolean _ | .string _ | .null | .builtin _ | .error _ => rfl
  | .array items => by rw [Value.inspect, Value.inspect, items.inspect_eq hR]
  | .hash keys values => by
      rw [Value.inspect, Value.inspect, inspectEntries_eq_zipWith, inspectEntries_eq_zipWith,
        keys, values.inspect_eq hR]
  | .function answers => by rw [Value.inspect, Value.inspect, hR _ _ answers]

theorem AlikeItems.inspect_eq {vs ws : List Value} (hR : ∀ f g, R f g → f.inspect = g.inspect) :
    AlikeItems R vs ws → inspectItems vs = inspectItems ws
  | .nil => rfl
  | .cons head tail => by
      rw [inspectItems, inspectItems, head.inspect_eq hR, tail.inspect_eq hR]

end

theorem inspectItems_eq_map (vs : List Value) : inspectItems vs = vs.map Value.inspect := by
  induction vs with
  | nil => rfl
  | cons v vs ih => rw [inspectItems, List.map_cons, ih]

/-! Dictionaries of alike values. -/

theorem AlikeEntries.get? [DecidableEq κ] {es fs : List (κ × Value)} (h : AlikeEntries R es fs)
    (key : κ) :
    (Entries.get? key es = none ∧ Entries.get? key fs = none) ∨
      ∃ v w, Entries.get? key es = some v ∧ Entries.get? key fs = some w ∧
        Value.Alike R v w := by
  induction es generalizing fs with
  | nil =>
      obtain ⟨-, rfl⟩ | ⟨k, v, w, es', fs', he, -⟩ := h.cases
      · exact .inl ⟨rfl, rfl⟩
      · cases he
  | cons e es ih =>
      obtain ⟨he, -⟩ | ⟨k, v, w, es', fs', he, rfl, head, tail⟩ := h.cases
      · cases he
      · cases he
        by_cases hk : k = key
        · exact .inr ⟨v, w, by simp [Entries.get?, hk], by simp [Entries.get?, hk], head⟩
        · simpa [Entries.get?, hk] using ih tail

theorem AlikeEntries.put [DecidableEq κ] {es fs : List (κ × Value)} (h : AlikeEntries R es fs)
    (key : κ) {v w : Value} (hvw : Value.Alike R v w) :
    AlikeEntries R (Entries.put key v es) (Entries.put key w fs) := by
  induction es generalizing fs with
  | nil =>
      obtain ⟨-, rfl⟩ | ⟨k, v', w', es', fs', he, -⟩ := h.cases
      · exact .cons key hvw .nil
      · cases he
  | cons e es ih =>
      obtain ⟨he, -⟩ | ⟨k, v', w', es', fs', he, rfl, head, tail⟩ := h.cases
      · cases he
      · cases he
        by_cases hk : k = key
        · simpa [Entries.put, hk] using tail.cons key hvw
        · simpa [Entries.put, hk] using (ih tail).cons k head

/-! Operations on alike values. -/

theorem PrefixOp.apply_alike (op : PrefixOp) {v w : Value} (h : Value.Alike R v w) :
    AlikeResults R (op.apply v) (op.apply w) := by
  cases op with
  | not =>
      rw [apply, apply, h.isTruthy_eq]
      exact .ok (.boolean _)
  | negate =>
      cases h with
      | integer n => exact .ok (.integer _)
      | boolean | string | null | array | hash | function | builtin | error => exact .error rfl

theorem InfixOp.applyIntegers_alike (op : InfixOp) (l r : Int64) :
    AlikeResults R (op.applyIntegers l r) (op.applyIntegers l r) := by
  cases op with
  | add | subtract | multiply => exact .ok (.integer _)
  | less | greater | equal | unequal => exact .ok (.boolean _)
  | divide =>
      rw [applyIntegers]
      split
      · exact .error rfl
      · exact .ok (.integer _)

theorem InfixOp.applyEquality_alike (op : InfixOp) (type : ValueType) (areEqual : Bool) :
    AlikeResults R (op.applyEquality type areEqual) (op.applyEquality type areEqual) := by
  cases op with
  | equal | unequal => exact .ok (.boolean _)
  | add | subtract | multiply | divide | less | greater => exact .error rfl

theorem InfixOp.apply_alike (op : InfixOp) {l l' r r' : Value} (hl : Value.Alike R l l')
    (hr : Value.Alike R r r') : AlikeResults R (op.apply l r) (op.apply l' r') := by
  rw [apply.eq_def op l r]
  split
  · cases hl
    cases hr
    exact applyIntegers_alike ..
  · cases hl
    cases hr
    simp only [apply]
    split
    · exact .ok (.string _)
    · exact applyEquality_alike ..
  · cases hl
    cases hr
    exact applyEquality_alike ..
  · cases hl
    cases hr
    exact applyEquality_alike ..
  · rename_i hinteger hstring hboolean hnull
    -- what matches no rule on the left matches none on the right
    have hother : op.apply l' r' =
        if l'.type = r'.type then .error (.unknownInfixOp l'.type op r'.type)
        else .error (.typeMismatch l'.type op r'.type) := by
      rw [apply.eq_def]
      split
      · cases hl
        cases hr
        exact (hinteger _ _ rfl rfl).elim
      · cases hl
        cases hr
        exact (hstring _ _ rfl rfl).elim
      · cases hl
        cases hr
        exact (hboolean _ _ rfl rfl).elim
      · cases hl
        cases hr
        exact (hnull rfl rfl).elim
      · rfl
    rw [hother, hl.type_eq, hr.type_eq]
    split
    · exact .error rfl
    · exact .error rfl

theorem Value.elementAt_alike {vs ws : List Value} (h : AlikeItems R vs ws) (i : Int64) :
    Value.Alike R (elementAt vs i) (elementAt ws i) := by
  rw [elementAt, elementAt]
  split
  · exact .null
  · exact h.getElem? _

theorem Value.entryAt_alike {es fs : List (HashKey × Value)} (h : AlikeEntries R es fs)
    (key : HashKey) : Value.Alike R (entryAt es key) (entryAt fs key) := by
  rw [entryAt, entryAt]
  obtain ⟨he, hf⟩ | ⟨v, w, he, hf, hvw⟩ := h.get? key
  · rw [he, hf]
    exact .null
  · rw [he, hf]
    exact hvw

theorem Value.select_alike {v w i j : Value} (h : Value.Alike R v w) (hi : Value.Alike R i j) :
    AlikeResults R (v.select i) (w.select j) := by
  cases h with
  | array items =>
      cases hi with
      | integer n => exact .ok (elementAt_alike items n)
      | boolean | string | null | array | hash | function | builtin | error => exact .error rfl
  | hash keys values =>
      simp only [select, hi.ofValue?_eq, hi.type_eq]
      split
      · exact .ok (entryAt_alike ⟨keys, values⟩ _)
      · exact .error rfl
  | integer | boolean | string | null | function | builtin | error => exact .error rfl

theorem Builtin.apply_alike (b : Builtin) {args args' : List Value}
    (h : AlikeItems R args args') : AlikeResults R (b.apply args) (b.apply args') := by
  cases h with
  | nil => cases b with
    | puts => exact .ok .null
    | len | first | last | rest | push => exact .error rfl
  | cons head tail => cases tail with
    | nil => cases b with
      | puts => exact .ok .null
      | push =>
          simp only [apply]
          exact .error rfl
      | len => cases head with
        | array items =>
            rw [apply, apply, items.length_eq]
            exact .ok (.integer _)
        | string => exact .ok (.integer _)
        | integer | boolean | null | hash | function | builtin | error => exact .error rfl
      | first => cases head with
        | array items =>
            rw [apply, apply, List.head?_eq_getElem?, List.head?_eq_getElem?]
            exact .ok (items.getElem? 0)
        | integer | boolean | string | null | hash | function | builtin | error =>
            exact .error rfl
      | last => cases head with
        | array items => exact .ok items.getLast?
        | integer | boolean | string | null | hash | function | builtin | error =>
            exact .error rfl
      | rest => cases head with
        | array items => cases items with
          | nil => exact .ok .null
          | cons _ items => exact .ok (.array items)
        | integer | boolean | string | null | hash | function | builtin | error =>
            exact .error rfl
    | cons head' tail => cases tail with
      | nil => cases b with
        | puts => exact .ok .null
        | push => cases head with
          | array items => exact .ok (.array (items.append (.cons head' .nil)))
          | integer | boolean | string | null | hash | function | builtin | error =>
              exact .error rfl
        | len | first | last | rest =>
            simp only [apply]
            exact .error rfl
      | cons head'' tail =>
          have hlength := tail.length_eq
          cases b with
          | puts => exact .ok .null
          | len | first | last | rest | push =>
              simp only [apply, List.length_cons, hlength]
              exact .error rfl

theorem Builtin.printed_alike (hR : ∀ f g, R f g → f.inspect = g.inspect) (b : Builtin)
    {args args' : List Value} (h : AlikeItems R args args') :
    b.printed args = b.printed args' := by
  cases b with
  | puts => rw [printed, printed, ← inspectItems_eq_map, ← inspectItems_eq_map, h.inspect_eq hR]
  | len | first | last | rest | push => rfl

end

end Treewalk
