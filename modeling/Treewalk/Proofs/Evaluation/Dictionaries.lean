import Treewalk.Proofs.Evaluation.Journal
import Treewalk.Proofs.Evaluation.Traits
import Treewalk.Proofs.Value.Equality

/-!
Literals of hashes. The pairs of a literal are evaluated from left to right, each key before
the value beside it. If every pair yields a key and a value, then the hash is the dictionary
of what they yield: its keys stand in the order in which each comes first, and each has the
value that comes last. Otherwise the literal ends with the first pair that stops, for which
there are three ways: its key does not end with a value, the key has a value that cannot be
a key, or the value beside it does not end with one. The induction is on the pairs before
the one that stops, with any entries that are there already.
-/

namespace Treewalk

section Rules

variable (ctx : Context) (allowance : Nat)

/-- The evaluation of the pairs of a literal, onto entries that are there already. -/
def evalHash (ps : List (Expr × Expr)) (entries : List (HashKey × Value)) : Eval Value := do
  let all ← evalPairs .prompt (callValue .prompt ctx allowance) ps entries
  pure (.hash all)

/-- What happens in the evaluation of the pairs of a literal. -/
def journalHash (ps : List (Expr × Expr)) : Journal :=
  journalPairs ctx allowance (journalCall ctx allowance) ps

/-- A pair yields a key and then a value. What happens in the first comes before all that
happens in the second, which begins where the first has ended. -/
inductive PairYields : Expr × Expr → Machine → HashKey × Value → List Event → Machine → Prop where
  | intro {k e : Expr} {m between after : Machine} {key : HashKey} {value : Value}
      (hkey : (Task.expr k).evalUnder ctx allowance m = some (.ok key.toValue, between))
      (hvalue : (Task.expr e).evalUnder ctx allowance between = some (.ok value, after)) :
      PairYields (k, e) m (key, value) ((Task.expr k).journal ctx allowance m ++
        (Task.expr e).journal ctx allowance between) after

/-- All pairs yield keys and values, one pair after another. -/
inductive PairsYield : List (Expr × Expr) → Machine → List (HashKey × Value) → List Event →
    Machine → Prop where
  | nil (m : Machine) : PairsYield [] m [] [] m
  | cons {p : Expr × Expr} {ps : List (Expr × Expr)} {m mid after : Machine}
      {entry : HashKey × Value} {entries : List (HashKey × Value)} {events later : List Event}
      (first : PairYields ctx allowance p m entry events mid)
      (rest : PairsYield ps mid entries later after) :
      PairsYield (p :: ps) m (entry :: entries) (events ++ later) after

/-- A run ends with no value: with an error, with a return or not at all. -/
def Valueless (outcome : Option (Except EvalError Value × Machine)) : Prop :=
  ∀ v after, outcome ≠ some (.ok v, after)

/-- A pair stops: at its key, if that yields nothing or what cannot be a key, and then
nothing happens in the value; or at its value. -/
inductive PairStops : Expr × Expr → Machine → Option (Except EvalError Value × Machine) →
    List Event → Prop where
  | unusable {k e : Expr} {m after : Machine} {v : Value}
      (hkey : (Task.expr k).evalUnder ctx allowance m = some (.ok v, after))
      (hunusable : HashKey.ofValue? v = none) :
      PairStops (k, e) m (some (.error (.unusableKey v.type), after))
        ((Task.expr k).journal ctx allowance m)
  | key {k e : Expr} {m : Machine} {outcome : Option (Except EvalError Value × Machine)}
      (hkey : (Task.expr k).evalUnder ctx allowance m = outcome) (hstops : Valueless outcome) :
      PairStops (k, e) m outcome ((Task.expr k).journal ctx allowance m)
  | value {k e : Expr} {m between : Machine} {key : HashKey}
      {outcome : Option (Except EvalError Value × Machine)}
      (hkey : (Task.expr k).evalUnder ctx allowance m = some (.ok key.toValue, between))
      (hvalue : (Task.expr e).evalUnder ctx allowance between = outcome)
      (hstops : Valueless outcome) :
      PairStops (k, e) m outcome ((Task.expr k).journal ctx allowance m ++
        (Task.expr e).journal ctx allowance between)

/-- The pairs of a literal are evaluated onto entries with this outcome, and this happens. -/
structure HashRuns (ps : List (Expr × Expr)) (entries : List (HashKey × Value)) (m : Machine)
    (outcome : Option (Except EvalError Value × Machine)) (events : List Event) : Prop where
  outcome_eq : evalHash ctx allowance ps entries m = outcome
  journal_eq : journalHash ctx allowance ps m = events

end Rules

section Pairs

variable {ctx : Context} {allowance : Nat} {p : Expr × Expr} {ps more : List (Expr × Expr)}
  {m mid : Machine} {events : List Event}
  {outcome : Option (Except EvalError Value × Machine)}

namespace Valueless

theorem cases (outcome : Option (Except EvalError Value × Machine)) :
    (∃ v after, outcome = some (.ok v, after)) ∨ Valueless outcome := by
  obtain rfl | ⟨v, after, rfl⟩ | ⟨e, after, rfl⟩ := Run.ended outcome
  · exact .inr nofun
  · exact .inl ⟨v, after, rfl⟩
  · exact .inr nofun

variable {run : Eval Value}

theorem bind_eq (h : Valueless (run m)) (next : Value → Eval Value) :
    (run >>= next) m = run m := by
  rw [Run.bind_apply]
  obtain hm | ⟨v, after, hm⟩ | ⟨e, after, hm⟩ := Run.ended (run m)
  · rw [hm]
  · exact absurd hm (h v after)
  · rw [hm]

theorem andThen_eq (h : Valueless (run m)) (journal : Journal) (next : Value → Journal) :
    Journal.andThen run journal next m = journal m := by
  rw [Journal.andThen]
  obtain hm | ⟨v, after, hm⟩ | ⟨e, after, hm⟩ := Run.ended (run m)
  · rw [hm, List.append_nil]
  · exact absurd hm (h v after)
  · rw [hm, List.append_nil]

end Valueless

/-- Every pair yields or stops. -/
theorem pair_cases (ctx : Context) (allowance : Nat) (p : Expr × Expr) (m : Machine) :
    (∃ entry events after, PairYields ctx allowance p m entry events after) ∨
      ∃ outcome events, PairStops ctx allowance p m outcome events := by
  obtain ⟨k, e⟩ := p
  obtain ⟨v, between, hkey⟩ | hstops :=
    Valueless.cases ((Task.expr k).evalUnder ctx allowance m)
  · cases hv : HashKey.ofValue? v with
    | none => exact .inr ⟨_, _, .unusable hkey hv⟩
    | some key =>
        rw [← HashKey.toValue_of_ofValue? hv] at hkey
        obtain ⟨w, after, hvalue⟩ | hstops :=
          Valueless.cases ((Task.expr e).evalUnder ctx allowance between)
        · exact .inl ⟨_, _, _, .intro hkey hvalue⟩
        · exact .inr ⟨_, _, .value hkey rfl hstops⟩
  · exact .inr ⟨_, _, .key rfl hstops⟩

/-- All pairs yield, or there is a first one that stops. -/
theorem pairs_cases (ctx : Context) (allowance : Nat) (ps : List (Expr × Expr)) (m : Machine) :
    (∃ pairs events after, PairsYield ctx allowance ps m pairs events after) ∨
      ∃ before p later pairs events mid outcome more, ps = before ++ p :: later ∧
        PairsYield ctx allowance before m pairs events mid ∧
        PairStops ctx allowance p mid outcome more := by
  induction ps generalizing m with
  | nil => exact .inl ⟨_, _, _, .nil m⟩
  | cons p ps ih =>
      obtain ⟨entry, events, mid, hp⟩ | ⟨outcome, events, hp⟩ := pair_cases ctx allowance p m
      · obtain ⟨pairs, more, after, hps⟩ |
          ⟨before, q, later, pairs, more, last, outcome, rest, rfl, hbefore, hq⟩ := ih mid
        · exact .inl ⟨_, _, _, .cons hp hps⟩
        · exact .inr ⟨_, q, later, _, _, last, outcome, rest, rfl, .cons hp hbefore, hq⟩
      · exact .inr ⟨[], p, ps, [], [], m, outcome, events, rfl, .nil m, hp⟩

theorem Journal.andThen_of_ok {α : Type} {run : Eval α} {a : α} {after : Machine}
    {journal : Journal} {next : α → Journal} (h : run m = some (.ok a, after)) :
    Journal.andThen run journal next m = journal m ++ next a after := by
  rw [Journal.andThen, h]

theorem evalHash_cons (ctx : Context) (allowance : Nat) (k e : Expr) (ps : List (Expr × Expr))
    (entries : List (HashKey × Value)) :
    evalHash ctx allowance ((k, e) :: ps) entries = (do
      let v ← (Task.expr k).evalUnder ctx allowance
      match HashKey.ofValue? v with
      | none => Run.fail (.unusableKey v.type)
      | some key =>
          let value ← (Task.expr e).evalUnder ctx allowance
          evalHash ctx allowance ps (Entries.put key value entries)) := by
  rw [evalHash, evalPairs, bind_assoc]
  congr 1
  funext v
  cases HashKey.ofValue? v with
  | none => rfl
  | some key => exact bind_assoc ..

theorem journalHash_cons (ctx : Context) (allowance : Nat) (k e : Expr)
    (ps : List (Expr × Expr)) :
    journalHash ctx allowance ((k, e) :: ps) =
      .andThen ((Task.expr k).evalUnder ctx allowance) ((Task.expr k).journal ctx allowance)
        fun v =>
          match HashKey.ofValue? v with
          | none => .still
          | some _ =>
              .andThen ((Task.expr e).evalUnder ctx allowance)
                ((Task.expr e).journal ctx allowance) fun _ => journalHash ctx allowance ps :=
  rfl

namespace HashRuns

variable {entries : List (HashKey × Value)} {later : List Event}

theorem nil (ctx : Context) (allowance : Nat) (entries : List (HashKey × Value)) (m : Machine) :
    HashRuns ctx allowance [] entries m (some (.ok (.hash entries), m)) [] :=
  ⟨rfl, rfl⟩

/-- The entry of a pair that yields is put before the pairs behind it are evaluated. -/
theorem cons {entry : HashKey × Value} (hp : PairYields ctx allowance p m entry events mid)
    (h : HashRuns ctx allowance ps (Entries.put entry.1 entry.2 entries) mid outcome later) :
    HashRuns ctx allowance (p :: ps) entries m outcome (events ++ later) := by
  obtain ⟨hkey, hvalue⟩ := hp
  constructor
  · rw [evalHash_cons]
    simpa [Run.bind_apply, hkey, hvalue] using h.outcome_eq
  · rw [journalHash_cons]
    simp [Journal.andThen_of_ok hkey, Journal.andThen_of_ok hvalue, h.journal_eq]

/-- Pairs that yield have put their entries when the pairs behind them are evaluated. -/
theorem append {pairs : List (HashKey × Value)}
    (hps : PairsYield ctx allowance ps m pairs events mid)
    (h : HashRuns ctx allowance more (Entries.putAll pairs entries) mid outcome later) :
    HashRuns ctx allowance (ps ++ more) entries m outcome (events ++ later) := by
  induction hps generalizing entries with
  | nil m => exact h
  | cons first rest ih =>
      rw [List.append_assoc]
      exact cons first (ih h)

/-- The pairs behind one that stops are not begun. -/
theorem stop (hp : PairStops ctx allowance p m outcome events) (ps : List (Expr × Expr))
    (entries : List (HashKey × Value)) :
    HashRuns ctx allowance (p :: ps) entries m outcome events := by
  cases hp with
  | unusable hkey hunusable =>
      constructor
      · simp [evalHash_cons, Run.bind_apply, hkey, hunusable]
      · simp [journalHash_cons, Journal.andThen_of_ok hkey, hunusable, Journal.still]
  | key hkey hstops =>
      subst hkey
      constructor
      · rw [evalHash_cons, hstops.bind_eq]
      · rw [journalHash_cons, hstops.andThen_eq]
  | value hkey hvalue hstops =>
      subst hvalue
      constructor
      · simpa [evalHash_cons, Run.bind_apply, hkey] using hstops.bind_eq _
      · simpa [journalHash_cons, Journal.andThen_of_ok hkey] using hstops.andThen_eq ..

/-- Pairs that all yield make the dictionary of what they yield. -/
theorem of_yield {pairs : List (HashKey × Value)} {after : Machine}
    (h : PairsYield ctx allowance ps m pairs events after) :
    HashRuns ctx allowance ps [] m (some (.ok (.hash (Entries.putAll pairs [])), after))
      events := by
  have hruns := append h (nil ctx allowance (Entries.putAll pairs []) after)
  rwa [List.append_nil, List.append_nil] at hruns

end HashRuns

end Pairs

/-- In a dictionary of pairs, what comes last with a key is selected by the key. -/
theorem Value.select_dictionary {pairs entries : List (HashKey × Value)}
    (h : Entries.DictionaryOf pairs entries) {index : Value} {key : HashKey}
    (hkey : HashKey.ofValue? index = some key) :
    (hash entries).select index = .ok ((pairs.reverse.lookup key).getD .null) := by
  simp only [select, hkey, entryAt, h.get?_eq]

/-- No program makes a hash with two entries for a key, and none is made inside of what the
program yields or binds. -/
theorem Program.wellKeyed_of_evalUnder {policy : Reclamation} {ctx : Context} {allowance : Nat}
    {p : Program} {m after : Machine} {v : Value}
    (hm : m.environment.arena.Binds Value.WellKeyed)
    (h : p.evalUnder policy ctx allowance m = some (.ok v, after)) :
    after.environment.arena.Binds Value.WellKeyed ∧ v.WellKeyed :=
  Trait.wellKeyed.keeps_evalUnder policy ctx allowance p m _ after hm h

/-- A literal of a hash evaluates its pairs one after another, unless asked to stop. Either all
of them yield a key and a value, or there is a first one that stops. If all yield, then the
literal yields a hash, and leaves the machine as the last of them does. The hash has one
entry for each key, in the order in which each comes first, with the value that comes last;
every value that can be a key selects that value from it, or `null` if the key is none of
those. If a pair stops, then the literal ends as the pair does, and nothing has happened but
what does in the pairs before it and in the pair itself. One whose key has a value that
cannot be a key stops with an error for the type of that value, and its own value is not
begun. -/
theorem hash_literal_makes_dictionary (ctx : Context) (allowance : Nat) (t : Token)
    (ps : List (Expr × Expr)) (m : Machine) :
    (Task.expr (.hash t ps)).evalUnder ctx allowance =
      Eval.unlessInterrupted (evalHash ctx allowance ps []) ∧
    (Task.expr (.hash t ps)).journal ctx allowance =
      .ofNode ctx allowance (.expr (.hash t ps))
        (.unlessInterrupted (journalHash ctx allowance ps)) ∧
    ((∃ pairs events after, PairsYield ctx allowance ps m pairs events after) ∨
      ∃ before p later pairs events mid outcome more, ps = before ++ p :: later ∧
        PairsYield ctx allowance before m pairs events mid ∧
        PairStops ctx allowance p mid outcome more) ∧
    (∀ pairs events after, PairsYield ctx allowance ps m pairs events after →
      ∃ entries, HashRuns ctx allowance ps [] m (some (.ok (.hash entries), after)) events ∧
        Entries.DictionaryOf pairs entries ∧
        ∀ index key, HashKey.ofValue? index = some key →
          (Value.hash entries).select index = .ok ((pairs.reverse.lookup key).getD .null)) ∧
    ∀ before p later pairs events mid outcome more, ps = before ++ p :: later →
      PairsYield ctx allowance before m pairs events mid →
      PairStops ctx allowance p mid outcome more →
      HashRuns ctx allowance ps [] m outcome (events ++ more) := by
  refine ⟨rfl, rfl, pairs_cases ctx allowance ps m, fun pairs events after h => ?_, ?_⟩
  · have hdictionary := Entries.dictionaryOf_putAll pairs
    exact ⟨_, .of_yield h, hdictionary, fun index key => Value.select_dictionary hdictionary⟩
  · rintro before p later pairs events mid outcome more rfl hbefore hp
    exact .append hbefore (.stop hp later _)

/-- A literal with a key twice, and one with an array for a key, before a value that would
print a text. -/
theorem hash_literal_makes_dictionary_repeated :
    let a := Expr.string ⟨.string, "a"⟩
    let b := Expr.string ⟨.string, "b"⟩
    let one := Expr.integer ⟨.int, "1"⟩ 1
    let two := Expr.integer ⟨.int, "2"⟩ 2
    let items := Expr.array ⟨.lbracket, "["⟩ []
    let call := Expr.call ⟨.lparen, "("⟩ (.name ⟨.ident, "puts"⟩) [a]
    let m (looks : Nat) : Machine := Machine.initial.lookTimes looks
    let events (e : Expr) (looks : Nat) := (Task.expr e).journal {} 0 (m looks)
    (∃ entries, HashRuns {} 0 [(a, one), (b, two), (a, two)] [] (m 0)
        (some (.ok (.hash entries), m 6))
        (events a 0 ++ events one 1 ++
          (events b 2 ++ events two 3 ++ (events a 4 ++ events two 5))) ∧
      Entries.keys entries = [.string "a", .string "b"] ∧
      (Value.hash entries).select (.string "a") = .ok (.integer 2) ∧
      (Value.hash entries).select (.integer 1) = .ok .null) ∧
    HashRuns {} 0 [(a, one), (items, call), (b, two)] [] (m 0)
      (some (.error (.unusableKey .array), m 3))
      (events a 0 ++ events one 1 ++ events items 2) := by
  intro a b one two items call m events
  have hab : PairYields {} 0 (a, one) (m 0) (.string "a", .integer 1)
      (events a 0 ++ events one 1) (m 2) := .intro rfl rfl
  have hb : PairYields {} 0 (b, two) (m 2) (.string "b", .integer 2)
      (events b 2 ++ events two 3) (m 4) := .intro rfl rfl
  have ha : PairYields {} 0 (a, two) (m 4) (.string "a", .integer 2)
      (events a 4 ++ events two 5) (m 6) := .intro rfl rfl
  have hitems : (Task.expr items).evalUnder {} 0 (m 2) = some (.ok (.array []), m 3) := rfl
  obtain ⟨-, -, -, hyield, -⟩ := hash_literal_makes_dictionary {} 0 ⟨.lbrace, "\x7b"⟩
    [(a, one), (b, two), (a, two)] (m 0)
  obtain ⟨entries, hruns, hentries, hselect⟩ :=
    hyield _ _ _ (.cons hab (.cons hb (.cons ha (.nil _))))
  rw [List.append_nil] at hruns
  obtain ⟨-, -, -, -, hstop⟩ := hash_literal_makes_dictionary {} 0 ⟨.lbrace, "\x7b"⟩
    [(a, one), (items, call), (b, two)] (m 0)
  have hunusable := hstop [(a, one)] (items, call) [(b, two)] _ _ _ _ _ rfl (.cons hab (.nil _))
    (.unusable hitems rfl)
  rw [List.append_nil] at hunusable
  exact ⟨⟨entries, hruns, hentries.keys_eq.trans (by decide), hselect (.string "a") _ rfl,
    hselect (.integer 1) _ rfl⟩, hunusable⟩

end Treewalk
