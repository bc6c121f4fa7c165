import Treewalk.Proofs.Evaluation.Reclamation
import Treewalk.Proofs.Evaluation.Traits
import Treewalk.Session
import Treewalk.Token.Json

/-!
Error values and errors. A session tells from the value of a program whether it has failed,
since an error of the evaluation has been made an error value by then. This is sound: no
evaluation yields, carries in a return or leaves behind in a scope a value that is an error
or holds one, unless one was there before. So an error value stands for an error that has
just ended the program, and for nothing else.
-/

namespace Treewalk
namespace Machine

/-- No live scope binds a value that is an error or holds one. -/
def ErrorFree (m : Machine) : Prop :=
  m.environment.arena.Binds Value.ErrorFree

/-- A machine on which programs and chunks have run, and nothing else. Others may have asked
them to stop. -/
inductive Used : Machine → Prop where
  | fresh (flag : Flag) : Used (.fresh flag)
  /-- a program without what is done at its end, whether or not it has failed -/
  | evaluated {m after : Machine} {r : Except EvalError Value} (before : Used m) (ctx : Context)
      (allowance : Nat) (p : Program)
      (given : p.evalUnder .prompt ctx allowance m = some (r, after)) : Used after
  | run {m after : Machine} {v : Value} (before : Used m) (ctx : Context) (allowance : Nat)
      (p : Program) (given : p.runUnder .prompt ctx allowance m = some (v, after)) : Used after
  | chunk {m after : Machine} {answer : Response} (before : Used m) (s : Session)
      (source : String) (given : s.run source m = some (answer, after)) : Used after

theorem errorFree_fresh (flag : Flag) : (fresh flag).ErrorFree :=
  (Arena.binds_empty.alloc none).pin _

/-- A chunk runs its program or leaves the machine alone. -/
theorem ErrorFree.chunk {m after : Machine} {s : Session} {source : String} {answer : Response}
    (h : m.ErrorFree) (hrun : s.run source m = some (answer, after)) : after.ErrorFree := by
  unfold Session.run at hrun
  split at hrun
  · cases hrun
    exact h
  · split at hrun <;> cases hrun <;> exact h
  · split at hrun
    · split at hrun
      · rename_i hm
        cases hrun
        exact Trait.errorFree.binds_runUnder .prompt s.context h hm
      · cases hrun
    · cases hrun
      exact h

theorem Used.errorFree {m : Machine} (h : m.Used) : m.ErrorFree := by
  induction h with
  | fresh flag => exact errorFree_fresh flag
  | evaluated _ ctx allowance p given ih =>
      exact (Trait.errorFree.keeps_evalUnder .prompt ctx allowance p _ _ _ ih given).1
  | run _ ctx allowance p given ih => exact Trait.errorFree.binds_runUnder .prompt ctx ih given
  | chunk _ s source given ih => exact ih.chunk given

end Machine

theorem EvalError.isError_toValue {e : EvalError} (h : ∀ v, e ≠ .returning v) :
    e.toValue.isError = true := by
  cases e with
  | returning v => exact absurd rfl (h v)
  | _ => rfl

/-- What a program yields on a machine without error values is none. -/
theorem Program.isError_iff {ctx : Context} {allowance : Nat} {p : Program} {m : Machine}
    (h : m.ErrorFree) :
    (∃ v after, p.runUnder .prompt ctx allowance m = some (v, after) ∧ v.isError = true) ↔
      ∃ e after, p.evalUnder .prompt ctx allowance m = some (.error e, after) := by
  constructor
  · rintro ⟨v, after, hrun, herror⟩
    rw [Program.runUnder] at hrun
    split at hrun
    · cases hrun
    · rename_i hm
      cases hrun
      have hfree : v.ErrorFree :=
        (Trait.errorFree.keeps_evalUnder .prompt ctx allowance p m _ _ h hm).2
      rw [hfree.isError_eq] at herror
      cases herror
    · rename_i e t hm
      exact ⟨e, t, hm⟩
  · rintro ⟨e, after, heval⟩
    refine ⟨e.toValue, _, by rw [Program.runUnder, heval], EvalError.isError_toValue ?_⟩
    rintro v rfl
    exact Eval.endReturn_ne_returning heval

/-- A chunk that is run fails if its program yields an error value. -/
theorem Session.runtimeError_iff {s : Session} (hs : s.mode = .eval) {source : String}
    {m : Machine} :
    (∃ written after, s.run source m = some (⟨.runtimeError, written⟩, after)) ↔
      ∃ p, Program.ofText source = (p, []) ∧
        ∃ v after, p.run s.context m = some (v, after) ∧ v.isError = true := by
  unfold Session.run
  rw [hs]
  constructor
  · rintro ⟨written, after, hrun⟩
    dsimp only at hrun
    split at hrun
    · rename_i p htext
      split at hrun
      · rename_i v t hm
        refine ⟨p, htext, v, t, hm, ?_⟩
        cases herror : v.isError with
        | true => rfl
        | false =>
            rw [Session.answer, herror] at hrun
            cases hrun
      · cases hrun
    · cases hrun
  · rintro ⟨p, htext, v, after, hrun, herror⟩
    refine ⟨v.inspect ++ "\n", after, ?_⟩
    rw [htext]
    dsimp only
    rw [hrun]
    dsimp only
    rw [Session.answer, herror]
    rfl

/-- An evaluation of a program never makes an error value that it yields, carries or binds, if
none is bound before. So on a machine that nothing else has run on a program yields an error
value just when its evaluation has failed, and a session says of a chunk that running it has
failed just when the evaluation of its program has. -/
theorem errors_are_not_values :
    (∀ (ctx : Context) (allowance : Nat) (p : Program) (m : Machine), m.ErrorFree →
      ∀ r after, p.evalUnder .prompt ctx allowance m = some (r, after) →
        after.ErrorFree ∧ ∀ v, r = .ok v ∨ r = .error (.returning v) → v.ErrorFree) ∧
    ∀ m : Machine, m.Used →
      (∀ (ctx : Context) (allowance : Nat) (p : Program),
        (∃ v after, p.runUnder .prompt ctx allowance m = some (v, after) ∧ v.isError = true) ↔
          ∃ e after, p.evalUnder .prompt ctx allowance m = some (.error e, after)) ∧
      ∀ (s : Session) (source : String), s.mode = .eval →
        ((∃ written after, s.run source m = some (⟨.runtimeError, written⟩, after)) ↔
          ∃ p, Program.ofText source = (p, []) ∧
            ∃ e after, p.eval s.context m = some (.error e, after)) := by
  refine ⟨fun ctx allowance p m hm r after heval => ?_, fun m hm => ⟨fun ctx allowance p => ?_,
    fun s source hs => ?_⟩⟩
  · obtain ⟨hafter, hr⟩ :=
      Trait.errorFree.keeps_evalUnder .prompt ctx allowance p m r after hm heval
    refine ⟨hafter, ?_⟩
    rintro v (rfl | rfl) <;> exact hr
  · exact Program.isError_iff hm.errorFree
  · rw [Session.runtimeError_iff hs]
    refine exists_congr fun p => and_congr_right fun _ => ?_
    exact Program.isError_iff hm.errorFree

/-- A name that is not bound fails behind a binding, which stays without error values. -/
theorem errors_are_not_values_unbound :
    let s : Session := ⟨.eval, { maxCallDepth := some 8 }, false, Token.jsonObject⟩
    let source := "let x = [!true]; y;"
    let p : Program :=
      ⟨[.bind ⟨.letWord, "let"⟩ ⟨.ident, "x"⟩ (.array ⟨.lbracket, "["⟩
          [.prefixed ⟨.bang, "!"⟩ .not (.boolean ⟨.trueWord, "true"⟩ true)]),
        .expr ⟨.ident, "y"⟩ (.name ⟨.ident, "y"⟩)]⟩
    ∃ after : Machine, p.eval s.context .initial = some (.error (.undefinedName "y"), after) ∧
      after.environment.get? "x" = some (.array [.boolean false]) ∧ after.ErrorFree ∧
      (∃ v last, p.run s.context .initial = some (v, last) ∧ v.isError = true) ∧
      ∃ written last, s.run source .initial = some (⟨.runtimeError, written⟩, last) := by
  intro s source p
  have hscan : Token.scan source =
      [⟨.letWord, "let"⟩, ⟨.ident, "x"⟩, ⟨.assign, "="⟩, ⟨.lbracket, "["⟩, ⟨.bang, "!"⟩,
        ⟨.trueWord, "true"⟩, ⟨.rbracket, "]"⟩, ⟨.semicolon, ";"⟩, ⟨.ident, "y"⟩,
        ⟨.semicolon, ";"⟩] := by
    decide +kernel
  have htext : Program.ofText source = (p, []) := by
    rw [Program.ofText, hscan]
    rfl
  have heval : p.eval s.context .initial = some (.error (.undefinedName "y"), _) := rfl
  obtain ⟨hkept, hused⟩ := errors_are_not_values
  obtain ⟨hprogram, hsession⟩ := hused .initial (.fresh (.fixed false))
  refine ⟨_, heval, rfl, ?_, ?_, ?_⟩
  · exact (hkept s.context 9 p .initial (Machine.errorFree_fresh _) _ _ heval).1
  · exact (hprogram s.context 9 p).2 ⟨_, _, heval⟩
  · exact (hsession s source rfl).2 ⟨p, htext, _, _, heval⟩

end Treewalk
