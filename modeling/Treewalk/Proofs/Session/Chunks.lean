import Treewalk.Session
import Treewalk.Token.Json
import Treewalk.Proofs.Evaluation.Frame
import Treewalk.Proofs.Evaluation.Journal
import Treewalk.Proofs.Syntax.Concatenation
import Treewalk.Proofs.Syntax.Soundness

/-!
Chunks of a session against one text. A session that answers chunks one after another
comes to the same as one that is given all of them at once: the text is read as the
statements of the chunks in order, and scopes that are collected after a chunk are not
seen again. So what is printed, what the last answer is and what is bound at the root
do not depend on where the text is cut.
-/

namespace Treewalk

/-- Tokens that close their braces, the last of them a semicolon. -/
structure Token.Terminated (ts : List Token) : Prop where
  balanced : Token.Balanced ts
  last : ts.getLast?.map Token.kind = some .semicolon

theorem Token.Terminated.closes {ts : List Token} (h : Token.Terminated ts) :
    Token.Closes 0 ts := by
  refine Token.closes_of_nonneg (fun p hp => ?_) ?_ h.last
  · rw [Int.zero_add]
    exact h.balanced.nonneg p hp
  · rw [Int.zero_add]
    exact h.balanced.total

/-- A terminated text that holds a program, without errors. -/
structure Program.Chunk (source : String) (p : Program) : Prop where
  terminated : Token.Terminated (Token.scan source)
  ofText_eq : Program.ofText source = (p, [])

namespace Program

theorem Chunk.statements_ne_nil {source : String} {p : Program} (h : p.Chunk source) :
    p.statements ≠ [] := by
  intro hnone
  have hlast := h.terminated.last
  have hprinting : p.Printing (Token.scan source) :=
    printing_of_ofTokens (fun t ht => Token.kind_ne_eof_of_mem_readAll ht) h.ofText_eq
  rw [Printing, hnone] at hprinting
  generalize Token.scan source = ts at hprinting hlast
  cases hprinting
  cases hlast

/-- Chunks behind one another hold the statements of all of them. -/
theorem ofText_join {chunks : List String} {ps : List Program}
    (h : List.Forall₂ Chunk chunks ps) :
    ofText (String.join chunks) = (⟨ps.flatMap statements⟩, []) := by
  induction h with
  | nil =>
      have hscan : Token.scan (String.join []) = [] := Token.readAll_of_blank rfl
      rw [ofText, hscan]
      rfl
  | @cons chunk p chunks ps hchunk _ ih =>
      have hscan : Token.scan (chunk ++ String.join chunks) =
          Token.scan chunk ++ Token.scan (String.join chunks) := by
        rw [Token.scan, String.toList_append]
        exact Token.readAll_append _ hchunk.terminated.last
      have hfirst : ofTokens (Token.scan chunk) = (p, []) := hchunk.ofText_eq
      have hrest : ofTokens (Token.scan (String.join chunks)) = (⟨ps.flatMap statements⟩, []) :=
        ih
      rw [String.join_cons, ofText, hscan, ofTokens_append hchunk.terminated.closes
        fun t ht => Token.kind_ne_eof_of_mem_readAll ht, hfirst, hrest]
      rfl

end Program

/-- Statements give the same value from whatever value they start, if there are any. -/
theorem evalStmts_start {policy : Reclamation} {call : Value → List Value → Eval Value}
    {ss : List Stmt} (h : ss ≠ []) (start other : Value) :
    evalStmts policy call ss start = evalStmts policy call ss other := by
  cases ss with
  | nil => exact absurd rfl h
  | cons s ss => rfl

/-- A program whose value is no error, and which did not return, has come to its end. -/
theorem Program.evalAll_of_run {ctx : Context} {p : Program} {m after : Machine} {v : Value}
    (h : p.run ctx m = some (v, after)) (hvalue : v.isError = false)
    (hstays : ∀ v t, Stmt.evalAll ctx p.statements m ≠ some (.error (.returning v), t)) :
    ∃ t, Stmt.evalAll ctx p.statements m = some (.ok v, t) ∧
      after = collectAfter .prompt ctx v t := by
  have heval : p.evalUnder .prompt ctx ctx.callAllowance m =
      (Stmt.evalAll ctx p.statements m).map fun ended => (Eval.returned ended.1, ended.2) :=
    Eval.endReturn_apply _ m
  rw [run, runUnder, heval] at h
  obtain hm | ⟨v', t, hm⟩ | ⟨e, t, hm⟩ := Run.ended (Stmt.evalAll ctx p.statements m) <;>
    rw [hm] at h
  · cases h
  · cases h
    exact ⟨t, hm, rfl⟩
  · cases e with
    | returning v => exact absurd hm (hstays v t)
    | _ =>
        cases h
        cases hvalue

theorem Program.run_of_evalAll {ctx : Context} {p : Program} {m t : Machine} {v : Value}
    (h : Stmt.evalAll ctx p.statements m = some (.ok v, t)) :
    p.run ctx m = some (v, collectAfter .prompt ctx v t) := by
  have heval : p.evalUnder .prompt ctx ctx.callAllowance m = some (.ok v, t) := by
    rw [evalUnder, Eval.endReturn_apply]
    exact congrArg (Option.map _) h
  rw [run, runUnder, heval]

namespace Comparison.Ends

variable {C : Comparison} {α β : Type} {A : C.World → α → β → Prop} {w : C.World}
  {x : Option (Except EvalError α × Machine)} {y : Option (Except EvalError β × Machine)}

theorem of_ok_left (h : C.Ends A w x y) {a : α} {t : Machine} (hx : x = some (.ok a, t)) :
    ∃ w' b, C.left w' = t ∧ y = some (.ok b, C.right w') ∧ A w' a b := by
  cases h with
  | ok w' later results =>
      cases hx
      exact ⟨w', _, rfl, rfl, results⟩
  | never | returning | failure | abandoned => cases hx

theorem of_ok_right (h : C.Ends A w x y) (hkept : ∀ e, ¬ C.abandons e) {b : β} {t : Machine}
    (hy : y = some (.ok b, t)) :
    ∃ w' a, C.right w' = t ∧ x = some (.ok a, C.left w') ∧ A w' a b := by
  cases h with
  | ok w' later results =>
      cases hy
      exact ⟨w', _, rfl, rfl, results⟩
  | never | returning | failure => cases hy
  | abandoned given => exact (hkept _ given).elim

end Comparison.Ends

/-- Statements of which no scope is reclaimed. -/
def Stmt.evalKept (ctx : Context) (ss : List Stmt) : Eval Value :=
  evalStmts .never (callValue .never ctx ctx.callAllowance) ss .null

theorem Stmt.evalKept_append {ctx : Context} {ss ts : List Stmt} (h : ts ≠ []) :
    evalKept ctx (ss ++ ts) = evalKept ctx ss >>= fun _ => evalKept ctx ts := by
  rw [evalKept, evalStmts_append]
  exact congrArg _ (funext fun v => evalStmts_start h v .null)

namespace Twins

/-- Twins end alike on the same statements, whether scopes are reclaimed or not. -/
theorem evalAll (w : Twins) {ctx ctx' : Context}
    (hdepth : ctx.maxCallDepth = ctx'.maxCallDepth) (ss : List Stmt) :
    reclaiming.Ends reclaiming.Values w (Stmt.evalAll ctx ss w.left)
      (Stmt.evalKept ctx' ss w.right) := by
  have hallowance : ctx.callAllowance = ctx'.callAllowance := by
    rw [Context.callAllowance, hdepth, Context.callAllowance]
  have K := keptBy_reclaiming hdepth
  rw [Stmt.evalAll, Stmt.evalKept, ← hallowance]
  exact K.evalStmts (fun w _ _ _ _ hv hargs => K.callValue ctx.callAllowance w hv hargs) ss w .null

end Twins

/-- A program that comes to its end when no scope is reclaimed is run to the same, whatever
is reclaimed. -/
theorem Program.exists_run_of_evalKept {ctx ctx' : Context}
    (hdepth : ctx.maxCallDepth = ctx'.maxCallDepth) {p : Program} {flag : Flag} {v' : Value}
    {t : Machine}
    (h : Stmt.evalKept ctx' p.statements (.fresh flag) = some (.ok v', t)) :
    ∃ v after, p.run ctx (.fresh flag) = some (v, after) ∧ observe v after = observe v' t := by
  have hends : reclaiming.Ends reclaiming.Values (.initial flag)
      (Stmt.evalAll ctx p.statements (.fresh flag))
      (Stmt.evalKept ctx' p.statements (.fresh flag)) :=
    (Twins.initial flag).evalAll hdepth p.statements
  obtain ⟨w, v, rfl, hended, hv⟩ := hends.of_ok_right (fun _ => id) h
  obtain ⟨w', hleft, hright, hseen⟩ := w.exists_collectAfter ctx ctx' hv
  refine ⟨v, w'.left, ?_, ?_⟩
  · rw [hleft]
    exact run_of_evalAll hended
  · rw [hseen, hright]
    rfl

namespace Session

/-- The session answers a chunk by evaluating it. -/
theorem exists_of_success {s : Session} (hmode : s.mode = .eval) {chunk written : String}
    {m after : Machine} (h : s.run chunk m = some (⟨.success, written⟩, after)) :
    ∃ p v, Program.ofText chunk = (p, []) ∧ p.run s.context m = some (v, after) ∧
      answer p v = ⟨.success, written⟩ := by
  rw [run, hmode] at h
  dsimp only at h
  split at h
  · rename_i p htext
    split at h
    · rename_i v t hrun
      obtain ⟨hanswer, rfl⟩ := Prod.mk.inj (Option.some.inj h)
      exact ⟨p, v, htext, hrun, hanswer⟩
    · cases h
  · cases h

theorem run_of_ofText {s : Session} (hmode : s.mode = .eval) {source : String} {p : Program}
    {v : Value} {m after : Machine} (htext : Program.ofText source = (p, []))
    (hrun : p.run s.context m = some (v, after)) :
    s.run source m = some (answer p v, after) := by
  rw [run, hmode]
  dsimp only
  rw [htext]
  dsimp only
  rw [hrun]

/-- What is seen of two results decides how they are answered. -/
theorem answer_congr {p q : Program} {v v' : Value} {m m' : Machine}
    (hends : endsInBinding p = endsInBinding q) (h : observe v m = observe v' m') :
    answer p v = answer q v' := by
  have hinspect : v.inspect = v'.inspect := congrArg Observation.text h
  have herror : v.isError = v'.isError := by
    have hsome := congrArg (fun seen => seen.error.isSome) h
    have hiff : ∀ v : Value, v.error?.isSome = v.isError := fun v => by cases v <;> rfl
    rwa [observe, observe, hiff, hiff] at hsome
  rw [answer, answer, hends, hinspect, herror]

/-- What is seen of a chunk: what is written in answer, and what its program prints. -/
structure Shown where
  written : String
  printed : String

/-- On this machine, the chunk executes a return outside of functions. -/
def Returns (s : Session) (chunk : String) (m : Machine) : Prop :=
  ∃ v t, Stmt.evalAll s.context (Program.ofText chunk).1.statements m =
    some (.error (.returning v), t)

/-- The machine on which chunks have been answered one after another, each of them with
success and without a return, and what has been seen of them. The flag belongs to others. -/
inductive Fed (s : Session) (flag : Flag) : List String → List Shown → Machine → Prop where
  | start : Fed s flag [] [] (.fresh flag)
  | next {chunks : List String} {shown : List Shown} {m after : Machine}
      {chunk written printed : String} (before : Fed s flag chunks shown m)
      (answered : s.run chunk m = some (⟨.success, written⟩, after))
      (stays : ¬ s.Returns chunk m) (prints : after.printed = m.printed ++ printed) :
      Fed s flag (chunks ++ [chunk]) (shown ++ [⟨written, printed⟩]) after

/-- The next chunk is one whose program comes to its end, with a value that is no error and
so few scopes that none are collected. -/
theorem Fed.next_of_evalAll {s : Session} {flag : Flag} (hmode : s.mode = .eval)
    {chunks : List String} {shown : List Shown} {m t : Machine} {chunk printed : String}
    {p : Program} {v : Value}
    (before : s.Fed flag chunks shown m) (htext : Program.ofText chunk = (p, []))
    (hended : Stmt.evalAll s.context p.statements m = some (.ok v, t)) (hvalue : v.isError = false)
    (hfew : t.environment.liveScopes ≤ s.context.collectAbove)
    (hprints : t.printed = m.printed ++ printed) :
    s.Fed flag (chunks ++ [chunk])
      (shown ++ [⟨if endsInBinding p then "" else v.inspect ++ "\n", printed⟩]) t := by
  have hanswer : answer p v =
      ⟨.success, if endsInBinding p then "" else v.inspect ++ "\n"⟩ := by
    rw [answer, hvalue]
    cases endsInBinding p <;> rfl
  have hkept : Program.collectAfter .prompt s.context v t = t := if_neg (Nat.not_lt.2 hfew)
  refine .next before ?_ ?_ hprints
  · rw [run_of_ofText hmode htext (Program.run_of_evalAll hended), hanswer, hkept]
  · rintro ⟨v', t', hreturns⟩
    rw [htext] at hreturns
    cases hended.symm.trans hreturns

theorem Fed.printed_eq {s : Session} {flag : Flag} {chunks : List String} {shown : List Shown}
    {m : Machine} (h : s.Fed flag chunks shown m) :
    m.printed = String.join (shown.map Shown.printed) := by
  induction h with
  | start => rfl
  | next before answered stays prints ih =>
      rw [prints, ih, List.map_append, String.join_append, List.map_singleton, String.join_cons,
        String.join_nil, String.append_empty]

/-- A chunk is answered on a twin, and leads to the same on the one that keeps its scopes. -/
theorem exists_twins_of_answered {s : Session} (hmode : s.mode = .eval) {w : Twins}
    {chunk written : String} {after : Machine}
    (hterminated : Token.Terminated (Token.scan chunk))
    (hanswered : s.run chunk w.left = some (⟨.success, written⟩, after))
    (hstays : ¬ s.Returns chunk w.left) :
    ∃ (p : Program) (w' : Twins) (v v' : Value), p.Chunk chunk ∧ w'.left = after ∧
      answer p v = ⟨.success, written⟩ ∧ observe v w'.left = observe v' w'.right ∧
      Stmt.evalKept s.context p.statements w.right = some (.ok v', w'.right) := by
  obtain ⟨p, v, htext, hrun, hanswer⟩ := exists_of_success hmode hanswered
  have hvalue : v.isError = false := by
    refine Bool.eq_false_iff.2 fun herror => ?_
    have houtcome := congrArg Response.outcome hanswer
    rw [answer, herror] at houtcome
    cases houtcome
  obtain ⟨t, heval, rfl⟩ := Program.evalAll_of_run hrun hvalue fun v' t hreturns =>
    hstays ⟨v', t, by rw [htext]; exact hreturns⟩
  obtain ⟨w₁, v', rfl, hkept, hv⟩ := (w.evalAll rfl p.statements).of_ok_left heval
  obtain ⟨w', hleft, hright, hseen⟩ := w₁.exists_collectAfter s.context s.context hv
  refine ⟨p, w', v, v', ⟨hterminated, htext⟩, hleft, hanswer, hseen, ?_⟩
  rw [hright]
  exact hkept

/-- The chunks that a session was fed with, on a twin that has kept its scopes. -/
theorem Fed.exists_twins {s : Session} {flag : Flag} (hmode : s.mode = .eval)
    {chunks : List String} {shown : List Shown} {m : Machine} (h : s.Fed flag chunks shown m)
    (hterminated : ∀ chunk ∈ chunks, Token.Terminated (Token.scan chunk)) :
    ∃ (ps : List Program) (w : Twins) (v : Value), List.Forall₂ Program.Chunk chunks ps ∧
      w.left = m ∧
      Stmt.evalKept s.context (ps.flatMap Program.statements) (.fresh flag) =
        some (.ok v, w.right) := by
  induction h with
  | start => exact ⟨[], .initial flag, .null, .nil, rfl, rfl⟩
  | next before answered stays prints ih =>
      obtain ⟨ps, w, v, hchunks, rfl, hkept⟩ :=
        ih fun chunk hmem => hterminated chunk (List.mem_append_left _ hmem)
      obtain ⟨p, w', -, v', hchunk, hleft, -, -, hkept'⟩ := exists_twins_of_answered hmode
        (hterminated _ (List.mem_append_right _ List.mem_cons_self)) answered stays
      refine ⟨ps ++ [p], w', v', List.rel_append hchunks (.cons hchunk .nil), hleft, ?_⟩
      rw [List.flatMap_append, List.flatMap_singleton,
        Stmt.evalKept_append hchunk.statements_ne_nil, Run.bind_apply, hkept]
      exact hkept'

def collectingAbove (n : Nat) (s : Session) : Session :=
  { s with context := { s.context with collectAbove := n } }

/-- A session that has answered chunks, each with success, without a return outside of
functions and terminated, would have answered all of them at once just so, however many
scopes are kept: with the last answer, with all that they have printed, and with the same
names bound at the root. -/
theorem run_join {s : Session} (hmode : s.mode = .eval) {flag : Flag} {chunks : List String}
    {shown : List Shown} {last : Machine} (h : s.Fed flag chunks shown last) (hsome : chunks ≠ [])
    (hterminated : ∀ chunk ∈ chunks, Token.Terminated (Token.scan chunk)) (n : Nat) :
    ∃ final after, shown.getLast? = some final ∧
      (s.collectingAbove n).run (String.join chunks) (.fresh flag) =
        some (⟨.success, final.written⟩, after) ∧
      after.printed = String.join (shown.map Shown.printed) ∧
      after.rootNames = last.rootNames := by
  have hprinted := h.printed_eq
  cases h with
  | start => exact absurd rfl hsome
  | @next chunks shown _ last chunk written printed before answered stays prints =>
      obtain ⟨ps, w, v₀, hchunks, rfl, hkept₀⟩ := before.exists_twins hmode
        fun chunk hmem => hterminated chunk (List.mem_append_left _ hmem)
      obtain ⟨p, w', v, v', hchunk, rfl, hanswer, hseen, hkept⟩ := exists_twins_of_answered hmode
        (hterminated _ (List.mem_append_right _ List.mem_cons_self)) answered stays
      let whole : Program := ⟨ps.flatMap Program.statements ++ p.statements⟩
      have htext : Program.ofText (String.join (chunks ++ [chunk])) = (whole, []) := by
        rw [Program.ofText_join (List.rel_append hchunks (.cons hchunk .nil)),
          List.flatMap_append, List.flatMap_singleton]
      have hwhole : Stmt.evalKept s.context whole.statements (.fresh flag) =
          some (.ok v', w'.right) := by
        rw [Stmt.evalKept_append hchunk.statements_ne_nil]
        exact Run.bind_eq_ok_iff.2 ⟨v₀, _, hkept₀, hkept⟩
      let t := s.collectingAbove n
      have heval : t.mode = .eval := hmode
      obtain ⟨v₁, after, hrun, hseen₁⟩ : ∃ v₁ after,
          whole.run t.context (.fresh flag) = some (v₁, after) ∧
            observe v₁ after = observe v' w'.right :=
        Program.exists_run_of_evalKept (by rfl) hwhole
      have hsame : observe v₁ after = observe v w'.left := hseen₁.trans hseen.symm
      have hlast : endsInBinding whole = endsInBinding p := by
        rw [endsInBinding, List.getLast?_append_of_ne_nil _ hchunk.statements_ne_nil, endsInBinding]
      have hanswered : t.run (String.join (chunks ++ [chunk])) (.fresh flag) =
          some (⟨.success, written⟩, after) := by
        rw [run_of_ofText heval htext hrun, answer_congr hlast hsame, hanswer]
      refine ⟨⟨written, printed⟩, after, List.getLast?_concat, hanswered, ?_,
        congrArg Observation.names hsame⟩
      rw [← hprinted]
      exact congrArg Observation.printed hsame

/-- One chunk binds a name and the next one prints it. All at once, and with a collection
at the end, it comes to the same. -/
theorem run_join_bound :
    let s : Session := ⟨.eval, {}, false, Token.jsonObject⟩
    ∃ after, (s.collectingAbove 0).run (String.join ["let x = !true;", "puts(x); x;"]) .initial =
        some (⟨.success, "false\n"⟩, after) ∧
      after.printed = "false\n" ∧ after.rootNames = [("x", "false")] := by
  intro s
  have hscan : Token.scan "let x = !true;" =
      [⟨.letWord, "let"⟩, ⟨.ident, "x"⟩, ⟨.assign, "="⟩, ⟨.bang, "!"⟩, ⟨.trueWord, "true"⟩,
        ⟨.semicolon, ";"⟩] := by
    decide +kernel
  have hscan' : Token.scan "puts(x); x;" =
      [⟨.ident, "puts"⟩, ⟨.lparen, "("⟩, ⟨.ident, "x"⟩, ⟨.rparen, ")"⟩, ⟨.semicolon, ";"⟩,
        ⟨.ident, "x"⟩, ⟨.semicolon, ";"⟩] := by
    decide +kernel
  have htext : Program.ofText "let x = !true;" =
      (⟨[.bind ⟨.letWord, "let"⟩ ⟨.ident, "x"⟩
        (.prefixed ⟨.bang, "!"⟩ .not (.boolean ⟨.trueWord, "true"⟩ true))]⟩, []) := by
    rw [Program.ofText, hscan]
    rfl
  have htext' : Program.ofText "puts(x); x;" =
      (⟨[.expr ⟨.ident, "puts"⟩
          (.call ⟨.lparen, "("⟩ (.name ⟨.ident, "puts"⟩) [.name ⟨.ident, "x"⟩]),
        .expr ⟨.ident, "x"⟩ (.name ⟨.ident, "x"⟩)]⟩, []) := by
    rw [Program.ofText, hscan']
    rfl
  have hstart : s.Fed (.fixed false) [] [] .initial := .start
  have hbinding := hstart.next_of_evalAll rfl htext rfl rfl (by decide)
    (String.append_empty ..).symm
  have hprinting := hbinding.next_of_evalAll rfl htext' rfl rfl (by decide)
    (rfl : _ = "" ++ "false\n")
  have hterminated : Token.Terminated (Token.scan "let x = !true;") := by
    rw [hscan]
    exact ⟨by decide, rfl⟩
  have hterminated' : Token.Terminated (Token.scan "puts(x); x;") := by
    rw [hscan']
    exact ⟨by decide, rfl⟩
  obtain ⟨final, after, hfinal, hrun, hprinted, hnames⟩ :=
    run_join rfl hprinting (List.cons_ne_nil _ _)
      (List.forall_mem_cons.2 ⟨hterminated, List.forall_mem_singleton.2 hterminated'⟩) 0
  cases hfinal
  exact ⟨after, hrun, hprinted, hnames⟩

end Session
end Treewalk
