import Treewalk.Proofs.Syntax.Completeness
import Treewalk.Proofs.Token.Concatenation

/-!
The tokens that are read as a program without an error are exactly its printings. The
rules for blocks and statements complete those for expressions, and a derivation in the
grammar is followed to its end.
-/

namespace Treewalk

open Parse
open Grammar (nextIs advance expectNext optionalSemicolon)

section Names

variable {names ts rest : List Token} {c : Cursor}

theorem yields_moreParameters (h : Token.MoreNames names ts) (hc : c.advance.tokens = ts ++ rest)
    (hrest : (rest.headD .eof).kind ≠ .comma) :
    ∃ c₁, Cursor.Before rest c c₁ ∧ ∀ n, Yields (moreParameters n) c names c₁ := by
  induction h generalizing c with
  | nil =>
      refine ⟨c, ⟨hc, rfl⟩, yields_of_succ rfl fun n => ?_⟩
      rw [moreParameters, Grammar.moreParameters]
      refine yields_nextIsNot ?_ yields_pure
      rwa [Cursor.Before.upcoming_eq ⟨hc, rfl⟩]
  | cons hcomma hname _ ih =>
      have hupcoming := Cursor.upcoming_of_tokens hc
      have htokens := Cursor.advance_of_tokens hc
      have hcurrent := Cursor.current_of_tokens htokens
      obtain ⟨c₁, hbefore, hread⟩ := ih (Cursor.advance_of_tokens htokens)
      refine ⟨c₁, hbefore.of_errors rfl, yields_of_succ rfl fun n => ?_⟩
      rw [moreParameters, Grammar.moreParameters]
      refine yields_nextIs (by rw [hupcoming, hcomma])
        (yields_advance (yields_expectNext ?_ (yields_current ?_)))
      · rw [Cursor.upcoming_of_tokens htokens, hname]
      · rw [hcurrent]
        exact (hread n).bind yields_pure

theorem yields_parameters {closing : Token} (h : Token.Names names ts)
    (hc : c.advance.tokens = ts ++ closing :: rest) (hclosing : closing.kind = .rparen) :
    ∃ c₁, Cursor.Before rest c c₁ ∧ ∀ n, Yields (parameters n) c names c₁ := by
  cases h with
  | nil =>
      refine ⟨c.advance, ⟨Cursor.advance_of_tokens hc, rfl⟩, fun n => ?_⟩
      rw [parameters, Grammar.parameters]
      refine yields_nextIs ?_ (yields_advance yields_pure)
      rw [Cursor.upcoming_of_tokens hc, hclosing]
  | cons hname hmore =>
      have hupcoming := Cursor.upcoming_of_tokens hc
      have hcurrent := Cursor.current_of_tokens hc
      obtain ⟨c₁, hbefore, hread⟩ := yields_moreParameters hmore (Cursor.advance_of_tokens hc)
        (by rw [List.headD_cons, hclosing]; decide)
      refine ⟨c₁.advance, hbefore.advance.of_errors rfl, fun n => ?_⟩
      rw [parameters, Grammar.parameters]
      refine yields_nextIsNot (by rw [hupcoming, hname]; decide)
        (yields_expectNext (by rw [hupcoming, hname]) (yields_current ?_))
      rw [hcurrent]
      refine (hread n).bind (yields_expectNext ?_ yields_pure)
      rw [Cursor.upcoming_of_tokens hbefore.rest_eq, hclosing]

end Names

/-- Wherever the tokens stand, they are read as the block. -/
def Block.ReadAs (b : Block) (ts : List Token) : Prop :=
  (∃ t more, ts = t :: more ∧ t.kind = .lbrace) ∧
    ∀ (rest : List Token) (c : Cursor), c.tokens = ts ++ rest →
      ∃ c₁, Cursor.Before rest c c₁ ∧ ∀ n, Yields (block n) c b c₁

namespace Expr

section Blocks

variable {k : Nat} {t opening closing : Token} {condition : Expr} {cs bs as ns : List Token}
  {consequence alternative body : Block} {names : List Token}

theorem exists_test_read {behind : List Token} {c : Cursor} (ht : t.kind = .ifWord)
    (hopening : opening.kind = .lparen) (hcondition : ReadAs anyLevel condition cs)
    (hclosing : closing.kind = .rparen) (hconsequence : consequence.ReadAs bs)
    (hc : c.tokens = t :: opening :: (cs ++ closing :: (bs ++ behind))) :
    ∃ c₁, Cursor.Before behind c c₁ ∧ ∀ n result c',
      Yields (do
          if ← nextIs .elseWord then
            advance
            expectNext .lbrace
            let alternative ← block n
            return .conditional t condition consequence (some alternative)
          else
            return .conditional t condition consequence none) c₁ result c' →
      Yields (operand (n + 1)) c result c' := by
  obtain ⟨⟨brace, bs', rfl, hbrace⟩, hblock⟩ := hconsequence
  have htokens := Cursor.advance_of_tokens hc
  obtain ⟨c₁, hbefore₁, hread₁⟩ := hcondition.whole (Cursor.advance_of_tokens htokens)
    (Token.ends_of_kind hclosing (by decide))
  have hbehind := Cursor.advance_of_tokens hbefore₁.rest_eq
  obtain ⟨c₂, hbefore₂, hread₂⟩ := hblock behind c₁.advance.advance hbehind
  refine ⟨c₂, hbefore₂.of_errors hbefore₁.errors_eq, fun n result c' hend => ?_⟩
  rw [operand, Grammar.operand]
  refine yields_current ?_
  rw [Cursor.current_of_tokens hc, ht]
  refine yields_expectNext (by rw [Cursor.upcoming_of_tokens htokens, hopening])
    (yields_advance ((hread₁ n).bind (yields_expectNext ?_ (yields_expectNext ?_
      ((hread₂ n).bind hend)))))
  · rw [Cursor.upcoming_of_tokens hbefore₁.rest_eq, hclosing]
  · rw [Cursor.upcoming_of_tokens hbehind, hbrace]

theorem readAs_conditional (ht : t.kind = .ifWord) (hopening : opening.kind = .lparen)
    (hcondition : ReadAs anyLevel condition cs) (hclosing : closing.kind = .rparen)
    (hconsequence : consequence.ReadAs bs) :
    ReadAs k (.conditional t condition consequence none)
      (t :: opening :: (cs ++ closing :: bs)) := by
  refine readAs_of_operand fun rest c hc _ helse => ?_
  have htokens : c.tokens = t :: opening :: (cs ++ closing :: (bs ++ rest)) := by
    rw [hc]
    simp only [List.cons_append, List.append_assoc]
  obtain ⟨c₁, hbefore, hread⟩ :=
    exists_test_read ht hopening hcondition hclosing hconsequence htokens
  refine ⟨c₁, hbefore, yields_of_succ rfl fun n => ?_⟩
  refine hread n _ _ (yields_nextIsNot ?_ yields_pure)
  rwa [hbefore.upcoming_eq]

theorem readAs_alternative {other : Token} (ht : t.kind = .ifWord)
    (hopening : opening.kind = .lparen) (hcondition : ReadAs anyLevel condition cs)
    (hclosing : closing.kind = .rparen) (hconsequence : consequence.ReadAs bs)
    (hother : other.kind = .elseWord) (halternative : alternative.ReadAs as) :
    ReadAs k (.conditional t condition consequence (some alternative))
      (t :: opening :: (cs ++ closing :: (bs ++ other :: as))) := by
  refine readAs_of_operand fun rest c hc _ _ => ?_
  have htokens : c.tokens = t :: opening :: (cs ++ closing :: (bs ++ other :: (as ++ rest))) := by
    rw [hc]
    simp only [List.cons_append, List.append_assoc]
  obtain ⟨c₁, hbefore₁, hread₁⟩ :=
    exists_test_read ht hopening hcondition hclosing hconsequence htokens
  obtain ⟨⟨brace, as', rfl, hbrace⟩, hblock⟩ := halternative
  have hbehind := Cursor.advance_of_tokens hbefore₁.rest_eq
  obtain ⟨c₂, hbefore₂, hread₂⟩ := hblock rest c₁.advance.advance hbehind
  refine ⟨c₂, hbefore₂.of_errors hbefore₁.errors_eq, yields_of_succ rfl fun n => ?_⟩
  refine hread₁ n _ _ (yields_nextIs ?_ (yields_advance (yields_expectNext ?_
    ((hread₂ n).bind yields_pure))))
  · rw [Cursor.upcoming_of_tokens hbefore₁.rest_eq, hother]
  · rw [Cursor.upcoming_of_tokens hbehind, hbrace]

theorem readAs_function (ht : t.kind = .functionWord) (hopening : opening.kind = .lparen)
    (hnames : Token.Names names ns) (hclosing : closing.kind = .rparen)
    (hbody : body.ReadAs bs) :
    ReadAs k (.function t names body) (t :: opening :: (ns ++ closing :: bs)) := by
  obtain ⟨⟨brace, bs', rfl, hbrace⟩, hblock⟩ := hbody
  refine readAs_of_operand fun rest c hc _ _ => ?_
  have htokens : c.advance.tokens = opening :: (ns ++ closing :: brace :: (bs' ++ rest)) := by
    rw [Cursor.tokens_advance, hc]
    simp only [List.cons_append, List.append_assoc, List.tail_cons]
  obtain ⟨c₁, hbefore₁, hread₁⟩ :=
    yields_parameters hnames (Cursor.advance_of_tokens htokens) hclosing
  obtain ⟨c₂, hbefore₂, hread₂⟩ := hblock rest c₁.advance hbefore₁.rest_eq
  refine ⟨c₂, hbefore₂.of_errors hbefore₁.errors_eq, yields_of_succ rfl fun n => ?_⟩
  rw [operand, Grammar.operand]
  refine yields_current ?_
  rw [Cursor.current_of_tokens hc, ht]
  refine yields_expectNext (by rw [Cursor.upcoming_of_tokens htokens, hopening])
    ((hread₁ n).bind (yields_expectNext ?_ ((hread₂ n).bind yields_pure)))
  rw [Cursor.upcoming_of_tokens hbefore₁.rest_eq, hbrace]

end Blocks

end Expr

/-- A token that a statement may begin with. -/
def TokenKind.beginsStmt : TokenKind → Bool
  | .letWord | .returnWord => true
  | kind => kind.beginsExpr

theorem TokenKind.beginsStmt_of_beginsExpr {kind : TokenKind} (h : kind.beginsExpr = true) :
    kind.beginsStmt = true := by
  revert h
  cases kind <;> decide

/-- What stands behind a statement: a semicolon, which belongs to it, or what does not go
on with its expression. -/
def Stmt.Trailer (behind rest : List Token) : Prop :=
  (∃ t, t.kind = .semicolon ∧ behind = t :: rest) ∨
    behind = rest ∧ (rest.headD .eof).Ends ∧ (rest.headD .eof).kind ≠ .semicolon

/-- Wherever the tokens stand, they are read as the statement. -/
def Stmt.ReadAs (s : Stmt) (ts : List Token) : Prop :=
  (∃ t more, ts = t :: more ∧ t.kind.beginsStmt = true) ∧
    ∀ (behind rest : List Token) (c : Cursor), c.tokens = ts ++ behind →
      Stmt.Trailer behind rest →
      ∃ c₁, Cursor.Before rest c c₁ ∧ ∀ n, Yields (statement n) c s c₁

namespace Stmt

section Statements

variable {t target assign : Token} {value : Expr} {ts ms behind rest : List Token} {c : Cursor}

theorem yields_terminated (whole : Expr → Stmt) (hvalue : value.ReadAs Expr.anyLevel ts)
    (hc : c.tokens = ts ++ behind) (hbehind : Trailer behind rest) :
    ∃ c₁, Cursor.Before rest c c₁ ∧ ∀ n,
      Yields (do
        let value ← expression n .lowest
        optionalSemicolon
        return whole value) c (whole value) c₁ := by
  obtain ⟨semicolon, hsemicolon, rfl⟩ | ⟨rfl, hends, hnot⟩ := hbehind
  · obtain ⟨c₁, hbefore, hread⟩ :=
      hvalue.whole hc (Token.ends_of_kind hsemicolon (by decide))
    refine ⟨c₁.advance, hbefore.advance, fun n => (hread n).bind ?_⟩
    rw [optionalSemicolon, bind_assoc]
    refine yields_nextIs ?_ (yields_advance yields_pure)
    rw [Cursor.upcoming_of_tokens hbefore.rest_eq, hsemicolon]
  · obtain ⟨c₁, hbefore, hread⟩ := hvalue.whole hc hends
    refine ⟨c₁, hbefore, fun n => (hread n).bind ?_⟩
    rw [optionalSemicolon, bind_assoc]
    refine yields_nextIsNot ?_ yields_pure
    rwa [hbefore.upcoming_eq]

theorem readAs_bind (ht : t.kind = .letWord) (htarget : target.kind = .ident)
    (hassign : assign.kind = .assign) (hvalue : value.ReadAs Expr.anyLevel ts) :
    ReadAs (.bind t target value) (t :: target :: assign :: ts) := by
  refine ⟨⟨t, _, rfl, by rw [ht]; rfl⟩, fun behind rest c hc hbehind => ?_⟩
  have htokens := Cursor.advance_of_tokens hc
  have htokens' := Cursor.advance_of_tokens htokens
  obtain ⟨c₁, hbefore, hread⟩ := yields_terminated (.bind t target) hvalue
    (Cursor.advance_of_tokens htokens') hbehind
  refine ⟨c₁, hbefore.of_errors rfl, yields_of_succ rfl fun n => ?_⟩
  rw [statement, Grammar.statement]
  refine yields_beginning (yields_current ?_)
  rw [Cursor.current_of_tokens hc, ht]
  refine yields_expectNext ?_ (yields_current (yields_expectNext ?_ (yields_advance ?_)))
  · rw [Cursor.upcoming_of_tokens htokens, htarget]
  · rw [Cursor.upcoming_of_tokens htokens', hassign]
  · rw [Cursor.current_of_tokens htokens]
    exact hread n

theorem readAs_ret (ht : t.kind = .returnWord) (hvalue : value.ReadAs Expr.anyLevel ts) :
    ReadAs (.ret t value) (t :: ts) := by
  refine ⟨⟨t, _, rfl, by rw [ht]; rfl⟩, fun behind rest c hc hbehind => ?_⟩
  obtain ⟨c₁, hbefore, hread⟩ := yields_terminated (.ret t) hvalue
    (Cursor.advance_of_tokens hc) hbehind
  refine ⟨c₁, hbefore.of_errors rfl, yields_of_succ rfl fun n => ?_⟩
  rw [statement, Grammar.statement]
  refine yields_beginning (yields_current ?_)
  rw [Cursor.current_of_tokens hc, ht]
  exact yields_advance (hread n)

theorem readAs_expr (ht : t.kind.beginsExpr = true)
    (hvalue : value.ReadAs Expr.anyLevel (t :: ts)) : ReadAs (.expr t value) (t :: ts) := by
  refine ⟨⟨t, _, rfl, TokenKind.beginsStmt_of_beginsExpr ht⟩, fun behind rest c hc hbehind => ?_⟩
  obtain ⟨c₁, hbefore, hread⟩ := yields_terminated (.expr t) hvalue hc hbehind
  refine ⟨c₁, hbefore, yields_of_succ rfl fun n => ?_⟩
  rw [statement, Grammar.statement]
  refine yields_beginning (yields_current ?_)
  rw [Cursor.current_of_tokens hc]
  split
  next hkind =>
    rw [hkind] at ht
    cases ht
  next hkind =>
    rw [hkind] at ht
    cases ht
  next => exact hread n

end Statements

/-- A rule that reads statements one after another until a token stops it. -/
structure Loop (loop : Nat → Parse (List Stmt)) (stops : TokenKind → Prop) : Prop where
  zero : loop 0 = Run.exhausted
  stop : ∀ n c, stops c.current.kind → loop (n + 1) c = some (.ok [], c)
  exhausted : ∀ n c, ¬ stops c.current.kind → statement n c = none → loop (n + 1) c = none
  step : ∀ n c s c₁, ¬ stops c.current.kind → statement n c = some (.ok s, c₁) →
    loop (n + 1) c = (do return s :: (← loop n) : Parse (List Stmt)) c₁.advance
  stops_cases : ∀ kind, stops kind → kind = .rbrace ∨ kind = .eof

theorem loop_block : Loop blockStatements (fun kind => kind = .rbrace ∨ kind = .eof) where
  zero := rfl
  stop n _ hc := blockStatements_stop n hc
  exhausted _ _ := blockStatements_none
  step _ _ _ _ := blockStatements_ok
  stops_cases _ h := h

theorem loop_program : Loop programStatements (· = .eof) where
  zero := rfl
  stop n _ hc := programStatements_eof n hc
  exhausted _ _ := programStatements_none
  step _ _ _ _ := programStatements_ok
  stops_cases _ h := .inr h

/-- Where the tokens stand in front of one that stops the loop, they are read as the
statements. -/
def SequenceReadAs (ss : List Stmt) (ts : List Token) : Prop :=
  (∀ t ∈ ts.head?, t.kind.beginsStmt = true) ∧
    ∀ (loop : Nat → Parse (List Stmt)) (stops : TokenKind → Prop), Loop loop stops →
      ∀ (rest : List Token) (c : Cursor), c.tokens = ts ++ rest →
        stops (rest.headD .eof).kind →
        ∃ c₁, c₁.tokens = rest ∧ c₁.errors = c.errors ∧ ∀ n, Yields (loop n) c ss c₁

section Sequences

variable {s : Stmt} {ss : List Stmt} {ts ms behind rest : List Token} {c c₁ c' : Cursor}
  {loop : Nat → Parse (List Stmt)} {stops : TokenKind → Prop}

theorem Loop.yields_stop (h : Loop loop stops) (hc : stops c.current.kind) (n : Nat) :
    Yields (loop n) c [] c := by
  refine yields_of_succ h.zero (fun n r hr => ?_) n
  rw [h.stop n c hc] at hr
  exact (Option.some.inj hr).symm

theorem Loop.yields_step (h : Loop loop stops) (hc : ¬ stops c.current.kind)
    (hs : ∀ n, Yields (statement n) c s c₁) (hss : ∀ n, Yields (loop n) c₁.advance ss c')
    (n : Nat) : Yields (loop n) c (s :: ss) c' := by
  refine yields_of_succ h.zero (fun n r hr => ?_) n
  cases hm : statement n c with
  | none =>
      rw [h.exhausted n c hc hm] at hr
      cases hr
  | some result =>
      obtain rfl := hs n result hm
      rw [h.step n c s c₁ hc hm] at hr
      have hwhole : Yields (do return s :: (← loop n) : Parse (List Stmt)) c₁.advance
          (s :: ss) c' := (hss n).bind yields_pure
      exact hwhole r hr

theorem Loop.not_stops (h : Loop loop stops) {kind : TokenKind} (hkind : kind.beginsStmt = true) :
    ¬ stops kind := by
  intro hstops
  obtain rfl | rfl := h.stops_cases kind hstops <;> cases hkind

theorem sequenceReadAs_nil : SequenceReadAs [] [] := by
  refine ⟨fun t ht => (nomatch ht), fun loop stops hloop rest c hc hrest => ?_⟩
  refine ⟨c, hc, rfl, hloop.yields_stop ?_⟩
  rwa [Cursor.current, show c.tokens = rest from hc]

theorem begins_append (hs : s.ReadAs ts) : ∀ t ∈ (ts ++ ms).head?, t.kind.beginsStmt = true := by
  obtain ⟨⟨t, more, rfl, ht⟩, -⟩ := hs
  intro u hu
  cases hu
  exact ht

theorem exists_sequence_read (hloop : Loop loop stops) (hs : s.ReadAs ts)
    (hss : SequenceReadAs ss ms) (hc : c.tokens = ts ++ behind)
    (hbehind : Trailer behind (ms ++ rest)) (hrest : stops (rest.headD .eof).kind) :
    ∃ c₁, c₁.tokens = rest ∧ c₁.errors = c.errors ∧ ∀ n, Yields (loop n) c (s :: ss) c₁ := by
  obtain ⟨⟨t, more, rfl, ht⟩, hstatement⟩ := hs
  obtain ⟨c₁, hbefore, hread₁⟩ := hstatement behind _ c hc hbehind
  obtain ⟨c₂, hrest₂, herrors₂, hread₂⟩ :=
    hss.2 loop stops hloop rest c₁.advance hbefore.rest_eq hrest
  refine ⟨c₂, hrest₂, herrors₂.trans hbefore.errors_eq, hloop.yields_step ?_ hread₁ hread₂⟩
  rw [Cursor.current_of_tokens hc]
  exact hloop.not_stops ht

theorem sequenceReadAs_ended {semicolon : Token} (hs : s.ReadAs ts)
    (hsemicolon : semicolon.kind = .semicolon) (hss : SequenceReadAs ss ms) :
    SequenceReadAs (s :: ss) (ts ++ semicolon :: ms) := by
  refine ⟨begins_append hs, fun loop stops hloop rest c hc hrest => ?_⟩
  rw [List.append_assoc] at hc
  exact exists_sequence_read hloop hs hss hc (.inl ⟨semicolon, hsemicolon, rfl⟩) hrest

/-- Behind a statement that no semicolon ends, another begins or the loop stops. -/
theorem trailer_append (hms : ∀ t ∈ ms.head?, t.kind.beginsStmt = true)
    (hnext : ∀ t ∈ ms.head?, ¬ t.Continues) (hloop : Loop loop stops)
    (hrest : stops (rest.headD .eof).kind) : Trailer (ms ++ rest) (ms ++ rest) := by
  cases ms with
  | nil =>
      refine .inr ⟨rfl, ?_⟩
      rw [List.nil_append]
      obtain hkind | hkind := hloop.stops_cases _ hrest
      · exact ⟨Token.ends_of_kind hkind (by decide), by rw [hkind]; decide⟩
      · exact ⟨Token.ends_of_kind hkind (by decide), by rw [hkind]; decide⟩
  | cons t ms =>
      have hbegins := hms t rfl
      have hrank : t.rank = 0 :=
        Nat.eq_zero_of_not_pos fun hpos => hnext t rfl (Token.continues_of_rank_pos hpos)
      refine .inr ⟨rfl, ⟨hrank, ?_⟩, ?_⟩
      · intro helse
        rw [show t.kind = .elseWord from helse] at hbegins
        cases hbegins
      · intro hsemicolon
        rw [show t.kind = .semicolon from hsemicolon] at hbegins
        cases hbegins

theorem sequenceReadAs_bare (hs : s.ReadAs ts) (hnext : ∀ t ∈ ms.head?, ¬ t.Continues)
    (hss : SequenceReadAs ss ms) : SequenceReadAs (s :: ss) (ts ++ ms) := by
  refine ⟨begins_append hs, fun loop stops hloop rest c hc hrest => ?_⟩
  rw [List.append_assoc] at hc
  exact exists_sequence_read hloop hs hss hc (trailer_append hss.1 hnext hloop hrest) hrest

end Sequences

end Stmt

theorem Block.readAs_braces {opening closing : Token} {ss : List Stmt} {ts : List Token}
    (hopening : opening.kind = .lbrace) (hss : Stmt.SequenceReadAs ss ts)
    (hclosing : closing.kind = .rbrace) :
    Block.ReadAs ⟨opening, ss⟩ (opening :: (ts ++ [closing])) := by
  refine ⟨⟨opening, _, rfl, hopening⟩, fun rest c hc => ?_⟩
  have hadvance : c.advance.tokens = ts ++ closing :: rest := by
    rw [Cursor.tokens_advance, hc]
    simp only [List.cons_append, List.append_assoc, List.nil_append, List.tail_cons]
  obtain ⟨c₁, hrest, herrors, hread⟩ :=
    hss.2 _ _ Stmt.loop_block (closing :: rest) c.advance hadvance (.inl hclosing)
  refine ⟨c₁, ⟨Cursor.advance_of_tokens hrest, herrors⟩, yields_of_succ rfl fun n => ?_⟩
  rw [block, Grammar.block]
  refine yields_current (yields_advance ((hread n).bind (yields_current ?_)))
  rw [Cursor.current_of_tokens hrest, Cursor.current_of_tokens hc,
    if_neg (by rw [hclosing]; decide)]
  exact yields_pure

-- By recursion on the derivation: the lemma of each production is applied to its parts.
mutual

theorem Expr.Printing.readAs {k : Nat} {e : Expr} {ts : List Token} :
    Expr.Printing k e ts → e.ReadAs k ts
  | .name ht => Expr.readAs_name ht
  | .integer ht hn => Expr.readAs_integer ht hn
  | .yes ht => Expr.readAs_yes ht
  | .no ht => Expr.readAs_no ht
  | .string ht => Expr.readAs_string ht
  | .prefixed hop hk operand => Expr.readAs_prefixed hop hk operand.readAs
  | .binary hop hk hleft hright => Expr.readAs_binary hop hk hleft.readAs hright.readAs
  | .conditional ht hopening hcondition hclosing hconsequence =>
      Expr.readAs_conditional ht hopening hcondition.readAs hclosing hconsequence.readAs
  | .alternative ht hopening hcondition hclosing hconsequence hother halternative =>
      Expr.readAs_alternative ht hopening hcondition.readAs hclosing hconsequence.readAs hother
        halternative.readAs
  | .function ht hopening hnames hclosing hbody =>
      Expr.readAs_function ht hopening hnames hclosing hbody.readAs
  | .call hcallee ht hargs hclosing => Expr.readAs_call hcallee.readAs ht hargs.readAs hclosing
  | .array ht helements hclosing => Expr.readAs_array ht helements.readAs hclosing
  | .index hcollection ht hposition hclosing =>
      Expr.readAs_index hcollection.readAs ht hposition.readAs hclosing
  | .hash ht hpairs hclosing => Expr.readAs_hash ht hpairs.readAs hclosing
  | .parenthesized hopening inside hclosing =>
      Expr.readAs_parenthesized hopening hclosing inside.readAs

theorem Expr.Listing.readAs {es : List Expr} {ts : List Token} :
    Expr.Listing es ts → Expr.ListReadAs es ts
  | .nil => Expr.listReadAs_nil
  | .cons first more => Expr.listReadAs_cons first.begins first.readAs more.commas more.readAs

theorem Expr.MoreListing.readAs {es : List Expr} {ts : List Token} :
    Expr.MoreListing es ts → Expr.MoreReadAs es ts
  | .nil => Expr.moreReadAs_nil
  | .cons hcomma first more => Expr.moreReadAs_cons hcomma first.readAs more.commas more.readAs

theorem Expr.PairListing.readAs {ps : List (Expr × Expr)} {ts : List Token} :
    Expr.PairListing ps ts → Expr.PairsReadAs ps ts
  | .nil => Expr.pairsReadAs_nil
  | .last hkey hcolon hvalue => Expr.pairsReadAs_last hkey.begins hkey.readAs hcolon hvalue.readAs
  | .cons hkey hcolon hvalue hcomma more =>
      Expr.pairsReadAs_cons hkey.begins hkey.readAs hcolon hvalue.readAs hcomma more.readAs

theorem Block.Printing.readAs {b : Block} {ts : List Token} :
    Block.Printing b ts → b.ReadAs ts
  | .braces hopening inside hclosing => Block.readAs_braces hopening inside.readAs hclosing

theorem Stmt.Printing.readAs {s : Stmt} {ts : List Token} : Stmt.Printing s ts → s.ReadAs ts
  | .bind ht htarget hassign hvalue => Stmt.readAs_bind ht htarget hassign hvalue.readAs
  | .ret ht hvalue => Stmt.readAs_ret ht hvalue.readAs
  | .expr hvalue => Stmt.readAs_expr hvalue.begins_head hvalue.readAs

theorem Stmt.Sequence.readAs {ss : List Stmt} {ts : List Token} :
    Stmt.Sequence ss ts → Stmt.SequenceReadAs ss ts
  | .nil => Stmt.sequenceReadAs_nil
  | .ended first hsemicolon more => Stmt.sequenceReadAs_ended first.readAs hsemicolon more.readAs
  | .bare first hnext more => Stmt.sequenceReadAs_bare first.readAs hnext more.readAs

end

theorem Program.ofTokens_of_printing {p : Program} {ts : List Token} (h : p.Printing ts) :
    Program.ofTokens ts = (p, []) := by
  obtain ⟨ss, c', hread, heq, -⟩ := (Cursor.start ts).readProgram_spec
  obtain ⟨c₁, -, herrors, hyields⟩ :=
    h.readAs.2 _ _ Stmt.loop_program [] (Cursor.start ts) (List.append_nil ts).symm rfl
  cases hyields _ _ hread
  rw [ofTokens, heq]
  exact congrArg (Prod.mk p) herrors

/-- The tokens that are read as a program without an error are exactly its printings, and
a printing of a program is a printing of no other. -/
theorem Program.ofTokens_eq_iff_printing :
    (∀ ts : List Token, (∀ t ∈ ts, t.kind ≠ .eof) → ∀ p : Program,
      Program.ofTokens ts = (p, []) ↔ p.Printing ts) ∧
    (∀ (source : String) (p : Program),
      Program.ofText source = (p, []) ↔ p.Printing (Token.scan source)) ∧
    ∀ (ts : List Token) (p q : Program), p.Printing ts → q.Printing ts → p = q := by
  have hiff : ∀ ts : List Token, (∀ t ∈ ts, t.kind ≠ .eof) → ∀ p : Program,
      Program.ofTokens ts = (p, []) ↔ p.Printing ts :=
    fun _ heof _ => ⟨printing_of_ofTokens heof, ofTokens_of_printing⟩
  refine ⟨hiff, fun source => hiff _ fun _ => Token.kind_ne_eof_of_mem_readAll, ?_⟩
  intro ts p q hp hq
  have heq := (ofTokens_of_printing hp).symm.trans (ofTokens_of_printing hq)
  exact congrArg Prod.fst heq

/-- A difference is the left operand of the next one, and only that. -/
theorem Program.ofTokens_eq_iff_printing_subtract :
    (∀ t ∈ ([⟨.ident, "a"⟩, ⟨.minus, "-"⟩, ⟨.ident, "b"⟩, ⟨.minus, "-"⟩, ⟨.ident, "c"⟩] :
      List Token), t.kind ≠ .eof) ∧
    Program.Printing
      ⟨[.expr ⟨.ident, "a"⟩ (.binary ⟨.minus, "-"⟩ .subtract
        (.binary ⟨.minus, "-"⟩ .subtract (.name ⟨.ident, "a"⟩) (.name ⟨.ident, "b"⟩))
        (.name ⟨.ident, "c"⟩))]⟩
      [⟨.ident, "a"⟩, ⟨.minus, "-"⟩, ⟨.ident, "b"⟩, ⟨.minus, "-"⟩, ⟨.ident, "c"⟩] ∧
    ¬ Program.Printing
      ⟨[.expr ⟨.ident, "a"⟩ (.binary ⟨.minus, "-"⟩ .subtract (.name ⟨.ident, "a"⟩)
        (.binary ⟨.minus, "-"⟩ .subtract (.name ⟨.ident, "b"⟩) (.name ⟨.ident, "c"⟩)))]⟩
      [⟨.ident, "a"⟩, ⟨.minus, "-"⟩, ⟨.ident, "b"⟩, ⟨.minus, "-"⟩, ⟨.ident, "c"⟩] := by
  have heof : ∀ t ∈ ([⟨.ident, "a"⟩, ⟨.minus, "-"⟩, ⟨.ident, "b"⟩, ⟨.minus, "-"⟩,
      ⟨.ident, "c"⟩] : List Token), t.kind ≠ .eof := by decide
  have hleft := (ofTokens_eq_iff_printing.1 _ heof _).1 rfl
  refine ⟨heof, hleft, fun hright => ?_⟩
  cases ofTokens_eq_iff_printing.2.2 _ _ _ hleft hright

end Treewalk
