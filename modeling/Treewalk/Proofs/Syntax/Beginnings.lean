import Treewalk.Proofs.Syntax.Braces
import Treewalk.Proofs.Token.Concatenation

/-!
Where statements begin. However a text is broken, each statement that is begun, at the top
or inside a block, begins on a token further on than those before it; for between two
beginnings the cursor moves on, past the token that the first begins on. What is reported
is counted against these tokens: every statement read has begun somewhere, and so has every
one that failed. So reading comes to an end, and statements and errors are no more than
tokens.
-/

namespace Treewalk

mutual

/-- The number of statements in the blocks of an expression. -/
def Expr.statementCount : Expr → Nat
  | .name _ | .integer _ _ | .boolean _ _ | .string _ => 0
  | .prefixed _ _ e => e.statementCount
  | .binary _ _ l r => l.statementCount + r.statementCount
  | .conditional _ c b none => c.statementCount + b.statementCount
  | .conditional _ c b (some alternative) =>
      c.statementCount + b.statementCount + alternative.statementCount
  | .function _ _ b => b.statementCount
  | .call _ f args => f.statementCount + exprsStatementCount args
  | .array _ es => exprsStatementCount es
  | .index _ e i => e.statementCount + i.statementCount
  | .hash _ ps => pairsStatementCount ps
termination_by structural e => e

def exprsStatementCount : List Expr → Nat
  | [] => 0
  | e :: es => e.statementCount + exprsStatementCount es
termination_by structural es => es

def pairsStatementCount : List (Expr × Expr) → Nat
  | [] => 0
  | (k, e) :: ps => k.statementCount + e.statementCount + pairsStatementCount ps
termination_by structural ps => ps

/-- A statement counts itself and those in the blocks of its expression. -/
def Stmt.statementCount : Stmt → Nat
  | .bind _ _ e => e.statementCount + 1
  | .ret _ e => e.statementCount + 1
  | .expr _ e => e.statementCount + 1
termination_by structural s => s

def stmtsStatementCount : List Stmt → Nat
  | [] => 0
  | s :: ss => s.statementCount + stmtsStatementCount ss
termination_by structural ss => ss

def Block.statementCount : Block → Nat
  | ⟨_, ss⟩ => stmtsStatementCount ss
termination_by structural b => b

end

/-- The number of statements of a program, those in blocks included. -/
def Program.statementCount (p : Program) : Nat :=
  stmtsStatementCount p.statements

theorem tail_suffix_tail {α : Type} {xs ys : List α} (h : xs <:+ ys) :
    xs.tail <:+ ys.tail := by
  obtain ⟨front, rfl⟩ := h
  cases front with
  | nil => exact List.suffix_rfl
  | cons x front => exact (List.tail_suffix xs).trans (List.suffix_append front xs)

namespace Cursor

/-- Of the cursors noted between two cursors, each stands on one of the given tokens, before
their end, and further on than those noted before it. -/
structure Walked (ts : List Token) (c c' : Cursor) (notes : List Cursor) : Prop where
  onward : c.Onward c'
  among : ∀ d ∈ notes, d.tokens <:+ ts
  passed : ∀ d ∈ notes, c'.tokens <:+ d.tokens
  begun : ∀ d ∈ notes, d.current.kind ≠ .eof
  further : notes.Pairwise fun d e => e.tokens <:+ d.tokens.tail

namespace Walked

variable {ts : List Token} {c c₁ c' : Cursor} {notes more : List Cursor}

theorem nothing (ts : List Token) (h : c.Onward c') : Walked ts c c' [] :=
  ⟨h, nofun, nofun, nofun, .nil⟩

theorem append (h : Walked ts c c₁ notes) (k : Walked c₁.tokens.tail c₁ c' more)
    (hts : c.tokens.tail <:+ ts) : Walked ts c c' (notes ++ more) where
  onward := h.onward.trans k.onward
  among d hd := by
    rcases List.mem_append.1 hd with hd | hd
    · exact h.among d hd
    · exact (k.among d hd).trans ((tail_suffix_tail h.onward.tokens).trans hts)
  passed d hd := by
    rcases List.mem_append.1 hd with hd | hd
    · exact k.onward.tokens.trans (h.passed d hd)
    · exact k.passed d hd
  begun d hd := (List.mem_append.1 hd).elim (h.begun d) (k.begun d)
  further := List.pairwise_append.2 ⟨h.further, k.further, fun d hd e he =>
    (k.among e he).trans (tail_suffix_tail (h.passed d hd))⟩

theorem before (h : c.Onward c₁) (k : Walked ts c₁ c' notes) : Walked ts c c' notes :=
  { k with onward := h.trans k.onward }

theorem widen {ts' : List Token} (h : Walked ts c c' notes) (hts : ts <:+ ts') :
    Walked ts' c c' notes :=
  { h with among := fun d hd => (h.among d hd).trans hts }

theorem note (h : Walked c.tokens.tail c c' notes) (hc : c.current.kind ≠ .eof) :
    Walked c.tokens c c' (c :: notes) where
  onward := h.onward
  among := List.forall_mem_cons.2
    ⟨List.suffix_rfl, fun d hd => (h.among d hd).trans (List.tail_suffix _)⟩
  passed := List.forall_mem_cons.2 ⟨h.onward.tokens, h.passed⟩
  begun := List.forall_mem_cons.2 ⟨hc, h.begun⟩
  further := List.pairwise_cons.2 ⟨h.among, h.further⟩

end Walked
end Cursor

namespace Parse

open Cursor

/-- The step moves on and records nothing. -/
def Quiet {α : Type} (p : Parse α) : Prop :=
  ∀ c r c', p c = some (r, c') → c.Onward c' ∧ c'.errors = c.errors

theorem quiet_of_same {α : Type} {p : Parse α} (h : ∀ c, ∃ r, p c = some (r, c)) : Quiet p := by
  intro c r c' hp
  obtain ⟨_, hr⟩ := h c
  cases hr.symm.trans hp
  exact ⟨.refl c, rfl⟩

theorem quiet_cursor : Quiet Grammar.cursor :=
  quiet_of_same fun _ => ⟨_, rfl⟩

theorem quiet_current : Quiet Grammar.current :=
  quiet_of_same fun _ => ⟨_, rfl⟩

theorem quiet_nextIs (kind : TokenKind) : Quiet (Grammar.nextIs kind) :=
  quiet_of_same fun _ => ⟨_, rfl⟩

theorem quiet_advance : Quiet Grammar.advance := by
  intro c r c' hp
  cases hp
  exact ⟨.advance c, rfl⟩

theorem quiet_expectNext (kind : TokenKind) : Quiet (Grammar.expectNext kind) := by
  intro c r c' hp
  have hstep : (if c.upcoming.kind = kind then some (.ok (), c.advance)
      else some (.error (.unexpected kind c.upcoming.kind), c)) = some (r, c') := hp
  split at hstep
  · cases hstep
    exact ⟨.advance c, rfl⟩
  · cases hstep
    exact ⟨.refl c, rfl⟩

theorem quiet_recover (base : Int) : Quiet (Grammar.recover base) := by
  intro c r c' hp
  cases hp
  exact ⟨onward_recover base c, errors_recover base c⟩

end Parse

namespace Noting

open Cursor
open Grammar (optionalSemicolon)
open Parse (Quiet quiet_cursor quiet_current quiet_nextIs quiet_advance quiet_expectNext
  quiet_recover)

variable {α β : Type} {ts : List Token} {kept : Nat} {c : Cursor}

/-- Where the rule comes to an end: what it has yielded, of the given weight, and the errors
on record by then are no more than what has been kept from before, the errors on record at
first and the statements begun on the way. -/
def Tells (ts : List Token) (kept : Nat) (weight : Except SyntaxError α → Nat) (m : Noting α)
    (c : Cursor) : Prop :=
  ∀ notes r c', m c = (notes, some (r, c')) → Walked ts c c' notes ∧
    weight r + c'.errors.length ≤ kept + c.errors.length + notes.length

/-- The weight of a result, where errors have none. -/
def yielded (weight : α → Nat) : Except SyntaxError α → Nat
  | .ok a => weight a
  | .error _ => 0

/-- The weight of a statement that has been begun, whether it is read or fails. -/
def begun : Except SyntaxError Stmt → Nat
  | .ok s => s.statementCount
  | .error _ => 1

/-- From every cursor the rule tells of the tokens after the current one. -/
def Adds (kept : Nat) (weight : α → Nat) (m : Noting α) : Prop :=
  ∀ c, Tells c.tokens.tail kept (yielded weight) m c

theorem tells_exhausted (weight : Except SyntaxError α → Nat) :
    Tells ts kept weight exhausted c := by
  rintro notes r c' ⟨⟩

theorem tells_yield {weight : Except SyntaxError α → Nat} (r : Except SyntaxError α)
    (h : weight r ≤ kept) : Tells ts kept weight (MonadGrammar.step (Run.ofExcept r)) c := by
  intro notes r' c' hr
  cases hr
  exact ⟨.nothing ts (.refl c), Nat.add_le_add_right h _⟩

namespace Tells

variable {m : Noting α} {next : α → Noting β} {v : Except SyntaxError α → Nat}
  {w : Except SyntaxError β → Nat}

/-- What a rule has yielded is kept for what follows, with what else has been kept. -/
theorem bind {k : Nat} (h : Tells ts kept v m c) (hts : c.tokens.tail <:+ ts)
    (hok : ∀ a c₁, Tells c₁.tokens.tail (k + v (.ok a)) w (next a) c₁)
    (herror : ∀ e, w (.error e) ≤ k + v (.error e)) :
    Tells ts (k + kept) w (m >>= next) c := by
  intro notes r c' hr
  obtain ⟨e, hm, rfl⟩ | ⟨begins, a, c₁, more, hm, hnext, rfl⟩ := bind_ended hr
  · obtain ⟨hwalked, hcount⟩ := h _ _ _ hm
    have he := herror e
    exact ⟨hwalked, by omega⟩
  · obtain ⟨hwalked, hcount⟩ := h _ _ _ hm
    obtain ⟨hwalked', hcount'⟩ := hok a c₁ _ _ _ hnext
    refine ⟨hwalked.append hwalked' hts, ?_⟩
    rw [List.length_append]
    omega

/-- A rule that begins no statement comes before. -/
theorem step_bind {p : Parse α} (hp : Quiet p)
    (hnext : ∀ a c₁, p c = some (.ok a, c₁) → Tells ts kept w (next a) c₁)
    (herror : ∀ e, w (.error e) ≤ kept) :
    Tells ts kept w (MonadGrammar.step p >>= next) c := by
  intro notes r c' hr
  obtain ⟨e, hm, rfl⟩ | ⟨begins, a, c₁, more, hm, hnote, rfl⟩ := bind_ended hr
  · obtain ⟨hpc, rfl⟩ := step_ended hm
    obtain ⟨honward, herrors⟩ := hp c _ _ hpc
    exact ⟨.nothing ts honward, by rw [herrors]; exact Nat.add_le_add_right (herror e) _⟩
  · obtain ⟨hpc, rfl⟩ := step_ended hm
    obtain ⟨honward, herrors⟩ := hp c _ _ hpc
    obtain ⟨hwalked, hcount⟩ := hnext a c₁ hpc _ _ _ hnote
    rw [herrors] at hcount
    exact ⟨hwalked.before honward, hcount⟩

theorem outcome (h : Tells ts kept v m c) :
    Tells ts kept (yielded v) (MonadGrammar.outcome m) c := by
  intro notes r c' hr
  obtain ⟨s, rfl, hs⟩ := outcome_ended hr
  exact h notes s c' hs

/-- The error of a statement that failed goes on record. -/
theorem record {e : SyntaxError} {next : Unit → Noting β}
    (h : Tells ts kept w (next ()) (c.record e)) :
    Tells ts (kept + 1) w (Grammar.record e >>= next) c := by
  intro notes r c' hr
  obtain ⟨e', hm, -⟩ | ⟨begins, a, c₁, more, hm, hnote, rfl⟩ := bind_ended hr
  · cases hm
  · cases hm
    obtain ⟨hwalked, hcount⟩ := h _ _ _ hnote
    rw [errors_record, List.length_append, List.length_singleton] at hcount
    exact ⟨hwalked.before (.record e c), by rw [List.nil_append]; omega⟩

theorem widen {ts' : List Token} (h : Tells ts kept v m c) (hts : ts <:+ ts') :
    Tells ts' kept v m c := fun notes r c' hr =>
  (h notes r c' hr).imp_left fun hwalked => hwalked.widen hts

/-- Noting a cursor pays for one more. -/
theorem beginning {v' : Except SyntaxError α → Nat} (h : Tells c.tokens.tail kept v m c)
    (hc : c.current.kind ≠ .eof) (hv : ∀ r, v' r ≤ v r + 1) :
    Tells c.tokens kept v' (MonadGrammar.beginning >>= fun _ => m) c := by
  intro notes r c' hr
  obtain ⟨e, hm, -⟩ | ⟨begins, a, c₁, more, hm, hnote, rfl⟩ := bind_ended hr
  · cases hm
  · cases hm
    obtain ⟨hwalked, hcount⟩ := h _ _ _ hnote
    have hr := hv r
    exact ⟨hwalked.note hc, by rw [List.length_append, List.length_singleton]; omega⟩

end Tells

theorem adds_pure {weight : α → Nat} {a : α} (h : weight a ≤ kept) :
    Adds kept weight (pure a) :=
  fun _ => tells_yield (.ok a) h

theorem adds_fail (weight : α → Nat) (e : SyntaxError) : Adds kept weight (Grammar.fail e) :=
  fun _ => tells_yield (.error e) (Nat.zero_le _)

namespace Adds

variable {m m' : Noting α} {next : α → Noting β} {v : α → Nat} {w : β → Nat}

theorem bind (h : Adds 0 v m) (hnext : ∀ a, Adds (kept + v a) w (next a)) :
    Adds kept w (m >>= next) :=
  fun c => (h c).bind List.suffix_rfl (fun a => hnext a) fun _ => Nat.zero_le _

/-- What was kept has become part of what the first rule yields. -/
theorem andThen (h : Adds kept v m) (hnext : ∀ a, Adds (v a) w (next a)) :
    Adds kept w (m >>= next) := by
  intro c
  have hboth := (h c).bind (k := 0) (w := yielded w) List.suffix_rfl
    (fun a c₁ => (Nat.zero_add (v a)).symm ▸ hnext a c₁) fun _ => Nat.zero_le _
  rwa [Nat.zero_add] at hboth

theorem step_bind {p : Parse α} (hp : Quiet p) (hnext : ∀ a, Adds kept w (next a)) :
    Adds kept w (MonadGrammar.step p >>= next) := fun c =>
  .step_bind hp (fun a c₁ hpc => (hnext a c₁).widen (tail_suffix_tail (hp c _ _ hpc).1.tokens))
    fun _ => Nat.zero_le _

theorem choice (q : Prop) [Decidable q] (h : Adds kept v m) (h' : Adds kept v m') :
    Adds kept v (if q then m else m') := by
  split
  · exact h
  · exact h'

end Adds

theorem adds_optionalSemicolon : Adds 0 (fun _ => 0) optionalSemicolon := by
  refine .step_bind (quiet_nextIs _) fun _ => .choice _ (fun c => ?_) (adds_pure (Nat.le_refl _))
  intro notes r c' hr
  cases hr
  exact ⟨.nothing _ (.advance c), Nat.le_refl _⟩

theorem begun_le (r : Except SyntaxError Stmt) :
    begun r ≤ yielded (fun s => s.value.statementCount) r + 1 := by
  cases r with
  | ok s => cases s <;> exact Nat.le_refl _
  | error e => exact Nat.le_refl _

/-- Statements one after another: the next begins past the one that was read. -/
theorem tells_read {s : Stmt} {loop : Noting (List Stmt)} (c : Cursor)
    (hloop : ∀ c, Tells c.tokens 0 (yielded stmtsStatementCount) loop c) :
    Tells c.tokens.tail (begun (.ok s)) (yielded stmtsStatementCount) (do
      Grammar.advance
      let rest ← loop
      return s :: rest) c := by
  refine .step_bind quiet_advance (fun _ c₁ hadvance => ?_) fun _ => Nat.zero_le _
  cases hadvance
  refine (hloop c.advance).bind (List.tail_suffix _) (fun rest _ => ?_) fun _ => Nat.zero_le _
  exact tells_yield (.ok (s :: rest)) (Nat.le_refl _)

/-- The next statement begins past one that failed. -/
theorem tells_recovered {loop : Noting (List Stmt)} (c : Cursor)
    (hloop : ∀ c, Tells c.tokens 0 (yielded stmtsStatementCount) loop c) :
    Tells c.tokens.tail 0 (yielded stmtsStatementCount) (do
      Grammar.advance
      loop) c := by
  refine .step_bind quiet_advance (fun _ c₁ hadvance => ?_) fun _ => Nat.zero_le _
  cases hadvance
  exact hloop c.advance

/-- The rules with an allowance of so many nested calls. -/
structure AddsAt (n : Nat) : Prop where
  moreParameters : Adds 0 (fun _ => 0) (Grammar.moreParameters n)
  expression : ∀ p, Adds 0 Expr.statementCount (Grammar.expression n p)
  operators : ∀ p left, Adds left.statementCount Expr.statementCount (Grammar.operators n p left)
  extend : ∀ left, Adds left.statementCount Expr.statementCount (Grammar.extend n left)
  operand : Adds 0 Expr.statementCount (Grammar.operand n)
  expressions : ∀ close, Adds 0 exprsStatementCount (Grammar.expressions n close)
  moreExpressions : Adds 0 exprsStatementCount (Grammar.moreExpressions n)
  pairs : Adds 0 pairsStatementCount (Grammar.pairs n)
  block : Adds 0 Block.statementCount (Grammar.block n)
  blockStatements : ∀ c,
    Tells c.tokens 0 (yielded stmtsStatementCount) (Grammar.blockStatements n) c
  statement : ∀ c : Cursor, c.current.kind ≠ .eof → Tells c.tokens 0 begun (Grammar.statement n) c

theorem addsAt_zero : AddsAt 0 := by
  constructor <;> intros <;> first | exact tells_exhausted _ | exact fun _ => tells_exhausted _

section Step

variable {n : Nat} (h : AddsAt n)
include h

theorem AddsAt.moreParameters_succ :
    Adds 0 (fun _ => 0) (Grammar.moreParameters (n + 1)) := by
  rw [Grammar.moreParameters]
  refine .step_bind (quiet_nextIs _) fun _ => .choice _ ?_ (adds_pure (Nat.le_refl _))
  exact .step_bind quiet_advance fun _ => .step_bind (quiet_expectNext _) fun _ =>
    .step_bind quiet_current fun _ => h.moreParameters.bind fun _ => adds_pure (Nat.zero_le _)

theorem AddsAt.parameters : Adds 0 (fun _ => 0) (Grammar.parameters n) := by
  rw [Grammar.parameters]
  refine .step_bind (quiet_nextIs _) fun _ => .choice _ ?_ ?_
  · exact .step_bind quiet_advance fun _ => adds_pure (Nat.le_refl _)
  · exact .step_bind (quiet_expectNext _) fun _ => .step_bind quiet_current fun _ =>
      h.moreParameters.bind fun _ => .step_bind (quiet_expectNext _) fun _ =>
        adds_pure (Nat.zero_le _)

theorem AddsAt.operators_succ (p : Precedence) (left : Expr) :
    Adds left.statementCount Expr.statementCount (Grammar.operators (n + 1) p left) := by
  rw [Grammar.operators]
  refine .step_bind quiet_cursor fun c => .choice _ ?_ (adds_pure (Nat.le_refl _))
  exact .step_bind quiet_advance fun _ => (h.extend left).andThen fun longer => h.operators p longer

theorem AddsAt.extend_succ (left : Expr) :
    Adds left.statementCount Expr.statementCount (Grammar.extend (n + 1) left) := by
  rw [Grammar.extend]
  refine .step_bind quiet_current fun t => ?_
  split
  · exact (h.expressions _).bind fun args => adds_pure (Nat.le_refl _)
  · exact .step_bind quiet_advance fun _ => (h.expression _).bind fun position =>
      .step_bind (quiet_expectNext _) fun _ => adds_pure (Nat.le_refl _)
  · split
    · exact .step_bind quiet_advance fun _ => (h.expression _).bind fun right =>
        adds_pure (Nat.le_refl _)
    · exact adds_pure (Nat.le_refl _)

theorem AddsAt.prefixed (t : Token) (op : PrefixOp) :
    Adds 0 Expr.statementCount (do
      Grammar.advance
      let e ← Grammar.expression n .prefixed
      return .prefixed t op e) :=
  .step_bind quiet_advance fun _ => (h.expression _).bind fun e =>
    adds_pure (by rw [Expr.statementCount]; omega)

theorem AddsAt.operand_succ : Adds 0 Expr.statementCount (Grammar.operand (n + 1)) := by
  rw [Grammar.operand]
  refine .step_bind quiet_current fun t => ?_
  split
  · exact adds_pure (Nat.le_refl _)
  · split
    · exact adds_pure (Nat.le_refl _)
    · exact adds_fail _ _
  · exact adds_pure (Nat.le_refl _)
  · exact adds_pure (Nat.le_refl _)
  · exact adds_pure (Nat.le_refl _)
  · exact h.prefixed t .not
  · exact h.prefixed t .negate
  · exact .step_bind quiet_advance fun _ => (h.expression _).bind fun e =>
      .step_bind (quiet_expectNext _) fun _ => adds_pure (by omega)
  · refine .step_bind (quiet_expectNext _) fun _ => .step_bind quiet_advance fun _ =>
      (h.expression _).bind fun condition => .step_bind (quiet_expectNext _) fun _ =>
        .step_bind (quiet_expectNext _) fun _ => h.block.bind fun consequence =>
          .step_bind (quiet_nextIs _) fun _ => .choice _ ?_ ?_
    · exact .step_bind quiet_advance fun _ => .step_bind (quiet_expectNext _) fun _ =>
        h.block.bind fun alternative => adds_pure (by rw [Expr.statementCount]; omega)
    · exact adds_pure (by rw [Expr.statementCount]; omega)
  · exact .step_bind (quiet_expectNext _) fun _ => h.parameters.bind fun names =>
      .step_bind (quiet_expectNext _) fun _ => h.block.bind fun body =>
        adds_pure (by rw [Expr.statementCount]; omega)
  · exact (h.expressions _).bind fun elements => adds_pure (by rw [Expr.statementCount]; omega)
  · exact h.pairs.bind fun entries => adds_pure (by rw [Expr.statementCount]; omega)
  · exact adds_fail _ _

theorem AddsAt.expressions_succ (close : TokenKind) :
    Adds 0 exprsStatementCount (Grammar.expressions (n + 1) close) := by
  rw [Grammar.expressions]
  refine .step_bind (quiet_nextIs _) fun _ => .choice _ ?_ ?_
  · exact .step_bind quiet_advance fun _ => adds_pure (Nat.le_refl _)
  · exact .step_bind quiet_advance fun _ => (h.expression _).bind fun first =>
      h.moreExpressions.bind fun rest => .step_bind (quiet_expectNext _) fun _ =>
        adds_pure (by rw [exprsStatementCount]; omega)

theorem AddsAt.moreExpressions_succ :
    Adds 0 exprsStatementCount (Grammar.moreExpressions (n + 1)) := by
  rw [Grammar.moreExpressions]
  refine .step_bind (quiet_nextIs _) fun _ => .choice _ ?_ (adds_pure (Nat.le_refl _))
  exact .step_bind quiet_advance fun _ => .step_bind quiet_advance fun _ =>
    (h.expression _).bind fun first => h.moreExpressions.bind fun rest =>
      adds_pure (by rw [exprsStatementCount]; omega)

theorem AddsAt.pairs_succ : Adds 0 pairsStatementCount (Grammar.pairs (n + 1)) := by
  rw [Grammar.pairs]
  refine .step_bind (quiet_nextIs _) fun _ => .choice _ ?_ ?_
  · exact .step_bind quiet_advance fun _ => adds_pure (Nat.le_refl _)
  · refine .step_bind quiet_advance fun _ => (h.expression _).bind fun key =>
      .step_bind (quiet_expectNext _) fun _ => .step_bind quiet_advance fun _ =>
        (h.expression _).bind fun value => .step_bind (quiet_nextIs _) fun _ => .choice _ ?_ ?_
    · exact h.pairs.bind fun rest => adds_pure (by rw [pairsStatementCount]; omega)
    · exact .step_bind (quiet_expectNext _) fun _ => h.pairs.bind fun rest =>
        adds_pure (by rw [pairsStatementCount]; omega)

/-- The statements of a block begin after its brace. -/
theorem AddsAt.block_succ : Adds 0 Block.statementCount (Grammar.block (n + 1)) := by
  rw [Grammar.block]
  refine .step_bind quiet_current fun t c => ?_
  refine .step_bind quiet_advance (fun _ c₁ hadvance => ?_) fun _ => Nat.zero_le _
  cases hadvance
  refine (h.blockStatements c.advance).bind (k := 0) (List.tail_suffix _)
    (fun statements => ?_) fun _ => Nat.zero_le _
  refine Adds.step_bind quiet_current fun last => .choice _ (adds_fail _ _) (adds_pure ?_)
  rw [Block.statementCount]
  exact Nat.le_add_left _ _

theorem AddsAt.statement_succ (c : Cursor) (hc : c.current.kind ≠ .eof) :
    Tells c.tokens 0 begun (Grammar.statement (n + 1)) c := by
  rw [Grammar.statement]
  refine Tells.beginning (v := yielded fun s => s.value.statementCount) ?_ hc begun_le
  refine Adds.step_bind quiet_current (fun t => ?_) c
  have hvalue : ∀ (p : Precedence) (s : Expr → Stmt), (∀ e, (s e).value = e) →
      Adds 0 (fun s => s.value.statementCount) (do
        let value ← Grammar.expression n p
        Grammar.optionalSemicolon
        return s value) := fun p s hs =>
    (h.expression p).bind fun value => adds_optionalSemicolon.bind fun _ =>
      adds_pure (by rw [hs]; omega)
  split
  · exact .step_bind (quiet_expectNext _) fun _ => .step_bind quiet_current fun target =>
      .step_bind (quiet_expectNext _) fun _ => .step_bind quiet_advance fun _ =>
        hvalue _ (.bind t target) fun _ => rfl
  · exact .step_bind quiet_advance fun _ => hvalue _ (.ret t) fun _ => rfl
  · exact hvalue _ (.expr t) fun _ => rfl

theorem AddsAt.blockStatements_succ (c : Cursor) :
    Tells c.tokens 0 (yielded stmtsStatementCount) (Grammar.blockStatements (n + 1)) c := by
  rw [Grammar.blockStatements]
  refine .step_bind quiet_cursor (fun c₀ c₁ hstate => ?_) fun _ => Nat.zero_le _
  cases hstate
  split
  · exact tells_yield (.ok []) (Nat.le_refl _)
  · rename_i hgo
    have hc : c.current.kind ≠ .eof := fun heof => hgo (.inr heof)
    refine (h.statement c hc).outcome.bind (k := 0) (List.tail_suffix _) (fun r c₁ => ?_)
      fun _ => Nat.zero_le _
    rw [Nat.zero_add]
    cases r with
    | ok s => exact tells_read c₁ h.blockStatements
    | error e =>
        refine .record ?_
        refine .step_bind (quiet_recover _) (fun closed c₂ hrecover => ?_) fun _ => Nat.zero_le _
        have honward := (quiet_recover _ _ _ _ hrecover).1
        refine Tells.widen ?_ (tail_suffix_tail honward.tokens)
        split
        · exact tells_yield (.ok []) (Nat.le_refl _)
        · exact tells_recovered c₂ h.blockStatements

theorem AddsAt.succ : AddsAt (n + 1) where
  moreParameters := h.moreParameters_succ
  expression p := by
    rw [Grammar.expression]
    exact h.operand.andThen fun left => h.operators p left
  operators := h.operators_succ
  extend := h.extend_succ
  operand := h.operand_succ
  expressions := h.expressions_succ
  moreExpressions := h.moreExpressions_succ
  pairs := h.pairs_succ
  block := h.block_succ
  blockStatements := h.blockStatements_succ
  statement := h.statement_succ

end Step

theorem addsAt (n : Nat) : AddsAt n := by
  induction n with
  | zero => exact addsAt_zero
  | succ n ih => exact ih.succ

theorem tells_programStatements (n : Nat) (c : Cursor) :
    Tells c.tokens 0 (yielded stmtsStatementCount) (programStatements n) c := by
  induction n generalizing c with
  | zero => exact tells_exhausted _
  | succ n ih =>
      rw [programStatements, Grammar.programStatements]
      refine .step_bind quiet_cursor (fun c₀ c₁ hstate => ?_) fun _ => Nat.zero_le _
      cases hstate
      split
      · exact tells_yield (.ok []) (Nat.le_refl _)
      · rename_i hc
        refine ((addsAt n).statement c hc).outcome.bind (k := 0) (List.tail_suffix _)
          (fun r c₁ => ?_) fun _ => Nat.zero_le _
        rw [Nat.zero_add]
        cases r with
        | ok s => exact tells_read c₁ ih
        | error e =>
            refine .record ?_
            refine .step_bind (quiet_recover _) (fun _ c₂ hrecover => ?_) fun _ => Nat.zero_le _
            have honward := (quiet_recover _ _ _ _ hrecover).1
            exact (tells_recovered c₂ ih).widen (tail_suffix_tail honward.tokens)

theorem exists_notes {n : Nat} {c : Cursor} {x : Option (Except SyntaxError (List Stmt) × Cursor)}
    (h : Parse.programStatements n c = x) : ∃ notes, programStatements n c = (notes, x) :=
  ⟨(programStatements n c).1,
    Prod.ext rfl ((congrFun (Grammar.run_programStatements Noting n) c).trans h)⟩

end Noting

/-- A program that begins with a token has a statement or an error. -/
theorem Parse.pos_of_programStatements {n : Nat} {c c' : Cursor} {statements : List Stmt}
    (hc : c.current.kind ≠ .eof) (h : programStatements n c = some (.ok statements, c')) :
    0 < stmtsStatementCount statements + c'.errors.length := by
  cases n with
  | zero => cases h
  | succ n =>
      obtain hs | ⟨s, c₁, hs⟩ | ⟨e, c₁, hs⟩ := Run.ended (statement n c)
      · rw [programStatements_none hc hs] at h
        cases h
      · rw [programStatements_ok hc hs] at h
        obtain ⟨rest, c₂, -, hyield⟩ := Run.bind_eq_ok_iff.1 h
        cases hyield
        have hpos : 0 < s.statementCount := by cases s <;> exact Nat.succ_pos _
        rw [stmtsStatementCount]
        omega
      · rw [programStatements_error hc hs] at h
        have hprefix := (Cursor.onward_programStatements h).errors.length_le
        rw [Cursor.errors_advance, Cursor.errors_recover, Cursor.errors_record,
          List.length_append, List.length_singleton] at hprefix
        omega

/-- The cursors stand on different tokens, each further on than those before it. -/
structure Beginnings (tokens : List Token) (notes : List Cursor) : Prop where
  among : ∀ d ∈ notes, d.tokens <:+ tokens
  current_ne_eof : ∀ d ∈ notes, d.current.kind ≠ .eof
  further : notes.Pairwise fun d e => e.tokens.length < d.tokens.length

namespace Beginnings

variable {tokens : List Token} {notes : List Cursor}

theorem of_walked {c c' : Cursor} (h : Cursor.Walked tokens c c' notes) :
    Beginnings tokens notes := by
  refine ⟨h.among, h.begun, h.further.imp_of_mem fun {d e} hd _ he => ?_⟩
  have hpos := List.length_pos_iff.2 (Cursor.tokens_ne_nil_of_kind rfl (h.begun d hd))
  have hle := he.length_le
  rw [List.length_tail] at hle
  omega

theorem length_le (h : Beginnings tokens notes) : notes.length ≤ tokens.length := by
  obtain ⟨hamong, heof, hfurther⟩ := h
  have hpos : ∀ d ∈ notes, 0 < d.tokens.length := fun d hd =>
    List.length_pos_iff.2 (Cursor.tokens_ne_nil_of_kind rfl (heof d hd))
  have hle : ∀ d ∈ notes, d.tokens.length ≤ tokens.length := fun d hd => (hamong d hd).length_le
  clear hamong heof
  generalize tokens.length = bound at hle
  induction hfurther generalizing bound with
  | nil => exact Nat.zero_le _
  | @cons d notes hbefore _ ih =>
      have hd := hle d List.mem_cons_self
      have hd' := hpos d List.mem_cons_self
      have hrest := ih (fun e he => hpos e (List.mem_cons_of_mem _ he)) (d.tokens.length - 1)
        fun e he => Nat.le_sub_one_of_lt (hbefore e he)
      rw [List.length_cons]
      omega

end Beginnings

/-- Whatever a text holds, it is read to its end, within an allowance of nested calls that
the number of tokens bounds; with any such allowance, the statements that are begun begin on
different tokens, the statements read and the errors are no more than these, and of any
tokens at all at least one comes. -/
theorem Program.reading_ends (source : String) :
    ∃ statements after,
      (∀ n, (Cursor.start (Token.scan source)).allowance ≤ n →
        ∃ notes, Noting.programStatements n (Cursor.start (Token.scan source)) =
            (notes, some (.ok statements, after)) ∧
          Parse.programStatements n (Cursor.start (Token.scan source)) =
            some (.ok statements, after) ∧
          Beginnings (Token.scan source) notes ∧ notes.length ≤ (Token.scan source).length ∧
          Program.statementCount ⟨statements⟩ + after.errors.length ≤ notes.length) ∧
      Program.ofText source = (⟨statements⟩, after.errors) ∧
      (Token.scan source ≠ [] →
        0 < Program.statementCount ⟨statements⟩ + after.errors.length) := by
  obtain ⟨statements, after, hread, hprogram, -⟩ :=
    (Cursor.start (Token.scan source)).readProgram_spec
  refine ⟨statements, after, fun n hn => ?_, ?_, fun hsome => ?_⟩
  · have hmore := Parse.programStatements_mono hn hread
    obtain ⟨notes, hnoting⟩ := Noting.exists_notes hmore
    obtain ⟨hwalked, hcount⟩ := Noting.tells_programStatements n _ _ _ _ hnoting
    have hbeginnings := Beginnings.of_walked hwalked
    refine ⟨notes, hnoting, hmore, hbeginnings, hbeginnings.length_le, ?_⟩
    rw [Cursor.start, List.length_nil, Nat.add_zero, Nat.zero_add] at hcount
    exact hcount
  · rw [Program.ofText, Program.ofTokens, hprogram]
  · refine Parse.pos_of_programStatements ?_ hread
    obtain ⟨t, rest, ht⟩ := List.exists_cons_of_ne_nil hsome
    rw [Cursor.start, ht]
    exact Token.kind_ne_eof_of_mem_readAll (ht ▸ List.mem_cons_self)

/-- A name is missing in a block, and a brace closes nothing. -/
theorem Program.reading_ends_broken : ∃ statements after notes,
    Noting.programStatements 80 (Cursor.start (Token.scan "fn() \x7b let; 1 \x7d \x7d")) =
      (notes, some (.ok statements, after)) ∧
    Program.ofText "fn() \x7b let; 1 \x7d \x7d" = (⟨statements⟩, after.errors) ∧
    Beginnings (Token.scan "fn() \x7b let; 1 \x7d \x7d") notes ∧ notes.length ≤ 9 ∧
    Program.statementCount ⟨statements⟩ + after.errors.length ≤ notes.length ∧
    0 < Program.statementCount ⟨statements⟩ + after.errors.length := by
  have hlength : (Token.scan "fn() \x7b let; 1 \x7d \x7d").length = 9 := by decide +kernel
  obtain ⟨statements, after, hread, htext, hpos⟩ :=
    Program.reading_ends "fn() \x7b let; 1 \x7d \x7d"
  have hallowance : (Cursor.start (Token.scan "fn() \x7b let; 1 \x7d \x7d")).allowance ≤ 80 := by
    show 8 * (Token.scan "fn() \x7b let; 1 \x7d \x7d").length + 8 ≤ 80
    omega
  obtain ⟨notes, hnoting, -, hbeginnings, hle, hcount⟩ := hread 80 hallowance
  rw [hlength] at hle
  refine ⟨statements, after, notes, hnoting, htext, hbeginnings, hle, hcount, hpos fun hnone => ?_⟩
  rw [hnone] at hlength
  cases hlength

end Treewalk
