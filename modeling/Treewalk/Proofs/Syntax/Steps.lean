import Treewalk.Proofs.Run
import Treewalk.Syntax.Parse

/-!
The elementary steps of the rules of the grammar, each in front of what follows it.
-/

namespace Treewalk

theorem TokenKind.braceWeight_nonneg {kind : TokenKind} (h : kind ≠ .rbrace) :
    0 ≤ kind.braceWeight := by
  unfold braceWeight
  split <;> first | omega | contradiction

theorem TokenKind.neg_one_le_braceWeight (kind : TokenKind) : -1 ≤ kind.braceWeight := by
  unfold braceWeight
  split <;> omega

namespace Precedence

theorem ne_of_weaker {p : Precedence} {kind : TokenKind} (other : TokenKind)
    (h : p.weaker (.ofKind kind) = true) (hother : ofKind other = .lowest) : kind ≠ other := by
  intro heq
  rw [heq, hother, weaker] at h
  exact absurd (of_decide_eq_true h) (Nat.not_lt_zero _)

theorem braceWeight_of_weaker {p : Precedence} {kind : TokenKind}
    (h : p.weaker (.ofKind kind) = true) : kind.braceWeight = 0 := by
  have hopen := ne_of_weaker .lbrace h rfl
  have hclose := ne_of_weaker .rbrace h rfl
  unfold TokenKind.braceWeight
  split
  · contradiction
  · contradiction
  · rfl

end Precedence

namespace Cursor

variable {c : Cursor}

theorem current_advance (c : Cursor) : c.advance.current = c.upcoming := rfl

theorem tokens_ne_nil_of_kind {kind : TokenKind} (h : c.current.kind = kind)
    (hkind : kind ≠ .eof) : c.tokens ≠ [] := by
  intro hnil
  apply hkind
  rw [← h, current, hnil]
  rfl

theorem current_mem_tokens (h : c.tokens ≠ []) : c.current ∈ c.tokens := by
  obtain ⟨t, rest, htokens⟩ := List.exists_cons_of_ne_nil h
  rw [current, htokens]
  exact List.mem_cons_self

theorem tokens_advance_ne_nil {kind : TokenKind} (h : c.upcoming.kind = kind)
    (hkind : kind ≠ .eof) : c.advance.tokens ≠ [] :=
  tokens_ne_nil_of_kind (c := c.advance) h hkind

theorem tokens_ne_nil_of_upcoming {kind : TokenKind} (h : c.upcoming.kind = kind)
    (hkind : kind ≠ .eof) : c.tokens ≠ [] := by
  intro hnil
  exact tokens_advance_ne_nil h hkind (by rw [tokens_advance, hnil]; rfl)

end Cursor

namespace Parse

open Grammar (current nextIs advance expectNext cursor record recover)
open MonadGrammar (beginning outcome)

theorem beginning_bind {α : Type} (next : Unit → Parse α) (c : Cursor) :
    (beginning >>= next) c = next () c := rfl

theorem cursor_bind {α : Type} (next : Cursor → Parse α) (c : Cursor) :
    (cursor >>= next) c = next c c := rfl

theorem current_bind {α : Type} (next : Token → Parse α) (c : Cursor) :
    (current >>= next) c = next c.current c := rfl

theorem nextIs_bind {α : Type} (kind : TokenKind) (next : Bool → Parse α) (c : Cursor) :
    (nextIs kind >>= next) c = next (c.upcoming.kind == kind) c := rfl

theorem advance_bind {α : Type} (next : Unit → Parse α) (c : Cursor) :
    (advance >>= next) c = next () c.advance := rfl

theorem expectNext_bind {α : Type} (kind : TokenKind) (next : Unit → Parse α) (c : Cursor) :
    (expectNext kind >>= next) c =
      if c.upcoming.kind = kind then next () c.advance
      else some (.error (.unexpected kind c.upcoming.kind), c) := by
  rw [Run.bind_apply]
  by_cases h : c.upcoming.kind = kind
  · rw [show (expectNext kind : Parse Unit) c = _ from if_pos h, if_pos h]
  · rw [show (expectNext kind : Parse Unit) c = _ from if_neg h, if_neg h]

/-- What follows a rule may look at its outcome, if there is one. -/
theorem outcome_bind {α β : Type} (p : Parse α) (next : Except SyntaxError α → Parse β)
    (c : Cursor) :
    (outcome p >>= next) c =
      match p c with
      | none => none
      | some (r, c') => next r c' := by
  rw [Run.bind_apply, show (outcome p : Parse (Except SyntaxError α)) c = p.outcome c from rfl,
    Run.outcome]
  cases p c with
  | none => rfl
  | some r => rfl

section Program

variable {n : Nat} {c c₁ : Cursor}

theorem programStatements_eof (n : Nat) (hc : c.current.kind = .eof) :
    programStatements (n + 1) c = some (.ok [], c) := by
  rw [programStatements, Grammar.programStatements, cursor_bind, if_pos hc]
  rfl

theorem programStatements_none (hc : c.current.kind ≠ .eof) (h : statement n c = none) :
    programStatements (n + 1) c = none := by
  rw [programStatements, Grammar.programStatements, cursor_bind, if_neg hc, outcome_bind]
  simp only [h]

theorem programStatements_ok {s : Stmt} (hc : c.current.kind ≠ .eof)
    (h : statement n c = some (.ok s, c₁)) :
    programStatements (n + 1) c =
      (do return s :: (← programStatements n) : Parse (List Stmt)) c₁.advance := by
  rw [programStatements, Grammar.programStatements, cursor_bind, if_neg hc, outcome_bind]
  simp only [h]
  rfl

theorem programStatements_error {e : SyntaxError} (hc : c.current.kind ≠ .eof)
    (h : statement n c = some (.error e, c₁)) :
    programStatements (n + 1) c =
      programStatements n ((c₁.record e).recover c.depthBefore).2.advance := by
  rw [programStatements, Grammar.programStatements, cursor_bind, if_neg hc, outcome_bind]
  simp only [h]
  rfl

theorem blockStatements_stop (n : Nat) (hc : c.current.kind = .rbrace ∨ c.current.kind = .eof) :
    blockStatements (n + 1) c = some (.ok [], c) := by
  rw [blockStatements, Grammar.blockStatements, cursor_bind, if_pos hc]
  rfl

theorem blockStatements_none (hc : ¬(c.current.kind = .rbrace ∨ c.current.kind = .eof))
    (h : statement n c = none) : blockStatements (n + 1) c = none := by
  rw [blockStatements, Grammar.blockStatements, cursor_bind, if_neg hc, outcome_bind]
  simp only [h]

theorem blockStatements_ok {s : Stmt} (hc : ¬(c.current.kind = .rbrace ∨ c.current.kind = .eof))
    (h : statement n c = some (.ok s, c₁)) :
    blockStatements (n + 1) c =
      (do return s :: (← blockStatements n) : Parse (List Stmt)) c₁.advance := by
  rw [blockStatements, Grammar.blockStatements, cursor_bind, if_neg hc, outcome_bind]
  simp only [h]
  rfl

theorem blockStatements_error {e : SyntaxError}
    (hc : ¬(c.current.kind = .rbrace ∨ c.current.kind = .eof))
    (h : statement n c = some (.error e, c₁)) :
    blockStatements (n + 1) c =
      (if ((c₁.record e).recover c.depthBefore).1 then return []
        else do
          advance
          blockStatements n : Parse (List Stmt)) ((c₁.record e).recover c.depthBefore).2 := by
  rw [blockStatements, Grammar.blockStatements, cursor_bind, if_neg hc, outcome_bind]
  simp only [h]
  rfl

end Program

end Parse
end Treewalk
