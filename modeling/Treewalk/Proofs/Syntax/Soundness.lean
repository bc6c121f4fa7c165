import Treewalk.Proofs.Syntax.Braces
import Treewalk.Proofs.Syntax.Grammar

/-!
What is read without an error is a printing of what it is read as. A rule that records
an error on the way may still succeed, so the statements are about runs that add none.
-/

namespace Treewalk

theorem Cursor.tokens_eq_cons {c : Cursor} {kind : TokenKind} (h : c.current.kind = kind)
    (hkind : kind ≠ .eof) : c.tokens = c.current :: c.advance.tokens := by
  obtain ⟨t, rest, htokens⟩ := List.exists_cons_of_ne_nil (tokens_ne_nil_of_kind h hkind)
  rw [tokens_advance, current, htokens]
  rfl

theorem Cursor.advance_tokens_eq_cons {c : Cursor} {kind : TokenKind} (h : c.upcoming.kind = kind)
    (hkind : kind ≠ .eof) : c.advance.tokens = c.upcoming :: c.advance.advance.tokens :=
  tokens_eq_cons (c := c.advance) h hkind

namespace Parse

open Cursor
open Grammar (current nextIs advance expectNext optionalSemicolon placesAt)

theorem expectNext_bind_ok {α : Type} {kind : TokenKind} {next : Unit → Parse α} {c c' : Cursor}
    {a : α} (h : (expectNext kind >>= next) c = some (.ok a, c')) :
    c.upcoming.kind = kind ∧ next () c.advance = some (.ok a, c') := by
  rw [expectNext_bind] at h
  split at h
  · exact ⟨‹_›, h⟩
  · cases h

theorem nextIs_bind_some {α : Type} {kind : TokenKind} {next : Bool → Parse α} {c : Cursor}
    {r : Except SyntaxError α × Cursor} (h : (nextIs kind >>= next) c = some r) :
    c.upcoming.kind = kind ∧ next true c = some r ∨
      c.upcoming.kind ≠ kind ∧ next false c = some r := by
  rw [nextIs_bind] at h
  by_cases hkind : c.upcoming.kind = kind
  · rw [beq_iff_eq.2 hkind] at h
    exact .inl ⟨hkind, h⟩
  · rw [beq_eq_false_iff_ne.2 hkind] at h
    exact .inr ⟨hkind, h⟩

theorem moreParameters_sound {n : Nat} {c c' : Cursor} {names : List Token}
    (hnames : moreParameters n c = some (.ok names, c')) :
    c'.errors = c.errors ∧
      ∃ ts, c.advance.tokens = ts ++ c'.advance.tokens ∧ Token.MoreNames names ts := by
  induction n generalizing c names with
  | zero => cases hnames
  | succ n ih =>
      rw [moreParameters, Grammar.moreParameters] at hnames
      obtain ⟨hcomma, hnames⟩ | ⟨-, hnames⟩ := nextIs_bind_some hnames
      · rw [if_pos rfl, advance_bind] at hnames
        obtain ⟨hname, hrest⟩ := expectNext_bind_ok hnames
        rw [current_bind] at hrest
        obtain ⟨more, c₁, h₁, hpure⟩ := Run.bind_eq_ok_iff.1 hrest
        cases hpure
        obtain ⟨herrors, ts, htokens, hmore⟩ := ih h₁
        refine ⟨herrors, c.upcoming :: c.advance.upcoming :: ts, ?_, .cons hcomma hname hmore⟩
        rw [advance_tokens_eq_cons hcomma (by decide), advance_tokens_eq_cons hname (by decide),
          htokens]
        rfl
      · cases hnames
        exact ⟨rfl, [], rfl, .nil⟩

theorem parameters_sound {n : Nat} {c c' : Cursor} {names : List Token}
    (hnames : parameters n c = some (.ok names, c')) :
    c'.errors = c.errors ∧ ∃ ts t, c.advance.tokens = ts ++ t :: c'.advance.tokens ∧
      t.kind = .rparen ∧ Token.Names names ts := by
  rw [parameters, Grammar.parameters] at hnames
  obtain ⟨hclose, hnames⟩ | ⟨-, hnames⟩ := nextIs_bind_some hnames
  · cases hnames
    exact ⟨rfl, [], _, advance_tokens_eq_cons hclose (by decide), hclose, .nil⟩
  · obtain ⟨hname, hrest⟩ := expectNext_bind_ok hnames
    rw [current_bind] at hrest
    obtain ⟨more, c₁, h₁, h₂⟩ := Run.bind_eq_ok_iff.1 hrest
    obtain ⟨hclose', hpure⟩ := expectNext_bind_ok h₂
    cases hpure
    obtain ⟨herrors, ts, htokens, hmore⟩ := moreParameters_sound h₁
    refine ⟨herrors, c.upcoming :: ts, _, ?_, hclose', .cons hname hmore⟩
    rw [advance_tokens_eq_cons hname (by decide), htokens,
      advance_tokens_eq_cons hclose' (by decide)]
    rfl

theorem pairs_of_close {n : Nat} {c c' : Cursor} {ps : List (Expr × Expr)}
    (hps : pairs n c = some (.ok ps, c')) (hclose : c.upcoming.kind = .rbrace) :
    ps = [] ∧ c' = c.advance := by
  cases n with
  | zero => cases hps
  | succ n =>
      rw [pairs, Grammar.pairs] at hps
      obtain ⟨-, hps⟩ | ⟨hne, -⟩ := nextIs_bind_some hps
      · cases hps
        exact ⟨rfl, rfl⟩
      · exact absurd hclose hne

theorem sequence_cons {s : Stmt} {ss : List Stmt} {c c' : Cursor} {ts ms after : List Token}
    (hs : s.Printing ts)
    (hend : (∃ t, t.kind = .semicolon ∧ c.tokens = ts ++ t :: c'.advance.tokens) ∨
      c.tokens = ts ++ c'.advance.tokens ∧ c'.upcoming.rank = 0)
    (hrest : c'.advance.tokens = ms ++ after) (hss : Stmt.Sequence ss ms) :
    ∃ ts, c.tokens = ts ++ after ∧ Stmt.Sequence (s :: ss) ts := by
  obtain ⟨t, ht, htokens⟩ | ⟨htokens, hrank⟩ := hend
  · refine ⟨ts ++ t :: ms, ?_, .ended hs ht hss⟩
    rw [htokens, hrest, List.append_assoc]
    rfl
  · refine ⟨ts ++ ms, by rw [htokens, hrest, List.append_assoc],
      .bare hs (fun t ht hnext => ?_) hss⟩
    obtain ⟨rest, rfl⟩ := List.head?_eq_some_iff.1 ht
    have hupcoming : c'.upcoming = t := by
      rw [upcoming, ← tokens_advance, hrest]
      rfl
    have hpos := Token.rank_pos_of_continues hnext
    rw [← hupcoming, hrank] at hpos
    exact Nat.lt_irrefl 0 hpos

theorem errors_ne_of_record {e : SyntaxError} {c c₁ c' : Cursor} (h : c.Onward c₁)
    (h' : (c₁.record e).Onward c') : c'.errors ≠ c.errors := by
  intro heq
  have hle := h.errors.length_le
  have hle' := h'.errors.length_le
  rw [errors_record, List.length_append, List.length_singleton, heq] at hle'
  omega

/-- What the rules of the grammar yield with an allowance of `n` nested calls, when they
record no error, is printed by the tokens they move over. -/
structure SoundAt (n : Nat) : Prop where
  expression : ∀ p c e c', expression n p c = some (.ok e, c') → c'.errors = c.errors →
    ∃ ts, c.tokens = ts ++ c'.advance.tokens ∧ e.Printing p.place ts ∧
      c'.upcoming.rank ≤ p.rank
  operators : ∀ p left c e c' k ls, operators n p left c = some (.ok e, c') →
    c'.errors = c.errors → left.Printing k ls → p.place ≤ k →
    (c.upcoming.rank ≤ k ∨ Expr.tightLevel ≤ k) →
    ∃ ts, c.advance.tokens = ts ++ c'.advance.tokens ∧ e.Printing p.place (ls ++ ts) ∧
      c'.upcoming.rank ≤ p.rank
  extend : ∀ left c e c' k ls, extend n left c = some (.ok e, c') → c'.errors = c.errors →
    left.Printing k ls → 0 < c.current.rank → (c.current.rank ≤ k ∨ Expr.tightLevel ≤ k) →
    ∃ ts j, c.tokens = ts ++ c'.advance.tokens ∧ e.Printing j (ls ++ ts) ∧
      c.current.rank ≤ j ∧ (c'.upcoming.rank ≤ j ∨ Expr.tightLevel ≤ j)
  operand : ∀ c e c', operand n c = some (.ok e, c') → c'.errors = c.errors →
    ∃ ts k, c.tokens = ts ++ c'.advance.tokens ∧ e.Printing k ts ∧ Expr.prefixLevel ≤ k ∧
      (c'.upcoming.rank ≤ k ∨ Expr.tightLevel ≤ k)
  expressions : ∀ close c es c', expressions n close c = some (.ok es, c') →
    c'.errors = c.errors → close ≠ .eof →
    ∃ ts t, c.advance.tokens = ts ++ t :: c'.advance.tokens ∧ t.kind = close ∧
      Expr.Listing es ts
  moreExpressions : ∀ c es c', moreExpressions n c = some (.ok es, c') →
    c'.errors = c.errors →
    ∃ ts, c.advance.tokens = ts ++ c'.advance.tokens ∧ Expr.MoreListing es ts
  pairs : ∀ c ps c', pairs n c = some (.ok ps, c') → c'.errors = c.errors →
    ∃ ts t, c.advance.tokens = ts ++ t :: c'.advance.tokens ∧ t.kind = .rbrace ∧
      Expr.PairListing ps ts
  block : ∀ c b c', block n c = some (.ok b, c') → c'.errors = c.errors →
    c.current.kind = .lbrace →
    ∃ ts, c.tokens = ts ++ c'.advance.tokens ∧ b.Printing ts
  blockStatements : ∀ c ss c', blockStatements n c = some (.ok ss, c') →
    c'.errors = c.errors → ∃ ts, c.tokens = ts ++ c'.tokens ∧ Stmt.Sequence ss ts
  statement : ∀ c s c', statement n c = some (.ok s, c') → c'.errors = c.errors →
    ∃ ts, s.Printing ts ∧ ((∃ t, t.kind = .semicolon ∧ c.tokens = ts ++ t :: c'.advance.tokens) ∨
      c.tokens = ts ++ c'.advance.tokens ∧ c'.upcoming.rank = 0)

theorem soundAt_zero : SoundAt 0 where
  expression _ _ _ _ h := nomatch h
  operators _ _ _ _ _ _ _ h := nomatch h
  extend _ _ _ _ _ _ h := nomatch h
  operand _ _ _ h := nomatch h
  expressions _ _ _ _ h := nomatch h
  moreExpressions _ _ _ h := nomatch h
  pairs _ _ _ h := nomatch h
  block _ _ _ h := nomatch h
  blockStatements _ _ _ h := nomatch h
  statement _ _ _ h := nomatch h

section Step

variable {n : Nat} (h : SoundAt n)
include h

theorem SoundAt.expression_succ {p : Precedence} {c c' : Cursor} {e : Expr}
    (he : Parse.expression (n + 1) p c = some (.ok e, c')) (herrors : c'.errors = c.errors) :
    ∃ ts, c.tokens = ts ++ c'.advance.tokens ∧ e.Printing p.place ts ∧
      c'.upcoming.rank ≤ p.rank := by
  rw [Parse.expression, Grammar.expression] at he
  obtain ⟨left, c₁, h₁, h₂⟩ := Run.bind_eq_ok_iff.1 he
  have honward₁ := onward_of_keeps ((placesAt Parse c n).operand c rfl) h₁
  have honward₂ := onward_of_keeps ((placesAt Parse c₁ n).operators p left c₁ rfl) h₂
  obtain ⟨herrors₁, herrors₂⟩ := honward₁.errors_eq honward₂ herrors
  obtain ⟨ts₁, k, htokens₁, hleft, hk, hnext⟩ := h.operand c left c₁ h₁ herrors₁
  obtain ⟨ts₂, htokens₂, hprinting, hrank⟩ :=
    h.operators p left c₁ e c' k ts₁ h₂ herrors₂ hleft
      (Nat.le_trans (Nat.min_le_right _ _) hk) hnext
  exact ⟨ts₁ ++ ts₂, by rw [htokens₁, htokens₂, List.append_assoc], hprinting, hrank⟩

theorem SoundAt.operators_succ {p : Precedence} {left e : Expr} {c c' : Cursor} {k : Nat}
    {ls : List Token} (he : Parse.operators (n + 1) p left c = some (.ok e, c'))
    (herrors : c'.errors = c.errors) (hleft : left.Printing k ls) (hk : p.place ≤ k)
    (hnext : c.upcoming.rank ≤ k ∨ Expr.tightLevel ≤ k) :
    ∃ ts, c.advance.tokens = ts ++ c'.advance.tokens ∧ e.Printing p.place (ls ++ ts) ∧
      c'.upcoming.rank ≤ p.rank := by
  rw [Parse.operators, Grammar.operators, cursor_bind] at he
  split at he
  · rename_i hweaker
    rw [advance_bind] at he
    have hrank := Token.weaker_iff.1 hweaker
    obtain ⟨longer, c₁, h₁, h₂⟩ := Run.bind_eq_ok_iff.1 he
    have honward₁ := onward_of_keeps ((placesAt Parse c.advance n).extend left c.advance rfl) h₁
    have honward₂ := onward_of_keeps ((placesAt Parse c₁ n).operators p longer c₁ rfl) h₂
    obtain ⟨herrors₁, herrors₂⟩ := honward₁.errors_eq honward₂ herrors
    obtain ⟨ts₁, j, htokens₁, hlonger, hj, hnext₁⟩ := h.extend left c.advance longer c₁ k ls h₁
      herrors₁ hleft (Nat.lt_of_le_of_lt (Nat.zero_le _) hrank) hnext
    have hplace : p.place ≤ j :=
      Nat.le_trans (Nat.min_le_left _ _) (Nat.le_trans (Nat.succ_le_of_lt hrank) hj)
    obtain ⟨ts₂, htokens₂, hprinting, hrank'⟩ :=
      h.operators p longer c₁ e c' j (ls ++ ts₁) h₂ herrors₂ hlonger hplace hnext₁
    refine ⟨ts₁ ++ ts₂, by rw [htokens₁, htokens₂, List.append_assoc], ?_, hrank'⟩
    rwa [← List.append_assoc]
  · rename_i hweaker
    cases he
    refine ⟨[], rfl, ?_, Nat.le_of_not_lt fun hlt => hweaker (Token.weaker_iff.2 hlt)⟩
    rw [List.append_nil]
    exact hleft.loosen (.inl hk)

theorem SoundAt.whole {c c' : Cursor} {e : Expr}
    (he : Parse.expression n .lowest c.advance = some (.ok e, c'))
    (herrors : c'.errors = c.errors) :
    ∃ ts, c.advance.tokens = ts ++ c'.advance.tokens ∧ e.Printing Expr.anyLevel ts ∧
      c'.upcoming.rank = 0 := by
  obtain ⟨ts, htokens, hprinting, hrank⟩ := h.expression .lowest c.advance e c' he herrors
  exact ⟨ts, htokens, hprinting, Nat.le_zero.1 hrank⟩

theorem SoundAt.extend_succ {left e : Expr} {c c' : Cursor} {k : Nat} {ls : List Token}
    (he : Parse.extend (n + 1) left c = some (.ok e, c')) (herrors : c'.errors = c.errors)
    (hleft : left.Printing k ls) (hpos : 0 < c.current.rank)
    (hk : c.current.rank ≤ k ∨ Expr.tightLevel ≤ k) :
    ∃ ts j, c.tokens = ts ++ c'.advance.tokens ∧ e.Printing j (ls ++ ts) ∧
      c.current.rank ≤ j ∧ (c'.upcoming.rank ≤ j ∨ Expr.tightLevel ≤ j) := by
  rw [Parse.extend, Grammar.extend, current_bind] at he
  generalize hkind : c.current.kind = kind at he
  split at he
  · have hrank := Token.rank_of_lparen hkind
    have htokens := tokens_eq_cons hkind (by decide)
    obtain ⟨args, c₁, h₁, hpure⟩ := Run.bind_eq_ok_iff.1 he
    cases hpure
    obtain ⟨ts, t, htokens₁, hclose, hargs⟩ := h.expressions _ _ _ _ h₁ herrors (by decide)
    have hcallee : left.Printing Expr.tightLevel ls := hleft.loosen (by omega)
    refine ⟨c.current :: (ts ++ [t]), Expr.tightLevel, ?_, .call hcallee hkind hargs hclose,
      Nat.le_of_eq hrank, .inr (Nat.le_refl _)⟩
    rw [htokens, htokens₁]
    simp only [List.cons_append, List.append_assoc, List.nil_append]
  · have hrank := Token.rank_of_lbracket hkind
    rw [advance_bind] at he
    obtain ⟨position, c₁, h₁, h₂⟩ := Run.bind_eq_ok_iff.1 he
    obtain ⟨hclose, hpure⟩ := expectNext_bind_ok h₂
    cases hpure
    obtain ⟨ts, htokens₁, hposition, -⟩ := h.whole h₁ herrors
    have hcollection : left.Printing Expr.tightLevel ls := hleft.loosen (by omega)
    refine ⟨c.current :: (ts ++ [c₁.upcoming]), Expr.tightLevel + 1, ?_,
      .index hcollection hkind hposition hclose, Nat.le_of_eq hrank, .inr (Nat.le_succ _)⟩
    rw [tokens_eq_cons hkind (by decide), htokens₁, advance_tokens_eq_cons hclose (by decide)]
    simp only [List.cons_append, List.append_assoc, List.nil_append]
  · cases hop : InfixOp.ofKind? kind with
    | none =>
        subst hkind
        obtain hop' | hopen | hopen := Token.continues_of_rank_pos hpos
        · rw [hop] at hop'
          cases hop'
        · contradiction
        · contradiction
    | some op =>
        rw [hop] at he
        dsimp only at he
        rw [advance_bind] at he
        obtain ⟨right, c₁, h₁, hpure⟩ := Run.bind_eq_ok_iff.1 he
        cases hpure
        obtain ⟨ts, htokens₁, hright, hrank₁⟩ := h.expression _ _ _ _ h₁ herrors
        subst hkind
        have hrank := Token.rank_of_operator hop
        rw [Token.place_of_operator hop] at hright
        have heof : c.current.kind ≠ .eof := by
          intro heof
          rw [heof] at hop
          cases hop
        refine ⟨c.current :: ts, op.level, ?_,
          .binary hop (Nat.le_refl _) (hleft.loosen (by omega)) hright, Nat.le_of_eq hrank,
          .inl (Nat.le_trans hrank₁ (Nat.le_of_eq hrank))⟩
        rw [tokens_eq_cons rfl heof, htokens₁]
        rfl

theorem SoundAt.expressions_succ {close : TokenKind} {c c' : Cursor} {es : List Expr}
    (hes : Parse.expressions (n + 1) close c = some (.ok es, c'))
    (herrors : c'.errors = c.errors) (heof : close ≠ .eof) :
    ∃ ts t, c.advance.tokens = ts ++ t :: c'.advance.tokens ∧ t.kind = close ∧
      Expr.Listing es ts := by
  rw [Parse.expressions, Grammar.expressions] at hes
  obtain ⟨hclose, hes⟩ | ⟨-, hes⟩ := nextIs_bind_some hes
  · cases hes
    exact ⟨[], c.upcoming, advance_tokens_eq_cons hclose heof, hclose, .nil⟩
  · rw [if_neg Bool.false_ne_true, advance_bind] at hes
    obtain ⟨first, c₁, h₁, hes⟩ := Run.bind_eq_ok_iff.1 hes
    obtain ⟨rest, c₂, h₂, hes⟩ := Run.bind_eq_ok_iff.1 hes
    obtain ⟨hclose, hpure⟩ := expectNext_bind_ok hes
    cases hpure
    have honward₁ := (Onward.advance c).trans (onward_expression h₁)
    have honward₂ := onward_of_keeps ((placesAt Parse c₁ n).moreExpressions c₁ rfl) h₂
    obtain ⟨herrors₁, herrors₂⟩ := honward₁.errors_eq honward₂ herrors
    obtain ⟨ts₁, htokens₁, hfirst, -⟩ := h.whole h₁ herrors₁
    obtain ⟨ts₂, htokens₂, hrest⟩ := h.moreExpressions _ _ _ h₂ herrors₂
    refine ⟨ts₁ ++ ts₂, c₂.upcoming, ?_, hclose, .cons hfirst hrest⟩
    rw [htokens₁, htokens₂, advance_tokens_eq_cons hclose heof, List.append_assoc]

theorem SoundAt.moreExpressions_succ {c c' : Cursor} {es : List Expr}
    (hes : Parse.moreExpressions (n + 1) c = some (.ok es, c'))
    (herrors : c'.errors = c.errors) :
    ∃ ts, c.advance.tokens = ts ++ c'.advance.tokens ∧ Expr.MoreListing es ts := by
  rw [Parse.moreExpressions, Grammar.moreExpressions] at hes
  obtain ⟨hcomma, hes⟩ | ⟨-, hes⟩ := nextIs_bind_some hes
  · rw [if_pos rfl, advance_bind, advance_bind] at hes
    obtain ⟨first, c₁, h₁, hes⟩ := Run.bind_eq_ok_iff.1 hes
    obtain ⟨rest, c₂, h₂, hpure⟩ := Run.bind_eq_ok_iff.1 hes
    cases hpure
    have honward₁ := ((Onward.advance c).trans (.advance _)).trans (onward_expression h₁)
    have honward₂ := onward_of_keeps ((placesAt Parse c₁ n).moreExpressions c₁ rfl) h₂
    obtain ⟨herrors₁, herrors₂⟩ := honward₁.errors_eq honward₂ herrors
    obtain ⟨ts₁, htokens₁, hfirst, -⟩ := h.whole h₁ herrors₁
    obtain ⟨ts₂, htokens₂, hrest⟩ := h.moreExpressions _ _ _ h₂ herrors₂
    refine ⟨c.upcoming :: (ts₁ ++ ts₂), ?_, .cons hcomma hfirst hrest⟩
    rw [advance_tokens_eq_cons hcomma (by decide), htokens₁, htokens₂, List.cons_append,
      List.append_assoc]
  · cases hes
    exact ⟨[], rfl, .nil⟩

theorem SoundAt.pairs_succ {c c' : Cursor} {ps : List (Expr × Expr)}
    (hps : Parse.pairs (n + 1) c = some (.ok ps, c')) (herrors : c'.errors = c.errors) :
    ∃ ts t, c.advance.tokens = ts ++ t :: c'.advance.tokens ∧ t.kind = .rbrace ∧
      Expr.PairListing ps ts := by
  rw [Parse.pairs, Grammar.pairs] at hps
  obtain ⟨hclose, hps⟩ | ⟨-, hps⟩ := nextIs_bind_some hps
  · cases hps
    exact ⟨[], c.upcoming, advance_tokens_eq_cons hclose (by decide), hclose, .nil⟩
  · rw [if_neg Bool.false_ne_true, advance_bind] at hps
    obtain ⟨key, c₁, h₁, hps⟩ := Run.bind_eq_ok_iff.1 hps
    obtain ⟨hcolon, hps⟩ := expectNext_bind_ok hps
    rw [advance_bind] at hps
    obtain ⟨value, c₂, h₂, hps⟩ := Run.bind_eq_ok_iff.1 hps
    have honward₁ := (Onward.advance c).trans (onward_expression h₁)
    have honward₂ := ((Onward.advance c₁).trans (.advance _)).trans (onward_expression h₂)
    obtain ⟨hclose, hps⟩ | ⟨-, hps⟩ := nextIs_bind_some hps
    · rw [if_pos rfl] at hps
      obtain ⟨rest, c₃, h₃, hpure⟩ := Run.bind_eq_ok_iff.1 hps
      cases hpure
      obtain ⟨rfl, rfl⟩ := pairs_of_close h₃ hclose
      obtain ⟨herrors₁, herrors₂⟩ := honward₁.errors_eq honward₂ herrors
      obtain ⟨ts₁, htokens₁, hkey, -⟩ := h.whole h₁ herrors₁
      obtain ⟨ts₂, htokens₂, hvalue, -⟩ := h.whole h₂ herrors₂
      refine ⟨ts₁ ++ c₁.upcoming :: ts₂, c₂.upcoming, ?_, hclose, .last hkey hcolon hvalue⟩
      rw [htokens₁, advance_tokens_eq_cons hcolon (by decide), htokens₂,
        advance_tokens_eq_cons hclose (by decide)]
      simp only [List.cons_append, List.append_assoc]
    · rw [if_neg Bool.false_ne_true] at hps
      obtain ⟨hcomma, hps⟩ := expectNext_bind_ok hps
      obtain ⟨rest, c₃, h₃, hpure⟩ := Run.bind_eq_ok_iff.1 hps
      cases hpure
      have hcommas := tokens_advance_ne_nil hcomma (by decide)
      have hpairs := (placesAt Parse c₂.advance n).pairs c₂.advance hcommas
        (Int.sub_add_cancel _ 1).symm
      have honward₃ := (Onward.advance c₂).trans (onward_of_keeps hpairs h₃)
      obtain ⟨herrors₁, herrors'⟩ := honward₁.errors_eq (honward₂.trans honward₃) herrors
      obtain ⟨herrors₂, herrors₃⟩ := honward₂.errors_eq honward₃ herrors'
      obtain ⟨ts₁, htokens₁, hkey, -⟩ := h.whole h₁ herrors₁
      obtain ⟨ts₂, htokens₂, hvalue, -⟩ := h.whole h₂ herrors₂
      obtain ⟨ts₃, t, htokens₃, hclose, hrest⟩ := h.pairs _ _ _ h₃ herrors₃
      refine ⟨ts₁ ++ c₁.upcoming :: (ts₂ ++ c₂.upcoming :: ts₃), t, ?_, hclose,
        .cons hkey hcolon hvalue hcomma hrest⟩
      rw [htokens₁, advance_tokens_eq_cons hcolon (by decide), htokens₂,
        advance_tokens_eq_cons hcomma (by decide), htokens₃]
      simp only [List.cons_append, List.append_assoc]

theorem SoundAt.block_succ {c c' : Cursor} {b : Block}
    (hb : Parse.block (n + 1) c = some (.ok b, c')) (herrors : c'.errors = c.errors)
    (hkind : c.current.kind = .lbrace) :
    ∃ ts, c.tokens = ts ++ c'.advance.tokens ∧ b.Printing ts := by
  rw [Parse.block, Grammar.block, current_bind, advance_bind] at hb
  obtain ⟨statements, c₁, h₁, hb⟩ := Run.bind_eq_ok_iff.1 hb
  rw [current_bind] at hb
  split at hb
  · cases hb
  · rename_i heof
    cases hb
    obtain ⟨ts, htokens, hsequence⟩ := h.blockStatements _ _ _ h₁ herrors
    have hends := meets_blockStatements n c.advance
    rw [show Parse.blockStatements n c.advance = _ from h₁] at hends
    have hclose : c'.current.kind = .rbrace := (hends.closed.resolve_right heof).2
    refine ⟨c.current :: (ts ++ [c'.current]), ?_, .braces hkind hsequence hclose⟩
    rw [tokens_eq_cons hkind (by decide), htokens, tokens_eq_cons hclose (by decide)]
    simp only [List.cons_append, List.append_assoc, List.nil_append]

theorem SoundAt.terminated {make : Expr → Stmt} {c c' : Cursor} {s : Stmt}
    (hs : (do let value ← Parse.expression n .lowest
              optionalSemicolon
              return make value : Parse Stmt) c = some (.ok s, c'))
    (herrors : c'.errors = c.errors) :
    ∃ value ts, s = make value ∧ value.Printing Expr.anyLevel ts ∧
      ((∃ t, t.kind = .semicolon ∧ c.tokens = ts ++ t :: c'.advance.tokens) ∨
        c.tokens = ts ++ c'.advance.tokens ∧ c'.upcoming.rank = 0) := by
  obtain ⟨value, c₁, h₁, hs⟩ := Run.bind_eq_ok_iff.1 hs
  rw [optionalSemicolon, bind_assoc] at hs
  obtain ⟨hsemicolon, hs⟩ | ⟨-, hs⟩ := nextIs_bind_some hs
  · cases hs
    obtain ⟨ts, htokens, hvalue, -⟩ := h.expression _ _ _ _ h₁ herrors
    refine ⟨value, ts, rfl, hvalue, .inl ⟨c₁.upcoming, hsemicolon, ?_⟩⟩
    rw [htokens, advance_tokens_eq_cons hsemicolon (by decide)]
  · cases hs
    obtain ⟨ts, htokens, hvalue, hrank⟩ := h.expression _ _ _ _ h₁ herrors
    exact ⟨value, ts, rfl, hvalue, .inr ⟨htokens, Nat.le_zero.1 hrank⟩⟩

theorem SoundAt.statement_succ {c c' : Cursor} {s : Stmt}
    (hs : Parse.statement (n + 1) c = some (.ok s, c')) (herrors : c'.errors = c.errors) :
    ∃ ts, s.Printing ts ∧ ((∃ t, t.kind = .semicolon ∧ c.tokens = ts ++ t :: c'.advance.tokens) ∨
      c.tokens = ts ++ c'.advance.tokens ∧ c'.upcoming.rank = 0) := by
  rw [Parse.statement, Grammar.statement, beginning_bind, current_bind] at hs
  generalize hkind : c.current.kind = kind at hs
  split at hs
  · obtain ⟨htarget, hs⟩ := expectNext_bind_ok hs
    rw [current_bind] at hs
    obtain ⟨hassign, hs⟩ := expectNext_bind_ok hs
    rw [advance_bind] at hs
    obtain ⟨value, ts, rfl, hvalue, hend⟩ := h.terminated hs herrors
    refine ⟨_, .bind hkind htarget hassign hvalue, ?_⟩
    rw [tokens_eq_cons hkind (by decide), advance_tokens_eq_cons htarget (by decide),
      advance_tokens_eq_cons hassign (by decide)]
    obtain ⟨t, ht, htokens⟩ | ⟨htokens, hrank⟩ := hend
    · exact .inl ⟨t, ht, by rw [htokens]; rfl⟩
    · exact .inr ⟨by rw [htokens]; rfl, hrank⟩
  · rw [advance_bind] at hs
    obtain ⟨value, ts, rfl, hvalue, hend⟩ := h.terminated hs herrors
    refine ⟨_, .ret hkind hvalue, ?_⟩
    rw [tokens_eq_cons hkind (by decide)]
    obtain ⟨t, ht, htokens⟩ | ⟨htokens, hrank⟩ := hend
    · exact .inl ⟨t, ht, by rw [htokens]; rfl⟩
    · exact .inr ⟨by rw [htokens]; rfl, hrank⟩
  · obtain ⟨value, ts, rfl, hvalue, hend⟩ := h.terminated hs herrors
    obtain ⟨t, rest, rfl, -⟩ := hvalue.begins
    have hcurrent : c.current = t := by
      obtain ⟨t', -, htokens⟩ | ⟨htokens, -⟩ := hend <;>
        rw [Cursor.current, htokens] <;> rfl
    rw [hcurrent]
    exact ⟨_, .expr hvalue, hend⟩

theorem SoundAt.blockStatements_succ {c c' : Cursor} {ss : List Stmt}
    (hss : Parse.blockStatements (n + 1) c = some (.ok ss, c'))
    (herrors : c'.errors = c.errors) :
    ∃ ts, c.tokens = ts ++ c'.tokens ∧ Stmt.Sequence ss ts := by
  by_cases hstop : c.current.kind = .rbrace ∨ c.current.kind = .eof
  · rw [blockStatements_stop n hstop] at hss
    cases hss
    exact ⟨[], rfl, .nil⟩
  · have hbegins : c.current.kind ≠ .eof := fun heof => hstop (.inr heof)
    obtain hm | ⟨s, c₁, hm⟩ | ⟨e, c₁, hm⟩ := Run.ended (Parse.statement n c)
    · rw [blockStatements_none hstop hm] at hss
      cases hss
    · rw [blockStatements_ok hstop hm] at hss
      obtain ⟨rest, c₂, h₂, hpure⟩ := Run.bind_eq_ok_iff.1 hss
      cases hpure
      obtain ⟨herrors₁, herrors₂⟩ := (onward_statement hbegins hm).errors_eq
        ((Onward.advance c₁).trans (onward_blockStatements h₂)) herrors
      obtain ⟨ts, hs, hend⟩ := h.statement _ _ _ hm herrors₁
      obtain ⟨ms, hrest, hsequence⟩ := h.blockStatements _ _ _ h₂ herrors₂
      exact sequence_cons hs hend hrest hsequence
    · have honward := onward_statement hbegins hm
      have hrecovered := onward_recover c.depthBefore (c₁.record e)
      rw [blockStatements_error hstop hm] at hss
      split at hss
      · cases hss
        exact absurd herrors (errors_ne_of_record honward hrecovered)
      · exact absurd herrors (errors_ne_of_record honward
          (hrecovered.trans ((Onward.advance _).trans (onward_blockStatements hss))))

theorem SoundAt.prefixed {op : PrefixOp} {c c' : Cursor} {e : Expr}
    (hop : PrefixOp.ofKind? c.current.kind = some op)
    (he : Parse.expression n .prefixed c.advance = some (.ok e, c'))
    (herrors : c'.errors = c.errors) :
    ∃ ts k, c.tokens = ts ++ c'.advance.tokens ∧ (Expr.prefixed c.current op e).Printing k ts ∧
      Expr.prefixLevel ≤ k ∧ (c'.upcoming.rank ≤ k ∨ Expr.tightLevel ≤ k) := by
  have heof : c.current.kind ≠ .eof := by
    intro heof
    rw [heof] at hop
    cases hop
  obtain ⟨ts, htokens, hoperand, hrank⟩ := h.expression _ _ _ _ he herrors
  refine ⟨c.current :: ts, Expr.prefixLevel, ?_, .prefixed hop (Nat.le_refl _) hoperand,
    Nat.le_refl _, .inl hrank⟩
  rw [tokens_eq_cons rfl heof, htokens]
  rfl

theorem SoundAt.conditional {c c' : Cursor} {e : Expr} {k : Nat} (hkind : c.current.kind = .ifWord)
    (he : (do expectNext .lparen
              advance
              let condition ← Parse.expression n .lowest
              expectNext .rparen
              expectNext .lbrace
              let consequence ← Parse.block n
              if ← nextIs .elseWord then
                advance
                expectNext .lbrace
                let alternative ← Parse.block n
                return .conditional c.current condition consequence (some alternative)
              else
                return .conditional c.current condition consequence none : Parse Expr) c =
      some (.ok e, c')) (herrors : c'.errors = c.errors) :
    ∃ ts, c.tokens = ts ++ c'.advance.tokens ∧ e.Printing k ts := by
  obtain ⟨hopen, he⟩ := expectNext_bind_ok he
  rw [advance_bind] at he
  obtain ⟨condition, c₁, h₁, he⟩ := Run.bind_eq_ok_iff.1 he
  obtain ⟨hclose, he⟩ := expectNext_bind_ok he
  obtain ⟨hbrace, he⟩ := expectNext_bind_ok he
  obtain ⟨consequence, c₂, h₂, he⟩ := Run.bind_eq_ok_iff.1 he
  have honward₁ := ((Onward.advance c).trans (.advance _)).trans (onward_expression h₁)
  have hblock := onward_of_keeps ((placesAt Parse _ n).block c₁.advance.advance hbrace rfl) h₂
  have honward₂ := ((Onward.advance c₁).trans (.advance _)).trans hblock
  obtain ⟨helse, he⟩ | ⟨-, he⟩ := nextIs_bind_some he
  · rw [if_pos rfl, advance_bind] at he
    obtain ⟨hbrace', he⟩ := expectNext_bind_ok he
    obtain ⟨alternative, c₃, h₃, hpure⟩ := Run.bind_eq_ok_iff.1 he
    cases hpure
    have hblock' := onward_of_keeps ((placesAt Parse _ n).block c₂.advance.advance hbrace' rfl) h₃
    have honward₃ := ((Onward.advance c₂).trans (.advance _)).trans hblock'
    obtain ⟨herrors₁, herrors'⟩ := honward₁.errors_eq (honward₂.trans honward₃) herrors
    obtain ⟨herrors₂, herrors₃⟩ := honward₂.errors_eq honward₃ herrors'
    obtain ⟨cs, htokens₁, hcondition, -⟩ := h.whole h₁ herrors₁
    obtain ⟨bs, htokens₂, hconsequence⟩ := h.block _ _ _ h₂ herrors₂ hbrace
    obtain ⟨as, htokens₃, halternative⟩ := h.block _ _ _ h₃ herrors₃ hbrace'
    refine ⟨_, ?_, .alternative hkind hopen hcondition hclose hconsequence helse halternative⟩
    rw [tokens_eq_cons hkind (by decide), advance_tokens_eq_cons hopen (by decide), htokens₁,
      advance_tokens_eq_cons hclose (by decide), htokens₂,
      advance_tokens_eq_cons helse (by decide), htokens₃]
    simp only [List.cons_append, List.append_assoc]
  · cases he
    obtain ⟨herrors₁, herrors₂⟩ := honward₁.errors_eq honward₂ herrors
    obtain ⟨cs, htokens₁, hcondition, -⟩ := h.whole h₁ herrors₁
    obtain ⟨bs, htokens₂, hconsequence⟩ := h.block _ _ _ h₂ herrors₂ hbrace
    refine ⟨_, ?_, .conditional hkind hopen hcondition hclose hconsequence⟩
    rw [tokens_eq_cons hkind (by decide), advance_tokens_eq_cons hopen (by decide), htokens₁,
      advance_tokens_eq_cons hclose (by decide), htokens₂]
    simp only [List.cons_append, List.append_assoc]

theorem SoundAt.function {c c' : Cursor} {e : Expr} {k : Nat}
    (hkind : c.current.kind = .functionWord)
    (he : (do expectNext .lparen
              let names ← parameters n
              expectNext .lbrace
              let body ← Parse.block n
              return .function c.current names body : Parse Expr) c = some (.ok e, c'))
    (herrors : c'.errors = c.errors) :
    ∃ ts, c.tokens = ts ++ c'.advance.tokens ∧ e.Printing k ts := by
  obtain ⟨hopen, he⟩ := expectNext_bind_ok he
  obtain ⟨names, c₁, h₁, he⟩ := Run.bind_eq_ok_iff.1 he
  obtain ⟨hbrace, he⟩ := expectNext_bind_ok he
  obtain ⟨body, c₂, h₂, hpure⟩ := Run.bind_eq_ok_iff.1 he
  cases hpure
  obtain ⟨herrors₁, ns, t, htokens₁, hclose, hnames⟩ := parameters_sound h₁
  obtain ⟨bs, htokens₂, hbody⟩ := h.block _ _ _ h₂ (herrors.trans herrors₁.symm) hbrace
  refine ⟨_, ?_, .function hkind hopen hnames hclose hbody⟩
  rw [tokens_eq_cons hkind (by decide), advance_tokens_eq_cons hopen (by decide), htokens₁,
    htokens₂]
  simp only [List.cons_append, List.append_assoc]

theorem SoundAt.operand_succ {c c' : Cursor} {e : Expr}
    (he : Parse.operand (n + 1) c = some (.ok e, c')) (herrors : c'.errors = c.errors) :
    ∃ ts k, c.tokens = ts ++ c'.advance.tokens ∧ e.Printing k ts ∧ Expr.prefixLevel ≤ k ∧
      (c'.upcoming.rank ≤ k ∨ Expr.tightLevel ≤ k) := by
  have htight : Expr.prefixLevel ≤ Expr.tightLevel := by decide
  have hatom : ∀ {kind : TokenKind}, c.current.kind = kind → kind ≠ .eof →
      c.tokens = [c.current] ++ c.advance.tokens := fun hkind hne => tokens_eq_cons hkind hne
  rw [Parse.operand, Grammar.operand, current_bind] at he
  generalize hkind : c.current.kind = kind at he
  split at he
  · cases he
    exact ⟨_, Expr.tightLevel, hatom hkind (by decide), .name hkind, htight, .inr (Nat.le_refl _)⟩
  · cases hn : integerOfDigits? c.current.literal with
    | none =>
        rw [hn] at he
        cases he
    | some value =>
        rw [hn] at he
        cases he
        exact ⟨_, Expr.tightLevel, hatom hkind (by decide), .integer hkind hn, htight,
          .inr (Nat.le_refl _)⟩
  · cases he
    exact ⟨_, Expr.tightLevel, hatom hkind (by decide), .string hkind, htight, .inr (Nat.le_refl _)⟩
  · cases he
    exact ⟨_, Expr.tightLevel, hatom hkind (by decide), .yes hkind, htight, .inr (Nat.le_refl _)⟩
  · cases he
    exact ⟨_, Expr.tightLevel, hatom hkind (by decide), .no hkind, htight, .inr (Nat.le_refl _)⟩
  · rw [advance_bind] at he
    obtain ⟨operand, c₁, h₁, hpure⟩ := Run.bind_eq_ok_iff.1 he
    cases hpure
    have hop : PrefixOp.ofKind? c.current.kind = some .not := by rw [hkind]; rfl
    exact h.prefixed hop h₁ herrors
  · rw [advance_bind] at he
    obtain ⟨operand, c₁, h₁, hpure⟩ := Run.bind_eq_ok_iff.1 he
    cases hpure
    have hop : PrefixOp.ofKind? c.current.kind = some .negate := by rw [hkind]; rfl
    exact h.prefixed hop h₁ herrors
  · rw [advance_bind] at he
    obtain ⟨inner, c₁, h₁, he⟩ := Run.bind_eq_ok_iff.1 he
    obtain ⟨hclose, hpure⟩ := expectNext_bind_ok he
    cases hpure
    obtain ⟨ts, htokens, hinner, -⟩ := h.whole h₁ herrors
    refine ⟨c.current :: (ts ++ [c₁.upcoming]), Expr.tightLevel, ?_,
      .parenthesized hkind hinner hclose, htight, .inr (Nat.le_refl _)⟩
    rw [tokens_eq_cons hkind (by decide), htokens, advance_tokens_eq_cons hclose (by decide)]
    simp only [List.cons_append, List.append_assoc, List.nil_append]
  · obtain ⟨ts, htokens, hconditional⟩ := h.conditional hkind he herrors
    exact ⟨ts, _, htokens, hconditional, htight, .inr (Nat.le_refl _)⟩
  · obtain ⟨ts, htokens, hfunction⟩ := h.function hkind he herrors
    exact ⟨ts, _, htokens, hfunction, htight, .inr (Nat.le_refl _)⟩
  · obtain ⟨elements, c₁, h₁, hpure⟩ := Run.bind_eq_ok_iff.1 he
    cases hpure
    obtain ⟨ts, t, htokens, hclose, helements⟩ := h.expressions _ _ _ _ h₁ herrors (by decide)
    refine ⟨c.current :: (ts ++ [t]), Expr.tightLevel, ?_, .array hkind helements hclose, htight,
      .inr (Nat.le_refl _)⟩
    rw [tokens_eq_cons hkind (by decide), htokens]
    simp only [List.cons_append, List.append_assoc, List.nil_append]
  · obtain ⟨entries, c₁, h₁, hpure⟩ := Run.bind_eq_ok_iff.1 he
    cases hpure
    obtain ⟨ts, t, htokens, hclose, hentries⟩ := h.pairs _ _ _ h₁ herrors
    refine ⟨c.current :: (ts ++ [t]), Expr.tightLevel, ?_, .hash hkind hentries hclose, htight,
      .inr (Nat.le_refl _)⟩
    rw [tokens_eq_cons hkind (by decide), htokens]
    simp only [List.cons_append, List.append_assoc, List.nil_append]
  · cases he

theorem SoundAt.succ : SoundAt (n + 1) where
  expression _ _ _ _ := h.expression_succ
  operators _ _ _ _ _ _ _ := h.operators_succ
  extend _ _ _ _ _ _ := h.extend_succ
  operand _ _ _ := h.operand_succ
  expressions _ _ _ _ := h.expressions_succ
  moreExpressions _ _ _ := h.moreExpressions_succ
  pairs _ _ _ := h.pairs_succ
  block _ _ _ := h.block_succ
  blockStatements _ _ _ := h.blockStatements_succ
  statement _ _ _ := h.statement_succ

end Step

theorem soundAt (n : Nat) : SoundAt n := by
  induction n with
  | zero => exact soundAt_zero
  | succ n ih => exact ih.succ

theorem programStatements_sound {n : Nat} {c c' : Cursor} {ss : List Stmt}
    (hss : programStatements n c = some (.ok ss, c')) (herrors : c'.errors = c.errors) :
    ∃ ts, c.tokens = ts ++ c'.tokens ∧ Stmt.Sequence ss ts := by
  induction n generalizing c ss with
  | zero => cases hss
  | succ n ih =>
      by_cases hstop : c.current.kind = .eof
      · rw [programStatements_eof n hstop] at hss
        cases hss
        exact ⟨[], rfl, .nil⟩
      · obtain hm | ⟨s, c₁, hm⟩ | ⟨e, c₁, hm⟩ := Run.ended (statement n c)
        · rw [programStatements_none hstop hm] at hss
          cases hss
        · rw [programStatements_ok hstop hm] at hss
          obtain ⟨rest, c₂, h₂, hpure⟩ := Run.bind_eq_ok_iff.1 hss
          cases hpure
          obtain ⟨herrors₁, herrors₂⟩ := (onward_statement hstop hm).errors_eq
            ((Onward.advance c₁).trans (onward_programStatements h₂)) herrors
          obtain ⟨ts, hs, hend⟩ := (soundAt n).statement _ _ _ hm herrors₁
          obtain ⟨ms, hrest, hsequence⟩ := ih h₂ herrors₂
          exact sequence_cons hs hend hrest hsequence
        · have honward := onward_statement hstop hm
          have hrecovered := onward_recover c.depthBefore (c₁.record e)
          rw [programStatements_error hstop hm] at hss
          exact absurd herrors (errors_ne_of_record honward
            (hrecovered.trans ((Onward.advance _).trans (onward_programStatements hss))))

end Parse

theorem Program.printing_of_ofTokens {ts : List Token} (heof : ∀ t ∈ ts, t.kind ≠ .eof)
    {p : Program} (h : Program.ofTokens ts = (p, [])) : p.Printing ts := by
  obtain ⟨ss, c', hread, heq, hend⟩ := (Cursor.start ts).readProgram_spec
  rw [ofTokens, heq] at h
  cases Prod.mk.inj h with
  | intro hp herrors =>
      subst hp
      obtain ⟨used, htokens, hsequence⟩ := Parse.programStatements_sound hread herrors
      have hnil : c'.tokens = [] := by
        refine Classical.byContradiction fun hne => heof c'.current ?_ hend
        have hmem := List.mem_append_right used (Cursor.current_mem_tokens hne)
        rwa [← htokens] at hmem
      rw [hnil, List.append_nil] at htokens
      rw [show ts = used from htokens]
      exact hsequence

end Treewalk
