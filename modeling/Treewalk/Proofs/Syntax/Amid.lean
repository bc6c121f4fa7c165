import Treewalk.Proofs.Syntax.Braces

/-!
Reading tokens that stand in front of others. When the first tokens close the braces
they open and end with a semicolon, no rule of the grammar looks beyond that semicolon:
a rule that has come so far stops there, since a block would still have to be closed,
and so does the walk that skips a failed statement. What a rule yields is then the same
whatever follows, and whatever errors were found before.
-/

namespace Treewalk

/-- With `d` braces open before them, the tokens close none but these and their own, and
the last of them is a semicolon outside of all braces. -/
def Token.Closes : Int → List Token → Prop
  | _, [] => False
  | d, [t] => d = 0 ∧ t.kind = .semicolon
  | d, t :: u :: rest => 0 ≤ d ∧ Closes (d + t.kind.braceWeight) (u :: rest)

theorem Token.Closes.ne_nil {d : Int} {ts : List Token} (h : Token.Closes d ts) : ts ≠ [] := by
  rintro rfl
  exact h

namespace Cursor

open Token (Closes)

/-- The same place with other errors found before and other tokens behind. -/
def amid (es : List SyntaxError) (us : List Token) (c : Cursor) : Cursor :=
  ⟨c.tokens ++ us, c.depth, es ++ c.errors⟩

/-- What is read from here does not depend on the tokens behind. -/
def Safe (us : List Token) (c : Cursor) : Prop :=
  us = [] ∨ Closes c.depthBefore c.tokens

/-- The next token is not one of those behind. -/
def Inside (us : List Token) (c : Cursor) : Prop :=
  us = [] ∨ Closes c.depthBefore c.tokens ∧ c.advance.tokens ≠ []

variable {es : List SyntaxError} {us : List Token} {c : Cursor}

theorem Inside.safe (h : Inside us c) : Safe us c :=
  h.imp_right And.left

theorem closes_advance (h : Closes c.depthBefore c.tokens) (hnext : c.advance.tokens ≠ []) :
    Closes c.depth c.advance.tokens := by
  obtain ⟨tokens, depth, errors⟩ := c
  obtain _ | ⟨t, _ | ⟨u, rest⟩⟩ := tokens
  · exact h.elim
  · exact absurd rfl hnext
  · have hclosed := h.2
    rwa [depthBefore, current_cons, Int.sub_add_cancel] at hclosed

theorem depthBefore_nonneg (h : Closes c.depthBefore c.tokens) : 0 ≤ c.depthBefore := by
  generalize c.depthBefore = d at h
  obtain ⟨tokens, depth, errors⟩ := c
  obtain _ | ⟨t, _ | ⟨u, rest⟩⟩ := tokens
  · exact h.elim
  · exact Int.le_of_eq h.1.symm
  · exact h.1

theorem Safe.advance (h : Inside us c) : Safe us c.advance := by
  refine h.imp_right fun hinside => ?_
  rw [depthBefore_advance]
  exact closes_advance hinside.1 hinside.2

/-- The last token of all is a semicolon outside of all braces. -/
theorem closes_last (h : Closes c.depthBefore c.tokens) (hnext : c.advance.tokens = []) :
    c.depth = 0 ∧ c.current.kind = .semicolon := by
  obtain ⟨tokens, depth, errors⟩ := c
  obtain _ | ⟨t, _ | ⟨u, rest⟩⟩ := tokens
  · exact h.elim
  · obtain ⟨hdepth, hkind⟩ := h
    rw [depthBefore_of_kind (c := ⟨[t], depth, errors⟩) hkind rfl] at hdepth
    exact ⟨hdepth, hkind⟩
  · cases hnext

theorem Safe.inside_or (h : Safe us c) :
    Inside us c ∨ c.depth = 0 ∧ c.current.kind = .semicolon ∧ c.advance.tokens = [] := by
  obtain rfl | hclosed := h
  · exact .inl (.inl rfl)
  · by_cases hnext : c.advance.tokens = []
    · right
      obtain ⟨hdepth, hkind⟩ := closes_last hclosed hnext
      exact ⟨hdepth, hkind, hnext⟩
    · exact .inl (.inr ⟨hclosed, hnext⟩)

theorem depth_nonneg (h : Closes c.depthBefore c.tokens) : 0 ≤ c.depth := by
  by_cases hnext : c.advance.tokens = []
  · have hsafe : Safe [.eof] c := .inr h
    obtain hinside | ⟨hdepth, -⟩ := hsafe.inside_or
    · exact absurd hnext (hinside.resolve_left (List.cons_ne_nil _ _)).2
    · exact Int.le_of_eq hdepth.symm
  · have hclosed := closes_advance h hnext
    rw [← depthBefore_advance] at hclosed
    have hnonneg := depthBefore_nonneg hclosed
    rwa [depthBefore_advance] at hnonneg

theorem advance_amid_of_last (h : Closes c.depthBefore c.tokens)
    (hnext : c.advance.tokens = []) :
    (c.amid es us).advance = ⟨us, (us.headD .eof).kind.braceWeight, es ++ c.errors⟩ := by
  obtain ⟨hdepth, -⟩ := closes_last h hnext
  obtain ⟨tokens, depth, errors⟩ := c
  obtain _ | ⟨t, _ | ⟨u, rest⟩⟩ := tokens
  · exact h.elim
  · rw [show depth = 0 from hdepth]
    show Cursor.mk us (0 + _) _ = _
    rw [Int.zero_add]
    rfl
  · cases hnext

theorem Safe.inside_of_kind (h : Safe us c) {kind : TokenKind} (hkind : c.current.kind = kind)
    (hne : kind ≠ .semicolon) : Inside us c := by
  obtain h | ⟨-, hsemicolon, -⟩ := h.inside_or
  · exact h
  · exact absurd (hkind.symm.trans hsemicolon) hne

theorem Safe.inside_of_depth (h : Safe us c) (hdepth : 0 < c.depth) : Inside us c := by
  obtain h | ⟨hzero, -⟩ := h.inside_or
  · exact h
  · omega

theorem Safe.current_amid (h : Safe us c) (es : List SyntaxError) :
    (c.amid es us).current = c.current := by
  rw [Cursor.current, amid]
  obtain rfl | hclosed := h
  · rw [List.append_nil]
    rfl
  · obtain ⟨tokens, depth, errors⟩ := c
    obtain ⟨t, rest, rfl⟩ := List.exists_cons_of_ne_nil hclosed.ne_nil
    rfl

theorem Safe.depthBefore_amid (h : Safe us c) (es : List SyntaxError) :
    (c.amid es us).depthBefore = c.depthBefore := by
  rw [depthBefore, h.current_amid es]
  rfl

theorem Inside.upcoming_amid (h : Inside us c) (es : List SyntaxError) :
    (c.amid es us).upcoming = c.upcoming := by
  rw [upcoming, amid]
  obtain rfl | ⟨-, hnext⟩ := h
  · rw [List.append_nil]
    rfl
  · obtain ⟨tokens, depth, errors⟩ := c
    obtain _ | ⟨t, _ | ⟨u, rest⟩⟩ := tokens
    · exact absurd rfl hnext
    · exact absurd rfl hnext
    · rfl

theorem Inside.advance_amid (h : Inside us c) (es : List SyntaxError) :
    (c.amid es us).advance = c.advance.amid es us := by
  have hupcoming := h.upcoming_amid es
  rw [Cursor.advance, hupcoming]
  obtain rfl | ⟨-, hnext⟩ := h
  · rw [amid, amid, List.append_nil, List.append_nil]
    rfl
  · obtain ⟨tokens, depth, errors⟩ := c
    obtain _ | ⟨t, _ | ⟨u, rest⟩⟩ := tokens
    · exact absurd rfl hnext
    · exact absurd rfl hnext
    · rfl

theorem record_amid (e : SyntaxError) (c : Cursor) :
    (c.amid es us).record e = (c.record e).amid es us := by
  rw [record, record, amid, amid, List.append_assoc]

theorem skipStatement_append (us : List Token) {base depth : Int} {tokens : List Token}
    (hbase : 0 ≤ base) (h : Closes (depth - (tokens.headD .eof).kind.braceWeight) tokens) :
    ∃ closed d ts, skipStatement base depth tokens = (closed, d, ts) ∧
      skipStatement base depth (tokens ++ us) = (closed, d, ts ++ us) ∧
      Closes (d - (ts.headD .eof).kind.braceWeight) ts := by
  fun_induction skipStatement base depth tokens with
  | case1 depth => exact h.elim
  | case2 depth t =>
      refine ⟨_, _, _, rfl, ?_, h⟩
      obtain ⟨hdepth, hkind⟩ := h
      have hzero : depth = 0 := by
        rw [List.headD_cons, hkind] at hdepth
        exact (Int.sub_zero depth).symm.trans hdepth
      cases us with
      | nil => rfl
      | cons u rest =>
          rw [List.cons_append, List.nil_append, skipStatement]
          by_cases hlt : depth < base
          · rw [if_pos hlt, decide_eq_true hlt]
          · rw [if_neg hlt, if_pos ⟨by omega, .inl hkind⟩, decide_eq_false hlt]
  | case3 depth t u rest hlt =>
      refine ⟨_, _, _, rfl, ?_, h⟩
      rw [List.cons_append, List.cons_append, skipStatement, if_pos hlt]
  | case4 depth t u rest hlt hstop =>
      refine ⟨_, _, _, rfl, ?_, h⟩
      rw [List.cons_append, List.cons_append, skipStatement, if_neg hlt, if_pos hstop]
  | case5 depth t u rest hlt hstop ih =>
      have hclosed := h.2
      rw [List.headD_cons, Int.sub_add_cancel] at hclosed
      obtain ⟨closed, d, ts, heq, hamid, hts⟩ := ih (by
        rwa [List.headD_cons, Int.add_sub_cancel])
      refine ⟨closed, d, ts, heq, ?_, hts⟩
      rw [List.cons_append, List.cons_append, skipStatement, if_neg hlt, if_neg hstop]
      exact hamid

theorem recover_amid (es : List SyntaxError) {base : Int} (hbase : us = [] ∨ 0 ≤ base)
    (h : Safe us c) :
    (c.amid es us).recover base = ((c.recover base).1, (c.recover base).2.amid es us) ∧
      Safe us (c.recover base).2 := by
  rw [recover, recover, amid]
  obtain rfl | hclosed := h
  · rw [List.append_nil]
    refine ⟨?_, .inl rfl⟩
    dsimp only
    rw [amid, List.append_nil]
  · obtain rfl | hbase := hbase
    · rw [List.append_nil]
      refine ⟨?_, .inl rfl⟩
      dsimp only
      rw [amid, List.append_nil]
    · obtain ⟨closed, d, ts, heq, hamid, hts⟩ := skipStatement_append us hbase hclosed
      rw [heq]
      dsimp only
      rw [hamid]
      exact ⟨rfl, .inr hts⟩

theorem closes_of_recover {base : Int} (hbase : base = 0) (h : Closes c.depthBefore c.tokens) :
    Closes (c.recover base).2.depthBefore (c.recover base).2.tokens := by
  have hlast : Safe [.eof] c := .inr h
  have hsafe := (recover_amid [] (.inr (Int.le_of_eq hbase.symm)) hlast).2
  exact hsafe.resolve_left (List.cons_ne_nil _ _)

end Cursor

namespace Grammar

open Cursor

/-- Errors found before, and tokens behind. -/
def amidst (es : List SyntaxError) (us : List Token) : Likeness Parse where
  Near c d := d = c.amid es us ∧ Safe us c
  Sure c d := d = c.amid es us ∧ Inside us c
  Within c d := d = c.amid es us ∧ Safe us c ∧ (us = [] ∨ 0 < c.depthBefore)
  near_of_sure h := ⟨h.1, h.2.safe⟩
  near_of_within h := ⟨h.1, h.2.1⟩
  current_eq h := h.1 ▸ h.2.current_amid es
  upcoming_eq h := h.1 ▸ h.2.upcoming_amid es
  advance h := ⟨h.1 ▸ h.2.advance_amid es, .advance h.2⟩
  sure_of_kind h hkind := ⟨h.1, h.2.inside_of_kind rfl hkind⟩
  enter := by
    rintro c d ⟨rfl, hc⟩ hbrace
    refine ⟨hc.advance_amid es, .advance hc, hc.safe.imp_right fun hclosed => ?_⟩
    have hnonneg := depthBefore_nonneg hclosed
    have hdepth := depth_of_lbrace hbrace
    rw [depthBefore_advance]
    omega
  read := by
    rintro c c' d d' n s ⟨rfl, -, hdepth⟩ hbegins hgiven ⟨rfl, hc'⟩
    have hmeets := meets_statement n hbegins
    rw [show Parse.statement n c = _ from hgiven] at hmeets
    have hinside : Inside us c' := by
      obtain hus | hdepth := hdepth
      · exact .inl hus
      · exact hc'.inside_of_depth (by rwa [hmeets.depth_eq])
    refine ⟨⟨rfl, hinside⟩, hinside.advance_amid es, .advance hinside, ?_⟩
    rwa [depthBefore_advance, hmeets.depth_eq]
  skipped := by
    rintro c c' d d' after n e closed ⟨rfl, hc, hdepth⟩ hbegins hgiven ⟨rfl, hc'⟩ hrecover
    have habove := meets_statement n hbegins
    rw [show Parse.statement n c = _ from hgiven] at habove
    have hat := (Above.trans habove (.record _ e c')).le_depthBefore (Int.le_refl _)
    obtain ⟨hamid, hafter⟩ := recover_amid es (c := c'.record e) (hdepth.imp_right Int.le_of_lt) hc'
    rw [hrecover] at hamid hafter
    have hrecovered : ((c'.amid es us).record e).recover (c.amid es us).depthBefore =
        (closed, after.amid es us) := by
      rwa [hc.depthBefore_amid, record_amid]
    refine ⟨_, hrecovered, ?_⟩
    obtain ⟨hlt, heq⟩ | ⟨c₂, heq, -, hle, -⟩ := above_recover c.depthBefore (c'.record e)
    · rw [heq] at hrecover
      cases hrecover
      have hkind := (closes_of_depth_lt hat hlt).2
      exact ⟨⟨rfl, hafter.inside_of_kind hkind (by decide)⟩, fun h => nomatch h⟩
    · rw [heq] at hrecover
      cases hrecover
      have hpositive := hdepth.imp_right fun hpos => Int.lt_of_lt_of_le hpos hle
      have hinside : Inside us after := hpositive.elim .inl fun hpos => hafter.inside_of_depth hpos
      refine ⟨⟨rfl, hinside⟩, fun _ => ⟨hinside.advance_amid es, .advance hinside, ?_⟩⟩
      rwa [depthBefore_advance]

end Grammar

namespace Parse

open Cursor
open Grammar (Alike amidst)

variable {n : Nat} {es : List SyntaxError} {us : List Token} {c c' : Cursor}

/-- What a statement yields in front of other tokens, and with other errors before it. -/
theorem statement_amid (es : List SyntaxError) (hc : Safe us c) {r : Except SyntaxError Stmt}
    (h : statement n c = some (r, c')) :
    statement n (c.amid es us) = some (r, c'.amid es us) ∧ Safe us c' := by
  have halike : Alike (amidst es us) _ (statement n) c (statement n) (c.amid es us) :=
    (Grammar.alikeAt _ Parse (Nat.le_refl n)).statement ⟨rfl, hc⟩
  obtain ⟨_, hread, ⟨rfl, hsafe⟩, -⟩ := halike r c' h
  exact ⟨hread, hsafe⟩

/-- Nothing changes if there are more errors but no more tokens. -/
theorem programStatements_amid (es : List SyntaxError) {r : Except SyntaxError (List Stmt)}
    (h : programStatements n c = some (r, c')) :
    programStatements n (c.amid es []) = some (r, c'.amid es []) := by
  have halike : Alike (amidst es []) (fun _ _ => True) (programStatements n) c
      (programStatements n) (c.amid es []) :=
    Grammar.alike_programStatements (L := amidst es [])
      (fun hnear => ⟨hnear.1, hnear.2, .inl rfl⟩) (Nat.le_refl n) ⟨rfl, .inl rfl⟩
  obtain ⟨_, hread, ⟨rfl, -⟩, -⟩ := halike r c' h
  exact hread

end Parse
end Treewalk
