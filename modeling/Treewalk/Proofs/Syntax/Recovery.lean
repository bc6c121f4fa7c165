import Treewalk.Proofs.Syntax.Braces

/-!
What lies around the statements of a list, and how one that fails is skipped. A statement
begins level with its list: what stands before it in the list closes the braces that it
opens. So the brace that closes the block around it is the first one that takes the count
below where the statement began. A statement that fails on this brace is found out by the
count alone; any other is skipped to where the next one may begin, and this side of it.
-/

namespace Treewalk

open Run (Meets)
open Token (braceBalance braceBalance_append braceBalance_singleton Balanced NoneOpen)

namespace Cursor

variable {c₀ c c' : Cursor} {w : Option Cursor}

/-! Lists of statements and what closes them. -/

/-- Where a list of statements starts: the list at the top on the cursor that reading
starts from, that of a block behind the brace that opens it. -/
def listStart (c₀ : Cursor) : Option Cursor → Cursor
  | none => c₀
  | some b => b.advance

/-- Tokens between the start of a list and a place that is level with it. In a block they
close the braces that they open and no other; at the top there may be more that close. -/
def Between : Option Cursor → List Token → Prop
  | none => NoneOpen
  | some _ => Balanced

/-- These tokens, of those that a list of statements is read from, start with the brace that
closes the block, or, if the list is at the top, with a brace that nothing has opened. -/
structure ClosesAround (c₀ : Cursor) (w : Option Cursor) (close : List Token) : Prop where
  kind : (close.headD .eof).kind = .rbrace
  between : ∃ passed, (listStart c₀ w).tokens = passed ++ close ∧ Between w passed

/-- The cursor is as deep inside braces as the list that it has come through. -/
def Level (c₀ : Cursor) (w : Option Cursor) (c : Cursor) : Prop :=
  ∃ passed, Passes (listStart c₀ w) c passed ∧ Between w passed

namespace Between

variable {xs ys : List Token}

theorem of_balanced (w : Option Cursor) (h : Balanced xs) : Between w xs := by
  cases w with
  | none => exact h.noneOpen
  | some b => exact h

theorem append (h : Between w xs) (h' : Between w ys) : Between w (xs ++ ys) := by
  cases w with
  | none => exact NoneOpen.append h h'
  | some b => exact Balanced.append h h'

theorem braceBalance_le (h : Between w (xs ++ ys)) (h' : Between w xs) : braceBalance ys ≤ 0 := by
  cases w with
  | none => exact h ys (List.suffix_append xs ys)
  | some b =>
      have htotal := Balanced.total h
      rw [braceBalance_append, Balanced.total h', Int.zero_add] at htotal
      exact Int.le_of_eq htotal

end Between

theorem Above.balanced (h : Above c.depthBefore c c') (heq : c'.depthBefore = c.depthBefore) :
    ∃ passed, Passes c c' passed ∧ Balanced passed := by
  obtain ⟨passed, hpasses, hfloor⟩ := h.passes
  have hdepth := hpasses.depth
  refine ⟨passed, hpasses, fun p hp => ?_, by omega⟩
  by_cases hnil : p = []
  · rw [hnil]
    exact Int.le_refl 0
  · have := hfloor p hp hnil
    omega

namespace Level

theorem step (hc : Level c₀ w c) (h : Above c.depthBefore c c')
    (heq : c'.depthBefore = c.depthBefore) : Level c₀ w c' := by
  obtain ⟨before, hbefore, hbetween⟩ := hc
  obtain ⟨passed, hpasses, hbalanced⟩ := h.balanced heq
  exact ⟨_, hbefore.trans hpasses, hbetween.append (.of_balanced w hbalanced)⟩

theorem advance (hc : Level c₀ w c) (h : Above c.depthBefore c c')
    (heq : c'.depth = c.depthBefore) : Level c₀ w c'.advance :=
  hc.step (h.trans (.advance (Int.le_of_eq heq.symm))) ((depthBefore_advance c').trans heq)

/-- At the top a brace that closes nothing is passed like any other token. -/
theorem advance_rbrace (hc : Level c₀ none c) (hkind : c.current.kind = .rbrace) :
    Level c₀ none c.advance := by
  obtain ⟨before, hbefore, hbetween⟩ := hc
  have hclose : NoneOpen [c.current] := by
    intro s hs
    obtain rfl | hs := List.suffix_cons_iff.1 hs
    · rw [braceBalance_singleton, hkind]
      decide
    · exact Token.noneOpen_nil s hs
  obtain hpasses | hpasses := Passes.advance c
  · exact ⟨_, hbefore.trans hpasses, hbetween.append Token.noneOpen_nil⟩
  · exact ⟨_, hbefore.trans hpasses, hbetween.append hclose⟩

theorem closesAround (hc : Level c₀ w c) (hkind : c.current.kind = .rbrace) :
    ClosesAround c₀ w c.tokens := by
  obtain ⟨passed, hpasses, hbetween⟩ := hc
  exact ⟨hkind, passed, hpasses.tokens, hbetween⟩

/-- Up to the brace that closes what lies around, no more braces are opened than closed. -/
theorem braceBalance_le (hc : Level c₀ w c) {passed close : List Token}
    (htokens : c.tokens = passed ++ close) (hclose : ClosesAround c₀ w close) :
    braceBalance passed ≤ 0 := by
  obtain ⟨before, hbefore, hbetween⟩ := hc
  obtain ⟨around, haround, hbetween'⟩ := hclose.between
  rw [hbefore.tokens, htokens, ← List.append_assoc] at haround
  obtain rfl := List.append_cancel_right haround
  exact hbetween'.braceBalance_le hbetween

/-- On the brace that closes what lies around, fewer braces are open than where a statement
began. -/
theorem depth_lt (hc : Level c₀ w c) (h : Counts c c') (hclose : ClosesAround c₀ w c'.tokens) :
    c'.depth < c.depthBefore := by
  obtain ⟨passed, hpasses⟩ := h
  have hle := hc.braceBalance_le hpasses.tokens hclose
  have hbefore := hpasses.depth
  have hdepth := depth_of_rbrace (c := c') hclose.kind
  omega

/-- Who stays inside as many braces does not pass the one that closes what lies around. -/
theorem close_suffix (hc : Level c₀ w c) (h : Above c.depthBefore c c') {close : List Token}
    (hclose : ClosesAround c₀ w close) (hahead : close <:+ c.tokens) : close <:+ c'.tokens := by
  obtain ⟨passed, hpasses, hfloor⟩ := h.passes
  obtain ⟨before, hbefore⟩ := hahead
  obtain hle | ⟨between, hbetween⟩ :=
    List.suffix_or_suffix_of_suffix (hbefore ▸ List.suffix_append before close)
      (hpasses.tokens ▸ List.suffix_append passed c'.tokens)
  · exact hle
  obtain _ | ⟨t, between⟩ := between
  · exact hbetween ▸ List.suffix_rfl
  exfalso
  have hkind : t.kind = .rbrace := by
    have := hclose.kind
    rwa [← hbetween] at this
  have hprefix : before ++ [t] <+: passed := by
    have htokens : (before ++ [t]) ++ between ++ c'.tokens = passed ++ c'.tokens := by
      rw [← hpasses.tokens, ← hbefore, ← hbetween]
      simp only [List.append_assoc, List.cons_append, List.nil_append]
    exact ⟨between, List.append_cancel_right htokens⟩
  have hfloor := hfloor _ hprefix (List.append_ne_nil_of_right_ne_nil _ (List.cons_ne_nil t []))
  have hle := hc.braceBalance_le hbefore.symm hclose
  rw [braceBalance_append, braceBalance_singleton, hkind] at hfloor
  have : TokenKind.braceWeight .rbrace = -1 := rfl
  omega

end Level

/-- Wherever a list of statements comes to, it is level with its start or at the end. -/
theorem Listed.level (h : Listed c₀ w c) : Level c₀ w c ∨ c.current.kind = .eof := by
  induction h with
  | top => exact .inl ⟨[], .refl c₀, Token.noneOpen_nil⟩
  | @block b _ _ => exact .inl ⟨[], .refl b.advance, Token.balanced_nil⟩
  | @read w c c' n s _ begins given ih =>
      have hc := ih.resolve_right begins.ne_eof
      have hmeets := meets_statement n begins.ne_eof
      rw [given] at hmeets
      exact .inl (hc.advance hmeets.above hmeets.depth_eq)
  | @skipped w c c' after n e closed _ begins given recovered open_ ih =>
      have hc := ih.resolve_right begins.ne_eof
      have hmeets := meets_statement n begins.ne_eof
      rw [given] at hmeets
      have hfailed := Above.trans hmeets (.record _ e c')
      obtain ⟨hlt, heq⟩ | ⟨c₂, heq, habove, -, hend⟩ := above_recover c.depthBefore (c'.record e)
      · rw [heq] at recovered
        cases recovered
        have htop : w = none := by_contra fun hne => Bool.noConfusion (open_ hne)
        subst htop
        obtain ⟨hbefore, hkind⟩ :=
          closes_of_depth_lt (hfailed.le_depthBefore (Int.le_refl _)) hlt
        exact .inl ((hc.step hfailed hbefore).advance_rbrace hkind)
      · rw [heq] at recovered
        cases recovered
        refine hend.imp (hc.advance (hfailed.trans habove)) fun hnil => ?_
        rw [Cursor.current, hnil]
        rfl

/-! How a failed statement is skipped. -/

/-- The walk from a cursor has met no semicolon inside `base` braces, for so many tokens. -/
def NoSemicolon (base : Int) (c : Cursor) (k : Nat) : Prop :=
  ∀ j, j < k → ¬((advance^[j] c).depth = base ∧ (advance^[j] c).current.kind = .semicolon)

/-- The ways of skipping a failed statement that began with `base` braces open, from where
it has failed: nothing is skipped, since this is the brace that closes what lies around; or
the walk ends on the first semicolon inside as many braces; or, before any, right in front of
the brace that closes what lies around; or right in front of the end. -/
inductive Skips (c₀ : Cursor) (w : Option Cursor) (base : Int) (c : Cursor) :
    Bool → Cursor → Prop where
  | around (depth : c.depth = base - 1) (closes : ClosesAround c₀ w c.tokens) :
      Skips c₀ w base c true c
  | semicolon (k : Nat) (first : NoSemicolon base c k) (depth : (advance^[k] c).depth = base)
      (kind : (advance^[k] c).current.kind = .semicolon) :
      Skips c₀ w base c false (advance^[k] c)
  | before (k : Nat) (first : NoSemicolon base c k) (depth : (advance^[k] c).depth = base)
      (closes : ClosesAround c₀ w (advance^[k] c).advance.tokens) :
      Skips c₀ w base c false (advance^[k] c)
  | ending (k : Nat) (first : NoSemicolon base c k)
      (next : (advance^[k] c).upcoming.kind = .eof) :
      Skips c₀ w base c false (advance^[k] c)

/-- A failed statement that began with `base` braces open is skipped. The answer tells
whether it has failed on the brace that closes what lies around; if that brace is still
ahead, it is so afterwards. -/
structure Recovers (c₀ : Cursor) (w : Option Cursor) (base : Int) (c : Cursor) : Prop where
  skips : Skips c₀ w base c (c.recover base).1 (c.recover base).2
  closed_iff : (c.recover base).1 = true ↔ ClosesAround c₀ w c.tokens
  ahead : ∀ close, ClosesAround c₀ w close → close <:+ c.advance.tokens →
    close <:+ (c.recover base).2.advance.tokens

/-- What becomes of a statement that began on the cursor. -/
def Settles (c₀ : Cursor) (w : Option Cursor) (c : Cursor) :
    Except SyntaxError Stmt → Cursor → Prop
  | .ok _, c' => c'.depth = c.depthBefore
  | .error e, c' =>
      c.depthBefore - 1 ≤ c'.depth ∧
      (c'.depth = c.depthBefore - 1 → c'.current.kind = .rbrace) ∧
      Recovers c₀ w c.depthBefore (c'.record e)

theorem Level.recovers (hc : Level c₀ w c) (h : Above c.depthBefore c c') :
    Recovers c₀ w c.depthBefore c' := by
  by_cases hlt : c'.depth < c.depthBefore
  · obtain ⟨hbefore, hkind⟩ := closes_of_depth_lt (h.le_depthBefore (Int.le_refl _)) hlt
    have hcloses := (hc.step h hbefore).closesAround hkind
    have hdepth := depth_of_rbrace hkind
    have heq := recover_closed hlt
    refine ⟨?_, ?_, fun close _ hahead => ?_⟩ <;> rw [heq]
    · exact .around (by omega) hcloses
    · exact iff_of_true rfl hcloses
    · exact hahead
  · obtain ⟨k, heq, habove, hfirst, hend⟩ := recover_walks (Int.not_lt.1 hlt)
    have hwalk := h.trans (above_iterate habove)
    have hnext := hwalk.trans (.advance (habove k (Nat.le_refl k)))
    refine ⟨?_, ?_, fun close hclose hahead => ?_⟩ <;> rw [heq]
    · have hnone : NoSemicolon c.depthBefore c' k := fun j hj hstop =>
        hfirst j hj ⟨hstop.1, .inl hstop.2⟩
      obtain ⟨hdepth, hkind | hkind⟩ | hnil := hend
      · exact .semicolon k hnone hdepth hkind
      · exact .before k hnone hdepth ((hc.advance hwalk hdepth).closesAround hkind)
      · refine .ending k hnone ?_
        rw [← current_advance, Cursor.current, hnil]
        rfl
    · exact iff_of_false Bool.false_ne_true fun hclose => hlt (hc.depth_lt h.counts hclose)
    · obtain ⟨passed, hpasses⟩ := h.counts
      refine hc.close_suffix hnext hclose ((hahead.trans (List.tail_suffix _)).trans ?_)
      exact hpasses.tokens ▸ List.suffix_append passed c'.tokens

theorem Listed.settles (h : Listed c₀ w c) (hc : c.current.kind ≠ .eof) {n : Nat}
    {r : Except SyntaxError Stmt} (hgiven : Parse.statement n c = some (r, c')) :
    Settles c₀ w c r c' := by
  have hlevel := h.level.resolve_right hc
  have hmeets := meets_statement n hc
  rw [hgiven] at hmeets
  cases r with
  | ok s => exact hmeets.depth_eq
  | error e =>
      have habove : Above c.depthBefore c c' := hmeets
      have hle := habove.le_depthBefore (Int.le_refl _)
      refine ⟨?_, fun hdepth => ?_, hlevel.recovers (habove.trans (.record _ e c'))⟩
      · by_contra hlt
        obtain ⟨hbefore, hkind⟩ := closes_of_depth_lt hle (by omega)
        have := depth_of_rbrace hkind
        omega
      · exact (closes_of_depth_lt hle (by omega)).2

/-! The statements that are begun while tokens are read. -/

theorem Listed.counts (h : Listed c₀ w c) : Counts c₀ c := by
  induction h with
  | top => exact .refl c₀
  | @block b counted _ => exact counted.trans (.advance b)
  | @read w c c' n s _ begins given ih =>
      have hmeets := meets_statement n begins.ne_eof
      rw [given] at hmeets
      exact ih.trans (hmeets.above.counts.trans (.advance c'))
  | @skipped w c c' after n e closed _ begins given recovered _ ih =>
      have hmeets := meets_statement n begins.ne_eof
      rw [given] at hmeets
      have hfailed := Above.trans hmeets (.record _ e c')
      have hrecover := counts_recover c.depthBefore (c'.record e)
      rw [recovered] at hrecover
      exact ih.trans (hfailed.counts.trans (hrecover.trans (.advance after)))

/-- Where a reader of these tokens stands: at the start, or after more has been read, an
expression or all statements to the end. -/
inductive Reading (tokens : List Token) : Cursor → Prop where
  | start : Reading tokens (.start tokens)
  | expression {c : Cursor} (before : Reading tokens c) (p : Precedence) :
      Reading tokens (c.readExpression p).2
  | program {c : Cursor} (before : Reading tokens c) : Reading tokens c.readProgram.2

/-- A statement is begun on the second cursor, at the top or in some block, when an
expression or statements are read from the first. -/
def Begun (c₀ c : Cursor) : Prop :=
  ∃ n, c ∈ (Noting.programStatements n c₀).1 ∨ ∃ p, c ∈ (Noting.expression n p c₀).1

/-- Of these tokens, those before the cursor have been counted. -/
def Accounted (tokens : List Token) (c : Cursor) : Prop :=
  ∃ passed, tokens = passed ++ c.tokens ∧ c.depthBefore = braceBalance passed

theorem counts_readExpression (p : Precedence) (c : Cursor) : Counts c (c.readExpression p).2 := by
  have hmeets := ((Grammar.placesAt Parse c c.allowance).expression p c rfl (.refl c)).2
  rw [readExpression]
  obtain h | ⟨e, c', h⟩ | ⟨e, c', h⟩ := Run.ended (Parse.expression c.allowance p c)
  · rw [h]
    exact .refl c
  · rw [show Observed.run (Parse.expression c.allowance p) c = _ from h] at hmeets
    rw [h]
    exact hmeets.above.counts
  · rw [show Observed.run (Parse.expression c.allowance p) c = _ from h] at hmeets
    rw [h]
    exact Above.counts hmeets

theorem counts_readProgram (c : Cursor) : Counts c c.readProgram.2 := by
  have hmeets := meets_programStatements c.allowance c
  obtain ⟨ss, c', hread, heq, -⟩ := c.readProgram_spec
  rw [hread] at hmeets
  rw [heq]
  exact hmeets.1

theorem Reading.counts {tokens : List Token} (h : Reading tokens c) :
    Counts (.start tokens) c := by
  induction h with
  | start => exact .refl _
  | expression _ p ih => exact ih.trans (counts_readExpression p _)
  | program _ ih => exact ih.trans (counts_readProgram _)

theorem accounted_of_counts {tokens : List Token} (h : Counts (start tokens) c) :
    Accounted tokens c := by
  obtain ⟨passed, hpasses⟩ := h
  have hstart : (start tokens).depthBefore = 0 := Int.sub_self _
  exact ⟨passed, hpasses.tokens, by rw [hpasses.depth, hstart, Int.zero_add]⟩

theorem Begun.listed (h : Begun c₀ c) : ∃ w, Listed c₀ w c ∧ Begins w c := by
  obtain ⟨n, h | ⟨p, h⟩⟩ := h
  · exact (Grammar.places_programStatements Noting n .top (.refl c₀)).1 c h
  · exact ((Grammar.placesAt Noting c₀ n).expression p c₀ rfl (.refl c₀)).1 c h

/-- Wherever a reader of a text stands and whatever is read from there: notes of where
statements begin change nothing, and each statement that is begun stands in a list, comes
to an end with all braces counted, and is settled as its list asks for. If it is read, so
many braces are open on its last token as before it; if it fails, at most the brace that
closes what lies around has been met, and it is skipped this side of that brace. -/
theorem braces_accounted {source : String} (h : Reading (Token.scan source) c₀) :
    (∀ n, (Noting.programStatements n c₀).2 = Parse.programStatements n c₀) ∧
    (∀ n p, (Noting.expression n p c₀).2 = Parse.expression n p c₀) ∧
    ∀ c, Begun c₀ c →
      Accounted (Token.scan source) c ∧ (∃ w, Listed c₀ w c ∧ Begins w c) ∧
      ∃ r c', (∀ n, c.allowance ≤ n → Parse.statement n c = some (r, c')) ∧
        Accounted (Token.scan source) c' ∧ ∀ w, Listed c₀ w c → Settles c₀ w c r c' := by
  refine ⟨fun n => congrFun (Grammar.run_programStatements Noting n) c₀,
    fun n p => congrFun (Grammar.run_expression Noting n p) c₀, fun c hbegun => ?_⟩
  obtain ⟨w, hlisted, hbegins⟩ := hbegun.listed
  have hcounts := h.counts.trans hlisted.counts
  obtain ⟨r, c', hgiven⟩ := statement_ends hbegins.ne_eof
  have hstatement := hgiven c.allowance (Nat.le_refl _)
  refine ⟨accounted_of_counts hcounts, ⟨w, hlisted, hbegins⟩, r, c', hgiven, ?_,
    fun _ hlisted' => hlisted'.settles hbegins.ne_eof hstatement⟩
  have hmeets := meets_statement c.allowance hbegins.ne_eof
  rw [hstatement] at hmeets
  cases r with
  | ok s => exact accounted_of_counts (hcounts.trans hmeets.above.counts)
  | error e => exact accounted_of_counts (hcounts.trans (Above.counts hmeets))

/-- Before the brace that closes the body of a function an operand is missing. -/
theorem braces_accounted_missing :
    ∃ c₀ b c c', Reading (Token.scan "fn() \x7b x + \x7d") c₀ ∧ Begun c₀ c ∧
      c.tokens = [⟨.ident, "x"⟩, ⟨.plus, "+"⟩, ⟨.rbrace, "\x7d"⟩] ∧ c.depthBefore = 1 ∧
      Listed c₀ (some b) c ∧
      Parse.statement 32 c = some (.error (.noExpression .rbrace), c') ∧
      Accounted (Token.scan "fn() \x7b x + \x7d") c' ∧ c'.depth = 0 ∧
      Settles c₀ (some b) c (.error (.noExpression .rbrace)) c' := by
  have hscan : Token.scan "fn() \x7b x + \x7d" =
      [⟨.functionWord, "fn"⟩, ⟨.lparen, "("⟩, ⟨.rparen, ")"⟩, ⟨.lbrace, "\x7b"⟩, ⟨.ident, "x"⟩,
        ⟨.plus, "+"⟩, ⟨.rbrace, "\x7d"⟩] := by
    decide +kernel
  have hreading : Reading (Token.scan "fn() \x7b x + \x7d") _ := .start
  have hbegun : Begun (start (Token.scan "fn() \x7b x + \x7d"))
      ⟨[⟨.ident, "x"⟩, ⟨.plus, "+"⟩, ⟨.rbrace, "\x7d"⟩], 1, []⟩ := by
    rw [hscan]
    exact ⟨16, .inl (.tail _ (.head _))⟩
  have hlisted : Listed (start (Token.scan "fn() \x7b x + \x7d"))
      (some ⟨[⟨.lbrace, "\x7b"⟩, ⟨.ident, "x"⟩, ⟨.plus, "+"⟩, ⟨.rbrace, "\x7d"⟩], 1, []⟩)
      ⟨[⟨.ident, "x"⟩, ⟨.plus, "+"⟩, ⟨.rbrace, "\x7d"⟩], 1, []⟩ := by
    rw [hscan]
    exact .block ⟨[⟨.functionWord, "fn"⟩, ⟨.lparen, "("⟩, ⟨.rparen, ")"⟩], rfl, rfl⟩ rfl
  obtain ⟨-, -, haccounts⟩ := braces_accounted hreading
  obtain ⟨-, -, r, c', hgiven, haccounted, hsettles⟩ := haccounts _ hbegun
  have hread := hgiven 32 (Nat.le_refl 32)
  have hfails : Parse.statement 32 ⟨[⟨.ident, "x"⟩, ⟨.plus, "+"⟩, ⟨.rbrace, "\x7d"⟩], 1, []⟩ =
      some (.error (.noExpression .rbrace), ⟨[⟨.rbrace, "\x7d"⟩], 0, []⟩) := rfl
  cases hread.symm.trans hfails
  exact ⟨_, _, _, _, hreading, hbegun, rfl, rfl, hlisted, hread, haccounted, rfl,
    hsettles _ hlisted⟩

end Cursor
end Treewalk
