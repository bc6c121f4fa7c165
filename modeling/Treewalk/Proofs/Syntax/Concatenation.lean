import Mathlib.Data.List.Infix
import Treewalk.Proofs.Syntax.Amid
import Treewalk.Proofs.Token.Concatenation

/-!
One program behind another. Tokens that close the braces they open and end with a
semicolon are read for themselves, with the errors in them, and the tokens behind them
are read as from a start.
-/

namespace Treewalk
namespace Parse

open Cursor

theorem closes_of_statement {n : Nat} {c c' : Cursor} {r : Except SyntaxError Stmt}
    (hc : Token.Closes c.depthBefore c.tokens) (h : statement n c = some (r, c')) :
    Token.Closes c'.depthBefore c'.tokens := by
  obtain ⟨-, hsafe⟩ : _ ∧ Safe [.eof] c' := statement_amid [] (.inr hc) h
  exact hsafe.resolve_left (List.cons_ne_nil _ _)

/-- The cursor is at the top, and its tokens close the braces that they open, so that others may
follow them. -/
structure AtTop (c : Cursor) : Prop where
  closes : Token.Closes c.depthBefore c.tokens
  depth_eq : c.depthBefore = 0
  ne_eof : ∀ t ∈ c.tokens, t.kind ≠ .eof

/-- Statements that are read from the first cursor, up to `c'`, are read from the second too, and
then further ones, up to `last`. -/
def GoesOn (further : List Stmt) (c' last : Cursor) (n : Nat) (c d : Cursor) : Prop :=
  ∀ ss, programStatements n c = some (.ok ss, c') →
    ∃ k, programStatements k d = some (.ok (ss ++ further), last)

section GoesOn

variable {us : List Token} {further : List Stmt} {n m : Nat} {c c' c₁ c₂ last : Cursor}

/-- Behind a statement stand more statements or the other tokens. -/
theorem goesOn_advance (es : List SyntaxError)
    (hfurther : programStatements m ⟨us, (us.headD .eof).kind.braceWeight, es ++ c'.errors⟩ =
      some (.ok further, last))
    (ih : ∀ c, AtTop c → GoesOn further c' last n c (c.amid es us))
    (hclosed : Token.Closes c.depthBefore c.tokens)
    (hend : c.depth = 0 ∨ c.advance.tokens = []) (heof : ∀ t ∈ c.tokens, t.kind ≠ .eof) :
    GoesOn further c' last n c.advance (c.amid es us).advance := by
  intro rest h
  by_cases hnext : c.advance.tokens = []
  · have hcurrent : c.advance.current.kind = .eof := by
      rw [Cursor.current, hnext]
      rfl
    cases n with
    | zero => cases h
    | succ n =>
        rw [programStatements_eof n hcurrent] at h
        cases h
        rw [advance_amid_of_last hclosed hnext]
        exact ⟨m, hfurther⟩
  · have hinside : Inside us c := .inr ⟨hclosed, hnext⟩
    rw [hinside.advance_amid]
    refine ih _ ⟨?_, ?_, fun t ht => ?_⟩ _ h
    · rw [depthBefore_advance]
      exact closes_advance hclosed hnext
    · rw [depthBefore_advance]
      exact hend.resolve_right hnext
    · exact heof t ((Onward.advance c).tokens.subset ht)

theorem goesOn_read (es : List SyntaxError) (hc : AtTop c) {s : Stmt}
    (hstatement : statement n c = some (.ok s, c₁))
    (hrest : GoesOn further c' last n c₁.advance (c₁.amid es us).advance) :
    GoesOn further c' last (n + 1) c (c.amid es us) := by
  intro ss h
  have hsafe : Safe us c := .inr hc.closes
  have hne : c.current.kind ≠ .eof := hc.ne_eof _ (current_mem_tokens hc.closes.ne_nil)
  have hamid : (c.amid es us).current.kind ≠ .eof := by rwa [hsafe.current_amid]
  obtain ⟨hstatement', -⟩ := statement_amid es hsafe hstatement
  rw [programStatements_ok hne hstatement] at h
  obtain ⟨rest, t, hstatements, hpure⟩ := Run.bind_eq_ok_iff.1 h
  cases hpure
  obtain ⟨k, hk⟩ := hrest rest hstatements
  refine ⟨max n k + 1, ?_⟩
  rw [programStatements_ok hamid (statement_mono (Nat.le_max_left n k) hstatement')]
  exact Run.bind_eq_ok_iff.2 ⟨_, _, programStatements_mono (Nat.le_max_right n k) hk, rfl⟩

theorem goesOn_skipped (es : List SyntaxError) (hc : AtTop c) {e : SyntaxError}
    (hstatement : statement n c = some (.error e, c₁))
    (hrecover : ((c₁.record e).recover c.depthBefore).2 = c₂)
    (hrest : GoesOn further c' last n c₂.advance (c₂.amid es us).advance) :
    GoesOn further c' last (n + 1) c (c.amid es us) := by
  intro ss h
  have hsafe : Safe us c := .inr hc.closes
  have hne : c.current.kind ≠ .eof := hc.ne_eof _ (current_mem_tokens hc.closes.ne_nil)
  have hamid : (c.amid es us).current.kind ≠ .eof := by rwa [hsafe.current_amid]
  have hbase : us = [] ∨ 0 ≤ c.depthBefore := .inr (Int.le_of_eq hc.depth_eq.symm)
  have hclosed := closes_of_statement hc.closes hstatement
  have hrecorded : Safe us (c₁.record e) := .inr hclosed
  obtain ⟨hstatement', -⟩ := statement_amid es hsafe hstatement
  rw [programStatements_error hne hstatement, hrecover] at h
  obtain ⟨k, hk⟩ := hrest ss h
  refine ⟨max n k + 1, ?_⟩
  rw [programStatements_error hamid (statement_mono (Nat.le_max_left n k) hstatement'),
    hsafe.depthBefore_amid, record_amid, (recover_amid es hbase hrecorded).1, hrecover]
  exact programStatements_mono (Nat.le_max_right n k) hk

/-- A program is read in front of other tokens, which are then read as from a start. -/
theorem programStatements_append (es : List SyntaxError) (hc : AtTop c)
    (hfurther : programStatements m ⟨us, (us.headD .eof).kind.braceWeight, es ++ c'.errors⟩ =
      some (.ok further, last)) :
    GoesOn further c' last n c (c.amid es us) := by
  induction n generalizing c with
  | zero => exact fun ss h => by cases h
  | succ n ih =>
      have hne : c.current.kind ≠ .eof := hc.ne_eof _ (current_mem_tokens hc.closes.ne_nil)
      have hrest : ∀ d : Cursor, c.Onward d → Token.Closes d.depthBefore d.tokens →
          (d.depth = 0 ∨ d.advance.tokens = []) →
          GoesOn further c' last n d.advance (d.amid es us).advance :=
        fun d honward hclosed hend => goesOn_advance es hfurther (fun _ => ih) hclosed hend
          fun t ht => hc.ne_eof t (honward.tokens.subset ht)
      have hends := meets_statement n hne
      obtain hm | ⟨s, c₁, hm⟩ | ⟨e, c₁, hm⟩ := Run.ended (statement n c)
      · intro ss h
        rw [programStatements_none hne hm] at h
        cases h
      · rw [hm] at hends
        exact goesOn_read es hc hm (hrest c₁ hends.above.onward
          (closes_of_statement hc.closes hm) (.inl (hends.depth_eq.trans hc.depth_eq)))
      · have hstatement := closes_of_statement hc.closes hm
        have hclosed : Token.Closes (c₁.record e).depthBefore (c₁.record e).tokens := hstatement
        have honward := (onward_statement hne hm).trans (.record e c₁)
        obtain ⟨hlt, -⟩ | ⟨c₂, heq, habove, -, hend⟩ := above_recover c.depthBefore (c₁.record e)
        · exact absurd (depth_nonneg hclosed) (by have := hc.depth_eq; omega)
        · have hrecovered := closes_of_recover hc.depth_eq hclosed
          rw [heq] at hrecovered
          rw [hc.depth_eq] at hend
          exact goesOn_skipped es hc hm (congrArg Prod.snd heq)
            (hrest c₂ (honward.trans habove.onward) hrecovered hend)

end GoesOn

end Parse

theorem Cursor.readProgram_eq {c c' : Cursor} {n : Nat} {ss : List Stmt}
    (h : Parse.programStatements n c = some (.ok ss, c')) : c.readProgram = (⟨ss⟩, c') := by
  obtain ⟨ss', c'', hread, heq, -⟩ := c.readProgram_spec
  have hl := Parse.programStatements_mono (Nat.le_max_left n c.allowance) h
  have hr := Parse.programStatements_mono (Nat.le_max_right n c.allowance) hread
  rw [hl] at hr
  cases hr
  exact heq

theorem Program.ofTokens_append {ts us : List Token} (hclosed : Token.Closes 0 ts)
    (heof : ∀ t ∈ ts, t.kind ≠ .eof) :
    Program.ofTokens (ts ++ us) =
      (⟨(Program.ofTokens ts).1.statements ++ (Program.ofTokens us).1.statements⟩,
        (Program.ofTokens ts).2 ++ (Program.ofTokens us).2) := by
  have hdepth : (Cursor.start ts).depthBefore = 0 := Int.sub_self _
  obtain ⟨ss, c', hread, heq, -⟩ := (Cursor.start ts).readProgram_spec
  obtain ⟨ss', last, hread', heq', -⟩ := (Cursor.start us).readProgram_spec
  have hbehind := Parse.programStatements_amid c'.errors hread'
  have herrors : (Cursor.start us).errors = [] := rfl
  rw [Cursor.amid, herrors, List.append_nil, List.append_nil] at hbehind
  obtain ⟨k, hk⟩ :=
    Parse.programStatements_append [] ⟨hdepth.symm ▸ hclosed, hdepth, heof⟩ hbehind ss hread
  have hstart : Cursor.start (ts ++ us) = (Cursor.start ts).amid [] us := by
    obtain ⟨t, rest, rfl⟩ := List.exists_cons_of_ne_nil hclosed.ne_nil
    rfl
  have hwhole := Cursor.readProgram_eq hk
  rw [show Cursor.amid [] (Cursor.start us).tokens _ = _ from hstart.symm] at hwhole
  rw [ofTokens, ofTokens, ofTokens, hwhole, heq, heq']
  rfl

namespace Token

theorem closes_of_nonneg {d : Int} {ts : List Token}
    (hnonneg : ∀ p, p <+: ts → 0 ≤ d + braceBalance p) (htotal : d + braceBalance ts = 0)
    (hlast : ts.getLast?.map Token.kind = some .semicolon) : Closes d ts := by
  induction ts generalizing d with
  | nil => cases hlast
  | cons t ts ih =>
      cases ts with
      | nil =>
          have hkind : t.kind = .semicolon := Option.some.inj hlast
          refine ⟨?_, hkind⟩
          rw [braceBalance, hkind] at htotal
          exact (Int.add_zero d).symm.trans htotal
      | cons u rest =>
          have hd : 0 ≤ d := by
            have := hnonneg [] List.nil_prefix
            rwa [braceBalance, Int.add_zero] at this
          refine ⟨hd, ih (fun p hp => ?_) ?_ ?_⟩
          · have := hnonneg (t :: p) ((List.prefix_cons_inj t).2 hp)
            rwa [braceBalance, ← Int.add_assoc] at this
          · rwa [braceBalance, ← Int.add_assoc] at htotal
          · rwa [List.getLast?_cons_cons] at hlast

end Token

/-- A text that closes its braces and ends with a semicolon is read for itself, whatever
follows: its statements and its errors come first, then those of the rest. -/
theorem Program.ofText_append (s₁ s₂ : String) (hbalanced : Token.Balanced (Token.scan s₁))
    (hlast : (Token.scan s₁).getLast?.map Token.kind = some .semicolon) :
    Program.ofText (s₁ ++ s₂) =
      (⟨(Program.ofText s₁).1.statements ++ (Program.ofText s₂).1.statements⟩,
        (Program.ofText s₁).2 ++ (Program.ofText s₂).2) := by
  have hscan : Token.scan (s₁ ++ s₂) = Token.scan s₁ ++ Token.scan s₂ := by
    rw [Token.scan, String.toList_append]
    exact Token.readAll_append s₂.toList hlast
  have hclosed : Token.Closes 0 (Token.scan s₁) := by
    refine Token.closes_of_nonneg (fun p hp => ?_) ?_ hlast
    · rw [Int.zero_add]
      exact hbalanced.nonneg p hp
    · rw [Int.zero_add]
      exact hbalanced.total
  rw [ofText, ofText, ofText, hscan]
  exact Program.ofTokens_append hclosed fun t ht => Token.kind_ne_eof_of_mem_readAll ht

/-- The body of this function has an error, and what follows is read as if it had none. -/
theorem Program.ofText_append_broken :
    Token.Balanced (Token.scan "fn(x) \x7b x + \x7d;") ∧
      (Token.scan "fn(x) \x7b x + \x7d;").getLast?.map Token.kind = some .semicolon ∧
      Program.ofText ("fn(x) \x7b x + \x7d;" ++ "2") =
        (⟨(Program.ofText "fn(x) \x7b x + \x7d;").1.statements ++
            (Program.ofText "2").1.statements⟩,
          (Program.ofText "fn(x) \x7b x + \x7d;").2 ++ (Program.ofText "2").2) := by
  have hscan : Token.scan "fn(x) \x7b x + \x7d;" =
      [⟨.functionWord, "fn"⟩, ⟨.lparen, "("⟩, ⟨.ident, "x"⟩, ⟨.rparen, ")"⟩, ⟨.lbrace, "\x7b"⟩,
        ⟨.ident, "x"⟩, ⟨.plus, "+"⟩, ⟨.rbrace, "\x7d"⟩, ⟨.semicolon, ";"⟩] := by
    decide +kernel
  have hbalanced : Token.Balanced (Token.scan "fn(x) \x7b x + \x7d;") := by
    rw [hscan]
    decide
  have hlast : (Token.scan "fn(x) \x7b x + \x7d;").getLast?.map Token.kind =
      some .semicolon := by
    rw [hscan]
    rfl
  exact ⟨hbalanced, hlast, Program.ofText_append _ _ hbalanced hlast⟩

end Treewalk
