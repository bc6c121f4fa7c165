import Treewalk.Proofs.Syntax.Depth
import Treewalk.Proofs.Syntax.Likeness

/-!
Where the rules of the grammar leave the cursor. They come to an end within an allowance
that the number of tokens bounds, and they keep account of braces: a rule that starts inside
some braces passes none that closes these, whether it succeeds or fails, and if it succeeds
it has closed the braces it opened. So each statement begins level with the list that it
stands in, at the top or in a block.
-/

namespace Treewalk

open Run (Meets)

namespace Cursor

/-- A statement begins on the cursor: at the top on any token, in a block not on the brace
that closes it. -/
def Begins : Option Cursor → Cursor → Prop
  | none, c => c.current.kind ≠ .eof
  | some _, c => c.current.kind ≠ .rbrace ∧ c.current.kind ≠ .eof

theorem Begins.ne_eof {w : Option Cursor} {c : Cursor} (h : Begins w c) :
    c.current.kind ≠ .eof := by
  cases w with
  | none => exact h
  | some b => exact h.2

/-- The places to which the lists of statements come that are read from `c₀` on: the list at
the top, or that of the block which opens at the given cursor. Behind a statement the list
goes on, also behind one that has failed and is skipped, unless the brace that closes the
block has been found in its place. -/
inductive Listed (c₀ : Cursor) : Option Cursor → Cursor → Prop where
  | top : Listed c₀ none c₀
  | block {b : Cursor} (counted : Counts c₀ b) (brace : b.current.kind = .lbrace) :
      Listed c₀ (some b) b.advance
  | read {w : Option Cursor} {c c' : Cursor} {n : Nat} {s : Stmt} (before : Listed c₀ w c)
      (begins : Begins w c) (given : Parse.statement n c = some (.ok s, c')) :
      Listed c₀ w c'.advance
  | skipped {w : Option Cursor} {c c' after : Cursor} {n : Nat} {e : SyntaxError} {closed : Bool}
      (before : Listed c₀ w c) (begins : Begins w c)
      (given : Parse.statement n c = some (.error e, c'))
      (recovered : (c'.record e).recover c.depthBefore = (closed, after))
      (open_ : w ≠ none → closed = false) : Listed c₀ w after.advance

/-- The statements of a block end on the brace that closes them, or at the end. -/
structure ClosesAt (d : Int) (c c' : Cursor) : Prop where
  above : Above d c c'
  closed : c'.depthBefore = d ∧ c'.current.kind = .rbrace ∨ c'.current.kind = .eof

theorem ClosesAt.before {d : Int} {c c' c'' : Cursor} (hc : Above d c c')
    (h : ClosesAt d c' c'') : ClosesAt d c c'' :=
  ⟨hc.trans h.above, h.closed⟩

end Cursor

namespace Grammar

open Cursor
open Observed (run notes run_pure run_bind run_step run_outcome run_exhausted run_beginning)
open MonadGrammar (step outcome exhausted beginning)

variable {m : Type → Type} [MonadGrammar m] [Observed m] {α β : Type} {c₀ c : Cursor}
  {d d' : Int} {short short' : Prop} {done done' failed failed' : Cursor → Prop}

/-- Read from a cursor that has come from `c₀`, the rule notes only cursors in lists of
statements on which one begins, and ends as told, or is short of allowance. -/
def Places (c₀ : Cursor) (short : Prop) (done failed : Cursor → Prop) (x : m α) (c : Cursor) :
    Prop :=
  Counts c₀ c → (∀ d ∈ notes x c, ∃ w, Listed c₀ w d ∧ Begins w d) ∧
    Meets short (fun _ => done) failed (run x c)

theorem places_exhausted (h : short) : Places c₀ short done failed (exhausted : m α) c := by
  intro _
  rw [Observed.notes_exhausted, run_exhausted]
  exact ⟨List.forall_mem_nil _, h⟩

theorem places_pure {a : α} (h : done c) : Places c₀ short done failed (pure a : m α) c := by
  intro _
  rw [Observed.notes_pure, run_pure]
  exact ⟨List.forall_mem_nil _, h⟩

theorem places_failing {p : Parse α} {e : SyntaxError} (hp : p c = some (.error e, c))
    (h : failed c) : Places c₀ short done failed (step p : m α) c := by
  intro _
  rw [Observed.notes_step, run_step, hp]
  exact ⟨List.forall_mem_nil _, h⟩

theorem places_step {p : Parse α} {a : α} {c' : Cursor} (hp : p c = some (.ok a, c'))
    (h : done c') : Places c₀ short done failed (step p : m α) c := by
  intro _
  rw [Observed.notes_step, run_step, hp]
  exact ⟨List.forall_mem_nil _, h⟩

theorem Places.imp {x : m α} (h : Places c₀ short done failed x c) (hshort : short → short')
    (hdone : ∀ t, done t → done' t) (hfailed : ∀ t, failed t → failed' t) :
    Places c₀ short' done' failed' x c := fun hc =>
  ⟨(h hc).1, (h hc).2.imp hshort (fun _ => hdone) hfailed⟩

section Bind

variable {x : m α} {next : α → m β}

theorem Places.bind (h : Places c₀ short done failed x c) (hcounts : ∀ t, done t → Counts c t)
    (hshort : short → short') (hfailed : ∀ t, failed t → failed' t)
    (hnext : ∀ a t, done t → Places c₀ short' done' failed' (next a) t) :
    Places c₀ short' done' failed' (x >>= next) c := by
  intro hc
  obtain ⟨hnotes, hmeets⟩ := h hc
  have hrest : ∀ t, done t → Counts c₀ t := fun t ht => hc.trans (hcounts t ht)
  constructor
  · intro d hd
    obtain hd | ⟨a, t, hx, hd⟩ := Observed.of_mem_bind hd
    · exact hnotes d hd
    · rw [hx] at hmeets
      exact (hnext a t hmeets (hrest t hmeets)).1 d hd
  · rw [run_bind]
    exact hmeets.bind hshort hfailed fun a t ht => (hnext a t ht (hrest t ht)).2

theorem Places.outcome {next : Except SyntaxError α → m β} (h : Places c₀ short done failed x c)
    (hdone : ∀ t, done t → Counts c t) (hfailed : ∀ t, failed t → Counts c t)
    (hshort : short → short')
    (hok : ∀ a t, run x c = some (.ok a, t) → done t →
      Places c₀ short' done' failed' (next (.ok a)) t)
    (herror : ∀ e t, run x c = some (.error e, t) → failed t →
      Places c₀ short' done' failed' (next (.error e)) t) :
    Places c₀ short' done' failed' (outcome x >>= next) c := by
  intro hc
  obtain ⟨hnotes, hmeets⟩ := h hc
  -- what follows, on either outcome
  have hrest : ∀ r t, run x c = some (r, t) →
      (∀ d ∈ notes (next r) t, ∃ w, Listed c₀ w d ∧ Begins w d) ∧
        Meets short' (fun _ => done') failed' (run (next r) t) := by
    intro r t hx
    rw [hx] at hmeets
    cases r with
    | ok a => exact hok a t hx hmeets (hc.trans (hdone t hmeets))
    | error e => exact herror e t hx hmeets (hc.trans (hfailed t hmeets))
  constructor
  · intro d hd
    obtain hd | ⟨r, t, hx, hd⟩ := Observed.of_mem_bind hd
    · rw [Observed.notes_outcome] at hd
      exact hnotes d hd
    · rw [run_outcome, Run.outcome] at hx
      obtain hx' | ⟨a, t', hx'⟩ | ⟨e, t', hx'⟩ := Run.ended (run x c) <;> rw [hx'] at hx <;>
        cases hx <;> exact (hrest _ _ hx').1 d hd
  · rw [run_bind, run_outcome, Run.bind_apply, Run.outcome]
    obtain hx | ⟨a, t, hx⟩ | ⟨e, t, hx⟩ := Run.ended (run x c)
    · rw [hx] at hmeets ⊢
      exact hshort hmeets
    · rw [hx]
      exact (hrest _ _ hx).2
    · rw [hx]
      exact (hrest _ _ hx).2

/-- A step that only moves the cursor comes first. -/
theorem Places.step {p : Parse α} {a : α} {c' : Cursor} (hp : p c = some (.ok a, c'))
    (hc : Counts c c') (h : Places c₀ short done failed (next a) c') :
    Places c₀ short done failed (MonadGrammar.step p >>= next) c := by
  intro hcounts
  obtain ⟨hnotes, hmeets⟩ := h (hcounts.trans hc)
  constructor
  · intro d hd
    obtain hd | ⟨b, t, ht, hd⟩ := Observed.of_mem_bind hd
    · rw [Observed.notes_step] at hd
      exact absurd hd List.not_mem_nil
    · rw [run_step, hp] at ht
      cases ht
      exact hnotes d hd
  · rw [run_bind, run_step, Run.bind_apply, hp]
    exact hmeets

theorem Places.recover {base : Int} {closed : Bool} {c' : Cursor} {next : Bool → m β}
    (hrecover : c.recover base = (closed, c')) (hc : Counts c c')
    (h : Places c₀ short done failed (next closed) c') :
    Places c₀ short done failed (recover base >>= next) c :=
  .step ((Run.updateGet_apply (Cursor.recover base) c).trans (by rw [hrecover])) hc h

end Bind

/-- With an allowance of `n` nested calls, which is enough from eight for each token and `k`
more on, the rule ends inside as many braces as given, and is never inside fewer on its
way. -/
def Keeps (c₀ : Cursor) (n k : Nat) (d : Int) (x : m α) (c : Cursor) : Prop :=
  Places c₀ (n < 8 * c.tokens.length + k) (RestsAt d c) (Above d c) x c

variable {n k k' : Nat}

/-- A rule that starts further on, inside as many braces. -/
theorem Places.before {x : m α} {c' : Cursor} (hc : Above d c c') (h : Keeps c₀ n k d x c') :
    Places c₀ (n < 8 * c.tokens.length + k) (RestsAt d c) (Above d c) x c' := by
  have hle := hc.onward.length_le
  exact h.imp (by omega) (fun _ => .before hc) fun _ => hc.trans

namespace Keeps

variable {x : m α} {next : α → m β}

theorem fail (e : SyntaxError) : Keeps c₀ n k d (fail e : m α) c :=
  places_failing rfl (.refl d c)

theorem pure {a : α} (h : c.depth = d) : Keeps c₀ n k d (pure a : m α) c :=
  places_pure ⟨.refl d c, h⟩

theorem succ (h : Keeps c₀ n k d x c) : Keeps c₀ (n + 1) (k + 1) d x c :=
  Places.imp h Nat.succ_lt_succ (fun _ ht => ht) fun _ ht => ht

theorem widen (h : Keeps c₀ n k d x c) (hk : k ≤ k') : Keeps c₀ n k' d x c :=
  Places.imp h (fun hn => Nat.lt_of_lt_of_le hn (Nat.add_le_add_left hk _)) (fun _ ht => ht)
    fun _ ht => ht

theorem bind (h : Keeps c₀ n k' d x c) (hk : k' ≤ k) (hle : d' ≤ d)
    (hnext : ∀ a c₁, c₁.depth = d → Keeps c₀ n k d' (next a) c₁) :
    Keeps c₀ n k d' (x >>= next) c :=
  Places.bind (h.widen hk) (fun _ ht => ht.above.counts) (fun hn => hn)
    (fun _ ht => ht.lower hle)
    fun a c₁ h₁ => .before (h₁.above.lower hle) (hnext a c₁ h₁.depth_eq)

theorem andThen (h : Keeps c₀ n k' d x c) (hk : k' ≤ k)
    (hnext : ∀ a c₁, c₁.depth = d → Keeps c₀ n k d (next a) c₁) :
    Keeps c₀ n k d (x >>= next) c :=
  h.bind hk (Int.le_refl d) hnext

theorem step {p : Parse α} {a : α} {c' : Cursor} (hp : p c = some (.ok a, c'))
    (hc : Above d c c') (h : Keeps c₀ n k d (next a) c') :
    Keeps c₀ n k d (MonadGrammar.step p >>= next) c :=
  Places.step hp hc.counts (.before hc h)

theorem beginning {w : Option Cursor} {next : Unit → m β} (hlisted : Listed c₀ w c)
    (hbegins : Begins w c) (h : Keeps c₀ n k d (next ()) c) :
    Keeps c₀ n k d (MonadGrammar.beginning >>= next) c := by
  intro hc
  obtain ⟨hnotes, hmeets⟩ := h hc
  constructor
  · intro t ht
    obtain ht | ⟨_, c', hbegun, ht⟩ := Observed.of_mem_bind ht
    · rw [Observed.eq_of_mem_beginning ht]
      exact ⟨w, hlisted, hbegins⟩
    · rw [run_beginning] at hbegun
      cases hbegun
      exact hnotes t ht
  · rw [run_bind, run_beginning]
    exact hmeets

theorem current {next : Token → m β} (h : Keeps c₀ n k d (next c.current) c) :
    Keeps c₀ n k d (current >>= next) c :=
  step rfl (.refl d c) h

theorem cursor {next : Cursor → m β} (h : Keeps c₀ n k d (next c) c) :
    Keeps c₀ n k d (cursor >>= next) c :=
  step rfl (.refl d c) h

theorem advance {next : Unit → m β} (hle : d ≤ c.depth)
    (h : Keeps c₀ n k d (next ()) c.advance) : Keeps c₀ n k d (advance >>= next) c :=
  step rfl (.advance hle) h

/-- Behind a token there is one token less that the allowance has to last for. -/
theorem pass {next : Unit → m β} (hle : d ≤ c.depth) (hc : c.tokens ≠ [])
    (h : Keeps c₀ n (k + 8) d (next ()) c.advance) :
    Keeps c₀ n k d (Grammar.advance >>= next) c := by
  have hlt := length_advance_lt hc
  have habove : Above d c c.advance := .advance hle
  exact Places.step rfl habove.counts
    (Places.imp h (by omega) (fun _ => .before habove) fun _ => habove.trans)

theorem nextIs {kind : TokenKind} {next : Bool → m β}
    (hyes : c.upcoming.kind = kind → Keeps c₀ n k d (next true) c)
    (hno : Keeps c₀ n k d (next false) c) : Keeps c₀ n k d (nextIs kind >>= next) c := by
  refine step (a := c.upcoming.kind == kind) rfl (.refl d c) ?_
  by_cases h : c.upcoming.kind = kind
  · rw [beq_iff_eq.2 h]
    exact hyes h
  · rw [beq_eq_false_iff_ne.2 h]
    exact hno

theorem expectNext {kind : TokenKind} {next : Unit → m β} (hle : d ≤ c.depth)
    (h : c.upcoming.kind = kind → Keeps c₀ n k d (next ()) c.advance) :
    Keeps c₀ n k d (expectNext kind >>= next) c := by
  by_cases hkind : c.upcoming.kind = kind
  · exact step (if_pos hkind) (.advance hle) (h hkind)
  · have hfail : Places c₀ (n < 8 * c.tokens.length + k) (fun _ => False) (Above d c)
        (Grammar.expectNext kind : m Unit) c := places_failing (if_neg hkind) (.refl d c)
    exact hfail.bind (fun _ ht => ht.elim) (fun hn => hn) (fun _ ht => ht) fun _ _ ht => ht.elim

theorem optionalSemicolon (h : c.depth = d) :
    Keeps c₀ n k d (optionalSemicolon : m Unit) c :=
  nextIs (fun hnext => places_step rfl
    ⟨.advance (Int.le_of_eq h.symm), (depth_advance_of_kind hnext rfl).trans h⟩) (.pure h)

end Keeps

/-- The rules with an allowance of so many nested calls. A rule that starts inside some
braces ends inside as many, those that it starts with set apart; only the statements of a
block end on a brace that closes them. -/
structure PlacesAt (m : Type → Type) [MonadGrammar m] [Observed m] (c₀ : Cursor) (n : Nat) :
    Prop where
  moreParameters : ∀ {d} c, c.depth = d →
    Keeps c₀ n 1 d (moreParameters n : m (List Token)) c
  expression : ∀ {d} p c, c.depthBefore = d → Keeps c₀ n 3 d (expression n p : m Expr) c
  operators : ∀ {d} p left c, c.depth = d → Keeps c₀ n 1 d (operators n p left : m Expr) c
  extend : ∀ {d} left c, c.depth = d → Keeps c₀ n 2 d (extend n left : m Expr) c
  operand : ∀ {d} c, c.depthBefore = d → Keeps c₀ n 2 d (operand n : m Expr) c
  expressions : ∀ {d} close c, close.braceWeight = 0 → c.tokens ≠ [] → c.depth = d →
    Keeps c₀ n 1 d (expressions n close : m (List Expr)) c
  moreExpressions : ∀ {d} c, c.depth = d →
    Keeps c₀ n 1 d (moreExpressions n : m (List Expr)) c
  pairs : ∀ {d} c, c.tokens ≠ [] → c.depth = d + 1 →
    Keeps c₀ n 1 d (pairs n : m (List (Expr × Expr))) c
  block : ∀ {d} c, c.current.kind = .lbrace → c.depthBefore = d →
    Keeps c₀ n 1 d (block n : m Block) c
  blockStatements : ∀ {d} b c, Listed c₀ (some b) c →
    c.depthBefore = d ∨ c.current.kind = .eof →
    Places c₀ (n < 8 * c.tokens.length + 5) (ClosesAt d c) (fun _ => False)
      (blockStatements n : m (List Stmt)) c
  statement : ∀ {d} w c, Listed c₀ w c → Begins w c → c.depthBefore = d →
    Keeps c₀ n 4 d (statement n : m Stmt) c

theorem placesAt_zero (c₀ : Cursor) : PlacesAt m c₀ 0 := by
  constructor <;> intros <;> exact places_exhausted (Nat.succ_pos _)

section Step

variable {n : Nat} (h : PlacesAt m c₀ n)
include h

theorem PlacesAt.expression_advance (p : Precedence) (hd : c.depth = d) :
    Keeps c₀ n 3 d (Grammar.expression n p : m Expr) c.advance :=
  h.expression p c.advance ((depthBefore_advance c).trans hd)

theorem PlacesAt.block_advance (hbrace : c.upcoming.kind = .lbrace) (hd : c.depth = d) :
    Keeps c₀ n 1 d (Grammar.block n : m Block) c.advance :=
  h.block c.advance hbrace ((depthBefore_advance c).trans hd)

theorem PlacesAt.moreParameters_succ (hd : c.depth = d) :
    Keeps c₀ (n + 1) 1 d (Grammar.moreParameters (n + 1) : m (List Token)) c := by
  rw [Grammar.moreParameters]
  refine .succ (.nextIs (fun hcomma => ?_) (.pure hd))
  have h₁ := (depth_advance_of_kind hcomma rfl).trans hd
  refine .pass (Int.le_of_eq hd.symm) (tokens_ne_nil_of_upcoming hcomma (by decide)) ?_
  refine .expectNext (Int.le_of_eq h₁.symm) fun hname => .current ?_
  have h₂ := (depth_advance_of_kind hname rfl).trans h₁
  exact (h.moreParameters _ h₂).andThen (by decide) fun _ _ h₃ => .pure h₃

theorem PlacesAt.parameters (hd : c.depth = d) :
    Keeps c₀ n 1 d (Grammar.parameters n : m (List Token)) c := by
  have hle := Int.le_of_eq hd.symm
  rw [Grammar.parameters]
  refine .nextIs (fun hclose => ?_) (.expectNext hle fun hname => .current ?_)
  · exact .advance hle (.pure ((depth_advance_of_kind hclose rfl).trans hd))
  · have h₁ := (depth_advance_of_kind hname rfl).trans hd
    refine (h.moreParameters _ h₁).andThen (Nat.le_refl 1) fun names c₂ h₂ => ?_
    exact .expectNext (Int.le_of_eq h₂.symm) fun hclose =>
      .pure ((depth_advance_of_kind hclose rfl).trans h₂)

theorem PlacesAt.operators_succ (p : Precedence) (left : Expr) (hd : c.depth = d) :
    Keeps c₀ (n + 1) 1 d (Grammar.operators (n + 1) p left : m Expr) c := by
  rw [Grammar.operators]
  refine .succ (.cursor ?_)
  split
  · rename_i hweaker
    have hadvance := depth_advance_of_kind rfl (Precedence.braceWeight_of_weaker hweaker)
    have hkind : c.upcoming.kind ≠ .eof := Precedence.ne_of_weaker _ hweaker rfl
    refine .pass (Int.le_of_eq hd.symm) (tokens_ne_nil_of_upcoming rfl hkind) ?_
    exact (h.extend left c.advance (hadvance.trans hd)).andThen (by decide) fun longer c₁ h₁ =>
      (h.operators p longer c₁ h₁).widen (by decide)
  · exact .pure hd

theorem PlacesAt.extend_succ (left : Expr) (hd : c.depth = d) :
    Keeps c₀ (n + 1) 2 d (Grammar.extend (n + 1) left : m Expr) c := by
  have hle := Int.le_of_eq hd.symm
  rw [Grammar.extend]
  refine .succ (.current ?_)
  generalize hkind : c.current.kind = kind
  split
  · have hc := tokens_ne_nil_of_kind hkind (by decide)
    exact (h.expressions .rparen c rfl hc hd).andThen (Nat.le_refl 1) fun _ _ h₁ => .pure h₁
  · refine .pass hle (tokens_ne_nil_of_kind hkind (by decide)) ?_
    refine (h.expression_advance .lowest hd).andThen (by decide) fun position c₁ h₁ => ?_
    exact .expectNext (Int.le_of_eq h₁.symm) fun hclose =>
      .pure ((depth_advance_of_kind hclose rfl).trans h₁)
  · cases hop : InfixOp.ofKind? kind with
    | none => exact .pure hd
    | some op =>
        have heof : kind ≠ .eof := by
          rintro rfl
          cases hop
        refine .pass hle (tokens_ne_nil_of_kind hkind heof) ?_
        exact (h.expression_advance _ hd).andThen (by decide) fun _ _ h₁ => .pure h₁

theorem PlacesAt.expressions_succ {close : TokenKind} (hclose : close.braceWeight = 0)
    (hc : c.tokens ≠ []) (hd : c.depth = d) :
    Keeps c₀ (n + 1) 1 d (Grammar.expressions (n + 1) close : m (List Expr)) c := by
  have hle := Int.le_of_eq hd.symm
  rw [Grammar.expressions]
  refine .succ (.nextIs (fun hnext => ?_) (.pass hle hc ?_))
  · exact .advance hle (.pure ((depth_advance_of_kind hnext hclose).trans hd))
  · refine (h.expression_advance .lowest hd).andThen (by decide) fun first c₁ h₁ => ?_
    refine (h.moreExpressions c₁ h₁).andThen (by decide) fun rest c₂ h₂ => ?_
    exact .expectNext (Int.le_of_eq h₂.symm) fun hnext =>
      .pure ((depth_advance_of_kind hnext hclose).trans h₂)

theorem PlacesAt.moreExpressions_succ (hd : c.depth = d) :
    Keeps c₀ (n + 1) 1 d (Grammar.moreExpressions (n + 1) : m (List Expr)) c := by
  rw [Grammar.moreExpressions]
  refine .succ (.nextIs (fun hcomma => ?_) (.pure hd))
  have h₁ := (depth_advance_of_kind hcomma rfl).trans hd
  refine .pass (Int.le_of_eq hd.symm) (tokens_ne_nil_of_upcoming hcomma (by decide)) ?_
  refine .advance (Int.le_of_eq h₁.symm) ?_
  exact (h.expression_advance .lowest h₁).andThen (by decide) fun first c₂ h₂ =>
    (h.moreExpressions c₂ h₂).andThen (by decide) fun _ _ h₃ => .pure h₃

theorem PlacesAt.pairs_succ (hc : c.tokens ≠ []) (hd : c.depth = d + 1) :
    Keeps c₀ (n + 1) 1 d (Grammar.pairs (n + 1) : m (List (Expr × Expr))) c := by
  rw [Grammar.pairs]
  refine .succ (.nextIs (fun hclose => ?_) (.pass (by omega) hc ?_))
  · refine .advance (by omega) (.pure ?_)
    rw [depth_advance, hclose, hd]
    exact Int.add_sub_cancel d 1
  · refine (h.expression_advance .lowest hd).bind (by decide) (by omega) fun key c₁ h₁ => ?_
    refine .expectNext (by omega) fun hcolon => ?_
    have h₂ := (depth_advance_of_kind hcolon rfl).trans h₁
    refine .advance (by omega) ?_
    refine (h.expression_advance .lowest h₂).bind (by decide) (by omega) fun value c₂ h₃ => ?_
    refine .nextIs (fun hclose => ?_) (.expectNext (by omega) fun hcomma => ?_)
    · exact (h.pairs c₂ (tokens_ne_nil_of_upcoming hclose (by decide)) h₃).andThen (by decide)
        fun _ _ h₄ => .pure h₄
    · exact (h.pairs c₂.advance (tokens_advance_ne_nil hcomma (by decide))
        ((depth_advance_of_kind hcomma rfl).trans h₃)).andThen (by decide) fun _ _ h₄ => .pure h₄

theorem PlacesAt.block_succ (hbrace : c.current.kind = .lbrace) (hd : c.depthBefore = d) :
    Keeps c₀ (n + 1) 1 d (Grammar.block (n + 1) : m Block) c := by
  intro hcounts
  have hdepth := depth_of_lbrace hbrace
  have hstatements := h.blockStatements (d := d + 1) c c.advance (.block hcounts hbrace)
    (.inl (by rw [depthBefore_advance]; omega))
  rw [Grammar.block]
  refine Keeps.succ (.current (.pass (by omega) (tokens_ne_nil_of_kind hbrace (by decide)) ?_))
    hcounts
  refine hstatements.bind (fun _ h₁ => h₁.above.counts) (by omega) (fun _ hf => hf.elim)
    fun _ c₁ h₁ => ?_
  refine .before (h₁.above.lower (by omega)) (.current ?_)
  split
  · exact .fail _
  · rename_i hkind
    obtain ⟨hbefore, hclose⟩ := h₁.closed.resolve_right hkind
    have := depth_of_rbrace hclose
    exact .pure (by omega)

theorem PlacesAt.statement_succ {w : Option Cursor} (hlisted : Listed c₀ w c)
    (hbegins : Begins w c) (hd : c.depthBefore = d) :
    Keeps c₀ (n + 1) 4 d (Grammar.statement (n + 1) : m Stmt) c := by
  have hvalue : ∀ (make : Expr → Stmt) (c' : Cursor),
      Keeps c₀ n 3 d (Grammar.expression n .lowest : m Expr) c' →
      Keeps c₀ n 3 d (do
        let value ← Grammar.expression n .lowest
        optionalSemicolon
        return make value : m Stmt) c' := fun make c' hexpression =>
    hexpression.andThen (Nat.le_refl 3) fun value c₁ h₁ =>
      (Keeps.optionalSemicolon h₁).andThen (Nat.le_refl 3) fun _ _ h₂ => .pure h₂
  rw [Grammar.statement]
  refine .succ (.beginning hlisted hbegins (.current ?_))
  generalize hkind : c.current.kind = kind
  split
  · have h₀ := (depthBefore_of_kind hkind rfl).symm.trans hd
    refine .expectNext (Int.le_of_eq h₀.symm) fun hname => ?_
    have h₁ := (depth_advance_of_kind hname rfl).trans h₀
    refine .current (.expectNext (Int.le_of_eq h₁.symm) fun hassign => ?_)
    have h₂ := (depth_advance_of_kind hassign rfl).trans h₁
    exact .advance (Int.le_of_eq h₂.symm) (hvalue _ _ (h.expression_advance .lowest h₂))
  · have h₀ := (depthBefore_of_kind hkind rfl).symm.trans hd
    exact .advance (Int.le_of_eq h₀.symm) (hvalue _ _ (h.expression_advance .lowest h₀))
  · exact hvalue _ _ (h.expression .lowest c hd)

theorem PlacesAt.blockStatements_succ (b : Cursor) (hlisted : Listed c₀ (some b) c)
    (hd : c.depthBefore = d ∨ c.current.kind = .eof) :
    Places c₀ (n + 1 < 8 * c.tokens.length + 5) (ClosesAt d c) (fun _ => False)
      (Grammar.blockStatements (n + 1) : m (List Stmt)) c := by
  rw [Grammar.blockStatements]
  refine .step rfl (.refl c) ?_
  split
  · rename_i hstop
    refine places_pure ⟨.refl d c, hstop.imp_left fun hkind => ⟨hd.resolve_right ?_, hkind⟩⟩
    rw [hkind]
    decide
  · rename_i hgo
    have hbegins : Begins (some b) c := not_or.1 hgo
    have hbefore : c.depthBefore = d := hd.resolve_right hbegins.ne_eof
    have hc : c.tokens ≠ [] := tokens_ne_nil_of_kind rfl hbegins.ne_eof
    -- the statements that follow, from a cursor as deep as the first one began or at the end
    have hrest : ∀ c' : Cursor, c.Onward c' → c'.depth = d ∨ c'.advance.tokens = [] →
        Listed c₀ (some b) c'.advance →
        Places c₀ (n + 1 < 8 * c.tokens.length + 5) (ClosesAt d c'.advance) (fun _ => False)
          (Grammar.blockStatements n : m (List Stmt)) c'.advance := by
      intro c' honward hend hlisted'
      have hlt := honward.length_tail_lt hc
      refine (h.blockStatements b c'.advance hlisted' (hend.imp ?_ fun hnil => ?_)).imp
        (by omega) (fun _ ht => ht) fun _ hf => hf
      · exact (depthBefore_advance c').trans
      · rw [Cursor.current, hnil]
        rfl
    refine (h.statement (some b) c hlisted hbegins hbefore).outcome
      (fun _ ht => ht.above.counts) (fun _ => Above.counts) (by omega) (fun s c₁ hgiven h₁ => ?_)
      fun e c₁ hgiven h₁ => ?_ <;> rw [run_statement] at hgiven
    · have hstatements := hrest c₁ h₁.above.onward (.inl h₁.depth_eq)
        (.read hlisted hbegins hgiven)
      have hnext := h₁.above.trans (.advance (Int.le_of_eq h₁.depth_eq.symm))
      refine .step rfl (Counts.advance c₁) ?_
      exact hstatements.bind (fun _ ht => ht.above.counts) (fun hn => hn) (fun _ hf => hf)
        fun rest t ht => places_pure (ht.before hnext)
    · have hrecord := h₁.trans (.record d e c₁)
      refine .step rfl (Above.record d e c₁).counts ?_
      rw [hbefore]
      obtain ⟨hlt, heq⟩ | ⟨c₂, heq, habove, hle, hend⟩ := above_recover d (c₁.record e)
      · -- the statement has met the brace that closes the block
        refine .recover heq (.refl _) ?_
        have hat := hrecord.le_depthBefore (Int.le_of_eq hbefore.symm)
        exact places_pure ⟨hrecord, .inl (closes_of_depth_lt hat hlt)⟩
      · have hskipped := hrecord.trans habove
        refine .recover heq habove.counts (.step rfl (Counts.advance c₂) ?_)
        rw [← hbefore] at heq
        exact (hrest c₂ hskipped.onward hend
          (.skipped hlisted hbegins hgiven heq fun _ => rfl)).imp (fun hn => hn)
          (fun _ => .before (hskipped.trans (.advance hle))) fun _ hf => hf

theorem PlacesAt.operand_succ (hd : c.depthBefore = d) :
    Keeps c₀ (n + 1) 2 d (Grammar.operand (n + 1) : m Expr) c := by
  -- but for an opening brace, the first token weighs nothing
  have hplain : ∀ {kind : TokenKind}, c.current.kind = kind → kind.braceWeight = 0 → c.depth = d :=
    fun hkind hweight => (depthBefore_of_kind hkind hweight).symm.trans hd
  have hprefixed : ∀ op : PrefixOp, c.depth = d → c.tokens ≠ [] → Keeps c₀ n 1 d (do
      advance
      let e ← Grammar.expression n .prefixed
      return Expr.prefixed c.current op e : m Expr) c := fun op h₀ hc =>
    .pass (Int.le_of_eq h₀.symm) hc
      ((h.expression_advance .prefixed h₀).andThen (by decide) fun _ _ h₁ => .pure h₁)
  rw [Grammar.operand]
  refine .succ (.current ?_)
  generalize hkind : c.current.kind = kind
  split
  · exact .pure (hplain hkind rfl)
  · split
    · exact .pure (hplain hkind rfl)
    · exact .fail _
  · exact .pure (hplain hkind rfl)
  · exact .pure (hplain hkind rfl)
  · exact .pure (hplain hkind rfl)
  · exact hprefixed .not (hplain hkind rfl) (tokens_ne_nil_of_kind hkind (by decide))
  · exact hprefixed .negate (hplain hkind rfl) (tokens_ne_nil_of_kind hkind (by decide))
  · have h₀ := hplain hkind rfl
    refine .pass (Int.le_of_eq h₀.symm) (tokens_ne_nil_of_kind hkind (by decide)) ?_
    refine (h.expression_advance .lowest h₀).andThen (by decide) fun e c₁ h₁ => ?_
    exact .expectNext (Int.le_of_eq h₁.symm) fun hclose =>
      .pure ((depth_advance_of_kind hclose rfl).trans h₁)
  · have h₀ := hplain hkind rfl
    refine .expectNext (Int.le_of_eq h₀.symm) fun hopen => ?_
    have h₁ := (depth_advance_of_kind hopen rfl).trans h₀
    refine .pass (Int.le_of_eq h₁.symm) (tokens_advance_ne_nil hopen (by decide)) ?_
    refine (h.expression_advance .lowest h₁).andThen (by decide) fun condition c₂ h₂ => ?_
    refine .expectNext (Int.le_of_eq h₂.symm) fun hclose => ?_
    have h₃ := (depth_advance_of_kind hclose rfl).trans h₂
    refine .expectNext (Int.le_of_eq h₃.symm) fun hbrace => ?_
    refine (h.block_advance hbrace h₃).andThen (by decide) fun consequence c₄ h₄ => ?_
    refine .nextIs (fun helse => ?_) (.pure h₄)
    have h₅ := (depth_advance_of_kind helse rfl).trans h₄
    refine .advance (Int.le_of_eq h₄.symm) (.expectNext (Int.le_of_eq h₅.symm) fun hbrace' => ?_)
    exact (h.block_advance hbrace' h₅).andThen (by decide) fun _ _ h₆ => .pure h₆
  · have h₀ := hplain hkind rfl
    refine .expectNext (Int.le_of_eq h₀.symm) fun hopen => ?_
    have h₁ := (depth_advance_of_kind hopen rfl).trans h₀
    refine (h.parameters h₁).andThen (Nat.le_refl 1) fun names c₂ h₂ => ?_
    refine .expectNext (Int.le_of_eq h₂.symm) fun hbrace => ?_
    exact (h.block_advance hbrace h₂).andThen (Nat.le_refl 1) fun _ _ h₃ => .pure h₃
  · have hc := tokens_ne_nil_of_kind hkind (by decide)
    exact (h.expressions .rbracket c rfl hc (hplain hkind rfl)).andThen (Nat.le_refl 1)
      fun _ _ h₁ => .pure h₁
  · have hdepth := depth_of_lbrace hkind
    exact (h.pairs c (tokens_ne_nil_of_kind hkind (by decide)) (by omega)).andThen
      (Nat.le_refl 1) fun _ _ h₁ => .pure h₁
  · exact .fail _

theorem PlacesAt.succ : PlacesAt m c₀ (n + 1) where
  moreParameters _ hd := h.moreParameters_succ hd
  expression p c hd := by
    rw [Grammar.expression]
    exact .succ ((h.operand c hd).andThen (Nat.le_refl 2) fun left c₁ h₁ =>
      (h.operators p left c₁ h₁).widen (by decide))
  operators p left _ hd := h.operators_succ p left hd
  extend left _ hd := h.extend_succ left hd
  operand _ hd := h.operand_succ hd
  expressions _ _ hclose hc hd := h.expressions_succ hclose hc hd
  moreExpressions _ hd := h.moreExpressions_succ hd
  pairs _ hc hd := h.pairs_succ hc hd
  block _ hbrace hd := h.block_succ hbrace hd
  blockStatements b _ hlisted hd := h.blockStatements_succ b hlisted hd
  statement _ _ hlisted hbegins hd := h.statement_succ hlisted hbegins hd

end Step

theorem placesAt (m : Type → Type) [MonadGrammar m] [Observed m] (c₀ : Cursor) (n : Nat) :
    PlacesAt m c₀ n := by
  induction n with
  | zero => exact placesAt_zero c₀
  | succ n ih => exact ih.succ

/-- Statements at the top come on to the end, also behind a brace that closes nothing. -/
theorem places_programStatements (m : Type → Type) [MonadGrammar m] [Observed m] (n : Nat)
    (hlisted : Listed c₀ none c) :
    Places c₀ (n < 8 * c.tokens.length + 5)
      (fun c' => Counts c c' ∧ c.Onward c' ∧ c'.current.kind = .eof) (fun _ => False)
      (programStatements n : m (List Stmt)) c := by
  induction n generalizing c with
  | zero => exact places_exhausted (Nat.succ_pos _)
  | succ n ih =>
      rw [programStatements]
      refine .step rfl (.refl c) ?_
      split
      · exact places_pure ⟨.refl c, .refl c, ‹_›⟩
      · rename_i hbegins
        have hc : c.tokens ≠ [] := tokens_ne_nil_of_kind rfl hbegins
        -- the statements that follow
        have hrest : ∀ c' : Cursor, c.Onward c' → Listed c₀ none c'.advance →
            Places c₀ (n + 1 < 8 * c.tokens.length + 5)
              (fun t => Counts c'.advance t ∧ c'.advance.Onward t ∧ t.current.kind = .eof)
              (fun _ => False) (programStatements n : m (List Stmt)) c'.advance := by
          intro c' honward hlisted'
          have hlt := honward.length_tail_lt hc
          exact (ih hlisted').imp (by omega) (fun _ ht => ht) fun _ hf => hf
        refine ((placesAt m c₀ n).statement none c hlisted hbegins rfl).outcome
          (fun _ ht => ht.above.counts) (fun _ => Above.counts) (by omega)
          (fun s c₁ hgiven h₁ => ?_) fun e c₁ hgiven h₁ => ?_ <;> rw [run_statement] at hgiven
        · have hcounts := h₁.above.counts.trans (.advance c₁)
          have honward := h₁.above.onward.trans (.advance c₁)
          refine .step rfl (Counts.advance c₁) ?_
          exact (hrest c₁ h₁.above.onward (.read hlisted hbegins hgiven)).bind (fun _ ht => ht.1)
            (fun hn => hn) (fun _ hf => hf)
            fun rest t ht => places_pure ⟨hcounts.trans ht.1, honward.trans ht.2.1, ht.2.2⟩
        · have hrecord := h₁.trans (.record _ e c₁)
          have hrecover := counts_recover c.depthBefore (c₁.record e)
          have hcounts := hrecord.counts.trans (hrecover.trans (.advance _))
          have hskipped := hrecord.onward.trans (onward_recover c.depthBefore _)
          have honward := hskipped.trans (.advance _)
          refine .step rfl (Above.record c.depthBefore e c₁).counts
            (.recover rfl hrecover (.step rfl (Counts.advance _) ?_))
          exact (hrest _ hskipped (.skipped hlisted hbegins hgiven rfl fun hne =>
            absurd rfl hne)).imp (fun hn => hn)
            (fun _ ht => ⟨hcounts.trans ht.1, honward.trans ht.2.1, ht.2.2⟩) fun _ hf => hf

end Grammar

namespace Cursor

variable {c : Cursor} {α : Type} {d : Int} {n k : Nat}

theorem onward_of_keeps {p : Parse α} (h : Grammar.Keeps c n k d p c) {c' : Cursor}
    {r : Except SyntaxError α} (hp : p c = some (r, c')) : c.Onward c' := by
  have hmeets := (h (.refl c)).2
  rw [show Observed.run p c = _ from hp] at hmeets
  cases r with
  | ok a => exact hmeets.above.onward
  | error e => exact Above.onward hmeets

theorem onward_expression {p : Precedence} {c' : Cursor} {r : Except SyntaxError Expr}
    (h : Parse.expression n p c = some (r, c')) : c.Onward c' :=
  onward_of_keeps ((Grammar.placesAt Parse c n).expression p c rfl) h

theorem meets_statement (n : Nat) (hc : c.current.kind ≠ .eof) :
    Meets (n < 8 * c.tokens.length + 4) (fun _ => RestsAt c.depthBefore c)
      (Above c.depthBefore c) (Parse.statement n c) :=
  ((Grammar.placesAt Parse c n).statement none c .top hc rfl (.refl c)).2

theorem onward_statement {c' : Cursor} {r : Except SyntaxError Stmt} (hc : c.current.kind ≠ .eof)
    (h : Parse.statement n c = some (r, c')) : c.Onward c' :=
  onward_of_keeps ((Grammar.placesAt Parse c n).statement none c .top hc rfl) h

/-- Any cursor may be the first in a block. -/
theorem exists_listed (c : Cursor) : ∃ b, Counts b c ∧ Listed b (some b) c := by
  obtain ⟨b, hbrace, hadvance⟩ : ∃ b : Cursor, b.current.kind = .lbrace ∧ b.advance = c :=
    ⟨⟨⟨.lbrace, ""⟩ :: c.tokens, c.depthBefore, c.errors⟩, rfl,
      congrArg (Cursor.mk c.tokens · c.errors) (Int.sub_add_cancel ..)⟩
  subst hadvance
  exact ⟨b, .advance b, .block (.refl b) hbrace⟩

theorem meets_blockStatements (n : Nat) (c : Cursor) :
    Meets (n < 8 * c.tokens.length + 5) (fun _ => ClosesAt c.depthBefore c) (fun _ => False)
      (Parse.blockStatements n c) := by
  obtain ⟨b, hcounts, hlisted⟩ := exists_listed c
  exact ((Grammar.placesAt Parse b n).blockStatements b c hlisted (.inl rfl) hcounts).2

theorem onward_blockStatements {c' : Cursor} {r : Except SyntaxError (List Stmt)}
    (h : Parse.blockStatements n c = some (r, c')) : c.Onward c' := by
  have hmeets := meets_blockStatements n c
  rw [h] at hmeets
  cases r with
  | ok ss => exact hmeets.above.onward
  | error e => exact hmeets.elim

theorem meets_programStatements (n : Nat) (c : Cursor) :
    Meets (n < 8 * c.tokens.length + 5)
      (fun _ c' => Counts c c' ∧ c.Onward c' ∧ c'.current.kind = .eof) (fun _ => False)
      (Parse.programStatements n c) :=
  (Grammar.places_programStatements Parse n .top (.refl c)).2

theorem onward_programStatements {c' : Cursor} {r : Except SyntaxError (List Stmt)}
    (h : Parse.programStatements n c = some (r, c')) : c.Onward c' := by
  have hmeets := meets_programStatements n c
  rw [h] at hmeets
  cases r with
  | ok ss => exact hmeets.2.1
  | error e => exact hmeets.elim

/-- With an allowance that the number of tokens bounds, a statement comes to an end. -/
theorem statement_ends (hc : c.current.kind ≠ .eof) :
    ∃ r c', ∀ n, c.allowance ≤ n → Parse.statement n c = some (r, c') := by
  have hmeets := meets_statement c.allowance hc
  obtain h | ⟨s, c', h⟩ | ⟨e, c', h⟩ := Run.ended (Parse.statement c.allowance c)
  · rw [h] at hmeets
    have hlt : 8 * c.tokens.length + 8 < 8 * c.tokens.length + 4 := hmeets
    omega
  · exact ⟨_, c', fun n hn => Parse.statement_mono hn h⟩
  · exact ⟨_, c', fun n hn => Parse.statement_mono hn h⟩

/-- A program is read from any cursor, to the end of its tokens. -/
theorem readProgram_spec (c : Cursor) :
    ∃ ss c', Parse.programStatements c.allowance c = some (.ok ss, c') ∧
      c.readProgram = (⟨ss⟩, c') ∧ c'.current.kind = .eof := by
  have hmeets := meets_programStatements c.allowance c
  obtain h | ⟨ss, c', h⟩ | ⟨e, c', h⟩ := Run.ended (Parse.programStatements c.allowance c) <;>
    rw [h] at hmeets
  · have hlt : 8 * c.tokens.length + 8 < 8 * c.tokens.length + 5 := hmeets
    omega
  · exact ⟨ss, c', h, by rw [readProgram, h], hmeets.2.2⟩
  · exact hmeets.elim

end Cursor
end Treewalk
