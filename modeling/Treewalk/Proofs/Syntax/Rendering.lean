import Treewalk.Proofs.Syntax.Recognition
import Treewalk.Proofs.Syntax.Soundness
import Treewalk.Proofs.Token.Spelling
import Treewalk.Syntax.Render

/-!
Canonical text is read back. Of an expression with no string, conditional or function in
it, the canonical text is read, wherever it stands in front of text that adds to no token,
as tokens that are a printing of the expression in a place of any level: operators and
indices stand in parentheses, and what does not needs none. So a program of bindings and
returns of such expressions, which may end in a bare one, has the text of no other program,
but for the start token that is kept with a bare expression.
-/

namespace Treewalk

open Token (Reads anything noAssign stops Spelled)

mutual

/-- No string, conditional or function is in the expression. -/
def Expr.isPlain : Expr → Bool
  | .name _ | .integer _ _ | .boolean _ _ => true
  | .string _ | .conditional _ _ _ _ | .function _ _ _ => false
  | .prefixed _ _ e => e.isPlain
  | .binary _ _ l r => l.isPlain && r.isPlain
  | .call _ f args => f.isPlain && arePlain args
  | .array _ es => arePlain es
  | .index _ e i => e.isPlain && i.isPlain
  | .hash _ ps => arePlainPairs ps
termination_by structural e => e

def arePlain : List Expr → Bool
  | [] => true
  | e :: es => e.isPlain && arePlain es
termination_by structural es => es

def arePlainPairs : List (Expr × Expr) → Bool
  | [] => true
  | (k, v) :: ps => k.isPlain && v.isPlain && arePlainPairs ps
termination_by structural ps => ps

end

theorem PrefixOp.reads_symbol (op : PrefixOp) {t : Token} (hop : ofKind? t.kind = some op)
    (hs : t.Spelled) : Reads noAssign op.symbol [t] := by
  obtain ⟨hsymbol, hdescribe⟩ : t.kind.isSymbol = true ∧ t.kind.describe = op.symbol := by
    revert hop
    cases t.kind <;> intro hop <;> cases hop <;> exact ⟨rfl, rfl⟩
  rw [← hdescribe]
  exact hs.reads_symbol hsymbol

theorem InfixOp.reads_symbol (op : InfixOp) {t : Token} (hop : ofKind? t.kind = some op)
    (hs : t.Spelled) : Reads noAssign op.symbol [t] := by
  obtain ⟨hsymbol, hdescribe⟩ : t.kind.isSymbol = true ∧ t.kind.describe = op.symbol := by
    revert hop
    cases t.kind <;> intro hop <;> cases hop <;> exact ⟨rfl, rfl⟩
  rw [← hdescribe]
  exact hs.reads_symbol hsymbol

namespace Expr

/-- In front of text that adds to no token the canonical text of the expression is read as
a printing of it, in a place of any level. -/
def ReadsBack (e : Expr) : Prop :=
  ∃ ts, (∀ k, Printing k e ts) ∧ Reads stops e.render ts

def ListReadsBack (es : List Expr) : Prop :=
  ∃ ts, Listing es ts ∧ Reads stops (Text.listing (renderExprs es)) ts

def PairsReadBack (ps : List (Expr × Expr)) : Prop :=
  ∃ ts, PairListing ps ts ∧ Reads stops (Text.listing (renderPairs ps)) ts

/-- The text of an expression is not empty, and adds to no symbol. -/
theorem ReadsBack.begins {e : Expr} (h : e.ReadsBack) :
    ∃ c cs, e.render.toList = c :: cs ∧ noAssign c = true := by
  obtain ⟨ts, hprinting, hreads⟩ := h
  obtain ⟨t, rest, rfl, hbegins⟩ := (hprinting anyLevel).begins
  have hall := hreads.readAll_eq
  cases htext : e.render.toList with
  | nil =>
      rw [htext, Token.readAll_of_blank List.dropWhile_nil] at hall
      cases hall
  | cons c cs =>
      refine ⟨c, cs, rfl, ?_⟩
      -- An equals sign would be read as a token that no expression begins with.
      by_contra hassign
      rw [noAssign, bne_iff_ne, not_not] at hassign
      subst hassign
      rw [htext, Token.readAll_cons rfl] at hall
      obtain ⟨rfl, -⟩ := List.cons.inj hall
      obtain hkind | hkind := Token.kind_readFrom_assign cs <;> rw [hkind] at hbegins <;>
        cases hbegins

theorem reads_opening : Reads anything "(" [⟨.lparen, "("⟩] :=
  Token.reads_alone '(' rfl (by decide)

theorem reads_closing : Reads anything "])" [⟨.rbracket, "]"⟩, ⟨.rparen, ")"⟩] :=
  (Token.reads_alone ']' rfl (by decide)).behind ')' rfl (by decide) rfl

theorem reads_comma : Reads anything ", " [⟨.comma, ","⟩] :=
  (Token.reads_alone ',' rfl (by decide)).space rfl

theorem reads_bracketed {text : String} {ts : List Token} (h : Reads stops text ts) :
    Reads anything ("[" ++ text ++ "]") (⟨.lbracket, "["⟩ :: (ts ++ [⟨.rbracket, "]"⟩])) := by
  have hopening : Reads anything "[" [⟨.lbracket, "["⟩] :=
    Token.reads_alone '[' rfl (by decide)
  exact (hopening.andThen h).behind ']' rfl (by decide) rfl

theorem reads_braced {text : String} {ts : List Token} (h : Reads stops text ts) :
    Reads anything ("\x7b" ++ text ++ "\x7d")
      (⟨.lbrace, "\x7b"⟩ :: (ts ++ [⟨.rbrace, "\x7d"⟩])) := by
  have hopening : Reads anything "\x7b" [⟨.lbrace, "\x7b"⟩] :=
    Token.reads_alone '\x7b' rfl (by decide)
  exact (hopening.andThen h).behind '\x7d' rfl (by decide) rfl

section

variable {t : Token} {e : Expr}

theorem readsBack_name (ht : t.kind = .ident) (hs : t.Spelled) : (name t).ReadsBack :=
  ⟨[t], fun _ => .name ht, hs.reads (by rw [ht]; decide)⟩

theorem readsBack_integer {n : Int64} (ht : t.kind = .int)
    (hn : integerOfDigits? t.literal = some n) (hs : t.Spelled) : (integer t n).ReadsBack :=
  ⟨[t], fun _ => .integer ht hn, hs.reads (by rw [ht]; decide)⟩

theorem readsBack_yes (ht : t.kind = .trueWord) (hs : t.Spelled) : (boolean t true).ReadsBack :=
  ⟨[t], fun _ => .yes ht, hs.reads (by rw [ht]; decide)⟩

theorem readsBack_no (ht : t.kind = .falseWord) (hs : t.Spelled) : (boolean t false).ReadsBack :=
  ⟨[t], fun _ => .no ht, hs.reads (by rw [ht]; decide)⟩

theorem readsBack_prefixed {op : PrefixOp} (hop : PrefixOp.ofKind? t.kind = some op)
    (hs : t.Spelled) (he : e.ReadsBack) : (prefixed t op e).ReadsBack := by
  -- Behind an exclamation mark the text of the operand must not begin with an equals sign.
  obtain ⟨c, cs, hhead, hc⟩ := he.begins
  obtain ⟨ts, hprinting, hreads⟩ := he
  refine ⟨⟨.lparen, "("⟩ :: (t :: ts ++ [⟨.rparen, ")"⟩]),
    fun k => .parenthesized rfl (.prefixed hop (by decide) (hprinting _)) rfl, ?_⟩
  have hall := ((reads_opening.andThen (op.reads_symbol hop hs)).append hreads hhead hc).behind
    ')' rfl (by decide) rfl
  exact hall.anywhere (by simp)

theorem readsBack_binary {op : InfixOp} {left right : Expr}
    (hop : InfixOp.ofKind? t.kind = some op) (hs : t.Spelled) (hleft : left.ReadsBack)
    (hright : right.ReadsBack) : (binary t op left right).ReadsBack := by
  obtain ⟨ls, hleft, hreadsLeft⟩ := hleft
  obtain ⟨rs, hright, hreadsRight⟩ := hright
  have hlevel : anyLevel ≤ op.level := by cases op <;> decide
  refine ⟨⟨.lparen, "("⟩ :: (ls ++ t :: rs ++ [⟨.rparen, ")"⟩]),
    fun k => .parenthesized rfl (.binary hop hlevel (hleft _) (hright _)) rfl, ?_⟩
  have hoperator := ((reads_opening.andThen hreadsLeft).space rfl).andThen
    (op.reads_symbol hop hs)
  have hall := ((hoperator.space rfl).andThen hreadsRight).behind ')' rfl (by decide) rfl
  exact hall.anywhere (by simp)

theorem readsBack_index {collection position : Expr} (ht : t.kind = .lbracket)
    (hs : t.Spelled) (hcollection : collection.ReadsBack) (hposition : position.ReadsBack) :
    (index t collection position).ReadsBack := by
  obtain ⟨cs, hcollection, hreads⟩ := hcollection
  obtain ⟨ps, hposition, hreads'⟩ := hposition
  obtain rfl := hs.eq_of_kind ht rfl
  refine ⟨⟨.lparen, "("⟩ :: ((cs ++ ⟨.lbracket, "["⟩ :: (ps ++ [⟨.rbracket, "]"⟩])) ++
    [⟨.rparen, ")"⟩]), fun k => .parenthesized rfl
      (.index (hcollection _) rfl (hposition _) rfl) rfl, ?_⟩
  have hinside := ((reads_opening.andThen hreads).behind '[' rfl (by decide) rfl).andThen hreads'
  exact (hinside.append reads_closing rfl rfl).anywhere (by simp)

theorem readsBack_call {callee : Expr} {args : List Expr} (ht : t.kind = .lparen)
    (hs : t.Spelled) (hcallee : callee.ReadsBack) (hargs : ListReadsBack args) :
    (call t callee args).ReadsBack := by
  obtain ⟨fs, hcallee, hreads⟩ := hcallee
  obtain ⟨as, hargs, hreads'⟩ := hargs
  obtain rfl := hs.eq_of_kind ht rfl
  refine ⟨fs ++ ⟨.lparen, "("⟩ :: (as ++ [⟨.rparen, ")"⟩]),
    fun k => .call (hcallee _) rfl hargs rfl, ?_⟩
  have hall := ((hreads.behind '(' rfl (by decide) rfl).andThen hreads').behind ')' rfl
    (by decide) rfl
  exact hall.anywhere (by simp)

theorem readsBack_array {es : List Expr} (ht : t.kind = .lbracket) (hs : t.Spelled)
    (hes : ListReadsBack es) : (array t es).ReadsBack := by
  obtain ⟨ts, helements, hreads⟩ := hes
  obtain rfl := hs.eq_of_kind ht rfl
  exact ⟨_, fun k => .array rfl helements rfl, (reads_bracketed hreads).anywhere rfl⟩

theorem readsBack_hash {ps : List (Expr × Expr)} (ht : t.kind = .lbrace) (hs : t.Spelled)
    (hps : PairsReadBack ps) : (hash t ps).ReadsBack := by
  obtain ⟨ts, hpairs, hreads⟩ := hps
  obtain rfl := hs.eq_of_kind ht rfl
  exact ⟨_, fun k => .hash rfl hpairs rfl, (reads_braced hreads).anywhere rfl⟩

end

theorem listReadsBack_nil : ListReadsBack [] :=
  ⟨[], .nil, Token.reads_empty.anywhere rfl⟩

theorem listReadsBack_cons {e : Expr} {es : List Expr} (he : e.ReadsBack)
    (hes : ListReadsBack es) : ListReadsBack (e :: es) := by
  obtain ⟨ts, hprinting, hreads⟩ := he
  obtain ⟨us, hlisting, hreads'⟩ := hes
  cases hlisting with
  | nil => exact ⟨ts ++ [], .cons (hprinting _) .nil, hreads.of_eq (List.append_nil ts).symm⟩
  | cons first more =>
      have hcomma : (⟨.comma, ","⟩ : Token).kind = .comma := rfl
      refine ⟨_, .cons (hprinting _) (.cons hcomma first more), ?_⟩
      have hall := (hreads.append reads_comma rfl rfl).andThen hreads'
      exact hall.of_eq (by simp)

theorem pairsReadBack_nil : PairsReadBack [] :=
  ⟨[], .nil, Token.reads_empty.anywhere rfl⟩

theorem pairsReadBack_cons {key value : Expr} {ps : List (Expr × Expr)} (hkey : key.ReadsBack)
    (hvalue : value.ReadsBack) (hps : PairsReadBack ps) : PairsReadBack ((key, value) :: ps) := by
  obtain ⟨ks, hkey, hreadsKey⟩ := hkey
  obtain ⟨vs, hvalue, hreadsValue⟩ := hvalue
  obtain ⟨us, hpairs, hreads⟩ := hps
  have hcolon : (⟨.colon, ":"⟩ : Token).kind = .colon := rfl
  have hcomma : (⟨.comma, ","⟩ : Token).kind = .comma := rfl
  have hpair := (hreadsKey.behind ':' rfl (by decide) rfl).andThen hreadsValue
  cases ps with
  | nil => exact ⟨_, .last (hkey _) hcolon (hvalue _), hpair.of_eq (by simp)⟩
  | cons p ps =>
      refine ⟨_, .cons (hkey _) hcolon (hvalue _) hcomma hpairs, ?_⟩
      exact ((hpair.append reads_comma rfl rfl).andThen hreads).of_eq (by simp)

end Expr

/-- Every token is spelled as it is read. -/
def AllSpelled (ts : List Token) : Prop :=
  ∀ t ∈ ts, t.Spelled

namespace AllSpelled

variable {t : Token} {ts us : List Token}

theorem head (h : AllSpelled (t :: ts)) : t.Spelled :=
  h t List.mem_cons_self

theorem tail (h : AllSpelled (t :: ts)) : AllSpelled ts :=
  fun u hu => h u (List.mem_cons_of_mem _ hu)

theorem left (h : AllSpelled (ts ++ us)) : AllSpelled ts :=
  fun u hu => h u (List.mem_append_left _ hu)

theorem right (h : AllSpelled (ts ++ us)) : AllSpelled us :=
  fun u hu => h u (List.mem_append_right _ hu)

end AllSpelled

mutual

theorem Expr.Printing.readsBack {k : Nat} {e : Expr} {ts : List Token} :
    Expr.Printing k e ts → e.isPlain = true → AllSpelled ts → e.ReadsBack
  | .name ht, _, hs => Expr.readsBack_name ht hs.head
  | .integer ht hn, _, hs => Expr.readsBack_integer ht hn hs.head
  | .yes ht, _, hs => Expr.readsBack_yes ht hs.head
  | .no ht, _, hs => Expr.readsBack_no ht hs.head
  | .prefixed hop _ operand, hplain, hs =>
      Expr.readsBack_prefixed hop hs.head (operand.readsBack hplain hs.tail)
  | .binary hop _ hleft hright, hplain, hs => by
      obtain ⟨hl, hr⟩ := Bool.and_eq_true_iff.1 hplain
      exact Expr.readsBack_binary hop hs.right.head (hleft.readsBack hl hs.left)
        (hright.readsBack hr hs.right.tail)
  | .call hcallee ht hargs _, hplain, hs => by
      obtain ⟨hf, ha⟩ := Bool.and_eq_true_iff.1 hplain
      exact Expr.readsBack_call ht hs.right.head (hcallee.readsBack hf hs.left)
        (hargs.readsBack ha hs.right.tail.left)
  | .array ht helements _, hplain, hs =>
      Expr.readsBack_array ht hs.head (helements.readsBack hplain hs.tail.left)
  | .index hcollection ht hposition _, hplain, hs => by
      obtain ⟨hc, hp⟩ := Bool.and_eq_true_iff.1 hplain
      exact Expr.readsBack_index ht hs.right.head (hcollection.readsBack hc hs.left)
        (hposition.readsBack hp hs.right.tail.left)
  | .hash ht hpairs _, hplain, hs =>
      Expr.readsBack_hash ht hs.head (hpairs.readsBack hplain hs.tail.left)
  | .parenthesized _ inside _, hplain, hs => inside.readsBack hplain hs.tail.left
  | .string _, hplain, _ | .conditional .., hplain, _ | .alternative .., hplain, _
  | .function .., hplain, _ => nomatch hplain

theorem Expr.Listing.readsBack {es : List Expr} {ts : List Token} :
    Expr.Listing es ts → arePlain es = true → AllSpelled ts → Expr.ListReadsBack es
  | .nil, _, _ => Expr.listReadsBack_nil
  | .cons first more, hplain, hs => by
      obtain ⟨he, hes⟩ := Bool.and_eq_true_iff.1 hplain
      exact Expr.listReadsBack_cons (first.readsBack he hs.left) (more.readsBack hes hs.right)

theorem Expr.MoreListing.readsBack {es : List Expr} {ts : List Token} :
    Expr.MoreListing es ts → arePlain es = true → AllSpelled ts → Expr.ListReadsBack es
  | .nil, _, _ => Expr.listReadsBack_nil
  | .cons _ first more, hplain, hs => by
      obtain ⟨he, hes⟩ := Bool.and_eq_true_iff.1 hplain
      exact Expr.listReadsBack_cons (first.readsBack he hs.tail.left)
        (more.readsBack hes hs.tail.right)

theorem Expr.PairListing.readsBack {ps : List (Expr × Expr)} {ts : List Token} :
    Expr.PairListing ps ts → arePlainPairs ps = true → AllSpelled ts → Expr.PairsReadBack ps
  | .nil, _, _ => Expr.pairsReadBack_nil
  | .last hkey _ hvalue, hplain, hs => by
      obtain ⟨hpair, hps⟩ := Bool.and_eq_true_iff.1 hplain
      obtain ⟨hk, hv⟩ := Bool.and_eq_true_iff.1 hpair
      exact Expr.pairsReadBack_cons (hkey.readsBack hk hs.left)
        (hvalue.readsBack hv hs.right.tail) Expr.pairsReadBack_nil
  | .cons hkey _ hvalue _ more, hplain, hs => by
      obtain ⟨hpair, hps⟩ := Bool.and_eq_true_iff.1 hplain
      obtain ⟨hk, hv⟩ := Bool.and_eq_true_iff.1 hpair
      exact Expr.pairsReadBack_cons (hkey.readsBack hk hs.left)
        (hvalue.readsBack hv hs.right.tail.left) (more.readsBack hps hs.right.tail.right.tail)

end

/-! Programs. -/

namespace Stmt

/-- The statement is an expression by itself. -/
def isBare : Stmt → Bool
  | bind _ _ _ | ret _ _ => false
  | expr _ _ => true

/-- The canonical text of the statements is read, wherever it stands, as tokens that are a
printing of them in front of any other statements. -/
def SequenceReadsBack (ss : List Stmt) : Prop :=
  ∃ ts, (∀ rest us, Sequence rest us → Sequence (ss ++ rest) (ts ++ us)) ∧
    Reads anything (renderStmts ss) ts

theorem Sequence.exists_printing {ss : List Stmt} {ts : List Token} {s : Stmt} :
    Sequence ss ts → s ∈ ss → ∃ us, Printing s us ∧ us ⊆ ts
  | .ended first _ more, h => by
      cases h with
      | head => exact ⟨_, first, List.subset_append_left ..⟩
      | tail _ h =>
          obtain ⟨us, hprinting, hsubset⟩ := more.exists_printing h
          exact ⟨us, hprinting, fun t ht =>
            List.mem_append_right _ (List.mem_cons_of_mem _ (hsubset ht))⟩
  | .bare first _ more, h => by
      cases h with
      | head => exact ⟨_, first, List.subset_append_left ..⟩
      | tail _ h =>
          obtain ⟨us, hprinting, hsubset⟩ := more.exists_printing h
          exact ⟨us, hprinting, fun t ht => List.mem_append_right _ (hsubset ht)⟩

theorem reads_assign : Reads anything " = " [⟨.assign, "="⟩] :=
  (Token.reads_space.andThen (Token.reads_char '=' rfl)).space rfl

/-- A binding or a return is read back, with the semicolon behind it. -/
theorem Printing.readsBack {s : Stmt} {us : List Token} (h : Printing s us)
    (hbare : s.isBare = false) (hplain : s.value.isPlain = true) (hs : AllSpelled us) :
    ∃ ts, Printing s ts ∧ Reads anything s.render (ts ++ [⟨.semicolon, ";"⟩]) := by
  cases h with
  | @bind t target assign value vs ht htarget hassign hvalue =>
      obtain ⟨ts, hprinting, hreads⟩ := hvalue.readsBack hplain hs.tail.tail.tail
      have hassign : (⟨.assign, "="⟩ : Token).kind = .assign := rfl
      refine ⟨_, .bind ht htarget hassign (hprinting _), ?_⟩
      have hlet : Reads stops t.literal [t] := hs.head.reads (by rw [ht]; decide)
      have hname : Reads stops target.literal [target] :=
        hs.tail.head.reads (by rw [htarget]; decide)
      have hbound := ((hlet.space rfl).andThen hname).append reads_assign rfl rfl
      exact ((hbound.andThen hreads).behind ';' rfl (by decide) rfl).of_eq (by simp)
  | @ret t value vs ht hvalue =>
      obtain ⟨ts, hprinting, hreads⟩ := hvalue.readsBack hplain hs.tail
      refine ⟨_, .ret ht (hprinting _), ?_⟩
      have hword : Reads stops t.literal [t] := hs.head.reads (by rw [ht]; decide)
      exact (((hword.space rfl).andThen hreads).behind ';' rfl (by decide) rfl).of_eq (by simp)
  | expr => cases hbare

theorem sequenceReadsBack {ss : List Stmt}
    (h : ∀ s ∈ ss,
      s.isBare = false ∧ s.value.isPlain = true ∧ ∃ us, Printing s us ∧ AllSpelled us) :
    SequenceReadsBack ss := by
  induction ss with
  | nil => exact ⟨[], fun _ _ hrest => hrest, Token.reads_empty⟩
  | cons s ss ih =>
      obtain ⟨hbare, hplain, us, hprinting, hs⟩ := h s List.mem_cons_self
      obtain ⟨ts, hfirst, hreads⟩ := hprinting.readsBack hbare hplain hs
      obtain ⟨ms, hmore, hreads'⟩ := ih fun s hs => h s (List.mem_cons_of_mem _ hs)
      refine ⟨_, fun rest us hrest => ?_, hreads.andThen hreads'⟩
      have hsemicolon : (⟨.semicolon, ";"⟩ : Token).kind = .semicolon := rfl
      have hall := Sequence.ended hfirst hsemicolon (hmore rest us hrest)
      rwa [List.append_assoc, List.append_assoc, List.singleton_append]

end Stmt

namespace Program

/-- The programs of plain expressions in which only the last statement may be bare. -/
structure IsPlain (p : Program) : Prop where
  values : ∀ s ∈ p.statements, s.value.isPlain = true
  ended : ∀ s ∈ p.statements.dropLast, s.isBare = false

/-- The programs are the same, but for the start token of an expression that ends them. -/
def SameButLastStart (p q : Program) : Prop :=
  p = q ∨ ∃ ss t u e, p = ⟨ss ++ [.expr t e]⟩ ∧ q = ⟨ss ++ [.expr u e]⟩

namespace SameButLastStart

variable {p q r : Program}

theorem symm (h : p.SameButLastStart q) : q.SameButLastStart p := by
  obtain rfl | ⟨ss, t, u, e, rfl, rfl⟩ := h
  · exact .inl rfl
  · exact .inr ⟨ss, u, t, e, rfl, rfl⟩

theorem trans (h : p.SameButLastStart q) (k : q.SameButLastStart r) : p.SameButLastStart r := by
  obtain rfl | ⟨ss, t, u, e, rfl, rfl⟩ := h
  · exact k
  obtain rfl | ⟨ss', u', v, e', heq, rfl⟩ := k
  · exact .inr ⟨ss, t, u, e, rfl, rfl⟩
  · obtain ⟨rfl, hlast⟩ := List.append_inj' (congrArg statements heq) rfl
    cases hlast
    exact .inr ⟨ss, t, v, e, rfl, rfl⟩

end SameButLastStart

end Program

theorem renderStmts_append (ss rest : List Stmt) :
    renderStmts (ss ++ rest) = renderStmts ss ++ renderStmts rest := by
  induction ss with
  | nil => exact (String.empty_append).symm
  | cons s ss ih =>
      rw [List.cons_append, renderStmts, renderStmts, ih, String.append_assoc]

/-- Expressions that are read back are the same if their texts are. -/
theorem Expr.ReadsBack.eq_of_render {e f : Expr} (he : e.ReadsBack) (hf : f.ReadsBack)
    (h : e.render = f.render) : e = f := by
  obtain ⟨ts, hprinting, hreads⟩ := he
  obtain ⟨us, hprinting', hreads'⟩ := hf
  obtain rfl : ts = us := by rw [← hreads.readAll_eq, h, hreads'.readAll_eq]
  obtain ⟨t, rest, rfl, -⟩ := (hprinting Expr.anyLevel).begins
  have hone : ∀ {g : Expr}, Expr.Printing Expr.anyLevel g (t :: rest) →
      Program.ofTokens (t :: rest ++ []) = (⟨[.expr t g]⟩, []) :=
    fun hg => Program.ofTokens_of_printing (.bare (.expr hg) nofun .nil)
  cases (hone (hprinting _)).symm.trans (hone (hprinting' _))
  rfl

namespace Program

variable {p : Program} {source : String}

theorem exists_printing (h : ofText source = (p, [])) {s : Stmt} (hs : s ∈ p.statements) :
    ∃ us, Stmt.Printing s us ∧ AllSpelled us := by
  have hprinting : p.Printing (Token.scan source) :=
    printing_of_ofTokens (fun _ => Token.kind_ne_eof_of_mem_readAll) h
  obtain ⟨us, hprinted, hsubset⟩ := hprinting.exists_printing hs
  exact ⟨us, hprinted, fun t ht => Token.spelled_of_mem_readAll (hsubset ht)⟩

/-- The expressions of a plain program that is read from a text are read back. -/
theorem value_readsBack (h : ofText source = (p, [])) (hplain : p.IsPlain) {s : Stmt}
    (hs : s ∈ p.statements) : s.value.ReadsBack := by
  obtain ⟨us, hprinting, hspelled⟩ := exists_printing h hs
  have hvalue := hplain.values s hs
  cases hprinting with
  | bind _ _ _ hprinting => exact hprinting.readsBack hvalue hspelled.tail.tail.tail
  | ret _ hprinting => exact hprinting.readsBack hvalue hspelled.tail
  | expr hprinting => exact hprinting.readsBack hvalue hspelled

/-- Statements that are all ended come from their text as they are. -/
theorem ofText_render_of_ended (h : ofText source = (p, [])) (hplain : p.IsPlain)
    (hended : ∀ s ∈ p.statements, s.isBare = false) : ofText p.render = (p, []) := by
  obtain ⟨ts, hsequence, hreads⟩ : Stmt.SequenceReadsBack p.statements :=
    Stmt.sequenceReadsBack fun s hs => ⟨hended s hs, hplain.values s hs, exists_printing h hs⟩
  have hprinting := hsequence [] [] .nil
  rw [List.append_nil, List.append_nil] at hprinting
  rw [ofText, Token.scan, render, hreads.readAll_eq]
  exact ofTokens_of_printing hprinting

/-- A bare expression that ends the statements starts with the first token of its text. -/
theorem ofText_render_of_bare {ss : List Stmt} {t : Token} {e : Expr}
    (h : ofText source = (⟨ss ++ [.expr t e]⟩, [])) (hplain : IsPlain ⟨ss ++ [.expr t e]⟩) :
    ∃ u, ofText (render ⟨ss ++ [.expr t e]⟩) = (⟨ss ++ [.expr u e]⟩, []) := by
  have hended : ∀ s ∈ ss, s.isBare = false := by
    have hdrop := hplain.ended
    rwa [List.dropLast_concat] at hdrop
  obtain ⟨ts, hsequence, hreads⟩ : Stmt.SequenceReadsBack ss :=
    Stmt.sequenceReadsBack fun s hs =>
      have hmem := List.mem_append_left [Stmt.expr t e] hs
      ⟨hended s hs, hplain.values s hmem, exists_printing h hmem⟩
  obtain ⟨us, hprinting, hreads'⟩ : e.ReadsBack :=
    value_readsBack h hplain (List.mem_append_right ss List.mem_cons_self)
  obtain ⟨u, rest, rfl, -⟩ := (hprinting Expr.anyLevel).begins
  have hlast : Stmt.Sequence [.expr u e] (u :: rest ++ []) :=
    .bare (.expr (hprinting _)) nofun .nil
  have htext : render ⟨ss ++ [.expr t e]⟩ = renderStmts ss ++ e.render := by
    rw [render, renderStmts_append, renderStmts, renderStmts, Stmt.render, String.append_empty]
  refine ⟨u, ?_⟩
  rw [ofText, Token.scan, htext, (hreads.andThen hreads').readAll_eq]
  rw [List.append_nil] at hlast
  exact ofTokens_of_printing (hsequence _ _ hlast)

theorem IsPlain.ended_or_bare (h : p.IsPlain) :
    (∀ s ∈ p.statements, s.isBare = false) ∨ ∃ ss t e, p = ⟨ss ++ [.expr t e]⟩ := by
  obtain ⟨statements⟩ := p
  obtain rfl | ⟨ss, last, rfl⟩ := List.eq_nil_or_concat statements
  · exact .inl nofun
  · rw [List.concat_eq_append] at h ⊢
    have hdrop := h.ended
    rw [List.dropLast_concat] at hdrop
    cases last with
    | expr t e => exact .inr ⟨ss, t, e, rfl⟩
    | bind | ret =>
        refine .inl fun s hs => ?_
        obtain hs | hs := List.mem_append.1 hs
        · exact hdrop s hs
        · rw [List.mem_singleton.1 hs]
          rfl

theorem exists_readBack (h : ofText source = (p, [])) (hplain : p.IsPlain) :
    ∃ q, ofText p.render = (q, []) ∧ p.SameButLastStart q := by
  obtain hended | ⟨ss, t, e, rfl⟩ := hplain.ended_or_bare
  · exact ⟨p, ofText_render_of_ended h hplain hended, .inl rfl⟩
  · obtain ⟨u, hread⟩ := ofText_render_of_bare h hplain
    exact ⟨_, hread, .inr ⟨ss, t, u, e, rfl, rfl⟩⟩

/-- Canonical text is faithful to plain programs. A plain program that is read without an
error from some text is read back from its own, without an error and with the same
statements, but for the start token of an expression that ends it; and no other has its
text. No two different expressions have one text, whichever programs they are in. -/
theorem render_faithful :
    (∀ source p, ofText source = (p, []) → p.IsPlain →
      ∃ q, ofText p.render = (q, []) ∧ p.SameButLastStart q) ∧
    ∀ source other p q, ofText source = (p, []) → ofText other = (q, []) →
      p.IsPlain → q.IsPlain →
      (p.render = q.render → p.SameButLastStart q) ∧
      ∀ s ∈ p.statements, ∀ s' ∈ q.statements,
        s.value.render = s'.value.render → s.value = s'.value := by
  refine ⟨fun source p h hplain => exists_readBack h hplain,
    fun source other p q hp hq hplain hplain' => ⟨fun heq => ?_, fun s hs s' hs' heq => ?_⟩⟩
  · obtain ⟨r, hread, hsame⟩ := exists_readBack hp hplain
    obtain ⟨r', hread', hsame'⟩ := exists_readBack hq hplain'
    rw [heq] at hread
    cases hread.symm.trans hread'
    exact hsame.trans hsame'.symm
  · exact (value_readsBack hp hplain hs).eq_of_render (value_readsBack hq hplain' hs') heq

/-- Two sources of one text, which differ in the token that the last expression starts with. -/
theorem render_faithful_parentheses :
    let binding := Stmt.bind ⟨.letWord, "let"⟩ ⟨.ident, "x"⟩
      (.prefixed ⟨.minus, "-"⟩ .negate
        (.index ⟨.lbracket, "["⟩ (.name ⟨.ident, "a"⟩) (.integer ⟨.int, "0"⟩ 0)))
    let last := Expr.binary ⟨.eq, "=="⟩ .equal
      (.call ⟨.lparen, "("⟩ (.name ⟨.ident, "f"⟩) [.name ⟨.ident, "x"⟩]) (.name ⟨.ident, "x"⟩)
    let p : Program := ⟨[binding, .expr ⟨.ident, "f"⟩ last]⟩
    let q : Program := ⟨[binding, .expr ⟨.lparen, "("⟩ last]⟩
    ofText "let x = -a[0]; f(x) == x" = (p, []) ∧ ofText "let x = -a[0]; (f(x) == x)" = (q, []) ∧
      p.IsPlain ∧ q.IsPlain ∧ p.render = q.render ∧ p.SameButLastStart q ∧
      ∃ r, ofText p.render = (r, []) ∧ p.SameButLastStart r := by
  intro binding last p q
  have hscan : Token.scan "let x = -a[0]; f(x) == x" =
      [⟨.letWord, "let"⟩, ⟨.ident, "x"⟩, ⟨.assign, "="⟩, ⟨.minus, "-"⟩, ⟨.ident, "a"⟩,
        ⟨.lbracket, "["⟩, ⟨.int, "0"⟩, ⟨.rbracket, "]"⟩, ⟨.semicolon, ";"⟩, ⟨.ident, "f"⟩,
        ⟨.lparen, "("⟩, ⟨.ident, "x"⟩, ⟨.rparen, ")"⟩, ⟨.eq, "=="⟩, ⟨.ident, "x"⟩] := by
    decide +kernel
  have hscan' : Token.scan "let x = -a[0]; (f(x) == x)" =
      [⟨.letWord, "let"⟩, ⟨.ident, "x"⟩, ⟨.assign, "="⟩, ⟨.minus, "-"⟩, ⟨.ident, "a"⟩,
        ⟨.lbracket, "["⟩, ⟨.int, "0"⟩, ⟨.rbracket, "]"⟩, ⟨.semicolon, ";"⟩, ⟨.lparen, "("⟩,
        ⟨.ident, "f"⟩, ⟨.lparen, "("⟩, ⟨.ident, "x"⟩, ⟨.rparen, ")"⟩, ⟨.eq, "=="⟩,
        ⟨.ident, "x"⟩, ⟨.rparen, ")"⟩] := by
    decide +kernel
  have hp : ofText "let x = -a[0]; f(x) == x" = (p, []) := by
    rw [ofText, hscan]
    rfl
  have hq : ofText "let x = -a[0]; (f(x) == x)" = (q, []) := by
    rw [ofText, hscan']
    rfl
  have hplain (t : Token) : IsPlain ⟨[binding, .expr t last]⟩ :=
    ⟨List.forall_mem_cons.2 ⟨rfl, List.forall_mem_singleton.2 rfl⟩,
      List.forall_mem_singleton.2 rfl⟩
  obtain ⟨hback, hunique⟩ := render_faithful
  obtain ⟨hsame, -⟩ := hunique _ _ p q hp hq (hplain _) (hplain _)
  exact ⟨hp, hq, hplain _, hplain _, rfl, hsame rfl, hback _ p hp (hplain _)⟩

end Program
end Treewalk
