import Mathlib.Data.List.Forall2
import Treewalk.Proofs.Evaluation.Steps
import Treewalk.Proofs.Syntax.Refusal
import Treewalk.Proofs.Syntax.Rendering
import Treewalk.Proofs.Value.Alike
import Treewalk.Proofs.Value.Data

/-!
Data from its text. What a program prints of data is read as an expression that evaluates
to the data again and does nothing else. The smallest integer is the exception: it is
written as the negation of a number that is no integer. So a text with that integer
anywhere in it is refused, and every other is read back.
-/

namespace Treewalk

open Token (Reads anything stops)

namespace Expr

/-- Evaluating the expression yields the value and does nothing else, unless it is asked to
stop. -/
def Denotes (e : Expr) (v : Value) : Prop :=
  ∀ policy call, (evalExpr policy call e).Yields v

/-- The tokens are a printing of a key and its value. -/
inductive PairPrinting : Expr × Expr → List Token → Prop where
  | intro {key value : Expr} {colon : Token} {ks vs : List Token}
      (hkey : Printing anyLevel key ks) (hcolon : colon.kind = .colon)
      (hvalue : Printing anyLevel value vs) : PairPrinting (key, value) (ks ++ colon :: vs)

/-- The expressions of a pair denote the key and the value of an entry. -/
def PairDenotes (p : Expr × Expr) (entry : HashKey × Value) : Prop :=
  p.1.Denotes entry.1.toValue ∧ p.2.Denotes entry.2

end Expr

section Denotes

variable {policy : Reclamation} {call : Value → List Value → Eval Value}

theorem evalExprs_of_denotes {es : List Expr} {vs : List Value}
    (h : List.Forall₂ Expr.Denotes es vs) : (evalExprs policy call es).Yields vs := by
  induction h with
  | nil => exact Eval.yields_pure []
  | cons hv _ ih => exact (hv policy call).bind (ih.bind (Eval.yields_pure _))

/-- The entries come behind those that are there, if all keys are different. -/
theorem evalPairs_of_denotes {ps : List (Expr × Expr)} {entries : List (HashKey × Value)}
    (h : List.Forall₂ Expr.PairDenotes ps entries) (before : List (HashKey × Value))
    (hkeys : (Entries.keys (before ++ entries)).Nodup) :
    (evalPairs policy call ps before).Yields (before ++ entries) := by
  induction h generalizing before with
  | nil =>
      rw [List.append_nil]
      exact Eval.yields_pure before
  | @cons p entry ps entries hpair _ ih =>
      obtain ⟨key, value⟩ := p
      obtain ⟨k, v⟩ := entry
      obtain ⟨hkey, hvalue⟩ := hpair
      have hnew : k ∉ Entries.keys before := by
        rw [Entries.keys, List.map_append, List.map_cons] at hkeys
        have hdistinct := (List.nodup_append.1 hkeys).2.2
        exact fun hmem => hdistinct k hmem k List.mem_cons_self rfl
      rw [List.append_cons] at hkeys ⊢
      rw [evalPairs]
      refine (hkey policy call).bind ?_
      rw [HashKey.ofValue?_toValue]
      refine (hvalue policy call).bind ?_
      rw [Entries.put_of_notMem hnew]
      exact ih _ hkeys

end Denotes

namespace Expr

theorem denotes_integer (t : Token) (n : Int64) : (integer t n).Denotes (.integer n) :=
  fun _ _ => (Eval.yields_pure _).unlessInterrupted

theorem denotes_boolean (t : Token) (b : Bool) : (boolean t b).Denotes (.boolean b) :=
  fun _ _ => (Eval.yields_pure _).unlessInterrupted

theorem denotes_negated {e : Expr} {n : Int64} (t : Token) (h : e.Denotes (.integer n)) :
    (prefixed t .negate e).Denotes (.integer (-n)) := by
  intro policy call
  rw [evalExpr]
  exact Eval.Yields.unlessInterrupted ((h policy call).bind (Eval.yields_pure _))

theorem denotes_array {es : List Expr} {vs : List Value} (t : Token)
    (h : List.Forall₂ Denotes es vs) : (array t es).Denotes (.array vs) := by
  intro policy call
  rw [evalExpr]
  exact Eval.Yields.unlessInterrupted ((evalExprs_of_denotes h).bind (Eval.yields_pure _))

theorem denotes_hash {ps : List (Expr × Expr)} {entries : List (HashKey × Value)} (t : Token)
    (h : List.Forall₂ PairDenotes ps entries) (hkeys : (Entries.keys entries).Nodup) :
    (hash t ps).Denotes (.hash entries) := by
  intro policy call
  rw [evalExpr]
  exact Eval.Yields.unlessInterrupted
    ((evalPairs_of_denotes h [] hkeys).bind (Eval.yields_pure _))

end Expr

theorem HashKey.inspect_toValue (k : HashKey) : k.toValue.inspect = k.inspect := by
  cases k <;> rfl

/-- What is reported where the smallest integer is written. -/
def SyntaxError.beyondIntegers : SyntaxError :=
  .integerOutOfRange "9223372036854775808"

namespace Text
namespace Decimal

theorem reads_ofNat (k : Nat) : Reads stops (ofNat k) [⟨.int, ofNat k⟩] := by
  have hdigits : ∀ c ∈ Nat.toDigits 10 k, c.isDigit = true := fun _ =>
    Nat.isDigit_of_mem_toDigits (by decide) (by decide)
  rw [ofNat]
  obtain ⟨c, cs, hcons⟩ := List.exists_cons_of_ne_nil (Nat.toDigits_ne_nil (n := k) (b := 10))
  rw [hcons] at hdigits ⊢
  exact Token.reads_number (hdigits c List.mem_cons_self) fun d hd =>
    hdigits d (List.mem_cons_of_mem c hd)

theorem integerOfDigits?_ofNat (k : Nat) :
    integerOfDigits? (ofNat k) =
      if k ≤ 0x7fffffffffffffff then some (Int64.ofNat k) else none := by
  rw [integerOfDigits?, ofNat, String.toList_ofList, valueOfDigits_toDigits]

end Decimal
end Text

namespace Value

open Treewalk.Expr (Printing Listing PairListing Refused ListRefused PairsRefused Denotes
  PairDenotes)

-- Reading back and refusing are one statement of the induction: a part is known to be
-- refused behind other parts only if those are read, so each step needs both outcomes of each.

/-- The text of the value is read, wherever it stands, as tokens that are a printing of an
expression that denotes the value; if the smallest integer is in it they are refused. -/
def ReadBack (v : Value) : Prop :=
  ∃ ts, Reads stops v.inspect ts ∧
    ((¬ v.HasInteger Int64.minValue ∧ ∃ e, Printing Expr.anyLevel e ts ∧ e.Denotes v) ∨
      v.HasInteger Int64.minValue ∧ Refused .beyondIntegers ts)

/-- The same of the items of an array, without its brackets. -/
def ItemsReadBack (vs : List Value) : Prop :=
  ∃ ts, Reads stops (Text.listing (inspectItems vs)) ts ∧
    (((∀ v ∈ vs, ¬ v.HasInteger Int64.minValue) ∧
        ∃ es, Listing es ts ∧ List.Forall₂ Denotes es vs) ∨
      (∃ v ∈ vs, v.HasInteger Int64.minValue) ∧ ListRefused .beyondIntegers ts)

/-- The tokens of a key and its value are a printing of two expressions that denote these;
or no hash that begins with them is read. -/
def EntryReadBack (entry : HashKey × Value) : Prop :=
  ∃ ts, Reads stops (entry.1.inspect ++ ": " ++ entry.2.inspect) ts ∧
    ((¬ EntryHas Int64.minValue entry ∧ ∃ p, Expr.PairPrinting p ts ∧ PairDenotes p entry) ∨
      EntryHas Int64.minValue entry ∧ ∀ more, PairsRefused .beyondIntegers (ts ++ more))

/-- The same of the entries of a hash, without its braces. -/
def EntriesReadBack (entries : List (HashKey × Value)) : Prop :=
  ∃ ts, Reads stops (Text.listing (inspectEntries entries)) ts ∧
    (((∀ entry ∈ entries, ¬ EntryHas Int64.minValue entry) ∧
        ∃ ps, PairListing ps ts ∧ List.Forall₂ PairDenotes ps entries) ∨
      (∃ entry ∈ entries, EntryHas Int64.minValue entry) ∧ PairsRefused .beyondIntegers ts)

theorem reads_colon : Reads anything ": " [⟨.colon, ":"⟩] :=
  (Token.reads_alone ':' rfl (by decide)).space rfl

theorem readBack_boolean (b : Bool) : (boolean b).ReadBack := by
  cases b with
  | true =>
      have hreads : Reads stops (String.ofList ['t', 'r', 'u', 'e']) [⟨.trueWord, "true"⟩] :=
        Token.reads_word (by decide) (List.all_eq_true.1 rfl)
      exact ⟨_, hreads, .inl ⟨nofun, _, .yes rfl, Expr.denotes_boolean _ true⟩⟩
  | false =>
      have hreads : Reads stops (String.ofList ['f', 'a', 'l', 's', 'e'])
          [⟨.falseWord, "false"⟩] :=
        Token.reads_word (by decide) (List.all_eq_true.1 rfl)
      exact ⟨_, hreads, .inl ⟨nofun, _, .no rfl, Expr.denotes_boolean _ false⟩⟩

theorem readBack_natural {n : Int64} {k : Nat} (hn : n.toInt = k) : (integer n).ReadBack := by
  have hreads : Reads stops (integer n).inspect [⟨.int, Text.Decimal.ofNat k⟩] := by
    rw [inspect, hn]
    exact Text.Decimal.reads_ofNat k
  have hupper := n.toInt_lt
  have hk : k ≤ 0x7fffffffffffffff := by omega
  have hvalue : n = Int64.ofNat k := by rw [← Int64.ofInt_eq_ofNat, ← hn, n.ofInt_toInt]
  have hdigits : integerOfDigits? (Text.Decimal.ofNat k) = some n := by
    rw [Text.Decimal.integerOfDigits?_ofNat, if_pos hk, hvalue]
  have hmin : ¬ (integer n).HasInteger Int64.minValue := by
    rw [hasInteger_integer_iff]
    rintro rfl
    rw [Int64.toInt_minValue] at hn
    omega
  exact ⟨_, hreads, .inl ⟨hmin, _, .integer rfl hdigits, Expr.denotes_integer _ n⟩⟩

theorem readBack_negative {n : Int64} {k : Nat} (hn : n.toInt = Int.negSucc k) :
    (integer n).ReadBack := by
  have hreads : Reads stops (integer n).inspect
      [⟨.minus, "-"⟩, ⟨.int, Text.Decimal.ofNat (k + 1)⟩] := by
    rw [inspect, hn]
    exact (Token.reads_alone '-' rfl (by decide)).andThen (Text.Decimal.reads_ofNat (k + 1))
  have hlower := n.le_toInt
  refine ⟨_, hreads, ?_⟩
  rw [hasInteger_integer_iff]
  by_cases hk : k + 1 ≤ 0x7fffffffffffffff
  · have hmin : n ≠ Int64.minValue := by
      rintro rfl
      rw [Int64.toInt_minValue] at hn
      omega
    have hneg : -((k + 1 : Nat) : Int) = n.toInt := by
      rw [hn]
      rfl
    have hvalue : n = -Int64.ofNat (k + 1) := by
      rw [← Int64.ofInt_eq_ofNat, ← Int64.ofInt_neg, hneg, n.ofInt_toInt]
    have hdigits : integerOfDigits? (Text.Decimal.ofNat (k + 1)) = some (Int64.ofNat (k + 1)) := by
      rw [Text.Decimal.integerOfDigits?_ofNat, if_pos hk]
    refine .inl ⟨hmin, _, .prefixed rfl (by decide) (.integer rfl hdigits), ?_⟩
    rw [hvalue]
    exact Expr.denotes_negated _ (Expr.denotes_integer _ _)
  · obtain rfl : k = 0x7fffffffffffffff := by omega
    have hmin : n = Int64.minValue := by
      rw [← Int64.toInt_inj, Int64.toInt_minValue, hn]
      rfl
    have hliteral : Text.Decimal.ofNat 0x8000000000000000 = "9223372036854775808" := by
      decide +kernel
    have hdigits : integerOfDigits? "9223372036854775808" = none := by decide +kernel
    have hbeyond : Refused .beyondIntegers [⟨.int, "9223372036854775808"⟩] :=
      Expr.refused_integer (t := ⟨.int, "9223372036854775808"⟩) rfl hdigits
    exact .inr ⟨hmin, hliteral ▸ Expr.refused_negated rfl hbeyond⟩

theorem readBack_integer (n : Int64) : (integer n).ReadBack := by
  cases hn : n.toInt with
  | ofNat k => exact readBack_natural hn
  | negSucc k => exact readBack_negative hn

theorem itemsReadBack_nil : ItemsReadBack [] :=
  ⟨[], Token.reads_empty.anywhere rfl, .inl ⟨nofun, [], .nil, .nil⟩⟩

theorem itemsReadBack_cons {v : Value} {vs : List Value} (hv : v.ReadBack)
    (hvs : ItemsReadBack vs) : ItemsReadBack (v :: vs) := by
  obtain ⟨ts, hreads, hfirst⟩ := hv
  obtain ⟨us, hreadsMore, hmore⟩ := hvs
  cases vs with
  | nil =>
      refine ⟨ts ++ [], hreads.of_eq (List.append_nil ts).symm, ?_⟩
      obtain ⟨hnone, e, hprinting, hdenotes⟩ | ⟨hsome, hrefused⟩ := hfirst
      · exact .inl ⟨List.forall_mem_singleton.2 hnone, [e], .cons hprinting .nil,
          .cons hdenotes .nil⟩
      · exact .inr ⟨⟨v, List.mem_singleton_self v, hsome⟩, Expr.listRefused_first hrefused []⟩
  | cons w ws =>
      have hcomma : (⟨.comma, ","⟩ : Token).kind = .comma := rfl
      have hall := (hreads.append Expr.reads_comma rfl rfl).andThen hreadsMore
      refine ⟨ts ++ ⟨.comma, ","⟩ :: us, hall.of_eq (by simp), ?_⟩
      obtain ⟨hnone, e, hprinting, hdenotes⟩ | ⟨hsome, hrefused⟩ := hfirst
      · obtain ⟨hnone', es, hlisting, hdenotes'⟩ | ⟨⟨x, hx, hsome⟩, hrefused⟩ := hmore
        · cases hlisting with
          | nil => cases hdenotes'
          | cons second rest =>
              exact .inl ⟨List.forall_mem_cons.2 ⟨hnone, hnone'⟩, _,
                .cons hprinting (.cons hcomma second rest), .cons hdenotes hdenotes'⟩
        · exact .inr ⟨⟨x, List.mem_cons_of_mem v hx, hsome⟩,
            Expr.listRefused_more hprinting hcomma hrefused⟩
      · exact .inr ⟨⟨v, List.mem_cons_self, hsome⟩, Expr.listRefused_first hrefused _⟩

theorem readBack_array {vs : List Value} (h : ItemsReadBack vs) : (array vs).ReadBack := by
  obtain ⟨ts, hreads, hitems⟩ := h
  refine ⟨_, (Expr.reads_bracketed hreads).anywhere rfl, ?_⟩
  rw [hasInteger_array_iff]
  obtain ⟨hnone, es, hlisting, hdenotes⟩ | ⟨hsome, hrefused⟩ := hitems
  · exact .inl ⟨fun ⟨v, hv, hin⟩ => hnone v hv hin, _, .array rfl hlisting rfl,
      Expr.denotes_array _ hdenotes⟩
  · exact .inr ⟨hsome, Expr.refused_array rfl hrefused _⟩

theorem entriesReadBack_nil : EntriesReadBack [] :=
  ⟨[], Token.reads_empty.anywhere rfl, .inl ⟨nofun, [], .nil, .nil⟩⟩

theorem entryReadBack {k : HashKey} {v : Value} (hk : k.toValue.ReadBack) (hv : v.ReadBack) :
    EntryReadBack (k, v) := by
  obtain ⟨ks, hreadsKey, hkey⟩ := hk
  obtain ⟨vs, hreadsValue, hvalue⟩ := hv
  rw [k.inspect_toValue] at hreadsKey
  have hcolon : (⟨.colon, ":"⟩ : Token).kind = .colon := rfl
  have hall := (hreadsKey.append reads_colon rfl rfl).andThen hreadsValue
  refine ⟨ks ++ ⟨.colon, ":"⟩ :: vs, hall.of_eq (by simp), ?_⟩
  obtain ⟨hnone, e, hprinting, hdenotes⟩ | ⟨hsome, hrefused⟩ := hkey
  · obtain ⟨hnone', f, hprinting', hdenotes'⟩ | ⟨hsome, hrefused⟩ := hvalue
    · exact .inl ⟨not_or.2 ⟨hnone, hnone'⟩, (e, f), .intro hprinting hcolon hprinting',
        hdenotes, hdenotes'⟩
    · refine .inr ⟨.inr hsome, fun more => ?_⟩
      rw [List.append_assoc]
      exact Expr.pairsRefused_value hprinting hcolon hrefused more
  · refine .inr ⟨.inl hsome, fun more => ?_⟩
    rw [List.append_assoc]
    exact Expr.pairsRefused_key hrefused _

theorem entriesReadBack_cons {entry : HashKey × Value} {entries : List (HashKey × Value)}
    (hentry : EntryReadBack entry) (h : EntriesReadBack entries) :
    EntriesReadBack (entry :: entries) := by
  obtain ⟨ts, hreads, hfirst⟩ := hentry
  obtain ⟨us, hreadsMore, hmore⟩ := h
  cases entries with
  | nil =>
      refine ⟨ts, hreads, ?_⟩
      obtain ⟨hnone, p, ⟨hkey, hcolon, hvalue⟩, hdenotes⟩ | ⟨hsome, hrefused⟩ := hfirst
      · exact .inl ⟨List.forall_mem_singleton.2 hnone, _, .last hkey hcolon hvalue,
          .cons hdenotes .nil⟩
      · have hrefused := hrefused []
        rw [List.append_nil] at hrefused
        exact .inr ⟨⟨entry, List.mem_singleton_self entry, hsome⟩, hrefused⟩
  | cons second rest =>
      have hcomma : (⟨.comma, ","⟩ : Token).kind = .comma := rfl
      have hall := (hreads.append Expr.reads_comma rfl rfl).andThen hreadsMore
      refine ⟨ts ++ ⟨.comma, ","⟩ :: us, hall.of_eq (by simp), ?_⟩
      obtain ⟨hnone, p, ⟨hkey, hcolon, hvalue⟩, hdenotes⟩ | ⟨hsome, hrefused⟩ := hfirst
      · rw [List.append_assoc, List.cons_append]
        obtain ⟨hnone', ps, hpairs, hdenotes'⟩ | ⟨⟨x, hx, hsome⟩, hrefused⟩ := hmore
        · exact .inl ⟨List.forall_mem_cons.2 ⟨hnone, hnone'⟩, _,
            .cons hkey hcolon hvalue hcomma hpairs, .cons hdenotes hdenotes'⟩
        · exact .inr ⟨⟨x, List.mem_cons_of_mem entry hx, hsome⟩,
            Expr.pairsRefused_more hkey hcolon hvalue hcomma hrefused⟩
      · exact .inr ⟨⟨entry, List.mem_cons_self, hsome⟩, hrefused _⟩

theorem readBack_hash {entries : List (HashKey × Value)} (hkeys : (Entries.keys entries).Nodup)
    (h : EntriesReadBack entries) : (hash entries).ReadBack := by
  obtain ⟨ts, hreads, hentries⟩ := h
  refine ⟨_, (Expr.reads_braced hreads).anywhere rfl, ?_⟩
  rw [hasInteger_hash_iff]
  obtain ⟨hnone, ps, hpairs, hdenotes⟩ | ⟨hsome, hrefused⟩ := hentries
  · exact .inl ⟨fun ⟨entry, hmem, hin⟩ => hnone entry hmem hin, _, .hash rfl hpairs rfl,
      Expr.denotes_hash _ hdenotes hkeys⟩
  · exact .inr ⟨hsome, Expr.refused_hash rfl hrefused _⟩

theorem itemsReadBack {vs : List Value} (h : ∀ v ∈ vs, v.ReadBack) : ItemsReadBack vs := by
  induction vs with
  | nil => exact itemsReadBack_nil
  | cons v vs ih =>
      obtain ⟨hv, hvs⟩ := List.forall_mem_cons.1 h
      exact itemsReadBack_cons hv (ih hvs)

theorem entriesReadBack {entries : List (HashKey × Value)}
    (h : ∀ entry ∈ entries, EntryReadBack entry) : EntriesReadBack entries := by
  induction entries with
  | nil => exact entriesReadBack_nil
  | cons entry entries ih =>
      obtain ⟨hentry, hentries⟩ := List.forall_mem_cons.1 h
      exact entriesReadBack_cons hentry (ih hentries)

/-- A key that is no string is read back, being an integer or a boolean. -/
theorem readBack_toValue {k : HashKey} (h : ∀ s, k ≠ .string s) : k.toValue.ReadBack := by
  cases k with
  | integer n => exact readBack_integer n
  | boolean b => exact readBack_boolean b
  | string s => exact absurd rfl (h s)

theorem IsData.readBack {v : Value} (h : v.IsData) : v.ReadBack := by
  induction h with
  | integer n => exact readBack_integer n
  | boolean b => exact readBack_boolean b
  | array _ ih => exact readBack_array (itemsReadBack ih)
  | hash hkeys hplain _ ih =>
      exact readBack_hash hkeys (entriesReadBack fun entry hentry =>
        entryReadBack (readBack_toValue (hplain entry hentry)) (ih entry hentry))

end Value

/-- A program that is one expression has the value that this denotes, and does nothing. -/
theorem Program.eval_of_denotes {ctx : Context} {e : Expr} {v : Value} (t : Token)
    (h : e.Denotes v) {m : Machine} (hm : m.flag.StaysDown) :
    ∃ n, (⟨[.expr t e]⟩ : Program).eval ctx m = some (.ok v, m.lookTimes n) := by
  let call := callValue .prompt ctx ctx.callAllowance
  have hstmts : (evalStmts .prompt call [.expr t e] .null).Yields v :=
    Eval.Yields.unlessInterrupted ((h .prompt call).bind (Eval.yields_pure v))
  obtain ⟨n, hn⟩ := hstmts m hm
  exact ⟨n, by rw [eval, evalUnder, Eval.endReturn_apply, hn]; rfl⟩

namespace Value

/-- The text of data without the smallest integer holds a program that has the data as its
value. -/
theorem IsData.eval_inspect {v : Value} (h : v.IsData)
    (hnone : ¬ v.HasInteger Int64.minValue) :
    ∃ p, Program.ofText v.inspect = (p, []) ∧
      ∀ ctx (m : Machine), m.flag.StaysDown →
        ∃ n, p.eval ctx m = some (.ok v, m.lookTimes n) := by
  obtain ⟨ts, hreads, ⟨-, e, hprinting, hdenotes⟩ | ⟨hsome, -⟩⟩ := h.readBack
  · obtain ⟨t, rest, rfl, -⟩ := hprinting.begins
    have hprogram : Program.Printing ⟨[.expr t e]⟩ (t :: rest ++ []) :=
      .bare (.expr hprinting) nofun .nil
    rw [List.append_nil] at hprogram
    refine ⟨⟨[.expr t e]⟩, ?_, fun ctx m hm => Program.eval_of_denotes t hdenotes hm⟩
    rw [Program.ofText, Token.scan, hreads.readAll_eq]
    exact Program.ofTokens_of_printing hprogram
  · exact absurd hsome hnone

theorem IsData.mem_errors_inspect {v : Value} (h : v.IsData)
    (hsome : v.HasInteger Int64.minValue) :
    .beyondIntegers ∈ (Program.ofText v.inspect).2 := by
  obtain ⟨ts, hreads, ⟨hnone, -⟩ | ⟨-, hrefused⟩⟩ := h.readBack
  · exact absurd hsome hnone
  · have herrors := Program.mem_errors_of_refused hrefused []
    rwa [List.append_nil, ← hreads.readAll_eq] at herrors

/-- Data is read back from its inspect text, in every state, if and only if the smallest
integer is nowhere in it: the text is read without an error, and evaluating it yields a
value that is equal to the data and has the same text, and leaves the state as it was, save
that the flag has been looked at. If that integer is in it, then its digits are reported as
no integer. -/
theorem inspect_reads_back (v : Value) (ctx : Context) (m : Machine) (hv : v.IsData)
    (hm : m.flag.StaysDown) :
    ((∃ p, Program.ofText v.inspect = (p, []) ∧
        ∃ w n, p.eval ctx m = some (.ok w, m.lookTimes n) ∧
          w.same v = true ∧ w.inspect = v.inspect) ↔ ¬ v.HasInteger Int64.minValue) ∧
      (v.HasInteger Int64.minValue →
        .integerOutOfRange "9223372036854775808" ∈ (Program.ofText v.inspect).2) := by
  refine ⟨⟨?_, fun hnone => ?_⟩, hv.mem_errors_inspect⟩
  · rintro ⟨p, hread, -⟩ hsome
    have herrors := hv.mem_errors_inspect hsome
    rw [hread] at herrors
    cases herrors
  · obtain ⟨p, hread, heval⟩ := hv.eval_inspect hnone
    obtain ⟨n, hn⟩ := heval ctx m hm
    exact ⟨p, hread, v, n, hn, hv.same_self, rfl⟩

/-- A hash that is read back, and an array around it that is not. -/
theorem inspect_reads_back_nested :
    let v := hash [(.boolean true, array [.integer (-1), array []]), (.integer (-5), hash [])]
    let w := array [v, .integer Int64.minValue]
    v.inspect = "\x7btrue: [-1, []], -5: \x7b\x7d\x7d" ∧
      w.inspect = "[\x7btrue: [-1, []], -5: \x7b\x7d\x7d, -9223372036854775808]" ∧
      (∃ p, Program.ofText v.inspect = (p, []) ∧
        ∃ u n, p.eval {} .initial = some (.ok u, Machine.initial.lookTimes n) ∧
          u.same v = true ∧ u.inspect = v.inspect) ∧
      .integerOutOfRange "9223372036854775808" ∈ (Program.ofText w.inspect).2 := by
  intro v w
  have hv : v.IsData := by
    refine .hash (by decide) (by simp) (List.forall_mem_cons.2 ⟨?_, ?_⟩)
    · exact .array (List.forall_mem_cons.2
        ⟨.integer _, List.forall_mem_singleton.2 (.array nofun)⟩)
    · exact List.forall_mem_singleton.2 (.hash .nil nofun nofun)
  have hw : w.IsData :=
    .array (List.forall_mem_cons.2 ⟨hv, List.forall_mem_singleton.2 (.integer _)⟩)
  have hnone : ¬ v.HasInteger Int64.minValue := by
    simp [v, hasInteger_hash_iff, hasInteger_array_iff, hasInteger_integer_iff,
      hasInteger_toValue_iff, EntryHas]
  have hsome : w.HasInteger Int64.minValue :=
    .item (List.mem_cons_of_mem v List.mem_cons_self) .itself
  exact ⟨by decide +kernel, by decide +kernel,
    (inspect_reads_back v {} .initial hv Flag.staysDown_fixed).1.2 hnone,
    (inspect_reads_back w {} .initial hw Flag.staysDown_fixed).2 hsome⟩

end Value
end Treewalk
