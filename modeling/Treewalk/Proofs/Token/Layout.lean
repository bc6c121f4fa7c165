import Treewalk.Proofs.Token.Split

/-!
Writing tokens down. The tokens that are read from a text may be written with any blanks in
front of them and any blanks, but some, between any two of them: what is read is the same.
So blanks outside of strings do not matter to a program, whatever else is written in it.
-/

namespace Treewalk
namespace Token

/-- Tokens written one behind the other, each behind a gap of its own. -/
def layOut : List (String × Token) → List Char
  | [] => []
  | (gap, t) :: placed => gap.toList ++ (t.written ++ layOut placed)

/-- Only blanks, perhaps none. -/
def Blank (gap : String) : Prop :=
  ∀ c ∈ gap.toList, Text.isBlank c = true

instance (gap : String) : Decidable (Blank gap) :=
  decidable_of_iff (gap.toList.all Text.isBlank = true) List.all_eq_true

/-- No token is longer with a blank behind it than with any other text. -/
theorem Longest.move {t : Token} {rest other : List Char} (h : Longest t rest)
    (hblank : ∀ c ∈ other.head?, Text.isBlank c = true) (hend : rest = [] → other = []) :
    Longest t other := by
  cases h with
  | symbol hk _ =>
      refine .symbol hk fun _ hhead => ?_
      cases hblank '=' hhead
  | word hsome hletters hk _ =>
      refine .word hsome hletters hk fun c hc => eq_false_of_ne_true fun hletter => ?_
      have hbounds := toNat_of_isLetter hletter
      exact absurd (hblank c hc) (by rw [isBlank_of_toNat (by omega)]; exact Bool.false_ne_true)
  | number hsome hdigits _ =>
      refine .number hsome hdigits fun c hc => eq_false_of_ne_true fun hdigit => ?_
      have hbounds := toNat_of_isDigit hdigit
      exact absurd (hblank c hc) (by rw [isBlank_of_toNat (by omega)]; exact Bool.false_ne_true)
  | string _ htext => exact .string other htext
  | unknown _ hc => exact .unknown other hc
  | unclosed htext =>
      rw [hend rfl]
      exact .unclosed htext

theorem Splits.eq_nil {ts : List Token} (h : Splits [] ts) : ts = [] := by
  rw [← h.readAll_eq]
  exact readAll_of_blank rfl

/-- What is laid out begins with a gap, where there is one. -/
theorem isBlank_of_head?_layOut {placed : List (String × Token)}
    (hblank : ∀ p ∈ placed, Blank p.1) (hgaps : ∀ p ∈ placed, p.1 ≠ "") :
    ∀ c ∈ (layOut placed).head?, Text.isBlank c = true := by
  intro c hc
  cases placed with
  | nil => cases hc
  | cons p placed =>
      obtain ⟨gap, t⟩ := p
      cases hgap : gap.toList with
      | nil => exact absurd (String.toList_eq_nil_iff.1 hgap) (hgaps (gap, t) List.mem_cons_self)
      | cons d ds =>
          rw [layOut, hgap] at hc
          cases hc
          exact hblank (gap, t) List.mem_cons_self c (hgap ▸ List.mem_cons_self)

/-- The first gap may be empty: there is no token before it. -/
theorem splits_layOut {text : List Char} {placed : List (String × Token)}
    (htokens : Splits text (placed.map Prod.snd)) (hblank : ∀ p ∈ placed, Blank p.1)
    (hgaps : ∀ p ∈ placed.tail, p.1 ≠ "") :
    Splits (layOut placed) (placed.map Prod.snd) := by
  induction placed generalizing text with
  | nil => exact .done nofun
  | cons p placed ih =>
      obtain ⟨gap, t⟩ := p
      have hbehind : ∀ p ∈ placed, Blank p.1 := fun p hp => hblank p (List.mem_cons_of_mem _ hp)
      cases htokens with
      | token _ ht hrest =>
          refine .token (hblank (gap, t) List.mem_cons_self) (ht.move ?_ ?_) (ih hrest hbehind ?_)
          · exact isBlank_of_head?_layOut hbehind hgaps
          · rintro rfl
            rw [List.map_eq_nil_iff.1 hrest.eq_nil]
            rfl
          · exact fun p hp => hgaps p (List.mem_of_mem_tail hp)

/-- Any layout of the tokens that are read from a text is read as those tokens. -/
theorem scan_layOut (source leading : String) (placed : List (String × Token))
    (htokens : placed.map Prod.snd = scan source) (hleading : Blank leading)
    (hblank : ∀ p ∈ placed, Blank p.1) (hgaps : ∀ p ∈ placed.tail, p.1 ≠ "") :
    scan (leading ++ String.ofList (layOut placed)) = scan source := by
  have hsplits : Splits source.toList (placed.map Prod.snd) := by
    rw [htokens]
    exact splits_readAll source.toList
  rw [scan, String.toList_append, String.toList_ofList, ← htokens]
  exact (splits_blank hleading (splits_layOut hsplits hblank hgaps)).readAll_eq

/-- Unknown characters and a string without its end are among the tokens. -/
theorem scan_layOut_unclosed :
    scan ("\t" ++ String.ofList (layOut
      [("", ⟨.ident, "x"⟩), ("\n", ⟨.assign, "="⟩), (" ", ⟨.bang, "!"⟩), ("  ", ⟨.illegal, "é"⟩),
        (" ", ⟨.string, "a b"⟩), ("\r\n", ⟨.illegal, "\"open "⟩)])) =
      scan "x= !é\"a b\"\"open " :=
  scan_layOut "x= !é\"a b\"\"open " "\t" _ (by decide +kernel) (by decide +kernel)
    (by decide +kernel) (by decide +kernel)

end Token
end Treewalk
