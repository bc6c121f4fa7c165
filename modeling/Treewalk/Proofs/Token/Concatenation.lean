import Treewalk.Token.Lexer

/-!
Reading text in front of other text. A token is read as far as it reaches, so the text
behind may add to the last token of the text before it, but to no other; and it cannot
add to a semicolon. No token of a text is the end of a text.
-/

namespace Treewalk
namespace Token

theorem takeWhile_append_of_dropWhile {α : Type} {p : α → Bool} {xs : List α} (ys : List α)
    (h : xs.dropWhile p ≠ []) : (xs ++ ys).takeWhile p = xs.takeWhile p := by
  induction xs with
  | nil => exact absurd rfl h
  | cons x xs ih =>
      rw [List.cons_append, List.takeWhile_cons, List.takeWhile_cons]
      split
      · rename_i hx
        rw [List.dropWhile_cons_of_pos hx] at h
        rw [ih h]
      · rfl

theorem dropWhile_append_of_dropWhile {α : Type} {p : α → Bool} {xs : List α} (ys : List α)
    (h : xs.dropWhile p ≠ []) : (xs ++ ys).dropWhile p = xs.dropWhile p ++ ys := by
  rw [List.dropWhile_append, if_neg]
  rwa [List.isEmpty_iff]

theorem dropWhile_append_of_nil {α : Type} {p : α → Bool} {xs : List α} (ys : List α)
    (h : xs.dropWhile p = []) : (xs ++ ys).dropWhile p = ys.dropWhile p := by
  rw [List.dropWhile_append, if_pos (List.isEmpty_iff.2 h)]

theorem readFrom_nil_rest (c : Char) : (readFrom c []).2 = [] :=
  List.eq_nil_of_length_eq_zero (Nat.le_zero.1 (length_readFrom_le c []))

theorem readFrom_other {c : Char} {rest : List Char} (hquote : c ≠ '"')
    (hpair : (c = '=' ∨ c = '!') → rest.head? ≠ some '=') :
    readFrom c rest =
      match TokenKind.ofSymbol? c with
      | some kind => (⟨kind, c.toString⟩, rest)
      | none =>
          if isLetter c then
            let word := String.ofList (c :: rest.takeWhile isLetter)
            (⟨TokenKind.ofWord word, word⟩, rest.dropWhile isLetter)
          else if c.isDigit then
            (⟨.int, String.ofList (c :: rest.takeWhile Char.isDigit)⟩,
              rest.dropWhile Char.isDigit)
          else
            (⟨.illegal, c.toString⟩, rest) := by
  unfold readFrom
  split
  · exact absurd rfl (hpair (.inl rfl))
  · exact absurd rfl (hpair (.inr rfl))
  · exact absurd rfl hquote
  · rfl

theorem readFrom_unquoted {text : List Char} (h : text.dropWhile isQuotable = []) :
    readFrom '"' text = (⟨.illegal, String.ofList ('"' :: text)⟩, []) := by
  cases text with
  | nil => rfl
  | cons r rest => simp only [readFrom, h]

theorem readFrom_quoted {q : Char} {text after : List Char}
    (h : text.dropWhile isQuotable = q :: after) :
    readFrom '"' text = (⟨.string, String.ofList (text.takeWhile isQuotable)⟩, after) := by
  cases text with
  | nil => cases h
  | cons r rest => simp only [readFrom, h]

/-- A token with text left behind it is the same with more text. -/
theorem readFrom_append (c : Char) (rest more : List Char) (h : (readFrom c rest).2 ≠ []) :
    readFrom c (rest ++ more) = ((readFrom c rest).1, (readFrom c rest).2 ++ more) := by
  have hrest : rest ≠ [] := by
    intro hnil
    rw [hnil, readFrom_nil_rest] at h
    exact h rfl
  obtain ⟨r, rest, rfl⟩ := List.exists_cons_of_ne_nil hrest
  by_cases hquote : c = '"'
  · subst hquote
    cases hbehind : (r :: rest).dropWhile isQuotable with
    | nil =>
        rw [readFrom_unquoted hbehind] at h
        exact absurd rfl h
    | cons q after =>
        have hne : (r :: rest).dropWhile isQuotable ≠ [] := by
          rw [hbehind]
          exact List.cons_ne_nil _ _
        have hmore := dropWhile_append_of_dropWhile more hne
        rw [hbehind] at hmore
        rw [readFrom_quoted hmore, readFrom_quoted hbehind, takeWhile_append_of_dropWhile more hne]
        rfl
  · by_cases hpair : (c = '=' ∨ c = '!') ∧ r = '='
    · obtain ⟨rfl | rfl, rfl⟩ := hpair
      · rfl
      · rfl
    · have hhead : ∀ text : List Char, (c = '=' ∨ c = '!') → (r :: text).head? ≠ some '=' := by
        intro text hc heq
        exact hpair ⟨hc, Option.some.inj heq⟩
      rw [List.cons_append, readFrom_other hquote (hhead _), readFrom_other hquote (hhead _),
        ← List.cons_append]
      rw [readFrom_other hquote (hhead _)] at h
      cases hsymbol : TokenKind.ofSymbol? c with
      | some kind => rfl
      | none =>
          rw [hsymbol] at h
          dsimp only at h ⊢
          split at h
          · rename_i hletter
            rw [if_pos hletter, if_pos hletter, takeWhile_append_of_dropWhile more h,
              dropWhile_append_of_dropWhile more h]
          · rename_i hletter
            rw [if_neg hletter, if_neg hletter]
            split at h
            · rename_i hdigit
              rw [if_pos hdigit, if_pos hdigit, takeWhile_append_of_dropWhile more h,
                dropWhile_append_of_dropWhile more h]
            · rename_i hdigit
              rw [if_neg hdigit, if_neg hdigit]

theorem kind_ofWord_ne (word : String) :
    TokenKind.ofWord word ≠ .eof ∧ TokenKind.ofWord word ≠ .semicolon := by
  unfold TokenKind.ofWord
  repeat' split
  all_goals decide

theorem kind_readFrom_ne_eof (c : Char) (rest : List Char) :
    (readFrom c rest).1.kind ≠ .eof := by
  unfold readFrom
  split
  · exact TokenKind.noConfusion
  · exact TokenKind.noConfusion
  · split <;> exact TokenKind.noConfusion
  · cases hsymbol : TokenKind.ofSymbol? c with
    | some kind =>
        rintro rfl
        unfold TokenKind.ofSymbol? at hsymbol
        split at hsymbol <;> cases hsymbol
    | none =>
        dsimp only
        split
        · exact (kind_ofWord_ne _).1
        · split <;> exact TokenKind.noConfusion

theorem eq_of_kind_semicolon {c : Char} {rest : List Char}
    (h : (readFrom c rest).1.kind = .semicolon) : c = ';' := by
  unfold readFrom at h
  split at h
  · cases h
  · cases h
  · split at h <;> cases h
  · cases hsymbol : TokenKind.ofSymbol? c with
    | some kind =>
        rw [hsymbol] at h
        cases (h : kind = .semicolon)
        unfold TokenKind.ofSymbol? at hsymbol
        split at hsymbol <;> first | rfl | cases hsymbol
    | none =>
        rw [hsymbol] at h
        dsimp only at h
        split at h
        · exact absurd h (kind_ofWord_ne _).2
        · split at h <;> cases h

theorem readFrom_semicolon (rest : List Char) :
    readFrom ';' rest = (⟨.semicolon, ";"⟩, rest) := by
  cases rest <;> rfl

theorem readAll_of_blank {text : List Char} (h : text.dropWhile Text.isBlank = []) :
    readAll text = [] := by
  rw [readAll]
  split
  · rfl
  · rename_i hcons
    rw [h] at hcons
    cases hcons

theorem readAll_of_cons {text rest : List Char} {c : Char}
    (h : text.dropWhile Text.isBlank = c :: rest) :
    readAll text = (readFrom c rest).1 :: readAll (readFrom c rest).2 := by
  rw [readAll]
  split
  · rename_i hnil
    rw [h] at hnil
    cases hnil
  · rename_i hcons
    rw [h] at hcons
    cases hcons
    rfl

theorem dropWhile_of_readAll_eq_nil {text : List Char} (h : readAll text = []) :
    text.dropWhile Text.isBlank = [] := by
  cases hdrop : text.dropWhile Text.isBlank with
  | nil => rfl
  | cons c rest =>
      rw [readAll_of_cons hdrop] at h
      cases h

theorem readAll_congr {text other : List Char}
    (h : text.dropWhile Text.isBlank = other.dropWhile Text.isBlank) :
    readAll text = readAll other := by
  cases hother : other.dropWhile Text.isBlank with
  | nil => rw [readAll_of_blank (h.trans hother), readAll_of_blank hother]
  | cons c rest => rw [readAll_of_cons (h.trans hother), readAll_of_cons hother]

theorem readAll_append {text : List Char} (more : List Char)
    (h : (readAll text).getLast?.map Token.kind = some .semicolon) :
    readAll (text ++ more) = readAll text ++ readAll more := by
  fun_induction readAll text with
  | case1 text hblank => cases h
  | case2 text c rest hcons ih =>
      have hne : text.dropWhile Text.isBlank ≠ [] := by
        rw [hcons]
        exact List.cons_ne_nil _ _
      have hmore : (text ++ more).dropWhile Text.isBlank = c :: (rest ++ more) := by
        rw [dropWhile_append_of_dropWhile more hne, hcons, List.cons_append]
      rw [readAll_of_cons hmore]
      by_cases hlast : readAll (readFrom c rest).2 = []
      · rw [hlast] at h ⊢
        obtain rfl := eq_of_kind_semicolon (Option.some.inj h)
        rw [readFrom_semicolon] at hlast ⊢
        rw [readFrom_semicolon]
        have hblank := dropWhile_of_readAll_eq_nil hlast
        rw [readAll_congr (dropWhile_append_of_nil more hblank)]
        rfl
      · have hbehind : (readFrom c rest).2 ≠ [] := by
          intro hnil
          rw [hnil] at hlast
          exact hlast (readAll_of_blank rfl)
        rw [readFrom_append c rest more hbehind, List.cons_append]
        congr 1
        refine ih ?_
        rwa [List.getLast?_cons_of_ne_nil hlast] at h

theorem kind_ne_eof_of_mem_readAll {text : List Char} {t : Token} (h : t ∈ readAll text) :
    t.kind ≠ .eof := by
  fun_induction readAll text with
  | case1 text hblank => cases h
  | case2 text c rest hcons ih =>
      cases h with
      | head => exact kind_readFrom_ne_eof c rest
      | tail _ h => exact ih h

end Token
end Treewalk
