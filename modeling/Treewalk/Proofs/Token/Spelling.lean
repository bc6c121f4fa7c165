import Mathlib.Data.List.TakeWhile
import Treewalk.Proofs.Token.Concatenation

/-!
How tokens are spelled, and text that is read as given tokens wherever it stands. Each
token that is read has a literal that spells its kind, and where that literal is written
again it is read as the same token, unless what is written behind it adds to it. So texts
that are read as tokens may be put one behind the other, if no text begins with a character
that adds to the token before it.
-/

namespace Treewalk

namespace TokenKind

/-- The kinds that are always spelled alike. -/
def isSymbol : TokenKind → Bool
  | illegal | eof | ident | int | string | functionWord | letWord | trueWord | falseWord
  | ifWord | elseWord | returnWord => false
  | _ => true

theorem isSymbol_ofWord (word : String) : (ofWord word).isSymbol = false := by
  unfold ofWord
  repeat' split
  all_goals rfl

theorem describe_of_ofSymbol? {c : Char} {k : TokenKind} (h : ofSymbol? c = some k) :
    k.describe = c.toString := by
  unfold ofSymbol? at h
  split at h <;> cases h <;> rfl

theorem isSymbol_of_ofSymbol? {c : Char} {k : TokenKind} (h : ofSymbol? c = some k) :
    k.isSymbol = true := by
  unfold ofSymbol? at h
  split at h <;> cases h <;> rfl

theorem ofSymbol?_eq_none {c : Char} (h : Token.isLetter c = true ∨ c.isDigit = true) :
    ofSymbol? c = none := by
  unfold ofSymbol?
  split <;> first | rfl | (revert h; decide)

end TokenKind

namespace Token

/-- A token as it is read: the literal is a spelling of the kind. -/
inductive Spelled : Token → Prop where
  | symbol {c : Char} {k : TokenKind} (h : TokenKind.ofSymbol? c = some k) :
      Spelled ⟨k, c.toString⟩
  | equal : Spelled ⟨.eq, "=="⟩
  | unequal : Spelled ⟨.notEq, "!="⟩
  | word {c : Char} {cs : List Char} (hc : isLetter c = true)
      (hcs : ∀ d ∈ cs, isLetter d = true) :
      Spelled ⟨TokenKind.ofWord (String.ofList (c :: cs)), String.ofList (c :: cs)⟩
  | number {c : Char} {cs : List Char} (hc : c.isDigit = true)
      (hcs : ∀ d ∈ cs, d.isDigit = true) : Spelled ⟨.int, String.ofList (c :: cs)⟩
  | quoted (text : String) : Spelled ⟨.string, text⟩
  | unknown (text : String) : Spelled ⟨.illegal, text⟩

theorem spelled_readFrom (c : Char) (rest : List Char) : Spelled (readFrom c rest).1 := by
  unfold readFrom
  split
  · exact .equal
  · exact .unequal
  · split
    · exact .unknown _
    · exact .quoted _
  · split
    · rename_i hsymbol
      exact .symbol hsymbol
    · split
      · rename_i hletter
        exact .word hletter fun _ => List.mem_takeWhile_imp
      · split
        · rename_i hdigit
          exact .number hdigit fun _ => List.mem_takeWhile_imp
        · exact .unknown _

theorem spelled_of_mem_readAll {text : List Char} {t : Token} (h : t ∈ readAll text) :
    t.Spelled := by
  fun_induction readAll text with
  | case1 text hblank => cases h
  | case2 text c rest hcons ih =>
      cases h with
      | head => exact spelled_readFrom c rest
      | tail _ h => exact ih h

theorem Spelled.literal_eq {t : Token} (h : t.Spelled) (hk : t.kind.isSymbol = true) :
    t.literal = t.kind.describe := by
  cases h with
  | symbol hsymbol => exact (TokenKind.describe_of_ofSymbol? hsymbol).symm
  | equal | unequal => rfl
  | word => cases hk.symm.trans (TokenKind.isSymbol_ofWord _)
  | number | quoted | unknown => cases hk

theorem Spelled.eq_of_kind {t : Token} {k : TokenKind} (h : t.Spelled) (ht : t.kind = k)
    (hk : k.isSymbol = true) : t = ⟨k, k.describe⟩ := by
  subst ht
  rw [← h.literal_eq hk]

/-! Text that is read as given tokens. -/

/-- In front of text that begins with an admitted character, or with none, the text is
read as the tokens. -/
def Reads (admits : Char → Bool) (text : String) (ts : List Token) : Prop :=
  ∀ more : List Char, (∀ c ∈ more.head?, admits c = true) →
    readAll (text.toList ++ more) = ts ++ readAll more

/-- Every character. -/
def anything (_ : Char) : Bool :=
  true

/-- The characters that do not add to a symbol before them. -/
def noAssign (c : Char) : Bool :=
  c != '='

/-- The characters that do not add to whatever token is before them. -/
def stops (c : Char) : Bool :=
  noAssign c && !isLetter c && !c.isDigit

variable {admits admits' : Char → Bool} {a b : String} {ts us : List Token}

theorem Reads.of_eq (h : Reads admits a ts) (heq : ts = us) : Reads admits a us :=
  heq ▸ h

/-- What stands in front of anything stands in front of what is admitted. -/
theorem Reads.anywhere (h : Reads anything a ts) (heq : ts = us) : Reads admits a us :=
  heq ▸ fun more _ => h more fun _ _ => rfl

/-- One text behind another, if it may begin there. -/
theorem Reads.append {c : Char} {cs : List Char} (h : Reads admits a ts)
    (k : Reads admits' b us) (hb : b.toList = c :: cs) (hc : admits c = true) :
    Reads admits' (a ++ b) (ts ++ us) := by
  intro more hmore
  rw [String.toList_append, List.append_assoc, h, k more hmore, List.append_assoc]
  intro d hd
  rw [hb] at hd
  cases hd
  exact hc

theorem Reads.andThen (h : Reads anything a ts) (k : Reads admits b us) :
    Reads admits (a ++ b) (ts ++ us) := by
  intro more hmore
  rw [String.toList_append, List.append_assoc, h _ fun _ _ => rfl, k more hmore,
    List.append_assoc]

theorem reads_empty : Reads anything "" [] :=
  fun _ _ => rfl

theorem reads_space : Reads anything " " [] := by
  intro more _
  exact readAll_congr (List.dropWhile_cons_of_pos (by decide))

theorem Reads.readAll_eq (h : Reads admits a ts) : readAll a.toList = ts := by
  have hall := h [] nofun
  rwa [List.append_nil, readAll_of_blank (List.dropWhile_nil), List.append_nil] at hall

theorem readAll_cons {c : Char} {rest : List Char} (h : Text.isBlank c = false) :
    readAll (c :: rest) = (readFrom c rest).1 :: readAll (readFrom c rest).2 :=
  readAll_of_cons (List.dropWhile_cons_of_neg (by rw [h]; exact Bool.false_ne_true))

theorem isBlank_of_ofSymbol? {c : Char} {k : TokenKind} (h : TokenKind.ofSymbol? c = some k) :
    Text.isBlank c = false := by
  unfold TokenKind.ofSymbol? at h
  split at h <;> first | decide | cases h

/-- Only an equals sign adds to a symbol, and only to two of them. -/
theorem readFrom_symbol {c : Char} {k : TokenKind} (h : TokenKind.ofSymbol? c = some k)
    {rest : List Char} (hrest : (c = '=' ∨ c = '!') → rest.head? ≠ some '=') :
    readFrom c rest = (⟨k, c.toString⟩, rest) := by
  have hquote : c ≠ '"' := by
    rintro rfl
    cases h
  rw [readFrom_other hquote hrest, h]

theorem kind_readFrom_assign (rest : List Char) :
    (readFrom '=' rest).1.kind = .eq ∨ (readFrom '=' rest).1.kind = .assign := by
  cases rest with
  | nil => exact .inr rfl
  | cons d rest =>
      by_cases hd : d = '='
      · subst hd
        exact .inl rfl
      · have hsymbol : TokenKind.ofSymbol? '=' = some .assign := rfl
        have hnext : (d :: rest).head? ≠ some '=' := fun heq => hd (Option.some.inj heq)
        rw [readFrom_symbol hsymbol fun _ => hnext]
        exact .inr rfl

theorem reads_char (c : Char) {k : TokenKind} (h : TokenKind.ofSymbol? c = some k) :
    Reads noAssign c.toString [⟨k, c.toString⟩] := by
  intro more hmore
  rw [Char.toString_eq_singleton, String.toList_singleton, List.singleton_append]
  rw [readAll_cons (isBlank_of_ofSymbol? h), readFrom_symbol h]
  · rfl
  · intro _ heq
    cases hmore '=' heq

theorem reads_alone (c : Char) {k : TokenKind} (h : TokenKind.ofSymbol? c = some k)
    (hc : ¬ (c = '=' ∨ c = '!')) : Reads anything c.toString [⟨k, c.toString⟩] := by
  intro more _
  rw [Char.toString_eq_singleton, String.toList_singleton, List.singleton_append]
  rw [readAll_cons (isBlank_of_ofSymbol? h), readFrom_symbol h fun hpair => absurd hpair hc]
  rfl

/-- What may be read on is read as far as it reaches. -/
theorem span_append {p : Char → Bool} {cs more : List Char} (hcs : ∀ d ∈ cs, p d = true)
    (hmore : ∀ c ∈ more.head?, p c = false) :
    (cs ++ more).takeWhile p = cs ∧ (cs ++ more).dropWhile p = more := by
  rw [List.takeWhile_append_of_pos hcs, List.dropWhile_append_of_pos hcs]
  cases more with
  | nil => exact ⟨List.append_nil cs, rfl⟩
  | cons c more =>
      have hc : ¬ p c = true := by
        rw [hmore c rfl]
        exact Bool.false_ne_true
      rw [List.takeWhile_cons_of_neg hc, List.dropWhile_cons_of_neg hc]
      exact ⟨List.append_nil cs, rfl⟩

/-- A symbol behind a text, which nothing adds to. -/
theorem Reads.behind (h : Reads admits a ts) (c : Char) {k : TokenKind}
    (hsymbol : TokenKind.ofSymbol? c = some k) (hc : ¬ (c = '=' ∨ c = '!'))
    (hadmits : admits c = true) :
    Reads anything (a ++ c.toString) (ts ++ [⟨k, c.toString⟩]) := by
  have hlist : c.toString.toList = [c] := by
    rw [Char.toString_eq_singleton, String.toList_singleton]
  exact h.append (reads_alone c hsymbol hc) hlist hadmits

theorem Reads.space (h : Reads admits a ts) (hadmits : admits ' ' = true) :
    Reads anything (a ++ " ") ts :=
  (h.append reads_space rfl hadmits).of_eq (List.append_nil ts)

theorem toNat_of_isDigit {c : Char} (h : c.isDigit = true) : 48 ≤ c.toNat ∧ c.toNat ≤ 57 := by
  rw [Char.isDigit, Bool.and_eq_true, decide_eq_true_iff, decide_eq_true_iff] at h
  exact ⟨UInt32.le_iff_toNat_le.1 h.1, UInt32.le_iff_toNat_le.1 h.2⟩

theorem toNat_of_isLetter {c : Char} (h : isLetter c = true) : 65 ≤ c.toNat ∧ c.toNat ≤ 122 := by
  have hcases : (c.isUpper || c.isLower || c == '_') = true := h
  rw [Bool.or_eq_true, Bool.or_eq_true] at hcases
  obtain (hupper | hlower) | hunderscore := hcases
  · obtain ⟨hlow, hhigh⟩ : c.val ≥ 'A'.val ∧ c.val ≤ 'Z'.val := of_decide_eq_true hupper
    exact ⟨UInt32.le_iff_toNat_le.1 hlow, (UInt32.le_iff_toNat_le.1 hhigh).trans (by decide)⟩
  · obtain ⟨hlow, hhigh⟩ := Bool.and_eq_true_iff.1 hlower
    exact ⟨le_trans (by decide) (UInt32.le_iff_toNat_le.1 (of_decide_eq_true hlow)),
      UInt32.le_iff_toNat_le.1 (of_decide_eq_true hhigh)⟩
  · cases beq_iff_eq.1 hunderscore
    decide

theorem isBlank_of_toNat {c : Char} (h : 48 ≤ c.toNat ∧ c.toNat ≤ 122) :
    Text.isBlank c = false := by
  simp only [Text.isBlank, Bool.or_eq_false_iff, Bool.and_eq_false_iff, decide_eq_false_iff_not,
    beq_eq_false_iff_ne]
  omega

theorem isLetter_of_isDigit {c : Char} (h : c.isDigit = true) : isLetter c = false := by
  rw [Bool.eq_false_iff]
  intro hletter
  have hlow := toNat_of_isDigit h
  have hhigh := toNat_of_isLetter hletter
  omega

theorem readFrom_unpaired {c : Char} (hc : isLetter c = true ∨ c.isDigit = true)
    (rest : List Char) :
    readFrom c rest =
      if isLetter c then
        let word := String.ofList (c :: rest.takeWhile isLetter)
        (⟨TokenKind.ofWord word, word⟩, rest.dropWhile isLetter)
      else if c.isDigit then
        (⟨.int, String.ofList (c :: rest.takeWhile Char.isDigit)⟩, rest.dropWhile Char.isDigit)
      else (⟨.illegal, c.toString⟩, rest) := by
  have hne : ∀ d : Char, isLetter d = false ∧ d.isDigit = false → c ≠ d := by
    rintro d ⟨hletter, hdigit⟩ rfl
    simp only [hletter, hdigit, Bool.false_eq_true, or_self] at hc
  have hpair : ¬ (c = '=' ∨ c = '!') := not_or.2 ⟨hne '=' (by decide), hne '!' (by decide)⟩
  rw [readFrom_other (hne '"' (by decide)) fun h => absurd h hpair,
    TokenKind.ofSymbol?_eq_none hc]

/-- What is read as far as certain characters reach is read again in front of others. -/
theorem reads_span {p : Char → Bool} {c : Char} {cs : List Char} (make : List Char → Token)
    (hc : isLetter c = true ∨ c.isDigit = true) (hcs : ∀ d ∈ cs, p d = true)
    (hread : ∀ rest, readFrom c rest = (make (rest.takeWhile p), rest.dropWhile p))
    (hstops : ∀ d, stops d = true → p d = false) :
    Reads stops (String.ofList (c :: cs)) [make cs] := by
  intro more hmore
  have hbounds : 48 ≤ c.toNat ∧ c.toNat ≤ 122 := by
    rcases hc with hc | hc
    · have hletter := toNat_of_isLetter hc
      omega
    · have hdigit := toNat_of_isDigit hc
      omega
  obtain ⟨htake, hdrop⟩ := span_append hcs fun d hd => hstops d (hmore d hd)
  rw [String.toList_ofList, List.cons_append, readAll_cons (isBlank_of_toNat hbounds), hread,
    htake, hdrop]
  rfl

theorem reads_word {c : Char} {cs : List Char} (hc : isLetter c = true)
    (hcs : ∀ d ∈ cs, isLetter d = true) :
    Reads stops (String.ofList (c :: cs))
      [⟨TokenKind.ofWord (String.ofList (c :: cs)), String.ofList (c :: cs)⟩] := by
  let make (word : List Char) : Token :=
    ⟨TokenKind.ofWord (String.ofList (c :: word)), String.ofList (c :: word)⟩
  refine reads_span make (.inl hc) hcs (fun rest => ?_) fun d hd => ?_
  · rw [readFrom_unpaired (.inl hc), if_pos hc]
  · rw [stops, Bool.and_eq_true, Bool.and_eq_true, Bool.not_eq_true'] at hd
    exact hd.1.2

theorem reads_number {c : Char} {cs : List Char} (hc : c.isDigit = true)
    (hcs : ∀ d ∈ cs, d.isDigit = true) :
    Reads stops (String.ofList (c :: cs)) [⟨.int, String.ofList (c :: cs)⟩] := by
  let make (digits : List Char) : Token := ⟨.int, String.ofList (c :: digits)⟩
  refine reads_span make (.inr hc) hcs (fun rest => ?_) fun d hd => ?_
  · have hletter : ¬ isLetter c = true := by
      rw [isLetter_of_isDigit hc]
      exact Bool.false_ne_true
    rw [readFrom_unpaired (.inr hc), if_neg hletter, if_pos hc]
  · rw [stops, Bool.and_eq_true, Bool.not_eq_true'] at hd
    exact hd.2

/-- The spelling of a symbol is read as that token again. -/
theorem Spelled.reads_symbol {t : Token} (h : t.Spelled) (hk : t.kind.isSymbol = true) :
    Reads noAssign t.kind.describe [t] := by
  rw [← h.literal_eq hk]
  cases h with
  | symbol hsymbol => exact reads_char _ hsymbol
  | equal | unequal => exact fun _ _ => readAll_cons rfl
  | word => cases hk.symm.trans (TokenKind.isSymbol_ofWord _)
  | number | quoted | unknown => cases hk

/-- The literal of a word or a number is read as that token again, if nothing adds to it. -/
theorem Spelled.reads {t : Token} (h : t.Spelled)
    (hk : t.kind.isSymbol = false ∧ t.kind ≠ .string ∧ t.kind ≠ .illegal) :
    Reads stops t.literal [t] := by
  cases h with
  | symbol hsymbol => cases hk.1.symm.trans (TokenKind.isSymbol_of_ofSymbol? hsymbol)
  | equal | unequal => cases hk.1
  | word hc hcs => exact reads_word hc hcs
  | number hc hcs => exact reads_number hc hcs
  | quoted => exact absurd rfl hk.2.1
  | unknown => exact absurd rfl hk.2.2

end Token
end Treewalk
