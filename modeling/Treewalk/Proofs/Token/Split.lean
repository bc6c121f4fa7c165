import Mathlib.Logic.Function.Iterate
import Treewalk.Proofs.Token.Spelling

/-!
What reading tokens does to a text. The tokens and the blanks between them are the text
again, and no token ends where it could have been longer. There is only one way to split a
text so, hence this says of every text which tokens it has. Behind the last of them there is
the end of the text, however often it is asked for.
-/

namespace Treewalk

namespace TokenKind

/-- The word that is reserved for the kind. -/
def word? : TokenKind → Option String
  | functionWord => some "fn"
  | letWord => some "let"
  | trueWord => some "true"
  | falseWord => some "false"
  | ifWord => some "if"
  | elseWord => some "else"
  | returnWord => some "return"
  | _ => none

/-- The kind of a word: the one that reserves it, or that of identifiers if none does. -/
def Names (k : TokenKind) (word : String) : Prop :=
  k.word? = some word ∨ k = ident ∧ ∀ other : TokenKind, other.word? ≠ some word

theorem ofWord_of_word? {k : TokenKind} {word : String} (h : k.word? = some word) :
    ofWord word = k := by
  cases k <;> cases h <;> decide

theorem names_ofWord (word : String) : (ofWord word).Names word := by
  by_cases h : ∃ k : TokenKind, k.word? = some word
  · obtain ⟨k, hk⟩ := h
    rw [ofWord_of_word? hk]
    exact .inl hk
  · have hother (k : TokenKind) : k.word? ≠ some word := fun hk => h ⟨k, hk⟩
    refine .inr ⟨?_, hother⟩
    unfold ofWord
    rw [if_neg, if_neg, if_neg, if_neg, if_neg, if_neg, if_neg]
    · rintro rfl; exact hother .returnWord rfl
    · rintro rfl; exact hother .elseWord rfl
    · rintro rfl; exact hother .ifWord rfl
    · rintro rfl; exact hother .falseWord rfl
    · rintro rfl; exact hother .trueWord rfl
    · rintro rfl; exact hother .letWord rfl
    · rintro rfl; exact hother .functionWord rfl

theorem ofWord_ne_string (word : String) : ofWord word ≠ .string := by
  intro h
  have hnames := names_ofWord word
  rw [h] at hnames
  obtain hword | ⟨hident, -⟩ := hnames
  · cases hword
  · cases hident

theorem Names.ofWord_eq {k : TokenKind} {word : String} (h : k.Names word) :
    ofWord word = k := by
  obtain hk | ⟨rfl, hother⟩ := h
  · exact ofWord_of_word? hk
  · obtain hk | ⟨hk, -⟩ := names_ofWord word
    · exact absurd hk (hother _)
    · exact hk

theorem ofSymbol?_of_describe {k : TokenKind} {c : Char} (hk : k.isSymbol = true)
    (h : k.describe.toList = [c]) : ofSymbol? c = some k := by
  cases k with
  | illegal | eof | ident | int | string | functionWord | letWord | trueWord | falseWord
  | ifWord | elseWord | returnWord => cases hk
  | eq | notEq => cases h
  | _ => cases h; rfl

/-- The symbols are the two pairs and the single characters. -/
theorem eq_of_isSymbol {k : TokenKind} (h : k.isSymbol = true) :
    k = .eq ∨ k = .notEq ∨ ∃ c, ofSymbol? c = some k := by
  cases k with
  | illegal | eof | ident | int | string | functionWord | letWord | trueWord | falseWord
  | ifWord | elseWord | returnWord => cases h
  | eq => exact .inl rfl
  | notEq => exact .inr (.inl rfl)
  | _ => exact .inr (.inr ⟨_, ofSymbol?_of_describe h rfl⟩)

end TokenKind

namespace Token

/-- The text that the token was read from. -/
def written (t : Token) : List Char :=
  if t.kind = .string then '"' :: (t.literal.toList ++ ['"']) else t.literal.toList

/-- A character that no token begins with. -/
def Foreign (c : Char) : Prop :=
  Text.isBlank c = false ∧ isLetter c = false ∧ c.isDigit = false ∧ c ≠ '"' ∧
    ∀ k : TokenKind, k.isSymbol = true → k.describe ≠ c.toString

/-- The token is well spelled, and in front of the given text it is as long as it can be. -/
inductive Longest : Token → List Char → Prop where
  | symbol {k : TokenKind} {rest : List Char} (hk : k.isSymbol = true)
      (hrest : k = .assign ∨ k = .bang → rest.head? ≠ some '=') : Longest ⟨k, k.describe⟩ rest
  | word {k : TokenKind} {letters rest : List Char} (hsome : letters ≠ [])
      (hletters : ∀ c ∈ letters, isLetter c = true) (hk : k.Names (String.ofList letters))
      (hrest : ∀ c ∈ rest.head?, isLetter c = false) : Longest ⟨k, String.ofList letters⟩ rest
  | number {digits rest : List Char} (hsome : digits ≠ [])
      (hdigits : ∀ c ∈ digits, c.isDigit = true) (hrest : ∀ c ∈ rest.head?, c.isDigit = false) :
      Longest ⟨.int, String.ofList digits⟩ rest
  | string {text : List Char} (rest : List Char) (htext : '"' ∉ text) :
      Longest ⟨.string, String.ofList text⟩ rest
  | unknown {c : Char} (rest : List Char) (hc : Foreign c) : Longest ⟨.illegal, c.toString⟩ rest
  /-- a quote that no other follows takes all the text there is -/
  | unclosed {text : List Char} (htext : '"' ∉ text) :
      Longest ⟨.illegal, String.ofList ('"' :: text)⟩ []

/-- The text is blanks, a token, blanks, a token and so on up to blanks at its end. -/
inductive Splits : List Char → List Token → Prop where
  | done {blanks : List Char} (hblanks : ∀ c ∈ blanks, Text.isBlank c = true) :
      Splits blanks []
  | token {blanks rest : List Char} {t : Token} {ts : List Token}
      (hblanks : ∀ c ∈ blanks, Text.isBlank c = true) (ht : Longest t rest)
      (hrest : Splits rest ts) : Splits (blanks ++ (t.written ++ rest)) (t :: ts)

/-- What is left of a text when the given number of tokens have been taken from it. -/
def left (text : List Char) (n : Nat) : List Char :=
  (fun text => (next text).2)^[n] text

theorem written_of_ne {t : Token} (h : t.kind ≠ .string) : t.written = t.literal.toList :=
  if_neg h

theorem Foreign.ofSymbol?_eq_none {c : Char} (h : Foreign c) : TokenKind.ofSymbol? c = none := by
  cases hsymbol : TokenKind.ofSymbol? c with
  | none => rfl
  | some k =>
      exact absurd (TokenKind.describe_of_ofSymbol? hsymbol)
        (h.2.2.2.2 k (TokenKind.isSymbol_of_ofSymbol? hsymbol))

theorem dropWhile_isQuotable {text : List Char} (h : '"' ∉ text) (rest : List Char) :
    (text ++ rest).dropWhile isQuotable = rest.dropWhile isQuotable :=
  List.dropWhile_append_of_pos fun _ hc => bne_iff_ne.2 fun heq => h (heq ▸ hc)

theorem takeWhile_isQuotable {text : List Char} (h : '"' ∉ text) (rest : List Char) :
    (text ++ rest).takeWhile isQuotable = text ++ rest.takeWhile isQuotable :=
  List.takeWhile_append_of_pos fun _ hc => bne_iff_ne.2 fun heq => h (heq ▸ hc)

theorem quote_notMem_takeWhile (text : List Char) : '"' ∉ text.takeWhile isQuotable := by
  intro hmem
  cases List.mem_takeWhile_imp hmem

/-- What is read where the text of the token begins is the token, up to the given rest. -/
def ReadAt (t : Token) (rest : List Char) : Prop :=
  ∃ c cs, t.written = c :: cs ∧ Text.isBlank c = false ∧ readFrom c (cs ++ rest) = (t, rest)

section ReadAt

variable {k : TokenKind} {c : Char} {text rest : List Char}

theorem readAt_symbol (hk : k.isSymbol = true)
    (hrest : k = .assign ∨ k = .bang → rest.head? ≠ some '=') : ReadAt ⟨k, k.describe⟩ rest := by
  obtain rfl | rfl | ⟨c, hsymbol⟩ := TokenKind.eq_of_isSymbol hk
  · exact ⟨'=', ['='], rfl, rfl, rfl⟩
  · exact ⟨'!', ['='], rfl, rfl, rfl⟩
  · have hdescribe := TokenKind.describe_of_ofSymbol? hsymbol
    have hwritten : written ⟨k, k.describe⟩ = [c] := by
      rw [written_of_ne (by rintro rfl; cases hk), hdescribe, Char.toString_eq_singleton,
        String.toList_singleton]
    refine ⟨c, [], hwritten, isBlank_of_ofSymbol? hsymbol, ?_⟩
    rw [hdescribe]
    refine readFrom_symbol hsymbol fun hc => hrest ?_
    obtain rfl | rfl := hc
    · exact .inl (Option.some.inj hsymbol).symm
    · exact .inr (Option.some.inj hsymbol).symm

theorem readAt_word (hsome : text ≠ []) (hletters : ∀ c ∈ text, isLetter c = true)
    (hk : k.Names (String.ofList text)) (hrest : ∀ c ∈ rest.head?, isLetter c = false) :
    ReadAt ⟨k, String.ofList text⟩ rest := by
  obtain ⟨c, cs, rfl⟩ := List.exists_cons_of_ne_nil hsome
  have hc := hletters c List.mem_cons_self
  have hstring : k ≠ .string := by
    rintro rfl
    obtain hk | ⟨hk, -⟩ := hk <;> cases hk
  obtain ⟨htake, hdrop⟩ :=
    span_append (fun d hd => hletters d (List.mem_cons_of_mem c hd)) hrest
  refine ⟨c, cs, ?_, isBlank_of_toNat ?_, ?_⟩
  · rw [written_of_ne hstring, String.toList_ofList]
  · have hbounds := toNat_of_isLetter hc
    omega
  · rw [readFrom_unpaired (.inl hc), if_pos hc, htake, hdrop]
    dsimp only
    rw [hk.ofWord_eq]

theorem readAt_number (hsome : text ≠ []) (hdigits : ∀ c ∈ text, c.isDigit = true)
    (hrest : ∀ c ∈ rest.head?, c.isDigit = false) : ReadAt ⟨.int, String.ofList text⟩ rest := by
  obtain ⟨c, cs, rfl⟩ := List.exists_cons_of_ne_nil hsome
  have hc := hdigits c List.mem_cons_self
  have hletter : ¬ isLetter c = true := by
    rw [isLetter_of_isDigit hc]
    exact Bool.false_ne_true
  obtain ⟨htake, hdrop⟩ :=
    span_append (fun d hd => hdigits d (List.mem_cons_of_mem c hd)) hrest
  refine ⟨c, cs, ?_, isBlank_of_toNat ?_, ?_⟩
  · rw [written_of_ne TokenKind.noConfusion, String.toList_ofList]
  · have hbounds := toNat_of_isDigit hc
    omega
  · rw [readFrom_unpaired (.inr hc), if_neg hletter, if_pos hc, htake, hdrop]

theorem readAt_string (rest : List Char) (htext : '"' ∉ text) :
    ReadAt ⟨.string, String.ofList text⟩ rest := by
  have hdrop : (text ++ ['"'] ++ rest).dropWhile isQuotable = '"' :: rest := by
    rw [List.append_assoc, dropWhile_isQuotable htext]
    rfl
  refine ⟨'"', text ++ ['"'], ?_, rfl, ?_⟩
  · rw [written, if_pos rfl, String.toList_ofList]
  · rw [readFrom_quoted hdrop, List.append_assoc, takeWhile_isQuotable htext]
    exact congrArg (fun text => (Token.mk .string (String.ofList text), rest))
      (List.append_nil text)

theorem readAt_unknown (rest : List Char) (hc : Foreign c) :
    ReadAt ⟨.illegal, c.toString⟩ rest := by
  obtain ⟨hblank, hletter, hdigit, hquote, hsymbol⟩ := id hc
  refine ⟨c, [], ?_, hblank, ?_⟩
  · rw [written_of_ne TokenKind.noConfusion, Char.toString_eq_singleton, String.toList_singleton]
  · rw [List.nil_append, readFrom_other hquote, hc.ofSymbol?_eq_none]
    · rw [hletter, hdigit]
      rfl
    · rintro (rfl | rfl)
      · exact absurd rfl (hsymbol .assign rfl)
      · exact absurd rfl (hsymbol .bang rfl)

theorem readAt_unclosed (htext : '"' ∉ text) :
    ReadAt ⟨.illegal, String.ofList ('"' :: text)⟩ [] := by
  refine ⟨'"', text, ?_, rfl, ?_⟩
  · rw [written_of_ne TokenKind.noConfusion, String.toList_ofList]
  · rw [List.append_nil]
    refine readFrom_unquoted ?_
    have hdrop := dropWhile_isQuotable htext []
    rwa [List.append_nil] at hdrop

end ReadAt

/-- A token that is as long as it can be is what is read where its text begins. -/
theorem Longest.readAt {t : Token} {rest : List Char} (h : Longest t rest) : ReadAt t rest := by
  cases h with
  | symbol hk hrest => exact readAt_symbol hk hrest
  | word hsome hletters hk hrest => exact readAt_word hsome hletters hk hrest
  | number hsome hdigits hrest => exact readAt_number hsome hdigits hrest
  | string rest htext => exact readAt_string rest htext
  | unknown rest hc => exact readAt_unknown rest hc
  | unclosed htext => exact readAt_unclosed htext

theorem eq_false_of_head?_dropWhile {p : Char → Bool} (text : List Char) {c : Char}
    (h : (text.dropWhile p).head? = some c) : p c = false := by
  have hhead := List.head?_dropWhile_not p text
  rwa [h] at hhead

theorem forall_mem_cons_takeWhile {p : Char → Bool} {c : Char} (rest : List Char)
    (hc : p c = true) : ∀ d ∈ c :: rest.takeWhile p, p d = true := by
  intro d hd
  obtain rfl | hd := List.mem_cons.1 hd
  · exact hc
  · exact List.mem_takeWhile_imp hd

/-- What is read of the text is as long as it can be, and with what is left it is the text. -/
def Takes (text : List Char) (read : Token × List Char) : Prop :=
  Longest read.1 read.2 ∧ read.1.written ++ read.2 = text

theorem takes_unclosed {rest : List Char} (h : rest.dropWhile isQuotable = []) :
    Takes ('"' :: rest) (⟨.illegal, String.ofList ('"' :: rest)⟩, []) := by
  refine ⟨.unclosed fun hmem => ?_, ?_⟩
  · exact absurd (List.dropWhile_eq_nil_iff.1 h _ hmem) Bool.false_ne_true
  · rw [written_of_ne TokenKind.noConfusion, String.toList_ofList, List.append_nil]

theorem takes_string {q : Char} {rest after : List Char}
    (h : rest.dropWhile isQuotable = q :: after) :
    Takes ('"' :: rest) (⟨.string, String.ofList (rest.takeWhile isQuotable)⟩, after) := by
  have hquote : q = '"' := by
    have hq : isQuotable q = false :=
      eq_false_of_head?_dropWhile rest (by rw [h]; rfl)
    exact not_not.1 (bne_iff_ne.not.1 (Bool.not_eq_true _ ▸ hq))
  have hsplit := List.takeWhile_append_dropWhile (p := isQuotable) (l := rest)
  rw [h, hquote] at hsplit
  refine ⟨.string after (quote_notMem_takeWhile rest), ?_⟩
  rw [written, if_pos rfl, String.toList_ofList, List.cons_append, List.append_assoc]
  exact congrArg (List.cons '"') hsplit

theorem takes_pair {c : Char} {k : TokenKind} (after : List Char) (hk : k.isSymbol = true)
    (hlist : k.describe.toList = [c, '=']) (hne : ¬ (k = .assign ∨ k = .bang)) :
    Takes (c :: '=' :: after) (⟨k, k.describe⟩, after) := by
  refine ⟨.symbol hk fun hpair => absurd hpair hne, ?_⟩
  rw [written_of_ne (by rintro rfl; cases hk), hlist]
  rfl

theorem takes_symbol {c : Char} {k : TokenKind} {rest : List Char}
    (h : TokenKind.ofSymbol? c = some k) (hrest : c = '=' ∨ c = '!' → rest.head? ≠ some '=') :
    Takes (c :: rest) (⟨k, c.toString⟩, rest) := by
  have hdescribe := TokenKind.describe_of_ofSymbol? h
  have hk := TokenKind.isSymbol_of_ofSymbol? h
  have hlist : k.describe.toList = [c] := by
    rw [hdescribe, Char.toString_eq_singleton, String.toList_singleton]
  refine ⟨hdescribe ▸ .symbol hk fun hpair => hrest ?_, ?_⟩
  · obtain rfl | rfl := hpair
    · cases hlist
      exact .inl rfl
    · cases hlist
      exact .inr rfl
  · rw [written_of_ne (by rintro rfl; cases hk), ← hdescribe, hlist]
    rfl

theorem takes_word {c : Char} (rest : List Char) (hc : isLetter c = true) :
    Takes (c :: rest)
      (⟨TokenKind.ofWord (String.ofList (c :: rest.takeWhile isLetter)),
        String.ofList (c :: rest.takeWhile isLetter)⟩, rest.dropWhile isLetter) := by
  refine ⟨.word (List.cons_ne_nil _ _) (forall_mem_cons_takeWhile rest hc)
    (TokenKind.names_ofWord _) fun d hd => eq_false_of_head?_dropWhile rest hd, ?_⟩
  rw [written_of_ne (TokenKind.ofWord_ne_string _), String.toList_ofList, List.cons_append,
    List.takeWhile_append_dropWhile]

theorem takes_number {c : Char} (rest : List Char) (hc : c.isDigit = true) :
    Takes (c :: rest)
      (⟨.int, String.ofList (c :: rest.takeWhile Char.isDigit)⟩,
        rest.dropWhile Char.isDigit) := by
  refine ⟨.number (List.cons_ne_nil _ _) (forall_mem_cons_takeWhile rest hc) fun d hd =>
    eq_false_of_head?_dropWhile rest hd, ?_⟩
  rw [written_of_ne TokenKind.noConfusion, String.toList_ofList, List.cons_append,
    List.takeWhile_append_dropWhile]

theorem takes_unknown {c : Char} (rest : List Char) (hc : Foreign c) :
    Takes (c :: rest) (⟨.illegal, c.toString⟩, rest) := by
  refine ⟨.unknown rest hc, ?_⟩
  rw [written_of_ne TokenKind.noConfusion, Char.toString_eq_singleton, String.toList_singleton]
  rfl

theorem takes_readFrom {c : Char} (rest : List Char) (hc : Text.isBlank c = false) :
    Takes (c :: rest) (readFrom c rest) := by
  unfold readFrom
  split
  · exact takes_pair (k := .eq) _ rfl rfl (by decide)
  · exact takes_pair (k := .notEq) _ rfl rfl (by decide)
  · split
    · rename_i hnil
      exact takes_unclosed hnil
    · rename_i hcons
      exact takes_string hcons
  · rename_i hquote hassign hbang
    cases hsymbol : TokenKind.ofSymbol? c with
    | some k =>
        refine takes_symbol hsymbol fun hpair hhead => ?_
        obtain ⟨after, rfl⟩ := List.head?_eq_some_iff.1 hhead
        obtain rfl | rfl := hpair
        · exact hassign after rfl rfl
        · exact hbang after rfl rfl
    | none =>
        dsimp only
        split
        · rename_i hletter
          exact takes_word rest hletter
        · rename_i hletter
          split
          · rename_i hdigit
            exact takes_number rest hdigit
          · rename_i hdigit
            refine takes_unknown rest ⟨hc, eq_false_of_ne_true hletter,
              eq_false_of_ne_true hdigit, hquote, fun k hk hdescribe => ?_⟩
            have hlist : k.describe.toList = [c] := by
              rw [hdescribe, Char.toString_eq_singleton, String.toList_singleton]
            cases hsymbol.symm.trans (TokenKind.ofSymbol?_of_describe hk hlist)

/-! The two ways between what is read of a text and how it can be split. -/

theorem splits_blank {blanks text : List Char} {ts : List Token}
    (hblanks : ∀ c ∈ blanks, Text.isBlank c = true) (h : Splits text ts) :
    Splits (blanks ++ text) ts := by
  cases h with
  | done hmore =>
      exact .done fun c hc => (List.mem_append.1 hc).elim (hblanks c) (hmore c)
  | token hmore ht hrest =>
      rw [← List.append_assoc]
      exact .token (fun c hc => (List.mem_append.1 hc).elim (hblanks c) (hmore c)) ht hrest

theorem splits_readAll (text : List Char) : Splits text (readAll text) := by
  fun_induction readAll text with
  | case1 text hblank => exact .done fun c hc => List.dropWhile_eq_nil_iff.1 hblank c hc
  | case2 text c rest hcons ih =>
      have hc : Text.isBlank c = false :=
        eq_false_of_head?_dropWhile text (by rw [hcons]; rfl)
      obtain ⟨hlongest, hwritten⟩ := takes_readFrom rest hc
      rw [← List.takeWhile_append_dropWhile (p := Text.isBlank) (l := text), hcons, ← hwritten]
      exact .token (fun _ => List.mem_takeWhile_imp) hlongest ih

theorem Splits.readAll_eq {text : List Char} {ts : List Token} (h : Splits text ts) :
    readAll text = ts := by
  induction h with
  | done hblanks => exact readAll_of_blank (List.dropWhile_eq_nil_iff.2 hblanks)
  | @token blanks rest t ts hblanks ht _ ih =>
      obtain ⟨c, cs, hwritten, hc, hread⟩ := ht.readAt
      have hdrop : (blanks ++ (t.written ++ rest)).dropWhile Text.isBlank = c :: (cs ++ rest) := by
        rw [hwritten, List.dropWhile_append_of_pos hblanks, List.cons_append]
        exact List.dropWhile_cons_of_neg (by rw [hc]; exact Bool.false_ne_true)
      rw [readAll_of_cons hdrop, hread, ih]

theorem next_left (text : List Char) (n : Nat) :
    (next (left text n)).1 = (readAll text).getD n eof := by
  have hend (n : Nat) : left [] n = [] := Function.iterate_fixed rfl n
  fun_induction readAll text generalizing n with
  | case1 text hblank =>
      have hnext : next text = (eof, []) := by rw [next, hblank]
      cases n with
      | zero => exact congrArg Prod.fst hnext
      | succ n =>
          rw [left, Function.iterate_succ_apply, hnext]
          exact congrArg (fun text => (next text).1) (hend n)
  | case2 text c rest hcons ih =>
      have hnext : next text = readFrom c rest := by rw [next, hcons]
      cases n with
      | zero => exact congrArg Prod.fst hnext
      | succ n =>
          rw [left, Function.iterate_succ_apply, hnext, List.getD_cons_succ]
          exact ih n

/-- A text splits into the tokens that are read from it, and into no others. None of them
is the end of the text, which is what there is behind the last of them. -/
theorem splits_iff_scan (source : String) :
    (∀ ts : List Token, Splits source.toList ts ↔ scan source = ts) ∧
      .eof ∉ (scan source).map kind ∧
        ∀ n, (next (left source.toList n)).1 = (scan source).getD n eof := by
  refine ⟨fun ts => ⟨Splits.readAll_eq, ?_⟩, fun hmem => ?_, next_left source.toList⟩
  · rintro rfl
    exact splits_readAll source.toList
  · obtain ⟨t, ht, hkind⟩ := List.mem_map.1 hmem
    exact kind_ne_eof_of_mem_readAll ht hkind

end Token
end Treewalk
