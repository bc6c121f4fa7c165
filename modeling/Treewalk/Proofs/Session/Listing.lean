import Treewalk.Proofs.Text.Json
import Treewalk.Session
import Treewalk.Token.Json

/-!
Listings of tokens are decoded line by line. The tokens are written by an encoder of which
only so much is assumed: that it escapes what a string of JSON cannot hold as it is, and that
the members of its objects are the fields of the tokens. So no line ends inside a token, and
each line is read back as an object that names the kind and the literal of one token. A
session in this mode never fails and leaves the machine alone; what it writes determines the
tokens.
-/

namespace Treewalk

/-- The kind that has this name in listings. -/
def TokenKind.ofTag? (name : String) : Option TokenKind :=
  [illegal, eof, ident, int, string, assign, plus, minus, bang, asterisk, slash, lt, gt, eq,
    notEq, comma, semicolon, colon, sharp, lparen, rparen, lbrace, rbrace, lbracket, rbracket,
    functionWord, letWord, trueWord, falseWord, ifWord, elseWord, returnWord].find?
      fun kind => kind.tag == name

theorem TokenKind.ofTag?_tag (kind : TokenKind) : ofTag? kind.tag = some kind := by
  cases kind <;> decide

/-- Texts in which no line ends are told apart by the ends of lines behind them. -/
theorem Text.splitOn_lines {texts : List String} (h : ∀ s ∈ texts, '\n' ∉ s.toList) :
    (lines texts).toList.splitOn '\n' = texts.map String.toList ++ [[]] := by
  induction texts with
  | nil => rfl
  | cons s rest ih =>
      have hs := h s List.mem_cons_self
      have hrest := ih fun t ht => h t (List.mem_cons_of_mem s ht)
      have hlist : (lines (s :: rest)).toList = s.toList ++ '\n' :: (lines rest).toList := by
        simp [lines]
      rw [hlist, List.splitOn_append_cons_self_of_not_mem hs, hrest]
      rfl

namespace Token

open Text.Json

/-- What is assumed of an encoder of tokens: a token becomes an object that is written without
gaps and has the two fields as members, in either order; a kind is told by its name. Strings
are written in one way, whatever they are part of. -/
structure EncodesJson (string : String → String) (encode : Token → String) : Prop where
  quotes : Quotes string
  fields : ∀ t : Token, ∃ members,
    members.Perm [("kind", t.kind.tag), ("literal", t.literal)] ∧
      encode t = compact string members

namespace EncodesJson

variable {string string' : String → String} {encode encode' : Token → String}

/-- A line of a listing is an object that names the kind and the literal of its token. -/
theorem exists_object? (h : EncodesJson string encode) (t : Token) :
    ∃ members, object? (encode t) = some members ∧
      members.Perm [("kind", t.kind.tag), ("literal", t.literal)] := by
  obtain ⟨members, hmembers, heq⟩ := h.fields t
  exact ⟨members, by rw [heq, object?_compact h.quotes], hmembers⟩

theorem newline_notMem (h : EncodesJson string encode) (t : Token) :
    '\n' ∉ (encode t).toList := by
  obtain ⟨members, -, heq⟩ := h.fields t
  rw [heq]
  exact newline_notMem_compact h.quotes members

theorem splitOn_listing (h : EncodesJson string encode) (ts : List Token) :
    (listing encode ts).toList.splitOn '\n' = (ts.map encode).map String.toList ++ [[]] := by
  refine Text.splitOn_lines fun s hs => ?_
  obtain ⟨t, -, rfl⟩ := List.mem_map.1 hs
  exact h.newline_notMem t

/-- A line tells the token, whichever encoder has written it. -/
theorem eq_of_encode (h : EncodesJson string encode) (h' : EncodesJson string' encode')
    {t u : Token} (heq : encode t = encode' u) : t = u := by
  obtain ⟨members, hobject, hmembers⟩ := h.exists_object? t
  obtain ⟨members', hobject', hmembers'⟩ := h'.exists_object? u
  rw [heq, hobject'] at hobject
  obtain rfl := Option.some.inj hobject
  have hmem : ∀ m, m ∈ [("kind", t.kind.tag), ("literal", t.literal)] →
      m ∈ [("kind", u.kind.tag), ("literal", u.literal)] := fun m hm =>
    hmembers'.mem_iff.1 (hmembers.mem_iff.2 hm)
  obtain ⟨kind, literal⟩ := t
  obtain ⟨kind', literal'⟩ := u
  have htag : kind.tag = kind'.tag := by
    simpa using hmem ("kind", kind.tag) (by simp)
  have hliteral : literal = literal' := by
    simpa using hmem ("literal", literal) (by simp)
  have hkind := congrArg TokenKind.ofTag? htag
  rw [TokenKind.ofTag?_tag, TokenKind.ofTag?_tag] at hkind
  rw [Option.some.inj hkind, hliteral]

theorem eq_of_map (h : EncodesJson string encode) (h' : EncodesJson string' encode') :
    ∀ {ts us : List Token}, ts.map encode = us.map encode' → ts = us
  | [], [], _ => rfl
  | t :: ts, u :: us, heq => by
      obtain ⟨hhead, htail⟩ := List.cons.inj heq
      rw [h.eq_of_encode h' hhead, h.eq_of_map h' htail]

theorem eq_of_listing (h : EncodesJson string encode) (h' : EncodesJson string' encode')
    {ts us : List Token} (heq : listing encode ts = listing encode' us) : ts = us := by
  have hsplit := h.splitOn_listing ts
  rw [heq, h'.splitOn_listing us] at hsplit
  exact h.eq_of_map h' ((List.map_inj_right fun _ _ => String.toList_injective).1
    (List.append_cancel_right hsplit)).symm

end EncodesJson

/-- The encoder of the command is one of these. -/
theorem encodesJson_jsonObject : EncodesJson Text.jsonString jsonObject := by
  refine ⟨quotes_jsonString, fun t => ⟨_, .refl _, ?_⟩⟩
  have hkind : Text.jsonString "kind" = "\"kind\"" := by decide
  have hliteral : Text.jsonString "literal" = "\"literal\"" := by decide
  simp [jsonObject, compact, row, hkind, hliteral, ← String.toList_inj]

end Token

/-- A session that lists tokens succeeds on every text and leaves the machine alone. What it
writes has one line for each token, and each line is an object whose members are the kind and
the literal of its token; so only a text with the same tokens can be answered with the same.
This holds whichever encoder of tokens the sessions have. -/
theorem Session.listing_decodes (s : Session) (hmode : s.mode = .lex)
    {string : String → String} (hencode : Token.EncodesJson string s.encode) (source : String)
    (m : Machine) :
    ∃ written, s.run source m = some (⟨.success, written⟩, m) ∧
      (∃ lines : List String,
        written.toList.splitOn '\n' = lines.map String.toList ++ [[]] ∧
        lines.length = (Token.scan source).length ∧
        ∀ (n : Nat) (t : Token), (Token.scan source)[n]? = some t →
          ∃ line members, lines[n]? = some line ∧
            Text.Json.object? line = some members ∧
            members.Perm [("kind", t.kind.tag), ("literal", t.literal)]) ∧
      ∀ (s' : Session) (string' : String → String) (other : String) (m' : Machine),
        s'.mode = .lex → Token.EncodesJson string' s'.encode →
          (s'.run other m').map (fun answered => answered.1.written) = some written →
            Token.scan other = Token.scan source := by
  have hrun : ∀ (s : Session) (source : String) (m : Machine), s.mode = .lex →
      s.run source m = some (⟨.success, Token.listing s.encode (Token.scan source)⟩, m) := by
    intro s source m hmode
    rw [run, hmode]
  have hlines : ∀ (n : Nat) (t : Token), (Token.scan source)[n]? = some t →
      ∃ line members, ((Token.scan source).map s.encode)[n]? = some line ∧
        Text.Json.object? line = some members ∧
        members.Perm [("kind", t.kind.tag), ("literal", t.literal)] := by
    intro n t ht
    obtain ⟨members, hobject, hmembers⟩ := hencode.exists_object? t
    refine ⟨s.encode t, members, ?_, hobject, hmembers⟩
    rw [List.getElem?_map, ht]
    rfl
  refine ⟨Token.listing s.encode (Token.scan source), hrun s source m hmode,
    ⟨(Token.scan source).map s.encode, hencode.splitOn_listing _, List.length_map _, hlines⟩,
    fun s' string' other m' hmode' hencode' hwritten => ?_⟩
  rw [hrun s' other m' hmode', Option.map_some] at hwritten
  exact hencode'.eq_of_listing hencode (Option.some.inj hwritten)

/-- A string with a backslash and the end of a line in it, and a character that is no token:
two lines, and the same two where other blanks stand between the tokens. -/
theorem Session.listing_decodes_newline :
    let s : Session := ⟨.lex, {}, true, Token.jsonObject⟩
    s.mode = .lex ∧ Token.EncodesJson Text.jsonString s.encode ∧ ∃ written,
      s.run "\"a\\\n\" ?" .initial = some (⟨.success, written⟩, .initial) ∧
      (∃ (first second : String) (members members' : List (String × String)),
        written.toList.splitOn '\n' = [first.toList, second.toList, []] ∧
        Text.Json.object? first = some members ∧
        members.Perm [("kind", "String"), ("literal", "a\\\n")] ∧
        Text.Json.object? second = some members' ∧
        members'.Perm [("kind", "Illegal"), ("literal", "?")]) ∧
      (s.run "\t\"a\\\n\"?" .initial).map (fun answered => answered.1.written) = some written ∧
      Token.scan "\t\"a\\\n\"?" = Token.scan "\"a\\\n\" ?" := by
  intro s
  have hscan : Token.scan "\"a\\\n\" ?" = [⟨.string, "a\\\n"⟩, ⟨.illegal, "?"⟩] := by
    decide +kernel
  have hscan' : Token.scan "\t\"a\\\n\"?" = [⟨.string, "a\\\n"⟩, ⟨.illegal, "?"⟩] := by
    decide +kernel
  have hencode : Token.EncodesJson Text.jsonString s.encode := Token.encodesJson_jsonObject
  obtain ⟨written, hrun, ⟨lines, hsplit, hlength, hlines⟩, hsame⟩ :=
    listing_decodes s rfl hencode "\"a\\\n\" ?" .initial
  rw [hscan] at hlength hlines
  obtain ⟨first, second, rfl⟩ : ∃ first second, lines = [first, second] := by
    match lines, hlength with
    | [first, second], _ => exact ⟨first, second, rfl⟩
  obtain ⟨line, members, hline, hfirst, hmembers⟩ := hlines 0 _ rfl
  obtain ⟨line', members', hline', hsecond, hmembers'⟩ := hlines 1 _ rfl
  cases hline
  cases hline'
  have hwritten : (s.run "\t\"a\\\n\"?" .initial).map (fun answered => answered.1.written) =
      some written := by
    have hlisting : s.run "\"a\\\n\" ?" .initial =
        some (⟨.success, Token.listing s.encode (Token.scan "\"a\\\n\" ?")⟩, .initial) := rfl
    rw [hrun, hscan] at hlisting
    cases hlisting
    show some (Token.listing s.encode (Token.scan "\t\"a\\\n\"?")) = _
    rw [hscan']
  exact ⟨rfl, hencode, written, hrun,
    ⟨first, second, members, members', hsplit, hfirst, hmembers, hsecond, hmembers'⟩, hwritten,
    hsame s _ _ .initial rfl hencode hwritten⟩

end Treewalk
