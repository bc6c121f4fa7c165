import Treewalk.Text.Json

/-!
Reading JSON back. A text is taken apart into strings and signs of punctuation, with gaps
between them, and an object into its members; of objects, only those are read in which all
values are strings. Inside a string a character stands for itself, or is escaped by a letter
or by its number in units of sixteen bits. In whichever of these ways each of its characters
is written, a text is read back, and so is an object whose members are such texts; and no line
ends inside it.
-/

namespace Treewalk
namespace Text
namespace Json

/-- The number that a digit to the base sixteen stands for. -/
def hexValue? (c : Char) : Option Nat :=
  if c.isDigit then some (c.toNat - '0'.toNat)
  else if 'a' ≤ c ∧ c ≤ 'f' then some (c.toNat - 'a'.toNat + 10)
  else if 'A' ≤ c ∧ c ≤ 'F' then some (c.toNat - 'A'.toNat + 10)
  else none

/-- The number that four of these digits stand for. -/
def unit? (a b c d : Char) : Option Nat := do
  let a ← hexValue? a
  let b ← hexValue? b
  let c ← hexValue? c
  let d ← hexValue? d
  return ((16 * a + b) * 16 + c) * 16 + d

/-- The second of two units that stand for a character together, behind the first. -/
def pair? (high : Nat) : List Char → Option (Char × List Char)
  | '\\' :: 'u' :: a :: b :: c :: d :: rest =>
      match unit? a b c d with
      | none => none
      | some low =>
          if high < 0xDC00 ∧ 0xDC00 ≤ low ∧ low < 0xE000 then
            some (Char.ofNat (0x10000 + 0x400 * (high - 0xD800) + (low - 0xDC00)), rest)
          else none
  | _ => none

/-- What a letter behind a backslash stands for. -/
def escaped? : Char → Option Char
  | '"' => some '"'
  | '\\' => some '\\'
  | '/' => some '/'
  | 'b' => some '\x08'
  | 'f' => some '\x0c'
  | 'n' => some '\n'
  | 'r' => some '\r'
  | 't' => some '\t'
  | _ => none

/-- The first character of a string, as it is written there, and what follows it. -/
def character? : List Char → Option (Char × List Char)
  | '\\' :: 'u' :: a :: b :: c :: d :: rest =>
      match unit? a b c d with
      | none => none
      | some n =>
          if 0xD800 ≤ n ∧ n < 0xE000 then pair? n rest else some (Char.ofNat n, rest)
  | '\\' :: c :: rest => (escaped? c).map fun e => (e, rest)
  | c :: rest => if c = '"' ∨ c = '\\' ∨ c.toNat < 0x20 then none else some (c, rest)
  | [] => none

theorem length_pair?_lt {high : Nat} {text rest : List Char} {c : Char}
    (h : pair? high text = some (c, rest)) : rest.length < text.length := by
  unfold pair? at h
  split at h
  · split at h
    · cases h
    · split at h
      · obtain ⟨-, rfl⟩ := Prod.mk.inj (Option.some.inj h)
        simp only [List.length_cons]
        omega
      · cases h
  · cases h

theorem length_character?_lt {text rest : List Char} {c : Char}
    (h : character? text = some (c, rest)) : rest.length < text.length := by
  unfold character? at h
  split at h
  · split at h
    · cases h
    · split at h
      · have := length_pair?_lt h
        simp only [List.length_cons]
        omega
      · cases h
        simp only [List.length_cons]
        omega
  · obtain ⟨e, -, he⟩ := Option.map_eq_some_iff.1 h
    cases he
    simp only [List.length_cons]
    omega
  · split at h
    · cases h
    · cases h
      exact Nat.lt_succ_self _
  · cases h

/-- The characters of a string up to its closing quote, and what follows the quote. -/
def characters? (text : List Char) : Option (List Char × List Char) :=
  if text.head? = some '"' then some ([], text.tail)
  else
    match _h : character? text with
    | none => none
    | some (c, rest) => (characters? rest).map fun (cs, after) => (c :: cs, after)
termination_by text.length
decreasing_by exact length_character?_lt _h

theorem length_characters?_le {text cs after : List Char}
    (h : characters? text = some (cs, after)) : after.length ≤ text.length := by
  fun_induction characters? text generalizing cs with
  | case1 text hquote =>
      cases h
      exact List.length_tail ▸ Nat.sub_le _ _
  | case2 text hquote hnone => cases h
  | case3 text hquote c rest hsome ih =>
      obtain ⟨⟨cs', after'⟩, hcs, heq⟩ := Option.map_eq_some_iff.1 h
      cases heq
      exact Nat.le_trans (ih hcs) (Nat.le_of_lt (length_character?_lt hsome))

/-- What a text is made of, besides the gaps. -/
inductive Lexeme where
  | sign (c : Char)
  | string (text : String)
deriving DecidableEq

/-- The characters that may stand anywhere between strings and signs. -/
def isGap (c : Char) : Bool :=
  c == ' ' || c == '\t' || c == '\n' || c == '\r'

/-- The strings and signs of a text. -/
def lexemes? (text : List Char) : Option (List Lexeme) :=
  match _htext : text.dropWhile isGap with
  | [] => some []
  | c :: rest =>
      if c = '"' then
        match _hstring : characters? rest with
        | none => none
        | some (cs, after) => (lexemes? after).map (.string (String.ofList cs) :: ·)
      else if c ∈ ['{', '}', ':', ','] then
        (lexemes? rest).map (.sign c :: ·)
      else none
termination_by text.length
decreasing_by
  all_goals
    have hle := (List.dropWhile_sublist isGap (l := text)).length_le
    rw [_htext, List.length_cons] at hle
  · have := length_characters?_le _hstring
    omega
  · omega

/-- The members of an object behind its opening brace. -/
def members? : List Lexeme → Option (List (String × String))
  | [.string name, .sign ':', .string value, .sign '}'] => some [(name, value)]
  | .string name :: .sign ':' :: .string value :: .sign ',' :: rest =>
      (members? rest).map ((name, value) :: ·)
  | _ => none

/-- The members of the object that a text stands for, each a name and a value, in order. -/
def object? (text : String) : Option (List (String × String)) :=
  match lexemes? text.toList with
  | some [.sign '{', .sign '}'] => some []
  | some (.sign '{' :: rest) => members? rest
  | _ => none

/-! The ways to write a string, and what they are read back as. -/

/-- A way to write a character inside a string: as it is, by a letter, by its number, or by
the two units that its number is split into. -/
inductive Spelling : Char → List Char → Prop where
  | bare {c : Char} (quote : c ≠ '"') (backslash : c ≠ '\\') (control : ¬ c.toNat < 0x20) :
      Spelling c [c]
  | letter {c e : Char} (stands : escaped? e = some c) : Spelling c ['\\', e]
  | number {c w x y z : Char} (stands : unit? w x y z = some c.toNat) :
      Spelling c ['\\', 'u', w, x, y, z]
  | pair {c w x y z w' x' y' z' : Char} {high low : Nat} (first : unit? w x y z = some high)
      (second : unit? w' x' y' z' = some low) (leads : 0xD800 ≤ high ∧ high < 0xDC00)
      (trails : 0xDC00 ≤ low ∧ low < 0xE000)
      (stands : c.toNat = 0x10000 + 0x400 * (high - 0xD800) + (low - 0xDC00)) :
      Spelling c ['\\', 'u', w, x, y, z, '\\', 'u', w', x', y', z']

/-- Characters as they are written one after another. -/
inductive Spelled : List Char → List Char → Prop where
  | nil : Spelled [] []
  | cons {c : Char} {cs written rest : List Char} (head : Spelling c written)
      (tail : Spelled cs rest) : Spelled (c :: cs) (written ++ rest)

/-- Strings are written between quotes, and no quote, backslash or control character stands
inside as it is. -/
def Quotes (string : String → String) : Prop :=
  ∀ text, ∃ written, Spelled text.toList written ∧
    string text = "\"" ++ String.ofList written ++ "\""

theorem character?_bare {c : Char} (hquote : c ≠ '"') (hbackslash : c ≠ '\\')
    (hcontrol : ¬ c.toNat < 0x20) (rest : List Char) :
    character? (c :: rest) = some (c, rest) := by
  rw [character?.eq_def]
  split
  · rename_i heq
    exact absurd (List.cons.inj heq).1 hbackslash
  · rename_i heq
    exact absurd (List.cons.inj heq).1 hbackslash
  · rename_i heq
    obtain ⟨rfl, rfl⟩ := List.cons.inj heq
    rw [if_neg (by simp only [hquote, hbackslash, hcontrol, or_self, not_false_eq_true])]
  · rename_i heq
    cases heq

theorem character?_letter {c e : Char} (h : escaped? e = some c) (rest : List Char) :
    character? ('\\' :: e :: rest) = some (c, rest) := by
  rw [character?.eq_def]
  split
  · rename_i heq
    cases heq
    cases h
  · rename_i heq
    cases heq
    rw [h]
    rfl
  · rename_i hletter heq
    cases heq
    exact (hletter e rest rfl rfl).elim
  · rename_i heq
    cases heq

/-- However a character is written, it is read back. -/
theorem Spelling.character?_eq {c : Char} {written : List Char} (h : Spelling c written)
    (rest : List Char) : character? (written ++ rest) = some (c, rest) := by
  cases h with
  | bare quote backslash control => exact character?_bare quote backslash control rest
  | letter stands => exact character?_letter stands rest
  | number stands =>
      have hvalid : ¬ (0xD800 ≤ c.toNat ∧ c.toNat < 0xE000) := by
        have := c.valid
        simp only [UInt32.isValidChar, Nat.isValidChar] at this
        show ¬ (0xD800 ≤ c.val.toNat ∧ c.val.toNat < 0xE000)
        omega
      simp only [List.cons_append, List.nil_append, character?, stands]
      rw [if_neg hvalid, Char.ofNat_toNat]
  | @pair w x y z w' x' y' z' high low first second leads trails stands =>
      have hhigh : 0xD800 ≤ high ∧ high < 0xE000 := by omega
      have hlow : high < 0xDC00 ∧ 0xDC00 ≤ low ∧ low < 0xE000 := ⟨leads.2, trails⟩
      simp only [List.cons_append, List.nil_append, character?, first, pair?, second]
      rw [if_pos hhigh, if_pos hlow, ← stands, Char.ofNat_toNat]

theorem Spelling.head?_ne_quote {c : Char} {written : List Char} (h : Spelling c written)
    (rest : List Char) : (written ++ rest).head? ≠ some '"' := by
  cases h with
  | bare quote => exact fun heq => absurd (Option.some.inj heq) quote
  | letter | number | pair => exact (by decide : some '\\' ≠ some '"')

theorem characters?_cons {text rest : List Char} {c : Char} (hquote : text.head? ≠ some '"')
    (h : character? text = some (c, rest)) :
    characters? text = (characters? rest).map fun (cs, after) => (c :: cs, after) := by
  rw [characters?, if_neg hquote]
  split <;> rename_i heq <;> rw [h] at heq <;> cases heq
  rfl

theorem Spelled.characters?_eq {cs written : List Char} (h : Spelled cs written)
    (rest : List Char) : characters? (written ++ '"' :: rest) = some (cs, rest) := by
  induction h with
  | nil =>
      rw [List.nil_append, characters?]
      rfl
  | cons head tail ih =>
      rw [List.append_assoc, characters?_cons (head.head?_ne_quote _) (head.character?_eq _), ih]
      rfl

theorem lexemes?_nil : lexemes? [] = some [] := by
  rw [lexemes?]
  rfl

theorem lexemes?_string {text after cs : List Char} (h : characters? text = some (cs, after)) :
    lexemes? ('"' :: text) = (lexemes? after).map (.string (String.ofList cs) :: ·) := by
  rw [lexemes?]
  split <;> rename_i heq <;> cases heq
  rw [if_pos rfl]
  split <;> rename_i heq <;> rw [h] at heq <;> cases heq
  rfl

theorem lexemes?_sign {c : Char} (h : c ∈ ['{', '}', ':', ',']) (text : List Char) :
    lexemes? (c :: text) = (lexemes? text).map (.sign c :: ·) := by
  have hgap : isGap c = false := by
    simp only [List.mem_cons, List.not_mem_nil, or_false] at h
    obtain rfl | rfl | rfl | rfl := h <;> rfl
  have hquote : c ≠ '"' := by
    rintro rfl
    revert h
    decide
  have hdrop : (c :: text).dropWhile isGap = c :: text := by
    rw [List.dropWhile_cons, if_neg (by rw [hgap]; exact Bool.false_ne_true)]
  rw [lexemes?]
  split <;> rename_i heq <;> rw [hdrop] at heq <;> cases heq
  rw [if_neg hquote, if_pos h]

theorem Quotes.lexemes?_eq {string : String → String} (h : Quotes string) (text : String)
    (rest : List Char) :
    lexemes? ((string text).toList ++ rest) = (lexemes? rest).map (.string text :: ·) := by
  obtain ⟨written, hwritten, heq⟩ := h text
  have hlist : (string text).toList ++ rest = '"' :: (written ++ '"' :: rest) := by
    rw [heq]
    simp
  rw [hlist, lexemes?_string (hwritten.characters?_eq rest), String.ofList_toList]

/-! No line ends inside a string. -/

theorem newline_ne_of_hexValue? {c : Char} {n : Nat} (h : hexValue? c = some n) : '\n' ≠ c := by
  rintro rfl
  cases h

theorem newline_notMem_of_unit? {w x y z : Char} {n : Nat} (h : unit? w x y z = some n) :
    '\n' ∉ [w, x, y, z] := by
  simp only [unit?, Option.bind_eq_bind, Option.bind_eq_some_iff] at h
  obtain ⟨a, ha, b, hb, c, hc, d, hd, -⟩ := h
  simp [newline_ne_of_hexValue? ha, newline_ne_of_hexValue? hb, newline_ne_of_hexValue? hc,
    newline_ne_of_hexValue? hd]

theorem Spelling.newline_notMem {c : Char} {written : List Char} (h : Spelling c written) :
    '\n' ∉ written := by
  cases h with
  | bare quote backslash control =>
      intro hmem
      obtain rfl := List.mem_singleton.1 hmem
      exact control (by decide)
  | @letter e stands =>
      have hletter : '\n' ≠ e := by
        rintro rfl
        cases stands
      simp [hletter]
  | number stands => simpa using newline_notMem_of_unit? stands
  | pair first second =>
      have hfirst := newline_notMem_of_unit? first
      have hsecond := newline_notMem_of_unit? second
      simp_all

theorem Spelled.newline_notMem {cs written : List Char} (h : Spelled cs written) :
    '\n' ∉ written := by
  induction h with
  | nil => exact List.not_mem_nil
  | cons head tail ih => exact fun h => (List.mem_append.1 h).elim head.newline_notMem ih

theorem Quotes.newline_notMem {string : String → String} (h : Quotes string) (text : String) :
    '\n' ∉ (string text).toList := by
  obtain ⟨written, hwritten, heq⟩ := h text
  rw [heq]
  simp [hwritten.newline_notMem]

/-! Objects. -/

section Compact

variable (string : String → String)

/-- The members of an object one after another, without gaps. -/
def row : List (String × String) → String
  | [] => ""
  | [(name, value)] => string name ++ ":" ++ string value
  | (name, value) :: rest => string name ++ ":" ++ string value ++ "," ++ row rest

/-- An object as it is written without gaps. -/
def compact (members : List (String × String)) : String :=
  "\x7b" ++ row string members ++ "\x7d"

variable {string}

theorem exists_lexemes?_row (h : Quotes string) {members : List (String × String)}
    (hsome : members ≠ []) :
    ∃ lexemes, lexemes? ((row string members).toList ++ ['}']) = some lexemes ∧
      members? lexemes = some members := by
  induction members with
  | nil => exact absurd rfl hsome
  | cons head rest ih =>
      obtain ⟨name, value⟩ := head
      cases rest with
      | nil =>
          refine ⟨[.string name, .sign ':', .string value, .sign '}'], ?_, rfl⟩
          have hlist : (row string [(name, value)]).toList ++ ['}'] =
              (string name).toList ++ ':' :: ((string value).toList ++ ['}']) := by
            simp [row]
          rw [hlist, h.lexemes?_eq, lexemes?_sign (by decide), h.lexemes?_eq,
            lexemes?_sign (by decide), lexemes?_nil]
          rfl
      | cons next rest =>
          obtain ⟨lexemes, hlexemes, hmembers⟩ := ih (List.cons_ne_nil _ _)
          refine ⟨.string name :: .sign ':' :: .string value :: .sign ',' :: lexemes, ?_, ?_⟩
          · have hlist : (row string ((name, value) :: next :: rest)).toList ++ ['}'] =
                (string name).toList ++ ':' :: ((string value).toList ++
                  ',' :: ((row string (next :: rest)).toList ++ ['}'])) := by
              simp [row]
            rw [hlist, h.lexemes?_eq, lexemes?_sign (by decide), h.lexemes?_eq,
              lexemes?_sign (by decide), hlexemes]
            rfl
          · rw [members?, hmembers]
            rfl

/-- An object that is written without gaps is read back. -/
theorem object?_compact (h : Quotes string) (members : List (String × String)) :
    object? (compact string members) = some members := by
  have hlist : (compact string members).toList = '{' :: ((row string members).toList ++ ['}']) := by
    simp [compact]
  rw [object?, hlist, lexemes?_sign (by decide)]
  by_cases hsome : members = []
  · subst hsome
    have hrow : (row string []).toList ++ ['}'] = ['}'] := rfl
    rw [hrow, lexemes?_sign (by decide), lexemes?_nil]
    rfl
  · obtain ⟨lexemes, hlexemes, hmembers⟩ := exists_lexemes?_row h hsome
    rw [hlexemes, Option.map_some]
    split
    · rename_i heq
      cases heq
      cases hmembers
    · rename_i heq
      cases heq
      exact hmembers
    · rename_i hobject
      exact absurd rfl (hobject lexemes)

theorem newline_notMem_row (h : Quotes string) (members : List (String × String)) :
    '\n' ∉ (row string members).toList := by
  induction members with
  | nil => exact List.not_mem_nil
  | cons head rest ih =>
      cases rest with
      | nil => simp [row, h.newline_notMem]
      | cons next rest => simp [row, h.newline_notMem, ih]

theorem newline_notMem_compact (h : Quotes string) (members : List (String × String)) :
    '\n' ∉ (compact string members).toList := by
  simp [compact, newline_notMem_row h]

end Compact

/-! The strings that are written with the shortest escapes. -/

theorem hexValue?_hexDigit (n : Nat) : hexValue? (hexDigit n) = some (n % 16) := by
  have hall : ∀ k, k < 16 → hexValue? (Nat.digitChar k) = some k := by decide
  exact hall (n % 16) (Nat.mod_lt n (by decide))

theorem spelling_jsonChar (c : Char) : Spelling c (jsonChar c) := by
  unfold jsonChar
  split
  all_goals try exact .letter rfl
  split
  · refine .number ?_
    have hzero : hexValue? '0' = some 0 := by decide
    simp only [unit?, hzero, hexValue?_hexDigit, Option.bind_eq_bind, Option.bind_some]
    exact congrArg some (by omega)
  · exact .bare ‹_› ‹_› ‹_›

theorem spelled_jsonChars (cs : List Char) : Spelled cs (jsonChars cs) := by
  induction cs with
  | nil => exact .nil
  | cons c cs ih => exact .cons (spelling_jsonChar c) ih

theorem quotes_jsonString : Quotes jsonString :=
  fun text => ⟨_, spelled_jsonChars text.toList, rfl⟩

end Json
end Text
end Treewalk
