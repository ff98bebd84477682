import SqlOutline.Proofs.NumeralGrammar
import SqlOutline.Proofs.QuotedContents

/-!
# Tokens as longest matches

The tokens of a text are written here as a grammar, by the texts that each kind of token may
have, without saying how they are read. Only the texts that are never closed need to know that
they stand at the end of the source. A token of a source is then the longest text of the
grammar that stands at its place, and of the kind that the grammar gives to this text.

## Main results

* `Lexeme.matches_of_next`: a token is a text of the grammar.
* `Lexeme.exists_isRead_of_matches`: no text of the grammar at the place of a token is longer.
* `tokenizesLongest_tokensOf`: the tokens of a source are its longest matches.
-/

namespace SqlOutline

/-! ### The grammar -/

namespace Token

/-- The operators of two characters. -/
def operators : List (Char × Char × Token) :=
  [('=', '=', equal), ('<', '>', lessOrGreaterThan), ('<', '=', lessThanOrEqual),
   ('>', '=', greaterThanOrEqual), ('!', '=', notEqual), ('|', '|', concat)]

/-- The characters with a token of their own. -/
def symbols : List (Char × Token) :=
  [('=', equal), ('<', lessThan), ('>', greaterThan), ('.', period), (',', comma),
   (';', semicolon), ('(', leftParen), (')', rightParen), ('?', question), ('^', caret),
   ('+', plus), ('-', minus), ('*', asterisk), ('/', slash), ('%', percent)]

/-- Whether a character begins no word, no number and no quoted text. -/
def isSymbolic (c : Char) : Bool :=
  !isWordStart c && !c.isDigit && !Quoted.marks.contains c && c != '['

/-- The texts that a token may have in front of another text. -/
inductive Matches : Token → List Char → List Char → Prop
  | keyword {k : Keyword} {c : Char} {tail after : List Char} :
      isWordStart c = true → (∀ d ∈ tail, isWordPart d = true) →
      (c :: tail).map Char.toUpper = k.name.toList → Matches (.keyword k) (c :: tail) after
  | identifier {c : Char} {tail after : List Char} :
      isWordStart c = true → (∀ d ∈ tail, isWordPart d = true) →
      (∀ k : Keyword, (c :: tail).map Char.toUpper ≠ k.name.toList) →
      Matches .identifier (c :: tail) after
  | number {n : Numeral} {after : List Char} :
      n.IsFormed → n.whole ≠ [] → Matches (.number n.isFloat) n.text after
  | quoted {mark : Char} {contents after : List Char} :
      mark ∈ Quoted.marks → Matches (Quoted.token mark) (Quoted.enclosed mark contents) after
  | openQuoted {mark : Char} {contents : List Char} :
      mark ∈ Quoted.marks →
      Matches (Quoted.token mark) (mark :: contents.flatMap (Quoted.doubled mark)) []
  | bracketed {contents after : List Char} :
      ']' ∉ contents → Matches .quotedIdentifier ('[' :: (contents ++ [']'])) after
  | openBracketed {contents : List Char} :
      ']' ∉ contents → Matches .quotedIdentifier ('[' :: contents) []
  | operator {c d : Char} {token : Token} {after : List Char} :
      (c, d, token) ∈ operators → Matches token [c, d] after
  | symbol {c : Char} {token : Token} {after : List Char} :
      (c, token) ∈ symbols → Matches token [c] after
  | other {c : Char} {after : List Char} :
      isSymbolic c = true → c ∉ symbols.map (·.1) → Matches .other [c] after

/-- Whether a quoted text has its closing mark. -/
def IsClosed (text : List Char) : Prop :=
  (∃ mark ∈ Quoted.marks, ∃ contents, text = Quoted.enclosed mark contents) ∨
    ∃ contents, ']' ∉ contents ∧ text = '[' :: (contents ++ [']'])

/-- Whether a text is the longest one of the grammar at the front of another,
with its token. -/
structure IsLongest (token : Token) (text rest : List Char) : Prop where
  found : ∃ after, rest = text ++ after ∧ Matches token text after
  longest : ∀ kind front after, rest = front ++ after → Matches kind front after →
    front.length ≤ text.length ∧ (front = text → kind = token)

/-- The table of operators agrees with the reader of pairs. -/
theorem operators_spec : ∀ row ∈ operators,
    isSymbolic row.1 = true ∧ ofPair? row.1 row.2.1 = some row.2.2 := by
  decide +kernel

/-- The table of symbols agrees with the reader of single characters. -/
theorem symbols_spec : ∀ row ∈ symbols, isSymbolic row.1 = true ∧ ofChar row.1 = row.2 := by
  decide +kernel

/-- Two characters are an operator if they are listed as one. -/
theorem mem_operators_of_ofPair? {c d : Char} {token : Token} (h : ofPair? c d = some token) :
    (c, d, token) ∈ operators := by
  unfold ofPair? at h
  split at h
  case h_7 => cases h
  all_goals
    obtain rfl := Option.some_inj.mp h
    decide

/-- A character with no token of its own is just some character. -/
theorem ofChar_eq_other {c : Char} (h : c ∉ symbols.map (·.1)) : ofChar c = other := by
  unfold ofChar
  split
  case h_16 => rfl
  all_goals exact absurd (by decide) h

end Token

/-- What spells no keyword is any other word. -/
theorem Keyword.ofText?_eq_none_iff {cs : List Char} :
    ofText? cs = none ↔ ∀ k : Keyword, cs.map Char.toUpper ≠ k.name.toList := by
  rw [Option.eq_none_iff_forall_ne_some]
  exact forall_congr' fun k => not_congr ofText?_eq_some_iff

open Lexeme (byteCount tokensOf)
open Token (Matches IsLongest symbols isSymbolic)

namespace Lexeme

/-- A symbol is read wherever nothing else begins. -/
theorem next_of_isSymbolic {c : Char} (h : isSymbolic c = true) (rest : List Char) :
    next c rest = symbol c rest := by
  simp only [isSymbolic, Bool.and_eq_true, Bool.not_eq_true', bne_iff_ne, List.contains_eq_mem,
    decide_eq_false_iff_not, Quoted.mem_marks_iff, not_or] at h
  obtain ⟨⟨⟨hword, hdigit⟩, hsingle, hdouble, hback⟩, hbracket⟩ := h
  rw [next, if_neg hsingle, if_neg (by tauto), if_neg hbracket, hdigit,
    if_neg (by decide), hword, if_neg (by decide)]

/-- A bracket begins a quoted name. -/
theorem next_bracket (rest : List Char) :
    next '[' rest = (.quotedIdentifier, Quoted.bracketTail rest) := rfl

end Lexeme

/-! ### Quoted texts -/

namespace Quoted

/-- A mark behind the contents closes a quoted text. -/
theorem prefix_tail_mark (mark : Char) (behind : List Char) :
    [mark] <+: tail mark (mark :: behind) := by
  cases behind with
  | nil => simp [tail]
  | cons d behind =>
      rw [tail, if_pos rfl]
      split_ifs
      · exact ⟨_, rfl⟩
      · exact List.prefix_rfl

/-- What is read behind an opening mark ends in a closing one or with the text. -/
theorem exists_contents_tail (mark : Char) (cs : List Char) : ∃ contents : List Char,
    tail mark cs = contents.flatMap (doubled mark) ++ [mark] ∨
      tail mark cs = cs ∧ cs = contents.flatMap (doubled mark) := by
  fun_induction tail mark cs with
  | case1 => exact ⟨[], .inr ⟨rfl, rfl⟩⟩
  | case2 rest ih =>
      obtain ⟨contents, h⟩ := ih
      refine ⟨mark :: contents, h.imp (fun h => ?_) fun h => ?_⟩
      · rw [h, List.flatMap_cons, doubled, if_pos rfl]
        rfl
      · rw [List.flatMap_cons, doubled, if_pos rfl, ← h.2, h.1]
        exact ⟨rfl, rfl⟩
  | case3 d rest hd => exact ⟨[], .inl rfl⟩
  | case4 => exact ⟨[], .inl rfl⟩
  | case5 c rest hc ih =>
      obtain ⟨contents, h⟩ := ih
      refine ⟨c :: contents, h.imp (fun h => ?_) fun h => ?_⟩
      · rw [h, List.flatMap_cons, doubled, if_neg hc]
        rfl
      · rw [List.flatMap_cons, doubled, if_neg hc, ← h.2, h.1]
        exact ⟨rfl, rfl⟩

/-- Contents without a bracket are passed over. -/
theorem bracketTail_append {contents : List Char} (h : ']' ∉ contents) (behind : List Char) :
    bracketTail (contents ++ behind) = contents ++ bracketTail behind := by
  induction contents with
  | nil => rfl
  | cons c contents ih =>
      rw [List.mem_cons, not_or] at h
      rw [List.cons_append, bracketTail, if_neg (Ne.symm h.1), ih h.2, List.cons_append]

/-- What is read behind an opening bracket ends in a closing one or with the text. -/
theorem exists_contents_bracketTail (cs : List Char) : ∃ contents, ']' ∉ contents ∧
    (bracketTail cs = contents ++ [']'] ∨ bracketTail cs = cs ∧ cs = contents) := by
  induction cs with
  | nil => exact ⟨[], by simp, .inr ⟨rfl, rfl⟩⟩
  | cons c cs ih =>
      rw [bracketTail]
      split_ifs with hc
      · exact ⟨[], by simp, .inl (by rw [hc]; rfl)⟩
      · obtain ⟨contents, hcontents, h⟩ := ih
        refine ⟨c :: contents, ?_, h.imp (fun h => by rw [h]; rfl) fun h => ?_⟩
        · rw [List.mem_cons, not_or]
          exact ⟨Ne.symm hc, hcontents⟩
        · rw [← h.2, h.1]
          exact ⟨rfl, rfl⟩

end Quoted

namespace Lexeme

/-! ### Texts of the grammar are read -/

/-- A word is a keyword if it is the name of one. -/
theorem word_fst (c : Char) (rest : List Char) : (word c rest).1 =
    (Keyword.ofText? (c :: rest.takeWhile isWordPart)).elim .identifier .keyword := by
  unfold word
  dsimp only
  split
  · next hk => rw [hk]; rfl
  · next hk => rw [hk]; rfl

/-- Whether a text stands at the front of the token that is read at its place, which is of the
given kind if it is no longer. -/
def IsRead (token : Token) (c : Char) (tail after : List Char) : Prop :=
  tail <+: (next c (tail ++ after)).2 ∧
    ((next c (tail ++ after)).2 = tail → (next c (tail ++ after)).1 = token)

section IsRead

variable {token : Token} {c mark : Char} {tail contents closing after : List Char}

/-- Words are read. -/
theorem isRead_word (hc : isWordStart c = true) (htail : ∀ d ∈ tail, isWordPart d = true) :
    IsRead ((Keyword.ofText? (c :: tail)).elim .identifier .keyword) c tail after := by
  rw [IsRead, next_of_isWordStart hc]
  constructor
  · rw [word_snd, List.takeWhile_append_of_pos htail]
    exact List.prefix_append _ _
  · intro hwhole
    rw [word_fst, ← word_snd c, hwhole]

/-- Numbers are read. -/
theorem isRead_number {n : Numeral} (hc : c.isDigit = true) (hn : n.IsFormed) :
    IsRead (.number n.isFloat) c n.text after := by
  rw [IsRead, next_of_isDigit hc, number]
  refine ⟨Numeral.munches_leading.longest hn.text_mem, fun hwhole => congrArg Token.number ?_⟩
  dsimp only at hwhole
  rw [Bool.eq_iff_iff, ← not_iff_not, Bool.not_eq_true, Bool.not_eq_true,
    (Numeral.isFormed_leading _).isFloat_eq_false_iff, hwhole, hn.isFloat_eq_false_iff]

/-- Quoted texts are read. -/
theorem isRead_quoted (hmark : mark ∈ Quoted.marks)
    (hclosing : closing <+: Quoted.tail mark (closing ++ after)) :
    IsRead (Quoted.token mark) mark (contents.flatMap (Quoted.doubled mark) ++ closing)
      after := by
  rw [IsRead, Quoted.next_of_mem_marks hmark, List.append_assoc, Quoted.tail_flatMap_doubled,
    List.prefix_append_right_inj]
  exact ⟨hclosing, fun _ => rfl⟩

/-- Names in brackets are read. -/
theorem isRead_bracketed (hcontents : ']' ∉ contents)
    (hclosing : closing <+: Quoted.bracketTail (closing ++ after)) :
    IsRead .quotedIdentifier '[' (contents ++ closing) after := by
  rw [IsRead, next_bracket, List.append_assoc, Quoted.bracketTail_append hcontents,
    List.prefix_append_right_inj]
  exact ⟨hclosing, fun _ => rfl⟩

/-- Operators of two characters are read. -/
theorem isRead_operator {d : Char} (hc : isSymbolic c = true)
    (hpair : Token.ofPair? c d = some token) : IsRead token c [d] after := by
  rw [IsRead, next_of_isSymbolic hc, List.singleton_append, symbol, hpair]
  exact ⟨List.prefix_rfl, fun _ => rfl⟩

/-- Symbols of one character are read. -/
theorem isRead_symbol (hc : isSymbolic c = true) : IsRead (Token.ofChar c) c [] after := by
  rw [IsRead, next_of_isSymbolic hc]
  exact ⟨List.nil_prefix, fun halone => by rw [symbol_of_alone halone]⟩

end IsRead

/-- No text of the grammar is longer than the token that is read at its place. -/
theorem exists_isRead_of_matches {token : Token} {text after : List Char}
    (h : Matches token text after) :
    ∃ c tail, text = c :: tail ∧ IsRead token c tail after := by
  cases h with
  | keyword hc htail hname =>
      have hread : IsRead _ _ _ after := isRead_word hc htail
      rw [Keyword.ofText?_eq_some_iff.mpr hname] at hread
      exact ⟨_, _, rfl, hread⟩
  | identifier hc htail hname =>
      have hread : IsRead _ _ _ after := isRead_word hc htail
      rw [Keyword.ofText?_eq_none_iff.mpr hname] at hread
      exact ⟨_, _, rfl, hread⟩
  | @number n _ hn hne =>
      obtain ⟨whole, fraction, exponent⟩ := n
      cases whole with
      | nil => exact absurd rfl hne
      | cons c whole =>
          obtain ⟨hc, hrest⟩ := Numeral.isFormed_cons_iff.mp hn
          exact ⟨c, _, rfl, isRead_number hc hrest⟩
  | quoted hmark => exact ⟨_, _, rfl, isRead_quoted hmark (Quoted.prefix_tail_mark _ _)⟩
  | openQuoted hmark =>
      refine ⟨_, _, rfl, ?_⟩
      rw [← List.append_nil (List.flatMap _ _)]
      exact isRead_quoted hmark List.nil_prefix
  | bracketed hcontents => exact ⟨_, _, rfl, isRead_bracketed hcontents List.prefix_rfl⟩
  | @openBracketed contents hcontents =>
      refine ⟨_, _, rfl, ?_⟩
      rw [← List.append_nil contents]
      exact isRead_bracketed hcontents List.nil_prefix
  | operator hrow =>
      obtain ⟨hc, hpair⟩ := Token.operators_spec _ hrow
      exact ⟨_, _, rfl, isRead_operator hc hpair⟩
  | symbol hrow =>
      obtain ⟨hc, hchar⟩ := Token.symbols_spec _ hrow
      rw [← show _ = token from hchar]
      exact ⟨_, _, rfl, isRead_symbol hc⟩
  | other hc hnone =>
      rw [← Token.ofChar_eq_other hnone]
      exact ⟨_, _, rfl, isRead_symbol hc⟩

/-! ### Tokens are texts of the grammar -/

/-- A word that is read matches. -/
theorem matches_word {c : Char} (hc : isWordStart c = true) (rest after : List Char) :
    Matches (word c rest).1 (c :: (word c rest).2) after := by
  have htail : ∀ d ∈ rest.takeWhile isWordPart, isWordPart d = true :=
    fun _ => List.mem_takeWhile_imp
  rw [word_fst, word_snd]
  cases hname : Keyword.ofText? (c :: rest.takeWhile isWordPart) with
  | none => exact .identifier hc htail (Keyword.ofText?_eq_none_iff.mp hname)
  | some k => exact .keyword hc htail (Keyword.ofText?_eq_some_iff.mp hname)

/-- A symbol that is read matches. -/
theorem matches_symbol {c : Char} (hc : isSymbolic c = true) (rest after : List Char) :
    Matches (symbol c rest).1 (c :: (symbol c rest).2) after := by
  have halone : Matches (Token.ofChar c) [c] after := by
    by_cases hlisted : c ∈ symbols.map (·.1)
    · obtain ⟨⟨c, token⟩, hrow, rfl⟩ := List.mem_map.mp hlisted
      rw [(Token.symbols_spec _ hrow).2]
      exact .symbol hrow
    · rw [Token.ofChar_eq_other hlisted]
      exact .other hc hlisted
  cases rest with
  | nil => exact halone
  | cons d rest =>
      rw [symbol]
      cases hpair : Token.ofPair? c d with
      | none => exact halone
      | some token => exact .operator (Token.mem_operators_of_ofPair? hpair)

/-- A number that is read matches. -/
theorem matches_number {c : Char} (hc : c.isDigit = true) (rest after : List Char) :
    Matches (number rest).1 (c :: (number rest).2) after := by
  have hformed := Numeral.isFormed_leading rest
  rw [number]
  generalize Numeral.leading rest = n at hformed ⊢
  obtain ⟨whole, fraction, exponent⟩ := n
  exact .number (n := ⟨c :: whole, fraction, exponent⟩)
    (Numeral.isFormed_cons_iff.mpr ⟨hc, hformed⟩) (List.cons_ne_nil _ _)

/-- A quoted text that is read matches. -/
theorem matches_quoted {mark : Char} {tail after : List Char} (hmark : mark ∈ Quoted.marks)
    (h : Quoted.tail mark (tail ++ after) = tail) :
    Matches (Quoted.token mark) (mark :: tail) after := by
  obtain ⟨contents, hclosed | ⟨hopen, hcontents⟩⟩ :=
    Quoted.exists_contents_tail mark (tail ++ after)
  · rw [← h, hclosed]
    exact .quoted hmark
  · obtain rfl : after = [] := by simpa [h] using hopen
    rw [List.append_nil] at hcontents
    rw [hcontents]
    exact .openQuoted hmark

/-- A name in brackets that is read matches. -/
theorem matches_bracketed {tail after : List Char}
    (h : Quoted.bracketTail (tail ++ after) = tail) :
    Matches .quotedIdentifier ('[' :: tail) after := by
  obtain ⟨contents, hnone, hclosed | ⟨hopen, hcontents⟩⟩ :=
    Quoted.exists_contents_bracketTail (tail ++ after)
  · rw [← h, hclosed]
    exact .bracketed hnone
  · obtain rfl : after = [] := by simpa [h] using hopen
    rw [List.append_nil] at hcontents
    rw [hcontents]
    exact .openBracketed hnone

/-- A token is a text of the grammar. -/
theorem matches_of_next {c : Char} {tail after : List Char} {token : Token}
    (h : next c (tail ++ after) = (token, tail)) : Matches token (c :: tail) after := by
  by_cases hmark : c ∈ Quoted.marks
  · rw [Quoted.next_of_mem_marks hmark, Prod.mk.injEq] at h
    rw [← h.1]
    exact matches_quoted hmark h.2
  by_cases hbracket : c = '['
  · subst hbracket
    rw [next_bracket, Prod.mk.injEq] at h
    rw [← h.1]
    exact matches_bracketed h.2
  by_cases hdigit : c.isDigit = true
  · have hmatches := matches_number hdigit (tail ++ after) after
    rwa [← next_of_isDigit hdigit, h] at hmatches
  by_cases hword : isWordStart c = true
  · have hmatches := matches_word hword (tail ++ after) after
    rwa [← next_of_isWordStart hword, h] at hmatches
  · have hsymbolic : isSymbolic c = true := by
      simp [isSymbolic, hword, hdigit, hmark, hbracket]
    have hmatches := matches_symbol hsymbolic (tail ++ after) after
    rwa [← next_of_isSymbolic hsymbolic, h] at hmatches

/-- The token that is read is the longest text of the grammar at its place. -/
theorem isLongest_of_next {c : Char} {tail after : List Char} {token : Token}
    (h : next c (tail ++ after) = (token, tail)) :
    IsLongest token (c :: tail) (c :: (tail ++ after)) where
  found := ⟨after, rfl, matches_of_next h⟩
  longest kind front behind hrest hmatches := by
    obtain ⟨d, shorter, rfl, hread⟩ := exists_isRead_of_matches hmatches
    rw [List.cons_append, List.cons.injEq] at hrest
    obtain ⟨rfl, hrest⟩ := hrest
    rw [IsRead, ← hrest, h] at hread
    refine ⟨Nat.succ_le_succ hread.1.length_le, fun heq => ?_⟩
    exact (hread.2 (List.cons.inj heq).2.symm).symm

end Lexeme

/-- Located tokens that are the longest texts of the grammar at their places. -/
structure TokenizesLongest (source : String) (tokens : List (Located Token)) : Prop where
  longest : ∀ t ∈ tokens, IsLongest t.value (slice source t.first (t.last + 1))
    (slice source t.first source.utf8ByteSize)
  openToEnd : ∀ t ∈ tokens, t.value = .string ∨ t.value = .quotedIdentifier →
    ¬ Token.IsClosed (slice source t.first (t.last + 1)) → t.last + 1 = source.utf8ByteSize

/-- A quoted text without its closing mark is the end of the source. -/
theorem Token.Matches.eq_nil_of_not_isClosed {token : Token} {text after : List Char}
    (h : Matches token text after) (htoken : token = .string ∨ token = .quotedIdentifier)
    (hopen : ¬ IsClosed text) : after = [] := by
  cases h with
  | keyword => simp at htoken
  | identifier => simp at htoken
  | number => simp at htoken
  | quoted hmark => exact absurd (.inl ⟨_, hmark, _, rfl⟩) hopen
  | openQuoted => rfl
  | bracketed hcontents => exact absurd (.inr ⟨_, hcontents, rfl⟩) hopen
  | openBracketed => rfl
  | operator hrow =>
      have hnone : ∀ row ∈ operators, ¬ (row.2.2 = .string ∨ row.2.2 = .quotedIdentifier) := by
        decide
      exact absurd htoken (hnone _ hrow)
  | symbol hrow =>
      have hnone : ∀ row ∈ symbols, ¬ (row.2 = .string ∨ row.2 = .quotedIdentifier) := by
        decide
      exact absurd htoken (hnone _ hrow)
  | other => simp at htoken

/-- No keyword begins with anything but a letter. -/
theorem Token.Matches.isWordStart {token : Token} {c : Char} {tail after : List Char}
    (h : Matches token (c :: tail) after) (htoken : token.isAnyKeyword = true) :
    isWordStart c = true := by
  have hquoted : ∀ mark, (Quoted.token mark).isAnyKeyword = false := by
    intro mark
    unfold Quoted.token
    split <;> rfl
  generalize htext : c :: tail = text at h
  cases h with
  | keyword hc => exact (List.cons.inj htext).1 ▸ hc
  | quoted | openQuoted => simp [hquoted] at htoken
  | operator hrow =>
      have hnone : ∀ row ∈ operators, row.2.2.isAnyKeyword = false := by decide
      exact absurd htoken (by simp [hnone _ hrow])
  | symbol hrow =>
      have hnone : ∀ row ∈ symbols, row.2.isAnyKeyword = false := by decide
      exact absurd htoken (by simp [hnone _ hrow])
  | _ => cases htoken

/-- The tokens of a source are its longest matches. -/
theorem tokenizesLongest_tokensOf (source : String) :
    TokenizesLongest source (tokensOf source) := by
  have hplaces : ∀ t ∈ tokensOf source, ∃ text after, IsLongest t.value text (text ++ after) ∧
      Matches t.value text after ∧ slice source t.first (t.last + 1) = text ∧
      slice source t.first source.utf8ByteSize = text ++ after ∧
      source.utf8ByteSize = t.last + 1 + byteCount after := by
    intro t ht
    obtain ⟨before, _, _, c, tail, after, hcs, hfirst, hlast, -, hnext⟩ :=
      Lexeme.seam_of_mem ht
    have hsplit : source.toList = before ++ ((c :: tail) ++ after) := hcs
    refine ⟨c :: tail, after, Lexeme.isLongest_of_next hnext,
      Lexeme.matches_of_next hnext, ?_, ?_, ?_⟩
    · rw [hfirst, hlast, Lexeme.slice_of_split hsplit]
    · rw [hfirst, Lexeme.slice_to_end hsplit]
    · rw [Lexeme.utf8ByteSize_eq_byteCount, hsplit, hlast, ← Lexeme.byteCount_append,
        List.append_assoc]
  constructor
  · intro t ht
    obtain ⟨text, after, hlongest, -, htext, hrest, -⟩ := hplaces t ht
    rwa [htext, hrest]
  · intro t ht htoken hopen
    obtain ⟨text, after, -, hmatches, htext, -, hsize⟩ := hplaces t ht
    rw [htext] at hopen
    obtain rfl := hmatches.eq_nil_of_not_isClosed htoken hopen
    rw [hsize, Lexeme.byteCount_nil, Nat.add_zero]

/-- A doubled mark at the end of the source leaves a text open. -/
example : (tokensOf "1.e+!='a''").map (fun t => (t.value, t.first, t.last)) =
    [(.number true, 0, 3), (.notEqual, 4, 5), (.string, 6, 9)] := by
  decide +kernel

end SqlOutline
