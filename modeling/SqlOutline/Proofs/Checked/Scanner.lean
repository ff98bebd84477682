import SqlOutline.Proofs.Checked.Access

/-!
# Reading tokens by offsets

A reader that goes over a source one character at a time and keeps two offsets: that of the
next character, and the last byte of the character before. Comments and keywords are looked
for in parts that are cut out of the source by these offsets. The tokens come out with their
places, and no cut fails.

## Main results

* `Scanner.skipTrivia_behind`: trivia is passed over as `Trivia.leading` finds it.
* `Scanner.readToken_behind`: the token that comes next is that of `Lexeme.next`.
* `Scanner.tokens_start`: the tokens of a source are read with their places.
-/

namespace SqlOutline.Checked

open Lexeme (byteCount tokensFrom tokensOf)

/-- A reader of a source: the characters that are left, the offset of the first of them, and
the last byte of the character before. -/
structure Scanner where
  rest : List Char
  offset : Nat
  last : Nat
  deriving DecidableEq, Repr

namespace Scanner

/-- The reader in front of a source. -/
def start (source : String) : Scanner := ⟨source.toList, 0, 0⟩

/-- Takes the next character if there is one. -/
def bump (s : Scanner) : Scanner :=
  match s.rest with
  | [] => s
  | c :: rest => ⟨rest, s.offset + c.utf8Size, s.offset + c.utf8Size - 1⟩

/-- Takes a number of characters. -/
def advance : Nat → Scanner → Scanner
  | 0, s => s
  | n + 1, s => advance n s.bump

/-- Takes characters as long as they have a property. -/
def bumpWhile (p : Char → Bool) (s : Scanner) : Scanner :=
  advance (s.rest.takeWhile p).length s

/-- Whether the source goes on with a pattern. -/
def startsWith (source : String) (pattern : List Char) (s : Scanner) : Checked Bool :=
  match s.rest with
  | [] => return false
  | _ :: _ => do return pattern.isPrefixOf (← sliceText source s.offset source.utf8ByteSize)

/-! ### The reader behind a part of the source -/

/-- The reader that has taken the first part of a source and has the second one left. -/
def behind (taken rest : List Char) : Scanner := ⟨rest, byteCount taken, byteCount taken - 1⟩

/-- One step passes one character. -/
theorem bump_behind (taken : List Char) (c : Char) (rest : List Char) :
    (behind taken (c :: rest)).bump = behind (taken ++ [c]) rest := by
  rw [behind, behind, Lexeme.byteCount_append, byteCount, byteCount]
  rfl

/-- As many steps as a text has characters pass that text. -/
theorem advance_behind (taken cs rest : List Char) :
    advance cs.length (behind taken (cs ++ rest)) = behind (taken ++ cs) rest := by
  induction cs generalizing taken with
  | nil => rw [List.append_nil]; rfl
  | cons c cs ih => rw [List.cons_append, List.length_cons, advance, bump_behind, ih,
      List.append_assoc, List.singleton_append]

/-- The scanner passes the longest front whose characters satisfy a predicate. -/
theorem bumpWhile_behind (p : Char → Bool) (taken rest : List Char) :
    (behind taken rest).bumpWhile p =
      behind (taken ++ rest.takeWhile p) (rest.dropWhile p) := by
  have hadvance := advance_behind taken (rest.takeWhile p) (rest.dropWhile p)
  rwa [List.takeWhile_append_dropWhile] at hadvance

/-- Taking characters leaves no more of them. -/
theorem length_advance_le (n : Nat) (s : Scanner) :
    (advance n s).rest.length ≤ s.rest.length := by
  induction n generalizing s with
  | zero => exact Nat.le_refl _
  | succ n ih =>
      refine Nat.le_trans (ih s.bump) ?_
      rw [bump]
      split
      · exact Nat.le_refl _
      · next heq =>
        rw [heq]
        exact Nat.le_succ _

/-- Behind a part of the source the rest of it can be looked at. -/
theorem startsWith_behind {source : String} {taken rest : List Char}
    (h : source.toList = taken ++ rest) (c : Char) (cs : List Char) :
    (behind taken rest).startsWith source (c :: cs) = .ok ((c :: cs).isPrefixOf rest) := by
  cases rest with
  | nil => rfl
  | cons d rest =>
      have hslice := sliceText_to_end h
      rw [startsWith, behind]
      simp only [hslice]
      rfl

/-! ### Trivia -/

/-- Takes characters up to the end of a comment, or all of them if it is never closed. -/
def skipToClose (source : String) (s : Scanner) : Checked Scanner := do
  if ← s.startsWith source Trivia.closing then return s
  match _h : s.rest with
  | [] => return s
  | _ :: _ => skipToClose source s.bump
termination_by s.rest.length
decreasing_by
  rw [bump, _h]
  exact Nat.lt_succ_self _

/-- Passes over a comment if one comes next. -/
def skipComment (source : String) (s : Scanner) : Checked (Option Scanner) := do
  if ← s.startsWith source ['-', '-'] then return some (s.bumpWhile (· ≠ '\n'))
  if ← s.startsWith source ['/', '*'] then
    return some (← skipToClose source s.bump.bump).bump.bump
  return none

/-- Passes over blanks and comments. -/
def skipTrivia (source : String) (s : Scanner) : Checked Scanner := do
  let s' := s.bumpWhile isBlank
  match ← s'.skipComment source with
  | none => return s'
  | some t => if t.rest.length < s'.rest.length then skipTrivia source t else .error .endless
termination_by s.rest.length
decreasing_by
  exact Nat.lt_of_lt_of_le ‹_› (length_advance_le _ s)

section Trivia

variable {source : String} {taken rest : List Char}

/-- The body of a block comment goes up to the first closing mark behind it. -/
theorem exists_skipToClose_behind (h : source.toList = taken ++ rest) :
    ∃ body tail, rest = body ++ tail ∧
      skipToClose source (behind taken rest) = .ok (behind (taken ++ body) tail) ∧
      (tail = [] ∧ ¬ Trivia.closing <:+: body ∨
        ∃ after, tail = Trivia.closing ++ after ∧ ¬ Trivia.closing <:+: body ++ ['*']) := by
  induction rest generalizing taken with
  | nil =>
      refine ⟨[], [], rfl, ?_, .inl ⟨rfl, by simp [Trivia.closing]⟩⟩
      rw [skipToClose, List.append_nil]
      rfl
  | cons c rest ih =>
      have hstarts : (behind taken (c :: rest)).startsWith source Trivia.closing = _ :=
        startsWith_behind h '*' ['/']
      rw [skipToClose, hstarts]
      cases hclosing : ['*', '/'].isPrefixOf (c :: rest) with
      | true =>
          obtain ⟨after, hafter⟩ := List.isPrefixOf_iff_prefix.mp hclosing
          refine ⟨[], c :: rest, rfl, by rw [List.append_nil]; rfl,
            .inr ⟨after, hafter.symm, ?_⟩⟩
          simp [Trivia.closing, List.infix_cons_iff]
      | false =>
          have hopen : ¬ (c = '*' ∧ rest.head? = some '/') := by
            rintro ⟨rfl, hhead⟩
            obtain ⟨after, rfl⟩ := List.head?_eq_some_iff.mp hhead
            simp at hclosing
          have hbehind : source.toList = taken ++ [c] ++ rest := by simp [h]
          obtain ⟨body, tail, rfl, hskip, hends⟩ := ih hbehind
          refine ⟨c :: body, tail, rfl, ?_, ?_⟩
          · rw [← bump_behind, ← List.append_cons] at hskip
            exact hskip
          · rcases hends with ⟨rfl, hbody⟩ | ⟨after, rfl, hbody⟩
            · rw [List.append_nil] at hopen
              exact .inl ⟨rfl,
                by rw [Trivia.closing_infix_cons]; exact not_or.mpr ⟨hopen, hbody⟩⟩
            · refine .inr ⟨after, rfl, ?_⟩
              rw [List.cons_append, Trivia.closing_infix_cons]
              refine not_or.mpr ⟨fun hmeet => hopen ?_, hbody⟩
              cases body with
              | nil => exact absurd hmeet.2 (by simp)
              | cons d body => exact hmeet

/-- A comment up to the end of a line is one piece of trivia. -/
theorem exists_lineComment (taken text : List Char) :
    ∃ piece tail, ['-', '-'] ++ text = piece ++ tail ∧ piece ≠ [] ∧ Trivia.Piece piece tail ∧
      (behind taken (['-', '-'] ++ text)).bumpWhile (· ≠ '\n') =
        behind (taken ++ piece) tail := by
  refine ⟨'-' :: '-' :: text.takeWhile (· ≠ '\n'), text.dropWhile (· ≠ '\n'), ?_, by simp,
    .lineComment (fun hmem => ?_) ?_, bumpWhile_behind (· ≠ '\n') taken (['-', '-'] ++ text)⟩
  · simp [List.takeWhile_append_dropWhile]
  · simpa using List.mem_takeWhile_imp hmem
  · cases hend : text.dropWhile (· ≠ '\n') with
    | nil => exact .inl rfl
    | cons d tail =>
        have hnot := List.head?_dropWhile_not (· ≠ '\n') text
        rw [hend] at hnot
        exact .inr (by simpa using hnot)

/-- A comment between marks is one piece of trivia, also when it is never closed. -/
theorem exists_blockComment {text : List Char}
    (h : source.toList = taken ++ (['/', '*'] ++ text)) :
    ∃ piece tail closed, ['/', '*'] ++ text = piece ++ tail ∧ piece ≠ [] ∧
      Trivia.Piece piece tail ∧
      skipToClose source (behind taken (['/', '*'] ++ text)).bump.bump = .ok closed ∧
      closed.bump.bump = behind (taken ++ piece) tail := by
  have hbehind : source.toList = taken ++ ['/', '*'] ++ text := by rw [h, List.append_assoc]
  obtain ⟨body, tail, rfl, hskip, hends⟩ := exists_skipToClose_behind hbehind
  have hbump : (behind taken (['/', '*'] ++ (body ++ tail))).bump.bump =
      behind (taken ++ ['/', '*']) (body ++ tail) := advance_behind taken ['/', '*'] _
  rw [← hbump] at hskip
  rcases hends with ⟨rfl, hbody⟩ | ⟨after, rfl, hbody⟩
  · refine ⟨'/' :: '*' :: body, [], _, by simp, by simp, .openComment hbody, hskip, ?_⟩
    rw [List.append_assoc]
    rfl
  · refine ⟨'/' :: '*' :: (body ++ Trivia.closing), after, _, by simp, by simp,
      .blockComment hbody, hskip, ?_⟩
    have hclose : (behind (taken ++ ['/', '*'] ++ body) (Trivia.closing ++ after)).bump.bump =
        behind (taken ++ ['/', '*'] ++ body ++ Trivia.closing) after :=
      advance_behind (taken ++ ['/', '*'] ++ body) Trivia.closing after
    rw [hclose]
    simp

/-- A comment that comes next is passed over as one piece of trivia. -/
theorem skipComment_behind (h : source.toList = taken ++ rest) :
    (behind taken rest).skipComment source = .ok none ∧
        (∀ c cs, rest = c :: cs → isBlank c = false → Trivia.begins rest = false) ∨
      ∃ piece tail, rest = piece ++ tail ∧ piece ≠ [] ∧ Trivia.Piece piece tail ∧
        (behind taken rest).skipComment source =
          .ok (some (behind (taken ++ piece) tail)) := by
  have hline := startsWith_behind h '-' ['-']
  have hblock := startsWith_behind h '/' ['*']
  rw [skipComment, hline, hblock]
  cases hopens : ['-', '-'].isPrefixOf rest with
  | true =>
      obtain ⟨text, rfl⟩ := List.isPrefixOf_iff_prefix.mp hopens
      obtain ⟨piece, tail, hsplit, hne, hpiece, hbump⟩ := exists_lineComment taken text
      exact .inr ⟨piece, tail, hsplit, hne, hpiece, congrArg (Except.ok ∘ some) hbump⟩
  | false =>
      cases hopens' : ['/', '*'].isPrefixOf rest with
      | true =>
          obtain ⟨text, rfl⟩ := List.isPrefixOf_iff_prefix.mp hopens'
          obtain ⟨piece, tail, closed, hsplit, hne, hpiece, hskip, hclosed⟩ :=
            exists_blockComment h
          rw [hskip]
          exact .inr ⟨piece, tail, hsplit, hne, hpiece, congrArg (Except.ok ∘ some) hclosed⟩
      | false =>
          refine .inl ⟨rfl, fun c cs hrest hblank => ?_⟩
          subst hrest
          rw [Trivia.begins_cons_eq_false_iff]
          refine ⟨hblank, fun d hd => ?_⟩
          obtain ⟨more, rfl⟩ := List.head?_eq_some_iff.mp hd
          simp only [List.isPrefixOf, Bool.and_true] at hopens hopens'
          grind

/-- Blanks in front of trivia belong to them. -/
theorem leading_append_of_blanks {blanks : List Char} (h : ∀ c ∈ blanks, isBlank c = true)
    (after : List Char) :
    Trivia.leading .between (blanks ++ after) = blanks ++ Trivia.leading .between after := by
  induction blanks with
  | nil => rfl
  | cons c blanks ih =>
      obtain ⟨hc, hblanks⟩ := List.forall_mem_cons.mp h
      have hpiece : Trivia.Piece [c] (blanks ++ after) := .blank hc
      have hleading := Trivia.leading_append_of_piece hpiece
      rw [ih hblanks] at hleading
      exact hleading

/-- Blanks are passed over up to the first character that is none. -/
theorem exists_bumpWhile_isBlank (taken rest : List Char) :
    ∃ blanks tail, rest = blanks ++ tail ∧ (∀ c ∈ blanks, isBlank c = true) ∧
      (∀ c ∈ tail.head?, isBlank c = false) ∧
      (behind taken rest).bumpWhile isBlank = behind (taken ++ blanks) tail :=
  ⟨rest.takeWhile isBlank, rest.dropWhile isBlank, List.takeWhile_append_dropWhile.symm,
    fun _ hc => List.mem_takeWhile_imp hc, fun _ hc => Lexeme.not_of_mem_head?_dropWhile hc,
    bumpWhile_behind isBlank taken rest⟩

/-- Trivia is passed over as a whole. -/
theorem skipTrivia_behind (h : source.toList = taken ++ rest) :
    skipTrivia source (behind taken rest) =
      .ok (behind (taken ++ Trivia.leading .between rest) (Trivia.behind .between rest)) := by
  induction hn : rest.length using Nat.strongRecOn generalizing taken rest with
  | _ n ih =>
      obtain ⟨blanks, tail, rfl, hblanks, hhead, hbump⟩ := exists_bumpWhile_isBlank taken rest
      have hbehind : source.toList = taken ++ blanks ++ tail := by rw [h, List.append_assoc]
      rw [skipTrivia, hbump, Trivia.behind, leading_append_of_blanks hblanks]
      rcases skipComment_behind hbehind with
        ⟨hnone, hbegins⟩ | ⟨piece, after, rfl, hne, hpiece, hsome⟩
      · have hleading : Trivia.leading .between tail = [] := by
          cases tail with
          | nil => rfl
          | cons c cs => exact Trivia.leading_of_not_begins (hbegins c cs rfl (hhead c rfl))
        rw [hnone, hleading, List.append_nil, List.drop_left]
        rfl
      · have hpos := List.length_pos_iff.mpr hne
        have hafter : source.toList = taken ++ blanks ++ piece ++ after := by
          rw [hbehind, List.append_assoc _ piece]
        have hshort : after.length < n := by
          rw [← hn, List.length_append, List.length_append]
          omega
        have hlt : (behind (taken ++ blanks ++ piece) after).rest.length <
            (behind (taken ++ blanks) (piece ++ after)).rest.length := by
          simp only [behind, List.length_append]
          omega
        rw [hsome, Trivia.leading_append_of_piece hpiece, ← List.append_assoc blanks,
          ← List.append_assoc blanks, List.length_append, List.drop_length_add_append,
          ← List.append_assoc, ← List.append_assoc]
        exact (if_pos hlt).trans (ih after.length hshort hafter rfl)

end Trivia

/-! ### Tokens -/

/-- A token, and the reader behind it. -/
def past (s : Scanner) (token : Token × List Char) : Token × Scanner :=
  (token.1, s.advance (token.2.length + 1))

/-- Takes a word, which is a keyword if its text in the source spells one. -/
def readWord (source : String) (s : Scanner) : Checked (Token × Scanner) := do
  let t := s.bumpWhile isWordPart
  match Keyword.ofText? (← sliceText source s.offset (t.last + 1)) with
  | some keyword => return (.keyword keyword, t)
  | none => return (.identifier, t)

/-- Takes the token that begins with `c` and goes on with `rest`. -/
def readToken (source : String) (c : Char) (rest : List Char) (s : Scanner) :
    Checked (Token × Scanner) :=
  if c = Quoted.single then return s.past (.string, Quoted.tail c rest)
  else if c = Quoted.double ∨ c = Quoted.back then
    return s.past (.quotedIdentifier, Quoted.tail c rest)
  else if c = '[' then return s.past (.quotedIdentifier, Quoted.bracketTail rest)
  else if c.isDigit then return s.past (Lexeme.number rest)
  else if isWordStart c then s.readWord source
  else return s.past (Lexeme.symbol c rest)

/-- The tokens that come next, with their places. -/
def tokens (source : String) (s : Scanner) : Checked (List (Located Token)) := do
  let s' ← s.skipTrivia source
  match s'.rest with
  | [] => return []
  | c :: rest =>
    let (token, t) ← s'.readToken source c rest
    if t.rest.length < s.rest.length then
      return ⟨token, s'.offset, t.last⟩ :: (← tokens source t)
    else .error .endless
termination_by s.rest.length

section Tokens

variable {source : String} {taken : List Char} {c : Char} {rest : List Char}

/-- The reader behind a token has taken its characters. -/
theorem past_behind (taken : List Char) (c : Char) {token : Token × List Char}
    (h : token.2 <+: rest) : (behind taken (c :: rest)).past token =
      (token.1, behind (taken ++ c :: token.2) (rest.drop token.2.length)) := by
  obtain ⟨after, rfl⟩ := h
  have hadvance := advance_behind taken (c :: token.2) after
  rw [past, List.drop_left]
  exact congrArg (Prod.mk token.1) hadvance

/-- A word is looked up by its text. -/
theorem readWord_behind (h : source.toList = taken ++ c :: rest) (hc : isWordStart c = true) :
    (behind taken (c :: rest)).readWord source =
      .ok ((behind taken (c :: rest)).past (Lexeme.word c rest)) := by
  have htake := List.takeWhile_cons_of_pos (l := rest) (isWordPart_of_isWordStart hc)
  have hbump := bumpWhile_behind isWordPart taken (c :: rest)
  have hsplit : source.toList = taken ++ (c :: rest.takeWhile isWordPart ++
      rest.dropWhile isWordPart) := by
    rw [h, List.cons_append, List.takeWhile_append_dropWhile]
  have hslice := sliceText_of_split hsplit
  have hpos : 0 < byteCount (taken ++ c :: rest.takeWhile isWordPart) :=
    Lexeme.byteCount_pos (by simp)
  have hlast : ((behind taken (c :: rest)).bumpWhile isWordPart).last + 1 =
      byteCount (taken ++ c :: rest.takeWhile isWordPart) := by
    rw [hbump, htake]
    exact Nat.sub_add_cancel hpos
  have hpast : (behind taken (c :: rest)).past (Lexeme.word c rest) =
      ((Lexeme.word c rest).1, (behind taken (c :: rest)).bumpWhile isWordPart) := by
    rw [past, Lexeme.word_snd, bumpWhile, behind, htake]
    rfl
  rw [hpast, readWord, hlast, behind, hslice, Lexeme.word]
  simp only [bind, Except.bind]
  cases Keyword.ofText? (c :: rest.takeWhile isWordPart) <;> rfl

/-- The token that comes next is read with all its characters. -/
theorem readToken_behind (h : source.toList = taken ++ c :: rest) :
    (behind taken (c :: rest)).readToken source c rest =
      .ok ((Lexeme.next c rest).1, behind (taken ++ c :: (Lexeme.next c rest).2)
        (rest.drop (Lexeme.next c rest).2.length)) := by
  rw [← past_behind taken c (Lexeme.prefix_next c rest), readToken, Lexeme.next]
  split_ifs with _ _ _ _ hword
  · rfl
  · rfl
  · rfl
  · rfl
  · exact readWord_behind h hword
  · rfl

/-- Behind the trivia at the end there are no tokens. -/
theorem tokens_of_nil {s t : Scanner} (hskip : s.skipTrivia source = .ok t)
    (hrest : t.rest = []) : s.tokens source = .ok [] := by
  rw [tokens, hskip, ok_bind, hrest]
  rfl

/-- The tokens are the first one and those behind it, if the first one moves the scanner on. -/
theorem tokens_of_cons {s t u : Scanner} {token : Token} {more : List (Located Token)}
    (hskip : s.skipTrivia source = .ok t) (hrest : t.rest = c :: rest)
    (hread : t.readToken source c rest = .ok (token, u))
    (hshort : u.rest.length < s.rest.length) (hmore : u.tokens source = .ok more) :
    s.tokens source = .ok (⟨token, t.offset, u.last⟩ :: more) := by
  rw [tokens, hskip, ok_bind, hrest]
  dsimp only
  rw [hread, ok_bind, if_pos hshort, hmore, ok_bind]
  rfl

/-- The tokens that come next are those of the lexemes of what is left. -/
theorem tokens_behind (h : source.toList = taken ++ rest) :
    (behind taken rest).tokens source =
      .ok (tokensFrom (byteCount taken) (Lexeme.ofText rest)) := by
  induction hn : rest.length using Nat.strongRecOn generalizing taken rest with
  | _ n ih =>
      have hsplit := Trivia.leading_append_behind .between rest
      have hskip := skipTrivia_behind h
      cases hbehind : Trivia.behind .between rest with
      | nil =>
          rw [hbehind] at hskip
          rw [Lexeme.ofText_of_behind_nil hbehind]
          exact tokens_of_nil hskip rfl
      | cons c tail =>
          obtain ⟨after, hafter⟩ := Lexeme.prefix_next c tail
          rw [hbehind] at hskip hsplit
          have hwhole : source.toList = taken ++ Trivia.leading .between rest ++
              c :: tail := by
            rw [List.append_assoc, hsplit, h]
          have hread := readToken_behind hwhole
          rw [Lexeme.ofText_of_behind_cons hbehind, Lexeme.tokensFrom_cons]
          generalize Trivia.leading .between rest = gap at hskip hsplit hread hwhole ⊢
          generalize Lexeme.next c tail = next at hread hafter ⊢
          subst hafter
          rw [List.drop_left] at hread ⊢
          have hshort : after.length < rest.length := by
            rw [← hsplit]
            simp only [List.length_append, List.length_cons]
            omega
          have hrest : source.toList = taken ++ gap ++ c :: next.2 ++ after := by
            rw [hwhole, List.append_assoc _ (c :: next.2), List.cons_append]
          have hplace : byteCount (taken ++ gap ++ c :: next.2) =
              byteCount taken + byteCount (Lexeme.source ⟨gap, next.1, c :: next.2⟩) := by
            rw [List.append_assoc, Lexeme.byteCount_append]
            rfl
          rw [← hplace, ← Lexeme.byteCount_append]
          exact tokens_of_cons hskip rfl hread hshort (ih _ (hn ▸ hshort) hrest rfl)

/-- The tokens of a source are read with their places. -/
theorem tokens_start (source : String) :
    (start source).tokens source = .ok (tokensOf source) := by
  have hwhole : source.toList = [] ++ source.toList := rfl
  exact tokens_behind hwhole

end Tokens

end Scanner

end SqlOutline.Checked
