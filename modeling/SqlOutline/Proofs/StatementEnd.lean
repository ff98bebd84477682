import SqlOutline.Proofs.Seam
import SqlOutline.Proofs.Spelling

/-!
# What follows a statement

A statement ends at its first semicolon outside of parentheses. What stands behind it has no
bearing on the outline: a text has the clauses of its first part up to the semicolon, although
the scan of that part does not end at a semicolon but with its last lexeme, and although blanks
in front of the semicolon are trimmed there.

## Main results

* `Section.cut_mark_append`: the sections of a statement, and finished ones behind them.
* `Lexeme.Seam.exists_ofText_semicolon`: the lexemes of a text, and of its part up to a
  semicolon.
* `Query.sameButSource_of_semicolon?`: the outline does not depend on what follows a statement.
-/

namespace SqlOutline

/-- Whether two outlines differ in their sources at most. -/
def Query.SameButSource (q r : Query) : Prop := q = { r with source := q.source }

/-- Two outlines that are like a third one but for the source are so themselves. -/
theorem Query.SameButSource.of_common {p q r : Query} (h : SameButSource q p)
    (h' : SameButSource r p) : SameButSource q r := by
  calc q = { p with source := q.source } := h
    _ = { r with source := q.source } := by rw [h']

/-- The byte at which the first semicolon outside of parentheses stands, if the first token
stands at depth `depth`. -/
def Located.semicolon? (depth : Nat) : List (Located Token) → Option Nat
  | [] => none
  | t :: rest =>
    if depth = 0 ∧ t.value = .semicolon then some t.first
    else semicolon? (t.value.depthAfter depth) rest

/-- Whether tokens of which the first stands at depth `depth` lead back to depth zero without
a semicolon there. -/
def Token.isStatement (depth : Nat) : List Token → Bool
  | [] => depth == 0
  | token :: rest =>
    (depth != 0 || token != .semicolon) && isStatement (token.depthAfter depth) rest

/-- A statement goes on as long as no semicolon stands outside of parentheses. -/
theorem Token.isStatement_cons {depth : Nat} {token : Token} {rest : List Token} :
    isStatement depth (token :: rest) = true ↔
      ¬ (depth = 0 ∧ token = .semicolon) ∧
        isStatement (token.depthAfter depth) rest = true := by
  simp [isStatement, imp_iff_not_or]

namespace Lexeme

/-- In front of the first semicolon outside of parentheses stands a statement. -/
theorem exists_of_semicolon? {offset depth p : Nat} {ls : List Lexeme}
    (h : Located.semicolon? depth (tokensFrom offset ls) = some p) :
    ∃ xs l ys, ls = xs ++ l :: ys ∧ Token.isStatement depth (xs.map (·.token)) = true ∧
      l.token = .semicolon ∧ p = offset + byteCount (xs.flatMap source ++ l.gap) := by
  induction ls generalizing offset depth with
  | nil => simp [Located.semicolon?] at h
  | cons l ls ih =>
      rw [tokensFrom_cons, Located.semicolon?] at h
      dsimp only at h
      split_ifs at h with hend
      · obtain rfl := Option.some_inj.mp h
        exact ⟨[], l, ls, rfl, by simp [Token.isStatement, hend.1], hend.2, rfl⟩
      · obtain ⟨xs, m, ys, rfl, hstatement, hm, rfl⟩ := ih h
        refine ⟨l :: xs, m, ys, rfl, ?_, hm, ?_⟩
        · rw [List.map_cons, Token.isStatement_cons]
          exact ⟨hend, hstatement⟩
        · simp only [List.flatMap_cons, byteCount_append, Nat.add_assoc]

end Lexeme

/-! ### Clauses in front of a semicolon -/

namespace Clause

/-- A statement is finished by a semicolon only. -/
theorem eq_semicolon_of_next? {clause : Clause} {token : Token} {following : Option Token}
    (h : clause.next? token following = some .finished) : token = .semicolon := by
  unfold next? at h
  split at h
  case h_10 => split at h <;> cases h
  all_goals simp_all

/-- Whether a semicolon or nothing stands behind a token does not matter to what it opens. -/
theorem next?_semicolon (clause : Clause) (token : Token) :
    clause.next? token (some .semicolon) = clause.next? token none := by
  unfold next?
  split <;> simp

end Clause

/-- A semicolon behind a lexeme makes no dotted name of it. -/
theorem Lexeme.isQualified_append {l : Lexeme} (hl : l.token = .semicolon)
    (previous m : Lexeme) (xs ys : List Lexeme) :
    isQualified previous m (xs ++ l :: ys).head? = isQualified previous m xs.head? := by
  cases xs with
  | cons x xs => rfl
  | nil => simp [isQualified, isPeriodBehind, hl]

/-- A lexeme opens the same clause whether its statement ends behind it at a semicolon or with
the text. -/
theorem Marked.opens?_append {l : Lexeme} (hl : l.token = .semicolon) (clause : Clause)
    (m : Marked) (previous : Lexeme) (depth : Nat) (xs ys : List Lexeme) :
    m.opens? clause (Lexeme.mark previous depth (xs ++ l :: ys)) =
      m.opens? clause (Lexeme.mark previous depth xs) := by
  cases xs with
  | cons x xs => rfl
  | nil => simp [opens?, Lexeme.mark, hl, Clause.next?_semicolon]

namespace Section

variable {clause : Clause} {depth : Nat} {xs ys : List Lexeme} {l : Lexeme}

/-- The sections of a statement do not depend on what follows it, and behind them stand
finished ones only. -/
theorem cut_mark_append (hclause : clause ≠ .finished) (hl : l.token = .semicolon)
    (h : Token.isStatement depth (xs.map (·.token)) = true) (previous : Lexeme) :
    cut clause (Lexeme.mark previous depth (xs ++ l :: ys)) =
      cut clause (Lexeme.mark previous depth xs) ++ cut .finished (Lexeme.mark l 0 ys) := by
  induction xs generalizing clause depth previous with
  | nil =>
      obtain rfl : depth = 0 := by simpa [Token.isStatement] using h
      have hactive : (decide (0 = 0) && !l.token.isParen &&
          !Lexeme.isQualified previous l ys.head?) = true := by
        simp [Lexeme.isQualified, hl, Token.isParen, Token.isAnyKeyword]
      have hnext : ∀ following, clause.next? l.token following = some .finished := fun _ =>
        Clause.next?_eq_some_iff.mpr ⟨hclause, .inl hl, by rw [hl]; rfl⟩
      have hmark : Lexeme.mark previous 0 (l :: ys) = ⟨l, true⟩ :: Lexeme.mark l 0 ys := by
        rw [Lexeme.mark, hactive, hl]
        rfl
      rw [List.nil_append, hmark, cut, Marked.opens?, if_pos rfl, hnext]
      rfl
  | cons x xs ih =>
      rw [List.map_cons, Token.isStatement_cons] at h
      rw [List.cons_append, Lexeme.mark, Lexeme.mark, Lexeme.isQualified_append hl, cut, cut,
        Marked.opens?_append hl]
      cases hopens : Marked.opens? clause _ (Lexeme.mark x (x.token.depthAfter depth) xs) with
      | some opened =>
          have hopened : opened ≠ .finished := by
            rintro rfl
            rw [Marked.opens?] at hopens
            split_ifs at hopens with hactive
            simp only [Bool.and_eq_true, decide_eq_true_eq] at hactive
            exact h.1 ⟨hactive.1.1, Clause.eq_semicolon_of_next? hopens⟩
          simp only [ih hopened h.2, List.cons_append]
      | none =>
          obtain ⟨body, more, hcut⟩ := exists_cut_eq clause
            (Lexeme.mark x (x.token.depthAfter depth) xs)
          simp only [ih hclause h.2, hcut, List.cons_append, List.modifyHead_cons]

/-- Finished sections hold no clause. -/
theorem bodyOf?_append_of_finished {sections more : List Section}
    (hclause : clause ≠ .finished) (h : ∀ s ∈ more, s.clause = .finished) :
    bodyOf? clause (sections ++ more) = bodyOf? clause sections := by
  have hnone : more.find? (·.clause = clause) = none := by
    refine List.find?_eq_none.mpr fun s hs => ?_
    simp [h s hs, hclause.symm]
  rw [bodyOf?, bodyOf?, List.find?_append, hnone, Option.or_none]

end Section

namespace Clauses

/-- Sections behind the end of a statement do not count. -/
theorem ofSections_append_of_finished {sections more : List Section} (hne : sections ≠ [])
    (h : ∀ s ∈ more, s.clause = .finished) :
    ofSections (sections ++ more) = ofSections sections := by
  have hbody : ∀ clause, clause ≠ .finished →
      Section.bodyOf? clause (sections ++ more) = Section.bodyOf? clause sections :=
    fun _ hclause => Section.bodyOf?_append_of_finished hclause h
  rw [ofSections, ofSections, hbody _ (by simp), hbody _ (by simp), hbody _ (by simp),
    hbody _ (by simp), hbody _ (by simp), List.head?_append_of_ne_nil _ hne]

/-- The clauses of a statement do not depend on what follows it. -/
theorem ofLexemes_append {lead l : Lexeme} {xs ys : List Lexeme}
    (h : Token.isStatement 0 (xs.map (·.token)) = true) (hl : l.token = .semicolon) :
    ofLexemes (lead :: xs ++ l :: ys) = ofLexemes (lead :: xs) := by
  obtain ⟨body, more, hcut⟩ := Section.exists_cut_eq .selectList (Lexeme.mark lead 0 xs)
  rw [List.cons_append, ofLexemes, ofLexemes, Section.cut_mark_append (by simp) hl h]
  exact ofSections_append_of_finished (by simp [hcut]) Section.clause_of_mem_cut_finished

end Clauses

namespace Query

/-- Outlines with nothing but a kind differ in the source only. -/
theorem SameButSource.bare (kind : StatementKind) (source source' : String) :
    SameButSource (bare kind source) (bare kind source') := rfl

/-- Outlines that are read from the same clauses differ in the source only. -/
theorem SameButSource.ofClauses (clauses : Clauses) (source source' : String) :
    SameButSource (ofClauses clauses source) (ofClauses clauses source') := rfl

/-- The outline of a statement does not depend on what follows it. -/
theorem sameButSource_ofLexemes {l : Lexeme} {xs : List Lexeme} (ys : List Lexeme)
    (h : Token.isStatement 0 (xs.map (·.token)) = true) (hl : l.token = .semicolon)
    (source source' : String) :
    SameButSource (ofLexemes (xs ++ l :: ys) source) (ofLexemes xs source') := by
  cases xs with
  | nil =>
      have hkind : StatementKind.ofLexemes (l :: ys) = .unknown := by
        rw [StatementKind.ofLexemes, hl]
        rfl
      rw [List.nil_append, ofLexemes, hkind]
      exact .bare _ _ _
  | cons lead xs =>
      have hkind : StatementKind.ofLexemes (lead :: xs ++ l :: ys) =
          StatementKind.ofLexemes (lead :: xs) := rfl
      rw [ofLexemes, ofLexemes, hkind]
      split_ifs with hselect
      · have hlead : lead.token = .keyword .select := by
          simpa using ofLexemes_eq_select_iff.mp hselect
        rw [List.map_cons, Token.isStatement_cons, hlead] at h
        rw [Clauses.ofLexemes_append h.2 hl]
        exact .ofClauses _ _ _
      · exact .bare _ _ _

end Query

/-! ### Texts in front of a semicolon -/

namespace Lexeme

/-- Blanks at the end of the first part do not matter to the lexemes in front of a seam. -/
theorem Seam.ofText_trimBlanksRight {before gap after : List Char} {earlier : List Lexeme}
    (h : Seam before earlier gap after) (hafter : after ≠ []) :
    ofText (trimBlanksRight before) = earlier := by
  have hlast := h.reads.not_isBlank_of_getLast? (by simp [hafter])
  have hgap : trimBlanksRight gap <+: gap ++ after :=
    (prefix_trimBlanksRight gap).trans (List.prefix_append gap after)
  have hrow : Trivia.Row (trimBlanksRight gap) [] :=
    (h.row.of_shorter List.nil_prefix).trimBlanksRight
  have hreads := h.reads.exchange (endsAlike_of_shorter hgap)
  rw [h.eq_append, trimBlanksRight_append hlast, hreads.ofText_eq, ofText_of_row hrow,
    List.append_nil]

/-- A semicolon is a token by itself. -/
theorem next_semicolon (rest : List Char) : next ';' rest = (.semicolon, []) := by
  cases rest <;> rfl

/-- No trivia begin with a semicolon. -/
theorem not_begins_semicolon (rest : List Char) : Trivia.begins (';' :: rest) = false := by
  cases rest <;> rfl

/-- A text with a semicolon in it has the lexemes of its first part in front of the semicolon,
also when blanks around both are taken off. -/
theorem Seam.exists_ofText_semicolon {before gap after : List Char} {earlier : List Lexeme}
    (h : Seam before earlier gap (';' :: after)) :
    (ofText (trimBlanks before)).map (·.token) = earlier.map (·.token) ∧
      ∃ gap', ∀ behind, ofText (trimBlanks (before ++ ';' :: behind)) =
        ofText (trimBlanks before) ++ ⟨gap', .semicolon, [';']⟩ ::
          ofText (trimBlanksRight behind) := by
  obtain ⟨earlier', gap', hseam, htokens⟩ := h.exists_dropWhile
  have hbefore : ofText (trimBlanks before) = earlier' :=
    hseam.ofText_trimBlanksRight (by simp)
  refine ⟨by rw [hbefore, htokens], gap', fun behind => ?_⟩
  have hbehind : Seam (before.dropWhile isBlank) earlier' gap'
      (';' :: ([] ++ trimBlanksRight behind)) := hseam.exchange (by simp) rfl
  rw [hbefore, trimBlanks_append_cons rfl]
  exact hbehind.ofText_eq (not_begins_semicolon _) (next_semicolon _)

end Lexeme

/-- The outline of a text is that of its first part up to the first semicolon outside of
parentheses, and stays so with any other text behind that semicolon. -/
theorem Query.sameButSource_of_semicolon? {sql : String} {p : Nat}
    (h : Located.semicolon? 0 (Lexeme.tokensOf sql) = some p) :
    SameButSource (ofText sql) (ofText (String.ofList (slice sql 0 p))) ∧
      ∀ rest, SameButSource (ofText sql)
        (ofText (String.ofList (slice sql 0 (p + 1)) ++ rest)) := by
  obtain ⟨xs, l, ys, hls, hstatement, hl, hp⟩ := Lexeme.exists_of_semicolon? h
  obtain ⟨c, tail, behind, hcs, -, hseam, hnext⟩ := Lexeme.seam_of_ofText hls
  rw [hl] at hnext
  obtain ⟨rfl, rfl⟩ := Lexeme.eq_of_next_eq_ofChar (d := ';') (.inr rfl) hnext
  rw [List.nil_append] at hcs hseam
  generalize xs.flatMap Lexeme.source ++ l.gap = before at hcs hseam hp
  rw [Nat.zero_add] at hp
  subst hp
  have hfront : sql.toList = [] ++ (before ++ ';' :: behind) := hcs
  have hbefore : slice sql 0 (Lexeme.byteCount before) = before := Lexeme.slice_of_split hfront
  have hsemicolon : slice sql 0 (Lexeme.byteCount before + 1) = before ++ [';'] := by
    have hsplit : sql.toList = [] ++ ((before ++ [';']) ++ behind) := by simp [hcs]
    have hslice := Lexeme.slice_of_split hsplit
    rwa [List.nil_append, Lexeme.byteCount_append] at hslice
  obtain ⟨htokens, gap', htrimmed⟩ := hseam.exists_ofText_semicolon
  rw [← htokens] at hstatement
  have hsame : ∀ text : String, (∃ behind, text.toList = before ++ ';' :: behind) →
      SameButSource (ofText text) (ofText (String.ofList before)) := by
    rintro text ⟨behind, htext⟩
    rw [ofText, ofText, htext, String.toList_ofList, htrimmed]
    exact sameButSource_ofLexemes _ hstatement rfl _ _
  have hsql := hsame sql ⟨behind, hcs⟩
  rw [hbefore, hsemicolon]
  refine ⟨hsql, fun rest => hsql.of_common (hsame _ ⟨rest.toList, ?_⟩)⟩
  rw [String.toList_append, String.toList_ofList, List.append_assoc, List.singleton_append]

/-- Semicolons in comments, texts and parentheses end no statement. -/
theorem Query.sameButSource_of_semicolon?_limit :
    let sql :=
      " SELECT a, ';' -- ;\nFROM (t ; u) b ORDER BY b.limit LIMIT 5 /* ; */ ; LIMIT 6; ("
    Located.semicolon? 0 (Lexeme.tokensOf sql) = some 68 ∧
      SameButSource (ofText sql) (ofText (String.ofList (slice sql 0 68))) ∧
      SameButSource (ofText sql) (ofText (String.ofList (slice sql 0 69) ++ "FROM 'v")) := by
  intro sql
  have hend : Located.semicolon? 0 (Lexeme.tokensOf sql) = some 68 := by
    decide +kernel +revert
  obtain ⟨hbefore, hbehind⟩ := sameButSource_of_semicolon? hend
  exact ⟨hend, hbefore, hbehind "FROM 'v"⟩

end SqlOutline
