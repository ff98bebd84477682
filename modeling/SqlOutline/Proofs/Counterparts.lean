import SqlOutline.Proofs.Correspondence
import SqlOutline.Proofs.Excerpts

/-!
# Outlines of statements that are cut alike

When the lexemes of two statements correspond, so do the runs that the parts of their outlines
are read from. How far two outlines agree then depends only on how far single runs are read
alike: `Query.related_ofLexemes` takes this as given, for tables, sort keys and texts, and
relates the outlines. What a run has in common with the whole statement is kept by the way,
since every run that is read is a stretch of it.

## Main results

* `Counterparts.tableList`: tables and joins are related one by one.
* `TableReference.related_ofLexemes?`, `SortKey.related_ofLexemes?`: where lexemes stand
  opposite each other, a table and a sort key are read word by word.
* `Query.related_ofLexemes`: the outlines of corresponding statements are related.
-/

namespace SqlOutline

open Lexeme (CutAlike)

/-! ### Related outlines -/

/-- Tables with related names, of which both or none is given a name. -/
structure TableReference.Related (textRel : String → String → Prop) (t u : TableReference) :
    Prop where
  name : textRel t.name u.name
  aliasName : Option.Rel textRel t.aliasName u.aliasName

/-- Sort keys with related columns and the same direction. -/
structure SortKey.Related (textRel : String → String → Prop) (k l : SortKey) : Prop where
  column : textRel k.column l.column
  direction : k.direction = l.direction

/-- Tables with equal texts are equal. -/
theorem TableReference.eq_of_related {t u : TableReference} (h : Related Eq t u) : t = u := by
  obtain ⟨hname, halias⟩ := h
  cases t
  cases u
  rw [mk.injEq]
  exact ⟨hname, rel_eq_iff.mp halias⟩

/-- Sort keys with equal texts are equal. -/
theorem SortKey.eq_of_related {k l : SortKey} (h : Related Eq k l) : k = l := by
  obtain ⟨hcolumn, hdirection⟩ := h
  cases k
  cases l
  rw [mk.injEq]
  exact ⟨hcolumn, hdirection⟩

/-- Joins of the same type with related tables, of which both or none has a condition. -/
structure Join.Related (tableRel : TableReference → TableReference → Prop)
    (textRel : String → String → Prop) (j k : Join) : Prop where
  type : j.type = k.type
  table : tableRel j.table k.table
  condition : Option.Rel textRel j.condition k.condition

/-- Column lists with as many columns. -/
structure Selection.Related (textRel : String → String → Prop) (s t : Selection) : Prop where
  columns : List.Forall₂ textRel s.columns t.columns
  isSelectAll : s.isSelectAll = t.isSelectAll

/-- Outlines with the same parts, which are related one by one. -/
structure Query.Related (tableRel : TableReference → TableReference → Prop)
    (keyRel : SortKey → SortKey → Prop) (textRel : String → String → Prop) (q r : Query) :
    Prop where
  kind : q.kind = r.kind
  selection : Option.Rel (Selection.Related textRel) q.selection r.selection
  tables : Option.Rel (List.Forall₂ tableRel) q.tables r.tables
  joins : Option.Rel (List.Forall₂ (Join.Related tableRel textRel)) q.joins r.joins
  filter : Option.Rel textRel q.filter r.filter
  sortKeys : Option.Rel (List.Forall₂ keyRel) q.sortKeys r.sortKeys
  limit : q.limit = r.limit

/-! ### Stretches of a run -/

section Infix

variable {run : List Lexeme}

namespace Lexeme

/-- The items between separators are stretches of the run. -/
theorem infix_of_mem_splitTopLevel {separator : Token} {depth : Nat} {item : List Lexeme}
    (h : item ∈ splitTopLevel separator depth run) : item <:+: run := by
  induction hn : run.length using Nat.strongRecOn generalizing depth run with
  | _ n ih =>
      rcases splitTopLevel_cases separator depth run with hone | ⟨first, l, rest, hrun, hsplit⟩
      · rw [hone, List.mem_singleton] at h
        exact h ▸ List.infix_rfl
      · rw [hsplit, List.mem_cons] at h
        rcases h with rfl | h
        · exact ⟨[], l :: rest, hrun.symm⟩
        · have hlength : rest.length < n := by
            rw [← hn, hrun, List.length_append, List.length_cons]
            omega
          have hrest : rest <:+: run := ⟨first ++ [l], [], by simp [hrun]⟩
          exact (ih rest.length hlength h rfl).trans hrest

/-- Both sides of a keyword are stretches of the run. -/
theorem infix_of_cutTopLevel? {keyword : Keyword} {depth : Nat}
    {sides : List Lexeme × List Lexeme} (h : cutTopLevel? keyword depth run = some sides) :
    sides.1 <:+: run ∧ sides.2 <:+: run := by
  obtain ⟨l, rfl⟩ := append_of_cutTopLevel? h
  exact ⟨⟨[], l :: sides.2, rfl⟩, ⟨sides.1 ++ [l], [], by simp⟩⟩

end Lexeme

/-- What stands before the first join is a stretch of the table list. -/
theorem JoinChain.infix_lead (depth : Nat) (run : List Lexeme) :
    (ofLexemes depth run).lead <:+: run :=
  ⟨[], _, append_ofLexemes depth run⟩

/-- What stands behind the words of a join is a stretch of the table list. -/
theorem JoinChain.infix_of_mem_parts {depth : Nat} {part : JoinPart}
    (h : part ∈ (ofLexemes depth run).parts) : part.body <:+: run := by
  have hbody : part.body <:+: part.run := ⟨part.introduction, [], List.append_nil _⟩
  have hparts : part.run <:+: (ofLexemes depth run).parts.flatMap JoinPart.run := by
    obtain ⟨before, after, hsplit⟩ := List.append_of_mem h
    exact ⟨before.flatMap JoinPart.run, after.flatMap JoinPart.run, by simp [hsplit]⟩
  have hrun : (ofLexemes depth run).parts.flatMap JoinPart.run <:+: run :=
    ⟨_, [], by rw [List.append_nil, append_ofLexemes]⟩
  exact (hbody.trans hparts).trans hrun

/-- Clauses whose bodies are stretches of a statement. -/
structure Clauses.Within (run : List Lexeme) (c : Clauses) : Prop where
  selectList : ∀ body ∈ c.selectList, body <:+: run
  tableList : ∀ body ∈ c.tableList, body <:+: run
  filter : ∀ body ∈ c.filter, body <:+: run
  sortKeys : ∀ body ∈ c.sortKeys, body <:+: run
  limit : ∀ body ∈ c.limit, body <:+: run

/-- A stretch of a run stands in it. -/
theorem Lexeme.stretch_infix (run : List Lexeme) (low high : Nat) :
    stretch run low high <:+: run :=
  (List.drop_suffix low _).isInfix.trans (List.take_prefix high run).isInfix

/-- The declared clauses stand in the run. -/
theorem Clauses.within_declared (run : List Lexeme) : Within run (declared run) := by
  have hone : ∀ low high, ∀ body ∈ some (Lexeme.stretch run low high), body <:+: run := by
    rintro low high body ⟨⟩
    exact Lexeme.stretch_infix run low high
  have hif : ∀ (p : Prop) [Decidable p] low high,
      ∀ body ∈ if p then some (Lexeme.stretch run low high) else none, body <:+: run := by
    intro p _ low high
    split
    · exact hone low high
    · simp
  rw [declared]
  dsimp only
  split
  · exact ⟨hone _ _, hone _ _, hif _ _ _, hif _ _ _, hif _ _ _⟩
  · exact ⟨by simp, by simp, by simp, by simp, hif _ _ _⟩

/-- The bodies of the clauses are stretches of the statement. -/
theorem Clauses.within_ofLexemes (lead : Lexeme) (rest : List Lexeme) :
    Within (lead :: rest) (ofLexemes (lead :: rest)) := by
  have hdeclared : ofLexemes (lead :: rest) = declared (lead :: rest) :=
    ofSections_cut_marks (List.cons_ne_nil lead rest)
  rw [hdeclared]
  exact within_declared (lead :: rest)

end Infix

/-! ### Corresponding parts -/

/-- Corresponding stretches of two runs. -/
structure Counterparts (rel : Lexeme → Lexeme → Prop) (part : List Lexeme → List Lexeme → Prop)
    (run run' xs ys : List Lexeme) : Prop where
  corresponds : Corresponds rel part xs ys
  left : xs <:+: run
  right : ys <:+: run'

/-- Nothing is read of related lists, or related lists are. -/
theorem rel_nonempty? {α β : Type} {r : α → β → Prop} {as : List α} {bs : List β}
    (h : List.Forall₂ r as bs) :
    Option.Rel (List.Forall₂ r) (nonempty? as) (nonempty? bs) := by
  cases h with
  | nil => exact .none
  | cons hab hrest => exact .some (.cons hab hrest)

namespace Counterparts

variable {rel : Lexeme → Lexeme → Prop} {part : List Lexeme → List Lexeme → Prop}
  {run run' xs ys : List Lexeme}

/-- The items between separators are counterparts. -/
theorem splitTopLevel (halike : CutAlike rel part) (h : Counterparts rel part run run' xs ys) :
    List.Forall₂ (Counterparts rel part run run') (Lexeme.splitTopLevel .comma 0 xs)
      (Lexeme.splitTopLevel .comma 0 ys) := by
  refine forall₂_imp_of_mem (h.corresponds.splitTopLevel halike rfl 0) ?_
  intro item hleft item' hright hitem
  exact ⟨hitem, (Lexeme.infix_of_mem_splitTopLevel hleft).trans h.left,
    (Lexeme.infix_of_mem_splitTopLevel hright).trans h.right⟩

/-- The two halves at a keyword are counterparts. -/
theorem cutTopLevel? (halike : CutAlike rel part) (h : Counterparts rel part run run' xs ys)
    (keyword : Keyword) :
    Option.Rel (fun p q => Counterparts rel part run run' p.1 q.1 ∧
        Counterparts rel part run run' p.2 q.2)
      (Lexeme.cutTopLevel? keyword 0 xs) (Lexeme.cutTopLevel? keyword 0 ys) := by
  refine rel_imp_of_mem (h.corresponds.cutTopLevel? halike 0) ?_
  intro sides hleft sides' hright hsides
  obtain ⟨hbefore, hafter⟩ := Lexeme.infix_of_cutTopLevel? hleft
  obtain ⟨hbefore', hafter'⟩ := Lexeme.infix_of_cutTopLevel? hright
  exact ⟨⟨hsides.1, hbefore.trans h.left, hbefore'.trans h.right⟩,
    hsides.2, hafter.trans h.left, hafter'.trans h.right⟩

/-- The joins are counterparts, and so is what is in front of them. -/
theorem joinChain (halike : CutAlike rel part) (h : Counterparts rel part run run' xs ys) :
    Counterparts rel part run run' (JoinChain.ofLexemes 0 xs).lead
        (JoinChain.ofLexemes 0 ys).lead ∧
      List.Forall₂ (fun p q => p.type = q.type ∧ Counterparts rel part run run' p.body q.body)
        (JoinChain.ofLexemes 0 xs).parts (JoinChain.ofLexemes 0 ys).parts := by
  obtain ⟨hlead, hparts⟩ := h.corresponds.joinChain halike 0
  refine ⟨⟨hlead, (JoinChain.infix_lead 0 xs).trans h.left,
    (JoinChain.infix_lead 0 ys).trans h.right⟩, forall₂_imp_of_mem hparts ?_⟩
  intro p hleft q hright hpq
  exact ⟨hpq.1, hpq.2, (JoinChain.infix_of_mem_parts hleft).trans h.left,
    (JoinChain.infix_of_mem_parts hright).trans h.right⟩

/-- The clauses of corresponding statements are counterparts. -/
theorem clauses {lead lead' : Lexeme} {rest rest' : List Lexeme} (halike : CutAlike rel part)
    (hlead : lead.token = lead'.token) (h : Corresponds rel part rest rest') :
    Clauses.Related (Counterparts rel part (lead :: rest) (lead' :: rest'))
      (Clauses.ofLexemes (lead :: rest)) (Clauses.ofLexemes (lead' :: rest')) := by
  have hclauses := h.clauses halike hlead
  have hleft := Clauses.within_ofLexemes lead rest
  have hright := Clauses.within_ofLexemes lead' rest'
  exact {
    selectList := rel_imp_of_mem hclauses.selectList fun body hbody body' hbody' hpair =>
      ⟨hpair, hleft.selectList body hbody, hright.selectList body' hbody'⟩
    tableList := rel_imp_of_mem hclauses.tableList fun body hbody body' hbody' hpair =>
      ⟨hpair, hleft.tableList body hbody, hright.tableList body' hbody'⟩
    filter := rel_imp_of_mem hclauses.filter fun body hbody body' hbody' hpair =>
      ⟨hpair, hleft.filter body hbody, hright.filter body' hbody'⟩
    sortKeys := rel_imp_of_mem hclauses.sortKeys fun body hbody body' hbody' hpair =>
      ⟨hpair, hleft.sortKeys body hbody, hright.sortKeys body' hbody'⟩
    limit := rel_imp_of_mem hclauses.limit fun body hbody body' hbody' hpair =>
      ⟨hpair, hleft.limit body hbody, hright.limit body' hbody'⟩ }

/-- An asterisk alone corresponds to nothing but an asterisk alone. -/
theorem map_token_eq_asterisk_iff (halike : CutAlike rel part)
    (h : Counterparts rel part run run' xs ys) :
    xs.map (·.token) = [.asterisk] ↔ ys.map (·.token) = [.asterisk] := by
  cases h.corresponds with
  | nil => rfl
  | cons hlm hrest =>
      have hnil := hrest.eq_nil_iff halike
      simp [halike.token hlm, hnil]
  | append has _ =>
      obtain ⟨hleft, hright⟩ := halike.enclosed has
      obtain ⟨l, _, _, rfl, hl⟩ := hleft.exists_eq_cons_cons
      obtain ⟨m, _, _, rfl, hm⟩ := hright.exists_eq_cons_cons
      simp [hl, hm]

end Counterparts

/-! ### Word by word -/

section Words

variable {rel : Lexeme → Lexeme → Prop} {textRel : String → String → Prop}
    {xs ys : List Lexeme}

/-- Where lexemes stand opposite each other, so do words. -/
theorem Lexeme.forall₂_words
    (htouches : ∀ {l m}, rel l m → l.touchesPrevious = m.touchesPrevious)
    (h : List.Forall₂ rel xs ys) : List.Forall₂ (List.Forall₂ rel) (words xs) (words ys) := by
  induction h with
  | nil => exact .nil
  | @cons l m xs ys hlm hrest ih =>
      cases hrest with
      | nil => exact .cons (.cons hlm .nil) .nil
      | @cons l' m' xs ys hlm' hrest =>
          rw [words, words] at ih ⊢
          rw [splitBy_cons_cons, splitBy_cons_cons, htouches hlm']
          split
          · exact forall₂_modifyHead ih fun _ _ hword => .cons hlm hword
          · exact .cons (.cons hlm .nil) ih

/-- Words with the same tokens are the same keyword, if they are one. -/
theorem Lexeme.isKeywordWord_eq_of_forall₂ (htoken : ∀ {l m}, rel l m → l.token = m.token)
    (h : List.Forall₂ rel xs ys) (keyword : Keyword) :
    isKeywordWord keyword xs = isKeywordWord keyword ys := by
  rcases h with _ | ⟨hlm, _ | ⟨_, _⟩⟩
  · rfl
  · rw [isKeywordWord, isKeywordWord, htoken hlm]
  · rfl

/-- A table is read word by word. -/
theorem TableReference.related_ofLexemes? {part : List Lexeme → List Lexeme → Prop}
    (halike : CutAlike rel part) (h : List.Forall₂ rel xs ys)
    (hword : ∀ word ∈ Lexeme.words xs, ∀ word' ∈ Lexeme.words ys, List.Forall₂ rel word word' →
      Option.Rel textRel (Lexeme.text? word) (Lexeme.text? word')) :
    Option.Rel (Related textRel) (ofLexemes? xs) (ofLexemes? ys) := by
  have hwords := forall₂_imp_of_mem (Lexeme.forall₂_words halike.touches h)
    fun word hmem word' hmem' hpair => And.intro hpair (hword word hmem word' hmem' hpair)
  rw [ofLexemes?, ofLexemes?]
  generalize Lexeme.words xs = words, Lexeme.words ys = words' at hwords ⊢
  rcases hwords with _ | @⟨word, word', rest, rest', ⟨-, htext⟩, hrest⟩
  · exact .none
  · have halias : Option.Rel textRel (aliasOf rest) (aliasOf rest') := by
      rcases hrest with _ | @⟨next, next', more, more', ⟨hnext, hnextText⟩, hmore⟩
      · exact .none
      · rw [aliasOf, aliasOf, Lexeme.isKeywordWord_eq_of_forall₂ halike.token hnext]
        split
        · exact rel_bind (rel_head? hmore) fun _ _ hpair => hpair.2
        · exact hnextText
    exact rel_map htext fun _ _ hname => ⟨hname, halias⟩

/-- A sort key is read alike from runs whose lexemes and words are related. -/
theorem SortKey.related_ofLexemes? {part : List Lexeme → List Lexeme → Prop}
    (halike : CutAlike rel part) (h : List.Forall₂ rel xs ys)
    (hword : ∀ word ∈ Lexeme.words xs, ∀ word' ∈ Lexeme.words ys, List.Forall₂ rel word word' →
      Option.Rel textRel (Lexeme.text? word) (Lexeme.text? word')) :
    Option.Rel (Related textRel) (ofLexemes? xs) (ofLexemes? ys) := by
  have hwords := forall₂_imp_of_mem (Lexeme.forall₂_words halike.touches h)
    fun word hmem word' hmem' hpair => And.intro hpair (hword word hmem word' hmem' hpair)
  rw [ofLexemes?, ofLexemes?]
  generalize Lexeme.words xs = words, Lexeme.words ys = words' at hwords ⊢
  rcases hwords with _ | @⟨word, word', rest, rest', ⟨-, htext⟩, hrest⟩
  · exact .none
  · have hdescending : rest.head?.any (Lexeme.isKeywordWord .desc) =
        rest'.head?.any (Lexeme.isKeywordWord .desc) := by
      rcases hrest with _ | @⟨next, next', more, more', ⟨hnext, -⟩, -⟩
      · rfl
      · exact Lexeme.isKeywordWord_eq_of_forall₂ halike.token hnext .desc
    exact rel_map htext fun _ _ hname => ⟨hname, by rw [hdescending]⟩

/-- The same limit is read where numbers stand opposite the same numbers. -/
theorem Query.limitOf?_eq_of_corresponds {part : List Lexeme → List Lexeme → Prop}
    (halike : CutAlike rel part)
    (hnumber : ∀ {l m}, rel l m → l.token = .number false → l.text = m.text)
    (h : Corresponds rel part xs ys) : limitOf? xs = limitOf? ys := by
  cases h with
  | nil => rfl
  | @cons l m xs ys hlm hrest =>
      have hnil := hrest.eq_nil_iff halike
      rcases xs with _ | ⟨_, _⟩ <;> rcases ys with _ | ⟨_, _⟩
      · rw [limitOf?, limitOf?, ← halike.token hlm]
        split
        · next hinteger => rw [hnumber hlm hinteger]
        · rfl
      · simp at hnil
      · simp at hnil
      · rfl
  | append has _ =>
      obtain ⟨hleft, hright⟩ := halike.enclosed has
      obtain ⟨_, _, _, rfl, -⟩ := hleft.exists_eq_cons_cons
      obtain ⟨_, _, _, rfl, -⟩ := hright.exists_eq_cons_cons
      rfl

end Words

/-! ### Outlines of corresponding statements -/

/-- How far related runs are read alike, each by itself. -/
structure ReadAlike (R : List Lexeme → List Lexeme → Prop)
    (tableRel : TableReference → TableReference → Prop) (keyRel : SortKey → SortKey → Prop)
    (textRel : String → String → Prop) : Prop where
  table : ∀ {xs ys}, R xs ys →
    Option.Rel tableRel (TableReference.ofLexemes? xs) (TableReference.ofLexemes? ys)
  key : ∀ {xs ys}, R xs ys → Option.Rel keyRel (SortKey.ofLexemes? xs) (SortKey.ofLexemes? ys)
  text : ∀ {xs ys}, R xs ys → Option.Rel textRel (Lexeme.text? xs) (Lexeme.text? ys)
  asterisk : textRel "*" "*"
  limit : ∀ {xs ys}, R xs ys → Query.limitOf? xs = Query.limitOf? ys

/-- Where lexemes stand opposite each other, related texts make related tables
and sort keys. -/
theorem readAlike_of_text? {rel : Lexeme → Lexeme → Prop} {textRel : String → String → Prop}
    {run run' : List Lexeme} (halike : CutAlike rel fun _ _ => False)
    (htext : ∀ {xs ys}, List.Forall₂ rel xs ys →
      Option.Rel textRel (Lexeme.text? xs) (Lexeme.text? ys))
    (hasterisk : textRel "*" "*")
    (hnumber : ∀ {l m}, rel l m → l.token = .number false → l.text = m.text) :
    ReadAlike (Counterparts rel (fun _ _ => False) run run') (TableReference.Related textRel)
      (SortKey.Related textRel) textRel where
  table h := TableReference.related_ofLexemes? halike h.corresponds.forall₂ fun _ _ _ _ =>
    htext
  key h := SortKey.related_ofLexemes? halike h.corresponds.forall₂ fun _ _ _ _ => htext
  text h := htext h.corresponds.forall₂
  asterisk := hasterisk
  limit h := Query.limitOf?_eq_of_corresponds halike hnumber h.corresponds

namespace Counterparts

variable {rel : Lexeme → Lexeme → Prop} {part : List Lexeme → List Lexeme → Prop}
  {tableRel : TableReference → TableReference → Prop} {keyRel : SortKey → SortKey → Prop}
  {textRel : String → String → Prop} {run run' xs ys : List Lexeme}

/-- The columns of counterparts are related. -/
theorem selection (halike : CutAlike rel part)
    (hread : ReadAlike (Counterparts rel part run run') tableRel keyRel textRel)
    (h : Counterparts rel part run run' xs ys) :
    Option.Rel (Selection.Related textRel) (Selection.ofLexemes? xs)
      (Selection.ofLexemes? ys) := by
  rw [Selection.ofLexemes?, Selection.ofLexemes?]
  by_cases hall : xs.map (·.token) = [.asterisk]
  · rw [if_pos hall, if_pos ((h.map_token_eq_asterisk_iff halike).mp hall)]
    exact .some ⟨.cons hread.asterisk .nil, rfl⟩
  · rw [if_neg hall, if_neg (mt (h.map_token_eq_asterisk_iff halike).mpr hall)]
    have hitems := h.splitTopLevel halike
    have htexts := List.rel_filterMap (fun _ _ hitem => hread.text hitem) hitems
    exact rel_map (rel_nonempty? htexts) fun _ _ hcolumns => ⟨hcolumns, rfl⟩

/-- The sort keys of counterparts are related. -/
theorem sortKeys (halike : CutAlike rel part)
    (hread : ReadAlike (Counterparts rel part run run') tableRel keyRel textRel)
    (h : Counterparts rel part run run' xs ys) :
    Option.Rel (List.Forall₂ keyRel) (SortKey.listOfLexemes? xs)
      (SortKey.listOfLexemes? ys) := by
  have hitems := h.splitTopLevel halike
  exact rel_nonempty? (List.rel_filterMap (fun _ _ hitem => hread.key hitem) hitems)

/-- Parts of table lists are the same joins up to their tables and conditions. -/
theorem toJoin? {p q : JoinPart} (halike : CutAlike rel part)
    (hread : ReadAlike (Counterparts rel part run run') tableRel keyRel textRel)
    (htype : p.type = q.type) (h : Counterparts rel part run run' p.body q.body) :
    Option.Rel (Join.Related tableRel textRel) p.toJoin? q.toJoin? := by
  have hcut := h.cutTopLevel? halike .on
  rw [JoinPart.toJoin?, JoinPart.toJoin?]
  revert hcut
  generalize Lexeme.cutTopLevel? .on 0 p.body = sides
  generalize Lexeme.cutTopLevel? .on 0 q.body = sides'
  rintro (@⟨⟨before, after⟩, ⟨before', after'⟩, hbefore, hafter⟩ | _)
  · exact rel_map (hread.table hbefore) fun _ _ htable => ⟨htype, htable, hread.text hafter⟩
  · exact rel_map (hread.table h) fun _ _ htable => ⟨htype, htable, .none⟩

/-- Tables and joins are related one by one. -/
theorem tableList (halike : CutAlike rel part)
    (hread : ReadAlike (Counterparts rel part run run') tableRel keyRel textRel)
    (h : Counterparts rel part run run' xs ys) :
    Option.Rel (List.Forall₂ tableRel) (readTableList xs).1 (readTableList ys).1 ∧
      Option.Rel (List.Forall₂ (Join.Related tableRel textRel)) (readTableList xs).2
        (readTableList ys).2 := by
  have hjoins := isSome_of_rel (h.cutTopLevel? halike .join)
  rw [readTableList, readTableList, ← hjoins]
  split
  · obtain ⟨hlead, hparts⟩ := h.joinChain halike
    have hfirst := rel_bind (rel_head? (hlead.splitTopLevel halike)) fun _ _ => hread.table
    have htoJoin := List.rel_filterMap (fun _ _ hpq => toJoin? halike hread hpq.1 hpq.2) hparts
    exact ⟨rel_map hfirst fun _ _ htable => .cons htable .nil, rel_nonempty? htoJoin⟩
  · have htables := List.rel_filterMap (fun _ _ hitem => hread.table hitem)
      (h.splitTopLevel halike)
    exact ⟨rel_nonempty? htables, .none⟩

end Counterparts

/-- The outlines of statements with related clauses are related. -/
theorem Query.related_ofClauses {rel : Lexeme → Lexeme → Prop}
    {part : List Lexeme → List Lexeme → Prop}
    {tableRel : TableReference → TableReference → Prop} {keyRel : SortKey → SortKey → Prop}
    {textRel : String → String → Prop} {run run' : List Lexeme} {c d : Clauses}
    (halike : CutAlike rel part)
    (hread : ReadAlike (Counterparts rel part run run') tableRel keyRel textRel)
    (h : Clauses.Related (Counterparts rel part run run') c d) (source source' : String) :
    Related tableRel keyRel textRel (ofClauses c source) (ofClauses d source') := by
  obtain ⟨hselect, htables, hfilter, hkeys, hlimit⟩ := h
  have hlist : Option.Rel (List.Forall₂ tableRel)
        ((c.tableList.map readTableList).getD (none, none)).1
        ((d.tableList.map readTableList).getD (none, none)).1 ∧
      Option.Rel (List.Forall₂ (Join.Related tableRel textRel))
        ((c.tableList.map readTableList).getD (none, none)).2
        ((d.tableList.map readTableList).getD (none, none)).2 := by
    revert htables
    generalize c.tableList = tables
    generalize d.tableList = tables'
    rintro (@⟨tables, tables', htables⟩ | _)
    · exact htables.tableList halike hread
    · exact ⟨.none, .none⟩
  exact {
    kind := rfl
    selection := rel_bind hselect fun _ _ hpair => hpair.selection halike hread
    tables := hlist.1
    joins := hlist.2
    filter := rel_bind hfilter fun _ _ => hread.text
    sortKeys := rel_bind hkeys fun _ _ hpair => hpair.sortKeys halike hread
    limit := bind_eq_of_rel hlimit fun _ _ => hread.limit }

/-- The outlines of statements that begin with the same token are related, if those of `SELECT`
statements correspond behind it. -/
theorem Query.related_ofLexemes {rel : Lexeme → Lexeme → Prop}
    {part : List Lexeme → List Lexeme → Prop}
    {tableRel : TableReference → TableReference → Prop} {keyRel : SortKey → SortKey → Prop}
    {textRel : String → String → Prop} {run run' : List Lexeme} (halike : CutAlike rel part)
    (hread : ReadAlike (Counterparts rel part run run') tableRel keyRel textRel)
    (hlead : run.head?.map (·.token) = run'.head?.map (·.token))
    (h : run.head?.map (·.token) = some (.keyword .select) →
      Corresponds rel part run.tail run'.tail) (source source' : String) :
    Related tableRel keyRel textRel (ofLexemes run source) (ofLexemes run' source') := by
  rcases run with _ | ⟨lead, rest⟩ <;> rcases run' with _ | ⟨lead', rest'⟩
  · exact ⟨rfl, .none, .none, .none, .none, .none, rfl⟩
  · simp at hlead
  · simp at hlead
  · have htoken : lead.token = lead'.token := by simpa using hlead
    have hkind : StatementKind.ofLexemes (lead' :: rest') =
        StatementKind.ofLexemes (lead :: rest) := by
      rw [StatementKind.ofLexemes, StatementKind.ofLexemes, htoken]
    rw [ofLexemes, ofLexemes, hkind]
    split
    · next hselect =>
      have hrest := h (ofLexemes_eq_select_iff.mp hselect)
      exact related_ofClauses halike hread (Counterparts.clauses halike htoken hrest)
        source source'
    · exact ⟨rfl, .none, .none, .none, .none, .none, rfl⟩

/-- The outlines of statements whose lexemes are related one by one are related. -/
theorem Query.related_of_forall₂ {rel : Lexeme → Lexeme → Prop}
    {part : List Lexeme → List Lexeme → Prop}
    {tableRel : TableReference → TableReference → Prop} {keyRel : SortKey → SortKey → Prop}
    {textRel : String → String → Prop} {run run' : List Lexeme} (halike : CutAlike rel part)
    (hread : ReadAlike (Counterparts rel part run run') tableRel keyRel textRel)
    (h : List.Forall₂ rel run run') (source source' : String) :
    Related tableRel keyRel textRel (ofLexemes run source) (ofLexemes run' source') := by
  refine related_ofLexemes halike hread ?_ ?_ source source'
  · exact (Corresponds.of_forall₂ h).map_token_head? halike
  · intro _
    cases h with
    | nil => exact .nil
    | cons _ hrest => exact .of_forall₂ hrest

end SqlOutline
