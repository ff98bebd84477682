import SqlOutline.Proofs.Checked.Access
import SqlOutline.Proofs.Excerpts

/-!
# Runs of tokens by their indices

The readers of runs once more, on tokens that know only their places: a run is split and cut
by indices of it, and its text is what stands in the source from the first byte of its first
token to the last byte of its last one. On the tokens of a run of lexemes all these cuts
succeed, and the outcome is that of the reader of lexemes.

## Main results

* `text_eq`: the text of a run can be cut out of the source.
* `words_rel`: tokens fall into the words of their lexemes.
* `exists_splitTopLevel`: the parts between separators can be cut out.
* `topLevelPosition_eq`, `exists_cutAt`: so can the parts on both sides of a keyword.
* `tableReference_eq`, `sortKey_eq`: a table and a sort key are read.
-/

namespace SqlOutline.Checked

variable {source : String} {tokens : List (Located Token)} {run : List Lexeme}

/-! ### Texts -/

/-- The text from the first token of a run to its last, unless the run is empty. -/
def text (source : String) : List (Located Token) → Checked (Option String)
  | [] => return none
  | t :: rest => do
    let cs ← sliceText source t.first (((t :: rest).getLast (List.cons_ne_nil t rest)).last + 1)
    return some (String.ofList cs)

/-- The text of a run of tokens is cut from the source without fail. -/
theorem text_eq (h : Locates source tokens run) :
    text source tokens = .ok (Lexeme.text? run) := by
  cases run with
  | nil =>
      rw [h.eq_nil]
      rfl
  | cons l ls =>
      obtain ⟨t, rest, rfl, -, -⟩ := h.exists_cons
      have hslice := h.sliceText (List.cons_ne_nil t rest)
      rw [List.head_cons] at hslice
      rw [text, hslice, Lexeme.text?]
      rfl

/-! ### Rows of parts -/

/-- Parts of the same lengths go together if they do as a whole. -/
theorem forall₂_of_flatten {parts : List (List (Located Token))} {runs : List (List Lexeme)}
    (h : Locates source parts.flatten runs.flatten)
    (hlengths : parts.map List.length = runs.map List.length) :
    List.Forall₂ (Locates source) parts runs := by
  induction parts generalizing runs with
  | nil =>
      obtain rfl : runs = [] := by simpa using hlengths.symm
      exact .nil
  | cons part parts ih =>
      cases runs with
      | nil => simp at hlengths
      | cons run runs =>
          obtain ⟨hlength, hmore⟩ := List.cons.inj hlengths
          rw [List.flatten_cons, List.flatten_cons] at h
          have hfirst := h.take part.length
          have hrest := h.drop part.length
          rw [List.take_left, hlength, List.take_left] at hfirst
          rw [List.drop_left, hlength, List.drop_left] at hrest
          exact .cons hfirst (ih hrest hmore)

/-- What is read from each part is read from all of them. -/
theorem filterMapM_eq {β : Type} {f : List (Located Token) → Checked (Option β)}
    {g : List Lexeme → Option β} (hf : ∀ tokens run, Locates source tokens run →
      f tokens = .ok (g run)) {parts : List (List (Located Token))} {runs : List (List Lexeme)}
    (h : List.Forall₂ (Locates source) parts runs) :
    parts.filterMapM f = .ok (runs.filterMap g) := by
  induction h with
  | nil => rfl
  | @cons part run parts runs hpart _ ih =>
      rw [List.filterMapM_cons, hf part run hpart, ih, ok_bind, List.filterMap_cons]
      cases g run <;> rfl

/-! ### Words -/

/-- The words of a run: tokens that touch each other belong together. -/
def words (tokens : List (Located Token)) : List (List (Located Token)) :=
  tokens.splitBy Located.touches

/-- Tokens touch where their lexemes do, so the words are equally long. -/
theorem length_words_eq (h : Locates source tokens run) :
    (words tokens).map List.length = (Lexeme.words run).map List.length := by
  induction run generalizing tokens with
  | nil =>
      rw [h.eq_nil]
      rfl
  | cons l ls ih =>
      obtain ⟨t, rest, rfl, -, hrest⟩ := h.exists_cons
      cases ls with
      | nil =>
          rw [hrest.eq_nil]
          rfl
      | cons m ls =>
          obtain ⟨next, more, rfl, -, -⟩ := hrest.exists_cons
          have hbehind := ih hrest
          rw [words, Lexeme.words] at hbehind ⊢
          rw [splitBy_cons_cons, splitBy_cons_cons, h.touches]
          split_ifs with htouches
          · generalize (next :: more).splitBy Located.touches = parts at hbehind ⊢
            generalize (m :: ls).splitBy (fun _ l => l.touchesPrevious) = runs at hbehind ⊢
            cases parts <;> cases runs <;> simp_all
          · rw [List.map_cons, List.map_cons, hbehind]
            rfl

/-- Tokens fall into the words of their lexemes. -/
theorem words_rel (h : Locates source tokens run) :
    List.Forall₂ (Locates source) (words tokens) (Lexeme.words run) := by
  refine forall₂_of_flatten ?_ (length_words_eq h)
  rwa [words, List.flatten_splitBy, Lexeme.flatten_words]

/-- Whether a word is the given keyword and nothing else. -/
def isKeywordWord (keyword : Keyword) : List (Located Token) → Bool
  | [t] => t.value = .keyword keyword
  | _ => false

/-- Whether a word is a single keyword is told by its tokens. -/
theorem isKeywordWord_eq (h : Locates source tokens run) (keyword : Keyword) :
    isKeywordWord keyword tokens = Lexeme.isKeywordWord keyword run := by
  rcases h.single_or with ⟨t, l, rfl, rfl, hvalue⟩ | ⟨htokens, hrun⟩
  · rw [isKeywordWord, Lexeme.isKeywordWord, hvalue]
  · rw [isKeywordWord, Lexeme.isKeywordWord]
    · exact hrun
    · exact htokens

/-- The name given to a table by the words after it, of which the first may be `AS`. -/
def aliasOf (source : String) : List (List (Located Token)) → Checked (Option String)
  | [] => return none
  | word :: rest =>
    if isKeywordWord .as word then
      match rest with
      | [] => return none
      | name :: _ => text source name
    else text source word

/-- The table that a run names, optionally with a name given to it. -/
def tableReference (source : String) (tokens : List (Located Token)) :
    Checked (Option TableReference) :=
  match words tokens with
  | [] => return none
  | word :: rest => do
    match ← text source word with
    | none => return none
    | some name => return some ⟨name, ← aliasOf source rest⟩

/-- The name that is given to a table is read from the same words. -/
theorem aliasOf_eq {parts : List (List (Located Token))} {runs : List (List Lexeme)}
    (h : List.Forall₂ (Locates source) parts runs) :
    aliasOf source parts = .ok (TableReference.aliasOf runs) := by
  cases h with
  | nil => rfl
  | @cons part run parts runs hword hrest =>
      have has := isKeywordWord_eq hword .as
      cases hrest with
      | nil =>
          simp only [aliasOf, TableReference.aliasOf, has, text_eq hword]
          split_ifs <;> rfl
      | cons hname _ =>
          simp only [aliasOf, TableReference.aliasOf, has, text_eq hword, text_eq hname]
          split_ifs <;> rfl

/-- A table is read from the same words. -/
theorem tableReference_eq (h : Locates source tokens run) :
    tableReference source tokens = .ok (TableReference.ofLexemes? run) := by
  have hwords := words_rel h
  rw [tableReference, TableReference.ofLexemes?]
  generalize words tokens = parts at hwords ⊢
  generalize Lexeme.words run = runs at hwords ⊢
  cases hwords with
  | nil => rfl
  | @cons part run parts runs hword hrest =>
      dsimp only
      rw [text_eq hword, aliasOf_eq hrest]
      cases Lexeme.text? run <;> rfl

/-- The sort key in a run: its first word, descending if the second word is `DESC`. -/
def sortKey (source : String) (tokens : List (Located Token)) : Checked (Option SortKey) :=
  match words tokens with
  | [] => return none
  | word :: rest => do
    match ← text source word with
    | none => return none
    | some column =>
      return some ⟨column,
        if rest.head?.any (isKeywordWord .desc) then .descending else .ascending⟩

/-- A sort key is read from the same words. -/
theorem sortKey_eq (h : Locates source tokens run) :
    sortKey source tokens = .ok (SortKey.ofLexemes? run) := by
  have hwords := words_rel h
  rw [sortKey, SortKey.ofLexemes?]
  generalize words tokens = parts at hwords ⊢
  generalize Lexeme.words run = runs at hwords ⊢
  cases hwords with
  | nil => rfl
  | @cons part run parts runs hword hrest =>
      have hdirection : parts.head?.any (isKeywordWord .desc) =
          runs.head?.any (Lexeme.isKeywordWord .desc) := by
        cases hrest with
        | nil => rfl
        | cons hnext _ => exact isKeywordWord_eq hnext .desc
      dsimp only
      rw [text_eq hword, hdirection]
      cases Lexeme.text? run <;> rfl

/-! ### Parts between separators -/

/-- The parts of a run from an index on, when the present one began at another index. -/
def splitFrom (separator : Token) (tokens : List (Located Token)) (depth start : Nat) :
    Cursor (Located Token) → Checked (List (List (Located Token)))
  | [] => return [← sliceList tokens start tokens.length]
  | (t, i) :: rest =>
    if t.value = .leftParen then splitFrom separator tokens (depth + 1) start rest
    else if t.value = .rightParen then splitFrom separator tokens (depth - 1) start rest
    else if t.value = separator ∧ depth = 0 then do
      let part ← sliceList tokens start i
      return part :: (← splitFrom separator tokens depth (i + 1) rest)
    else splitFrom separator tokens depth start rest

/-- The parts of a run between the separators outside of parentheses. -/
def splitTopLevel (separator : Token) (tokens : List (Located Token)) :
    Checked (List (List (Located Token))) := splitFrom separator tokens 0 0 tokens.zipIdx

section Split

variable {separator : Token} {depth i start : Nat} {t : Located Token}
  {rest : Cursor (Located Token)}

/-- At a separator the present part is cut out. -/
theorem splitFrom_separator (hparen : separator.isParen = false) (ht : t.value = separator) :
    splitFrom separator tokens 0 start ((t, i) :: rest) = do
      let part ← sliceList tokens start i
      return part :: (← splitFrom separator tokens 0 (i + 1) rest) := by
  rw [Token.isParen, decide_eq_false_iff_not, not_or] at hparen
  rw [splitFrom, ht, if_neg hparen.1, if_neg hparen.2, if_pos ⟨rfl, rfl⟩]

/-- At any other token the present part goes on. -/
theorem splitFrom_of_not_separator (ht : ¬ (depth = 0 ∧ t.value = separator)) :
    splitFrom separator tokens depth start ((t, i) :: rest) =
      splitFrom separator tokens (t.value.depthAfter depth) start rest := by
  rw [splitFrom]
  split_ifs with hleft hright hseparator
  · rw [hleft]
    rfl
  · rw [hright]
    rfl
  · exact absurd hseparator.symm ht
  · cases hvalue : t.value <;> first | rfl | contradiction

/-- Nothing put in front of the first part changes nothing. -/
theorem modifyHead_nil_append {α : Type} (parts : List (List α)) :
    parts.modifyHead ([] ++ ·) = parts := by
  cases parts <;> rfl

/-- Behind the front of a run and the first lexemes of a part, that part is cut out together
with them, and the others behind it. -/
theorem exists_splitFrom (depth : Nat) (front part : List Lexeme) {ls : List Lexeme}
    {left : List (Located Token)} (hparen : separator.isParen = false)
    (h : Locates source tokens (front ++ (part ++ ls))) (hleft : Locates source left ls) :
    ∃ parts, splitFrom separator tokens depth front.length
        (left.zipIdx (front.length + part.length)) = .ok parts ∧
      List.Forall₂ (Locates source) parts
        ((Lexeme.splitTopLevel separator depth ls).modifyHead (part ++ ·)) := by
  induction ls generalizing front part left depth with
  | nil =>
      obtain ⟨cut, hcut, hpart⟩ := h.sliceList
      have hlength := h.length_eq
      simp only [List.length_append, List.length_nil, Nat.add_zero] at hlength
      rw [← hlength] at hcut
      rw [hleft.eq_nil, List.zipIdx_nil, splitFrom, hcut, ok_bind, Lexeme.splitTopLevel,
        List.modifyHead_cons, List.append_nil]
      exact ⟨_, rfl, .cons hpart .nil⟩
  | cons l ls ih =>
      obtain ⟨t, more, rfl, ht, hmore⟩ := hleft.exists_cons
      by_cases hseparator : depth = 0 ∧ l.token = separator
      · -- the next part begins behind the separator, with nothing of it read yet
        obtain ⟨rfl, htoken⟩ := hseparator
        obtain ⟨cut, hcut, hpart⟩ := h.sliceList
        have hsplit : front ++ (part ++ l :: ls) = (front ++ part ++ [l]) ++ ([] ++ ls) := by
          simp only [List.append_assoc, List.nil_append, List.singleton_append]
        rw [hsplit] at h
        obtain ⟨parts, hparts, hrel⟩ := ih 0 (front ++ part ++ [l]) [] h hmore
        simp only [List.length_append, List.length_singleton, List.length_nil,
          Nat.add_zero] at hparts
        rw [List.zipIdx_cons, splitFrom_separator hparen (ht.trans htoken), hcut,
          ok_bind, hparts, ok_bind, Lexeme.splitTopLevel, if_pos ⟨rfl, htoken⟩,
          List.modifyHead_cons, List.append_nil]
        refine ⟨_, rfl, .cons hpart ?_⟩
        rwa [modifyHead_nil_append] at hrel
      · have hsplit : front ++ (part ++ l :: ls) = front ++ ((part ++ [l]) ++ ls) := by
          simp only [List.append_assoc, List.singleton_append]
        rw [hsplit] at h
        obtain ⟨parts, hparts, hrel⟩ :=
          ih (l.token.depthAfter depth) front (part ++ [l]) h hmore
        rw [List.length_append, List.length_singleton, ← Nat.add_assoc] at hparts
        rw [← ht] at hseparator
        rw [List.zipIdx_cons, splitFrom_of_not_separator hseparator, ht, hparts,
          Lexeme.splitTopLevel, if_neg (ht ▸ hseparator), List.modifyHead_modifyHead]
        refine ⟨parts, rfl, ?_⟩
        simpa only [Function.comp_def, List.append_assoc, List.singleton_append] using hrel

/-- The parts between separators can be cut out. -/
theorem exists_splitTopLevel (h : Locates source tokens run)
    (hparen : separator.isParen = false) :
    ∃ parts, splitTopLevel separator tokens = .ok parts ∧
      List.Forall₂ (Locates source) parts (Lexeme.splitTopLevel separator 0 run) := by
  obtain ⟨parts, hparts, hrel⟩ := exists_splitFrom 0 [] [] hparen h h
  rw [modifyHead_nil_append] at hrel
  exact ⟨parts, hparts, hrel⟩

end Split

/-- What is read from the parts between separators. -/
def readParts {β : Type} (separator : Token) (f : List (Located Token) → Checked (Option β))
    (tokens : List (Located Token)) : Checked (List β) := do
  (← splitTopLevel separator tokens).filterMapM f

/-- Parts are read one by one, each as its lexemes are. -/
theorem readParts_eq {β : Type} {separator : Token} (hparen : separator.isParen = false)
    {f : List (Located Token) → Checked (Option β)} {g : List Lexeme → Option β}
    (hf : ∀ tokens run, Locates source tokens run → f tokens = .ok (g run))
    (h : Locates source tokens run) :
    readParts separator f tokens =
      .ok ((Lexeme.splitTopLevel separator 0 run).filterMap g) := by
  obtain ⟨parts, hparts, hrel⟩ := exists_splitTopLevel h hparen
  rw [readParts, hparts, ok_bind, filterMapM_eq hf hrel]

/-! ### Parts around a keyword -/

/-- The index of the first keyword of a kind outside of parentheses. -/
def topLevelPosition (keyword : Keyword) (depth : Nat) : List (Located Token) → Option Nat
  | [] => none
  | t :: rest =>
    let depth := t.value.depthAfter depth
    if depth = 0 ∧ t.value = .keyword keyword then some 0
    else (topLevelPosition keyword depth rest).map (· + 1)

/-- A keyword does not change the depth, so it does not matter on which side of it
that is taken. -/
theorem topLevelPosition_eq (h : Locates source tokens run) (keyword : Keyword) (depth : Nat) :
    topLevelPosition keyword depth tokens =
      (Lexeme.cutTopLevel? keyword depth run).map fun sides => sides.1.length := by
  induction run generalizing tokens depth with
  | nil =>
      rw [h.eq_nil]
      rfl
  | cons l ls ih =>
      obtain ⟨t, rest, rfl, ht, hrest⟩ := h.exists_cons
      rw [topLevelPosition, Lexeme.cutTopLevel?, ht]
      by_cases hkeyword : l.token = .keyword keyword
      · have hdepth : l.token.depthAfter depth = depth := by rw [hkeyword]; rfl
        rw [hdepth]
        split_ifs
        · rfl
        · rw [ih hrest, Option.map_map, Option.map_map]
          rfl
      · rw [if_neg fun hboth => hkeyword hboth.2, if_neg fun hboth => hkeyword hboth.2,
          ih hrest, Option.map_map, Option.map_map]
        rfl

/-- The parts on both sides of an index. -/
def cutAt (tokens : List (Located Token)) (i : Nat) :
    Checked (List (Located Token) × List (Located Token)) := do
  let before ← sliceList tokens 0 i
  return (before, ← sliceList tokens (i + 1) tokens.length)

/-- The parts on both sides of a keyword can be cut out. -/
theorem exists_cutAt {keyword : Keyword} {depth : Nat} {before after : List Lexeme}
    (h : Locates source tokens run)
    (hcut : Lexeme.cutTopLevel? keyword depth run = some (before, after)) :
    ∃ front back,
      cutAt tokens before.length = .ok (front, back) ∧ Locates source front before ∧
      Locates source back after := by
  obtain ⟨l, hrun⟩ := Lexeme.append_of_cutTopLevel? hcut
  have hlength := h.length_eq
  simp only [hrun, List.length_append, List.length_cons] at hlength
  have hfront := h.take before.length
  have hback := h.drop (before.length + 1)
  rw [hrun, List.take_left] at hfront
  rw [hrun, List.drop_length_add_append, List.drop_succ_cons, List.drop_zero] at hback
  rw [cutAt, sliceList_of_le (Nat.zero_le _) (by omega), sliceList_to_end (by omega)]
  exact ⟨_, _, rfl, hfront, hback⟩

end SqlOutline.Checked
