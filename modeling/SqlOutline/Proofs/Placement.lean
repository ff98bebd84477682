import SqlOutline.Proofs.Excerpts
import SqlOutline.Proofs.Tiling

/-!
# Where the texts of an outline stand

The texts of an outline are excerpts of the statement, so each of them has its own range of
bytes in the source. The range of a stretch goes from the first byte of its first token to the
last byte of its last one. Ranges of excerpts do not overlap, and what lies between the ends
of a range is the text that was read there.

## Main results

* `StandsAt.exists_split`: the range of a stretch cuts the source before and behind its text.
* `Excerpts.pairwise`: what holds of tokens in their order holds between excerpts.
* `StandsAt.exists_tokens`: excerpts of the lexemes are excerpts of the located tokens.
* `wellFormed_ofText`: every outline is well formed and its texts have places of their own.
-/

namespace SqlOutline

/-- The bytes that a row of located values covers, end excluded; no bytes if it is empty. -/
def Located.range {α : Type} (run : List (Located α)) : Nat × Nat :=
  (run.head?.elim 0 (·.first), run.getLast?.elim 0 (·.last + 1))

/-- The range of a row ends before that of a row behind it begins. -/
theorem Located.range_le {α : Type} {xs ys : List (Located α)} (hxs : xs ≠ []) (hys : ys ≠ [])
    (h : ∀ a ∈ xs, ∀ b ∈ ys, a.last < b.first) : (range xs).2 ≤ (range ys).1 := by
  have hlast := h _ (List.getLast_mem hxs) _ (List.head_mem hys)
  rw [range, range, List.getLast?_eq_some_getLast hxs, List.head?_eq_some_head hys]
  exact hlast

namespace Excerpts

variable {α : Type} {xs : List α} {ps : List (List α)}

/-- No excerpt is empty. -/
theorem ne_nil_of_mem (h : Excerpts xs ps) : ∀ part ∈ ps, part ≠ [] := by
  induction h with
  | nil => simp
  | cons hpart _ ih =>
      intro part hmem
      rcases List.mem_cons.mp hmem with rfl | hmem
      · exact hpart
      · exact ih part hmem

/-- Each excerpt consists of elements of the list. -/
theorem subset (h : Excerpts xs ps) : ∀ part ∈ ps, part ⊆ xs := by
  induction h with
  | nil => simp
  | cons _ _ ih =>
      intro part hmem a ha
      rcases List.mem_cons.mp hmem with rfl | hmem
      · simp [ha]
      · simp [ih part hmem ha]

/-- What holds between the elements of a list in their order holds between those
of its excerpts. -/
theorem pairwise {R : α → α → Prop} (h : Excerpts xs ps) (hxs : xs.Pairwise R) :
    ps.Pairwise fun p q => ∀ a ∈ p, ∀ b ∈ q, R a b := by
  induction h with
  | nil => exact .nil
  | cons _ hrest ih =>
      obtain ⟨-, hbehind, -⟩ := List.pairwise_append.mp hxs
      obtain ⟨-, hlater, hbetween⟩ := List.pairwise_append.mp hbehind
      refine .cons (fun q hq a ha b hb => ?_) (ih hlater)
      exact hbetween a ha b (hrest.subset q hq hb)

end Excerpts

namespace Lexeme

/-! ### Tokens with their places -/

/-- The tokens of lexemes with their places, if the first lexeme begins at byte `offset`. -/
def tokensFrom (offset : Nat) (ls : List Lexeme) : List (Located Token) :=
  (locate offset ls).map fun t => ⟨t.value.token, t.first, t.last⟩

/-- The tokens of a source with their places. -/
def tokensOf (source : String) : List (Located Token) := tokensFrom 0 (ofText source.toList)

/-- No lexemes have no places. -/
@[simp] theorem tokensFrom_nil (offset : Nat) : tokensFrom offset [] = [] := rfl

/-- A token begins behind the gap of its lexeme and ends with its source. -/
theorem tokensFrom_cons (offset : Nat) (l : Lexeme) (ls : List Lexeme) :
    tokensFrom offset (l :: ls) =
      ⟨l.token, offset + byteCount l.gap, offset + byteCount l.source - 1⟩ ::
        tokensFrom (offset + byteCount l.source) ls := by
  rw [source, byteCount_append, ← Nat.add_assoc]
  rfl

/-- The second of two runs begins behind the source of the first. -/
theorem tokensFrom_append (offset : Nat) (xs ys : List Lexeme) :
    tokensFrom offset (xs ++ ys) =
      tokensFrom offset xs ++ tokensFrom (offset + byteCount (xs.flatMap source)) ys := by
  induction xs generalizing offset with
  | nil => rfl
  | cons l xs ih =>
      rw [List.cons_append, tokensFrom_cons, tokensFrom_cons, ih, List.flatMap_cons,
        byteCount_append, Nat.add_assoc, List.cons_append]

/-- There are as many tokens as lexemes. -/
@[simp] theorem length_tokensFrom (offset : Nat) (ls : List Lexeme) :
    (tokensFrom offset ls).length = ls.length := by
  induction ls generalizing offset with
  | nil => rfl
  | cons l ls ih => rw [tokensFrom_cons, List.length_cons, List.length_cons, ih]

/-- The tokens that are located are those of the lexemes. -/
theorem map_value_tokensFrom (offset : Nat) (ls : List Lexeme) :
    (tokensFrom offset ls).map (·.value) = ls.map (·.token) := by
  induction ls generalizing offset with
  | nil => rfl
  | cons l ls ih => rw [tokensFrom_cons, List.map_cons, List.map_cons, ih]

/-- The first tokens are those of the first lexemes. -/
theorem take_tokensFrom (offset n : Nat) (ls : List Lexeme) :
    (tokensFrom offset ls).take n = tokensFrom offset (ls.take n) := by
  induction ls generalizing offset n with
  | nil => simp
  | cons l ls ih =>
      cases n with
      | zero => rfl
      | succ n =>
          rw [tokensFrom_cons, List.take_succ_cons, ih, List.take_succ_cons, tokensFrom_cons]

/-- The tokens behind the first ones stand behind the source of these. -/
theorem drop_tokensFrom (offset n : Nat) (ls : List Lexeme) :
    (tokensFrom offset ls).drop n =
      tokensFrom (offset + byteCount ((ls.take n).flatMap source)) (ls.drop n) := by
  induction ls generalizing offset n with
  | nil => simp
  | cons l ls ih =>
      cases n with
      | zero => rfl
      | succ n =>
          rw [tokensFrom_cons, List.drop_succ_cons, ih, List.take_succ_cons, List.flatMap_cons,
            byteCount_append, ← Nat.add_assoc, List.drop_succ_cons]

/-- Each token of a source ends before the next one begins. -/
theorem pairwise_tokensOf (text : String) :
    (tokensOf text).Pairwise fun a b => a.last < b.first := by
  obtain ⟨_, hreads, -⟩ := exists_reads_ofText text.toList
  exact List.pairwise_map.mpr (pairwise_locate 0 hreads.text_ne_nil)

/-- A run of lexemes with characters that stands in a source from a byte offset on. -/
structure StandsAt (text : String) (offset : Nat) (run : List Lexeme) : Prop where
  spelled : ∀ l ∈ run, l.text ≠ []
  split : ∃ before after, text.toList = before ++ (run.flatMap source ++ after) ∧
    offset = byteCount before

/-- The lexemes of a text stand at its beginning. -/
theorem standsAt_ofText (text : String) : StandsAt text 0 (ofText text.toList) := by
  obtain ⟨trailing, hreads, -⟩ := exists_reads_ofText text.toList
  exact ⟨hreads.text_ne_nil, [], trailing, hreads.source_append.symm, rfl⟩

namespace StandsAt

variable {text : String} {offset : Nat} {xs ys part : List Lexeme}

/-- The first of two runs stands where both do. -/
theorem left (h : StandsAt text offset (xs ++ ys)) : StandsAt text offset xs := by
  obtain ⟨before, after, htext, hoffset⟩ := h.split
  refine ⟨fun l hl => h.spelled l (List.mem_append_left ys hl), before,
    ys.flatMap source ++ after, ?_, hoffset⟩
  rw [htext, List.flatMap_append, List.append_assoc]

/-- The second of two runs stands behind the source of the first. -/
theorem right (h : StandsAt text offset (xs ++ ys)) :
    StandsAt text (offset + byteCount (xs.flatMap source)) ys := by
  obtain ⟨before, after, htext, hoffset⟩ := h.split
  refine ⟨fun l hl => h.spelled l (List.mem_append_right xs hl), before ++ xs.flatMap source,
    after, ?_, ?_⟩
  · rw [htext, List.flatMap_append, List.append_assoc, List.append_assoc]
  · rw [byteCount_append, hoffset]

/-- The last token of a run ends where the run does. -/
theorem last_tokensFrom (h : StandsAt text offset xs) (hne : xs ≠ []) :
    (tokensFrom offset xs).getLast?.elim 0 (·.last + 1) =
      offset + byteCount (xs.flatMap source) := by
  obtain ⟨front, l, rfl⟩ : ∃ front l, xs = front ++ [l] :=
    ⟨_, _, (List.dropLast_append_getLast hne).symm⟩
  have hpos : 0 < byteCount l.text := byteCount_pos (h.spelled l (by simp))
  rw [tokensFrom_append, tokensFrom_cons, tokensFrom_nil, List.getLast?_concat,
    List.flatMap_append, byteCount_append]
  simp only [Option.elim_some, List.flatMap_cons, List.flatMap_nil, List.append_nil, source,
    byteCount_append]
  omega

/-- The range of a stretch cuts the source before and behind the text of the stretch. -/
theorem exists_split (h : StandsAt text offset part) (hne : part ≠ []) :
    ∃ before after, text.toList = before ++ (spelling part ++ after) ∧ spelling part ≠ [] ∧
      Located.range (tokensFrom offset part) =
        (byteCount before, byteCount (before ++ spelling part)) := by
  have hlast := h.last_tokensFrom hne
  obtain ⟨before, after, htext, hoffset⟩ := h.split
  cases part with
  | nil => exact absurd rfl hne
  | cons l rest =>
      refine ⟨before ++ l.gap, after, ?_, ?_, ?_⟩
      · rw [htext, spelling, List.flatMap_cons]
        simp [source]
      · rw [spelling, Ne, List.append_eq_nil_iff, not_and_or]
        exact .inl (h.spelled l (by simp))
      · rw [Located.range, hlast, hoffset, tokensFrom_cons, spelling, List.flatMap_cons]
        simp only [List.head?_cons, Option.elim_some, byteCount_append, source, Nat.add_assoc]

/-- The text of a stretch is what lies in its range. -/
theorem slice_range (h : StandsAt text offset part) (hne : part ≠ []) :
    slice text (Located.range (tokensFrom offset part)).1
      (Located.range (tokensFrom offset part)).2 = spelling part := by
  obtain ⟨before, after, htext, -, hrange⟩ := h.exists_split hne
  rw [hrange]
  exact slice_of_split htext

/-- Excerpts of the lexemes of a source are excerpts of its tokens, each with the offset at
which it stands. -/
theorem exists_tokens {parts : List (List Lexeme)} (h : StandsAt text offset xs)
    (hparts : Excerpts xs parts) :
    ∃ placed : List (Nat × List Lexeme), placed.map (·.2) = parts ∧
      (∀ p ∈ placed, StandsAt text p.1 p.2) ∧
      Excerpts (tokensFrom offset xs) (placed.map fun p => tokensFrom p.1 p.2) := by
  induction hparts generalizing offset with
  | nil => exact ⟨[], rfl, by simp, .nil⟩
  | @cons before part rest parts hpart _ ih =>
      obtain ⟨placed, rfl, hstands, hrows⟩ := ih h.right.right
      refine ⟨(offset + byteCount (before.flatMap source), part) :: placed, rfl, ?_, ?_⟩
      · exact List.forall_mem_cons.mpr ⟨h.right.left, hstands⟩
      · rw [tokensFrom_append, tokensFrom_append]
        exact .cons (by simpa [← List.length_eq_zero_iff] using hpart) hrows

end StandsAt

/-! ### Texts without blanks at their ends -/

/-- Whether a text neither begins nor ends with a blank. -/
def isTrim (cs : List Char) : Bool := cs.head?.all (!isBlank ·) && cs.getLast?.all (!isBlank ·)

/-- A text is trim if no blank begins it and none ends it. -/
theorem isTrim_iff {cs : List Char} : isTrim cs = true ↔
    (∀ c ∈ cs.head?, isBlank c = false) ∧ ∀ c ∈ cs.getLast?, isBlank c = false := by
  cases hhead : cs.head? <;> cases hlast : cs.getLast? <;> simp [isTrim, hhead, hlast]

/-- The tokens of a text that does not end in a blank neither begin nor end in one. -/
theorem Reads.isTrim_text {cs rest : List Char} {ls : List Lexeme} (h : Reads cs ls rest)
    (hlast : ∀ c ∈ cs.getLast?, isBlank c = false) : ∀ l ∈ ls, isTrim l.text = true := by
  induction h with
  | nil => simp
  | @cons gap tail rest last c token ls hgap hbegins hnext _ ih =>
      have hc : isBlank c = false := (Trivia.begins_cons_eq_false_iff.mp hbegins).1
      intro l hl
      rcases List.mem_cons.mp hl with rfl | hl
      · refine isTrim_iff.mpr ⟨by simpa using hc, ?_⟩
        cases rest with
        | nil =>
            intro d hd
            refine hlast d ?_
            rw [List.append_nil, List.getLast?_append_of_ne_nil _ (by simp)]
            exact hd
        | cons d rest => exact not_isBlank_of_next hnext hc (by simp)
      · refine ih (fun d hd => hlast d ?_) l hl
        have hne : rest ≠ [] := by
          rintro rfl
          simp at hd
        rw [List.getLast?_append_of_ne_nil _ (by simp), List.getLast?_cons,
          List.getLast?_append_of_ne_nil _ hne, hd]
        rfl

/-- A stretch of tokens that neither begin nor end in a blank does neither itself. -/
theorem isTrim_spelling {part : List Lexeme} (hne : ∀ l ∈ part, l.text ≠ [])
    (h : ∀ l ∈ part, isTrim l.text = true) : isTrim (spelling part) = true := by
  cases part with
  | nil => rfl
  | cons l rest =>
      have hl : l.text ≠ [] := hne l (by simp)
      refine isTrim_iff.mpr ⟨?_, ?_⟩
      · rw [spelling, List.head?_append_of_ne_nil _ hl]
        exact (isTrim_iff.mp (h l (by simp))).1
      · rcases List.eq_nil_or_concat' rest with rfl | ⟨front, last, rfl⟩
        · rw [spelling, List.flatMap_nil, List.append_nil]
          exact (isTrim_iff.mp (h l (by simp))).2
        · have hlast : last.text ≠ [] := hne last (by simp)
          rw [spelling, List.flatMap_append, List.flatMap_singleton, source,
            ← List.append_assoc, ← List.append_assoc, List.getLast?_append_of_ne_nil _ hlast]
          exact (isTrim_iff.mp (h last (by simp))).2

/-- What is left begins with an element that was not to be dropped. -/
theorem not_of_mem_head?_dropWhile {α : Type} {p : α → Bool} {xs : List α} :
    ∀ {a}, a ∈ (xs.dropWhile p).head? → p a = false := by
  intro a ha
  have hnot := List.head?_dropWhile_not p xs
  rw [Option.mem_def.mp ha] at hnot
  exact hnot

/-- Trimming takes blanks off both ends of a text and leaves none there. -/
theorem exists_trimBlanks (cs : List Char) :
    ∃ front back, cs = front ++ (trimBlanks cs ++ back) ∧ (∀ c ∈ front, isBlank c = true) ∧
      (∀ c ∈ back, isBlank c = true) ∧ isTrim (trimBlanks cs) = true := by
  have hfront := List.takeWhile_append_dropWhile (p := isBlank) (l := cs)
  generalize htext : cs.dropWhile isBlank = text at hfront
  have hback := List.takeWhile_append_dropWhile (p := isBlank) (l := text.reverse)
  have hsplit := congrArg List.reverse hback
  rw [List.reverse_append, List.reverse_reverse] at hsplit
  have htrim : trimBlanks cs = (text.reverse.dropWhile isBlank).reverse := by
    rw [trimBlanks, trimBlanksRight, htext]
  refine ⟨cs.takeWhile isBlank, (text.reverse.takeWhile isBlank).reverse, ?_, ?_, ?_, ?_⟩
  · rw [htrim, hsplit, hfront]
  · exact fun c hc => List.mem_takeWhile_imp hc
  · exact fun c hc => List.mem_takeWhile_imp (List.mem_reverse.mp hc)
  · rw [htrim, isTrim_iff]
    constructor
    · intro c hc
      have hfirst : c ∈ (cs.dropWhile isBlank).head? := by
        rw [htext, ← hsplit, List.head?_append, Option.mem_def.mp hc]
        rfl
      exact not_of_mem_head?_dropWhile hfirst
    · intro c hc
      rw [List.getLast?_reverse] at hc
      exact not_of_mem_head?_dropWhile hc

end Lexeme

/-! ### Well-formed outlines -/

/-- Ranges of bytes of a source, one for each text of an outline in its order, that hold these
texts and do not overlap. -/
structure Query.PlacedAt (q : Query) (ranges : List (Nat × Nat)) : Prop where
  nonempty : ∀ range ∈ ranges, range.1 < range.2
  onCharacters : ∀ range ∈ ranges, String.Pos.Raw.IsValid q.source ⟨range.1⟩ ∧
    String.Pos.Raw.IsValid q.source ⟨range.2⟩
  ascending : ranges.Pairwise fun a b => a.2 ≤ b.1
  spelled : q.texts = ranges.map fun range => String.ofList (slice q.source range.1 range.2)
  trim : ∀ text ∈ q.texts, (∀ c ∈ text.toList.head?, isBlank c = false) ∧
    ∀ c ∈ text.toList.getLast?, isBlank c = false

/-- What the parts of every outline have in common, whatever they were read from. -/
structure Query.Regular (q : Query) : Prop where
  /-- Only a `SELECT` has parts. -/
  bare : q.kind ≠ .select → q = Query.bare q.kind q.source
  columns : ∀ selection ∈ q.selection, selection.columns ≠ []
  tables : ∀ tables ∈ q.tables, tables ≠ []
  joins : ∀ joins ∈ q.joins, joins ≠ []
  sortKeys : ∀ keys ∈ q.sortKeys, keys ≠ []
  /-- In front of joins stands at most one table. -/
  lead : q.joins.isSome → ∀ tables ∈ q.tables, tables.length = 1
  selectAll : ∀ selection ∈ q.selection, selection.isSelectAll → selection.columns = ["*"]

/-- An outline of a text: its source is the text without the blanks at its ends, its parts are
regular, and the texts in it have places of their own in the source. -/
structure Query.WellFormed (sql : String) (q : Query) : Prop extends q.Regular where
  source : ∃ front back, sql.toList = front ++ (q.source.toList ++ back) ∧
    (∀ c ∈ front, isBlank c = true) ∧ (∀ c ∈ back, isBlank c = true) ∧
    (∀ c ∈ q.source.toList.head?, isBlank c = false) ∧
    ∀ c ∈ q.source.toList.getLast?, isBlank c = false
  places : ∃ ranges, q.PlacedAt ranges

/-- An empty list is left out. -/
theorem ne_nil_of_mem_nonempty? {α : Type} {items found : List α}
    (h : found ∈ nonempty? items) :
    found ≠ [] := by
  cases items with
  | nil => simp [nonempty?] at h
  | cons a items =>
      rw [nonempty?, Option.mem_some_iff] at h
      simp [← h]

/-- The columns of an outline are an asterisk for all of them, or a list that is not empty. -/
theorem Selection.spec_ofLexemes? {run : List Lexeme} :
    ∀ selection ∈ ofLexemes? run, selection.columns ≠ [] ∧
      (selection.isSelectAll → selection.columns = ["*"]) := by
  intro selection h
  rw [ofLexemes?] at h
  split at h
  · obtain rfl := Option.some_inj.mp h
    simp [all]
  · obtain ⟨columns, hcolumns, rfl⟩ := Option.map_eq_some_iff.mp h
    exact ⟨ne_nil_of_mem_nonempty? hcolumns, by simp⟩

/-- The tables and joins of an outline are no empty lists, and joins have at most one
table in front. -/
theorem spec_readTableList (run : List Lexeme) :
    (∀ tables ∈ (readTableList run).1, tables ≠ []) ∧
      (∀ joins ∈ (readTableList run).2, joins ≠ []) ∧
      ((readTableList run).2.isSome →
        ∀ tables ∈ (readTableList run).1, tables.length = 1) := by
  rw [readTableList]
  split
  · refine ⟨fun tables h => ?_, fun joins h => ne_nil_of_mem_nonempty? h, fun _ tables h => ?_⟩
    · obtain ⟨table, -, rfl⟩ := Option.map_eq_some_iff.mp h
      simp
    · obtain ⟨table, -, rfl⟩ := Option.map_eq_some_iff.mp h
      rfl
  · exact ⟨fun tables h => ne_nil_of_mem_nonempty? h, by simp, by simp⟩

namespace Query

/-- Excerpts of a source without blanks at its ends give the places of their texts. -/
theorem exists_placedAt {q : Query} (htrim : Lexeme.isTrim q.source.toList = true)
    (hyields : Lexeme.Yields (Lexeme.ofText q.source.toList) q.texts) :
    ∃ ranges, q.PlacedAt ranges := by
  obtain ⟨parts, hparts, htexts⟩ := hyields
  obtain ⟨_, hreads, -⟩ := Lexeme.exists_reads_ofText q.source.toList
  have hends := hreads.isTrim_text (Lexeme.isTrim_iff.mp htrim).2
  obtain ⟨placed, hplaced, hstands, hrows⟩ :=
    (Lexeme.standsAt_ofText q.source).exists_tokens hparts
  have hne : ∀ p ∈ placed, p.2 ≠ [] := fun p hp =>
    hparts.ne_nil_of_mem p.2 (hplaced ▸ List.mem_map_of_mem hp)
  refine ⟨placed.map fun p => Located.range (Lexeme.tokensFrom p.1 p.2), ?_, ?_, ?_, ?_, ?_⟩
  · intro range hrange
    obtain ⟨p, hp, rfl⟩ := List.mem_map.mp hrange
    obtain ⟨before, after, -, hspelled, heq⟩ := (hstands p hp).exists_split (hne p hp)
    have hpos := Lexeme.byteCount_pos hspelled
    rw [heq, Lexeme.byteCount_append]
    omega
  · intro range hrange
    obtain ⟨p, hp, rfl⟩ := List.mem_map.mp hrange
    obtain ⟨before, after, hsource, -, heq⟩ := (hstands p hp).exists_split (hne p hp)
    rw [heq]
    exact ⟨Lexeme.isValid_of_split hsource,
      Lexeme.isValid_of_split (hsource.trans (List.append_assoc _ _ _).symm)⟩
  · have hpairs := hrows.pairwise (Lexeme.pairwise_tokensOf q.source)
    rw [List.pairwise_map] at hpairs ⊢
    refine hpairs.imp_of_mem fun {p r} hp hr hbetween => ?_
    refine Located.range_le ?_ ?_ hbetween
    · simpa [← List.length_eq_zero_iff] using hne p hp
    · simpa [← List.length_eq_zero_iff] using hne r hr
  · rw [← htexts, ← hplaced, List.map_map, List.map_map]
    refine List.map_congr_left fun p hp => ?_
    rw [Function.comp_apply, Function.comp_apply, (hstands p hp).slice_range (hne p hp)]
    rfl
  · intro text htext
    rw [← htexts] at htext
    obtain ⟨part, hpart, rfl⟩ := List.mem_map.mp htext
    have hsub := hparts.subset part hpart
    rw [← Lexeme.isTrim_iff, Lexeme.spelled, String.toList_ofList]
    exact Lexeme.isTrim_spelling (fun l hl => hreads.text_ne_nil l (hsub hl))
      fun l hl => hends l (hsub hl)

/-- An outline with nothing but a kind is regular. -/
theorem regular_bare (kind : StatementKind) (source : String) :
    (bare kind source).Regular := by
  constructor <;> simp [bare]

/-- An outline that is read from clauses is regular. -/
theorem regular_ofClauses (clauses : Clauses) (source : String) :
    (ofClauses clauses source).Regular := by
  obtain ⟨htables, hjoins, hlead⟩ : _ ∧ _ ∧ _ :=
    spec_readTableList (clauses.tableList.getD [])
  have hcolumns : ∀ selection ∈ clauses.selectList.bind Selection.ofLexemes?,
      selection.columns ≠ [] ∧ (selection.isSelectAll → selection.columns = ["*"]) := by
    intro selection h
    obtain ⟨run, -, hrun⟩ := Option.bind_eq_some_iff.mp h
    exact Selection.spec_ofLexemes? selection hrun
  have hkeys : ∀ keys ∈ clauses.sortKeys.bind SortKey.listOfLexemes?, keys ≠ [] := by
    intro keys h
    obtain ⟨run, -, hrun⟩ := Option.bind_eq_some_iff.mp h
    exact ne_nil_of_mem_nonempty? hrun
  have hselection : ∀ selection ∈ (ofClauses clauses source).selection, selection.columns ≠ [] ∧
      (selection.isSelectAll → selection.columns = ["*"]) := hcolumns
  cases hlist : clauses.tableList with
  | none =>
      refine ⟨fun h => absurd rfl h, fun s h => (hselection s h).1, ?_, ?_, hkeys, ?_,
        fun s h => (hselection s h).2⟩ <;> simp [ofClauses, hlist]
  | some tables =>
      rw [hlist] at htables hjoins hlead
      have hread : (ofClauses clauses source).tables = (readTableList tables).1 ∧
          (ofClauses clauses source).joins = (readTableList tables).2 := by
        rw [ofClauses, hlist]
        exact ⟨rfl, rfl⟩
      refine ⟨fun h => absurd rfl h, fun s h => (hselection s h).1, ?_, ?_, hkeys, ?_,
        fun s h => (hselection s h).2⟩
      · exact hread.1 ▸ htables
      · exact hread.2 ▸ hjoins
      · rw [hread.1, hread.2]
        exact hlead

/-- An outline keeps the text without the blanks around it. -/
theorem source_ofText (sql : String) :
    (ofText sql).source = String.ofList (trimBlanks sql.toList) := by
  rw [ofText, ofLexemes]
  split <;> rfl

/-- Every outline is well formed, and its texts have places of their own in the source. -/
theorem wellFormed_ofText (sql : String) : WellFormed sql (ofText sql) := by
  obtain ⟨front, back, hsql, hfront, hback, htrim⟩ := Lexeme.exists_trimBlanks sql.toList
  have hsource : (ofText sql).source.toList = trimBlanks sql.toList := by
    rw [source_ofText, String.toList_ofList]
  have hyields := yields_ofText sql
  rw [← hsource] at hsql htrim hyields
  have hregular : (ofText sql).Regular := by
    rw [ofText, ofLexemes]
    split
    · exact regular_ofClauses _ _
    · exact regular_bare _ _
  obtain ⟨hfirst, hlast⟩ := Lexeme.isTrim_iff.mp htrim
  exact ⟨hregular, ⟨front, back, hsql, hfront, hback, hfirst, hlast⟩,
    exists_placedAt htrim hyields⟩

end Query

end SqlOutline
