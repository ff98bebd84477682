import SqlOutline.Proofs.Checked.Joins

/-!
# Table lists split at their joins

`JoinChain.ofLexemes` takes the first introduction that it comes to and goes on behind its
words. Nothing of a table list is lost in this, and nothing is found that is not there: every
`JOIN` outside of parentheses ends the introduction of one join, and that introduction is the
longest one that ends there. It cannot be longer than what the pass has left over, since `JOIN`
is the last word of every introduction, so that none reaches back over the join before.

## Main results

* `Checked.body_markersBehind`: the joins of a table list and its words `JOIN`, one for one.
* `JoinType.length_le_of_endsAt`: no longer introduction ends where that of a join does.
* `JoinPart.forall₂_filterMap_toJoin?`: the parts with a table are the joins that are read.
* `Checked.joinSplit_ofLexemes`: markers, parts, leading table and joins of any table list.
-/

namespace SqlOutline

open Lexeme (depthBefore isTopKeyword)

/-! ### Tokens outside of parentheses -/

namespace Lexeme

/-- Whether a token stands at an index of a run, outside of parentheses. -/
def isTopToken (run : List Lexeme) (token : Token) (i : Nat) : Bool :=
  decide (depthBefore run i = 0) && run[i]?.any (·.token = token)

/-- The first index of a run at which a token stands outside of parentheses, or its length. -/
def topIndex (run : List Lexeme) (token : Token) : Nat :=
  firstIndex (isTopToken run token) 0 run.length

/-- The search for a token ends within the run. -/
theorem topIndex_le (run : List Lexeme) (token : Token) : topIndex run token ≤ run.length :=
  (firstIndex_spec _ (Nat.zero_le _)).2.1

/-- A run is cut at the first place of a keyword. -/
theorem cutTopLevel?_eq (keyword : Keyword) (run : List Lexeme) :
    cutTopLevel? keyword 0 run =
      if topIndex run (.keyword keyword) < run.length then
        some (run.take (topIndex run (.keyword keyword)),
          run.drop (topIndex run (.keyword keyword) + 1))
      else none := by
  have hcut := JoinChain.cutTopLevel?_drop keyword (Nat.zero_le run.length) (Nat.le_refl _)
  simp only [List.take_length, List.drop_zero] at hcut
  exact hcut

/-- A keyword is found if it has a place. -/
theorem isSome_cutTopLevel?_iff {keyword : Keyword} {run : List Lexeme} :
    (cutTopLevel? keyword 0 run).isSome = true ↔
      (List.range run.length).filter (isTopToken run (.keyword keyword)) ≠ [] := by
  rw [cutTopLevel?_eq, List.range_eq_range']
  split_ifs with hlt
  · have hfilter := filter_range'_of_lt (Nat.zero_le run.length)
      (rfl : _ = topIndex run (.keyword keyword)) hlt
    rw [Nat.sub_zero] at hfilter
    simp [hfilter]
  · have hend : topIndex run (.keyword keyword) = run.length :=
      Nat.le_antisymm (topIndex_le _ _) (Nat.le_of_not_lt hlt)
    have hfilter := filter_range'_of_eq (Nat.zero_le run.length) hend
    rw [Nat.sub_zero] at hfilter
    simp [hfilter]

/-- A token counts where it stands outside of parentheses. -/
theorem isTopToken_iff {run : List Lexeme} {token : Token} {i : Nat} (hi : i < run.length) :
    isTopToken run token i = true ↔ depthBefore run i = 0 ∧ run[i].token = token := by
  simp [isTopToken, List.getElem?_eq_getElem hi]

/-- The first item ends at the first separator that counts. -/
theorem head?_splitTopLevel_drop (separator : Token) {run : List Lexeme} {s : Nat}
    (hs : s ≤ run.length) :
    (splitTopLevel separator (depthBefore run s) (run.drop s)).head? =
      some ((run.take (firstIndex (isTopToken run separator) s run.length)).drop s) := by
  induction hn : run.length - s generalizing s with
  | zero =>
      obtain rfl : s = run.length := by omega
      rw [firstIndex_of_le (Nat.le_refl _), List.take_length, List.drop_length, splitTopLevel]
      rfl
  | succ n ih =>
      have hlt : s < run.length := by omega
      have htop : isTopToken run separator s = true ↔ _ := isTopToken_iff hlt
      rw [List.drop_eq_getElem_cons hlt, splitTopLevel]
      cases hat : isTopToken run separator s with
      | true =>
          rw [firstIndex_of_pos hat hlt, if_pos (htop.mp hat)]
          simp
      | false =>
          have hnot : ¬ (depthBefore run s = 0 ∧ run[s].token = separator) := by
            rw [← htop, hat]
            decide
          obtain ⟨hge, -⟩ := firstIndex_spec (isTopToken run separator)
            (show s + 1 ≤ run.length by omega)
          rw [firstIndex_of_not hat hlt, if_neg hnot, ← depthBefore_succ hlt,
            List.head?_modifyHead, ih (by omega) (by omega), drop_take_eq_cons hlt (by omega)]
          rfl

/-- The first of the parts of a run ends at the first place of the separator. -/
theorem head?_splitTopLevel (separator : Token) (run : List Lexeme) :
    (splitTopLevel separator 0 run).head? = some (run.take (topIndex run separator)) :=
  head?_splitTopLevel_drop separator (Nat.zero_le _)

/-- Whether a row of words stands in front of an index of a run. -/
def EndsAt (run : List Lexeme) (i : Nat) (keywords : List Keyword) : Prop :=
  keywords.map Token.keyword <:+ (run.take i).map (·.token)

end Lexeme

open Lexeme (EndsAt isTopToken topIndex)

/-! ### Starts of joins -/

namespace JoinChain

open JoinType (wordCount Introduction)

variable {tables : List Lexeme} {s a b : Nat}

/-- The introductions of two joins of a chain do not overlap. -/
theorem IsStart.disjoint (h : IsStart tables s a) (h' : IsStart tables s b)
    (hs : s ≤ tables.length) :
    a = b ∨ a + wordCount tables a ≤ b ∨ b + wordCount tables b ≤ a := by
  induction h with
  | first hlt =>
      obtain ⟨-, -, hholds, -⟩ := startFrom_spec hs
      obtain ⟨_, _, hintroduction⟩ := JoinType.exists_introduction (hholds hlt)
      rcases (isStart_iff.mp h').2 with rfl | hrest
      · exact .inl rfl
      · exact .inr (.inl (hrest.beginsAt hintroduction.within).1)
  | later hlt hrest ih =>
      obtain ⟨-, -, hholds, -⟩ := startFrom_spec hs
      obtain ⟨_, _, hintroduction⟩ := JoinType.exists_introduction (hholds hlt)
      rcases (isStart_iff.mp h').2 with rfl | hrest'
      · exact .inr (.inr (hrest.beginsAt hintroduction.within).1)
      · exact ih hrest' hintroduction.within

end JoinChain

namespace JoinType

open JoinChain (IsStart exists_isStart)

variable {tables : List Lexeme} {a i : Nat}

/-- A run begins with a row of words if its tokens do. -/
theorem beginsWith_iff {keywords : List Keyword} {run : List Lexeme} :
    beginsWith keywords run = true ↔ keywords.map Token.keyword <+: run.map (·.token) := by
  induction keywords generalizing run with
  | nil => simp [beginsWith]
  | cons keyword keywords ih =>
      cases run with
      | nil => simp [beginsWith]
      | cons l run =>
          simp only [beginsWith, Bool.and_eq_true, decide_eq_true_eq, ih, List.map_cons,
            List.cons_prefix_cons, eq_comm (a := l.token)]

/-- A row of words ends at an index if its words begin so many places before. -/
theorem endsAt_iff {keywords : List Keyword} (hi : i ≤ tables.length) :
    EndsAt tables i keywords ↔ keywords.length ≤ i ∧
      beginsWith keywords (tables.drop (i - keywords.length)) = true := by
  rw [beginsWith_iff, EndsAt]
  constructor
  · intro h
    have hle := h.length_le
    simp only [List.length_map, List.length_take] at hle
    refine ⟨by omega, ?_⟩
    have hdrop := List.suffix_iff_eq_drop.mp h
    rw [hdrop, List.length_map, List.length_map, List.length_take, Nat.min_eq_left hi,
      ← List.map_drop]
    exact (List.IsPrefix.drop (List.take_prefix _ _) _).map _
  · rintro ⟨hle, h⟩
    have htake := List.prefix_iff_eq_take.mp h
    rw [htake, List.length_map, ← List.map_take, List.take_drop,
      show i - keywords.length + keywords.length = i by omega]
    exact (List.drop_suffix _ _).map _

/-- No longer introduction than its own ends where the introduction of a join does. -/
theorem length_le_of_endsAt (h : IsStart tables 0 a) {keywords : List Keyword}
    {type : JoinType} (hlisted : (keywords, type) ∈ introductions)
    (hends : EndsAt tables (a + wordCount tables a) keywords) :
    keywords.length ≤ wordCount tables a := by
  obtain ⟨_, _, hat⟩ := exists_introduction (h.beginsAt (Nat.zero_le _)).2
  obtain ⟨hle, hbegins⟩ := (endsAt_iff hat.within).mp hends
  by_contra hlong
  obtain ⟨b, hb⟩ : ∃ b, b = a + wordCount tables a - keywords.length := ⟨_, rfl⟩
  rw [← hb] at hbegins
  have hdepth : depthBefore tables b = 0 := by
    rw [← depthBefore_add_of_beginsWith hbegins (Nat.le_refl _), hb, Nat.sub_add_cancel hle]
    exact hat.depth
  have hsome : beginsAt tables b = true := by
    rw [beginsAt, hdepth, introducedBy?, Option.isSome_map, List.find?_isSome.mpr]
    · rfl
    · exact ⟨_, hlisted, hbegins⟩
  -- A longer row would begin before the join does, and hold the `JOIN` of a join before it.
  obtain ⟨c, hstart, hc, hcb⟩ := exists_isStart (Nat.zero_le _) (Nat.zero_le b) hsome
  obtain ⟨_, _, hbefore⟩ := exists_introduction (hstart.beginsAt (Nat.zero_le _)).2
  have hnonempty := hbefore.nonempty
  have hover : c + wordCount tables c ≤ a := by
    rcases hstart.disjoint h (Nat.zero_le _) with rfl | hover | hover <;> omega
  obtain ⟨m, hm⟩ : ∃ m, b + m = c + wordCount tables c - 1 :=
    ⟨c + wordCount tables c - 1 - b, by omega⟩
  have hinside : m < keywords.length := by omega
  obtain ⟨l, hl, hword⟩ := exists_word_of_beginsWith hbegins hinside
  obtain ⟨-, l', hl', hjoin⟩ := Lexeme.isTopKeyword_iff.mp (hm ▸ hbefore.join_last)
  rw [hl, Option.some_inj] at hl'
  rw [← hl', hword, Token.keyword.injEq] at hjoin
  have hlast := eq_last_of_getElem_eq_join hlisted hinside hjoin
  have hpos := hat.nonempty
  omega

end JoinType

/-! ### Markers -/

namespace Checked

open JoinChain (IsStart startFrom startFrom_spec)
open JoinType (wordCount Introduction)

variable {tables : List Lexeme} {s a : Nat}

/-- The markers of the joins in what stands behind the first `s` lexemes of a table list. -/
def markersBehind (tables : List Lexeme) (s : Nat) : List JoinMarker :=
  let chain := JoinChain.ofLexemes (depthBefore tables s) (tables.drop s)
  markersFrom (s + chain.lead.length) chain.parts

/-- There are no markers if no join begins any more. -/
theorem markersBehind_of_eq (hs : s ≤ tables.length)
    (hend : startFrom tables s = tables.length) :
    markersBehind tables s = [] := by
  rw [markersBehind, JoinChain.ofLexemes_drop_of_eq hs hend]
  rfl

/-- The first marker is that of the first introduction, and the others are those behind it. -/
theorem markersBehind_of_lt (hs : s ≤ tables.length) (ha : startFrom tables s = a)
    {keywords : List Keyword} {type : JoinType} (h : Introduction tables a keywords type) :
    markersBehind tables s = ⟨type, a, a + wordCount tables a⟩ ::
      markersBehind tables (a + wordCount tables a) := by
  obtain ⟨hge, -⟩ := startFrom_spec hs
  have hlt := h.start_lt
  have hlead : s + ((tables.take a).drop s).length = a := by
    rw [List.length_drop, List.length_take]
    omega
  rw [markersBehind, markersBehind, JoinChain.ofLexemes_drop_of_lt hs ha h, h.depth]
  dsimp only
  rw [hlead, markersFrom, JoinPart.run, List.length_append, JoinChain.length_words h.within,
    Nat.add_assoc]

/-- A marker belongs to a join of the chain. -/
theorem exists_isStart_of_mem (hs : s ≤ tables.length) {marker : JoinMarker}
    (h : marker ∈ markersBehind tables s) :
    IsStart tables s marker.start ∧
      marker.body = marker.start + wordCount tables marker.start ∧
      ∃ keywords, Introduction tables marker.start keywords marker.type := by
  induction s, hs using JoinChain.start_induction with
  | hend s hs hend =>
      rw [markersBehind_of_eq hs hend] at h
      cases h
  | hjoin s hs a keywords type ha hat ih =>
      have hlt := hat.start_lt
      subst ha
      rw [markersBehind_of_lt hs rfl hat, List.mem_cons] at h
      rcases h with rfl | h
      · exact ⟨.first hlt, rfl, keywords, hat⟩
      · obtain ⟨hstart, hrest⟩ := ih h
        exact ⟨.later hlt hstart, hrest⟩

/-- Behind each `JOIN` outside of parentheses begins the body of a join, and no other does. -/
theorem body_markersBehind (hs : s ≤ tables.length) :
    (markersBehind tables s).map (·.body) =
      ((List.range' s (tables.length - s)).filter
        (isTopToken tables (.keyword .join))).map (· + 1) := by
  induction s, hs using JoinChain.start_induction with
  | hend s hs hend =>
      obtain ⟨-, -, -, hbefore⟩ := startFrom_spec hs
      have hnone : ∀ i, s ≤ i → i < tables.length →
          isTopToken tables (.keyword .join) i = false := by
        intro i hi hlt
        by_contra hjoin
        have hbegins := JoinType.beginsAt_of_isTopKeyword_join (Bool.of_not_eq_false hjoin)
        rw [hbefore i hi (hend ▸ hlt)] at hbegins
        cases hbegins
      rw [markersBehind_of_eq hs hend,
        filter_range'_of_eq hs (firstIndex_of_forall_not hs hnone)]
      rfl
  | hjoin s hs a keywords type ha h ih =>
      obtain ⟨hge, -, -, hbefore⟩ := startFrom_spec hs
      rw [ha] at hge hbefore
      have hnonempty := h.nonempty
      have hwithin := h.within
      have hlast : isTopKeyword tables .join (a + wordCount tables a - 1) = true := h.join_last
      have hnone : ∀ i, s ≤ i → i < a + wordCount tables a - 1 →
          isTopToken tables (.keyword .join) i = false := by
        intro i hi hlt
        by_contra hjoin
        have hjoin := Bool.of_not_eq_false hjoin
        by_cases hinside : a ≤ i
        · have hlast := h.eq_last_of_join hinside (by omega) hjoin
          omega
        · have hbegins := JoinType.beginsAt_of_isTopKeyword_join hjoin
          rw [hbefore i hi (by omega)] at hbegins
          cases hbegins
      have hfirst : firstIndex (isTopToken tables (.keyword .join)) s tables.length =
          a + wordCount tables a - 1 := firstIndex_eq (by omega) (by omega) hlast hnone
      have hnext : a + wordCount tables a - 1 + 1 = a + wordCount tables a := by omega
      rw [markersBehind_of_lt hs ha h, filter_range'_of_lt hs hfirst (by omega), List.map_cons,
        List.map_cons, hnext, ih]

/-- Whether a marker begins with the longest introduction that ends where its body begins, and
has the type of this one. -/
def JoinMarker.IsLongest (tables : List Lexeme) (marker : JoinMarker) : Prop :=
  ∃ keywords, (keywords, marker.type) ∈ JoinType.introductions ∧
    marker.start + keywords.length = marker.body ∧ EndsAt tables marker.body keywords ∧
    ∀ row ∈ JoinType.introductions, EndsAt tables marker.body row.1 →
      row.1.length ≤ keywords.length

/-- Each marker has the longest of the words that stand there. -/
theorem isLongest_of_mem {marker : JoinMarker} (h : marker ∈ markersBehind tables 0) :
    marker.IsLongest tables := by
  obtain ⟨hstart, hbody, _, hat⟩ := exists_isStart_of_mem (Nat.zero_le _) h
  obtain ⟨keywords, hlisted, hcount, hbegins⟩ :=
    JoinType.exists_of_introducedBy? hat.introduced
  have hwithin := hat.within
  refine ⟨keywords, hlisted, by omega, (JoinType.endsAt_iff (by omega)).mpr ⟨by omega, ?_⟩, ?_⟩
  · rwa [hbody, hcount, Nat.add_sub_cancel]
  · rintro ⟨row, type⟩ hrow hends
    rw [hbody] at hends
    rw [hcount]
    exact JoinType.length_le_of_endsAt hstart hrow hends

/-- The parts of a table list that markers cut out: the words of a join from its start on, and
what stands between them and the next join. -/
def partsAt (tables : List Lexeme) : List JoinMarker → List JoinPart
  | [] => []
  | marker :: more =>
    ⟨marker.type, (tables.take marker.body).drop marker.start,
      (tables.take (nextStart tables.length more)).drop marker.body⟩ :: partsAt tables more

/-- The middle of three parts is found by the lengths of the first two. -/
theorem drop_take_of_append {xs ys zs : List Lexeme} (h : tables = xs ++ (ys ++ zs)) :
    (tables.take (xs.length + ys.length)).drop xs.length = ys := by
  rw [h, List.take_length_add_append, List.take_left, List.drop_left]

/-- The markers of parts that stand one behind the other cut them out again. -/
theorem partsAt_markersFrom {front : List Lexeme} {parts : List JoinPart}
    (h : tables = front ++ parts.flatMap JoinPart.run) :
    partsAt tables (markersFrom front.length parts) = parts := by
  induction parts generalizing front with
  | nil => rfl
  | cons part more ih =>
      have hrest : tables = (front ++ part.run) ++ more.flatMap JoinPart.run := by
        rw [h, List.flatMap_cons, List.append_assoc]
      have hnext :
          nextStart tables.length (markersFrom (front.length + part.run.length) more) =
          front.length + part.run.length := by
        refine nextStart_markersFrom ?_
        rw [hrest, List.length_append, List.length_append]
      have hbehind := ih hrest
      rw [List.length_append] at hbehind
      have hintroduction :
          (tables.take (front.length + part.introduction.length)).drop front.length =
            part.introduction := by
        refine drop_take_of_append
          (?_ : tables = _ ++ (_ ++ (part.body ++ more.flatMap JoinPart.run)))
        rw [hrest, JoinPart.run, List.append_assoc, List.append_assoc]
      have hbody : (tables.take (front.length + part.run.length)).drop
          (front.length + part.introduction.length) = part.body := by
        rw [JoinPart.run, List.length_append, ← Nat.add_assoc, ← List.length_append]
        refine drop_take_of_append (?_ : tables = _ ++ (_ ++ more.flatMap JoinPart.run))
        rw [hrest, JoinPart.run]
        simp only [List.append_assoc]
      rw [markersFrom, partsAt, hnext, hbehind]
      dsimp only
      rw [hintroduction, hbody]

end Checked

/-! ### Tables and joins -/

namespace JoinPart

/-- What stands in front of the first `ON` of a part. -/
def tableRun (part : JoinPart) : List Lexeme :=
  part.body.take (topIndex part.body (.keyword .on))

/-- What stands behind the first `ON` of a part. -/
def conditionRun (part : JoinPart) : List Lexeme :=
  part.body.drop (topIndex part.body (.keyword .on) + 1)

/-- What is to be known of the join that is read from a part. -/
structure Reads (part : JoinPart) (join : Join) : Prop where
  type : join.type = part.type
  table : TableReference.ofLexemes? part.tableRun = some join.table
  condition : join.condition = Lexeme.text? part.conditionRun
  present : join.condition.isSome = true ↔ part.conditionRun ≠ []

/-- A join is read from the runs of its table and its condition. -/
theorem toJoin?_eq (part : JoinPart) :
    part.toJoin? = (TableReference.ofLexemes? part.tableRun).map fun table =>
      ⟨part.type, table, Lexeme.text? part.conditionRun⟩ := by
  have hle := Lexeme.topIndex_le part.body (.keyword .on)
  rw [toJoin?, Lexeme.cutTopLevel?_eq, tableRun, conditionRun]
  split_ifs with hlt
  · rfl
  · rw [List.take_of_length_le (by omega), List.drop_of_length_le (by omega)]
    rfl

/-- The joins of parts are those of the parts with a table, in their order. -/
theorem forall₂_filterMap_toJoin? (parts : List JoinPart) :
    List.Forall₂ Reads (parts.filter (·.tableRun ≠ [])) (parts.filterMap toJoin?) := by
  induction parts with
  | nil => exact .nil
  | cons part more ih =>
      rw [List.filterMap_cons, List.filter_cons, toJoin?_eq]
      cases htable : TableReference.ofLexemes? part.tableRun with
      | none =>
          rw [TableReference.ofLexemes?_eq_none_iff] at htable
          simpa [htable] using ih
      | some table =>
          have hne : part.tableRun ≠ [] := by
            rw [Ne, ← TableReference.ofLexemes?_eq_none_iff, htable]
            simp
          rw [if_pos (by simpa using hne)]
          refine .cons ⟨rfl, htable, rfl, ?_⟩ ih
          rw [Option.isSome_iff_ne_none, Ne, Lexeme.text?_eq_none_iff]

end JoinPart

namespace JoinChain

/-- The table in front of the joins of a chain. -/
def leadTable? (chain : JoinChain) : Option TableReference :=
  (Lexeme.splitTopLevel .comma 0 chain.lead).head?.bind TableReference.ofLexemes?

/-- The joins of a chain, in their order. -/
def joins (chain : JoinChain) : List Join := chain.parts.filterMap JoinPart.toJoin?

/-- The leading table ends at the first comma. -/
theorem leadTable?_eq (chain : JoinChain) : chain.leadTable? =
    TableReference.ofLexemes? (chain.lead.take (topIndex chain.lead .comma)) := by
  rw [leadTable?, Lexeme.head?_splitTopLevel, Option.bind_some]

end JoinChain

namespace Checked

/-- What stands in front of the first of some markers, up to a comma. -/
def leadRun (tables : List Lexeme) (markers : List JoinMarker) : List Lexeme :=
  let front := tables.take (nextStart tables.length markers)
  front.take (topIndex front .comma)

/-- What is to be known of the markers of a table list, its leading table and its joins. -/
structure JoinSplit (tables : List Lexeme) (markers : List JoinMarker)
    (lead : Option TableReference) (joins : List Join) : Prop where
  marked : ∀ source tokens, Locates source tokens tables →
    joinMarkers tokens.length 0 tokens.zipIdx = .ok markers
  detected : (Lexeme.cutTopLevel? .join 0 tables).isSome = true ↔ markers ≠ []
  bodies : markers.map (·.body) =
    ((List.range tables.length).filter (isTopToken tables (.keyword .join))).map (· + 1)
  longest : ∀ marker ∈ markers, marker.IsLongest tables
  whole : tables.take (nextStart tables.length markers) ++
    (partsAt tables markers).flatMap JoinPart.run = tables
  lead_eq : lead = TableReference.ofLexemes? (leadRun tables markers)
  lead_eq_none_iff : lead = none ↔ leadRun tables markers = []
  joined :
    List.Forall₂ JoinPart.Reads ((partsAt tables markers).filter (·.tableRun ≠ [])) joins
  read : markers ≠ [] → readTableList tables = (lead.map fun table => [table], nonempty? joins)

/-- A table list is split where joins begin, and each join is read from its own part. -/
theorem joinSplit_ofLexemes (tables : List Lexeme) :
    JoinSplit tables (markersBehind tables 0) (JoinChain.ofLexemes 0 tables).leadTable?
      (JoinChain.ofLexemes 0 tables).joins := by
  obtain ⟨chain, hchain⟩ : ∃ chain, chain = JoinChain.ofLexemes 0 tables := ⟨_, rfl⟩
  have hmarkers : markersBehind tables 0 = markersFrom chain.lead.length chain.parts := by
    rw [markersBehind, Nat.zero_add, hchain]
    rfl
  have hwhole : chain.lead ++ chain.parts.flatMap JoinPart.run = tables :=
    hchain ▸ JoinChain.append_ofLexemes 0 tables
  have hlength :
      tables.length = chain.lead.length + (chain.parts.flatMap JoinPart.run).length := by
    rw [← hwhole, List.length_append]
  have hfront : tables.take (nextStart tables.length (markersBehind tables 0)) =
      chain.lead := by
    rw [hmarkers, nextStart_markersFrom hlength, ← hwhole, List.take_left]
  have hparts : partsAt tables (markersBehind tables 0) = chain.parts := by
    rw [hmarkers, partsAt_markersFrom hwhole.symm]
  have hbodies := body_markersBehind (Nat.zero_le tables.length)
  rw [Nat.sub_zero, ← List.range_eq_range'] at hbodies
  have hlead : chain.leadTable? =
      TableReference.ofLexemes? (leadRun tables (markersBehind tables 0)) := by
    rw [JoinChain.leadTable?_eq, leadRun, hfront]
  have hdetected : (Lexeme.cutTopLevel? .join 0 tables).isSome = true ↔
      markersBehind tables 0 ≠ [] := by
    rw [Lexeme.isSome_cutTopLevel?_iff, Ne, Ne, ← List.map_eq_nil_iff (f := (· + 1)),
      ← hbodies, List.map_eq_nil_iff]
  rw [← hchain]
  exact
    { marked := fun source tokens h => by
        rw [joinMarkers_eq tokens.length 0 tables tokens 0 h
          (h.length_eq.trans (Nat.zero_add _).symm), hmarkers, hchain, Nat.zero_add]
      detected := hdetected
      bodies := hbodies
      longest := fun _ => isLongest_of_mem
      whole := by rw [hfront, hparts, hwhole]
      lead_eq := hlead
      lead_eq_none_iff := by rw [hlead, TableReference.ofLexemes?_eq_none_iff]
      joined := by
        rw [hparts]
        exact JoinPart.forall₂_filterMap_toJoin? _
      read := fun hne => by
        rw [readTableList, if_pos (hdetected.mpr hne), ← hchain]
        rfl }

/-- Only the words that stand next to a `JOIN` introduce it, and an open
parenthesis hides others. -/
example : markersBehind (Lexeme.ofText "a LEFT INNER JOIN b ON (c JOIN d".toList) 0 =
    [⟨.inner, 2, 4⟩] := by
  decide +kernel

end Checked

end SqlOutline
