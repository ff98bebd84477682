import SqlOutline.Proofs.Active
import SqlOutline.TableList

/-!
# The places of join words

`JoinChain.ofLexemes` passes over a table list once and cuts it where joins begin. This
module says which indices of the list it uses: those of the words that introduce a join, and
that of the `ON` between a joined table and its condition. Both are found without a pass, by
looking at one index at a time.

## Main results

* `ofLexemes_drop_of_lt`: a chain is cut at the first place where an introduction stands.
* `mem_wordPlaces_iff`, `exists_isStart`: every introduction outside of parentheses belongs to
  a join of the chain, and no other words do.
* `mem_onPlaces_iff`: the `ON` of a condition is the first one behind a `JOIN`.
-/

namespace SqlOutline

namespace Lexeme

/-- The depth at an index of a run. -/
def depthBefore (run : List Lexeme) (i : Nat) : Nat := depthAfter 0 (run.take i)

/-- Whether a keyword stands at an index of a run, outside of parentheses. -/
def isTopKeyword (run : List Lexeme) (keyword : Keyword) (i : Nat) : Bool :=
  decide (depthBefore run i = 0) && run[i]?.any (·.token = .keyword keyword)

/-- A keyword counts where it stands outside of parentheses. -/
theorem isTopKeyword_iff {run : List Lexeme} {keyword : Keyword} {i : Nat} :
    isTopKeyword run keyword i = true ↔
      depthBefore run i = 0 ∧ ∃ l, run[i]? = some l ∧ l.token = .keyword keyword := by
  cases hl : run[i]? <;> simp [isTopKeyword, hl]

/-- One keyword stands at an index. -/
theorem keyword_unique {run : List Lexeme} {first second : Keyword} {i : Nat}
    (hfirst : isTopKeyword run first i = true) (hsecond : isTopKeyword run second i = true) :
    first = second := by
  obtain ⟨-, l, hl, hlfirst⟩ := isTopKeyword_iff.mp hfirst
  obtain ⟨-, m, hm, hmsecond⟩ := isTopKeyword_iff.mp hsecond
  rw [hl, Option.some_inj] at hm
  rw [← hm, hlfirst, Token.keyword.injEq] at hmsecond
  exact hmsecond

/-- The depth behind a lexeme is told by the one before it. -/
theorem depthBefore_succ {run : List Lexeme} {i : Nat} (hi : i < run.length) :
    depthBefore run (i + 1) = run[i].token.depthAfter (depthBefore run i) := by
  rw [depthBefore, List.take_add_one, List.getElem?_eq_getElem hi, depthAfter,
    List.foldl_append]
  rfl

/-- A stretch begins with the lexeme at its lower end. -/
theorem drop_take_eq_cons {run : List Lexeme} {low high : Nat} (hlow : low < run.length)
    (hhigh : low < high) :
    (run.take high).drop low = run[low] :: (run.take high).drop (low + 1) := by
  rw [List.drop_eq_getElem_cons (by rw [List.length_take]; omega), List.getElem_take]

end Lexeme

open Lexeme (depthBefore isTopKeyword)

namespace JoinType

/-- Whether one of the rows of words that introduce a join stands at an index,
outside of parentheses. -/
def beginsAt (tables : List Lexeme) (i : Nat) : Bool :=
  decide (depthBefore tables i = 0) && (introducedBy? (tables.drop i)).isSome

/-- A row of words at the front of a run has each of its words at its place. -/
theorem getElem?_of_beginsWith {keywords : List Keyword} {run : List Lexeme}
    (h : beginsWith keywords run = true) {m : Nat} (hm : m < keywords.length) :
    ∃ l, run[m]? = some l ∧ l.token = .keyword keywords[m] := by
  induction keywords generalizing run m with
  | nil => simp at hm
  | cons keyword keywords ih =>
      cases run with
      | nil => simp [beginsWith] at h
      | cons l run =>
          simp only [beginsWith, Bool.and_eq_true, decide_eq_true_eq] at h
          cases m with
          | zero => exact ⟨l, rfl, h.1⟩
          | succ m => exact ih h.2 (by simpa using hm)

variable {tables : List Lexeme} {a : Nat} {keywords : List Keyword}

/-- The words of a row that stands at an index have their places from there on. -/
theorem exists_word_of_beginsWith (h : beginsWith keywords (tables.drop a) = true) {m : Nat}
    (hm : m < keywords.length) :
    ∃ l, tables[a + m]? = some l ∧ l.token = .keyword keywords[m] := by
  obtain ⟨l, hl, htoken⟩ := getElem?_of_beginsWith h hm
  exact ⟨l, by rwa [List.getElem?_drop] at hl, htoken⟩

/-- Words do not change the depth. -/
theorem depthBefore_add_of_beginsWith (h : beginsWith keywords (tables.drop a) = true)
    {m : Nat}
    (hm : m ≤ keywords.length) : depthBefore tables (a + m) = depthBefore tables a := by
  induction m with
  | zero => rfl
  | succ m ih =>
      obtain ⟨l, hl, htoken⟩ := exists_word_of_beginsWith h hm
      obtain ⟨hlt, hget⟩ := List.getElem?_eq_some_iff.mp hl
      rw [← Nat.add_assoc, Lexeme.depthBefore_succ hlt, hget, htoken, ← ih (by omega)]
      rfl

/-- The words that introduce a join stand in the list of such words. -/
theorem exists_of_introducedBy? {run : List Lexeme} {type : JoinType} {count : Nat}
    (h : introducedBy? run = some (type, count)) :
    ∃ keywords, (keywords, type) ∈ introductions ∧ keywords.length = count ∧
      beginsWith keywords run = true := by
  obtain ⟨⟨keywords, found⟩, hfind, heq⟩ := Option.map_eq_some_iff.mp h
  obtain ⟨rfl, rfl⟩ := Prod.mk.inj heq
  exact ⟨keywords, List.mem_of_find?_eq_some hfind, rfl, by simpa using List.find?_some hfind⟩

/-- An introduction ends in its only `JOIN`, and `ON` is no word of one. -/
theorem introductions_spec : ∀ row ∈ introductions,
    row.1.getLast? = some .join ∧ .on ∉ row.1 ∧ .join ∉ row.1.dropLast := by
  decide

/-- In an introduction `JOIN` is the last word. -/
theorem eq_last_of_getElem_eq_join {type : JoinType}
    (hlisted : (keywords, type) ∈ introductions)
    {m : Nat} (hm : m < keywords.length) (hjoin : keywords[m] = .join) :
    m + 1 = keywords.length := by
  by_contra hne
  have hdrop : m < keywords.dropLast.length := by
    rw [List.length_dropLast]
    omega
  refine (introductions_spec _ hlisted).2.2 ?_
  rw [← hjoin, ← List.getElem_dropLast hdrop]
  exact List.getElem_mem hdrop

/-- The number of words that introduce the join at an index. -/
def wordCount (tables : List Lexeme) (a : Nat) : Nat :=
  ((introducedBy? (tables.drop a)).map (·.2)).getD 0

/-- What is to be known of an introduction at an index: its row of words, and that they stand
outside of parentheses, one behind the other. -/
structure Introduction (tables : List Lexeme) (a : Nat) (keywords : List Keyword)
    (type : JoinType) : Prop where
  listed : (keywords, type) ∈ introductions
  introduced : introducedBy? (tables.drop a) = some (type, wordCount tables a)
  count : keywords.length = wordCount tables a
  nonempty : 1 ≤ wordCount tables a
  within : a + wordCount tables a ≤ tables.length
  depth : depthBefore tables (a + wordCount tables a) = 0
  words : ∀ m (hm : m < keywords.length), isTopKeyword tables keywords[m] (a + m) = true

/-- Where a join begins some of these words stand. -/
theorem exists_introduction (h : beginsAt tables a = true) :
    ∃ keywords type, Introduction tables a keywords type := by
  simp only [beginsAt, Bool.and_eq_true, decide_eq_true_eq, Option.isSome_iff_exists,
    Prod.exists] at h
  obtain ⟨hdepth, type, count, hintroduced⟩ := h
  obtain ⟨keywords, hmem, rfl, hbegins⟩ := exists_of_introducedBy? hintroduced
  have hcount : keywords.length = wordCount tables a := by
    rw [wordCount, hintroduced]
    rfl
  have hpos : 1 ≤ keywords.length := by
    have hlast := (introductions_spec _ hmem).1
    rw [Nat.one_le_iff_ne_zero]
    intro hzero
    rw [List.length_eq_zero_iff.mp hzero] at hlast
    simp at hlast
  have hword : ∀ m (hm : m < keywords.length), ∃ l, tables[a + m]? = some l ∧
      l.token = .keyword keywords[m] := fun m hm => exists_word_of_beginsWith hbegins hm
  have hdepths : ∀ m, m ≤ keywords.length → depthBefore tables (a + m) = 0 := fun m hm =>
    (depthBefore_add_of_beginsWith hbegins hm).trans hdepth
  have hwithin : a + keywords.length ≤ tables.length := by
    obtain ⟨l, hl, -⟩ := hword (keywords.length - 1) (by omega)
    obtain ⟨hlt, -⟩ := List.getElem?_eq_some_iff.mp hl
    omega
  exact ⟨keywords, type,
    { listed := hmem
      introduced := hcount ▸ hintroduced
      count := hcount
      nonempty := hcount ▸ hpos
      within := hcount ▸ hwithin
      depth := hcount ▸ hdepths _ (Nat.le_refl _)
      words := fun m hm => Lexeme.isTopKeyword_iff.mpr ⟨hdepths m (by omega), hword m hm⟩ }⟩

namespace Introduction

variable {type : JoinType}

/-- The words of a join begin within the table list. -/
theorem start_lt (h : Introduction tables a keywords type) : a < tables.length := by
  have hwithin := h.within
  have hnonempty := h.nonempty
  omega

/-- The word at an index inside of an introduction is one of its row. -/
theorem exists_word (h : Introduction tables a keywords type) {i : Nat} (hle : a ≤ i)
    (hlt : i < a + wordCount tables a) :
    ∃ hm : i - a < keywords.length, isTopKeyword tables keywords[i - a] i = true := by
  have hcount := h.count
  have hm : i - a < keywords.length := by omega
  have hword := h.words _ hm
  have hindex : a + (i - a) = i := by omega
  rw [hindex] at hword
  exact ⟨hm, hword⟩

/-- An introduction ends in `JOIN`. -/
theorem join_last (h : Introduction tables a keywords type) :
    isTopKeyword tables .join (a + wordCount tables a - 1) = true := by
  have hnonempty := h.nonempty
  obtain ⟨hm, hword⟩ := h.exists_word (show a ≤ a + wordCount tables a - 1 by omega) (by omega)
  have hlast := (introductions_spec _ h.listed).1
  rw [List.getLast?_eq_getElem?, List.getElem?_eq_some_iff] at hlast
  obtain ⟨hlt, hget⟩ := hlast
  have hcount := h.count
  have hindex : a + wordCount tables a - 1 - a = keywords.length - 1 := by omega
  simp only [hindex] at hword
  rwa [hget] at hword

/-- No word of an introduction is `ON`. -/
theorem not_on (h : Introduction tables a keywords type) {i : Nat} (hle : a ≤ i)
    (hlt : i < a + wordCount tables a) : isTopKeyword tables .on i = false := by
  obtain ⟨hm, hword⟩ := h.exists_word hle hlt
  by_contra hon
  have heq := Lexeme.keyword_unique hword (Bool.of_not_eq_false hon)
  exact (introductions_spec _ h.listed).2.1 (heq ▸ List.getElem_mem hm)

/-- No word of an introduction but its last one is `JOIN`. -/
theorem eq_last_of_join (h : Introduction tables a keywords type) {j : Nat} (hle : a ≤ j)
    (hlt : j < a + wordCount tables a) (hjoin : isTopKeyword tables .join j = true) :
    j + 1 = a + wordCount tables a := by
  obtain ⟨hm, hword⟩ := h.exists_word hle hlt
  have hlast := eq_last_of_getElem_eq_join h.listed hm (Lexeme.keyword_unique hword hjoin)
  have hcount := h.count
  omega

end Introduction

/-- `JOIN` alone introduces a join. -/
theorem beginsAt_of_isTopKeyword_join {j : Nat}
    (h : isTopKeyword tables .join j = true) : beginsAt tables j = true := by
  obtain ⟨hdepth, l, hl, htoken⟩ := Lexeme.isTopKeyword_iff.mp h
  obtain ⟨hlt, hget⟩ := List.getElem?_eq_some_iff.mp hl
  simp only [beginsAt, Bool.and_eq_true, decide_eq_true_eq]
  refine ⟨hdepth, ?_⟩
  rw [List.drop_eq_getElem_cons hlt, hget, introducedBy?, Option.isSome_map, List.find?_isSome]
  exact ⟨([.join], .inner), by simp [introductions], by simp [beginsWith, htoken]⟩

end JoinType

namespace JoinChain

open JoinType (wordCount Introduction)

variable {tables : List Lexeme} {s a : Nat}

/-- A chain goes on over places where no join begins. -/
theorem ofLexemes_drop_of_passes (hsa : s ≤ a) (ha : a ≤ tables.length)
    (hpass : ∀ k, s ≤ k → k < a → JoinType.beginsAt tables k = false) :
    ofLexemes (depthBefore tables s) (tables.drop s) =
      ⟨(tables.take a).drop s ++ (ofLexemes (depthBefore tables a) (tables.drop a)).lead,
        (ofLexemes (depthBefore tables a) (tables.drop a)).parts⟩ := by
  induction hn : a - s generalizing s with
  | zero =>
      obtain rfl : s = a := by omega
      have hempty : (tables.take s).drop s = [] := by simp
      rw [hempty]
      rfl
  | succ n ih =>
      have hs : s < tables.length := by omega
      have hnone : (if depthBefore tables s = 0 then JoinType.introducedBy? (tables.drop s)
          else none) = none := by
        have hbegins := hpass s (Nat.le_refl s) (by omega)
        split
        · next hdepth => simpa [JoinType.beginsAt, hdepth] using hbegins
        · rfl
      have htake := Lexeme.drop_take_eq_cons hs (show s < a by omega)
      rw [List.drop_eq_getElem_cons hs] at hnone ⊢
      rw [ofLexemes]
      simp only [hnone]
      rw [← Lexeme.depthBefore_succ hs,
        ih (by omega) (fun k hk => hpass k (by omega)) (by omega), htake]
      rfl

/-- The first place from an index on where a join begins, or the end of the list. -/
def startFrom (tables : List Lexeme) (s : Nat) : Nat :=
  firstIndex (JoinType.beginsAt tables) s tables.length

/-- The search finds the first place where a join begins, or the end. -/
theorem startFrom_spec (hs : s ≤ tables.length) :
    s ≤ startFrom tables s ∧ startFrom tables s ≤ tables.length ∧
      (startFrom tables s < tables.length →
        JoinType.beginsAt tables (startFrom tables s) = true) ∧
      ∀ i, s ≤ i → i < startFrom tables s → JoinType.beginsAt tables i = false :=
  firstIndex_spec (JoinType.beginsAt tables) hs

/-- Without an introduction the whole run is the lead of the chain. -/
theorem ofLexemes_drop_of_eq (hs : s ≤ tables.length)
    (hend : startFrom tables s = tables.length) :
    ofLexemes (depthBefore tables s) (tables.drop s) = ⟨tables.drop s, []⟩ := by
  obtain ⟨-, -, -, hbefore⟩ := startFrom_spec hs
  rw [hend] at hbefore
  rw [ofLexemes_drop_of_passes hs (Nat.le_refl _) hbefore, List.drop_length, ofLexemes]
  simp

/-- A chain is cut at the first place where an introduction stands, and goes on
behind its words. -/
theorem ofLexemes_drop_of_lt (hs : s ≤ tables.length) (ha : startFrom tables s = a)
    {keywords : List Keyword} {type : JoinType} (h : Introduction tables a keywords type) :
    ofLexemes (depthBefore tables s) (tables.drop s) =
      ⟨(tables.take a).drop s,
        ⟨type, (tables.drop a).take (wordCount tables a),
          (ofLexemes 0 (tables.drop (a + wordCount tables a))).lead⟩ ::
            (ofLexemes 0 (tables.drop (a + wordCount tables a))).parts⟩ := by
  obtain ⟨hge, hle, hholds, hbefore⟩ := startFrom_spec hs
  rw [ha] at hge hle hholds hbefore
  have hlt := h.start_lt
  have hdepth : depthBefore tables a = 0 := by
    have hbegins := hholds hlt
    simp only [JoinType.beginsAt, Bool.and_eq_true, decide_eq_true_eq] at hbegins
    exact hbegins.1
  obtain ⟨n, hn⟩ : ∃ n, wordCount tables a = n + 1 :=
    ⟨wordCount tables a - 1, by have hnonempty := h.nonempty; omega⟩
  have hintroduced := h.introduced
  rw [ofLexemes_drop_of_passes hge hle hbefore, hdepth, hn]
  rw [hn, List.drop_eq_getElem_cons hlt] at hintroduced
  rw [List.drop_eq_getElem_cons hlt, ofLexemes, if_pos rfl, hintroduced]
  have hbehind : a + 1 + n = a + (n + 1) := by omega
  simp only [Nat.add_sub_cancel, List.drop_drop, List.take_succ_cons, List.append_nil, hbehind]

/-- What holds where no join begins any more, and in front of a join if it holds behind its
words, holds at every index. -/
theorem start_induction {motive : ∀ s, s ≤ tables.length → Prop}
    (hend : ∀ s hs, startFrom tables s = tables.length → motive s hs)
    (hjoin : ∀ s hs a keywords type, startFrom tables s = a →
      (h : Introduction tables a keywords type) →
        motive (a + wordCount tables a) h.within → motive s hs)
    (s : Nat) (hs : s ≤ tables.length) : motive s hs := by
  induction hn : tables.length - s using Nat.strongRecOn generalizing s with
  | _ n ih =>
      obtain ⟨hge, hle, hholds, -⟩ := startFrom_spec hs
      rcases Nat.eq_or_lt_of_le hle with heq | hlt
      · exact hend s hs heq
      · obtain ⟨keywords, type, h⟩ := JoinType.exists_introduction (hholds hlt)
        have hnonempty := h.nonempty
        exact hjoin s hs _ keywords type rfl h (ih _ (by omega) _ h.within rfl)

/-! ### The parts of a chain by their places -/

/-- The lexemes between the introduction at an index and the next one. -/
def bodyAt (tables : List Lexeme) (a : Nat) : List Lexeme :=
  (tables.take (startFrom tables (a + wordCount tables a))).drop (a + wordCount tables a)

/-- A join of the chain from `s` on begins at an index: at the first introduction, or at one
of those behind its words. -/
inductive IsStart (tables : List Lexeme) : Nat → Nat → Prop
  | first {s : Nat} :
  startFrom tables s < tables.length → IsStart tables s (startFrom tables s)
  | later {s a : Nat} : startFrom tables s < tables.length →
      IsStart tables (startFrom tables s + wordCount tables (startFrom tables s)) a →
      IsStart tables s a

/-- What is in front of the joins ends where the first one begins. -/
theorem lead_ofLexemes_drop (hs : s ≤ tables.length) :
    (ofLexemes (depthBefore tables s) (tables.drop s)).lead =
      (tables.take (startFrom tables s)).drop s := by
  obtain ⟨-, hle, hholds, -⟩ := startFrom_spec hs
  rcases Nat.eq_or_lt_of_le hle with hend | hlt
  · rw [ofLexemes_drop_of_eq hs hend, hend, List.take_length]
  · obtain ⟨keywords, type, hintroduction⟩ := JoinType.exists_introduction (hholds hlt)
    rw [ofLexemes_drop_of_lt hs rfl hintroduction]

/-- The indices that `f` finds for each part, when the parts stand one behind the other. -/
def placesFrom (f : Nat → JoinPart → List Nat) (start : Nat) : List JoinPart → List Nat
  | [] => []
  | part :: parts =>
    f start part ++ placesFrom f (start + part.introduction.length + part.body.length) parts

/-- The indices that `f` finds for the parts of a chain. -/
def places (f : Nat → JoinPart → List Nat) (start : Nat) (chain : JoinChain) : List Nat :=
  placesFrom f (start + chain.lead.length) chain.parts

/-- A join starts at the first place found, or behind the words found there. -/
theorem isStart_iff : IsStart tables s a ↔ startFrom tables s < tables.length ∧
    (a = startFrom tables s ∨
      IsStart tables (startFrom tables s + wordCount tables (startFrom tables s)) a) := by
  constructor
  · intro h
    cases h with
    | first hlt => exact ⟨hlt, .inl rfl⟩
    | later hlt hrest => exact ⟨hlt, .inr hrest⟩
  · rintro ⟨hlt, rfl | hrest⟩
    · exact .first hlt
    · exact .later hlt hrest

/-- The words of a join are as many as were counted. -/
theorem length_words (h : a + wordCount tables a ≤ tables.length) :
    ((tables.drop a).take (wordCount tables a)).length = wordCount tables a := by
  rw [List.length_take, List.length_drop]
  omega

/-- The places of the parts behind `s` are those of the first join and those
behind its words. -/
theorem places_ofLexemes_drop (f : Nat → JoinPart → List Nat) (hs : s ≤ tables.length)
    (ha : startFrom tables s = a) {keywords : List Keyword} {type : JoinType}
    (h : Introduction tables a keywords type) :
    places f s (ofLexemes (depthBefore tables s) (tables.drop s)) =
      f a ⟨type, (tables.drop a).take (wordCount tables a), bodyAt tables a⟩ ++
        places f (a + wordCount tables a) (ofLexemes (depthBefore tables (a + wordCount tables a))
          (tables.drop (a + wordCount tables a))) := by
  obtain ⟨hge, -⟩ := startFrom_spec hs
  have hwithin := h.within
  have hlead : s + ((tables.take a).drop s).length = a := by
    rw [List.length_drop, List.length_take]
    omega
  have hwords := length_words hwithin
  have hbody := lead_ofLexemes_drop hwithin
  rw [h.depth] at hbody ⊢
  rw [ofLexemes_drop_of_lt hs ha h, places, places, hlead, placesFrom, hwords, hbody]
  rfl

/-- The parts of a chain are those at its starts. -/
theorem mem_places_iff {f : Nat → JoinPart → List Nat} {p : Nat} (hs : s ≤ tables.length) :
    p ∈ places f s (ofLexemes (depthBefore tables s) (tables.drop s)) ↔
      ∃ a type, IsStart tables s a ∧
        JoinType.introducedBy? (tables.drop a) = some (type, wordCount tables a) ∧
        p ∈ f a ⟨type, (tables.drop a).take (wordCount tables a), bodyAt tables a⟩ := by
  induction s, hs using start_induction with
  | hend s hs hend =>
      rw [ofLexemes_drop_of_eq hs hend, places, placesFrom]
      simp only [List.not_mem_nil, false_iff, not_exists]
      rintro a type ⟨hstart, -⟩
      have hlt := (isStart_iff.mp hstart).1
      omega
  | hjoin s hs a keywords type ha h ih =>
      have hlt := h.start_lt
      rw [places_ofLexemes_drop f hs ha h, List.mem_append, ih]
      subst ha
      constructor
      · rintro (hfirst | ⟨a, other, hstart, hother, hp⟩)
        · exact ⟨_, type, .first hlt, h.introduced, hfirst⟩
        · exact ⟨a, other, .later hlt hstart, hother, hp⟩
      · rintro ⟨a, other, hstart, hother, hp⟩
        rcases (isStart_iff.mp hstart).2 with rfl | hrest
        · rw [h.introduced, Option.some_inj, Prod.mk.injEq] at hother
          obtain ⟨rfl, -⟩ := hother
          exact .inl hp
        · exact .inr ⟨a, other, hrest, hother, hp⟩

/-- At the start of a join stands an introduction. -/
theorem IsStart.beginsAt (h : IsStart tables s a) (hs : s ≤ tables.length) :
    s ≤ a ∧ JoinType.beginsAt tables a = true := by
  induction h with
  | first hlt =>
      obtain ⟨hge, -, hholds, -⟩ := startFrom_spec hs
      exact ⟨hge, hholds hlt⟩
  | later hlt _ ih =>
      obtain ⟨hge, -, hholds, -⟩ := startFrom_spec hs
      obtain ⟨keywords, type, h⟩ := JoinType.exists_introduction (hholds hlt)
      obtain ⟨hle, hbegins⟩ := ih h.within
      exact ⟨by omega, hbegins⟩

/-- Every introduction belongs to a join of the chain. -/
theorem exists_isStart (hs : s ≤ tables.length) {i : Nat} (hi : s ≤ i)
    (hbegins : JoinType.beginsAt tables i = true) :
    ∃ a, IsStart tables s a ∧ a ≤ i ∧ i < a + wordCount tables a := by
  induction s, hs using start_induction with
  | hend s hs hend =>
      obtain ⟨-, -, -, hbefore⟩ := startFrom_spec hs
      obtain ⟨_, _, hat⟩ := JoinType.exists_introduction hbegins
      simp [hbefore i hi (hend ▸ hat.start_lt)] at hbegins
  | hjoin s hs a keywords type ha h ih =>
      obtain ⟨-, -, -, hbefore⟩ := startFrom_spec hs
      have hlt := h.start_lt
      subst ha
      by_cases hfirst : i < startFrom tables s
      · simp [hbefore i hi hfirst] at hbegins
      by_cases hinside : i < startFrom tables s + wordCount tables (startFrom tables s)
      · exact ⟨_, .first hlt, by omega, hinside⟩
      · obtain ⟨a, hstart, ha⟩ := ih (by omega)
        exact ⟨a, .later hlt hstart, ha⟩

/-! ### Words and conditions -/

/-- The indices of the words that introduce a part. -/
def wordsOf (start : Nat) (part : JoinPart) : List Nat :=
  List.range' start part.introduction.length

/-- The index of the `ON` between the table of a part and its condition. -/
def onOf (start : Nat) (part : JoinPart) : List Nat :=
  ((Lexeme.cutTopLevel? .on 0 part.body).map fun (before, _) =>
    start + part.introduction.length + before.length).toList

/-- The indices of the words that introduce the joins of a table list. -/
def wordPlaces (tables : List Lexeme) : List Nat := places wordsOf 0 (ofLexemes 0 tables)

/-- The indices of the words `ON` that separate the conditions of a table list. -/
def onPlaces (tables : List Lexeme) : List Nat := places onOf 0 (ofLexemes 0 tables)

/-- From the beginning of the table list on, a place of a join is one at a start. -/
theorem mem_places_zero_iff (f : Nat → JoinPart → List Nat) {p : Nat} :
    p ∈ places f 0 (ofLexemes 0 tables) ↔ ∃ a type, IsStart tables 0 a ∧
      JoinType.introducedBy? (tables.drop a) = some (type, wordCount tables a) ∧
      p ∈ f a ⟨type, (tables.drop a).take (wordCount tables a), bodyAt tables a⟩ :=
  mem_places_iff (Nat.zero_le _)

/-- The words of a chain are those of the introductions at its starts. -/
theorem mem_wordPlaces_iff {p : Nat} : p ∈ wordPlaces tables ↔
    ∃ a, IsStart tables 0 a ∧ a ≤ p ∧ p < a + wordCount tables a := by
  rw [wordPlaces, mem_places_zero_iff]
  constructor
  · rintro ⟨a, type, hstart, -, hp⟩
    obtain ⟨_, _, h⟩ := JoinType.exists_introduction (hstart.beginsAt (Nat.zero_le _)).2
    rw [wordsOf, List.mem_range'_1, length_words h.within] at hp
    exact ⟨a, hstart, hp⟩
  · rintro ⟨a, hstart, hp⟩
    obtain ⟨_, type, h⟩ := JoinType.exists_introduction (hstart.beginsAt (Nat.zero_le _)).2
    refine ⟨a, type, hstart, h.introduced, ?_⟩
    rw [wordsOf, List.mem_range'_1, length_words h.within]
    exact hp

/-- Whether an `ON` at an index separates a condition: it is the first one behind a `JOIN`,
with no other `JOIN` between. -/
def Separates (tables : List Lexeme) (i : Nat) : Prop :=
  isTopKeyword tables .on i = true ∧ ∃ j < i, isTopKeyword tables .join j = true ∧
    ∀ k, j < k → k < i →
      isTopKeyword tables .on k = false ∧ isTopKeyword tables .join k = false

/-- A stretch is cut at the first index where the keyword counts. -/
theorem cutTopLevel?_drop (keyword : Keyword) {e : Nat} (hs : s ≤ e) (he : e ≤ tables.length) :
    Lexeme.cutTopLevel? keyword (depthBefore tables s) ((tables.take e).drop s) =
      if firstIndex (isTopKeyword tables keyword) s e < e then
        some ((tables.take (firstIndex (isTopKeyword tables keyword) s e)).drop s,
          (tables.take e).drop (firstIndex (isTopKeyword tables keyword) s e + 1))
      else none := by
  induction hn : e - s generalizing s with
  | zero =>
      have hempty : (tables.take e).drop s = [] :=
        List.drop_eq_nil_of_le (by rw [List.length_take]; omega)
      rw [firstIndex_of_le (by omega), if_neg (by omega), hempty, Lexeme.cutTopLevel?]
  | succ n ih =>
      have hlt : s < e := by omega
      have hlength : s < tables.length := by omega
      have htop : isTopKeyword tables keyword s = true ↔
          depthBefore tables s = 0 ∧ tables[s].token = .keyword keyword := by
        simp [isTopKeyword, List.getElem?_eq_getElem hlength]
      rw [Lexeme.drop_take_eq_cons hlength hlt, Lexeme.cutTopLevel?]
      cases hat : isTopKeyword tables keyword s with
      | true =>
          rw [firstIndex_of_pos hat hlt, if_pos (htop.mp hat), if_pos hlt]
          simp
      | false =>
          have hnot : ¬ (depthBefore tables s = 0 ∧ tables[s].token = .keyword keyword) := by
            rw [← htop, hat]
            decide
          rw [firstIndex_of_not hat hlt, if_neg hnot, ← Lexeme.depthBefore_succ (by omega),
            ih (by omega) (by omega)]
          split
          · next hfirst =>
            obtain ⟨hge, -⟩ := firstIndex_spec (isTopKeyword tables keyword)
              (show s + 1 ≤ e by omega)
            rw [Lexeme.drop_take_eq_cons hlength (by omega)]
            rfl
          · rfl

/-- The `ON` of a part is the first one behind its words and before the next introduction. -/
theorem mem_onOf_iff {keywords : List Keyword} {type : JoinType}
    (h : Introduction tables a keywords type) {p : Nat} :
    p ∈ onOf a ⟨type, (tables.drop a).take (wordCount tables a), bodyAt tables a⟩ ↔
      p < startFrom tables (a + wordCount tables a) ∧
        p = firstIndex (isTopKeyword tables .on) (a + wordCount tables a)
          (startFrom tables (a + wordCount tables a)) := by
  obtain ⟨hge, hle, -⟩ := startFrom_spec h.within
  obtain ⟨hfirst, -⟩ := firstIndex_spec (isTopKeyword tables .on) hge
  have hcut := cutTopLevel?_drop .on hge hle
  rw [h.depth] at hcut
  rw [onOf, bodyAt, hcut, length_words h.within]
  split
  · next hlt =>
    simp only [Option.map_some, Option.toList_some, List.mem_singleton, List.length_drop,
      List.length_take]
    omega
  · simp only [Option.map_none, Option.toList_none, List.not_mem_nil, false_iff]
    omega

/-- The `ON` of a condition is the first one behind a `JOIN`. -/
theorem mem_onPlaces_iff {p : Nat} : p ∈ onPlaces tables ↔ Separates tables p := by
  rw [onPlaces, mem_places_zero_iff]
  constructor
  · rintro ⟨a, type, hstart, hintroduced, hp⟩
    obtain ⟨_, other, h⟩ := JoinType.exists_introduction (hstart.beginsAt (Nat.zero_le _)).2
    obtain rfl : other = type := by
      rw [h.introduced, Option.some_inj, Prod.mk.injEq] at hintroduced
      exact hintroduced.1
    obtain ⟨hend, hp⟩ := (mem_onOf_iff h).mp hp
    obtain ⟨hge, hle, -, hbegins⟩ := startFrom_spec h.within
    obtain ⟨hfirst, -, hholds, hbefore⟩ := firstIndex_spec (isTopKeyword tables .on) hge
    rw [← hp] at hfirst hholds hbefore
    have hnonempty := h.nonempty
    refine ⟨hholds hend, _, by omega, h.join_last,
      fun k hk hkp => ⟨hbefore k (by omega) hkp, ?_⟩⟩
    by_contra hjoin
    have hat := JoinType.beginsAt_of_isTopKeyword_join (Bool.of_not_eq_false hjoin)
    rw [hbegins k (by omega) (by omega)] at hat
    exact absurd hat (by decide)
  · rintro ⟨hon, j, hj, hjoin, hbetween⟩
    obtain ⟨a, hstart, hle, hlt⟩ := exists_isStart (Nat.zero_le _) (Nat.zero_le j)
      (JoinType.beginsAt_of_isTopKeyword_join hjoin)
    obtain ⟨_, type, h⟩ := JoinType.exists_introduction (hstart.beginsAt (Nat.zero_le _)).2
    have hlast := h.eq_last_of_join hle hlt hjoin
    obtain ⟨hge, hend, hholds, -⟩ := startFrom_spec h.within
    have hinside : p < startFrom tables (a + wordCount tables a) := by
      by_contra hout
      obtain ⟨-, l, hl, -⟩ := Lexeme.isTopKeyword_iff.mp hon
      obtain ⟨hlength, -⟩ := List.getElem?_eq_some_iff.mp hl
      obtain ⟨_, _, hnext⟩ := JoinType.exists_introduction (hholds (by omega))
      have hnonempty := hnext.nonempty
      by_cases hbehind : startFrom tables (a + wordCount tables a) +
          wordCount tables (startFrom tables (a + wordCount tables a)) - 1 < p
      · have hnot := (hbetween _ (by omega) hbehind).2
        rw [hnext.join_last] at hnot
        exact absurd hnot (by decide)
      · have hnot := hnext.not_on (show _ ≤ p by omega) (by omega)
        rw [hon] at hnot
        exact absurd hnot (by decide)
    refine ⟨a, type, hstart, h.introduced, (mem_onOf_iff h).mpr ⟨hinside, ?_⟩⟩
    exact (firstIndex_eq (by omega) hinside hon
      fun k hk hkp => (hbetween k (by omega) hkp).1).symm

end JoinChain

end SqlOutline
