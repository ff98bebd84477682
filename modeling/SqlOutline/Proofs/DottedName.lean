import SqlOutline.Proofs.ClauseBounds
import SqlOutline.Proofs.JoinPlaces
import SqlOutline.Query.OfText

/-!
# Keywords in dotted names

In `o.order` the word behind the period names a column, and it should be read as a name
wherever it stands. The places at which a statement is cut are read off its clauses and
joins here. Clauses never begin at a keyword in a dotted name, but the `BY` behind such a
place, the words that introduce a join and the `ON` of its condition are looked for without
regard to periods. This module says exactly which statements are read as they should be.

## Main results

* `isDotted_of_mem_clauseOpenings`: no clause begins at a keyword in a dotted name.
* `forall_wordPlaces_iff`: the words of a join are no part of dotted names when the first
  ones are not.
* `isDotted_structuralPlaces_iff`: when no keyword in a dotted name has a place in the
  structure of a statement.
-/

namespace SqlOutline

/-- The indices of the lexemes between sections that stand one behind the other. -/
def Section.openings (start : Nat) : List Section → List Nat
  | [] => []
  | [_] => []
  | s :: next :: more =>
    (start + s.body.length) :: openings (start + s.body.length + 1) (next :: more)

/-- A lexeme more in the first section stands for one less before it. -/
theorem Section.openings_cons_body (start : Nat) (clause : Clause) (m : Marked)
    (body : List Marked) (more : List Section) :
    openings start (⟨clause, m :: body⟩ :: more) =
      openings (start + 1) (⟨clause, body⟩ :: more) := by
  cases more with
  | nil => rfl
  | cons next more =>
      have hlength : start + (body.length + 1) = start + 1 + body.length := by omega
      rw [openings, openings, List.length_cons, hlength]

namespace Lexeme

/-- Whether the lexeme at an index is a keyword in a dotted name. -/
def isDotted (run : List Lexeme) (i : Nat) : Bool :=
  run[i]?.any (·.token.isAnyKeyword) && touchesPeriod run i

/-- The indices at which the clauses of a statement begin. -/
def clauseOpenings : List Lexeme → List Nat
  | [] => []
  | lead :: rest => Section.openings 1 (Section.cut .selectList (mark lead 0 rest))

/-- The indices of the words `BY` that go with a `GROUP` or an `ORDER` at which
a clause begins. -/
def byPlaces (run : List Lexeme) : List Nat :=
  ((clauseOpenings run).filter fun i =>
    run[i]?.any (fun l => l.token = .keyword .group ∨ l.token = .keyword .order) &&
      run[i + 1]?.any (·.token = .keyword .by)).map (· + 1)

/-- The index of the `LIMIT` that is found among the columns of a statement without
a table list. -/
def limitPlaces : List Lexeme → List Nat
  | [] => []
  | lead :: rest =>
    let sections := Section.cut .selectList (mark lead 0 rest)
    match Section.bodyOf? .tableList sections with
    | some _ => []
    | none => ((sections.head?.bind fun s =>
        s.body.findIdx? (·.isActiveKeyword .limit)).map (· + 1)).toList

/-- The table list of a statement. -/
def tableLexemes (run : List Lexeme) : List Lexeme :=
  (Clauses.ofLexemes run).tableList.getD []

/-- The index behind the `FROM` of a statement. -/
def tablesStart (run : List Lexeme) : Nat :=
  ((Clauses.ofLexemes run).selectList.getD []).length + 2

/-- The indices of the lexemes that have a part in the structure of a statement: where clauses
begin, a `LIMIT` among the columns, the `BY` behind a `GROUP` or an `ORDER`, the words that
introduce joins, and the `ON` between a joined table and its condition. -/
def structuralPlaces (run : List Lexeme) : List Nat :=
  clauseOpenings run ++ limitPlaces run ++ byPlaces run ++
    (JoinChain.wordPlaces (tableLexemes run)).map (tablesStart run + ·) ++
    (JoinChain.onPlaces (tableLexemes run)).map (tablesStart run + ·)

/-! ### Clauses -/

/-- Clauses begin at active places. -/
theorem isActive_of_mem_openings {run : List Lexeme} {clause : Clause} {i j : Nat}
    (hi : i ≤ run.length)
    (hj : j ∈ Section.openings i (Section.cut clause ((marks run).drop i))) :
    isActive run j = true := by
  induction hn : run.length - i generalizing i clause with
  | zero =>
      have hnil : (marks run).drop i = [] :=
        List.drop_eq_nil_of_le (by rw [length_marks]; omega)
      simp [hnil, Section.cut, Section.openings] at hj
  | succ n ih =>
      rw [Section.cut_drop_of_lt (by omega)] at hj
      cases hopens : opensAt? run clause i with
      | some opened =>
          obtain ⟨body, more, hcut⟩ := Section.exists_cut_eq opened ((marks run).drop (i + 1))
          simp only [hopens, hcut, Section.openings, List.length_nil, Nat.add_zero,
            List.mem_cons] at hj
          rcases hj with rfl | hj
          · exact (opensAt?_eq_some_iff.mp hopens).1
          · exact ih (show i + 1 ≤ run.length by omega) (by rw [hcut]; exact hj) (by omega)
      | none =>
          obtain ⟨body, more, hcut⟩ := Section.exists_cut_eq clause ((marks run).drop (i + 1))
          simp only [hopens, hcut, List.modifyHead_cons, Section.openings_cons_body] at hj
          exact ih (show i + 1 ≤ run.length by omega) (by rw [hcut]; exact hj) (by omega)

/-- An active place is no keyword in a dotted name. -/
theorem isDotted_of_isActive {run : List Lexeme} {i : Nat} (h : isActive run i = true) :
    isDotted run i = false := by
  cases hl : run[i]? with
  | none => simp [isDotted, hl]
  | some l =>
      simp only [isActive, hl, Option.any_some, Bool.and_eq_true] at h
      rw [isDotted, hl, Option.any_some]
      simpa only [Bool.not_eq_true'] using h.2.2

/-- No clause begins at a keyword in a dotted name. -/
theorem isDotted_of_mem_clauseOpenings {run : List Lexeme} {i : Nat}
    (h : i ∈ clauseOpenings run) : isDotted run i = false := by
  cases run with
  | nil => simp [clauseOpenings] at h
  | cons lead rest => exact isDotted_of_isActive (isActive_of_mem_openings (by simp) h)

/-- No limit among the columns begins at a keyword in a dotted name. -/
theorem isDotted_of_mem_limitPlaces {run : List Lexeme} {i : Nat} (h : i ∈ limitPlaces run) :
    isDotted run i = false := by
  cases run with
  | nil => simp [limitPlaces] at h
  | cons lead rest =>
      rw [limitPlaces] at h
      split at h
      · simp at h
      · rw [Option.mem_toList, Option.map_eq_some_iff] at h
        obtain ⟨k, hk, rfl⟩ := h
        obtain ⟨s, hs, hfound⟩ := Option.bind_eq_some_iff.mp hk
        obtain ⟨hlt, hlimit, -⟩ := List.findIdx?_eq_some_iff_getElem.mp hfound
        obtain ⟨more, hmore⟩ := Section.body_prefix_of_head?_cut hs
        have hmark : (marks (lead :: rest))[k + 1]? = some s.body[k] := by
          rw [marks, List.getElem?_cons_succ, ← hmore, List.getElem?_append_left hlt,
            List.getElem?_eq_getElem hlt]
        rw [getElem?_marks, Option.map_eq_some_iff] at hmark
        obtain ⟨l, -, hl⟩ := hmark
        rw [← hl, Marked.isActiveKeyword, Bool.and_eq_true] at hlimit
        exact isDotted_of_isActive hlimit.1

/-! ### Joins -/

/-- A keyword between two keywords is no part of a dotted name. -/
theorem isDotted_of_between {run : List Lexeme} {before behind : Keyword} {i : Nat}
    (hbefore : isTopKeyword run before (i - 1) = true)
    (hbehind : isTopKeyword run behind (i + 1) = true) : isDotted run i = false := by
  obtain ⟨-, l, hl, hlbefore⟩ := isTopKeyword_iff.mp hbefore
  obtain ⟨-, m, hm, hmbehind⟩ := isTopKeyword_iff.mp hbehind
  simp [isDotted, touchesPeriod, isPeriodBehind, hl, hm, hlbefore, hmbehind]

/-- The words of the joins are no part of dotted names when those at which an introduction
stands are not. -/
theorem forall_wordPlaces_iff {tables : List Lexeme} :
    (∀ p ∈ JoinChain.wordPlaces tables, isDotted tables p = false) ↔
      ∀ i, JoinType.beginsAt tables i = true → isDotted tables i = false := by
  constructor
  · intro h i hi
    obtain ⟨a, hstart, hle, hlt⟩ := JoinChain.exists_isStart (Nat.zero_le _) (Nat.zero_le i) hi
    exact h i (JoinChain.mem_wordPlaces_iff.mpr ⟨a, hstart, hle, hlt⟩)
  · intro h p hp
    obtain ⟨a, hstart, hle, hlt⟩ := JoinChain.mem_wordPlaces_iff.mp hp
    have hbegins := (hstart.beginsAt (Nat.zero_le _)).2
    obtain ⟨keywords, type, hintroduction⟩ := JoinType.exists_introduction hbegins
    -- the first word begins the introduction, the last one is a `JOIN`, and the others have
    -- a word on either side
    rcases Nat.eq_or_lt_of_le hle with rfl | hafter
    · exact h a hbegins
    by_cases hlast : p + 1 = a + JoinType.wordCount tables a
    · have hjoin := hintroduction.join_last
      rw [← hlast, Nat.add_sub_cancel] at hjoin
      exact h p (JoinType.beginsAt_of_isTopKeyword_join hjoin)
    · obtain ⟨_, hbefore⟩ := hintroduction.exists_word (show a ≤ p - 1 by omega) (by omega)
      obtain ⟨_, hbehind⟩ := hintroduction.exists_word (show a ≤ p + 1 by omega) (by omega)
      exact isDotted_of_between hbefore hbehind

/-- A stretch that no period touches from outside has the dotted names of the whole run. -/
theorem isDotted_stretch {run : List Lexeme} {low high k : Nat}
    (hfront : run[low - 1]?.any (·.token = .period) = false)
    (hback : run[high]?.any isPeriodBehind = false) (hk : low + k < high) :
    isDotted (stretch run low high) k = isDotted run (low + k) := by
  have hget : ∀ m, low + m < high → (stretch run low high)[m]? = run[low + m]? := by
    intro m hm
    rw [stretch, List.getElem?_drop, List.getElem?_take_of_lt hm]
  cases hl : run[low + k]? with
  | none => simp [isDotted, hget k hk, hl]
  | some l =>
      cases hkeyword : l.token.isAnyKeyword with
      | false => simp [isDotted, hget k hk, hl, hkeyword]
      | true =>
          have hbefore : (stretch run low high)[k - 1]?.any (·.token = .period) =
              run[low + k - 1]?.any (·.token = .period) := by
            cases k with
            | zero =>
                have hperiod : l.token ≠ .period := by
                  intro htoken
                  simp [htoken, Token.isAnyKeyword] at hkeyword
                rw [Nat.zero_sub, hget 0 hk, hl, Nat.add_zero, hfront]
                simpa using hperiod
            | succ k =>
                rw [Nat.add_sub_cancel, hget k (by omega), ← Nat.add_assoc, Nat.add_sub_cancel]
          have hbehind : (stretch run low high)[k + 1]?.any isPeriodBehind =
              run[low + k + 1]?.any isPeriodBehind := by
            by_cases hlast : low + (k + 1) < high
            · rw [hget _ hlast, Nat.add_assoc]
            · have hnone : (stretch run low high)[k + 1]? = none := by
                rw [stretch, List.getElem?_drop, List.getElem?_take, if_neg (by omega)]
              have hend : low + k + 1 = high := by omega
              rw [hnone, hend, hback]
              rfl
          rw [isDotted, isDotted, touchesPeriod, touchesPeriod, hget k hk, hbefore, hbehind]

/-- A clause does not end at a period. -/
theorem not_isPeriodBehind_endFrom {run : List Lexeme} {i : Nat} (hlow : 1 ≤ ending run)
    (hi : i ≤ ending run) :
    run[Clause.tableList.endFrom run i]?.any isPeriodBehind = false := by
  obtain ⟨-, hle, hholds, -⟩ := Section.endFrom_spec .tableList hi
  cases hl : run[Clause.tableList.endFrom run i]? with
  | none => rfl
  | some l =>
      have hperiod : l.token ≠ .period := by
        rcases Nat.eq_or_lt_of_le hle with hend | hlt
        · rw [hend] at hl
          rw [token_of_getElem?_ending hlow hl]
          decide
        · obtain ⟨-, m, hm, htoken⟩ := isAt_iff.mp (hholds hlt)
          rw [hl, Option.some_inj] at hm
          rintro hltoken
          rw [← hm, hltoken] at htoken
          simp [Clause.stops] at htoken
      simp [isPeriodBehind, hperiod]

/-- The table list is a stretch of the statement that no period touches from outside. -/
theorem tableLexemes_eq (run : List Lexeme) : tableLexemes run = [] ∨
    ∃ high, tableLexemes run = stretch run (tablesStart run) high ∧
      run[tablesStart run - 1]?.any (·.token = .period) = false ∧
      run[high]?.any isPeriodBehind = false := by
  cases run with
  | nil => exact .inl rfl
  | cons lead rest =>
      have hlow : 1 ≤ ending (lead :: rest) := one_le_ending (by simp)
      have hcut : Clauses.ofLexemes (lead :: rest) = Clauses.ofSections
        (Section.cut .selectList ((marks (lead :: rest)).drop 1)) := rfl
      rw [tableLexemes, tablesStart, hcut]
      generalize lead :: rest = run at hlow
      obtain ⟨hge, hle, hholds, -⟩ := Section.endFrom_spec .selectList hlow
      obtain ⟨hlength, -⟩ := ending_spec run hlow
      rcases Nat.eq_or_lt_of_le hle with hfrom | hfrom
      · rw [Clauses.ofSections_of_no_from hlow hfrom,
          Clauses.tableList_declared_of_no_from hfrom]
        exact .inl rfl
      · obtain ⟨hcolumns, htables⟩ := Clauses.declared_of_from rfl hfrom
        rw [Clauses.ofSections_of_from hlow hfrom, hcolumns, htables, Option.getD_some,
          Option.getD_some]
        have hstart : (stretch run 1 (Clause.selectList.endFrom run 1)).length + 2 =
            Clause.selectList.endFrom run 1 + 1 := by
          rw [stretch, List.length_drop, List.length_take]
          omega
        rw [hstart]
        obtain ⟨-, l, hl, hfromToken⟩ := isAt_iff.mp (hholds hfrom)
        refine .inr ⟨_, rfl, ?_, ?_⟩
        · rw [Nat.add_sub_cancel, hl, Option.any_some, List.mem_singleton.mp hfromToken]
          rfl
        · exact not_isPeriodBehind_endFrom hlow (by omega)

/-- A place of the table list has the dotted names that it has in the statement. -/
theorem isDotted_tableLexemes {run : List Lexeme} {p : Nat}
    (hp : p < (tableLexemes run).length) :
    isDotted run (tablesStart run + p) = isDotted (tableLexemes run) p := by
  rcases tableLexemes_eq run with hnil | ⟨high, htables, hfront, hback⟩
  · rw [hnil] at hp
    simp at hp
  · rw [htables] at hp ⊢
    rw [stretch, List.length_drop, List.length_take] at hp
    exact (isDotted_stretch hfront hback (by omega)).symm

/-! ### The structure of a statement -/

/-- What a statement must not have so that its dotted names stay whole. -/
structure KeepsDottedNames (run : List Lexeme) : Prop where
  /-- No period stands right behind the `BY` of a `GROUP` or `ORDER` at which
  a clause begins. -/
  behindBy : ∀ i ∈ byPlaces run, run[i + 1]?.any isPeriodBehind = false
  /-- No keyword in a dotted name begins a row of words that introduces a join. -/
  joins : ∀ i, JoinType.beginsAt (tableLexemes run) i = true →
    isDotted (tableLexemes run) i = false
  /-- No `ON` in a dotted name is the first one behind a `JOIN`. -/
  conditions : ∀ i, JoinChain.Separates (tableLexemes run) i →
    isDotted (tableLexemes run) i = false

/-- A `BY` behind a keyword is in a dotted name when a period stands behind it. -/
theorem isDotted_of_mem_byPlaces {run : List Lexeme} {i : Nat} (h : i ∈ byPlaces run) :
    isDotted run i = run[i + 1]?.any isPeriodBehind := by
  obtain ⟨j, hj, rfl⟩ := List.mem_map.mp h
  obtain ⟨-, htokens⟩ := List.mem_filter.mp hj
  cases hl : run[j]? with
  | none => simp [hl] at htokens
  | some l =>
      cases hm : run[j + 1]? with
      | none => simp [hl, hm] at htokens
      | some m =>
          simp only [hl, hm, Option.any_some, Bool.and_eq_true, decide_eq_true_eq] at htokens
          have hperiod : l.token ≠ .period := by
            rintro htoken
            simp [htoken] at htokens
          simp [isDotted, touchesPeriod, hl, hm, htokens.2, hperiod, Token.isAnyKeyword]

/-- No keyword in a dotted name has a part in the structure of a statement exactly when the
statement keeps its dotted names. -/
theorem isDotted_structuralPlaces_iff (run : List Lexeme) :
    (∀ i ∈ structuralPlaces run, isDotted run i = false) ↔ KeepsDottedNames run := by
  have hwords : (∀ i ∈ (JoinChain.wordPlaces (tableLexemes run)).map (tablesStart run + ·),
      isDotted run i = false) ↔ ∀ i, JoinType.beginsAt (tableLexemes run) i = true →
        isDotted (tableLexemes run) i = false := by
    rw [← forall_wordPlaces_iff, List.forall_mem_map]
    refine forall₂_congr fun p hp => ?_
    obtain ⟨a, hstart, -, hlt⟩ := JoinChain.mem_wordPlaces_iff.mp hp
    obtain ⟨_, _, h⟩ := JoinType.exists_introduction (hstart.beginsAt (Nat.zero_le _)).2
    have hwithin := h.within
    rw [isDotted_tableLexemes (by omega)]
  have honPlaces : (∀ i ∈ (JoinChain.onPlaces (tableLexemes run)).map (tablesStart run + ·),
      isDotted run i = false) ↔ ∀ i, JoinChain.Separates (tableLexemes run) i →
        isDotted (tableLexemes run) i = false := by
    rw [List.forall_mem_map]
    refine forall_congr' fun p => ?_
    rw [JoinChain.mem_onPlaces_iff]
    refine imp_congr_right fun hseparates => ?_
    obtain ⟨-, l, hl, -⟩ := isTopKeyword_iff.mp hseparates.1
    obtain ⟨hlt, -⟩ := List.getElem?_eq_some_iff.mp hl
    rw [isDotted_tableLexemes hlt]
  rw [structuralPlaces, List.forall_mem_append, List.forall_mem_append, List.forall_mem_append,
    List.forall_mem_append, hwords, honPlaces]
  constructor
  · rintro ⟨⟨⟨-, hby⟩, hjoins⟩, hconditions⟩
    exact ⟨fun i hi => (isDotted_of_mem_byPlaces hi) ▸ hby i hi, hjoins, hconditions⟩
  · rintro ⟨hby, hjoins, hconditions⟩
    refine ⟨⟨⟨⟨fun i hi => isDotted_of_mem_clauseOpenings hi,
      fun i hi => isDotted_of_mem_limitPlaces hi⟩, fun i hi => ?_⟩, hjoins⟩, hconditions⟩
    rw [isDotted_of_mem_byPlaces hi]
    exact hby i hi

/-- The `JOIN` in the name of a column cuts the condition that it stands in. -/
theorem not_isDotted_structuralPlaces_join :
    (¬ ∀ i ∈ structuralPlaces (ofText "SELECT * FROM a JOIN b ON a.join = b.id".toList),
      isDotted (ofText "SELECT * FROM a JOIN b ON a.join = b.id".toList) i = false) ∧
    (Query.ofText "SELECT * FROM a JOIN b ON a.join = b.id").joins =
      some [⟨.inner, ⟨"b", none⟩, some "a."⟩, ⟨.inner, ⟨"=", some "b.id"⟩, none⟩] := by
  decide +kernel

end Lexeme

end SqlOutline
