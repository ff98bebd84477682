import SqlOutline.Proofs.ClauseEnds
import SqlOutline.Query.OfText

/-!
# Where the clauses of a statement lie

The pass of `Section.cut` goes from clause to clause, back and forth between the grouping and
the sort keys. This module says without a pass where each clause of a statement lies: between
first active places of certain tokens, counted from the first active `FROM`.

## Main results

* `Section.bodyOf?_cut_self`: a clause goes on to where it ends.
* `Section.bodyOf?_filter_cut_tableList`, `Section.bodyOf?_sortKeys_cut`,
  `Section.bodyOf?_limit_cut`: where the other clauses are found from a place among the tables.
* `Clauses.ofLexemes_eq_declared`: the clauses of a statement are the declared ones.
-/

namespace SqlOutline

/-- The lexemes from one index up to another. -/
def Lexeme.stretch (run : List Lexeme) (low high : Nat) :
    List Lexeme := (run.take high).drop low

open Lexeme (isActive isAt marks ending stretch)

/-- The clauses of a statement, each by the places between which it lies. -/
def Clauses.declared (run : List Lexeme) : Clauses :=
  let fromAt := firstIndex (isAt run [.keyword .from]) 1 (ending run)
  if fromAt < ending run then
    let tablesEnd := firstIndex (isAt run
      [.keyword .where, .keyword .group, .keyword .having, .keyword .order, .keyword .limit])
      (fromAt + 1) (ending run)
    let filterEnd := firstIndex (isAt run
      [.keyword .group, .keyword .having, .keyword .order, .keyword .limit])
      (tablesEnd + 1) (ending run)
    let limitAt := firstIndex (isAt run [.keyword .limit]) (fromAt + 1) (ending run)
    let orderAt := firstIndex (Lexeme.isOrderBy run) (fromAt + 1) limitAt
    let orderEnd := firstIndex (isAt run [.keyword .group, .keyword .having, .keyword .limit])
      (orderAt + 2) (ending run)
    { selectList := some (stretch run 1 fromAt)
      tableList := some (stretch run (fromAt + 1) tablesEnd)
      filter :=
        if isAt run [.keyword .where] tablesEnd then some (stretch run (tablesEnd + 1) filterEnd)
        else none
      sortKeys := if orderAt < limitAt then some (stretch run (orderAt + 2) orderEnd) else none
      limit :=
        if limitAt < ending run then some (stretch run (limitAt + 1) (ending run)) else none }
  else
    let limitAt := firstIndex (isAt run [.keyword .limit]) 1 (ending run)
    { selectList := none
      tableList := none
      filter := none
      sortKeys := none
      limit :=
        if limitAt < ending run then some (stretch run (limitAt + 1) (ending run)) else none }

namespace Section

variable {run : List Lexeme} {clause opened : Clause} {i : Nat}

/-! ### Bodies of clauses -/

/-- The first section of a clause counts. -/
theorem bodyOf?_cons_self (body : List Marked) (more : List Section) :
    bodyOf? clause (⟨clause, body⟩ :: more) = some (body.map (·.lexeme)) := by
  simp [bodyOf?]

/-- A section of another clause is passed over. -/
theorem bodyOf?_cons_of_ne {other : Clause} (h : other ≠ clause) (body : List Marked)
    (more : List Section) : bodyOf? clause (⟨other, body⟩ :: more) = bodyOf? clause more := by
  simp [bodyOf?, h]

/-- What is added to the first section matters to its clause only. -/
theorem bodyOf?_modifyHead {other : Clause} (h : other ≠ clause) (m : Marked)
    (ms : List Marked) :
    bodyOf? clause ((cut other ms).modifyHead fun s => ⟨s.clause, m :: s.body⟩) =
      bodyOf? clause (cut other ms) := by
  obtain ⟨body, more, hcut⟩ := exists_cut_eq other ms
  rw [hcut, List.modifyHead_cons, bodyOf?_cons_of_ne h, bodyOf?_cons_of_ne h]

/-- A section of sort keys begins with the `BY` that goes with `ORDER`. -/
theorem exists_cut_sortKeys {ms : List Marked}
    (h : ms.head?.map (·.lexeme.token) = some (.keyword .by)) :
    ∃ m body more, m.lexeme.token = .keyword .by ∧
      cut .sortKeys ms = ⟨.sortKeys, m :: body⟩ :: more := by
  obtain ⟨m, hm, htoken⟩ := Option.map_eq_some_iff.mp h
  obtain ⟨rest, rfl⟩ := List.head?_eq_some_iff.mp hm
  obtain ⟨body, more, hcut⟩ := exists_cut_eq .sortKeys rest
  have hopens : m.opens? .sortKeys rest = none := by
    rw [Marked.opens?, htoken]
    split <;> rfl
  rw [cut, hopens, hcut]
  exact ⟨m, body, more, htoken, rfl⟩

/-- A clause without a section has no body. -/
theorem bodyOf?_eq_none {sections : List Section} (h : ∀ s ∈ sections, s.clause ≠ clause) :
    bodyOf? clause sections = none := by
  simpa [bodyOf?] using h

/-- A stretch of the marked run marks the stretch of the run. -/
theorem map_lexeme_stretch (run : List Lexeme) (low high : Nat) :
    (((marks run).take high).drop low).map (·.lexeme) = stretch run low high := by
  rw [List.map_drop, List.map_take, Lexeme.map_lexeme_marks, stretch]

/-- The body of a clause that the statement is in goes on to where the clause ends. -/
theorem bodyOf?_cut_self (hclause : clause ≠ .finished) (hlow : 1 ≤ i) (hi : i ≤ ending run) :
    bodyOf? clause (cut clause ((marks run).drop i)) =
      some (stretch run i (clause.endFrom run i)) := by
  obtain ⟨-, hle, -⟩ := endFrom_spec clause hi
  rcases Nat.eq_or_lt_of_le hle with hend | hend
  · obtain ⟨more, hcut, -⟩ := exists_cut_drop_of_eq hclause hlow hi hend
    rw [hcut, bodyOf?_cons_self, map_lexeme_stretch, hend]
  · obtain ⟨opened, -, hcut⟩ := exists_cut_drop_of_lt hclause hlow hi hend
    rw [hcut, bodyOf?_cons_self, map_lexeme_stretch]

/-- A clause other than the one that a place is in is looked for behind that place. -/
theorem bodyOf?_cut_succ {other : Clause} (h : other ≠ clause) (hi : i < run.length) :
    bodyOf? clause (cut other ((marks run).drop i)) =
      bodyOf? clause
        (cut ((Lexeme.opensAt? run other i).getD other) ((marks run).drop (i + 1))) := by
  rw [cut_drop_of_lt hi]
  cases Lexeme.opensAt? run other i with
  | some opened => exact bodyOf?_cons_of_ne h _ _
  | none => exact bodyOf?_modifyHead h _ _

/-- Behind a late clause no condition is looked for. -/
theorem bodyOf?_filter_cut (hclause : clause.isLate = true) (ms : List Marked) :
    bodyOf? .filter (cut clause ms) = none := by
  have hlate : ∀ s ∈ cut clause ms, s.clause.isLate = true :=
    forall_mem_cut (fun _ _ _ _ h hnext => Clause.isLate_of_next? h hnext) hclause ms
  refine bodyOf?_eq_none fun s hs hfilter => ?_
  have h := hlate s hs
  rw [hfilter] at h
  exact absurd h (by decide)

/-- A condition is read behind the tables if it follows at once, and nowhere else. -/
theorem bodyOf?_filter_cut_tableList (hlow : 1 ≤ i) (hi : i ≤ ending run) :
    bodyOf? .filter (cut .tableList ((marks run).drop i)) =
      if isAt run [.keyword .where] (Clause.tableList.endFrom run i) then
        some (stretch run (Clause.tableList.endFrom run i + 1)
          (Clause.filter.endFrom run (Clause.tableList.endFrom run i + 1)))
      else none := by
  have hending : 1 ≤ ending run := by omega
  obtain ⟨hge, hle, -⟩ := endFrom_spec .tableList hi
  rcases Nat.eq_or_lt_of_le hle with hend | hend
  · have hwhere : ¬ isAt run [.keyword .where] (ending run) = true := by
      rw [isAt_iff]
      rintro ⟨-, l, hl, htoken⟩
      simp [Lexeme.token_of_getElem?_ending hending hl] at htoken
    obtain ⟨more, hcut, hmore⟩ := exists_cut_drop_of_eq (by simp) hlow hi hend
    rw [hend, if_neg hwhere, hcut, bodyOf?_cons_of_ne (by simp)]
    exact bodyOf?_eq_none fun s hs => by simp [hmore s hs]
  · obtain ⟨opened, hopened, hcut⟩ := exists_cut_drop_of_lt (by simp) hlow hi hend
    rw [hcut, bodyOf?_cons_of_ne (by simp)]
    obtain ⟨hactive, l, hl, hnext⟩ := opensAt?_eq_some_iff.mp hopened
    by_cases hwhere : l.token = .keyword .where
    · have hat : isAt run [.keyword .where] (Clause.tableList.endFrom run i) = true :=
        isAt_iff.mpr ⟨hactive, l, hl, by simp [hwhere]⟩
      obtain rfl : opened = .filter := by
        rw [hwhere] at hnext
        exact (Option.some_inj.mp hnext).symm
      rw [if_pos hat, bodyOf?_cut_self (by simp) (by omega) (by omega)]
    · have hat : ¬ isAt run [.keyword .where] (Clause.tableList.endFrom run i) = true := by
        rw [isAt_iff]
        rintro ⟨-, l', hl', htoken⟩
        rw [hl, Option.some_inj] at hl'
        simp_all
      rw [if_neg hat]
      obtain ⟨-, hstop, rfl⟩ := Clause.next?_eq_some_iff.mp hnext
      refine bodyOf?_filter_cut (Clause.isLate_openedBy ?_ hwhere _) _
      intro hfrom
      simp [hfrom, Clause.stops] at hstop

/-- Behind the limit no sort keys are looked for. -/
theorem bodyOf?_sortKeys_cut_limit (ms : List Marked) :
    bodyOf? .sortKeys (cut .limit ms) = none := by
  have hlate : ∀ s ∈ cut .limit ms, s.clause = .limit ∨ s.clause = .finished := by
    refine forall_mem_cut (P := fun clause => clause = .limit ∨ clause = .finished) ?_
      (.inl rfl) ms
    intro clause token following opened h hnext
    obtain ⟨-, hstop, rfl⟩ := Clause.next?_eq_some_iff.mp hnext
    have htoken : token = .semicolon := by
      rcases h with rfl | rfl <;> simpa [Clause.stops] using hstop
    exact .inr (by rw [htoken]; rfl)
  refine bodyOf?_eq_none fun s hs => ?_
  rcases hlate s hs with h | h <;> simp [h]

/-- A limit is looked for from every clause that a `LIMIT` ends, up to the end
of the statement. -/
theorem bodyOf?_limit_cut (hclause : .keyword .limit ∈ clause.stops) (hlow : 1 ≤ i)
    (hi : i ≤ ending run) :
    bodyOf? .limit (cut clause ((marks run).drop i)) =
      if firstIndex (isAt run [.keyword .limit]) i (ending run) < ending run then
        some (stretch run (firstIndex (isAt run [.keyword .limit]) i (ending run) + 1) (ending run))
      else none := by
  obtain ⟨hlength, -, hbefore⟩ := Lexeme.ending_spec run (by omega)
  have hne : clause ≠ .finished ∧ clause ≠ .limit := by
    constructor <;> rintro rfl <;> simp [Clause.stops] at hclause
  induction hn : ending run - i generalizing i clause with
  | zero =>
      have hend : clause.endFrom run i = ending run := firstIndex_of_le (by omega)
      obtain ⟨more, hcut, hmore⟩ := exists_cut_drop_of_eq hne.1 hlow hi hend
      rw [firstIndex_of_le (by omega), if_neg (by omega), hcut, bodyOf?_cons_of_ne hne.2]
      exact bodyOf?_eq_none fun s hs => by simp [hmore s hs]
  | succ n ih =>
      have hlt : i < ending run := by omega
      rw [bodyOf?_cut_succ hne.2 (by omega)]
      cases hlimit : isAt run [.keyword .limit] i with
      | true =>
          have hend : Clause.limit.endFrom run (i + 1) = ending run :=
            firstIndex_of_forall_not (by omega) fun j _ _ => by rw [Clause.stops, isAt_nil]
          rw [opensAt?_of_isAt hclause hlimit, Option.getD_some, Clause.openedBy,
            bodyOf?_cut_self (by simp) (by omega) (by omega), hend,
            firstIndex_of_pos hlimit hlt, if_pos hlt]
      | false =>
          have hopened := limit_mem_stops_opensAt? hclause (hbefore i hlow hlt) hlimit
          rw [firstIndex_of_not hlimit hlt]
          refine ih hopened (by omega) (by omega) ?_ (by omega)
          constructor <;> intro heq <;> simp [heq, Clause.stops] at hopened

/-- Sort keys are looked for from every clause that an `ORDER` ends, up to the limit. -/
theorem bodyOf?_sortKeys_cut (hclause : .keyword .order ∈ clause.stops) (hlow : 1 ≤ i)
    (hi : i ≤ ending run) {limit order : Nat}
    (hlimit : limit = firstIndex (isAt run [.keyword .limit]) i (ending run))
    (horder : order = firstIndex (Lexeme.isOrderBy run) i limit) :
    bodyOf? .sortKeys (cut clause ((marks run).drop i)) =
      if order < limit then
        some (stretch run (order + 1) (Clause.sortKeys.endFrom run (order + 1)))
      else none := by
  obtain ⟨hlength, -, hbefore⟩ := Lexeme.ending_spec run (by omega)
  have hne : clause ≠ .finished ∧ clause ≠ .sortKeys := by
    constructor <;> rintro rfl <;> simp [Clause.stops] at hclause
  induction hn : ending run - i generalizing i clause with
  | zero =>
      have hend : clause.endFrom run i = ending run := firstIndex_of_le (by omega)
      obtain ⟨more, hcut, hmore⟩ := exists_cut_drop_of_eq hne.1 hlow hi hend
      rw [firstIndex_of_le (by omega)] at hlimit
      rw [firstIndex_of_le (by omega)] at horder
      rw [if_neg (by omega), hcut, bodyOf?_cons_of_ne hne.2]
      exact bodyOf?_eq_none fun s hs => by simp [hmore s hs]
  | succ n ih =>
      have hlt : i < ending run := by omega
      rw [bodyOf?_cut_succ hne.2 (by omega)]
      cases hlimit' : isAt run [.keyword .limit] i with
      | true =>
          rw [firstIndex_of_pos hlimit' hlt] at hlimit
          rw [firstIndex_of_le (by omega)] at horder
          rw [opensAt?_of_isAt (Clause.limit_mem_stops_of_order hclause) hlimit',
            Option.getD_some, Clause.openedBy, bodyOf?_sortKeys_cut_limit, if_neg (by omega)]
      | false =>
          rw [firstIndex_of_not hlimit' hlt] at hlimit
          have hi : i + 1 ≤ ending run := by omega
          have hlimit_le := firstIndex_spec (isAt run [.keyword .limit]) hi
          rw [← hlimit] at hlimit_le
          cases horder' : Lexeme.isOrderBy run i with
          | true =>
              rw [firstIndex_of_pos horder' (by omega)] at horder
              rw [opensAt?_eq_sortKeys hclause horder', Option.getD_some, horder,
                bodyOf?_cut_self (by simp) (by omega) (by omega), if_pos (by omega)]
          | false =>
              have hopened :=
                order_mem_stops_opensAt? hclause (hbefore i hlow hlt) hlimit' horder'
              rw [firstIndex_of_not horder' (by omega)] at horder
              refine ih hopened (by omega) (by omega) hlimit horder ?_ (by omega)
              constructor <;> intro heq <;> simp [heq, Clause.stops] at hopened

end Section

namespace Clauses

/-- What follows the first active `LIMIT` in a stretch without a clause. -/
theorem afterLimit?_stretch {run : List Lexeme} {i : Nat} {high : Nat} (hi : i ≤ high)
    (hhigh : high ≤ run.length) :
    Section.afterLimit? (((marks run).take high).drop i) =
      if firstIndex (isAt run [.keyword .limit]) i high < high then
        some (stretch run (firstIndex (isAt run [.keyword .limit]) i high + 1) high)
      else none := by
  induction hn : high - i generalizing i with
  | zero =>
      have hempty : ((marks run).take high).drop i = [] :=
        List.drop_eq_nil_of_le (by rw [List.length_take]; omega)
      rw [firstIndex_of_le (by omega), if_neg (by omega), hempty, Section.afterLimit?]
  | succ n ih =>
      have hlt : i < high := by omega
      have hlimit : (Marked.mk run[i] (isActive run i)).isActiveKeyword .limit =
          isAt run [.keyword .limit] i := by
        simp [Marked.isActiveKeyword, isAt,
          List.getElem?_eq_getElem (show i < run.length by omega)]
      rw [Lexeme.drop_take_marks (by omega) hlt, Section.afterLimit?, hlimit]
      cases hat : isAt run [.keyword .limit] i with
      | true =>
          rw [firstIndex_of_pos hat hlt, if_pos hlt, if_pos rfl, Section.map_lexeme_stretch]
      | false =>
          rw [firstIndex_of_not hat hlt, if_neg (by simp)]
          exact ih (by omega) (by omega)

/-- The sort keys begin behind `BY`, which ends no clause. -/
theorem stretch_sortKeys {run : List Lexeme} {i : Nat} (hi : i < ending run)
    (h : Lexeme.isOrderBy run i = true) :
    (stretch run (i + 1) (Clause.sortKeys.endFrom run (i + 1))).drop 1 =
      stretch run (i + 2) (Clause.sortKeys.endFrom run (i + 2)) := by
  obtain ⟨hactive, -, hby⟩ := isOrderBy_iff.mp h
  obtain ⟨l, hl, htoken⟩ := Option.map_eq_some_iff.mp hby
  have hlow : 1 ≤ ending run := by omega
  have hlt : i + 1 < ending run := by
    by_contra hge
    have hend : i + 1 = ending run := by omega
    rw [hend] at hl
    simp [Lexeme.token_of_getElem?_ending hlow hl] at htoken
  have hpass : isAt run Clause.sortKeys.stops (i + 1) = false := by
    simp [isAt, hl, htoken, Clause.stops]
  have hend : Clause.sortKeys.endFrom run (i + 1) = Clause.sortKeys.endFrom run (i + 2) :=
    firstIndex_of_not hpass hlt
  rw [hend, stretch, stretch, List.drop_drop]

/-- A statement without a `FROM` has no tables. -/
theorem tableList_declared_of_no_from {run : List Lexeme}
    (hfrom : Clause.selectList.endFrom run 1 = ending run) :
    (declared run).tableList = none := by
  have hfromAt : firstIndex (isAt run [.keyword .from]) 1 (ending run) = ending run := hfrom
  rw [declared, if_neg (by omega)]

/-- The columns and the tables stand before and behind the `FROM`. -/
theorem declared_of_from {run : List Lexeme} {i : Nat}
    (hi : Clause.selectList.endFrom run 1 = i) (hfrom : i < ending run) :
    (declared run).selectList = some (stretch run 1 i) ∧
      (declared run).tableList =
        some (stretch run (i + 1) (Clause.tableList.endFrom run (i + 1))) := by
  have hfromAt : firstIndex (isAt run [.keyword .from]) 1 (ending run) = i := hi
  rw [declared, hfromAt, if_pos hfrom]
  exact ⟨rfl, rfl⟩

/-- The clauses of a statement with a `FROM`. -/
theorem ofSections_of_from {run : List Lexeme} (hlow : 1 ≤ ending run)
    (hfrom : Clause.selectList.endFrom run 1 < ending run) :
    ofSections (Section.cut .selectList ((marks run).drop 1)) = declared run := by
  obtain ⟨opened, hopened, hcut⟩ :=
    Section.exists_cut_drop_of_lt (by simp) (Nat.le_refl 1) hlow hfrom
  obtain ⟨-, -, hat, -⟩ := Section.endFrom_spec .selectList hlow
  obtain rfl : opened = .tableList := by
    obtain ⟨-, l, hl, htoken⟩ := isAt_iff.mp (hat hfrom)
    obtain ⟨-, l', hl', hnext⟩ := opensAt?_eq_some_iff.mp hopened
    rw [hl, Option.some_inj] at hl'
    rw [← hl', List.mem_singleton.mp htoken] at hnext
    exact (Option.some_inj.mp hnext).symm
  generalize hfromAt : Clause.selectList.endFrom run 1 = fromAt at hfrom hcut
  have hbehind : ∀ clause, clause ≠ .selectList →
      Section.bodyOf? clause (Section.cut .selectList ((marks run).drop 1)) =
        Section.bodyOf? clause (Section.cut .tableList ((marks run).drop (fromAt + 1))) := by
    intro clause hne
    rw [hcut, Section.bodyOf?_cons_of_ne hne.symm]
  have hselect : Section.bodyOf? .selectList (Section.cut .selectList ((marks run).drop 1)) =
      some (stretch run 1 fromAt) := by
    rw [hcut, Section.bodyOf?_cons_self, Section.map_lexeme_stretch]
  have htables : Section.bodyOf? .tableList
      (Section.cut .tableList ((marks run).drop (fromAt + 1))) =
        some (stretch run (fromAt + 1) (Clause.tableList.endFrom run (fromAt + 1))) :=
    Section.bodyOf?_cut_self (by simp) (by omega) (by omega)
  have hdeclared : firstIndex (isAt run [.keyword .from]) 1 (ending run) = fromAt := hfromAt
  rw [ofSections, hbehind _ (by simp), htables, hselect, hbehind _ (by simp),
    hbehind _ (by simp), hbehind _ (by simp),
    Section.bodyOf?_filter_cut_tableList (by omega) (by omega),
    Section.bodyOf?_limit_cut (by simp [Clause.stops]) (by omega) (by omega),
    Section.bodyOf?_sortKeys_cut (by simp [Clause.stops]) (by omega) (by omega) rfl rfl,
    declared, hdeclared, if_pos hfrom]
  dsimp only
  congr 1
  obtain ⟨-, hlimit, -⟩ :=
    firstIndex_spec (isAt run [.keyword .limit]) (show fromAt + 1 ≤ ending run by omega)
  obtain ⟨-, -, horder, -⟩ := firstIndex_spec (Lexeme.isOrderBy run)
    (firstIndex_spec (isAt run [.keyword .limit]) (show fromAt + 1 ≤ ending run by omega)).1
  split
  · next hlt =>
    rw [Option.map_some, stretch_sortKeys (by omega) (horder hlt)]
    rfl
  · rfl

/-- The clauses of a statement without a `FROM`. -/
theorem ofSections_of_no_from {run : List Lexeme} (hlow : 1 ≤ ending run)
    (hfrom : Clause.selectList.endFrom run 1 = ending run) :
    ofSections (Section.cut .selectList ((marks run).drop 1)) = declared run := by
  obtain ⟨hlength, -⟩ := Lexeme.ending_spec run hlow
  obtain ⟨more, hcut, hmore⟩ :=
    Section.exists_cut_drop_of_eq (by simp) (Nat.le_refl 1) hlow hfrom
  have htables : Section.bodyOf? .tableList
      (Section.cut .selectList ((marks run).drop 1)) = none := by
    rw [hcut, Section.bodyOf?_cons_of_ne (by simp)]
    exact Section.bodyOf?_eq_none fun s hs => by simp [hmore s hs]
  have hfromAt : firstIndex (isAt run [.keyword .from]) 1 (ending run) = ending run := hfrom
  rw [ofSections, htables, declared, if_neg (by omega), hcut]
  simp only [List.head?_cons, Option.bind_some, afterLimit?_stretch hlow hlength]

/-- The clauses of a statement that begins with a word are the declared ones. -/
theorem ofSections_cut_marks {run : List Lexeme} (h : run ≠ []) :
    ofSections (Section.cut .selectList ((Lexeme.marks run).drop 1)) = declared run := by
  have hlow : 1 ≤ ending run := Lexeme.one_le_ending h
  obtain ⟨-, hle, -⟩ := Section.endFrom_spec .selectList hlow
  rcases Nat.eq_or_lt_of_le hle with hfrom | hfrom
  · exact ofSections_of_no_from hlow hfrom
  · exact ofSections_of_from hlow hfrom

/-- The clauses of a statement are the declared ones. -/
theorem ofLexemes_eq_declared (run : List Lexeme) : Clauses.ofLexemes run = declared run := by
  cases run with
  | nil => rfl
  | cons lead rest =>
      have hcut : ofLexemes (lead :: rest) =
        ofSections (Section.cut .selectList ((marks (lead :: rest)).drop 1)) := rfl
      rw [hcut]
      exact ofSections_cut_marks (by simp)

end Clauses

namespace StatementKind

/-- The words that begin a statement of a known kind. -/
def words : List (Keyword × StatementKind) :=
  [(.select, select), (.insert, insert), (.update, update), (.delete, delete), (.create, create),
   (.drop, drop), (.alter, alter)]

/-- Each known kind belongs to one keyword. -/
theorem ofToken_eq_iff {token : Token} :
    ∀ row ∈ words, ofToken token = row.2 ↔ token = .keyword row.1 := by
  cases token with
  | keyword k => cases k <;> decide
  | _ => simp [words, ofToken]

/-- The kind of a statement is that of its first token. -/
theorem ofLexemes_eq_iff {run : List Lexeme} :
    ∀ row ∈ words, ofLexemes run = row.2 ↔
      run.head?.map (·.token) = some (.keyword row.1) := by
  intro row hrow
  cases run with
  | nil =>
      have hknown : ∀ row ∈ words, row.2 ≠ unknown := by decide
      simpa [ofLexemes] using (hknown row hrow).symm
  | cons l run => simpa [ofLexemes] using ofToken_eq_iff row hrow

end StatementKind

namespace Query

/-- A statement is a `SELECT` when it begins with this word. -/
theorem ofLexemes_eq_select_iff {run : List Lexeme} :
    StatementKind.ofLexemes run = .select ↔
      run.head?.map (·.token) = some (.keyword .select) :=
  StatementKind.ofLexemes_eq_iff (.select, .select) (by decide)

/-- The outline of a `SELECT` is read from its declared clauses. -/
theorem ofLexemes_of_select {run : List Lexeme} (source : String)
    (h : run.head?.map (·.token) = some (.keyword .select)) :
    ofLexemes run source = ofClauses (Clauses.declared run) source := by
  have hkind := ofLexemes_eq_select_iff.mpr h
  cases run with
  | nil => simp at h
  | cons lead rest =>
      rw [← Clauses.ofSections_cut_marks (by simp), ofLexemes, hkind]
      rfl

/-- Of a statement of another kind nothing is read. -/
theorem ofLexemes_of_not_select {run : List Lexeme} (source : String)
    (h : ¬ run.head?.map (·.token) = some (.keyword .select)) :
    ofLexemes run source = bare (StatementKind.ofLexemes run) source := by
  rw [← ofLexemes_eq_select_iff] at h
  rw [ofLexemes, if_neg h]

end Query

end SqlOutline
