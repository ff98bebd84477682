import SqlOutline.Proofs.Active

/-!
# Where a clause ends

`Section.cut` passes over a statement once and keeps track of the clause it is in. Seen from
a place inside a clause, the pass goes on to the first active place with a token that ends
this clause, its `stops`, or to the end of the statement.

## Main results

* `Clause.next?_eq_some_iff`: all that a change of the clause can be.
* `isSome_opensAt?_iff`: a clause ends at its stops and at the end of the statement.
* `Section.exists_cut_drop_of_lt`, `Section.exists_cut_drop_of_eq`: a section goes on to the
  first place that ends its clause.
* `Section.forall_mem_cut`: what is kept by every change of the clause holds of all sections.
-/

namespace SqlOutline

open Lexeme (isActive isAt marks ending)

/-- Whether an active `ORDER` stands at an index with `BY` behind it. -/
def Lexeme.isOrderBy (run : List Lexeme) (i : Nat) : Bool :=
  isAt run [.keyword .order] i && run[i + 1]?.any (·.token = .keyword .by)

/-! ### What ends a clause -/

/-- The tokens that end a clause inside of a statement. -/
def Clause.stops : Clause → List Token
  | .selectList => [.keyword .from]
  | .tableList =>
    [.keyword .where, .keyword .group, .keyword .having, .keyword .order, .keyword .limit]
  | .filter | .grouping =>
    [.keyword .group, .keyword .having, .keyword .order, .keyword .limit]
  | .sortKeys => [.keyword .group, .keyword .having, .keyword .limit]
  | .limit | .finished => []

/-- The first active place from an index on that ends a clause, or the end of the statement. -/
def Clause.endFrom (clause : Clause) (run : List Lexeme) (i : Nat) : Nat :=
  firstIndex (isAt run clause.stops) i (ending run)

/-- The clause that a token opens at which a clause ends, whatever that clause is. -/
def Clause.openedBy : Token → Option Token → Clause
  | .keyword .from, _ => .tableList
  | .keyword .where, _ => .filter
  | .keyword .group, _ | .keyword .having, _ => .grouping
  | .keyword .order, following =>
    if following = some (.keyword .by) then .sortKeys else .grouping
  | .keyword .limit, _ => .limit
  | _, _ => .finished

/-- A clause ends at its stops and with the statement, and what comes next does not depend on
the clause that ends. -/
theorem Clause.next?_eq_some_iff {clause opened : Clause} {token : Token}
    {following : Option Token} :
    clause.next? token following = some opened ↔
      clause ≠ .finished ∧ (token = .semicolon ∨ token ∈ clause.stops) ∧
        opened = openedBy token following := by
  cases clause <;> rw [Clause.next?.eq_def] <;> split <;>
    simp_all [Clause.stops, Clause.openedBy, eq_comm]

/-- Nothing stops the clause behind the end. -/
theorem Clause.ne_finished_of_mem_stops {clause : Clause} {token : Token}
    (h : token ∈ clause.stops) : clause ≠ .finished := by
  rintro rfl
  simp [stops] at h

/-- The tables are ended by all that ends a clause behind them. -/
theorem Clause.stops_subset_of_limit_mem {clause : Clause}
    (h : .keyword .limit ∈ clause.stops) :
    clause.stops ⊆ Clause.tableList.stops := by
  cases clause <;> simp_all [stops]

/-- A clause that stops at `ORDER` also stops at `LIMIT`. -/
theorem Clause.limit_mem_stops_of_order {clause : Clause}
    (h : .keyword .order ∈ clause.stops) :
    .keyword .limit ∈ clause.stops := by
  cases clause <;> simp_all [stops]

/-- What a clause that ends at a `LIMIT` opens without one still ends at a `LIMIT`. -/
theorem Clause.limit_mem_stops_of_next? {clause opened : Clause} {token : Token}
    {following : Option Token} (hclause : .keyword .limit ∈ clause.stops)
    (hsemicolon : token ≠ .semicolon) (hlimit : token ≠ .keyword .limit)
    (hnext : clause.next? token following = some opened) : .keyword .limit ∈ opened.stops := by
  rw [next?_eq_some_iff] at hnext
  obtain ⟨-, hstop, rfl⟩ := hnext
  have hmem := stops_subset_of_limit_mem hclause (hstop.resolve_left hsemicolon)
  simp only [stops, List.mem_cons, List.not_mem_nil, or_false] at hmem
  rcases hmem with rfl | rfl | rfl | rfl | rfl
  · simp [openedBy, stops]
  · simp [openedBy, stops]
  · simp [openedBy, stops]
  · rw [openedBy]
    split <;> simp [stops]
  · exact absurd rfl hlimit

/-- What a clause opens without an `ORDER BY` still ends at an `ORDER`, if the clause does. -/
theorem Clause.order_mem_stops_of_next? {clause opened : Clause} {token : Token}
    {following : Option Token} (hclause : .keyword .order ∈ clause.stops)
    (hsemicolon : token ≠ .semicolon) (hlimit : token ≠ .keyword .limit)
    (horder : token = .keyword .order → following ≠ some (.keyword .by))
    (hnext : clause.next? token following = some opened) : .keyword .order ∈ opened.stops := by
  rw [next?_eq_some_iff] at hnext
  obtain ⟨-, hstop, rfl⟩ := hnext
  have hmem := stops_subset_of_limit_mem (limit_mem_stops_of_order hclause)
    (hstop.resolve_left hsemicolon)
  simp only [stops, List.mem_cons, List.not_mem_nil, or_false] at hmem
  rcases hmem with rfl | rfl | rfl | rfl | rfl
  · simp [openedBy, stops]
  · simp [openedBy, stops]
  · simp [openedBy, stops]
  · rw [openedBy, if_neg (horder rfl)]
    simp [stops]
  · exact absurd rfl hlimit

/-- Whether a clause can only stand behind the condition. -/
def Clause.isLate : Clause → Bool
  | .selectList | .tableList | .filter => false
  | .grouping | .sortKeys | .limit | .finished => true

/-- Only `FROM` and `WHERE` open an early clause. -/
theorem Clause.isLate_openedBy {token : Token} (hfrom : token ≠ .keyword .from)
    (hwhere : token ≠ .keyword .where) (following : Option Token) :
    (openedBy token following).isLate = true := by
  rw [openedBy.eq_def]
  split
  · exact absurd rfl hfrom
  · exact absurd rfl hwhere
  · rfl
  · rfl
  · split <;> rfl
  · rfl
  · rfl

/-- Behind a late clause stand late ones. -/
theorem Clause.isLate_of_next? {clause opened : Clause} {token : Token}
    {following : Option Token} (hlate : clause.isLate = true)
    (hnext : clause.next? token following = some opened) : opened.isLate = true := by
  rw [next?_eq_some_iff] at hnext
  obtain ⟨-, hstop, rfl⟩ := hnext
  refine isLate_openedBy ?_ ?_ following
  · rintro rfl
    cases clause <;> simp [isLate, stops] at hlate hstop
  · rintro rfl
    cases clause <;> simp [isLate, stops] at hlate hstop

/-- The clause that the lexeme at an index opens when it is found in `clause`. -/
def Lexeme.opensAt? (run : List Lexeme) (clause : Clause) (i : Nat) : Option Clause :=
  if isActive run i then
    run[i]?.bind fun l => clause.next? l.token (run[i + 1]?.map (·.token))
  else none

section Places

variable {run : List Lexeme} {clause opened : Clause} {i : Nat}

/-- A token of a list is at an index if the lexeme there is active and has one of these tokens.
-/
theorem isAt_iff {tokens : List Token} :
    isAt run tokens i = true ↔
      isActive run i = true ∧ ∃ l, run[i]? = some l ∧ l.token ∈ tokens := by
  cases hl : run[i]? <;> simp [isAt, hl]

/-- A clause opens at an index if the lexeme there is active and the present clause goes over
to it. -/
theorem opensAt?_eq_some_iff : Lexeme.opensAt? run clause i = some opened ↔
    isActive run i = true ∧ ∃ l, run[i]? = some l ∧
      clause.next? l.token (run[i + 1]?.map (·.token)) = some opened := by
  by_cases hactive : isActive run i = true
  · cases hl : run[i]? <;> simp [Lexeme.opensAt?, hactive, hl]
  · simp [Lexeme.opensAt?, hactive]

/-- The places that end a clause are the semicolons and its stops. -/
theorem isSome_opensAt?_iff (hclause : clause ≠ .finished) :
    (Lexeme.opensAt? run clause i).isSome = true ↔
      isAt run [.semicolon] i = true ∨ isAt run clause.stops i = true := by
  rw [isAt_iff, isAt_iff, Lexeme.opensAt?]
  by_cases hactive : isActive run i = true
  · cases hl : run[i]? with
    | none => simp [hactive]
    | some l => simp [hactive, Option.isSome_iff_exists, Clause.next?_eq_some_iff, hclause]
  · simp [hactive]

/-- Before the end of the statement only the stops of a clause end it. -/
theorem opensAt?_eq_none (hclause : clause ≠ .finished)
    (hending : isAt run [.semicolon] i = false)
    (hstops : isAt run clause.stops i = false) : Lexeme.opensAt? run clause i = none := by
  rw [← Option.not_isSome_iff_eq_none, isSome_opensAt?_iff hclause]
  simp [hending, hstops]

/-- A semicolon finishes the statement. -/
theorem opensAt?_eq_finished (hclause : clause ≠ .finished)
    (h : isAt run [.semicolon] i = true) :
    Lexeme.opensAt? run clause i = some .finished := by
  obtain ⟨hactive, l, hl, htoken⟩ := isAt_iff.mp h
  rw [List.mem_singleton] at htoken
  refine opensAt?_eq_some_iff.mpr ⟨hactive, l, hl, ?_⟩
  rw [Clause.next?_eq_some_iff]
  exact ⟨hclause, .inl htoken, by rw [htoken]; rfl⟩

/-- A stop opens the same clause wherever it ends one. -/
theorem opensAt?_of_isAt {token : Token} (hclause : token ∈ clause.stops)
    (h : isAt run [token] i = true) :
    Lexeme.opensAt? run clause i =
      some (Clause.openedBy token (run[i + 1]?.map (·.token))) := by
  obtain ⟨hactive, l, hl, htoken⟩ := isAt_iff.mp h
  obtain rfl := List.mem_singleton.mp htoken
  refine opensAt?_eq_some_iff.mpr ⟨hactive, l, hl, ?_⟩
  rw [Clause.next?_eq_some_iff]
  exact ⟨Clause.ne_finished_of_mem_stops hclause, .inr hclause, rfl⟩

/-- No token is one of none. -/
theorem isAt_nil : isAt run [] = fun _ => false := by
  funext i
  cases hl : run[i]? <;> simp [isAt, hl]

/-- A sort order begins where an active `ORDER` has `BY` behind it. -/
theorem isOrderBy_iff : Lexeme.isOrderBy run i = true ↔ isActive run i = true ∧
    run[i]?.map (·.token) = some (.keyword .order) ∧
    run[i + 1]?.map (·.token) = some (.keyword .by) := by
  cases hl : run[i]? <;> cases hfollowing : run[i + 1]? <;>
    simp [Lexeme.isOrderBy, isAt, hl, hfollowing, and_assoc]

/-- An `ORDER` with its `BY` opens the sort keys wherever it ends a clause. -/
theorem opensAt?_eq_sortKeys (hclause : .keyword .order ∈ clause.stops)
    (h : Lexeme.isOrderBy run i = true) : Lexeme.opensAt? run clause i = some .sortKeys := by
  obtain ⟨hactive, horder, hfollowing⟩ := isOrderBy_iff.mp h
  obtain ⟨l, hl, htoken⟩ := Option.map_eq_some_iff.mp horder
  have hat : isAt run [.keyword .order] i = true :=
    isAt_iff.mpr ⟨hactive, l, hl, List.mem_singleton.mpr htoken⟩
  rw [opensAt?_of_isAt hclause hat, hfollowing, Clause.openedBy, if_pos rfl]

/-- What a place opens that is neither the end of the statement nor a `LIMIT` still ends
at a `LIMIT`. -/
theorem limit_mem_stops_opensAt? (hclause : .keyword .limit ∈ clause.stops)
    (hsemicolon : isAt run [.semicolon] i = false)
    (hlimit : isAt run [.keyword .limit] i = false) :
    .keyword .limit ∈ ((Lexeme.opensAt? run clause i).getD clause).stops := by
  cases hopens : Lexeme.opensAt? run clause i with
  | none => exact hclause
  | some opened =>
      obtain ⟨hactive, l, hl, hnext⟩ := opensAt?_eq_some_iff.mp hopens
      refine Clause.limit_mem_stops_of_next? hclause ?_ ?_ hnext <;> intro htoken
      · simp [isAt, hactive, hl, htoken] at hsemicolon
      · simp [isAt, hactive, hl, htoken] at hlimit

/-- What a place opens that is neither the end of the statement nor a `LIMIT` nor an `ORDER`
with its `BY` still ends at an `ORDER`. -/
theorem order_mem_stops_opensAt? (hclause : .keyword .order ∈ clause.stops)
    (hsemicolon : isAt run [.semicolon] i = false)
    (hlimit : isAt run [.keyword .limit] i = false)
    (horder : Lexeme.isOrderBy run i = false) :
    .keyword .order ∈ ((Lexeme.opensAt? run clause i).getD clause).stops := by
  cases hopens : Lexeme.opensAt? run clause i with
  | none => exact hclause
  | some opened =>
      obtain ⟨hactive, l, hl, hnext⟩ := opensAt?_eq_some_iff.mp hopens
      refine Clause.order_mem_stops_of_next? hclause ?_ ?_ ?_ hnext <;> intro htoken
      · simp [isAt, hactive, hl, htoken] at hsemicolon
      · simp [isAt, hactive, hl, htoken] at hlimit
      · intro hfollowing
        have hpos :=
          isOrderBy_iff.mpr ⟨hactive, by rw [hl, Option.map_some, htoken], hfollowing⟩
        simp [hpos] at horder

end Places

/-- A marked lexeme opens the clause that its token opens. -/
theorem Marked.next?_of_opens? {clause opened : Clause} {m : Marked} {ms : List Marked}
    (h : m.opens? clause ms = some opened) :
    clause.next? m.lexeme.token (ms.head?.map (·.lexeme.token)) = some opened := by
  rw [opens?] at h
  split at h
  · exact h
  · cases h

namespace Section

variable {run : List Lexeme} {clause opened : Clause} {i : Nat}

/-- The next lexeme either stays in its clause or opens another one. -/
theorem cut_drop_of_lt (hi : i < run.length) :
    cut clause ((marks run).drop i) =
      match Lexeme.opensAt? run clause i with
      | some opened => ⟨clause, []⟩ :: cut opened ((marks run).drop (i + 1))
      | none => (cut clause ((marks run).drop (i + 1))).modifyHead
          fun s => ⟨s.clause, ⟨run[i], isActive run i⟩ :: s.body⟩ := by
  have hopens : Marked.opens? clause ⟨run[i], isActive run i⟩ ((marks run).drop (i + 1)) =
      Lexeme.opensAt? run clause i := by
    have hfollowing : ((marks run).drop (i + 1)).head?.map (·.lexeme.token) =
        run[i + 1]?.map (·.token) := by
      rw [List.head?_drop, Lexeme.getElem?_marks, Option.map_map]
      rfl
    rw [Marked.opens?, hfollowing, Lexeme.opensAt?, List.getElem?_eq_getElem hi,
      Option.bind_some]
  rw [Lexeme.drop_marks hi]
  cases hat : Lexeme.opensAt? run clause i with
  | some opened => simp only [cut, hopens, hat]
  | none => simp only [cut, hopens, hat]

/-- A section lies in the clause that it begins in. -/
theorem exists_cut_eq (clause : Clause) (ms : List Marked) :
    ∃ body more, cut clause ms = ⟨clause, body⟩ :: more := by
  induction ms generalizing clause with
  | nil => exact ⟨[], [], rfl⟩
  | cons m ms ih =>
      rw [cut]
      cases m.opens? clause ms with
      | some opened => exact ⟨[], _, rfl⟩
      | none =>
          obtain ⟨body, more, hcut⟩ := ih clause
          exact ⟨m :: body, more, by simp [hcut]⟩

/-- The first section begins with the run. -/
theorem body_prefix_of_head?_cut {clause : Clause} {ms : List Marked} {s : Section}
    (h : (cut clause ms).head? = some s) : s.body <+: ms := by
  induction ms generalizing clause s with
  | nil =>
      obtain rfl := Option.some_inj.mp h
      exact List.nil_prefix
  | cons m ms ih =>
      rw [cut] at h
      cases hopens : m.opens? clause ms with
      | some opened =>
          rw [hopens] at h
          obtain rfl := Option.some_inj.mp h
          exact List.nil_prefix
      | none =>
          obtain ⟨body, more, hcut⟩ := exists_cut_eq clause ms
          simp only [hopens, hcut, List.modifyHead_cons] at h
          obtain rfl := Option.some_inj.mp h
          exact (List.prefix_cons_inj m).mpr (ih (by rw [hcut]; rfl))

/-- What holds of a clause and of every clause opened from such a one holds of all sections. -/
theorem forall_mem_cut {P : Clause → Prop}
    (hstep : ∀ clause token following opened, P clause →
      clause.next? token following = some opened → P opened)
    (hclause : P clause) (ms : List Marked) : ∀ s ∈ cut clause ms, P s.clause := by
  induction ms generalizing clause with
  | nil => simpa [cut] using hclause
  | cons m ms ih =>
      rw [cut]
      cases hopens : m.opens? clause ms with
      | some opened =>
          have hopened : P opened :=
            hstep clause _ _ opened hclause (Marked.next?_of_opens? hopens)
          simpa [hclause] using ih hopened
      | none =>
          have hrest := ih hclause
          cases hcut : cut clause ms with
          | nil => simp
          | cons first others =>
              rw [hcut] at hrest
              simpa using hrest

/-- Nothing of a finished statement is looked at. -/
theorem clause_of_mem_cut_finished {ms : List Marked} :
    ∀ s ∈ cut .finished ms, s.clause = .finished := by
  refine forall_mem_cut (P := (· = .finished)) ?_ rfl ms
  rintro clause token following opened rfl h
  rw [Clause.next?_eq_some_iff] at h
  exact absurd rfl h.1

/-- A clause goes on over places that do not end it. -/
theorem cut_drop_of_passes (hclause : clause ≠ .finished) {j : Nat}
    (hlow : 1 ≤ i) (hij : i ≤ j)
    (hj : j ≤ ending run) (hpass : ∀ k, i ≤ k → k < j → isAt run clause.stops k = false) :
    cut clause ((marks run).drop i) = (cut clause ((marks run).drop j)).modifyHead
      fun s => ⟨s.clause, ((marks run).take j).drop i ++ s.body⟩ := by
  obtain ⟨hlength, -, hbefore⟩ := Lexeme.ending_spec run (by omega)
  induction hn : j - i generalizing i with
  | zero =>
      obtain rfl : i = j := by omega
      have hempty : ((marks run).take i).drop i = [] := by simp
      rw [hempty]
      cases cut clause ((marks run).drop i) <;> rfl
  | succ n ih =>
      have hi : i < run.length := by omega
      have hrest := ih (show 1 ≤ i + 1 by omega) (by omega) (fun k hk => hpass k (by omega))
        (by omega)
      have hnone : Lexeme.opensAt? run clause i = none :=
        opensAt?_eq_none hclause (hbefore i hlow (by omega)) (hpass i (by omega) (by omega))
      rw [cut_drop_of_lt hi, hnone, Lexeme.drop_take_marks hi (by omega)]
      dsimp only
      rw [hrest]
      cases cut clause ((marks run).drop j) <;> rfl

/-- A clause ends at the first of its stops from an index on, or with the statement. -/
theorem endFrom_spec (clause : Clause) (hi : i ≤ ending run) :
    i ≤ clause.endFrom run i ∧ clause.endFrom run i ≤ ending run ∧
      (clause.endFrom run i < ending run →
        isAt run clause.stops (clause.endFrom run i) = true) ∧
      ∀ j, i ≤ j → j < clause.endFrom run i → isAt run clause.stops j = false :=
  firstIndex_spec (isAt run clause.stops) hi

/-- A section goes on to the first active place that ends its clause. Behind it stands what
is opened there. -/
theorem exists_cut_drop_of_lt (hclause : clause ≠ .finished) (hlow : 1 ≤ i)
    (hi : i ≤ ending run) (hend : clause.endFrom run i < ending run) :
    ∃ opened, Lexeme.opensAt? run clause (clause.endFrom run i) = some opened ∧
      cut clause ((marks run).drop i) =
        ⟨clause, ((marks run).take (clause.endFrom run i)).drop i⟩ ::
          cut opened ((marks run).drop (clause.endFrom run i + 1)) := by
  obtain ⟨hge, hle, hholds, hbefore⟩ := endFrom_spec clause hi
  obtain ⟨hlength, -⟩ := Lexeme.ending_spec run (by omega)
  obtain ⟨opened, hopened⟩ := Option.isSome_iff_exists.mp
    ((isSome_opensAt?_iff hclause).mpr (.inr (hholds hend)))
  refine ⟨opened, hopened, ?_⟩
  rw [cut_drop_of_passes hclause hlow hge hle hbefore,
    cut_drop_of_lt (show clause.endFrom run i < run.length by omega), hopened]
  simp

/-- A section that nothing ends goes on to the end of the statement, behind which no clause is
looked for. -/
theorem exists_cut_drop_of_eq (hclause : clause ≠ .finished) (hlow : 1 ≤ i)
    (hi : i ≤ ending run) (hend : clause.endFrom run i = ending run) :
    ∃ more, cut clause ((marks run).drop i) =
      ⟨clause, ((marks run).take (ending run)).drop i⟩ :: more ∧
      ∀ s ∈ more, s.clause = .finished := by
  obtain ⟨hge, hle, -, hbefore⟩ := endFrom_spec clause hi
  obtain ⟨hlength, hholds, -⟩ := Lexeme.ending_spec run (by omega)
  have hcut := cut_drop_of_passes hclause hlow hge hle hbefore
  rw [hend] at hcut
  rcases Nat.eq_or_lt_of_le hlength with hlast | hsemicolon
  · have hnil : (marks run).drop (ending run) = [] :=
      List.drop_eq_nil_of_le (by rw [Lexeme.length_marks]; omega)
    rw [hnil] at hcut
    exact ⟨[], by simpa [cut] using hcut, by simp⟩
  · have hopened := opensAt?_eq_finished hclause (hholds hsemicolon)
    rw [cut_drop_of_lt hsemicolon, hopened] at hcut
    exact ⟨_, by simpa using hcut, clause_of_mem_cut_finished⟩

end Section

end SqlOutline
