import SqlOutline.Proofs.Checked.Access
import SqlOutline.Proofs.ClauseEnds

/-!
# A pass that records where clauses lie

A pass over the tokens of a statement that keeps no lists: it records between which indices
each clause lies, and a `LIMIT` among the columns by the index behind it. The ranges come from
several counters, that of the token at hand, that of the next one, and the one at which the
present clause began. Here is what a single token does to them.

## Main results

* `step_of_stays`, `step_of_column`, `step_of_opens`: all that one token can do to the pass.
* `run_cons`, `run_cons_of_finished`: a pass is one step and the pass behind it.
* `ranges_close`: a clause that ends gets its range unless it has one.
* `companions_spec`: a `BY` is taken along in front of the sort keys, and they need one.
-/

namespace SqlOutline.Checked

/-- Whether a token is a keyword in a dotted name: a period touches it on one side. -/
def isQualified (previous : Option (Located Token)) (t : Located Token)
    (following : Option (Located Token)) : Bool :=
  t.value.isAnyKeyword &&
    (previous.any (fun p => p.value = .period && p.touches t) ||
      following.any fun n => n.value = .period && t.touches n)

/-- The number of tokens that go with the token in front of them: a `BY` goes with a `GROUP` or
an `ORDER`. -/
def companions (token : Token) (following : Option Token) : Nat :=
  if (token = .keyword .group ∨ token = .keyword .order) ∧
      following = some (.keyword .by) then 1
  else 0

/-- The clause that a token opens, and how many of the tokens behind it are taken along. -/
def transition (clause : Clause) (token : Token) (following : Option Token) :
    Option (Clause × Nat) :=
  (clause.next? token following).map fun opened => (opened, companions token following)

/-- What a pass over the tokens of a statement knows: the clause that it is in, with the index
at which the tokens of that clause begin, the depth, the token before, the index behind a
`LIMIT` among the columns, and the ranges of the clauses that have ended. -/
structure ClauseScan where
  clause : Clause
  bodyStart : Nat
  depth : Nat
  previous : Option (Located Token)
  selectLimit : Option Nat
  ranges : Clause → Option (Nat × Nat)

namespace ClauseScan

/-- The pass in front of the token behind the leading one. -/
def start (lead : Option (Located Token)) : ClauseScan :=
  ⟨.selectList, 1, 0, lead, none, fun _ => none⟩

/-- Whether the range of a clause is recorded when it ends: that of the columns only in front
of `FROM`. -/
def isKept (clause : Clause) (opened : Option Clause) : Bool :=
  match clause with
  | .selectList => opened = some .tableList
  | .grouping | .finished => false
  | _ => true

/-- Records the range of the present clause, unless there is one for it already. -/
def close (s : ClauseScan) (stop : Nat) (opened : Option Clause) : ClauseScan :=
  { s with ranges := fun clause =>
      if clause = s.clause ∧ isKept clause opened then
        (s.ranges clause).or (some (s.bodyStart, stop))
      else s.ranges clause }

/-- Records what stands behind a `LIMIT` among the columns. -/
def closeSelectLimit (s : ClauseScan) (stop : Nat) : ClauseScan :=
  { s with ranges := fun clause =>
      if clause = .limit then (s.selectLimit.map fun low => (low, stop)).or (s.ranges clause)
      else s.ranges clause }

/-- Records what is known of the clause that ends where another one is opened. -/
def leave (s : ClauseScan) (stop : Nat) (opened : Clause) : ClauseScan :=
  (if s.clause = .selectList ∧ opened = .finished then s.closeSelectLimit stop
    else s).close stop
    (some opened)

/-- The pass in a clause that was opened at an index and has its tokens from another one on. -/
def enter (s : ClauseScan) (i : Nat) (opened : Clause) (bodyStart : Nat) : ClauseScan :=
  { s.leave i opened with clause := opened, bodyStart }

/-- What an active token does to the pass, and how many of the tokens behind it
are taken along. -/
def onActive (size : Nat) (s : ClauseScan) (i : Nat) (token : Token)
    (rest : Cursor (Located Token)) : ClauseScan × Nat :=
  if token = .keyword .limit ∧ s.clause = .selectList then
    ({ s with selectLimit := s.selectLimit.or (some (i + 1)) }, 0)
  else
    match transition s.clause token (rest.head?.map (·.1.value)) with
    | none => (s, 0)
    | some (opened, taken) => (s.enter i opened (nextIndex size (rest.drop taken)), taken)

/-- What a token does to the pass. -/
def step (size : Nat) (s : ClauseScan) (i : Nat) (t : Located Token)
    (rest : Cursor (Located Token)) : ClauseScan × Nat :=
  let qualified := isQualified s.previous t (rest.head?.map (·.1))
  let s := { s with previous := some t }
  if t.value = .leftParen then ({ s with depth := s.depth + 1 }, 0)
  else if t.value = .rightParen then ({ s with depth := s.depth - 1 }, 0)
  else if 0 < s.depth ∨ qualified = true then (s, 0)
  else s.onActive size i t.value rest

/-- Goes over the tokens up to the end of the statement. -/
def run (size : Nat) (s : ClauseScan) : Cursor (Located Token) → ClauseScan
  | [] => s
  | (t, i) :: rest =>
    let (s', taken) := s.step size i t rest
    if s'.clause = .finished then s' else run size s' (rest.drop taken)
termination_by cursor => cursor.length
decreasing_by
  rw [List.length_drop, List.length_cons]
  omega

/-- The ranges at the end of the tokens. -/
def finish (size : Nat) (s : ClauseScan) : Clause → Option (Nat × Nat) :=
  let s := if s.clause = .selectList then s.closeSelectLimit size else s
  if s.clause = .finished then s.ranges else (s.close size none).ranges

end ClauseScan

/-- The range of each clause of a statement, keywords excluded. -/
def clauseRanges (tokens : List (Located Token)) : Clause → Option (Nat × Nat) :=
  ((ClauseScan.start tokens.head?).run tokens.length (tokens.zipIdx.drop 1)).finish tokens.length

namespace ClauseScan

/-- The pass stands in front of tokens whose lexemes come after another lexeme, and knows of
the token before whether it is a period that touches the next one. -/
structure Follows (source : String) (s : ClauseScan) (previous : Lexeme)
    (tokens : List (Located Token)) (ls : List Lexeme) : Prop where
  located : Locates source tokens ls
  touching : ∀ t ∈ tokens.head?, ∀ l ∈ ls.head?,
    s.previous.any (fun p => p.value = .period && p.touches t) =
      (decide (previous.token = .period) && l.touchesPrevious)

section Step

variable {source : String} {s : ClauseScan} {previous l : Lexeme} {t : Located Token}
  {tokens : List (Located Token)} {ls : List Lexeme}

/-- A keyword is part of a dotted name when its lexeme is. -/
theorem Follows.isQualified_eq (h : Follows source s previous (t :: tokens) (l :: ls))
    (ht : t.value = l.token) :
    isQualified s.previous t tokens.head? = Lexeme.isQualified previous l ls.head? := by
  have hbehind : tokens.head?.any (fun n => n.value = .period && t.touches n) =
      ls.head?.any Lexeme.isPeriodBehind := by
    cases ls with
    | nil =>
        rw [h.located.tail.eq_nil]
        rfl
    | cons m ls =>
        obtain ⟨next, more, rfl, hnext, -⟩ := h.located.tail.exists_cons
        simp only [List.head?_cons, Option.any_some, Lexeme.isPeriodBehind, hnext,
          h.located.touches]
  rw [isQualified, Lexeme.isQualified, h.touching t rfl l rfl, hbehind, ht]

/-- The lexeme behind another one is marked as active at a depth. -/
def marksActive (previous : Lexeme) (depth : Nat) (l : Lexeme) (ls : List Lexeme) : Bool :=
  depth = 0 && !l.token.isParen && !Lexeme.isQualified previous l ls.head?

/-- Behind a token the pass follows its lexeme. -/
theorem Follows.tail (h : Follows source s previous (t :: tokens) (l :: ls))
    (ht : t.value = l.token) {s' : ClauseScan} (hprevious : s'.previous = some t) :
    Follows source s' l tokens ls := by
  refine ⟨h.located.tail, fun next hnext m hm => ?_⟩
  obtain ⟨more, rfl⟩ := List.head?_eq_some_iff.mp hnext
  obtain ⟨rest, rfl⟩ := List.head?_eq_some_iff.mp hm
  rw [hprevious, Option.any_some, h.located.touches, ht]

variable {size i : Nat}

/-- A token that is not active changes the depth only. -/
theorem step_of_not_active (h : Follows source s previous (t :: tokens) (l :: ls))
    (ht : t.value = l.token) (hactive : marksActive previous s.depth l ls = false) :
    s.step size i t (tokens.zipIdx (i + 1)) =
      ({ s with depth := l.token.depthAfter s.depth, previous := some t }, 0) := by
  rw [step, map_fst_head?_zipIdx, h.isQualified_eq ht, ht]
  split_ifs with hleft hright hpassed
  · rw [hleft]
    rfl
  · rw [hright]
    rfl
  · rw [Token.depthAfter_of_not_isParen (by simp [Token.isParen, hleft, hright])]
  · have hdepth : s.depth = 0 := by
      dsimp only at hpassed
      omega
    have hqualified : Lexeme.isQualified previous l ls.head? = true := by
      simpa [marksActive, Token.isParen, hleft, hright, hdepth] using hactive
    exact absurd (.inr hqualified) hpassed

/-- An active token is looked at by itself. -/
theorem step_of_active (h : Follows source s previous (t :: tokens) (l :: ls))
    (ht : t.value = l.token) (hactive : marksActive previous s.depth l ls = true) :
    s.step size i t (tokens.zipIdx (i + 1)) =
      { s with depth := l.token.depthAfter s.depth, previous := some t }.onActive size i l.token
        (tokens.zipIdx (i + 1)) := by
  simp only [marksActive, Bool.and_eq_true, decide_eq_true_eq, Bool.not_eq_true'] at hactive
  have hparen := hactive.1.2
  rw [Token.isParen, decide_eq_false_iff_not, not_or] at hparen
  rw [step, map_fst_head?_zipIdx, h.isQualified_eq ht, ht, if_neg hparen.1, if_neg hparen.2,
    if_neg (by simp [hactive]), Token.depthAfter_of_not_isParen hactive.1.2]

/-- The token behind the present one is that of the next lexeme. -/
theorem following_eq (h : Follows source s previous (t :: tokens) (l :: ls)) :
    (tokens.zipIdx (i + 1)).head?.map (·.1.value) = ls.head?.map (·.token) := by
  have hvalues := congrArg List.head? h.located.tail.map_value
  rw [List.head?_map, List.head?_map] at hvalues
  rw [← hvalues]
  cases tokens <;> rfl

/-- A token that opens no clause changes the depth only, unless it is a `LIMIT`
among the columns. -/
theorem step_of_stays (h : Follows source s previous (t :: tokens) (l :: ls))
    (ht : t.value = l.token) (hstays : marksActive previous s.depth l ls = true →
      s.clause.next? l.token (ls.head?.map (·.token)) = none ∧
        ¬ (l.token = .keyword .limit ∧ s.clause = .selectList)) :
    s.step size i t (tokens.zipIdx (i + 1)) =
      ({ s with depth := l.token.depthAfter s.depth, previous := some t }, 0) := by
  by_cases hactive : marksActive previous s.depth l ls = true
  · obtain ⟨hnext, hlimit⟩ := hstays hactive
    rw [step_of_active h ht hactive, onActive, if_neg hlimit, following_eq h,
      transition, hnext]
    rfl
  · exact step_of_not_active h ht (Bool.of_not_eq_true hactive)

/-- A `LIMIT` among the columns is remembered. -/
theorem step_of_limit (h : Follows source s previous (t :: tokens) (l :: ls))
    (ht : t.value = l.token) (hactive : marksActive previous s.depth l ls = true)
    (htoken : l.token = .keyword .limit) (hselect : s.clause = .selectList) :
    s.step size i t (tokens.zipIdx (i + 1)) =
      ({ s with
          depth := l.token.depthAfter s.depth
          previous := some t
          selectLimit := s.selectLimit.or (some (i + 1)) }, 0) := by
  rw [step_of_active h ht hactive, onActive, if_pos ⟨htoken, hselect⟩]

/-- A token that stays among the columns is remembered if it is a `LIMIT`. -/
theorem step_of_column (h : Follows source s previous (t :: tokens) (l :: ls))
    (ht : t.value = l.token) (hselect : s.clause = .selectList)
    (hstays : marksActive previous s.depth l ls = true →
      s.clause.next? l.token (ls.head?.map (·.token)) = none) :
    s.step size i t (tokens.zipIdx (i + 1)) =
      ({ s with
          depth := l.token.depthAfter s.depth
          previous := some t
          selectLimit :=
            if Marked.isActiveKeyword .limit ⟨l, marksActive previous s.depth l ls⟩ then
              s.selectLimit.or (some (i + 1))
            else s.selectLimit }, 0) := by
  rw [Marked.isActiveKeyword]
  by_cases hlimit : marksActive previous s.depth l ls = true ∧ l.token = .keyword .limit
  · rw [step_of_limit h ht hlimit.1 hlimit.2 hselect, if_pos (by simp [hlimit])]
  · rw [step_of_stays h ht
        fun hactive => ⟨hstays hactive, fun hboth => hlimit ⟨hactive, hboth.1⟩⟩,
      if_neg (by simpa using hlimit)]

/-- A token that opens a clause ends the one before it. -/
theorem step_of_opens (h : Follows source s previous (t :: tokens) (l :: ls))
    (ht : t.value = l.token) (hactive : marksActive previous s.depth l ls = true)
    {opened : Clause} (hnext : s.clause.next? l.token (ls.head?.map (·.token)) = some opened) :
    s.step size i t (tokens.zipIdx (i + 1)) =
      ({ s.enter i opened (nextIndex size
            ((tokens.zipIdx (i + 1)).drop (companions l.token (ls.head?.map (·.token))))) with
          depth := l.token.depthAfter s.depth, previous := some t },
        companions l.token (ls.head?.map (·.token))) := by
  have hlimit : ¬ (l.token = .keyword .limit ∧ s.clause = .selectList) := by
    rintro ⟨htoken, hclause⟩
    rw [htoken, hclause] at hnext
    simp [Clause.next?] at hnext
  rw [step_of_active h ht hactive, onActive, if_neg hlimit, following_eq h, transition, hnext,
    Option.map_some]
  dsimp only
  rw [enter, enter, leave, leave]
  split_ifs <;> rfl

end Step

/-! ### Passes -/

section Pass

variable {size i : Nat} {s s' : ClauseScan} {t : Located Token} {tokens : List (Located Token)}
  {clause : Clause} {taken : Nat}

/-- The pass goes on behind the tokens that a step has taken. -/
theorem run_cons (hstep : s.step size i t (tokens.zipIdx (i + 1)) = (s', taken))
    (hclause : s'.clause ≠ .finished) :
    s.run size ((t :: tokens).zipIdx i) =
      s'.run size ((tokens.drop taken).zipIdx (i + 1 + taken)) := by
  rw [List.zipIdx_cons, run, hstep, ← drop_zipIdx]
  exact if_neg hclause

/-- At the end of the statement the pass stops. -/
theorem run_cons_of_finished
    (hstep : s.step size i t (tokens.zipIdx (i + 1)) = (s', taken))
    (hclause : s'.clause = .finished) : s.run size ((t :: tokens).zipIdx i) = s' := by
  rw [List.zipIdx_cons, run, hstep]
  exact if_pos hclause

/-- A scan that is finished leaves no range open. -/
theorem finish_of_finished (h : s.clause = .finished) : s.finish size = s.ranges := by
  have hselect : s.clause ≠ .selectList := by simp [h]
  rw [finish, if_neg hselect]
  exact if_pos h

/-- All clauses but the grouping are kept, the columns if `FROM` has ended them. -/
theorem isKept_of_ne {opened : Option Clause} (hselect : clause ≠ .selectList)
    (hgrouping : clause ≠ .grouping) (hfinished : clause ≠ .finished) :
    isKept clause opened = true := by
  cases clause <;> first | rfl | contradiction

/-- A clause that ends gets its range unless it has one. -/
theorem ranges_close {opened : Option Clause}
    (h : s.clause = clause → isKept clause opened = true) (stop : Nat)
    (later : Option (Nat × Nat)) :
    ((s.close stop opened).ranges clause).or later =
      (s.ranges clause).or
        (if s.clause = clause then some (s.bodyStart, stop) else later) := by
  rw [close]
  dsimp only
  by_cases hclause : clause = s.clause
  · rw [if_pos ⟨hclause, h hclause.symm⟩, if_pos hclause.symm, Option.or_assoc]
    rfl
  · rw [if_neg (fun hboth => hclause hboth.1), if_neg (Ne.symm hclause)]

/-- Columns that no `FROM` has ended are not kept, and what is behind a `LIMIT`
among them is. -/
theorem ranges_close_columns (hselect : s.clause = .selectList)
    (hranges : s.ranges = fun _ => none)
    {opened : Option Clause} (hopened : opened ≠ some .tableList) (stop : Nat) :
    ((s.closeSelectLimit stop).close stop opened).ranges clause =
      if clause = .limit then s.selectLimit.map fun low => (low, stop) else none := by
  have hdropped : ¬ (clause = s.clause ∧ isKept clause opened = true) := by
    rintro ⟨rfl, hkept⟩
    rw [hselect] at hkept
    exact hopened (by simpa [isKept] using hkept)
  rw [close, closeSelectLimit]
  dsimp only
  rw [if_neg hdropped, hranges, Option.or_none]

end Pass

/-! ### Changes of the clause -/

/-- A `BY` is taken along by the grouping and the sort keys, and the latter never begin
without one. -/
theorem companions_spec {present opened : Clause} {token : Token} {following : Option Token}
    (h : present.next? token following = some opened) :
    companions token following = 0 ∧ opened ≠ .sortKeys ∨
      companions token following = 1 ∧ following = some (.keyword .by) ∧ token ≠ .period ∧
        (opened = .grouping ∨ opened = .sortKeys) := by
  obtain ⟨-, -, rfl⟩ := Clause.next?_eq_some_iff.mp h
  rw [companions]
  split_ifs with hby
  · refine .inr ⟨rfl, hby.2, ?_⟩
    rcases hby with ⟨rfl | rfl, rfl⟩
    · exact ⟨by simp, .inl rfl⟩
    · exact ⟨by simp, .inr rfl⟩
  · refine .inl ⟨rfl, fun hopened => hby ?_⟩
    unfold Clause.openedBy at hopened
    split at hopened <;> simp_all

/-- No token opens the list of columns, with which every statement begins. -/
theorem ne_selectList_of_next? {present opened : Clause} {token : Token}
    {following : Option Token} (h : present.next? token following = some opened) :
    opened ≠ .selectList := by
  obtain ⟨-, -, rfl⟩ := Clause.next?_eq_some_iff.mp h
  unfold Clause.openedBy
  split <;> first | (split_ifs <;> simp) | simp

end ClauseScan

end SqlOutline.Checked
