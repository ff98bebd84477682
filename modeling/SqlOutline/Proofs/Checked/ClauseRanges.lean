import SqlOutline.Proofs.Checked.ClauseScan

/-!
# Clauses by ranges of indices

The ranges that a pass over the tokens records are those of the sections that `Section.cut`
finds. A range begins where the section does, behind `BY` if one goes with its keyword, and
ends where the section ends. So it lies within the tokens, it does not end before it begins,
and the tokens of each clause can be cut out by it.

## Main results

* `ClauseScan.finish_run_inside`: from a clause behind the columns on, the ranges are those of
  the sections.
* `ClauseScan.finish_run_selectList`: from the columns on, they are so if there are tables.
* `exists_sliceClause`: the clauses of a statement can be cut out by their ranges.
-/

namespace SqlOutline.Checked

open Lexeme (mark)

/-! ### Ranges of sections -/

/-- The number of tokens at the front of a section that belong to the keyword before it. -/
def skipped (clause : Clause) : Nat := if clause = .sortKeys then 1 else 0

/-- The range of the first section in a clause, when the first one of all begins at an index
and its range at another one. -/
def rangeOf? (clause : Clause) (low start : Nat) : List Section → Option (Nat × Nat)
  | [] => none
  | s :: more =>
    if s.clause = clause then some (low, start + s.body.length)
    else
      rangeOf? clause (start + s.body.length + 1 + skipped clause)
        (start + s.body.length + 1) more

section Ranges

variable {clause : Clause} {low start : Nat} {sections : List Section}

/-- A lexeme put in front of the first section moves all ranges on by one. -/
theorem rangeOf?_modifyHead (m : Marked) :
    rangeOf? clause low start (sections.modifyHead fun s => ⟨s.clause, m :: s.body⟩) =
      rangeOf? clause low (start + 1) sections := by
  cases sections with
  | nil => rfl
  | cons s more =>
      have hlength : start + (s.body.length + 1) = start + 1 + s.body.length := by omega
      rw [List.modifyHead_cons, rangeOf?, rangeOf?, List.length_cons, hlength]

/-- A clause without a section has no range. -/
theorem rangeOf?_eq_none (h : ∀ s ∈ sections, s.clause ≠ clause) :
    rangeOf? clause low start sections = none := by
  induction sections generalizing low start with
  | nil => rfl
  | cons s more ih =>
      obtain ⟨hs, hmore⟩ := List.forall_mem_cons.mp h
      rw [rangeOf?, if_neg hs, ih hmore]

/-- Where the range of the first section begins matters to its clause only. -/
theorem rangeOf?_cut_of_ne {other : Clause} (h : other ≠ clause) (ms : List Marked)
    (low' : Nat) :
    rangeOf? clause low start (Section.cut other ms) =
      rangeOf? clause low' start (Section.cut other ms) := by
  obtain ⟨body, more, hcut⟩ := Section.exists_cut_eq other ms
  rw [hcut, rangeOf?, rangeOf?, if_neg h, if_neg h]

end Ranges

namespace ClauseScan

/-! ### Sections from a lexeme on -/

section Sections

variable {clause opened : Clause} {previous l : Lexeme} {depth : Nat} {ls : List Lexeme}

/-- A run is marked lexeme by lexeme, at the depth behind the one before. -/
theorem mark_cons (previous : Lexeme) (depth : Nat) (l : Lexeme) (ls : List Lexeme) :
    mark previous depth (l :: ls) =
      ⟨l, marksActive previous depth l ls⟩ :: mark l (l.token.depthAfter depth) ls := rfl

/-- Only an active lexeme opens a clause. -/
theorem opens?_mark (clause : Clause) (active : Bool) (l : Lexeme) (depth : Nat)
    (ls : List Lexeme) : Marked.opens? clause ⟨l, active⟩ (mark l depth ls) =
      if active then clause.next? l.token (ls.head?.map (·.token)) else none := by
  cases ls <;> rfl

/-- An active lexeme that opens a clause ends the section before it. -/
theorem cut_of_opens (hactive : marksActive previous depth l ls = true)
    (hnext : clause.next? l.token (ls.head?.map (·.token)) = some opened) :
    Section.cut clause (mark previous depth (l :: ls)) =
      ⟨clause, []⟩ :: Section.cut opened (mark l (l.token.depthAfter depth) ls) := by
  rw [mark_cons, Section.cut, opens?_mark, if_pos hactive, hnext]

/-- Any other lexeme belongs to the section that it is found in. -/
theorem cut_of_stays (h : marksActive previous depth l ls = true →
      clause.next? l.token (ls.head?.map (·.token)) = none) :
    Section.cut clause (mark previous depth (l :: ls)) =
      (Section.cut clause (mark l (l.token.depthAfter depth) ls)).modifyHead
        fun s => ⟨s.clause, ⟨l, marksActive previous depth l ls⟩ :: s.body⟩ := by
  rw [mark_cons, Section.cut, opens?_mark]
  split_ifs with hactive
  · rw [h hactive]
  · rfl

end Sections

/-! ### From a clause on to the end -/

section Run

variable {source : String} {size i : Nat} {s : ClauseScan} {previous l : Lexeme}
  {t : Located Token} {tokens : List (Located Token)} {ls : List Lexeme} {clause : Clause}

/-- The range of a clause begins behind its `BY`. -/
theorem rangeOf?_behind_by {word : Lexeme} {opened : Clause} {depth : Nat}
    (hword : word.token = .keyword .by) (hopened : opened = .grouping ∨ opened = .sortKeys)
    (hclause : clause ≠ .grouping) :
    rangeOf? clause (i + skipped clause) i (Section.cut opened (mark l depth (word :: ls))) =
      rangeOf? clause (i + 1) (i + 1) (Section.cut opened (mark word depth ls)) := by
  have hstays : ∀ following, opened.next? word.token following = none := by
    intro following
    rw [hword]
    rcases hopened with rfl | rfl <;> rfl
  have hdepth : word.token.depthAfter depth = depth := by
    rw [hword]
    rfl
  rw [cut_of_stays fun _ => hstays _, hdepth, rangeOf?_modifyHead]
  rcases hopened with rfl | rfl
  · exact rangeOf?_cut_of_ne hclause.symm _ _
  · by_cases hne : Clause.sortKeys = clause
    · rw [← hne]
      rfl
    · exact rangeOf?_cut_of_ne hne _ _

/-- Other clauses than the sort keys begin right behind their keyword. -/
theorem rangeOf?_of_ne_sortKeys {opened : Clause} (h : opened ≠ .sortKeys) (ms : List Marked) :
    rangeOf? clause (i + skipped clause) i (Section.cut opened ms) =
      rangeOf? clause i i (Section.cut opened ms) := by
  by_cases hclause : opened = clause
  · rw [skipped, if_neg (hclause ▸ h), Nat.add_zero]
  · exact rangeOf?_cut_of_ne hclause ms _

/-- Where a clause is opened the pass goes on behind its keyword, and behind `BY`, with a
section whose range begins there. -/
theorem exists_run_opens {opened : Clause}
    (h : Follows source s previous (t :: tokens) (l :: ls))
    (ht : t.value = l.token) (hactive : marksActive previous s.depth l ls = true)
    (hnext : s.clause.next? l.token (ls.head?.map (·.token)) = some opened)
    (hopened : opened ≠ .finished) (hsize : size = i + (ls.length + 1)) :
    ∃ s' previous' tokens' ls' i', Follows source s' previous' tokens' ls' ∧
      s'.clause = opened ∧ s'.ranges = (s.leave i opened).ranges ∧ ls'.length ≤ ls.length ∧
      size = i' + ls'.length ∧
      s.run size ((t :: tokens).zipIdx i) = s'.run size (tokens'.zipIdx i') ∧
      ∀ clause, clause ≠ .grouping →
        rangeOf? clause s'.bodyStart i' (Section.cut opened (mark previous' s'.depth ls')) =
          rangeOf? clause (i + 1 + skipped clause) (i + 1)
            (Section.cut opened (mark l (l.token.depthAfter s.depth) ls)) := by
  have hstep : s.step size i t (tokens.zipIdx (i + 1)) = _ := step_of_opens h ht hactive hnext
  have hrun := run_cons hstep hopened
  have hlength := h.located.tail.length_eq
  rcases companions_spec hnext with ⟨hzero, hkeys⟩ | ⟨hone, hby, htoken, hgrouped⟩
  · rw [hzero, List.drop_zero, List.drop_zero, nextIndex_zipIdx (by omega)] at hrun
    refine ⟨{ s.enter i opened (i + 1) with
        depth := l.token.depthAfter s.depth, previous := some t }, l, tokens, ls, i + 1,
      h.tail ht rfl, rfl, rfl, Nat.le_refl _, by omega, hrun, fun clause _ => ?_⟩
    exact (rangeOf?_of_ne_sortKeys hkeys _).symm
  · obtain ⟨word, hword, hwordtoken⟩ := Option.map_eq_some_iff.mp hby
    obtain ⟨rest, rfl⟩ := List.head?_eq_some_iff.mp hword
    obtain ⟨next, more, rfl, -, hmore⟩ := h.located.tail.exists_cons
    simp only [List.length_cons] at hlength hsize ⊢
    rw [hone, drop_zipIdx, List.drop_succ_cons, List.drop_zero, nextIndex_zipIdx (by omega)]
      at hrun
    refine ⟨{ s.enter i opened (i + 1 + 1) with
        depth := l.token.depthAfter s.depth, previous := some t }, word, more, rest, i + 1 + 1,
      ⟨hmore, fun a _ b _ => ?_⟩, rfl, rfl, by omega, by omega, hrun, fun clause hclause => ?_⟩
    · simp [ht, htoken, hwordtoken]
    · exact (rangeOf?_behind_by hwordtoken hgrouped hclause).symm

/-- Behind the end of a statement nothing is found. -/
theorem rangeOf?_cut_finished {low start : Nat} {ms : List Marked} (h : clause ≠ .finished) :
    rangeOf? clause low start (Section.cut .finished ms) = none :=
  rangeOf?_eq_none fun found hfound hclause =>
    h (hclause.symm.trans (Section.clause_of_mem_cut_finished found hfound))

/-- At the end of a statement the pass has what it knew when it left the clause before. -/
theorem finish_run_of_finished (h : Follows source s previous (t :: tokens) (l :: ls))
    (ht : t.value = l.token) (hactive : marksActive previous s.depth l ls = true)
    (hnext : s.clause.next? l.token (ls.head?.map (·.token)) = some .finished) :
    (s.run size ((t :: tokens).zipIdx i)).finish size = (s.leave i .finished).ranges := by
  have hstep : s.step size i t (tokens.zipIdx (i + 1)) = _ := step_of_opens h ht hactive hnext
  rw [run_cons_of_finished hstep rfl, finish_of_finished rfl]
  rfl

/-- From a clause behind the columns on, the pass finds the ranges of the sections. -/
theorem finish_run_inside (hgrouping : clause ≠ .grouping)
    (hend : clause ≠ .finished) {n : Nat}
    (hn : ls.length = n) (h : Follows source s previous tokens ls)
    (hselect : s.clause ≠ .selectList) (hfinished : s.clause ≠ .finished)
    (hsize : size = i + ls.length) :
    (s.run size (tokens.zipIdx i)).finish size clause =
      (s.ranges clause).or
        (rangeOf? clause s.bodyStart i (Section.cut s.clause (mark previous s.depth ls))) := by
  induction n using Nat.strongRecOn generalizing ls tokens s previous i with
  | _ n ih =>
    have hkept : ∀ opened, s.clause = clause → isKept clause opened = true :=
      fun opened hclause => isKept_of_ne (hclause ▸ hselect) hgrouping hend
    cases ls with
    | nil =>
        have hclose := ranges_close (hkept none) size none
        rw [Option.or_none] at hclose
        rw [h.located.eq_nil, List.zipIdx_nil, run, finish, if_neg hselect, if_neg hfinished,
          hclose, hsize]
        rfl
    | cons l ls =>
        obtain ⟨t, tokens, rfl, ht, -⟩ := h.located.exists_cons
        rw [List.length_cons] at hn hsize
        by_cases hstays : marksActive previous s.depth l ls = true →
          s.clause.next? l.token (ls.head?.map (·.token)) = none
        · have hstep : s.step size i t (tokens.zipIdx (i + 1)) = _ := step_of_stays h ht
            fun hactive => ⟨hstays hactive, fun hlimit => hselect hlimit.2⟩
          rw [run_cons hstep hfinished, cut_of_stays hstays, rangeOf?_modifyHead]
          exact ih ls.length (by omega) rfl (h.tail ht rfl) hselect hfinished (by omega)
        · obtain ⟨hactive, hsome⟩ := Classical.not_imp.mp hstays
          obtain ⟨opened, hnext⟩ := Option.ne_none_iff_exists'.mp hsome
          have hclose := ranges_close (hkept (some opened)) i
          have hleave : s.leave i opened = s.close i (some opened) := by
            rw [leave, if_neg (fun hboth => hselect hboth.1)]
          rw [← hleave] at hclose
          rw [cut_of_opens hactive hnext, rangeOf?]
          by_cases hlast : opened = .finished
          · subst hlast
            have hnone := hclose none
            rw [Option.or_none] at hnone
            rw [finish_run_of_finished h ht hactive hnext, rangeOf?_cut_finished hend]
            exact hnone
          · obtain ⟨s', previous', tokens', ls', i', hfollows, rfl, hranges, hle, hsize', hrun,
              hfound⟩ := exists_run_opens h ht hactive hnext hlast hsize
            rw [hrun,
              ih ls'.length (by omega) rfl hfollows (ne_selectList_of_next? hnext) hlast
              hsize', hranges, hclose, hfound clause hgrouping]
            rfl

end Run

/-! ### From the columns on to the end -/

/-- The index behind the first active `LIMIT` of a body that begins at an index. -/
def limitIndex? (start : Nat) : List Marked → Option Nat
  | [] => none
  | m :: rest =>
    if m.isActiveKeyword .limit then some (start + 1) else limitIndex? (start + 1) rest

/-- The range behind the first `LIMIT` of the first section, of which one may be known. -/
def selectLimitOf? (known : Option Nat) (start : Nat) (sections : List Section) :
    Option (Nat × Nat) :=
  sections.head?.bind fun first =>
    (known.or (limitIndex? start first.body)).map fun low => (low, start + first.body.length)

/-- The ranges of the sections of a statement. Without tables only a `LIMIT` counts. -/
def rangeFrom? (clause : Clause) (known : Option Nat) (low start : Nat)
    (sections : List Section) : Option (Nat × Nat) :=
  if (Section.bodyOf? .tableList sections).isSome then rangeOf? clause low start sections
  else if clause = .limit then selectLimitOf? known start sections
  else none

section SelectList

variable {source : String} {size i : Nat} {s : ClauseScan} {previous l : Lexeme}
  {t : Located Token} {tokens : List (Located Token)} {ls : List Lexeme} {clause : Clause}

/-- A lexeme that stays among the columns is counted to the first section. -/
theorem rangeFrom?_modifyHead {known : Option Nat} {low start : Nat} (m : Marked)
    (ms : List Marked) :
    rangeFrom? clause known low start ((Section.cut .selectList ms).modifyHead
        fun s => ⟨s.clause, m :: s.body⟩) =
      rangeFrom? clause
        (if m.isActiveKeyword .limit then known.or (some (start + 1)) else known)
        low (start + 1) (Section.cut .selectList ms) := by
  obtain ⟨body, more, hcut⟩ := Section.exists_cut_eq .selectList ms
  have hlimit : selectLimitOf? known start ((Section.cut .selectList ms).modifyHead
      fun s => ⟨s.clause, m :: s.body⟩) =
        selectLimitOf?
          (if m.isActiveKeyword .limit then known.or (some (start + 1)) else known)
          (start + 1) (Section.cut .selectList ms) := by
    have hlength : start + (body.length + 1) = start + 1 + body.length := by omega
    rw [hcut, List.modifyHead_cons, selectLimitOf?, selectLimitOf?]
    simp only [List.head?_cons, Option.bind_some, limitIndex?, List.length_cons, hlength]
    split_ifs
    · rw [Option.or_assoc]
      rfl
    · rfl
  rw [rangeFrom?, rangeFrom?, Section.bodyOf?_modifyHead (by simp),
    rangeOf?_modifyHead, hlimit]

/-- Without tables only a `LIMIT` among the columns counts. -/
theorem rangeFrom?_of_no_tables {known : Option Nat} {low start : Nat} {first : Section}
    {more : List Section} (hselect : first.clause = .selectList) (hbody : first.body = [])
    (hmore : ∀ s ∈ more, s.clause = .finished) :
    rangeFrom? clause known low start (first :: more) =
      if clause = .limit then known.map fun low => (low, start) else none := by
  have htables : Section.bodyOf? .tableList (first :: more) = none := by
    refine Section.bodyOf?_eq_none
      (List.forall_mem_cons.mpr ⟨by simp [hselect], fun s hs => ?_⟩)
    simp [hmore s hs]
  rw [rangeFrom?, htables, Option.isSome_none, if_neg Bool.false_ne_true, selectLimitOf?,
    List.head?_cons, Option.bind_some, hbody, limitIndex?, Option.or_none]
  rfl

/-- In front of tables the columns count. -/
theorem rangeFrom?_of_tables (known : Option Nat) (low start : Nat) (body ms : List Marked) :
    rangeFrom? clause known low start (⟨.selectList, body⟩ :: Section.cut .tableList ms) =
      rangeOf? clause low start (⟨.selectList, body⟩ :: Section.cut .tableList ms) := by
  obtain ⟨tables, more, hcut⟩ := Section.exists_cut_eq .tableList ms
  rw [hcut, rangeFrom?]
  exact if_pos rfl

/-- Columns end where the tables begin or the statement ends. -/
theorem eq_tableList_of_next? {opened : Clause} {token : Token} {following : Option Token}
    (h : Clause.selectList.next? token following = some opened)
    (hopened : opened ≠ .finished) :
    opened = .tableList := by
  obtain ⟨-, hends, rfl⟩ := Clause.next?_eq_some_iff.mp h
  rw [Clause.stops, List.mem_singleton] at hends
  rcases hends with rfl | rfl
  · exact absurd rfl hopened
  · rfl

/-- From the columns on the pass finds the ranges of the sections, if there are tables, and
that of a `LIMIT` among the columns, if there are none. -/
theorem finish_run_selectList (hgrouping : clause ≠ .grouping) (hend : clause ≠ .finished)
    (h : Follows source s previous tokens ls) (hselect : s.clause = .selectList)
    (hranges : s.ranges = fun _ => none) (hsize : size = i + ls.length) :
    (s.run size (tokens.zipIdx i)).finish size clause =
      rangeFrom? clause s.selectLimit s.bodyStart i
        (Section.cut .selectList (mark previous s.depth ls)) := by
  induction ls generalizing tokens s previous i with
  | nil =>
      have hfinished : (s.closeSelectLimit size).clause ≠ .finished := by
        simp [closeSelectLimit, hselect]
      rw [h.located.eq_nil, List.zipIdx_nil, run, finish, if_pos hselect, if_neg hfinished,
        ranges_close_columns hselect hranges (by simp), mark, Section.cut,
        rangeFrom?_of_no_tables rfl rfl (by simp), hsize]
      rfl
  | cons l ls ih =>
      obtain ⟨t, tokens, rfl, ht, -⟩ := h.located.exists_cons
      rw [List.length_cons] at hsize
      by_cases hstays : marksActive previous s.depth l ls = true →
          s.clause.next? l.token (ls.head?.map (·.token)) = none
      · have hfinished : s.clause ≠ .finished := by simp [hselect]
        have hstep : s.step size i t (tokens.zipIdx (i + 1)) = _ :=
          step_of_column h ht hselect hstays
        rw [hselect] at hstays
        rw [run_cons hstep hfinished, cut_of_stays hstays, rangeFrom?_modifyHead]
        exact ih (h.tail ht rfl) hselect hranges (by omega)
      · obtain ⟨hactive, hsome⟩ := Classical.not_imp.mp hstays
        obtain ⟨opened, hnext⟩ := Option.ne_none_iff_exists'.mp hsome
        have hcolumns := hnext
        rw [hselect] at hcolumns
        rw [cut_of_opens hactive hcolumns]
        by_cases hlast : opened = .finished
        · subst hlast
          rw [finish_run_of_finished h ht hactive hnext, leave, if_pos ⟨hselect, rfl⟩,
            rangeFrom?_of_no_tables rfl rfl fun found =>
              Section.clause_of_mem_cut_finished found]
          exact ranges_close_columns hselect hranges (by simp) i
        · obtain rfl := eq_tableList_of_next? hcolumns hlast
          have hleave : s.leave i .tableList = s.close i (some .tableList) := by
            rw [leave, if_neg (by simp)]
          have hkept : s.clause = clause → isKept clause (some .tableList) = true := by
            rintro rfl
            rw [hselect]
            rfl
          obtain ⟨s', previous', tokens', ls', i', hfollows, hclause, hranges', -, hsize',
            hrun, hfound⟩ := exists_run_opens h ht hactive hnext (by simp) hsize
          rw [hrun, finish_run_inside hgrouping hend rfl hfollows (by simp [hclause])
            (by simp [hclause]) hsize', hranges', hleave, ranges_close hkept, hranges,
            Option.none_or, rangeFrom?_of_tables, rangeOf?, hclause, hfound clause hgrouping,
            hselect]
          rfl

end SelectList

end ClauseScan

/-! ### Cutting the clauses out -/

/-- A range of indices is one of a run, and the run has a body there. -/
def Holds (run : List Lexeme) (range : Nat × Nat) (body : List Lexeme) : Prop :=
  range.1 ≤ range.2 ∧ range.2 ≤ run.length ∧ Lexeme.stretch run range.1 range.2 = body

section Cutting

variable {run front : List Lexeme} {clause : Clause} {ms : List Marked}

/-- The bounds of a stretch hold what is between them. -/
theorem holds_of_split {body back : List Lexeme} {n : Nat}
    (hrun : run = front ++ (body ++ back)) (hn : n ≤ body.length) :
    Holds run (front.length + n, front.length + body.length) (body.drop n) := by
  refine ⟨Nat.add_le_add_left hn _, by simp only [hrun, List.length_append]; omega, ?_⟩
  rw [hrun, Lexeme.stretch, List.take_length_add_append, List.take_left,
    List.drop_length_add_append]

/-- A section of sort keys begins with `BY`. -/
theorem skipped_le_length {body : List Marked} {more : List Section}
    (hcut : Section.cut clause ms = ⟨clause, body⟩ :: more)
    (hby : clause = .sortKeys → ms.head?.map (·.lexeme.token) = some (.keyword .by)) :
    skipped clause ≤ body.length := by
  rw [skipped]
  split_ifs with hclause
  · subst hclause
    obtain ⟨m, tail, others, -, hkeys⟩ := Section.exists_cut_sortKeys (hby rfl)
    rw [hkeys] at hcut
    obtain ⟨hbody, -⟩ := List.cons.inj hcut
    obtain ⟨-, rfl⟩ := Section.mk.inj hbody
    exact Nat.succ_le_succ (Nat.zero_le _)
  · exact Nat.zero_le _

/-- The first section is found where it begins. -/
theorem rel_rangeOf?_self (hrun : run = front ++ ms.map (·.lexeme))
    (hby : clause = .sortKeys → ms.head?.map (·.lexeme.token) = some (.keyword .by)) :
    Option.Rel (fun range body => Holds run range (body.drop (skipped clause)))
      (rangeOf? clause (front.length + skipped clause) front.length (Section.cut clause ms))
      (Section.bodyOf? clause (Section.cut clause ms)) := by
  obtain ⟨body, more, hcut⟩ := Section.exists_cut_eq clause ms
  obtain ⟨tail, htail⟩ : body <+: ms := Section.body_prefix_of_head?_cut (by rw [hcut]; rfl)
  have hskipped : skipped clause ≤ (body.map (·.lexeme)).length := by
    rw [List.length_map]
    exact skipped_le_length hcut hby
  rw [← htail, List.map_append] at hrun
  have hholds := holds_of_split hrun hskipped
  rw [List.length_map] at hholds
  rw [hcut, rangeOf?, if_pos rfl, Section.bodyOf?_cons_self]
  exact .some hholds

/-- A later section is found where it begins. -/
theorem rel_rangeOf?_of_ne {other : Clause} (hne : other ≠ clause) (low : Nat)
    (hrun : run = front ++ ms.map (·.lexeme)) :
    Option.Rel (fun range body => Holds run range (body.drop (skipped clause)))
      (rangeOf? clause low front.length (Section.cut other ms))
      (Section.bodyOf? clause (Section.cut other ms)) := by
  induction ms generalizing other front low with
  | nil =>
      rw [Section.cut, rangeOf?, if_neg hne, Section.bodyOf?_cons_of_ne hne]
      exact .none
  | cons m ms ih =>
      have hfront : run = (front ++ [m.lexeme]) ++ ms.map (·.lexeme) := by simp [hrun]
      have hlength : (front ++ [m.lexeme]).length = front.length + 1 := by simp
      rw [Section.cut]
      cases hopens : m.opens? other ms with
      | none =>
          have hrel := ih hne low hfront
          rw [hlength, ← rangeOf?_modifyHead m, ← Section.bodyOf?_modifyHead hne m] at hrel
          exact hrel
      | some opened =>
          dsimp only
          rw [rangeOf?, if_neg hne, Section.bodyOf?_cons_of_ne hne, List.length_nil,
            Nat.add_zero, ← hlength]
          by_cases hclause : opened = clause
          · subst hclause
            refine rel_rangeOf?_self hfront fun hkeys => ?_
            subst hkeys
            rcases ClauseScan.companions_spec (Marked.next?_of_opens? hopens) with
              ⟨-, hno⟩ | ⟨-, hby, -⟩
            · exact absurd rfl hno
            · exact hby
          · exact ih hclause _ hfront

/-- What stands behind a `LIMIT` is found where it begins. -/
theorem rel_limitIndex? {body : List Marked} {back : List Lexeme}
    (hrun : run = front ++ (body.map (·.lexeme) ++ back)) :
    Option.Rel (fun low rest => Holds run (low, front.length + body.length) rest)
      (ClauseScan.limitIndex? front.length body) (Section.afterLimit? body) := by
  induction body generalizing front with
  | nil => exact .none
  | cons m body ih =>
      have hfront : run = (front ++ [m.lexeme]) ++ (body.map (·.lexeme) ++ back) := by
        simp [hrun]
      have hlength : (front ++ [m.lexeme]).length = front.length + 1 := by simp
      have hplace : front.length + (body.length + 1) = front.length + 1 + body.length := by
        omega
      have hrest := ih hfront
      have hholds := holds_of_split hfront (Nat.zero_le _)
      rw [hlength] at hrest
      rw [hlength, List.length_map] at hholds
      rw [ClauseScan.limitIndex?, Section.afterLimit?, List.length_cons, hplace]
      split_ifs
      · exact .some hholds
      · exact hrest

/-- The body of a clause. -/
def bodyIn (clauses : Clauses) : Clause → Option (List Lexeme)
  | .selectList => clauses.selectList
  | .tableList => clauses.tableList
  | .filter => clauses.filter
  | .sortKeys => clauses.sortKeys
  | .limit => clauses.limit
  | .grouping | .finished => none

/-- In a statement with tables every clause is the body of a section. -/
theorem bodyIn_ofSections {sections : List Section} {tables : List Lexeme}
    (htables : Section.bodyOf? .tableList sections = some tables)
    (hgrouping : clause ≠ .grouping)
    (hend : clause ≠ .finished) : bodyIn (Clauses.ofSections sections) clause =
      (Section.bodyOf? clause sections).map (·.drop (skipped clause)) := by
  rw [Clauses.ofSections, htables]
  cases clause with
  | sortKeys => rfl
  | tableList => rw [htables]; rfl
  | selectList | filter | limit => exact Option.map_id'.symm
  | grouping => contradiction
  | finished => contradiction

/-- The ranges of a statement are those of its clauses. -/
theorem rel_rangeFrom? {lead : Lexeme} {rest : List Lexeme} (hgrouping : clause ≠ .grouping)
    (hend : clause ≠ .finished) :
    Option.Rel (Holds (lead :: rest))
      (ClauseScan.rangeFrom? clause none 1 1 (Section.cut .selectList (mark lead 0 rest)))
      (bodyIn (Clauses.ofLexemes (lead :: rest)) clause) := by
  have hrun : lead :: rest = [lead] ++ (mark lead 0 rest).map (·.lexeme) := by
    rw [Lexeme.map_lexeme_mark]
    rfl
  rw [Clauses.ofLexemes, ClauseScan.rangeFrom?]
  cases htables : Section.bodyOf? .tableList (Section.cut .selectList (mark lead 0 rest)) with
  | some tables =>
      rw [Option.isSome_some, if_pos rfl, bodyIn_ofSections htables hgrouping hend]
      have hrel : Option.Rel
          (fun range body => Holds (lead :: rest) range (body.drop (skipped clause)))
          (rangeOf? clause 1 1 (Section.cut .selectList (mark lead 0 rest)))
          (Section.bodyOf? clause (Section.cut .selectList (mark lead 0 rest))) := by
        by_cases hselect : .selectList = clause
        · subst hselect
          exact rel_rangeOf?_self hrun (by simp)
        · exact rel_rangeOf?_of_ne hselect 1 hrun
      generalize rangeOf? clause 1 1 (Section.cut .selectList (mark lead 0 rest)) = range
        at hrel ⊢
      generalize Section.bodyOf? clause (Section.cut .selectList (mark lead 0 rest)) = body
        at hrel ⊢
      cases hrel with
      | none => exact .none
      | some hholds => exact .some hholds
  | none =>
      rw [Option.isSome_none, if_neg Bool.false_ne_true, Clauses.ofSections, htables]
      obtain ⟨body, more, hcut⟩ := Section.exists_cut_eq .selectList (mark lead 0 rest)
      obtain ⟨tail, htail⟩ : body <+: mark lead 0 rest :=
        Section.body_prefix_of_head?_cut (by rw [hcut]; rfl)
      rw [← htail, List.map_append] at hrun
      have hlimit := rel_limitIndex? hrun
      rw [hcut, ClauseScan.selectLimitOf?, List.head?_cons, Option.bind_some, Option.bind_some,
        Option.none_or]
      by_cases hclause : clause = .limit
      · subst hclause
        dsimp only [bodyIn, List.length_singleton] at hlimit ⊢
        rw [if_pos rfl]
        generalize ClauseScan.limitIndex? 1 body = low at hlimit ⊢
        generalize Section.afterLimit? body = found at hlimit ⊢
        cases hlimit with
        | none => exact .none
        | some hholds => exact .some hholds
      · rw [if_neg hclause]
        cases clause <;> first | exact .none | contradiction

/-- Cuts the tokens of a clause out. -/
def sliceClause (tokens : List (Located Token)) : Option (Nat × Nat) →
    Checked (Option (List (Located Token)))
  | none => return none
  | some (start, stop) => return some (← sliceList tokens start stop)

/-- The clauses of a statement can be cut out by their ranges. -/
theorem exists_sliceClause {source : String} {tokens : List (Located Token)}
    (h : Locates source tokens run) (hne : run ≠ []) (hgrouping : clause ≠ .grouping)
    (hend : clause ≠ .finished) :
    ∃ cut, sliceClause tokens (clauseRanges tokens clause) = .ok cut ∧
      Option.Rel (Locates source) cut (bodyIn (Clauses.ofLexemes run) clause) := by
  cases run with
  | nil => contradiction
  | cons lead rest =>
      obtain ⟨t, more, rfl, ht, hmore⟩ := h.exists_cons
      have hlength := h.length_eq
      have hfollows : ClauseScan.Follows source (.start (some t)) lead more rest := by
        refine ⟨hmore, fun next hnext l hl => ?_⟩
        obtain ⟨_, rfl⟩ := List.head?_eq_some_iff.mp hnext
        obtain ⟨_, rfl⟩ := List.head?_eq_some_iff.mp hl
        simp only [ClauseScan.start, Option.any_some, ht, h.touches]
      have hranges : clauseRanges (t :: more) clause =
          ClauseScan.rangeFrom? clause none 1 1 (Section.cut .selectList (mark lead 0 rest)) :=
        ClauseScan.finish_run_selectList hgrouping hend hfollows rfl rfl
          (by rw [List.length_cons, hmore.length_eq, Nat.add_comm])
      have hrel : Option.Rel (Holds (lead :: rest)) _ _ := rel_rangeFrom? hgrouping hend
      rw [← hranges] at hrel
      generalize bodyIn (Clauses.ofLexemes (lead :: rest)) clause = body at hrel ⊢
      generalize clauseRanges (t :: more) clause = range at hrel ⊢
      cases hrel with
      | none => exact ⟨none, rfl, .none⟩
      | @some range body hholds =>
          obtain ⟨hordered, hwithin, rfl⟩ := hholds
          rw [sliceClause, sliceList_of_le hordered (hlength ▸ hwithin)]
          exact ⟨_, rfl, .some ((h.take range.2).drop range.1)⟩

end Cutting

end SqlOutline.Checked
