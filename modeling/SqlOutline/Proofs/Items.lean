import SqlOutline.Proofs.Enclosed
import SqlOutline.Proofs.Excerpts
import SqlOutline.Proofs.JoinPlaces

/-!
# Items between separators

The depth at a separator is counted from where the run begins, while each item is read by
itself and its depth is counted from its own beginning. The two agree because a run is cut only
where the depth is zero, be it that all parentheses are closed there or that more have been
closed than were open. So items are not cut any further, and two runs behind one another have
the items of both, except that the last item of the one and the first item of the other are
then a single item.

## Main results

* `length_splitTopLevel`, `interleave_splitTopLevel`: items and separators make up the run.
* `splitTopLevel_of_eq_cons`: an item is not cut any further.
* `exists_splitTopLevel_append`: the items of two runs behind one another.
* `forall₂_filterMap`: a list has one entry for each item that is not empty.
* `divides_of_not_isParen`: all of this for every run.
-/

namespace SqlOutline

namespace Lexeme

/-! ### Items and the separators between them -/

/-- The lexemes of a kind that stand outside of parentheses. -/
def topLexemes (token : Token) (run : List Lexeme) : List Lexeme :=
  (run.zipIdx.filter fun (l, i) => l.token = token ∧ depthBefore run i = 0).map (·.1)

/-- Items and separators in turn; what is left over of either comes at the end. -/
def interleave : List (List Lexeme) → List Lexeme → List Lexeme
  | item :: items, l :: separators => item ++ l :: interleave items separators
  | items, [] => items.flatten
  | [], separators => separators

/-- The items between the commas of a list, without the empty ones. -/
def nonemptyItems (run : List Lexeme) : List (List Lexeme) :=
  (splitTopLevel .comma 0 run).filter (· ≠ [])

/-- The separators outside of parentheses in a run that begins at a depth. -/
def separatorsFrom (separator : Token) (depth : Nat) : List Lexeme → List Lexeme
  | [] => []
  | l :: rest =>
    if depth = 0 ∧ l.token = separator then l :: separatorsFrom separator depth rest
    else separatorsFrom separator (l.token.depthAfter depth) rest

variable {separator : Token} {depth : Nat} {l : Lexeme} {run xs ys : List Lexeme}

/-- A separator does not change the depth. -/
theorem depthAfter_of_eq (hseparator : separator.isParen = false) (hl : l.token = separator)
    (depth : Nat) : l.token.depthAfter depth = depth :=
  Token.depthAfter_of_not_isParen (hl ▸ hseparator) depth

/-- A count of the depth along the run finds the separators that the depths at
their indices tell. -/
theorem separatorsFrom_drop (hseparator : separator.isParen = false) {s : Nat}
    (hs : s ≤ run.length) :
    separatorsFrom separator (depthBefore run s) (run.drop s) =
      (((run.drop s).zipIdx s).filter
        fun (l, i) => l.token = separator ∧ depthBefore run i = 0).map (·.1) := by
  induction hn : run.length - s generalizing s with
  | zero =>
      rw [List.drop_of_length_le (by omega)]
      rfl
  | succ n ih =>
      have hlt : s < run.length := by omega
      have hbehind := ih (show s + 1 ≤ run.length from hlt) (by omega)
      rw [depthBefore_succ hlt] at hbehind
      rw [List.drop_eq_getElem_cons hlt, separatorsFrom, List.zipIdx_cons, List.filter_cons]
      by_cases htop : depthBefore run s = 0 ∧ run[s].token = separator
      · rw [depthAfter_of_eq hseparator htop.2] at hbehind
        rw [if_pos htop, if_pos (by simp [htop]), hbehind]
        rfl
      · rw [if_neg htop, if_neg (by simpa [and_comm] using htop), hbehind]

/-- Counted from outside of parentheses the separators are those of the run. -/
theorem separatorsFrom_zero (hseparator : separator.isParen = false) (run : List Lexeme) :
    separatorsFrom separator 0 run = topLexemes separator run :=
  separatorsFrom_drop hseparator (Nat.zero_le run.length)

/-- There is one item more than there are separators. -/
theorem length_splitTopLevel (separator : Token) (depth : Nat) (run : List Lexeme) :
    (splitTopLevel separator depth run).length =
      (separatorsFrom separator depth run).length + 1 := by
  induction run generalizing depth with
  | nil => rfl
  | cons l run ih =>
      rw [splitTopLevel, separatorsFrom]
      split_ifs
      · rw [List.length_cons, List.length_cons, ih]
      · rw [List.length_modifyHead, ih]

/-- A lexeme in front of the first item is in front of the whole. -/
theorem interleave_modifyHead_cons (l : Lexeme) (item : List Lexeme)
    (items : List (List Lexeme)) (separators : List Lexeme) :
    interleave ((l :: item) :: items) separators =
      l :: interleave (item :: items) separators := by
  cases separators <;> rfl

/-- There is always a first item, although it may be empty. -/
theorem exists_splitTopLevel_eq_cons (separator : Token) (depth : Nat) (run : List Lexeme) :
    ∃ first rest, splitTopLevel separator depth run = first :: rest := by
  rcases splitTopLevel_cases separator depth run with hone | ⟨item, -, rest, -, hsplit⟩
  · exact ⟨run, [], hone⟩
  · exact ⟨item, _, hsplit⟩

/-- Items with the separators between them are the run. -/
theorem interleave_splitTopLevel (separator : Token) (depth : Nat) (run : List Lexeme) :
    interleave (splitTopLevel separator depth run) (separatorsFrom separator depth run) =
      run := by
  induction run generalizing depth with
  | nil => rfl
  | cons l run ih =>
      rw [splitTopLevel, separatorsFrom]
      split_ifs
      · rw [interleave, ih, List.nil_append]
      · have hrest := ih (l.token.depthAfter depth)
        obtain ⟨first, rest, hsplit⟩ :=
          exists_splitTopLevel_eq_cons separator (l.token.depthAfter depth) run
        rw [hsplit] at hrest ⊢
        rw [List.modifyHead_cons, interleave_modifyHead_cons, hrest]

/-- An item is not cut any further: the first one begins where the run does, and the others
begin at depth zero. -/
theorem splitTopLevel_of_eq_cons {first : List Lexeme} {rest : List (List Lexeme)}
    (h : splitTopLevel separator depth run = first :: rest) :
    splitTopLevel separator depth first = [first] ∧
      ∀ item ∈ rest, splitTopLevel separator 0 item = [item] := by
  induction run generalizing depth first rest with
  | nil =>
      obtain ⟨rfl, rfl⟩ := List.cons.inj h
      exact ⟨rfl, by simp⟩
  | cons l run ih =>
      rw [splitTopLevel] at h
      split_ifs at h with hcut
      · obtain ⟨rfl, rfl⟩ := List.cons.inj h
        obtain ⟨second, more, hsplit⟩ := exists_splitTopLevel_eq_cons separator depth run
        obtain ⟨hsecond, hmore⟩ := ih hsplit
        refine ⟨rfl, ?_⟩
        rw [hsplit, List.forall_mem_cons, ← hcut.1]
        exact ⟨hsecond, by rwa [hcut.1]⟩
      · obtain ⟨item, more, hsplit⟩ :=
          exists_splitTopLevel_eq_cons separator (l.token.depthAfter depth) run
        obtain ⟨hitem, hmore⟩ := ih hsplit
        rw [hsplit, List.modifyHead_cons] at h
        obtain ⟨rfl, rfl⟩ := List.cons.inj h
        refine ⟨?_, hmore⟩
        rw [splitTopLevel, if_neg hcut, hitem, List.modifyHead_cons]

/-! ### Runs behind one another -/

/-- The items of two runs behind one another are those of both, but the last item of the first
run goes on in the first item of the second. -/
theorem exists_splitTopLevel_append (hseparator : separator.isParen = false) (depth : Nat)
    (xs ys : List Lexeme) :
    ∃ front last first back, splitTopLevel separator depth xs = front ++ [last] ∧
      splitTopLevel separator (depthAfter depth xs) ys = first :: back ∧
      splitTopLevel separator depth (xs ++ ys) = front ++ (last ++ first) :: back := by
  induction xs generalizing depth with
  | nil =>
      obtain ⟨first, back, hsplit⟩ := exists_splitTopLevel_eq_cons separator depth ys
      exact ⟨[], [], first, back, rfl, hsplit, hsplit⟩
  | cons x xs ih =>
      rw [List.cons_append, splitTopLevel, splitTopLevel, depthAfter_cons]
      by_cases hcut : depth = 0 ∧ x.token = separator
      · obtain ⟨front, last, first, back, hxs, hys, happend⟩ := ih depth
        rw [if_pos hcut, if_pos hcut, depthAfter_of_eq hseparator hcut.2, hxs, happend]
        exact ⟨[] :: front, last, first, back, rfl, hys, rfl⟩
      · obtain ⟨front, last, first, back, hxs, hys, happend⟩ := ih (x.token.depthAfter depth)
        rw [if_neg hcut, if_neg hcut, hxs, happend]
        -- the lexeme in front belongs to the first item, which may be the last one as well
        cases front with
        | nil => exact ⟨[], x :: last, first, back, rfl, hys, rfl⟩
        | cons item front => exact ⟨(x :: item) :: front, last, first, back, rfl, hys, rfl⟩

/-- A separator outside of parentheses divides the items in front of it from those behind. -/
theorem splitTopLevel_append_cons (hseparator : separator.isParen = false)
    (hl : l.token = separator) (hdepth : depthAfter depth xs = 0) :
    splitTopLevel separator depth (xs ++ l :: ys) =
      splitTopLevel separator depth xs ++ splitTopLevel separator 0 ys := by
  obtain ⟨front, last, first, back, hxs, hys, happend⟩ :=
    exists_splitTopLevel_append hseparator depth xs (l :: ys)
  rw [hdepth, splitTopLevel, if_pos ⟨rfl, hl⟩] at hys
  obtain ⟨rfl, rfl⟩ := List.cons.inj hys
  rw [happend, hxs, List.append_nil, List.append_assoc, List.singleton_append]

/-- What stands in parentheses stands in one item. -/
theorem exists_splitTopLevel_append_cons (hseparator : separator.isParen = false)
    (hdepth : 0 < depthAfter depth xs) (l : Lexeme) (ys : List Lexeme) :
    ∃ front last first back, splitTopLevel separator depth xs = front ++ [last] ∧
      splitTopLevel separator depth (xs ++ l :: ys) =
        front ++ (last ++ l :: first) :: back := by
  obtain ⟨front, last, first, back, hxs, hys, happend⟩ :=
    exists_splitTopLevel_append hseparator depth xs (l :: ys)
  obtain ⟨item, rest, hsplit⟩ :=
    exists_splitTopLevel_eq_cons separator (l.token.depthAfter (depthAfter depth xs)) ys
  rw [splitTopLevel, if_neg (by omega), hsplit, List.modifyHead_cons] at hys
  obtain ⟨rfl, rfl⟩ := List.cons.inj hys
  exact ⟨front, last, item, rest, hxs, happend⟩

end Lexeme

open Lexeme (cutTopLevel? depthAfter interleave nonemptyItems splitTopLevel topLexemes)

/-! ### Lists with an entry for each item -/

/-- A reader that has nothing to read in an empty item, and in no other one, reads one entry
from each of the others, in their order. -/
theorem forall₂_filterMap {α : Type} {read : List Lexeme → Option α}
    (hread : ∀ item, read item = none ↔ item = []) (items : List (List Lexeme)) :
    List.Forall₂ (fun item entry => read item = some entry) (items.filter (· ≠ []))
      (items.filterMap read) := by
  induction items with
  | nil => exact .nil
  | cons item items ih =>
      cases hitem : read item with
      | none =>
          rw [List.filterMap_cons_none hitem, (hread item).mp hitem,
            List.filter_cons_of_neg (by simp)]
          exact ih
      | some entry =>
          have hne : item ≠ [] := by
            intro hnil
            rw [(hread item).mpr hnil] at hitem
            cases hitem
          rw [List.filterMap_cons_some hitem, List.filter_cons_of_pos (by simpa using hne)]
          exact .cons hitem ih

/-- Whether a column is the text of an item. An asterisk alone stands for all columns. -/
def IsColumn (item : List Lexeme) (column : String) : Prop :=
  Lexeme.text? item = some column ∨ item.map (·.token) = [.asterisk] ∧ column = "*"

/-- Whether the columns, the tables and the sort keys in a run are one for each of its items
that are not empty, in their order. A run with a join is no list of tables. -/
structure ReadsItems (run : List Lexeme) : Prop where
  columns : List.Forall₂ IsColumn (nonemptyItems run)
    ((Selection.ofLexemes? run).elim [] (·.columns))
  tables : cutTopLevel? .join 0 run = none →
    List.Forall₂ (fun item table => TableReference.ofLexemes? item = some table)
      (nonemptyItems run) ((readTableList run).1.getD [])
  sortKeys : List.Forall₂ (fun item key => SortKey.ofLexemes? item = some key)
    (nonemptyItems run) ((SortKey.listOfLexemes? run).getD [])

/-- An asterisk alone is one item. -/
theorem nonemptyItems_of_asterisk {run : List Lexeme} (h : run.map (·.token) = [.asterisk]) :
    nonemptyItems run = [run] := by
  obtain ⟨l, rfl, htoken⟩ := List.map_eq_singleton_iff.mp h
  simp [nonemptyItems, splitTopLevel, htoken]

/-- Each item that is not empty is a column, in order. -/
theorem Selection.forall₂_columns (run : List Lexeme) :
    List.Forall₂ IsColumn (nonemptyItems run) ((ofLexemes? run).elim [] (·.columns)) := by
  rw [ofLexemes?]
  split_ifs with hall
  · rw [nonemptyItems_of_asterisk hall]
    exact .cons (.inr ⟨hall, rfl⟩) .nil
  · have htexts :=
      forall₂_filterMap (fun _ => Lexeme.text?_eq_none_iff) (splitTopLevel .comma 0 run)
    have hcolumns : ((nonempty? ((splitTopLevel .comma 0 run).filterMap Lexeme.text?)).map
        fun columns => (⟨columns, false⟩ : Selection)).elim [] (·.columns) =
          (splitTopLevel .comma 0 run).filterMap Lexeme.text? := by
      generalize (splitTopLevel .comma 0 run).filterMap Lexeme.text? = columns
      cases columns <;> rfl
    rw [hcolumns]
    exact htexts.imp fun _ _ htext => .inl htext

/-- A list has one entry for each item that is not empty. -/
theorem readsItems (run : List Lexeme) : ReadsItems run where
  columns := Selection.forall₂_columns run
  tables hjoin := by
    rw [readTableList, hjoin, if_neg (by simp), getD_nonempty?]
    exact forall₂_filterMap (fun _ => TableReference.ofLexemes?_eq_none_iff) _
  sortKeys := by
    rw [SortKey.listOfLexemes?, getD_nonempty?]
    exact forall₂_filterMap (fun _ => SortKey.ofLexemes?_eq_none_iff) _

/-! ### Every run -/

/-- What holds of the items between the separators of a run. -/
structure Divides (separator : Token) (run : List Lexeme) : Prop where
  /-- There is one more of them than there are separators outside of parentheses. -/
  length : (splitTopLevel separator 0 run).length = (topLexemes separator run).length + 1
  /-- In turn with these separators they are the run. -/
  interleave : interleave (splitTopLevel separator 0 run) (topLexemes separator run) = run
  /-- None of them is cut any further. -/
  single : ∀ item ∈ splitTopLevel separator 0 run, splitTopLevel separator 0 item = [item]
  /-- A separator outside of parentheses stands between the items of what is on its sides. -/
  between : ∀ xs l ys, run = xs ++ l :: ys → l.token = separator → depthAfter 0 xs = 0 →
    splitTopLevel separator 0 run =
      splitTopLevel separator 0 xs ++ splitTopLevel separator 0 ys
  /-- One in parentheses stands in the item that it would divide. -/
  inside : ∀ xs l ys, run = xs ++ l :: ys → l.token = separator → 0 < depthAfter 0 xs →
    ∃ front last first back, splitTopLevel separator 0 xs = front ++ [last] ∧
      splitTopLevel separator 0 run = front ++ (last ++ l :: first) :: back

/-- A run is divided at its separators, and each list in it has one entry for each item. -/
theorem divides_of_not_isParen {separator : Token} (hseparator : separator.isParen = false)
    (run : List Lexeme) : Divides separator run ∧ ReadsItems run := by
  have hseparators := Lexeme.separatorsFrom_zero hseparator run
  refine ⟨?_, readsItems run⟩
  constructor
  case length =>
      rw [← hseparators]
      exact Lexeme.length_splitTopLevel separator 0 run
  case interleave =>
      rw [← hseparators]
      exact Lexeme.interleave_splitTopLevel separator 0 run
  case single =>
      obtain ⟨first, rest, hsplit⟩ := Lexeme.exists_splitTopLevel_eq_cons separator 0 run
      rw [hsplit, List.forall_mem_cons]
      exact Lexeme.splitTopLevel_of_eq_cons hsplit
  case between =>
      intro xs l ys hrun hl hdepth
      rw [hrun]
      exact Lexeme.splitTopLevel_append_cons hseparator hl hdepth
  case inside =>
      intro xs l ys hrun _ hdepth
      rw [hrun]
      exact Lexeme.exists_splitTopLevel_append_cons hseparator hdepth l ys

/-- Commas in parentheses, behind a surplus closing parenthesis, and with
nothing between them. -/
theorem divides_of_not_isParen_commas :
    Token.comma.isParen = false ∧
      Divides .comma (Lexeme.ofText "f(a, (b, c))), d,, e".toList) ∧
      ReadsItems (Lexeme.ofText "f(a, (b, c))), d,, e".toList) := by
  have hcomma : Token.comma.isParen = false := rfl
  exact ⟨hcomma, divides_of_not_isParen hcomma _⟩

end SqlOutline
