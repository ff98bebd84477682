import SqlOutline.Proofs.Fragment
import SqlOutline.Proofs.Items

/-!
# Sort keys that are expressions

The items of a list of sort keys are found by the commas outside of parentheses, while the sort
key in an item is found by the blanks. So an expression is kept whole, and its direction is
that of the word behind it, if no blank or comment stands in it. Otherwise the sort key ends at
the first one, inside of parentheses too, and the direction is looked for right behind this
place.

## Main results

* `SortKey.Item.StandsIn.keysOf_eq`: the other items of a list have no bearing on an item.
* `SortKey.Item.exists_isReadAs`: what is read of an item.
* `Query.exists_sortKey_ofText`: an item of the sort keys of a statement is one key of its
  outline.
-/

namespace SqlOutline

open Lexeme (depthAfter depthAfter_cons isFree isFree_append splitTopLevel spelled words)

namespace Lexeme

variable {depth : Nat} {l : Lexeme} {xs ys : List Lexeme}

/-- A run whose parentheses are closed in pairs comes back to the depth where it began. -/
theorem depthAfter_of_isFree {stops : Token → Bool} (h : isFree stops depth xs = true) :
    depthAfter depth xs = 0 := by
  induction xs generalizing depth with
  | nil => exact beq_iff_eq.mp h
  | cons x xs ih => exact ih (isFree_cons.mp h).2

/-- Whether lexemes touch wherever no parenthesis is open between them. -/
def touchesAtTop : Nat → List Lexeme → Bool
  | depth, l :: m :: rest =>
    (l.token.depthAfter depth != 0 || m.touchesPrevious) &&
      touchesAtTop (l.token.depthAfter depth) (m :: rest)
  | _, _ => true

/-- A word goes on as long as lexemes touch. -/
theorem words_cons (l : Lexeme) (run : List Lexeme) :
    words (l :: run) =
      (l :: run.takeWhile touchesPrevious) :: words (run.dropWhile touchesPrevious) := by
  have hrest : ∀ m ∈ (run.dropWhile touchesPrevious).head?, m.touchesPrevious = false := by
    intro m hm
    have hstop := List.head?_dropWhile_not touchesPrevious run
    rw [Option.mem_def.mp hm] at hstop
    simpa using hstop
  have happend := words_append (List.cons_ne_nil l (run.takeWhile touchesPrevious))
    (fun _ hm => List.mem_takeWhile_imp hm) hrest
  rwa [List.cons_append, List.takeWhile_append_dropWhile] at happend

/-- Whether a run begins with `DESC` as a word of its own. -/
def BeginsWithDesc (run : List Lexeme) : Prop :=
  ∃ l rest, run = l :: rest ∧ l.token = .keyword .desc ∧
    ∀ m ∈ rest.head?, m.touchesPrevious = false

/-- The first word is `DESC` if the run begins with it as a word of its own. -/
theorem any_head?_words (run : List Lexeme) :
    (words run).head?.any (isKeywordWord .desc) = true ↔ BeginsWithDesc run := by
  cases run with
  | nil => simp [words, BeginsWithDesc]
  | cons l rest =>
      rw [words_cons, List.head?_cons, Option.any_some]
      cases rest with
      | nil => simp [isKeywordWord, BeginsWithDesc]
      | cons m rest =>
          cases htouch : m.touchesPrevious with
          | true => simp [isKeywordWord, BeginsWithDesc, htouch]
          | false => simp [isKeywordWord, BeginsWithDesc, htouch]

end Lexeme

open Lexeme (BeginsWithDesc)

namespace SortKey

/-! ### Lists of sort keys -/

/-- The sort keys of a run. -/
def keysOf (run : List Lexeme) :
    List SortKey := (splitTopLevel .comma 0 run).filterMap ofLexemes?

/-- The keys on the two sides of a comma are read each by themselves. -/
theorem keysOf_append_comma {run behind : List Lexeme} {l : Lexeme} (hl : l.token = .comma)
    (hdepth : depthAfter 0 run = 0) :
    keysOf (run ++ l :: behind) = keysOf run ++ keysOf behind := by
  rw [keysOf, Lexeme.splitTopLevel_append_cons rfl hl hdepth, List.filterMap_append]
  rfl

/-- An empty run has no keys. -/
theorem keysOf_nil : keysOf [] = [] := rfl

/-- Nothing in front of a comma is no key. -/
theorem keysOf_comma {behind : List Lexeme} {l : Lexeme} (hl : l.token = .comma) :
    keysOf (l :: behind) = keysOf behind := by
  have happend : keysOf ([] ++ l :: behind) = keysOf [] ++ keysOf behind :=
    keysOf_append_comma hl rfl
  exact happend

/-- A run without a comma outside of its parentheses is one item. -/
theorem keysOf_of_isFree {run : List Lexeme} (h : isFree (· == .comma) 0 run = true) :
    keysOf run = (ofLexemes? run).toList := by
  rw [keysOf, Lexeme.splitTopLevel_of_isFree h]
  cases hkey : ofLexemes? run <;> simp [hkey]

/-! ### Items -/

/-- Whether a lexeme is `DESC` or `ASC` up to ASCII case, behind a blank or a comment. -/
def IsDirection (l : Lexeme) : Prop :=
  l.touchesPrevious = false ∧
    (l.token = .keyword .desc ∨
      l.token = .identifier ∧ l.text.map Char.toUpper = ['A', 'S', 'C'])

/-- An item of a list of sort keys: an expression with nothing, or with a direction, behind it.
In the expression parentheses are closed in pairs, and no comma stands outside of them. -/
structure Item where
  expression : List Lexeme
  direction : Option Lexeme
  nonempty : expression ≠ []
  isFree : Lexeme.isFree (· == .comma) 0 expression = true
  isDirection : ∀ l ∈ direction, IsDirection l

namespace Item

/-- The lexemes of an item. -/
def run (item : Item) : List Lexeme := item.expression ++ item.direction.toList

/-- An expression in a text, with `DESC` behind it. -/
def descending (text : String) (nonempty : Lexeme.ofText text.toList ≠ [])
    (isFree : Lexeme.isFree (· == .comma) 0 (Lexeme.ofText text.toList) = true) : Item where
  expression := Lexeme.ofText text.toList
  direction := some ⟨[' '], .keyword .desc, ['D', 'E', 'S', 'C']⟩
  nonempty
  isFree
  isDirection l hl := by
    obtain rfl := Option.some_inj.mp hl
    exact ⟨rfl, .inl rfl⟩

/-- Whether an item stands between two parts of a list, from one comma outside of parentheses,
or the beginning of the list, to another one, or its end. -/
structure StandsIn (item : Item) (list front back : List Lexeme) : Prop where
  list : list = front ++ (item.run ++ back)
  front : front = [] ∨ ∃ earlier l, front = earlier ++ [l] ∧ l.token = .comma ∧
    depthAfter 0 earlier = 0
  back : back = [] ∨ ∃ l later, back = l :: later ∧ l.token = .comma

/-- Whether the whole expression is the sort key, with the direction behind it. -/
def IsWhole (item : Item) (key : SortKey) : Prop :=
  key.column = spelled item.expression ∧
    (key.direction = .descending ↔ ∃ l ∈ item.direction, l.token = .keyword .desc)

/-- What is read of an item: the whole expression if all its lexemes touch, and else its part
up to the first place where two do not touch, with the direction that stands there. -/
structure IsReadAs (item : Item) (key : SortKey) : Prop where
  whole : (∀ l ∈ item.expression.tail, l.touchesPrevious = true) → item.IsWhole key
  broken : ∀ word rest, item.expression = word ++ rest → word ≠ [] → rest ≠ [] →
    (∀ l ∈ word.tail, l.touchesPrevious = true) →
    (∀ l ∈ rest.head?, l.touchesPrevious = false) →
      key.column = spelled word ∧
        (key.direction = .descending ↔ BeginsWithDesc (rest ++ item.direction.toList))

end Item

/-- The first word of a run is its sort key. -/
theorem ofLexemes?_append {word rest : List Lexeme} (hne : word ≠ [])
    (hword : ∀ l ∈ word.tail, l.touchesPrevious = true)
    (hrest : ∀ l ∈ rest.head?, l.touchesPrevious = false) :
    ∃ direction, ofLexemes? (word ++ rest) = some ⟨spelled word, direction⟩ ∧
      (direction = .descending ↔ BeginsWithDesc rest) := by
  refine ⟨if (words rest).head?.any (Lexeme.isKeywordWord .desc) then .descending else .ascending,
    ?_, ?_⟩
  · rw [ofLexemes?, Lexeme.words_append hne hword hrest]
    dsimp only
    rw [Lexeme.text?_of_ne_nil hne, Option.map_some]
  · rw [← Lexeme.any_head?_words]
    split_ifs with hdesc
    · exact iff_of_true rfl hdesc
    · exact iff_of_false (by simp) hdesc

namespace Item

variable {item : Item} {list front back : List Lexeme}

/-- No comma stands outside of the parentheses of an item. -/
theorem isFree_run (item : Item) : Lexeme.isFree (· == .comma) 0 item.run = true := by
  refine isFree_append item.isFree ?_
  cases hdirection : item.direction with
  | none => rfl
  | some l =>
      obtain ⟨-, hl⟩ := item.isDirection l hdirection
      rcases hl with hl | ⟨hl, -⟩ <;> simp [Lexeme.isFree, hl, Token.depthAfter]

/-- What is read of an item. -/
theorem exists_isReadAs (item : Item) :
    ∃ key, ofLexemes? item.run = some key ∧ item.IsReadAs key := by
  have hne : item.run ≠ [] := List.append_ne_nil_of_left_ne_nil item.nonempty _
  obtain ⟨key, hkey⟩ := Option.ne_none_iff_exists'.mp (mt ofLexemes?_eq_none_iff.mp hne)
  have hspace : ∀ l ∈ item.direction.toList.head?, l.touchesPrevious = false := by
    cases hdirection : item.direction with
    | none => simp
    | some d =>
        intro l hl
        obtain rfl : d = l := Option.some_inj.mp hl
        exact (item.isDirection d hdirection).1
  refine ⟨key, hkey, ⟨fun htouch => ?_, fun word rest hsplit hword hrest htouch hspace => ?_⟩⟩
  · -- the expression is the first word, and the direction is the second one
    obtain ⟨direction, hread, hdirection⟩ := ofLexemes?_append item.nonempty htouch hspace
    obtain rfl := Option.some_inj.mp (hkey.symm.trans hread)
    refine ⟨rfl, hdirection.trans ?_⟩
    cases item.direction <;> simp [BeginsWithDesc]
  · -- the first word ends in the expression
    have hhead : ∀ l ∈ (rest ++ item.direction.toList).head?, l.touchesPrevious = false := by
      rwa [List.head?_append_of_ne_nil _ hrest]
    obtain ⟨direction, hread, hdirection⟩ := ofLexemes?_append hword htouch hhead
    rw [← List.append_assoc, ← hsplit] at hread
    obtain rfl := Option.some_inj.mp (hkey.symm.trans hread)
    exact ⟨rfl, hdirection⟩

/-- The other items of a list have no bearing on an item. -/
theorem StandsIn.keysOf_eq (h : item.StandsIn list front back) :
    keysOf list = keysOf front ++ ((ofLexemes? item.run).toList ++ keysOf back) := by
  have hbehind : keysOf (item.run ++ back) = (ofLexemes? item.run).toList ++ keysOf back := by
    rw [← keysOf_of_isFree item.isFree_run]
    rcases h.back with rfl | ⟨l, later, rfl, hl⟩
    · rw [List.append_nil, keysOf_nil, List.append_nil]
    · rw [keysOf_append_comma hl (Lexeme.depthAfter_of_isFree item.isFree_run),
        keysOf_comma hl]
  rw [h.list, ← hbehind]
  rcases h.front with rfl | ⟨earlier, l, rfl, hl, hdepth⟩
  · rfl
  · rw [List.append_assoc, List.singleton_append, keysOf_append_comma hl hdepth,
      keysOf_append_comma hl hdepth, keysOf_nil, List.append_nil]

end Item

end SortKey

namespace Query

/-- An item of the sort keys of a statement is one key of its outline, between those of the
items in front of it and of those behind. -/
theorem exists_sortKey_ofText {sql : String} {item : SortKey.Item}
    {list front back : List Lexeme} (hkind : (ofText sql).kind = .select)
    (hlist : (Clauses.ofLexemes (Lexeme.ofText (trimBlanks sql.toList))).sortKeys = some list)
    (h : item.StandsIn list front back) :
    ∃ key, item.IsReadAs key ∧
      (ofText sql).sortKeys = some (SortKey.keysOf front ++ key :: SortKey.keysOf back) := by
  obtain ⟨key, hkey, hread⟩ := item.exists_isReadAs
  have hkeys := h.keysOf_eq
  rw [hkey, Option.toList_some, List.singleton_append] at hkeys
  refine ⟨key, hread, ?_⟩
  rw [ofText, ofLexemes] at hkind ⊢
  split_ifs at hkind ⊢ with hselect
  · rw [ofClauses]
    dsimp only
    rw [hlist, Option.bind_some, SortKey.listOfLexemes?, ← SortKey.keysOf, hkeys]
    cases SortKey.keysOf front <;> rfl
  · exact absurd hkind hselect

/-- A call without a blank in it, between two other sort keys. -/
theorem exists_sortKey_ofText_call :
    let sql := "SELECT a FROM t ORDER BY b DESC, f(x,y) DESC, c"
    let item := SortKey.Item.descending " f(x,y)" (by decide +kernel) (by decide +kernel)
    let front := Lexeme.ofText " b DESC,".toList
    let back := Lexeme.ofText ", c".toList
    let list := front ++ (item.run ++ back)
    (ofText sql).kind = .select ∧
      (Clauses.ofLexemes (Lexeme.ofText (trimBlanks sql.toList))).sortKeys = some list ∧
      item.StandsIn list front back ∧ ∃ key, item.IsReadAs key ∧
        (ofText sql).sortKeys = some (SortKey.keysOf front ++ key :: SortKey.keysOf back) := by
  intro sql item front back list
  have hkind : (ofText sql).kind = .select := by decide +kernel
  have hlist : (Clauses.ofLexemes (Lexeme.ofText (trimBlanks sql.toList))).sortKeys =
      some list := by
    decide +kernel
  have hitem : item.StandsIn list front back := by
    refine ⟨rfl, .inr ⟨Lexeme.ofText " b DESC".toList, ⟨[], .comma, [',']⟩, ?_, rfl, ?_⟩,
      .inr ⟨⟨[], .comma, [',']⟩, Lexeme.ofText " c".toList, ?_, rfl⟩⟩
    · decide +kernel
    · decide +kernel
    · decide +kernel
  exact ⟨hkind, hlist, hitem, exists_sortKey_ofText hkind hlist hitem⟩

/-- A blank inside of a call ends the sort key there. -/
theorem not_isWhole_of_blank_in_call :
    ¬ ∀ (sql : String) (item : SortKey.Item) (list front back : List Lexeme),
      (ofText sql).kind = .select →
      (Clauses.ofLexemes (Lexeme.ofText (trimBlanks sql.toList))).sortKeys = some list →
      item.StandsIn list front back → Lexeme.touchesAtTop 0 item.expression = true →
      ∃ key, item.IsWhole key ∧
        (ofText sql).sortKeys = some (SortKey.keysOf front ++ key :: SortKey.keysOf back) := by
  intro h
  let item := SortKey.Item.descending " COALESCE(a, b)" (by decide +kernel) (by decide +kernel)
  obtain ⟨key, ⟨hcolumn, -⟩, hkeys⟩ :=
    h "SELECT a FROM t ORDER BY COALESCE(a, b) DESC" item item.run [] [] (by decide +kernel)
      (by decide +kernel) ⟨by simp, .inl rfl, .inl rfl⟩ (by decide +kernel)
  have hread : (ofText "SELECT a FROM t ORDER BY COALESCE(a, b) DESC").sortKeys =
      some [⟨"COALESCE(a,", .ascending⟩] := by
    decide +kernel
  rw [hread, SortKey.keysOf_nil, List.nil_append, Option.some_inj, List.cons.injEq] at hkeys
  rw [← hkeys.1] at hcolumn
  exact absurd hcolumn (by decide +kernel)

end Query

end SqlOutline
