/-!
# Keywords

The words with a meaning of their own in a statement. A keyword is recognised in any mix
of ASCII upper and lower case, and in no other form.
-/

namespace SqlOutline

/-- A word with a meaning of its own. -/
inductive Keyword where
  | alter | as | by | create | cross | delete | desc | drop | from | full | group | having
  | inner | insert | join | left | limit | natural | on | order | outer | right | select
  | update | where
  deriving DecidableEq, Repr

namespace Keyword

/-- The upper case spelling. -/
def name : Keyword → String
  | .alter => "ALTER"
  | .as => "AS"
  | .by => "BY"
  | .create => "CREATE"
  | .cross => "CROSS"
  | .delete => "DELETE"
  | .desc => "DESC"
  | .drop => "DROP"
  | .from => "FROM"
  | .full => "FULL"
  | .group => "GROUP"
  | .having => "HAVING"
  | .inner => "INNER"
  | .insert => "INSERT"
  | .join => "JOIN"
  | .left => "LEFT"
  | .limit => "LIMIT"
  | .natural => "NATURAL"
  | .on => "ON"
  | .order => "ORDER"
  | .outer => "OUTER"
  | .right => "RIGHT"
  | .select => "SELECT"
  | .update => "UPDATE"
  | .where => "WHERE"

/-- Every keyword, once. -/
def all : List Keyword :=
  [.alter, .as, .by, .create, .cross, .delete, .desc, .drop, .from, .full, .group, .having,
   .inner, .insert, .join, .left, .limit, .natural, .on, .order, .outer, .right, .select,
   .update, .where]

/-- The keyword that a text spells up to ASCII case. -/
def ofText? (cs : List Char) : Option Keyword :=
  all.find? fun keyword => keyword.name.toList == cs.map Char.toUpper

/-- No keyword is missing from the list of all. -/
theorem mem_all (keyword : Keyword) : keyword ∈ all := by
  cases keyword <;> decide

/-- Two keywords never have the same name. -/
theorem name_injective {k l : Keyword} (h : k.name = l.name) : k = l := by
  revert h
  cases k <;> cases l <;> decide

/-- A keyword is found by its name, whose letters may be small. -/
theorem name_of_ofText? {cs : List Char} {keyword : Keyword} (h : ofText? cs = some keyword) :
    keyword.name.toList = cs.map Char.toUpper := by
  have := List.find?_some h
  simpa using this

/-- A text spells a keyword when its upper case form is the keyword's name. -/
theorem ofText?_eq_some_iff {cs : List Char} {keyword : Keyword} :
    ofText? cs = some keyword ↔ cs.map Char.toUpper = keyword.name.toList := by
  constructor
  · intro h
    exact (name_of_ofText? h).symm
  · intro h
    cases hfound : ofText? cs with
    | none =>
      have := List.find?_eq_none.mp hfound keyword (mem_all keyword)
      simp [h] at this
    | some found =>
      have := name_of_ofText? hfound
      rw [h, String.toList_inj] at this
      rw [name_injective this]

end Keyword

end SqlOutline
