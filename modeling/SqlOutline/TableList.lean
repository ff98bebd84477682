import SqlOutline.Lexeme.Words
import SqlOutline.Nesting
import SqlOutline.Query

/-!
# Table lists

The table list of a statement is either tables between commas, or one leading table with
joins behind it. A join begins with the longest row of words that introduces one and ends
where the next join begins. Its table and its condition are on the two sides of the first
`ON` outside of parentheses.
-/

namespace SqlOutline

namespace TableReference

/-- The name given to a table by the words after it, of which the first may be `AS`. -/
def aliasOf : List (List Lexeme) → Option String
  | [] => none
  | word :: rest =>
    if Lexeme.isKeywordWord .as word then rest.head?.bind Lexeme.text? else Lexeme.text? word

/-- The table that a run names: one word, optionally with a name given to it. What comes
after that is left out. -/
def ofLexemes? (run : List Lexeme) : Option TableReference :=
  match Lexeme.words run with
  | [] => none
  | word :: rest => (Lexeme.text? word).map fun name => ⟨name, aliasOf rest⟩

end TableReference

namespace JoinType

/-- The rows of words that introduce a join, a longer row before a shorter one that begins
the same way. -/
def introductions : List (List Keyword × JoinType) :=
  [([.inner, .join], .inner),
   ([.left, .outer, .join], .left),
   ([.left, .join], .left),
   ([.right, .outer, .join], .right),
   ([.right, .join], .right),
   ([.full, .outer, .join], .full),
   ([.full, .join], .full),
   ([.cross, .join], .cross),
   ([.natural, .join], .other Keyword.natural.name),
   ([.join], .inner)]

/-- Whether a run begins with the given keywords. -/
def beginsWith : List Keyword → List Lexeme → Bool
  | [], _ => true
  | _ :: _, [] => false
  | keyword :: keywords, l :: rest =>
    l.token = .keyword keyword && beginsWith keywords rest

/-- The kind of join that begins at the front of a run, with the number of words that
introduce it. -/
def introducedBy? (run : List Lexeme) : Option (JoinType × Nat) :=
  (introductions.find? fun (keywords, _) => beginsWith keywords run).map
    fun (keywords, type) => (type, keywords.length)

end JoinType

/-- One join of a table list: its introducing words and what stands between them and the
next join. -/
structure JoinPart where
  type : JoinType
  introduction : List Lexeme
  body : List Lexeme
  deriving DecidableEq, Repr

/-- A table list cut where its joins begin. -/
structure JoinChain where
  lead : List Lexeme
  parts : List JoinPart
  deriving DecidableEq, Repr

namespace JoinChain

/-- Cuts a run that begins at depth `depth`. -/
def ofLexemes (depth : Nat) : List Lexeme → JoinChain
  | [] => ⟨[], []⟩
  | l :: rest =>
    match if depth = 0 then JoinType.introducedBy? (l :: rest) else none with
    | some (type, count) =>
      let chain := ofLexemes 0 (rest.drop (count - 1))
      ⟨[], ⟨type, l :: rest.take (count - 1), chain.lead⟩ :: chain.parts⟩
    | none =>
      let chain := ofLexemes (l.token.depthAfter depth) rest
      ⟨l :: chain.lead, chain.parts⟩
termination_by run => run.length
decreasing_by
  · simp only [List.length_drop, List.length_cons]; omega
  · simp

end JoinChain

/-- The join that a part of a table list stands for, unless no table stands
before its condition. -/
def JoinPart.toJoin? (part : JoinPart) : Option Join :=
  match Lexeme.cutTopLevel? .on 0 part.body with
  | some (table, condition) =>
    (TableReference.ofLexemes? table).map fun table =>
      ⟨part.type, table, Lexeme.text? condition⟩
  | none => (TableReference.ofLexemes? part.body).map fun table => ⟨part.type, table, none⟩

/-- The list with its elements, or nothing if it has none. -/
def nonempty? {α : Type} : List α → Option (List α)
  | [] => none
  | a :: rest => some (a :: rest)

/-- The tables and the joins of a table list. -/
def readTableList (run : List Lexeme) :
    Option (List TableReference) × Option (List Join) :=
  if (Lexeme.cutTopLevel? .join 0 run).isSome then
    let chain := JoinChain.ofLexemes 0 run
    let lead := (Lexeme.splitTopLevel .comma 0 chain.lead).head?.bind TableReference.ofLexemes?
    (lead.map fun table => [table], nonempty? (chain.parts.filterMap JoinPart.toJoin?))
  else
    let items := Lexeme.splitTopLevel .comma 0 run
    (nonempty? (items.filterMap TableReference.ofLexemes?), none)

end SqlOutline
