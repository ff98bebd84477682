import Mathlib.Data.List.Basic
import SqlOutline.Clause
import SqlOutline.TableList

/-!
# Runs that no separator cuts

A run is free of some tokens when its parentheses open and close in pairs, never closing
below the depth where the run begins, and none of those tokens stands outside of them. The
scans of a statement pass over a free run as a whole: they only put it in front of what they
find behind it. This is said once for each scan.

## Main results

* `splitTopLevel_append`, `cutTopLevel?_append`: separators and keywords are looked for
  behind a free run.
* `Section.bodies_append`: no clause begins or ends inside a free run.
* `JoinChain.ofLexemes_append`: no join begins inside a run that is free of `JOIN`.
-/

namespace SqlOutline

/-- Whether a token can begin or end a clause. -/
def Token.isBoundary : Token → Bool
  | .semicolon => true
  | .keyword .from | .keyword .where | .keyword .group | .keyword .having => true
  | .keyword .order | .keyword .limit => true
  | _ => false

/-- A keyword is no parenthesis. -/
theorem Token.depthAfter_of_isAnyKeyword {token : Token} (h : token.isAnyKeyword = true)
    (depth : Nat) : token.depthAfter depth = depth := by
  cases token <;> simp_all [Token.isAnyKeyword, Token.depthAfter]

namespace Lexeme

/-- Whether a run that begins at depth `depth` comes back to depth zero without closing below
it and has no token of a class at depth zero. -/
def isFree (stops : Token → Bool) : Nat → List Lexeme → Bool
  | depth, [] => depth == 0
  | depth, l :: rest =>
    (depth != 0 || l.token != .rightParen && !stops l.token) &&
      isFree stops (l.token.depthAfter depth) rest

variable {stops more : Token → Bool} {depth : Nat} {l : Lexeme} {xs ys : List Lexeme}

/-- A run is free of stops if its first lexeme is and the others are at their depth. -/
theorem isFree_cons :
    isFree stops depth (l :: xs) = true ↔
      (depth = 0 → l.token ≠ .rightParen ∧ stops l.token = false) ∧
        isFree stops (l.token.depthAfter depth) xs = true := by
  by_cases hdepth : depth = 0 <;> simp [isFree, hdepth]

/-- A run that is free of some tokens is free of fewer. -/
theorem isFree_mono (h : isFree stops depth xs = true)
    (hmore : ∀ token, more token = true → stops token = true) :
    isFree more depth xs = true := by
  induction xs generalizing depth with
  | nil => exact h
  | cons l xs ih =>
      rw [isFree_cons] at h ⊢
      refine ⟨fun hdepth => ⟨(h.1 hdepth).1, ?_⟩, ih h.2⟩
      have hstop := (h.1 hdepth).2
      by_contra hne
      rw [hmore _ (Bool.of_not_eq_false hne)] at hstop
      exact absurd hstop (by decide)

/-- Two runs that are free of stops are so together. -/
theorem isFree_append (hxs : isFree stops depth xs = true) (hys : isFree stops 0 ys = true) :
    isFree stops depth (xs ++ ys) = true := by
  induction xs generalizing depth with
  | nil =>
      obtain rfl : depth = 0 := by simpa [isFree] using hxs
      exact hys
  | cons l xs ih =>
      rw [List.cons_append, isFree_cons] at *
      exact ⟨hxs.1, ih hxs.2⟩

/-! ### Separators and keywords -/

/-- A run without separators belongs to the first item of what is behind it. -/
theorem splitTopLevel_append {separator : Token}
    (h : isFree (· == separator) depth xs = true) :
    splitTopLevel separator depth (xs ++ ys) =
      (splitTopLevel separator 0 ys).modifyHead (xs ++ ·) := by
  induction xs generalizing depth with
  | nil =>
      obtain rfl : depth = 0 := by simpa [isFree] using h
      rw [List.nil_append]
      cases splitTopLevel separator 0 ys <;> rfl
  | cons l xs ih =>
      rw [isFree_cons] at h
      have hpass : ¬ (depth = 0 ∧ l.token = separator) := by
        rintro ⟨hdepth, rfl⟩
        simpa using (h.1 hdepth).2
      rw [List.cons_append, splitTopLevel, if_neg hpass, ih h.2]
      cases splitTopLevel separator 0 ys <;> rfl

/-- A run without a separator outside of its parentheses is one part. -/
theorem splitTopLevel_of_isFree {separator : Token}
    (h : isFree (· == separator) depth xs = true) :
    splitTopLevel separator depth xs = [xs] := by
  have happend : splitTopLevel separator depth (xs ++ []) = _ := splitTopLevel_append h
  simpa [splitTopLevel] using happend

/-- A run without the keyword belongs to what is in front of the cut. -/
theorem cutTopLevel?_append {keyword : Keyword}
    (h : isFree (· == .keyword keyword) depth xs = true) :
    cutTopLevel? keyword depth (xs ++ ys) =
      (cutTopLevel? keyword 0 ys).map fun (before, after) => (xs ++ before, after) := by
  induction xs generalizing depth with
  | nil =>
      obtain rfl : depth = 0 := by simpa [isFree] using h
      rw [List.nil_append]
      cases cutTopLevel? keyword 0 ys <;> rfl
  | cons l xs ih =>
      rw [isFree_cons] at h
      have hpass : ¬ (depth = 0 ∧ l.token = .keyword keyword) := by
        rintro ⟨hdepth, htoken⟩
        simpa [htoken] using (h.1 hdepth).2
      rw [List.cons_append, cutTopLevel?, if_neg hpass, ih h.2]
      cases cutTopLevel? keyword 0 ys <;> rfl

/-- A run without a keyword outside of its parentheses is not cut there. -/
theorem cutTopLevel?_of_isFree {keyword : Keyword}
    (h : isFree (· == .keyword keyword) depth xs = true) :
    cutTopLevel? keyword depth xs = none := by
  have happend : cutTopLevel? keyword depth (xs ++ []) = _ := cutTopLevel?_append h
  simpa [cutTopLevel?] using happend

end Lexeme

/-! ### Clauses -/

/-- Only a boundary opens another clause. -/
theorem Clause.next?_of_not_isBoundary (clause : Clause) {token : Token}
    (h : token.isBoundary = false) (following : Option Token) :
    clause.next? token following = none := by
  unfold Clause.next?
  split <;> simp_all [Token.isBoundary]

namespace Section

/-- The clauses of a run that begins inside `clause`, with the lexemes of each. -/
def bodies (clause : Clause) (previous : Lexeme) (depth : Nat) (run : List Lexeme) :
    List (Clause × List Lexeme) :=
  (cut clause (Lexeme.mark previous depth run)).map fun s => (s.clause, s.body.map (·.lexeme))

/-- A clause at the end of a run has an empty body. -/
theorem bodies_nil (clause : Clause) (previous : Lexeme) (depth : Nat) :
    bodies clause previous depth [] = [(clause, [])] := rfl

/-- A token that is no boundary, or is enclosed in parentheses, stays in the clause. -/
theorem bodies_cons_of_pass {depth : Nat} {l : Lexeme} (clause : Clause) (previous : Lexeme)
    (rest : List Lexeme) (h : depth = 0 → l.token.isBoundary = false) :
    bodies clause previous depth (l :: rest) =
      (bodies clause l (l.token.depthAfter depth) rest).modifyHead
        fun (clause, body) => (clause, l :: body) := by
  have hopens : ∀ active following, (active = true → depth = 0) →
      (Marked.mk l active).opens? clause following = none := by
    intro active following hactive
    rw [Marked.opens?]
    split
    · next hmarked => exact clause.next?_of_not_isBoundary (h (hactive hmarked)) _
    · rfl
  rw [bodies, Lexeme.mark, cut, hopens _ _ (by simp; tauto)]
  rw [bodies]
  cases cut clause (Lexeme.mark l (l.token.depthAfter depth) rest) <;> rfl

/-- No clause begins or ends inside a free run. -/
theorem bodies_append {depth : Nat} {xs : List Lexeme} (clause : Clause) (previous : Lexeme)
    (ys : List Lexeme) (h : Lexeme.isFree Token.isBoundary depth xs = true) :
    ∃ last, bodies clause previous depth (xs ++ ys) =
      (bodies clause last 0 ys).modifyHead fun (clause, body) => (clause, xs ++ body) := by
  induction xs generalizing previous depth with
  | nil =>
      obtain rfl : depth = 0 := by simpa [Lexeme.isFree] using h
      refine ⟨previous, ?_⟩
      rw [List.nil_append]
      cases bodies clause previous 0 ys <;> rfl
  | cons l xs ih =>
      rw [Lexeme.isFree_cons] at h
      obtain ⟨last, hlast⟩ := ih l h.2
      refine ⟨last, ?_⟩
      rw [List.cons_append, bodies_cons_of_pass _ _ _ fun hdepth => (h.1 hdepth).2, hlast]
      cases bodies clause last 0 ys <;> rfl

/-- A keyword between blanks opens the clause that follows the present one. -/
theorem bodies_cons_of_opens {l : Lexeme} {keyword : Keyword} {clause opened : Clause}
    {rest : List Lexeme} (previous : Lexeme) (hkeyword : l.token = .keyword keyword)
    (hgap : l.gap ≠ []) (hrest : ∀ following ∈ rest.head?, following.gap ≠ [])
    (hnext : clause.next? l.token (rest.head?.map (·.token)) = some opened) :
    bodies clause previous 0 (l :: rest) = (clause, []) :: bodies opened l 0 rest := by
  have htouch : l.touchesPrevious = false := by simpa [Lexeme.touchesPrevious] using hgap
  have hbehind : rest.head?.any Lexeme.isPeriodBehind = false := by
    cases rest with
    | nil => rfl
    | cons following rest =>
        have hfollowing := hrest following rfl
        simp [Lexeme.isPeriodBehind, Lexeme.touchesPrevious, hfollowing]
  have hactive : (decide (0 = 0) && !l.token.isParen &&
      !Lexeme.isQualified previous l rest.head?) = true := by
    simp [Lexeme.isQualified, htouch, hbehind, hkeyword, Token.isParen]
  have hfollowing : (Lexeme.mark l (l.token.depthAfter 0) rest).head?.map (·.lexeme.token) =
      rest.head?.map (·.token) := by
    cases rest <;> rfl
  have hdepth : l.token.depthAfter 0 = 0 := by
    rw [hkeyword]
    exact Token.depthAfter_of_isAnyKeyword rfl 0
  rw [bodies, Lexeme.mark, cut, Marked.opens?, if_pos hactive, hfollowing, hnext, hdepth]
  rfl

end Section

/-! ### Joins -/

namespace JoinType

/-- Whether a run begins with what ends a row of words that introduces a join. -/
def endsIntroduction (run : List Lexeme) : Bool :=
  beginsWith [.join] run || beginsWith [.outer, .join] run

/-- No join begins at a token other than `JOIN` when no introduction ends behind it. -/
theorem introducedBy?_eq_none {l : Lexeme} {run : List Lexeme} (hl : l.token ≠ .keyword .join)
    (hrun : l.token.isAnyKeyword = true → endsIntroduction run = false) :
    introducedBy? (l :: run) = none := by
  by_cases hkeyword : l.token.isAnyKeyword = true
  · have hends := hrun hkeyword
    simp only [endsIntroduction, Bool.or_eq_false_iff] at hends
    simp [introducedBy?, introductions, beginsWith, hends, hl]
  · have hne : ∀ keyword, l.token ≠ .keyword keyword := by
      rintro keyword htoken
      simp [htoken, Token.isAnyKeyword] at hkeyword
    simp [introducedBy?, introductions, beginsWith, hne]

/-- No introduction ends in a run that is free of `JOIN`, or right behind it unless what
stands there ends one. -/
theorem endsIntroduction_append {xs ys : List Lexeme}
    (h : Lexeme.isFree (· == .keyword .join) 0 xs = true) (hys : endsIntroduction ys = false) :
    endsIntroduction (xs ++ ys) = false := by
  simp only [endsIntroduction, Bool.or_eq_false_iff] at hys ⊢
  cases xs with
  | nil => exact hys
  | cons l xs =>
      rw [Lexeme.isFree_cons] at h
      have hl : l.token ≠ .keyword .join := by simpa using (h.1 rfl).2
      refine ⟨by simp [beginsWith, hl], ?_⟩
      by_cases houter : l.token = .keyword .outer
      · have hkeyword : l.token.isAnyKeyword = true := by simp [houter, Token.isAnyKeyword]
        have hxs := h.2
        rw [Token.depthAfter_of_isAnyKeyword hkeyword] at hxs
        cases xs with
        | nil => simp [beginsWith, hys.1]
        | cons following xs =>
            rw [Lexeme.isFree_cons] at hxs
            have hfollowing : following.token ≠ .keyword .join := by simpa using (hxs.1 rfl).2
            simp [beginsWith, hfollowing]
      · simp [beginsWith, houter]

end JoinType

namespace JoinChain

/-- No join begins inside a run that is free of `JOIN`. -/
theorem ofLexemes_append {depth : Nat} {xs ys : List Lexeme}
    (h : Lexeme.isFree (· == .keyword .join) depth xs = true)
    (hys : JoinType.endsIntroduction ys = false) :
    ofLexemes depth (xs ++ ys) =
      ⟨xs ++ (ofLexemes 0 ys).lead, (ofLexemes 0 ys).parts⟩ := by
  induction xs generalizing depth with
  | nil =>
      obtain rfl : depth = 0 := by simpa [Lexeme.isFree] using h
      rfl
  | cons l xs ih =>
      rw [Lexeme.isFree_cons] at h
      have hnone : (if depth = 0 then JoinType.introducedBy? (l :: (xs ++ ys)) else none) =
          none := by
        split
        · next hdepth =>
          refine JoinType.introducedBy?_eq_none (by simpa using (h.1 hdepth).2) fun hkeyword =>
            ?_
          have hxs := h.2
          rw [Token.depthAfter_of_isAnyKeyword hkeyword, hdepth] at hxs
          exact JoinType.endsIntroduction_append hxs hys
        · rfl
      rw [List.cons_append, ofLexemes]
      simp only [hnone]
      rw [ih h.2]
      rfl

end JoinChain

end SqlOutline
