import SqlOutline.Proofs.Nesting

/-!
# Runs in parentheses

A run is enclosed when it is an opening parenthesis, a balanced run, and the closing
parenthesis. Whatever the depth in front of it, everything in it except the two parentheses
lies deeper than zero, and the depth behind it is the one in front of it. So each scan of a
statement passes over an enclosed run as a whole, although each counts the depth for itself
and from another place on.

## Main results

* `IsEnclosed.isCovered`, `IsEnclosed.depthAfter_eq`: an enclosed run covers its contents and
  leaves the depth as it was.
* `splitTopLevel_append_of_isCovered`, `cutTopLevel?_append_of_isCovered`,
  `JoinChain.ofLexemes_append_of_isCovered`, `exists_mark_append`: the four scans find nothing
  in a covered run.
-/

namespace SqlOutline

namespace Lexeme

/-- Whether parentheses open and close in pairs, never closing below the depth where
the run begins. -/
def isBalanced (run : List Lexeme) : Bool := isFree (fun _ => false) 0 run

/-- An opening parenthesis, a balanced run, and a closing parenthesis. -/
inductive IsEnclosed : List Lexeme → Prop
  | intro {opening closing : Lexeme} {contents : List Lexeme} :
      opening.token = .leftParen → isBalanced contents = true → closing.token = .rightParen →
      IsEnclosed (opening :: (contents ++ [closing]))

/-- Whether a run that begins at depth `depth` has nothing but parentheses at depth zero. -/
def isCovered (depth : Nat) : List Lexeme → Bool
  | [] => true
  | l :: rest => (depth != 0 || l.token.isParen) && isCovered (l.token.depthAfter depth) rest

variable {depth : Nat} {l : Lexeme} {xs ys : List Lexeme}

/-- A covered run outside of parentheses begins with one. -/
theorem isCovered_cons :
    isCovered depth (l :: xs) = true ↔
      (depth = 0 → l.token.isParen = true) ∧
        isCovered (l.token.depthAfter depth) xs = true := by
  by_cases hdepth : depth = 0 <;> simp [isCovered, hdepth]

/-- The depth behind a run is counted from the depth behind its first lexeme. -/
theorem depthAfter_cons (depth : Nat) (l : Lexeme) (xs : List Lexeme) :
    depthAfter depth (l :: xs) = depthAfter (l.token.depthAfter depth) xs := rfl

/-- The depth behind two runs is that behind the second, counted from the first. -/
theorem depthAfter_append (depth : Nat) (xs ys : List Lexeme) :
    depthAfter depth (xs ++ ys) = depthAfter (depthAfter depth xs) ys := List.foldl_append

/-- Two runs are covered if the second one is at the depth behind the first. -/
theorem isCovered_append (depth : Nat) (xs ys : List Lexeme) :
    isCovered depth (xs ++ ys) =
      (isCovered depth xs && isCovered (depthAfter depth xs) ys) := by
  induction xs generalizing depth with
  | nil => rfl
  | cons l xs ih =>
      rw [List.cons_append, isCovered, isCovered, ih, depthAfter_cons, Bool.and_assoc]

/-- A balanced run inside of parentheses stays inside of them. -/
theorem isCovered_of_isFree (h : isFree (fun _ => false) depth xs = true) (outer : Nat) :
    isCovered (depth + (outer + 1)) xs = true ∧
      depthAfter (depth + (outer + 1)) xs = outer + 1 := by
  induction xs generalizing depth with
  | nil =>
      obtain rfl : depth = 0 := by simpa [isFree] using h
      exact ⟨rfl, Nat.zero_add _⟩
  | cons l xs ih =>
      rw [isFree_cons] at h
      obtain ⟨hclose, hrest⟩ := h
      have hdepth : l.token.depthAfter (depth + (outer + 1)) =
          l.token.depthAfter depth + (outer + 1) := by
        have hpos : l.token = .rightParen → depth ≠ 0 := fun htoken hzero =>
          (hclose hzero).1 htoken
        cases htoken : l.token <;> simp only [Token.depthAfter]
        · omega
        · have := hpos htoken
          omega
      obtain ⟨hcovered, hafter⟩ := ih hrest
      rw [isCovered_cons, depthAfter_cons, hdepth]
      exact ⟨⟨by omega, hcovered⟩, hafter⟩

namespace IsEnclosed

/-- Nothing but its two parentheses can stand at depth zero in an enclosed run. -/
theorem isCovered (h : IsEnclosed xs) (depth : Nat) : isCovered depth xs = true := by
  obtain ⟨hopening, hcontents, hclosing⟩ := h
  obtain ⟨hinside, hafter⟩ := isCovered_of_isFree hcontents depth
  rw [Nat.zero_add] at hinside hafter
  rw [isCovered_cons, hopening, Token.depthAfter, isCovered_append, hinside, hafter]
  simp [Token.isParen, Lexeme.isCovered]

/-- Behind an enclosed run the depth is as it was before. -/
theorem depthAfter_eq (h : IsEnclosed xs) (depth : Nat) : depthAfter depth xs = depth := by
  obtain ⟨hopening, hcontents, hclosing⟩ := h
  obtain ⟨-, hafter⟩ := isCovered_of_isFree hcontents depth
  rw [Nat.zero_add] at hafter
  rw [depthAfter_cons, hopening, Token.depthAfter, depthAfter_append, hafter, depthAfter_cons,
    hclosing]
  rfl

/-- An enclosed run begins with a parenthesis and has more than that one lexeme. -/
theorem exists_eq_cons_cons (h : IsEnclosed xs) :
    ∃ l m rest, xs = l :: m :: rest ∧ l.token = .leftParen := by
  obtain @⟨opening, closing, contents, hopening, -, -⟩ := h
  cases contents with
  | nil => exact ⟨opening, closing, [], rfl, hopening⟩
  | cons m contents => exact ⟨opening, m, contents ++ [closing], rfl, hopening⟩

/-- An enclosed run ends with a parenthesis. -/
theorem exists_getLast? (h : IsEnclosed xs) :
    ∃ l, xs.getLast? = some l ∧ l.token = .rightParen := by
  obtain @⟨opening, closing, contents, -, -, hclosing⟩ := h
  exact ⟨closing, by rw [← List.cons_append, List.getLast?_concat], hclosing⟩

end IsEnclosed

/-! ### Scans pass over covered runs -/

/-- No separator stands in a covered run. -/
theorem splitTopLevel_append_of_isCovered {separator : Token}
    (hseparator : separator.isParen = false) (h : isCovered depth xs = true) :
    splitTopLevel separator depth (xs ++ ys) =
      (splitTopLevel separator (depthAfter depth xs) ys).modifyHead (xs ++ ·) := by
  induction xs generalizing depth with
  | nil =>
      rw [List.nil_append]
      cases hsplit : splitTopLevel separator (depthAfter depth []) ys <;> exact hsplit
  | cons l xs ih =>
      rw [isCovered_cons] at h
      have hpass : ¬ (depth = 0 ∧ l.token = separator) := by
        rintro ⟨hdepth, rfl⟩
        simp [h.1 hdepth] at hseparator
      rw [List.cons_append, splitTopLevel, if_neg hpass, ih h.2, depthAfter_cons]
      cases splitTopLevel separator (depthAfter (l.token.depthAfter depth) xs) ys <;> rfl

/-- No keyword is found in a covered run. -/
theorem cutTopLevel?_append_of_isCovered {keyword : Keyword} (h : isCovered depth xs = true) :
    cutTopLevel? keyword depth (xs ++ ys) =
      (cutTopLevel? keyword (depthAfter depth xs) ys).map fun (before, after) =>
        (xs ++ before, after) := by
  induction xs generalizing depth with
  | nil =>
      rw [List.nil_append]
      cases hcut : cutTopLevel? keyword (depthAfter depth []) ys <;> exact hcut
  | cons l xs ih =>
      rw [isCovered_cons] at h
      have hpass : ¬ (depth = 0 ∧ l.token = .keyword keyword) := by
        rintro ⟨hdepth, htoken⟩
        have hparen := h.1 hdepth
        simp [htoken, Token.isParen] at hparen
      rw [List.cons_append, cutTopLevel?, if_neg hpass, ih h.2, depthAfter_cons]
      cases cutTopLevel? keyword (depthAfter (l.token.depthAfter depth) xs) ys <;> rfl

/-- No lexeme of a covered run is active. -/
theorem exists_mark_append (previous : Lexeme) (ys : List Lexeme)
    (h : isCovered depth xs = true) :
    ∃ covered, mark previous depth (xs ++ ys) =
        covered ++ mark (xs.getLast?.getD previous) (depthAfter depth xs) ys ∧
      covered.map (·.lexeme) = xs ∧ ∀ m ∈ covered, m.active = false := by
  induction xs generalizing previous depth with
  | nil => exact ⟨[], rfl, rfl, by simp⟩
  | cons l xs ih =>
      rw [isCovered_cons] at h
      obtain ⟨covered, hmark, hlexemes, hinactive⟩ := ih l h.2
      have hactive : (decide (depth = 0) && !l.token.isParen &&
          !isQualified previous l (xs ++ ys).head?) = false := by
        by_cases hdepth : depth = 0
        · simp [h.1 hdepth]
        · simp [hdepth]
      refine ⟨⟨l, false⟩ :: covered, ?_, by rw [List.map_cons, hlexemes], ?_⟩
      · rw [List.cons_append, mark, hactive, hmark, depthAfter_cons, List.getLast?_cons,
          Option.getD_some, List.cons_append]
      · exact List.forall_mem_cons.mpr ⟨rfl, hinactive⟩

end Lexeme

/-- No join begins in a covered run. -/
theorem JoinChain.ofLexemes_append_of_isCovered {depth : Nat} {xs ys : List Lexeme}
    (h : Lexeme.isCovered depth xs = true) :
    ofLexemes depth (xs ++ ys) =
      ⟨xs ++ (ofLexemes (Lexeme.depthAfter depth xs) ys).lead,
        (ofLexemes (Lexeme.depthAfter depth xs) ys).parts⟩ := by
  induction xs generalizing depth with
  | nil => rfl
  | cons l xs ih =>
      rw [Lexeme.isCovered_cons] at h
      have hnone : (if depth = 0 then JoinType.introducedBy? (l :: (xs ++ ys)) else none) =
          none := by
        split
        · next hdepth =>
          have hparen := h.1 hdepth
          refine JoinType.introducedBy?_eq_none ?_ fun hkeyword => ?_
          · rintro htoken
            simp [htoken, Token.isParen] at hparen
          · cases htoken : l.token <;> simp_all [Token.isParen, Token.isAnyKeyword]
        · rfl
      rw [List.cons_append, ofLexemes]
      simp only [hnone]
      rw [ih h.2, Lexeme.depthAfter_cons]
      rfl

end SqlOutline
