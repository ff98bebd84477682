import Mathlib.Data.List.Forall2
import SqlOutline.Proofs.ClauseBounds
import SqlOutline.Proofs.Enclosed
import SqlOutline.Proofs.JoinPlaces

/-!
# Runs that are cut alike

The scans of a statement ask of a lexeme for its token and for whether it touches the one
before it, and of an enclosed run for nothing. Two runs correspond when they can be laid side
by side so that lexemes with the same answers stand opposite each other, or enclosed runs do.
Such runs are cut at the same places, and the parts correspond again. This is said once for
each scan.

## Main results

* `Corresponds.splitTopLevel`, `Corresponds.cutTopLevel?`: items between separators, and the
  two sides of a keyword.
* `Corresponds.joinChain`: the lead and the joins of a table list.
* `Corresponds.cut`: the sections of a statement.
* `Corresponds.clauses`: the clauses of two statements whose leading words have the same token.
-/

namespace SqlOutline

/-- Two lists side by side: elements opposite each other are related by `rel`, and stretches
of any length by `part`. -/
inductive Corresponds {α : Type} (rel : α → α → Prop) (part : List α → List α → Prop) :
    List α → List α → Prop
  | nil : Corresponds rel part [] []
  | cons {a b : α} {xs ys : List α} :
      rel a b → Corresponds rel part xs ys → Corresponds rel part (a :: xs) (b :: ys)
  | append {as bs xs ys : List α} :
      part as bs → Corresponds rel part xs ys → Corresponds rel part (as ++ xs) (bs ++ ys)

namespace Corresponds

variable {α β : Type} {rel : α → α → Prop} {part : List α → List α → Prop} {xs ys : List α}

/-- A correspondence is carried over by functions that respect both relations. -/
theorem map {rel' : β → β → Prop} {part' : List β → List β → Prop} {f : α → β}
    (h : Corresponds rel part xs ys) (hrel : ∀ a b, rel a b → rel' (f a) (f b))
    (hpart : ∀ as bs, part as bs → part' (as.map f) (bs.map f)) :
    Corresponds rel' part' (xs.map f) (ys.map f) := by
  induction h with
  | nil => exact .nil
  | cons hab _ ih => exact .cons (hrel _ _ hab) ih
  | append has _ ih =>
      rw [List.map_append, List.map_append]
      exact .append (hpart _ _ has) ih

/-- Lists whose elements are related one by one correspond, whatever stretches may do. -/
theorem of_forall₂ (h : List.Forall₂ rel xs ys) : Corresponds rel part xs ys := by
  induction h with
  | nil => exact .nil
  | cons hab _ ih => exact .cons hab ih

/-- Without related stretches the elements of corresponding lists are related one by one. -/
theorem forall₂ (h : Corresponds rel (fun _ _ => False) xs ys) : List.Forall₂ rel xs ys := by
  induction h with
  | nil => exact .nil
  | cons hab _ ih => exact .cons hab ih
  | append has => exact has.elim

/-- A list corresponds to itself. -/
theorem refl (h : ∀ a, rel a a) (xs : List α) : Corresponds rel part xs xs :=
  of_forall₂ (List.forall₂_same.mpr fun a _ => h a)

/-- Lists that correspond behind corresponding ones correspond. -/
theorem trans_append {xs' ys' : List α} (h : Corresponds rel part xs ys)
    (hmore : Corresponds rel part xs' ys') : Corresponds rel part (xs ++ xs') (ys ++ ys') := by
  induction h with
  | nil => exact hmore
  | cons hab _ ih => exact .cons hab ih
  | append has _ ih =>
      rw [List.append_assoc, List.append_assoc]
      exact .append has ih

end Corresponds

/-! ### Options and lists of related values -/

section Related

variable {α β γ δ : Type} {r : α → β → Prop} {s : γ → δ → Prop}

/-- Related options stay so under related functions. -/
theorem rel_map {f : α → γ} {g : β → δ} {a : Option α} {b : Option β} (h : Option.Rel r a b)
    (hfg : ∀ a b, r a b → s (f a) (g b)) : Option.Rel s (a.map f) (b.map g) := by
  cases h with
  | none => exact .none
  | some hab => exact .some (hfg _ _ hab)

/-- Related options stay so under related functions that may give nothing. -/
theorem rel_bind {f : α → Option γ} {g : β → Option δ} {a : Option α} {b : Option β}
    (h : Option.Rel r a b) (hfg : ∀ a b, r a b → Option.Rel s (f a) (g b)) :
    Option.Rel s (a.bind f) (b.bind g) := by
  cases h with
  | none => exact .none
  | some hab => exact hfg _ _ hab

/-- Of two related options both are there or none. -/
theorem isSome_of_rel {a : Option α} {b : Option β} (h : Option.Rel r a b) :
    a.isSome = b.isSome := by
  cases h <;> rfl

/-- Options are related by equality if they are equal. -/
theorem rel_eq_iff {a b : Option α} : Option.Rel Eq a b ↔ a = b := by
  constructor
  · rintro (rfl | _) <;> rfl
  · rintro rfl
    cases a with
    | none => exact .none
    | some a => exact .some rfl

/-- Functions that agree on related values agree on related options. -/
theorem bind_eq_of_rel {f : α → Option γ} {g : β → Option γ} {a : Option α} {b : Option β}
    (h : Option.Rel r a b) (hfg : ∀ a b, r a b → f a = g b) : a.bind f = b.bind g := by
  cases h with
  | none => rfl
  | some hab => exact hfg _ _ hab

/-- Related lists have related first elements. -/
theorem rel_head? {xs : List α} {ys : List β} (h : List.Forall₂ r xs ys) :
    Option.Rel r xs.head? ys.head? := by
  cases h with
  | nil => exact .none
  | cons hab _ => exact .some hab

/-- Related lists stay so when their first elements are replaced by related ones. -/
theorem forall₂_modifyHead {f : α → α} {g : β → β} {xs : List α} {ys : List β}
    (h : List.Forall₂ r xs ys) (hfg : ∀ a b, r a b → r (f a) (g b)) :
    List.Forall₂ r (xs.modifyHead f) (ys.modifyHead g) := by
  cases h with
  | nil => exact .nil
  | cons hab hrest => exact .cons (hfg _ _ hab) hrest

/-- One relation of optional values may be replaced by another that follows from it for the two
values there are. -/
theorem rel_imp_of_mem {t : α → β → Prop} {a : Option α} {b : Option β} (h : Option.Rel r a b)
    (himp : ∀ x ∈ a, ∀ y ∈ b, r x y → t x y) : Option.Rel t a b := by
  cases h with
  | none => exact .none
  | some hab => exact .some (himp _ rfl _ rfl hab)

/-- One relation of lists may be replaced by another that follows from it for the elements of
both. -/
theorem forall₂_imp_of_mem {t : α → β → Prop} {as : List α} {bs : List β}
    (h : List.Forall₂ r as bs) (himp : ∀ x ∈ as, ∀ y ∈ bs, r x y → t x y) :
    List.Forall₂ t as bs := by
  induction h with
  | nil => exact .nil
  | cons hab _ ih =>
      refine .cons (himp _ (by simp) _ (by simp) hab) (ih fun x hx y hy => ?_)
      exact himp x (List.mem_cons_of_mem _ hx) y (List.mem_cons_of_mem _ hy)

end Related

namespace Lexeme

/-- Lexemes and runs that no scan tells apart. -/
structure CutAlike (rel : Lexeme → Lexeme → Prop)
    (part : List Lexeme → List Lexeme → Prop) : Prop where
  token : ∀ {l m}, rel l m → l.token = m.token
  touches : ∀ {l m}, rel l m → l.touchesPrevious = m.touchesPrevious
  enclosed : ∀ {as bs}, part as bs → IsEnclosed as ∧ IsEnclosed bs

end Lexeme

open Lexeme (CutAlike IsEnclosed)

namespace Corresponds

variable {rel : Lexeme → Lexeme → Prop} {part : List Lexeme → List Lexeme → Prop}
  {xs ys : List Lexeme}

/-! ### What stands first -/

/-- Corresponding runs begin with the same token. -/
theorem map_token_head? (halike : CutAlike rel part) (h : Corresponds rel part xs ys) :
    xs.head?.map (·.token) = ys.head?.map (·.token) := by
  cases h with
  | nil => rfl
  | cons hlm _ => simp [halike.token hlm]
  | append has _ =>
      obtain ⟨hleft, hright⟩ := halike.enclosed has
      obtain ⟨l, _, _, rfl, hl⟩ := hleft.exists_eq_cons_cons
      obtain ⟨m, _, _, rfl, hm⟩ := hright.exists_eq_cons_cons
      simp [hl, hm]

/-- A period stands right in front of both of two corresponding runs or of none. -/
theorem any_isPeriodBehind (halike : CutAlike rel part) (h : Corresponds rel part xs ys) :
    xs.head?.any Lexeme.isPeriodBehind = ys.head?.any Lexeme.isPeriodBehind := by
  cases h with
  | nil => rfl
  | cons hlm _ => simp [Lexeme.isPeriodBehind, halike.token hlm, halike.touches hlm]
  | append has _ =>
      obtain ⟨hleft, hright⟩ := halike.enclosed has
      obtain ⟨l, _, _, rfl, hl⟩ := hleft.exists_eq_cons_cons
      obtain ⟨m, _, _, rfl, hm⟩ := hright.exists_eq_cons_cons
      simp [Lexeme.isPeriodBehind, hl, hm]

/-- Of two lists that correspond both are empty or none: parts are not empty. -/
theorem eq_nil_iff (halike : CutAlike rel part) (h : Corresponds rel part xs ys) :
    xs = [] ↔ ys = [] := by
  have hhead := h.map_token_head? halike
  cases xs <;> cases ys <;> simp_all

/-- Behind a first lexeme that opens no parenthesis the runs still correspond. -/
theorem tail (halike : CutAlike rel part) (h : Corresponds rel part xs ys)
    (hhead : xs.head?.map (·.token) ≠ some .leftParen) :
    Corresponds rel part xs.tail ys.tail := by
  cases h with
  | nil => exact .nil
  | cons _ hrest => exact hrest
  | append has _ =>
      obtain ⟨l, _, _, rfl, hl⟩ := (halike.enclosed has).1.exists_eq_cons_cons
      simp [hl] at hhead

/-! ### Separators and keywords -/

/-- The items between the separators of corresponding runs correspond. -/
theorem splitTopLevel {separator : Token} (halike : CutAlike rel part)
    (hseparator : separator.isParen = false) (h : Corresponds rel part xs ys) (depth : Nat) :
    List.Forall₂ (Corresponds rel part) (Lexeme.splitTopLevel separator depth xs)
      (Lexeme.splitTopLevel separator depth ys) := by
  induction h generalizing depth with
  | nil => exact .cons .nil .nil
  | cons hlm _ ih =>
      rw [Lexeme.splitTopLevel, Lexeme.splitTopLevel, halike.token hlm]
      split
      · exact .cons .nil (ih depth)
      · exact forall₂_modifyHead (ih _) fun _ _ hitem => .cons hlm hitem
  | append has _ ih =>
      obtain ⟨hleft, hright⟩ := halike.enclosed has
      rw [Lexeme.splitTopLevel_append_of_isCovered hseparator (hleft.isCovered depth),
        Lexeme.splitTopLevel_append_of_isCovered hseparator (hright.isCovered depth),
        hleft.depthAfter_eq, hright.depthAfter_eq]
      exact forall₂_modifyHead (ih depth) fun _ _ hitem => .append has hitem

/-- Corresponding runs are cut at the same keyword. -/
theorem cutTopLevel? {keyword : Keyword} (halike : CutAlike rel part)
    (h : Corresponds rel part xs ys) (depth : Nat) :
    Option.Rel (fun p q => Corresponds rel part p.1 q.1 ∧ Corresponds rel part p.2 q.2)
      (Lexeme.cutTopLevel? keyword depth xs) (Lexeme.cutTopLevel? keyword depth ys) := by
  induction h generalizing depth with
  | nil => exact .none
  | cons hlm hrest ih =>
      rw [Lexeme.cutTopLevel?, Lexeme.cutTopLevel?, halike.token hlm]
      split
      · exact .some ⟨.nil, hrest⟩
      · exact rel_map (ih _) fun _ _ hsides => ⟨.cons hlm hsides.1, hsides.2⟩
  | append has _ ih =>
      obtain ⟨hleft, hright⟩ := halike.enclosed has
      rw [Lexeme.cutTopLevel?_append_of_isCovered (hleft.isCovered depth),
        Lexeme.cutTopLevel?_append_of_isCovered (hright.isCovered depth),
        hleft.depthAfter_eq, hright.depthAfter_eq]
      exact rel_map (ih depth) fun _ _ hsides => ⟨.append has hsides.1, hsides.2⟩

/-! ### Joins -/

/-- Corresponding runs begin with the same keywords, and correspond behind them. -/
theorem beginsWith (halike : CutAlike rel part) (h : Corresponds rel part xs ys)
    (keywords : List Keyword) :
    JoinType.beginsWith keywords xs = JoinType.beginsWith keywords ys ∧
      (JoinType.beginsWith keywords xs = true →
        Corresponds rel part (xs.drop keywords.length) (ys.drop keywords.length)) := by
  induction keywords generalizing xs ys with
  | nil => exact ⟨rfl, fun _ => h⟩
  | cons keyword keywords ih =>
      cases h with
      | nil => exact ⟨rfl, fun _ => .nil⟩
      | cons hlm hrest =>
          obtain ⟨hbegins, hbehind⟩ := ih hrest
          rw [JoinType.beginsWith, JoinType.beginsWith, halike.token hlm, hbegins]
          refine ⟨rfl, fun hboth => hbehind ?_⟩
          rw [Bool.and_eq_true] at hboth
          exact hbegins ▸ hboth.2
      | append has _ =>
          obtain ⟨hleft, hright⟩ := halike.enclosed has
          obtain ⟨l, _, _, rfl, hl⟩ := hleft.exists_eq_cons_cons
          obtain ⟨m, _, _, rfl, hm⟩ := hright.exists_eq_cons_cons
          simp [JoinType.beginsWith, hl, hm]

/-- Runs that correspond begin with the same words of a join, if with any. -/
theorem introducedBy? (halike : CutAlike rel part) (h : Corresponds rel part xs ys) :
    JoinType.introducedBy? xs = JoinType.introducedBy? ys := by
  have hsame : (fun row : List Keyword × JoinType => JoinType.beginsWith row.1 xs) =
      fun row => JoinType.beginsWith row.1 ys := by
    funext row
    exact (h.beginsWith halike row.1).1
  exact congrArg (fun p => (JoinType.introductions.find? p).map _) hsame

/-- Corresponding table lists have corresponding joins, of the same types. -/
theorem joinChain (halike : CutAlike rel part) (h : Corresponds rel part xs ys) (depth : Nat) :
    Corresponds rel part (JoinChain.ofLexemes depth xs).lead
        (JoinChain.ofLexemes depth ys).lead ∧
      List.Forall₂ (fun p q => p.type = q.type ∧ Corresponds rel part p.body q.body)
        (JoinChain.ofLexemes depth xs).parts (JoinChain.ofLexemes depth ys).parts := by
  -- a join is passed over with all its words at once, so the induction is on the length
  induction hn : xs.length using Nat.strongRecOn generalizing xs ys depth with
  | _ n ih =>
      cases h with
      | nil =>
          rw [JoinChain.ofLexemes]
          exact ⟨.nil, .nil⟩
      | @cons l m xs ys hlm hrest =>
          have hintroduced : JoinType.introducedBy? (l :: xs) =
              JoinType.introducedBy? (m :: ys) :=
            (Corresponds.cons hlm hrest).introducedBy? halike
          rw [List.length_cons] at hn
          rw [JoinChain.ofLexemes, JoinChain.ofLexemes, ← hintroduced]
          cases hjoin : if depth = 0 then JoinType.introducedBy? (l :: xs) else none with
          | none =>
              obtain ⟨hlead, hparts⟩ :=
                ih xs.length (by omega) hrest (m.token.depthAfter depth) rfl
              dsimp only
              rw [halike.token hlm]
              exact ⟨.cons hlm hlead, hparts⟩
          | some found =>
              obtain ⟨type, count⟩ := found
              rw [Option.ite_none_right_eq_some] at hjoin
              obtain ⟨keywords, hmem, hcount, hbegins⟩ := JoinType.exists_of_introducedBy? hjoin.2
              have hbehind := ((Corresponds.cons hlm hrest).beginsWith halike keywords).2 hbegins
              obtain ⟨k, ks, rfl⟩ : ∃ k ks, keywords = k :: ks := by
                cases keywords with
                | nil => exact absurd (JoinType.introductions_spec _ hmem).1 (by simp)
                | cons k ks => exact ⟨k, ks, rfl⟩
              rw [List.length_cons, List.drop_succ_cons, List.drop_succ_cons] at hbehind
              obtain ⟨hlead, hparts⟩ := ih (xs.drop ks.length).length
                (by rw [List.length_drop]; omega) hbehind 0 rfl
              rw [← hcount, List.length_cons]
              dsimp only
              rw [Nat.add_sub_cancel]
              exact ⟨.nil, .cons ⟨rfl, hlead⟩ hparts⟩
      | @append as bs xs ys has hrest =>
          obtain ⟨hleft, hright⟩ := halike.enclosed has
          have hshort : xs.length < n := by
            obtain ⟨_, _, _, rfl, -⟩ := hleft.exists_eq_cons_cons
            rw [← hn, List.length_append, List.length_cons]
            omega
          obtain ⟨hlead, hparts⟩ := ih xs.length hshort hrest depth rfl
          rw [JoinChain.ofLexemes_append_of_isCovered (hleft.isCovered depth),
            JoinChain.ofLexemes_append_of_isCovered (hright.isCovered depth),
            hleft.depthAfter_eq, hright.depthAfter_eq]
          exact ⟨.append has hlead, hparts⟩

end Corresponds

/-! ### Clauses -/

namespace Marked

/-- Lexemes that are related and can begin or end a clause alike. -/
def Alike (rel : Lexeme → Lexeme → Prop) (m n : Marked) : Prop :=
  rel m.lexeme n.lexeme ∧ m.active = n.active

/-- Runs that are related and in which no clause begins or ends. -/
def Inactive (part : List Lexeme → List Lexeme → Prop) (ms ns : List Marked) : Prop :=
  part (ms.map (·.lexeme)) (ns.map (·.lexeme)) ∧
    (∀ m ∈ ms, m.active = false) ∧ ∀ n ∈ ns, n.active = false

end Marked

/-- No clause begins or ends at an inactive lexeme. -/
theorem Section.cut_append_of_inactive (clause : Clause) {ms : List Marked} (ns : List Marked)
    (h : ∀ m ∈ ms, m.active = false) :
    cut clause (ms ++ ns) = (cut clause ns).modifyHead fun s => ⟨s.clause, ms ++ s.body⟩ := by
  induction ms with
  | nil =>
      rw [List.nil_append]
      cases hcut : cut clause ns <;> rfl
  | cons m ms ih =>
      rw [List.forall_mem_cons] at h
      have hopens : m.opens? clause (ms ++ ns) = none := by simp [Marked.opens?, h.1]
      rw [List.cons_append, cut, hopens, ih h.2]
      cases cut clause ns <;> rfl

/-- Lexemes that are not active hold no `LIMIT` that counts. -/
theorem Section.afterLimit?_append_of_inactive {ms : List Marked} (ns : List Marked)
    (h : ∀ m ∈ ms, m.active = false) : afterLimit? (ms ++ ns) = afterLimit? ns := by
  induction ms with
  | nil => rfl
  | cons m ms ih =>
      rw [List.forall_mem_cons] at h
      have hlimit : m.isActiveKeyword .limit = false := by simp [Marked.isActiveKeyword, h.1]
      rw [List.cons_append, afterLimit?, hlimit, if_neg (by simp), ih h.2]

namespace Corresponds

variable {rel : Lexeme → Lexeme → Prop} {part : List Lexeme → List Lexeme → Prop}
  {xs ys : List Lexeme} {ms ns : List Marked}

/-- Marked runs that correspond are so without their marks. -/
theorem map_lexeme (h : Corresponds (Marked.Alike rel) (Marked.Inactive part) ms ns) :
    Corresponds rel part (ms.map (·.lexeme)) (ns.map (·.lexeme)) :=
  h.map (fun _ _ hmn => hmn.1) fun _ _ has => has.1

/-- The marks of corresponding runs correspond. -/
theorem mark {previous previous' : Lexeme} (halike : CutAlike rel part)
    (h : Corresponds rel part xs ys) (hprevious : previous.token = previous'.token)
    (depth : Nat) :
    Corresponds (Marked.Alike rel) (Marked.Inactive part) (Lexeme.mark previous depth xs)
      (Lexeme.mark previous' depth ys) := by
  induction h generalizing previous previous' depth with
  | nil => exact .nil
  | cons hlm hrest ih =>
      rw [Lexeme.mark, Lexeme.mark, Lexeme.isQualified, Lexeme.isQualified, hprevious,
        halike.token hlm, halike.touches hlm, hrest.any_isPeriodBehind halike]
      exact .cons ⟨hlm, rfl⟩ (ih (halike.token hlm) _)
  | append has _ ih =>
      obtain ⟨hleft, hright⟩ := halike.enclosed has
      obtain ⟨l, hl, hltoken⟩ := hleft.exists_getLast?
      obtain ⟨m, hm, hmtoken⟩ := hright.exists_getLast?
      obtain ⟨ms, hms, hmslexemes, hmsinactive⟩ :=
        Lexeme.exists_mark_append previous _ (hleft.isCovered depth)
      obtain ⟨ns, hns, hnslexemes, hnsinactive⟩ :=
        Lexeme.exists_mark_append previous' _ (hright.isCovered depth)
      rw [hms, hns, hl, hm, hleft.depthAfter_eq, hright.depthAfter_eq]
      refine .append ⟨?_, hmsinactive, hnsinactive⟩ (ih (hltoken.trans hmtoken.symm) depth)
      rw [hmslexemes, hnslexemes]
      exact has

/-- Corresponding statements have corresponding sections, of the same clauses. -/
theorem cut (halike : CutAlike rel part)
    (h : Corresponds (Marked.Alike rel) (Marked.Inactive part) ms ns) (clause : Clause) :
    List.Forall₂ (fun s t => s.clause = t.clause ∧
        Corresponds (Marked.Alike rel) (Marked.Inactive part) s.body t.body)
      (Section.cut clause ms) (Section.cut clause ns) := by
  induction h generalizing clause with
  | nil => exact .cons ⟨rfl, .nil⟩ .nil
  | @cons m n ms ns hmn hrest ih =>
      have hfollowing : ms.head?.map (·.lexeme.token) = ns.head?.map (·.lexeme.token) := by
        have hhead := hrest.map_lexeme.map_token_head? halike
        rw [List.head?_map, List.head?_map, Option.map_map, Option.map_map] at hhead
        exact hhead
      have hopens : m.opens? clause ms = n.opens? clause ns := by
        rw [Marked.opens?, Marked.opens?, hmn.2, halike.token hmn.1, hfollowing]
      rw [Section.cut, Section.cut, ← hopens]
      cases m.opens? clause ms with
      | some opened => exact .cons ⟨rfl, .nil⟩ (ih opened)
      | none => exact forall₂_modifyHead (ih clause) fun _ _ hs => ⟨hs.1, .cons hmn hs.2⟩
  | append has _ ih =>
      rw [Section.cut_append_of_inactive clause _ has.2.1,
        Section.cut_append_of_inactive clause _ has.2.2]
      exact forall₂_modifyHead (ih clause) fun _ _ hs => ⟨hs.1, .append has hs.2⟩

/-- What stands behind the first `LIMIT` corresponds. -/
theorem afterLimit? (halike : CutAlike rel part)
    (h : Corresponds (Marked.Alike rel) (Marked.Inactive part) ms ns) :
    Option.Rel (Corresponds rel part) (Section.afterLimit? ms) (Section.afterLimit? ns) := by
  induction h with
  | nil => exact .none
  | cons hmn hrest ih =>
      rw [Section.afterLimit?, Section.afterLimit?, Marked.isActiveKeyword,
        Marked.isActiveKeyword, hmn.2, halike.token hmn.1]
      split
      · exact .some hrest.map_lexeme
      · exact ih
  | append has _ ih =>
      rw [Section.afterLimit?_append_of_inactive _ has.2.1,
        Section.afterLimit?_append_of_inactive _ has.2.2]
      exact ih

/-- The first sections of a clause correspond. -/
theorem bodyOf? {ss ts : List Section}
    (h : List.Forall₂ (fun s t => s.clause = t.clause ∧
      Corresponds (Marked.Alike rel) (Marked.Inactive part) s.body t.body) ss ts)
    (clause : Clause) :
    Option.Rel (Corresponds rel part) (Section.bodyOf? clause ss)
      (Section.bodyOf? clause ts) := by
  induction h with
  | nil => exact .none
  | @cons s t ss ts hst _ ih =>
      rw [Section.bodyOf?, Section.bodyOf?, List.find?_cons, List.find?_cons, ← hst.1]
      cases decide (s.clause = clause) with
      | true => exact .some hst.2.map_lexeme
      | false => exact ih

end Corresponds

/-- Nothing but an `ORDER` in front of a `BY` opens the sort keys. -/
theorem Clause.following_of_next?_sortKeys {clause : Clause} {token : Token}
    {following : Option Token} (h : clause.next? token following = some .sortKeys) :
    following = some (.keyword .by) := by
  obtain ⟨-, -, hopened⟩ := next?_eq_some_iff.mp h
  rw [openedBy.eq_def] at hopened
  split at hopened
  case h_5 =>
    split at hopened
    · assumption
    · cases hopened
  all_goals cases hopened

/-- The sort keys begin with the `BY` that goes with `ORDER`. -/
theorem Section.token_head?_sortKeys {clause : Clause} (hclause : clause ≠ .sortKeys)
    {ms : List Marked} {body : List Lexeme}
    (h : bodyOf? .sortKeys (cut clause ms) = some body) :
    body.head?.map (·.token) = some (.keyword .by) := by
  induction ms generalizing clause with
  | nil =>
      rw [cut, bodyOf?_cons_of_ne hclause] at h
      cases h
  | cons m ms ih =>
      rw [cut] at h
      cases hopens : m.opens? clause ms with
      | none =>
          rw [hopens] at h
          exact ih hclause ((bodyOf?_modifyHead hclause m ms).symm.trans h)
      | some opened =>
          rw [hopens] at h
          dsimp only at h
          rw [bodyOf?_cons_of_ne hclause] at h
          by_cases hkeys : opened = .sortKeys
          · subst hkeys
            have hby := Clause.following_of_next?_sortKeys (Marked.next?_of_opens? hopens)
            obtain ⟨m', more, others, htoken, hcut⟩ := exists_cut_sortKeys hby
            rw [hcut, bodyOf?_cons_self] at h
            obtain rfl := Option.some_inj.mp h
            exact congrArg some htoken
          · exact ih hkeys h

/-- Clauses whose bodies are related. -/
structure Clauses.Related (R : List Lexeme → List Lexeme → Prop) (c d : Clauses) : Prop where
  selectList : Option.Rel R c.selectList d.selectList
  tableList : Option.Rel R c.tableList d.tableList
  filter : Option.Rel R c.filter d.filter
  sortKeys : Option.Rel R c.sortKeys d.sortKeys
  limit : Option.Rel R c.limit d.limit

/-- The clauses of corresponding statements correspond. Of the leading words only
the tokens matter. -/
theorem Corresponds.clauses {rel : Lexeme → Lexeme → Prop}
    {part : List Lexeme → List Lexeme → Prop} {lead lead' : Lexeme} {rest rest' : List Lexeme}
    (halike : CutAlike rel part) (hlead : lead.token = lead'.token)
    (h : Corresponds rel part rest rest') :
    Clauses.Related (Corresponds rel part) (Clauses.ofLexemes (lead :: rest))
      (Clauses.ofLexemes (lead' :: rest')) := by
  have hsections := (h.mark halike hlead 0).cut halike .selectList
  have hbody := Corresponds.bodyOf? hsections
  have hlimit := rel_bind (rel_head? hsections) fun _ _ hst => hst.2.afterLimit? halike
  have hkeys : Option.Rel (Corresponds rel part)
      ((Section.bodyOf? .sortKeys (Section.cut .selectList (lead.mark 0 rest))).map (·.drop 1))
      ((Section.bodyOf? .sortKeys (Section.cut .selectList (lead'.mark 0 rest'))).map
        (·.drop 1)) := by
    have htails := rel_imp_of_mem (hbody .sortKeys) fun body hbodies body' _ hpair =>
      hpair.tail halike (by simp [Section.token_head?_sortKeys (by simp) hbodies])
    simp only [List.drop_one]
    exact rel_map htails fun _ _ htail => htail
  rw [Clauses.ofLexemes, Clauses.ofLexemes, Clauses.ofSections, Clauses.ofSections]
  have htables := hbody .tableList
  revert htables
  generalize Section.bodyOf? .tableList (Section.cut .selectList (lead.mark 0 rest)) = tables
  generalize Section.bodyOf? .tableList (Section.cut .selectList (lead'.mark 0 rest')) =
    tables'
  rintro (@⟨tables, tables', htables⟩ | _)
  · exact ⟨hbody .selectList, .some htables, hbody .filter, hkeys, hbody .limit⟩
  · exact ⟨.none, .none, .none, .none, hlimit⟩

end SqlOutline
