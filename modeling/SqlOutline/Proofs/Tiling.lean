import Mathlib.Data.String.Basic
import SqlOutline.Located
import SqlOutline.Proofs.Reading

/-!
# Tokens and trivia tile the source

The located lexemes of a source divide its bytes: each byte lies in one token or in one of
the gaps before, between and behind the tokens, and every gap is a row of pieces of trivia.
`Tiles` says this about any row of places in a source, without the reader that found them.

## Main results

* `Lexeme.Reads.exists_split`: a located lexeme cuts the source into what stands before it, its
  text, and what stands behind.
* `Lexeme.Reads.exists_gap_split`: so does a gap, and its text is trivia.
* `Lexeme.countP_covers`: no byte is left out and none is counted twice.
* `tiles_locate_ofText`: the lexemes of a source tile it.
-/

namespace SqlOutline

/-- The characters between two byte offsets of a source. -/
def slice (source : String) (start stop : Nat) : List Char :=
  (String.Pos.Raw.extract source ⟨start⟩ ⟨stop⟩).toList

/-- Whether a byte offset lies in a half-open range. -/
def covers (n : Nat) (range : Nat × Nat) : Bool := range.1 ≤ n && n < range.2

/-- The byte ranges of located values, ends excluded. -/
def tokenRanges {α : Type} (tokens : List (Located α)) : List (Nat × Nat) :=
  tokens.map fun t => (t.first, t.last + 1)

/-- The byte ranges before, between and behind the located values that come after byte
`start` of a source of `size` bytes, ends excluded. -/
def gapRanges {α : Type} (size start : Nat) : List (Located α) → List (Nat × Nat)
  | [] => [(start, size)]
  | t :: rest => (start, t.first) :: gapRanges size (t.last + 1) rest

/-- Located lexemes that divide a source into tokens and trivia. -/
structure Tiles (source : String) (tokens : List (Located Lexeme)) : Prop where
  nonempty : ∀ t ∈ tokens, t.first ≤ t.last
  ascending : tokens.Pairwise fun a b => a.last < b.first
  within : ∀ t ∈ tokens, t.last < source.utf8ByteSize
  onCharacters : ∀ t ∈ tokens,
    String.Pos.Raw.IsValid source ⟨t.first⟩ ∧ String.Pos.Raw.IsValid source ⟨t.last + 1⟩
  spelled : ∀ t ∈ tokens, slice source t.first (t.last + 1) = t.value.text
  gaps : ∀ gap ∈ gapRanges source.utf8ByteSize 0 tokens, gap.1 ≤ gap.2 ∧
    Trivia.Row (slice source gap.1 gap.2) (slice source gap.2 source.utf8ByteSize)
  once : ∀ n < source.utf8ByteSize,
    (tokenRanges tokens ++ gapRanges source.utf8ByteSize 0 tokens).countP (covers n) = 1
  clean : ∀ t ∈ tokens, Trivia.begins (slice source t.first source.utf8ByteSize) = false

namespace Lexeme

/-! ### Byte offsets of parts of a text -/

/-- No characters have no bytes. -/
@[simp] theorem byteCount_nil : byteCount [] = 0 := rfl

/-- The bytes of two texts add up. -/
@[simp] theorem byteCount_append (cs ds : List Char) :
    byteCount (cs ++ ds) = byteCount cs + byteCount ds := by
  induction cs with
  | nil => simp [byteCount]
  | cons c cs ih => rw [List.cons_append, byteCount, byteCount, ih, Nat.add_assoc]

/-- A token ends behind all the bytes up to its own last one. -/
theorem byteCount_behind (front gap text : List Char) :
    byteCount front + byteCount gap + byteCount text = byteCount (front ++ gap ++ text) := by
  rw [byteCount_append, byteCount_append]

/-- Bytes are counted in UTF-8. -/
theorem byteCount_eq_utf8Len (cs : List Char) : byteCount cs = String.utf8Len cs := by
  induction cs with
  | nil => rfl
  | cons c cs ih =>
      rw [String.utf8Len_cons, ← ih, byteCount, Nat.add_comm]

/-- The bytes of a text are those of its characters. -/
theorem utf8ByteSize_eq_byteCount (source : String) :
    source.utf8ByteSize = byteCount source.toList := by
  rw [byteCount_eq_utf8Len, ← String.utf8ByteSize_ofList, String.ofList_toList]

/-- Every character has a byte at least. -/
theorem byteCount_pos {cs : List Char} (h : cs ≠ []) : 0 < byteCount cs := by
  rw [byteCount_eq_utf8Len, Nat.pos_iff_ne_zero, Ne, String.utf8Len_eq_zero]
  exact h

/-- Of two first parts of a text the one with fewer bytes comes first. -/
theorem prefix_of_byteCount_le {whole front longer : List Char} (hfront : front <+: whole)
    (hlonger : longer <+: whole) (hle : byteCount front ≤ byteCount longer) :
    front <+: longer := by
  rcases List.prefix_or_prefix_of_prefix hfront hlonger with h | ⟨more, rfl⟩
  · exact h
  · rw [byteCount_append] at hle
    have hmore : more = [] := by
      by_contra hne
      have hpos := byteCount_pos hne
      omega
    rw [hmore, List.append_nil]

/-- The part of a source between what stands before it and what stands behind it. -/
theorem slice_of_split {source : String} {before middle after : List Char}
    (h : source.toList = before ++ (middle ++ after)) :
    slice source (byteCount before) (byteCount (before ++ middle)) = middle := by
  have hextract := String.extract_of_valid before middle after
  rw [List.append_assoc, ← h, String.ofList_toList] at hextract
  rw [slice, byteCount_append, byteCount_eq_utf8Len, byteCount_eq_utf8Len, hextract,
    String.toList_ofList]

/-- The slice from a split up to the end is what is behind the split. -/
theorem slice_to_end {source : String} {before after : List Char}
    (h : source.toList = before ++ after) :
    slice source (byteCount before) source.utf8ByteSize = after := by
  have hsplit : source.toList = before ++ (after ++ []) := by rw [List.append_nil, h]
  have hslice := slice_of_split hsplit
  rwa [← h, ← utf8ByteSize_eq_byteCount] at hslice

/-- A byte offset is on a character boundary when it counts the bytes of a first part. -/
theorem isValid_of_split {source : String} {before after : List Char}
    (h : source.toList = before ++ after) :
    String.Pos.Raw.IsValid source ⟨byteCount before⟩ := by
  have hsource : source = String.ofList before ++ String.ofList after := by
    rw [← String.ofList_append, ← h, String.ofList_toList]
  have hend : (⟨byteCount before⟩ : String.Pos.Raw) = (String.ofList before).rawEndPos := by
    rw [String.rawEndPos_ofList, byteCount_eq_utf8Len]
  rw [hsource, hend]
  exact String.Pos.Raw.isValid_rawEndPos.append_right _

/-! ### Where the lexemes of a reading stand -/

/-- The lexemes of a reading have characters. -/
theorem Reads.text_ne_nil {cs rest : List Char} {ls : List Lexeme} (h : Reads cs ls rest) :
    ∀ l ∈ ls, l.text ≠ [] := by
  induction h with
  | nil => simp
  | cons _ _ _ _ ih =>
      intro l hl
      rcases List.mem_cons.mp hl with rfl | hl
      · simp
      · exact ih l hl

/-- A located lexeme cuts the source into what stands before it, its text, and the rest. -/
theorem Reads.exists_split {cs rest : List Char} {ls : List Lexeme} (h : Reads cs ls rest)
    (front : List Char) : ∀ t ∈ locate (byteCount front) ls, ∃ before after,
      front ++ cs = before ++ (t.value.text ++ after) ∧ t.value.text ≠ [] ∧
        t.first = byteCount before ∧ t.last + 1 = byteCount (before ++ t.value.text) ∧
        Trivia.begins (t.value.text ++ after) = false := by
  induction h generalizing front with
  | nil => simp [locate]
  | @cons gap tail rest last c token ls hgap hbegins hnext hrest ih =>
      intro t ht
      simp only [locate, List.mem_cons] at ht
      rcases ht with rfl | ht
      · have hpos : 0 < byteCount (c :: tail) := byteCount_pos (by simp)
        refine ⟨front ++ gap, rest, by simp, by simp, by simp, ?_, hbegins⟩
        simp only [byteCount_append]
        omega
      · rw [byteCount_behind] at ht
        obtain ⟨before, after, hsplit, hparts⟩ := ih (front ++ gap ++ c :: tail) t ht
        exact ⟨before, after, by rw [← hsplit]; simp, hparts⟩

/-- A gap between located lexemes cuts the source into what stands before it, a row of pieces
of trivia, and the rest. -/
theorem Reads.exists_gap_split {cs trailing : List Char} {ls : List Lexeme}
    (h : Reads cs ls trailing) (htrailing : Trivia.Row trailing []) (front : List Char) :
    ∀ range ∈ gapRanges (byteCount (front ++ cs)) (byteCount front)
        (locate (byteCount front) ls), ∃ before gap after,
      front ++ cs = before ++ (gap ++ after) ∧ range.1 = byteCount before ∧
        range.2 = byteCount (before ++ gap) ∧ Trivia.Row gap after := by
  induction h generalizing front with
  | @nil rest =>
      intro range hrange
      simp only [locate, gapRanges, List.mem_singleton] at hrange
      exact ⟨front, rest, [], by simp, by simp [hrange], by simp [hrange], htrailing⟩
  | @cons gap tail rest last c token ls hgap hbegins hnext hrest ih =>
      intro range hrange
      have hpos : 0 < byteCount (c :: tail) := byteCount_pos (by simp)
      have hwhole : front ++ (gap ++ c :: (tail ++ rest)) =
          front ++ gap ++ c :: tail ++ rest := by
        simp
      simp only [locate, gapRanges, List.mem_cons] at hrange
      rcases hrange with rfl | hrange
      · exact ⟨front, gap, c :: (tail ++ rest), rfl, rfl, by simp, hgap⟩
      · rw [Nat.sub_add_cancel (by omega), byteCount_behind, hwhole] at hrange
        obtain ⟨before, between, after, hsplit, hparts⟩ :=
          ih htrailing (front ++ gap ++ c :: tail) range hrange
        exact ⟨before, between, after, by rw [hwhole, hsplit], hparts⟩

/-- The lexemes that come after byte `start` begin there or later. -/
theorem start_le_first (start : Nat) (ls : List Lexeme) :
    ∀ t ∈ locate start ls, start ≤ t.first := by
  induction ls generalizing start with
  | nil => simp [locate]
  | cons l ls ih =>
      intro t ht
      simp only [locate, List.mem_cons] at ht
      rcases ht with rfl | ht
      · exact Nat.le_add_right _ _
      · have := ih _ t ht
        omega

/-- Each lexeme ends before the next one begins. -/
theorem pairwise_locate (start : Nat) {ls : List Lexeme} (h : ∀ l ∈ ls, l.text ≠ []) :
    (locate start ls).Pairwise fun a b => a.last < b.first := by
  induction ls generalizing start with
  | nil => exact .nil
  | cons l ls ih =>
      have hpos : 0 < byteCount l.text := byteCount_pos (h l List.mem_cons_self)
      simp only [locate, List.pairwise_cons]
      refine ⟨fun t ht => ?_, ih _ fun l hl => h l (List.mem_cons_of_mem _ hl)⟩
      have := start_le_first _ ls t ht
      omega

/-- No byte is left out and none is counted twice. -/
theorem countP_covers (start : Nat) {ls : List Lexeme} (h : ∀ l ∈ ls, l.text ≠ [])
    {size : Nat} (hsize : start + byteCount (ls.flatMap source) ≤ size) (n : Nat) :
    (tokenRanges (locate start ls) ++ gapRanges size start (locate start ls)).countP (covers n) =
      if start ≤ n ∧ n < size then 1 else 0 := by
  induction ls generalizing start with
  | nil =>
      simp only [locate, tokenRanges, gapRanges, List.map_nil, List.nil_append,
        List.countP_singleton, covers, Bool.and_eq_true, decide_eq_true_eq]
  | cons l ls ih =>
      have hpos : 0 < byteCount l.text := byteCount_pos (h l List.mem_cons_self)
      simp only [List.flatMap_cons, source, byteCount_append] at hsize
      have hrest := ih (start + byteCount l.gap + byteCount l.text)
        (fun l hl => h l (List.mem_cons_of_mem _ hl)) (by omega)
      rw [List.countP_append] at hrest
      simp only [locate, tokenRanges, gapRanges, List.map_cons, List.countP_append,
        List.countP_cons, covers, Bool.and_eq_true, decide_eq_true_eq]
      rw [Nat.sub_add_cancel (by omega)]
      rw [tokenRanges] at hrest
      split_ifs at hrest ⊢ <;> omega

end Lexeme

/-- The lexemes of a source tile it. -/
theorem tiles_locate_ofText (source : String) :
    Tiles source (Lexeme.locate 0 (Lexeme.ofText source.toList)) := by
  obtain ⟨trailing, hreads, htrailing⟩ := Lexeme.exists_reads_ofText source.toList
  have hsize := Lexeme.utf8ByteSize_eq_byteCount source
  have htext := hreads.text_ne_nil
  have hsplit := hreads.exists_split []
  have hgaps := hreads.exists_gap_split htrailing []
  simp only [List.nil_append, Lexeme.byteCount_nil, ← hsize] at hsplit hgaps
  have hbytes := congrArg Lexeme.byteCount hreads.source_append
  rw [Lexeme.byteCount_append, ← hsize] at hbytes
  have hbounds : ∀ t ∈ Lexeme.locate 0 (Lexeme.ofText source.toList),
      t.first ≤ t.last ∧ t.last < source.utf8ByteSize := by
    intro t ht
    obtain ⟨before, after, hcs, hne, hfirst, hlast, -⟩ := hsplit t ht
    have hpos := Lexeme.byteCount_pos hne
    rw [hsize, hcs]
    simp only [Lexeme.byteCount_append] at hlast ⊢
    omega
  refine ⟨?_, ?_, ?_, ?_, ?_, ?_, ?_, ?_⟩
  · exact fun t ht => (hbounds t ht).1
  · exact Lexeme.pairwise_locate 0 htext
  · exact fun t ht => (hbounds t ht).2
  · intro t ht
    obtain ⟨before, after, hcs, -, hfirst, hlast, -⟩ := hsplit t ht
    rw [hfirst, hlast]
    have hbehind : source.toList = before ++ t.value.text ++ after := by
      rw [hcs, List.append_assoc]
    exact ⟨Lexeme.isValid_of_split hcs, Lexeme.isValid_of_split hbehind⟩
  · intro t ht
    obtain ⟨before, after, hcs, -, hfirst, hlast, -⟩ := hsplit t ht
    rw [hfirst, hlast]
    exact Lexeme.slice_of_split hcs
  · intro range hrange
    obtain ⟨before, gap, after, hcs, hstart, hstop, hrow⟩ := hgaps range hrange
    have hbehind : source.toList = before ++ gap ++ after := by rw [hcs, List.append_assoc]
    rw [hstart, hstop, Lexeme.slice_of_split hcs, Lexeme.slice_to_end hbehind]
    exact ⟨by simp, hrow⟩
  · intro n hn
    rw [Lexeme.countP_covers 0 htext (by omega), if_pos ⟨Nat.zero_le n, hn⟩]
  · intro t ht
    obtain ⟨before, after, hcs, -, hfirst, -, hbegins⟩ := hsplit t ht
    rw [hfirst, Lexeme.slice_to_end hcs]
    exact hbegins

end SqlOutline
