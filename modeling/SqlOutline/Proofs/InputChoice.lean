import SqlOutline.CommandLine
import SqlOutline.Proofs.Utf8

/-!
# The place that a statement is taken from

A place is chosen by what is given, not by what can be read, so a file that is missing is not
replaced by an argument. What is read is decided by the bytes at that place alone: they are the
text of the statement as they are, with a byte order mark and the blanks around it, or no text
at all. If they are no text then the error names the place. Only the filter of the log is
checked before, and that check does not depend on the place.

## Main results

* `InputPlace.text_of_chooses`: only the chosen place is read.
* `Contents.text_eq_ok_iff`, `Contents.text_of_not_mem`: which bytes are a text.
* `hasNonblank_iff`: that a text is not blank, said of its bytes.
* `InputSources.read_eq_ok_iff`: what is read is that text, if it is not blank.
* `InputPlace.decides`: the chosen place decides what a run comes to.
-/

namespace SqlOutline

/-- A place that a statement can be taken from. -/
inductive InputPlace where
  | file (path : String) (contents : Contents)
  | argument (sql : String)
  | standardInput (contents : Contents)

/-- Whether a place is the one that is chosen: the file if one is named, else the argument,
else the standard input. -/
def InputSources.Chooses (sources : InputSources) : InputPlace → Prop
  | .file path contents => sources.file = some (path, contents)
  | .argument sql => sources.file = none ∧ sources.argument = some sql
  | .standardInput contents =>
    sources.file = none ∧ sources.argument = none ∧ sources.standardInput = contents

namespace InputPlace

/-- The bytes at a place, or why they are missing. -/
def contents : InputPlace → Contents
  | .file _ contents => contents
  | .argument sql => .ok sql.toByteArray
  | .standardInput contents => contents

/-- The error for a place that cannot be read as text, which an argument is not. -/
def error? : InputPlace → ReadFailure → Option InputError
  | .file path _, cause => some (.unreadableFile path cause)
  | .argument _, _ => none
  | .standardInput _, cause => some (.unreadableStandardInput cause)

/-- The text at a place. -/
def text : InputPlace → Except InputError String
  | .file path contents => contents.text.mapError (.unreadableFile path)
  | .argument sql => .ok sql
  | .standardInput contents => contents.text.mapError .unreadableStandardInput

end InputPlace

/-! ### Bytes as text -/

namespace Contents

variable {contents : Contents} {bytes : ByteArray} {sql : String}

/-- A text has the bytes that are there. -/
theorem text_eq_ok_iff : contents.text = .ok sql ↔ contents = .ok sql.toByteArray := by
  cases contents with
  | error cause => simp [text]
  | ok bytes =>
      rw [text, Except.ok.injEq, ← Utf8.fromUTF8?_eq_some_iff]
      cases String.fromUTF8? bytes <;> simp

/-- Bytes that are not well-formed are no text. -/
theorem text_of_not_mem (h : bytes.data.toList ∉ Utf8.texts) :
    Contents.text (.ok bytes) = .error .invalidUtf8 := by
  rw [text, Utf8.fromUTF8?_eq_none_iff.mpr h]

end Contents

/-- Whether well-formed bytes have a character in them that is not blank. -/
def HasNonblank (bytes : ByteArray) : Prop :=
  ∃ front c back, bytes.data.toList = front ++ (String.utf8EncodeChar c ++ back) ∧
    isBlank c = false ∧ front ∈ Utf8.texts ∧ back ∈ Utf8.texts

/-- A text has such a character if its bytes have one in them. -/
theorem hasNonblank_iff {sql : String} :
    HasNonblank sql.toByteArray ↔ ∃ c ∈ sql.toList, isBlank c = false := by
  constructor
  · rintro ⟨front, c, back, hbytes, hc, hfront, hback⟩
    obtain ⟨cs, rfl⟩ := Utf8.mem_texts_iff_exists_list.mp hfront
    obtain ⟨ds, rfl⟩ := Utf8.mem_texts_iff_exists_list.mp hback
    rw [Utf8.toList_data_toByteArray, ← List.flatMap_cons, ← List.flatMap_append,
      Utf8.flatMap_utf8EncodeChar_inj] at hbytes
    exact ⟨c, by simp [hbytes], hc⟩
  · rintro ⟨c, hmem, hc⟩
    obtain ⟨cs, ds, hsql⟩ := List.append_of_mem hmem
    refine ⟨cs.flatMap String.utf8EncodeChar, c, ds.flatMap String.utf8EncodeChar, ?_, hc,
      Utf8.mem_texts_iff_exists_list.mpr ⟨cs, rfl⟩,
      Utf8.mem_texts_iff_exists_list.mpr ⟨ds, rfl⟩⟩
    rw [Utf8.toList_data_toByteArray, hsql, List.flatMap_append, List.flatMap_cons]

/-- A text without such a character is blank. -/
theorem not_hasNonblank_iff {sql : String} :
    ¬ HasNonblank sql.toByteArray ↔ sql.toList.all isBlank = true := by
  rw [hasNonblank_iff, List.all_eq_true]
  simp

/-! ### The text at the chosen place -/

namespace InputPlace

variable {place : InputPlace} {s : InputSources} {sql : String} {cause : ReadFailure}

/-- To put an error in other words changes no value. -/
theorem mapError_eq_ok_iff {ε ε' α : Type} {x : Except ε α} {f : ε → ε'} {a : α} :
    x.mapError f = .ok a ↔ x = .ok a := by
  cases x <;> simp [Except.mapError]

/-- Only the chosen place is read. -/
theorem text_of_chooses (h : s.Chooses place) : s.text = place.text := by
  cases place with
  | file path contents =>
      have hfile : s.file = some (path, contents) := h
      rw [InputSources.text, hfile]
      rfl
  | argument sql =>
      rw [InputSources.text, h.1, h.2]
      rfl
  | standardInput contents =>
      obtain ⟨hfile, hargument, rfl⟩ := h
      rw [InputSources.text, hfile, hargument]
      rfl

/-- A place has a text if it holds the bytes of that text. -/
theorem text_eq_ok_iff : place.text = .ok sql ↔ place.contents = .ok sql.toByteArray := by
  cases place with
  | file path contents =>
      rw [text, InputPlace.contents, mapError_eq_ok_iff, Contents.text_eq_ok_iff]
  | argument sql =>
      rw [text, contents, Except.ok.injEq, Except.ok.injEq, String.toByteArray_inj]
  | standardInput contents =>
      rw [text, InputPlace.contents, mapError_eq_ok_iff, Contents.text_eq_ok_iff]

/-- A place that cannot be read is named in the error. -/
theorem exists_text_eq_error (h : place.contents.text = .error cause) :
    ∃ e ∈ place.error? cause, place.text = .error e := by
  cases place with
  | file path contents =>
      have hcontents : contents.text = .error cause := h
      exact ⟨_, rfl, by rw [text, hcontents]; rfl⟩
  | argument sql =>
      rw [contents, Contents.text_eq_ok_iff.mpr rfl] at h
      cases h
  | standardInput contents =>
      have hcontents : contents.text = .error cause := h
      exact ⟨_, rfl, by rw [text, hcontents]; rfl⟩

end InputPlace

namespace InputSources

variable {s : InputSources} {sql : String} {e : InputError}

/-- What cannot be read as text is no statement. -/
theorem read_of_error (h : s.text = .error e) : s.read = .error e := by
  rw [read, h]

/-- A text is a statement unless it is blank. -/
theorem read_of_ok (h : s.text = .ok sql) :
    s.read = if sql.toList.all isBlank then .error .empty else .ok sql := by
  rw [read, h]

/-- A blank text is not read. -/
theorem read_of_blank (h : s.text = .ok sql) (hblank : ¬ HasNonblank sql.toByteArray) :
    s.read = .error .empty := by
  rw [read_of_ok h, if_pos (not_hasNonblank_iff.mp hblank)]

/-- What is read is the text, which is not blank. -/
theorem read_eq_ok_iff :
    s.read = .ok sql ↔ s.text = .ok sql ∧ HasNonblank sql.toByteArray := by
  constructor
  · intro h
    cases htext : s.text with
    | error e =>
        rw [read_of_error htext] at h
        cases h
    | ok text =>
        rw [read_of_ok htext] at h
        split_ifs at h with hblank
        cases h
        exact ⟨rfl, not_not.mp (mt not_hasNonblank_iff.mp hblank)⟩
  · rintro ⟨htext, hnonblank⟩
    rw [read_of_ok htext, if_neg]
    exact fun hblank => not_hasNonblank_iff.mpr hblank hnonblank

/-- One place is chosen, whatever is given. -/
theorem existsUnique_chooses (s : InputSources) : ∃! place, s.Chooses place := by
  obtain ⟨argument, file, standardInput⟩ := s
  cases file with
  | some named =>
      refine ⟨.file named.1 named.2, rfl, fun place h => ?_⟩
      cases place with
      | file => cases h; rfl
      | argument => cases h.1
      | standardInput => cases h.1
  | none =>
      cases argument with
      | some sql =>
          refine ⟨.argument sql, ⟨rfl, rfl⟩, fun place h => ?_⟩
          cases place with
          | file => cases h
          | argument => cases h.2; rfl
          | standardInput => cases h.2.1
      | none =>
          refine ⟨.standardInput standardInput, ⟨rfl, rfl, rfl⟩, fun place h => ?_⟩
          cases place with
          | file => cases h
          | argument => cases h.2
          | standardInput => cases h.2.2; rfl

end InputSources

/-! ### What a run comes to -/

/-- Whether a place alone decides what a run comes to that takes its statement from there. -/
structure InputPlace.Decides (place : InputPlace) : Prop where
  /-- Whatever is in the other places, the same is read. -/
  alone : ∀ s t : InputSources, s.Chooses place → t.Chooses place → s.read = t.read
  /-- A statement is read if the bytes are well-formed and have a character that
  is not blank. -/
  readable : ∀ s : InputSources, s.Chooses place → ((∃ sql, s.read = .ok sql) ↔
    ∃ bytes, place.contents = .ok bytes ∧ bytes.data.toList ∈ Utf8.texts ∧ HasNonblank bytes)
  /-- It has these bytes. -/
  whole : ∀ s : InputSources, s.Chooses place → ∀ sql, s.read = .ok sql →
    place.contents = .ok sql.toByteArray
  missing : ∀ s : InputSources, s.Chooses place → ∀ cause, place.contents = .error cause →
    ∃ e ∈ place.error? cause, s.read = .error e
  illFormed : ∀ s : InputSources, s.Chooses place → ∀ bytes, place.contents = .ok bytes →
    bytes.data.toList ∉ Utf8.texts → ∃ e ∈ place.error? .invalidUtf8, s.read = .error e
  blank : ∀ s : InputSources, s.Chooses place → ∀ bytes, place.contents = .ok bytes →
    bytes.data.toList ∈ Utf8.texts → ¬ HasNonblank bytes → s.read = .error .empty
  /-- Nothing at the place counts if the filter of the log is refused. -/
  refused : ∀ (o : Options) (w : Surroundings) (error : RunError),
    o.logFilterError? w = some error → o.run w = .failed error
  /-- If it is not then a run fails with the error for the place, -/
  failed : ∀ (o : Options) (w : Surroundings), (o.sources w).Chooses place →
    o.logFilterError? w = none → ∀ e, (o.sources w).read = .error e →
      o.run w = .failed (.input e)
  /-- or it reports on the text with these bytes, in the format that the options name. -/
  report : ∀ (o : Options) (w : Surroundings), (o.sources w).Chooses place →
    o.logFilterError? w = none →
      ∀ sql, place.contents = .ok sql.toByteArray → HasNonblank sql.toByteArray →
        o.run w = .report (endLine (Report.onText sql o.reportFormat o.pretty))
  /-- With the same bytes at any other place a run in the same format comes to the same, which
  may be that the filter of the log is refused. -/
  same : ∀ (place' : InputPlace) (o o' : Options) (w w' : Surroundings),
    (o.sources w).Chooses place → (o'.sources w').Chooses place' →
      ∀ sql : String, place.contents = .ok sql.toByteArray →
        place'.contents = .ok sql.toByteArray → HasNonblank sql.toByteArray →
          o.reportFormat = o'.reportFormat → o.pretty = o'.pretty →
            o.logFilterError? w = o'.logFilterError? w' → o.run w = o'.run w'

namespace InputPlace

variable {place : InputPlace} {s : InputSources}

/-- A statement is read if there are well-formed bytes that are not blank. -/
theorem exists_read_iff (h : s.Chooses place) : (∃ sql, s.read = .ok sql) ↔
    ∃ bytes, place.contents = .ok bytes ∧ bytes.data.toList ∈ Utf8.texts ∧
      HasNonblank bytes := by
  simp only [InputSources.read_eq_ok_iff, text_of_chooses h, text_eq_ok_iff]
  constructor
  · rintro ⟨sql, hcontents, hnonblank⟩
    exact ⟨_, hcontents, Utf8.mem_texts_iff.mpr ⟨sql, rfl⟩, hnonblank⟩
  · rintro ⟨bytes, hcontents, htext, hnonblank⟩
    obtain ⟨sql, rfl⟩ := Utf8.mem_texts_iff.mp htext
    exact ⟨sql, hcontents, hnonblank⟩

/-- A place that holds no text is named in the error for the statement. -/
theorem exists_read_eq_error (h : s.Chooses place) {cause : ReadFailure}
    (hcontents : place.contents.text = .error cause) :
    ∃ e ∈ place.error? cause, s.read = .error e := by
  obtain ⟨e, he, htext⟩ := exists_text_eq_error hcontents
  exact ⟨e, he, InputSources.read_of_error ((text_of_chooses h).trans htext)⟩

variable {o : Options} {w : Surroundings} {sql : String}

/-- A run whose filter of the log is refused looks at no place. -/
theorem run_of_logFilterError {error : RunError} (h : o.logFilterError? w = some error) :
    o.run w = .failed error := by
  rw [Options.run, h]

/-- The text at the chosen place is reported on. -/
theorem run_of_chooses (h : (o.sources w).Chooses place) (hfilter : o.logFilterError? w = none)
    (hcontents : place.contents = .ok sql.toByteArray)
    (hnonblank : HasNonblank sql.toByteArray) :
    o.run w = .report (endLine (Report.onText sql o.reportFormat o.pretty)) := by
  have htext := (text_of_chooses h).trans (text_eq_ok_iff.mpr hcontents)
  rw [Options.run, hfilter]
  dsimp only
  rw [InputSources.read_eq_ok_iff.mpr ⟨htext, hnonblank⟩]

/-- The same text at two places comes to the same. -/
theorem run_eq_run {place' : InputPlace} {o' : Options} {w' : Surroundings}
    (h : (o.sources w).Chooses place) (h' : (o'.sources w').Chooses place')
    (hcontents : place.contents = .ok sql.toByteArray)
    (hcontents' : place'.contents = .ok sql.toByteArray)
    (hnonblank : HasNonblank sql.toByteArray)
    (hformat : o.reportFormat = o'.reportFormat) (hpretty : o.pretty = o'.pretty)
    (hfilter : o.logFilterError? w = o'.logFilterError? w') : o.run w = o'.run w' := by
  cases herror : o'.logFilterError? w' with
  | some error =>
      rw [run_of_logFilterError herror, run_of_logFilterError (hfilter.trans herror)]
  | none =>
      rw [run_of_chooses h' herror hcontents' hnonblank,
        run_of_chooses h (hfilter.trans herror) hcontents hnonblank, hformat, hpretty]

/-- One place is chosen, whatever is given, and it alone decides what a run comes to. -/
theorem decides : (∀ s : InputSources, ∃! place, s.Chooses place) ∧
    ∀ place : InputPlace, place.Decides := by
  refine ⟨InputSources.existsUnique_chooses, fun place => ?_⟩
  constructor
  case alone =>
      intro s t hs ht
      rw [InputSources.read, InputSources.read, text_of_chooses hs, text_of_chooses ht]
  case readable =>
      intro s hs
      exact exists_read_iff hs
  case whole =>
      intro s hs sql hread
      have htext := (InputSources.read_eq_ok_iff.mp hread).1
      exact text_eq_ok_iff.mp ((text_of_chooses hs).symm.trans htext)
  case missing =>
      intro s hs cause hcontents
      exact exists_read_eq_error hs (by rw [hcontents, Contents.text])
  case illFormed =>
      intro s hs bytes hcontents htext
      exact exists_read_eq_error hs (by rw [hcontents, Contents.text_of_not_mem htext])
  case blank =>
      intro s hs bytes hcontents htext hblank
      obtain ⟨sql, rfl⟩ := Utf8.mem_texts_iff.mp htext
      have hsql := (text_of_chooses hs).trans (text_eq_ok_iff.mpr hcontents)
      exact InputSources.read_of_blank hsql hblank
  case refused =>
      intro o w error hfilter
      exact run_of_logFilterError hfilter
  case failed =>
      intro o w hs hfilter e hread
      rw [Options.run, hfilter]
      dsimp only
      rw [hread]
  case report =>
      intro o w hs hfilter sql hcontents hnonblank
      exact run_of_chooses hs hfilter hcontents hnonblank
  case same =>
      intro place' o o' w w' hs hs' sql hcontents hcontents' hnonblank hformat hpretty hfilter
      exact run_eq_run hs hs' hcontents hcontents' hnonblank hformat hpretty hfilter

end InputPlace

end SqlOutline
