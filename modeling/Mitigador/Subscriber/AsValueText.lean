import Mitigador.Subscriber.AsValue

/-! Texts that print records as key=value fields, one record between two separators, and what
the parser reads back from them. -/

namespace Mitigador.Subscriber

open Go Lib

def quote : Char := '\x22'

structure Field where
  key : String
  value : String
  quoted : Bool
  key_some : key ≠ ""
  key_trimmed : trimSpace key = key
  key_plain : ∀ r ∈ key.toList, r ≠ '=' ∧ r ≠ ';' ∧ r ≠ '\r' ∧ r ≠ '\n'
  value_trimmed : trimSpace value = value
  value_plain : ∀ r ∈ value.toList, r ≠ ';' ∧ r ≠ '\r' ∧ r ≠ '\n'
  unquoted : Bare (· == quote) value.toList

namespace Field

variable (f : Field)

def shown : List Char :=
  if f.quoted then quote :: (f.value.toList ++ [quote]) else f.value.toList

def text : List Char := f.key.toList ++ '=' :: f.shown

theorem key_cons : ∃ r rest, f.key.toList = r :: rest ∧ r ≠ ';' ∧ isSpace r = false := by
  cases text : f.key.toList with
  | nil => exact absurd (String.toList_eq_nil_iff.mp text) f.key_some
  | cons r rest =>
      have plain := f.key_plain r (text ▸ List.mem_cons_self)
      have bare := (bare_of_trimSpace f.key_trimmed).1 r (by rw [text]; rfl)
      exact ⟨r, rest, rfl, plain.2.1, bare⟩

theorem key_ne_nil : f.key.toList ≠ [] := by
  obtain ⟨r, rest, text, -⟩ := f.key_cons
  rw [text]
  exact List.cons_ne_nil _ _

theorem shown_bare : Bare isSpace f.shown := by
  rw [shown]
  split
  · constructor
    · intro r head
      obtain rfl := Option.some.inj head
      decide
    · intro r last
      rw [← List.cons_append, List.getLast?_concat] at last
      obtain rfl := Option.some.inj last
      decide
  · exact bare_of_trimSpace f.value_trimmed

theorem shown_plain {r : Char} (member : r ∈ f.shown) : r ≠ ';' ∧ r ≠ '\n' := by
  rw [shown] at member
  split at member
  · rcases List.mem_cons.mp member with rfl | member
    · decide
    · rcases List.mem_append.mp member with inner | last
      · exact ⟨(f.value_plain r inner).1, (f.value_plain r inner).2.2⟩
      · obtain rfl := List.mem_singleton.mp last
        decide
  · exact ⟨(f.value_plain r member).1, (f.value_plain r member).2.2⟩

theorem text_plain {r : Char} (member : r ∈ f.text) : r ≠ ';' ∧ r ≠ '\n' := by
  rcases List.mem_append.mp member with front | rest
  · exact ⟨(f.key_plain r front).2.1, (f.key_plain r front).2.2.2⟩
  · rcases List.mem_cons.mp rest with rfl | back
    · decide
    · exact f.shown_plain back

theorem text_ne_nil : f.text ≠ [] := by
  simp [text]

theorem text_bare : Bare isSpace f.text := by
  have key := bare_of_trimSpace f.key_trimmed
  by_cases empty : f.shown = []
  · have sign : Bare isSpace ['='] := by
      constructor <;> · intro r only; obtain rfl := Option.some.inj only; decide
    have whole := key.append sign f.key_ne_nil (List.cons_ne_nil _ _) []
    rwa [List.append_nil, ← empty] at whole
  · have whole := key.append f.shown_bare f.key_ne_nil empty ['=']
    rwa [List.append_assoc, List.singleton_append] at whole

theorem trim_shown : trim (String.ofList f.shown) "\x22" = f.value := by
  have quotes : (fun r => "\x22".toList.contains r) = (· == quote) := by
    funext r
    rw [show "\x22".toList = [quote] by decide, List.contains_cons, List.contains_nil,
      Bool.or_false]
  have every : ∀ r ∈ [quote], (r == quote) = true := forall_of_all (by decide)
  rw [trim, quotes, String.toList_ofList, shown, ← String.toList_inj, String.toList_ofList]
  split
  · exact trim_around f.unquoted every every
  · exact trim_bare f.unquoted

theorem indexRune_text : indexRune (String.ofList f.text) '=' = some f.key.toList.length := by
  have before : f.key.toList.findIdx? (· == '=') = none := by
    rw [List.findIdx?_eq_none_iff]
    intro r member
    exact beq_false_of_ne (f.key_plain r member).1
  rw [indexRune, String.toList_ofList, text, List.findIdx?_append, before]
  simp [List.findIdx?_cons]

theorem addField_text (found : KeyedMap String String) :
    addField found (String.ofList f.text) = found.insert f.key f.value := by
  have some : String.ofList f.text ≠ "" := by
    intro none
    exact f.text_ne_nil (by rw [← String.toList_ofList (l := f.text), none]; rfl)
  have front : f.text.take f.key.toList.length = f.key.toList := by
    rw [text, List.take_left]
  have back : f.text.drop (f.key.toList.length + 1) = f.shown := by
    rw [text, ← List.drop_drop, List.drop_left]
    rfl
  obtain ⟨first, rest, long, -⟩ := f.key_cons
  have length : f.key.toList.length = rest.length + 1 := by rw [long, List.length_cons]
  have index := f.indexRune_text
  rw [length] at index front back
  simp only [addField, trimSpace_bare f.text_bare, if_neg some, index, String.toList_ofList, front, back,
    trimSpace_bare f.shown_bare, f.trim_shown, String.ofList_toList, f.key_trimmed]

end Field

def rowText : List Field → List Char
  | [] => []
  | [f] => f.text
  | f :: g :: rest => f.text ++ ';' :: rowText (g :: rest)

theorem rowText_cons (f : Field) (rest : List Field) :
    ∃ r tail, rowText (f :: rest) = r :: tail ∧ r ≠ ';' := by
  obtain ⟨r, tail, long, plain, -⟩ := f.key_cons
  cases rest with
  | nil => exact ⟨r, tail ++ '=' :: f.shown, by rw [rowText, Field.text, long, List.cons_append], plain⟩
  | cons g rest =>
      refine ⟨r, tail ++ '=' :: f.shown ++ ';' :: rowText (g :: rest), ?_, plain⟩
      rw [rowText, Field.text, long, List.cons_append, List.cons_append]

theorem rowText_no_newline (fields : List Field) : '\n' ∉ rowText fields := by
  fun_induction rowText fields with
  | case1 => exact List.not_mem_nil
  | case2 f => exact fun member => (f.text_plain member).2 rfl
  | case3 f g rest ih =>
      rw [List.mem_append, List.mem_cons]
      rintro (inner | same | later)
      · exact (f.text_plain inner).2 rfl
      · contradiction
      · exact ih later

/-- A semicolon inside a record is not followed by another. -/
theorem rowText_apart (fields : List Field) : Apart (rowText fields) := by
  have single (f : Field) : Apart f.text := apart_of_not_mem fun member => (f.text_plain member).1 rfl
  fun_induction rowText fields with
  | case1 => exact fun back => clear_nil _ back
  | case2 f => exact single f
  | case3 f g rest ih =>
      apply (single f).append
      intro back
      obtain ⟨r, tail, long, other⟩ := rowText_cons g rest
      rw [clear_cons]
      refine ⟨?_, ih back⟩
      rw [long, List.cons_append, List.cons_prefix_cons, List.cons_prefix_cons]
      rintro ⟨-, same, -⟩
      exact other same.symm

theorem rowText_bare (fields : List Field) (some : fields ≠ []) :
    Bare isSpace (rowText fields) ∧ rowText fields ≠ [] := by
  fun_induction rowText fields with
  | case1 => contradiction
  | case2 f => exact ⟨f.text_bare, f.text_ne_nil⟩
  | case3 f g rest ih =>
      obtain ⟨bare, more⟩ := ih (List.cons_ne_nil _ _)
      have whole := f.text_bare.append bare f.text_ne_nil more [';']
      rw [List.append_assoc, List.singleton_append] at whole
      exact ⟨whole, List.append_ne_nil_of_left_ne_nil f.text_ne_nil _⟩

theorem pieces_rowText (fields : List Field) (some : fields ≠ []) :
    pieces [';'] 0 (rowText fields) = fields.map Field.text := by
  have single (f : Field) (back : List Char) : Clear [';'] f.text back :=
    clear_of_not_mem (fun member => (f.text_plain member).1 rfl) back
  fun_induction rowText fields with
  | case1 => contradiction
  | case2 f => exact pieces_clear (single f [])
  | case3 f g rest ih =>
      have parted := pieces_append_separator (List.cons_ne_nil ';' [])
        (single f ([';'] ++ rowText (g :: rest)))
      rw [List.singleton_append, ih (List.cons_ne_nil _ _)] at parted
      exact parted

theorem parseAsValueLine_rowText (fields : List Field) (some : fields ≠ []) :
    parseAsValueLine (String.ofList (rowText fields)) =
      fields.foldl (fun found f => found.insert f.key f.value) ∅ := by
  have parted : split (String.ofList (rowText fields)) ";" =
      fields.map fun f => String.ofList f.text := by
    simp only [split, String.toList_ofList]
    rw [show ";".toList = [';'] by decide, pieces_rowText fields some, List.map_map]
    rfl
  rw [parseAsValueLine, parted, List.foldl_map]
  simp only [Field.addField_text]

structure Row where
  fields : List Field
  some : fields ≠ []
  distinct : (fields.map Field.key).Nodup
  short : (String.ofList (rowText fields)).utf8ByteSize < 1000000

def Reads (found : KeyedMap String String) (row : Row) : Prop :=
  ∀ k v, found.lookup k = some v ↔ ∃ f ∈ row.fields, f.key = k ∧ f.value = v

theorem Row.reads (row : Row) :
    Reads (row.fields.foldl (fun found f => found.insert f.key f.value) ∅) row := by
  intro k v
  rw [KeyedMap.lookup_insertAll, AList.lookup_empty, Option.or_none, Option.map_eq_some_iff]
  constructor
  · rintro ⟨f, found, value⟩
    exact ⟨f, List.mem_reverse.mp (List.mem_of_find?_eq_some found),
      by simpa using List.find?_some found, value⟩
  · rintro ⟨f, member, key, value⟩
    cases found : KeyedMap.lastAt Field.key k row.fields with
    | none =>
        have missed := List.find?_eq_none.mp found f (List.mem_reverse.mpr member)
        simp [key] at missed
    | some g =>
        have own : g.key = k := by simpa using List.find?_some found
        have among := List.mem_reverse.mp (List.mem_of_find?_eq_some found)
        have same := List.inj_on_of_nodup_map row.distinct among member (own.trans key.symm)
        exact ⟨g, rfl, same ▸ value⟩

inductive Line
  | blank (spaces : List Char) (white : ∀ r ∈ spaces, isSpace r = true ∧ r ≠ '\n')
      (short : (String.ofList spaces).utf8ByteSize < 1000000)
  | row (row : Row)

inductive Ending
  | newline
  | crlf
  | semicolons
  deriving DecidableEq

namespace Line

def text : Line → List Char
  | .blank spaces _ _ => spaces
  | .row printed => rowText printed.fields

def row? : Line → Option Row
  | .blank .. => none
  | .row printed => some printed

def record (line : Line) : Option (KeyedMap String String) :=
  line.row?.map fun row => row.fields.foldl (fun found f => found.insert f.key f.value) ∅

variable (line : Line)

theorem short : (String.ofList line.text).utf8ByteSize < 1000000 := by
  cases line with
  | blank _ _ short => exact short
  | row row => exact row.short

theorem text_no_newline : '\n' ∉ line.text := by
  cases line with
  | blank spaces white _ => exact fun member => (white _ member).2 rfl
  | row row => exact rowText_no_newline row.fields

theorem text_apart : Apart line.text := by
  cases line with
  | blank spaces white _ =>
      apply apart_of_not_mem
      intro member
      exact absurd (white _ member).1 (by decide)
  | row row => exact rowText_apart row.fields

theorem lineRecord_text (ending : List Char) (white : ∀ r ∈ ending, isSpace r = true) :
    lineRecord (String.ofList (line.text ++ ending)) = line.record := by
  cases line with
  | blank spaces blank _ =>
      have nothing : trimSpace (String.ofList (spaces ++ ending)) = "" := by
        rw [trimSpace_eq_empty_iff, String.toList_ofList]
        intro r member
        rcases List.mem_append.mp member with inner | last
        · exact (blank r inner).1
        · exact white r last
      rw [lineRecord, text, nothing]
      rfl
  | row row =>
      obtain ⟨bare, more⟩ := rowText_bare row.fields row.some
      have trimmed : trimSpace (String.ofList (rowText row.fields ++ ending)) =
          String.ofList (rowText row.fields) := trimSpace_append bare white
      have some : String.ofList (rowText row.fields) ≠ "" := by
        intro none
        exact more (by rw [← String.toList_ofList (l := rowText row.fields), none]; rfl)
      have filled : (row.fields.foldl (fun found f => found.insert f.key f.value)
          (∅ : KeyedMap String String)).entries.isEmpty = false := by
        obtain ⟨f, rest, long⟩ := List.exists_cons_of_ne_nil row.some
        have stored := (row.reads f.key f.value).mpr ⟨f, long ▸ List.mem_cons_self, rfl, rfl⟩
        rw [← KeyedMap.mem_entries] at stored
        simpa using List.ne_nil_of_mem stored
      rw [lineRecord, text, trimmed]
      simp only [if_neg some, parseAsValueLine_rowText row.fields row.some, filled]
      rfl

theorem fitsBuffer_text (ending : List Char)
    (short : (String.ofList ending).utf8ByteSize ≤ 1) :
    fitsBuffer (String.ofList (line.text ++ ending)) = true := by
  have bound := line.short
  rw [fitsBuffer, decide_eq_true_eq, String.ofList_append, String.utf8ByteSize_append, maxTokenSize]
  omega

end Line

def Ending.text : Ending → List Char
  | newline => ['\n']
  | crlf => ['\r', '\n']
  | semicolons => [';', ';', ';']

/-- Lines with their separators, and a last one that ends with the text. -/
def document : List (Line × Ending) → Line → List Char
  | [], last => last.text
  | (line, ending) :: rest, last => line.text ++ (ending.text ++ document rest last)

theorem parseAsValue_line (line : Line) (ending : Ending) (rest : List Char) :
    parseAsValue (String.ofList (line.text ++ (ending.text ++ rest))) =
      line.record.toList ++ parseAsValue (String.ofList rest) := by
  have plain := line.lineRecord_text [] nofun
  have fits := line.fitsBuffer_text [] (by decide)
  rw [List.append_nil] at plain fits
  cases ending with
  | newline =>
      exact plain ▸ parseAsValue_newline line.text_no_newline fits line.text_apart rest
  | semicolons =>
      exact plain ▸ parseAsValue_semicolons line.text_no_newline fits line.text_apart rest
  | crlf =>
      have returned := line.lineRecord_text ['\r'] (forall_of_all (by decide))
      have clear : '\n' ∉ line.text ++ ['\r'] := by
        rw [List.mem_append]
        rintro (inner | last)
        · exact line.text_no_newline inner
        · simp at last
      have apart : Apart (line.text ++ ['\r']) :=
        line.text_apart.append (apart_of_not_mem (by decide))
      have read := parseAsValue_newline clear (line.fitsBuffer_text ['\r'] (by decide)) apart rest
      rw [List.append_assoc, returned] at read
      exact read

theorem parseAsValue_document_records (lines : List (Line × Ending)) (last : Line) :
    parseAsValue (String.ofList (document lines last)) =
      (lines.map Prod.fst ++ [last]).filterMap Line.record := by
  induction lines with
  | nil =>
      have plain := last.lineRecord_text [] nofun
      have fits := last.fitsBuffer_text [] (by decide)
      rw [List.append_nil] at plain fits
      rw [document, parseAsValue_last last.text_no_newline fits last.text_apart, plain]
      rw [List.map_nil, List.nil_append, List.filterMap_cons, List.filterMap_nil]
      cases last.record <;> rfl
  | cons entry rest ih =>
      calc
        _ = entry.1.record.toList ++ parseAsValue (String.ofList (document rest last)) := by
          rw [document, parseAsValue_line]
        _ = entry.1.record.toList ++ (rest.map Prod.fst ++ [last]).filterMap Line.record := by
          rw [ih]
        _ = (entry.1 :: (rest.map Prod.fst ++ [last])).filterMap Line.record := by
          rw [List.filterMap_cons]
          cases entry.1.record <;> rfl

/-- The parser reads back the records of a printed text, in order. -/
theorem parseAsValue_document (lines : List (Line × Ending)) (last : Line) :
    List.Forall₂ Reads (parseAsValue (String.ofList (document lines last)))
      ((lines.map Prod.fst ++ [last]).filterMap Line.row?) := by
  have records : (lines.map Prod.fst ++ [last]).filterMap Line.record =
      ((lines.map Prod.fst ++ [last]).filterMap Line.row?).map fun row =>
        row.fields.foldl (fun found f => found.insert f.key f.value) ∅ := by
    rw [List.map_filterMap]
    rfl
  rw [parseAsValue_document_records, records, List.forall₂_map_left_iff, List.forall₂_same]
  exact fun row _ => row.reads

def sampleName : Field :=
  ⟨"name", "joao", true, by decide, by decide, forall_of_all (by decide), by decide,
    forall_of_all (by decide), by constructor <;> simp [quote]⟩

def sampleAddress : Field :=
  ⟨"address", "", false, by decide, by decide, forall_of_all (by decide), by decide,
    forall_of_all (by decide), by constructor <;> simp⟩

def sampleRow : Row := ⟨[sampleName, sampleAddress], by decide, by decide, by decide⟩

def otherRow : Row := ⟨[{ sampleAddress with quoted := true }], by decide, by decide, by decide⟩

theorem parseAsValue_document_sample : ∃ first second : KeyedMap String String,
    parseAsValue "name=\x22joao\x22;address=\x0d\n ;;;address=\x22\x22" = [first, second] ∧
      first.lookup "name" = some "joao" ∧ first.lookup "address" = some "" ∧
      second.lookup "address" = some "" := by
  have read := parseAsValue_document
    [(.row sampleRow, .crlf), (.blank [' '] (forall_of_all (by decide)) (by decide), .semicolons)]
    (.row otherRow)
  have text : String.ofList (document [(.row sampleRow, .crlf),
      (.blank [' '] (forall_of_all (by decide)) (by decide), .semicolons)] (.row otherRow)) =
        "name=\x22joao\x22;address=\x0d\n ;;;address=\x22\x22" := by
    decide
  rw [text] at read
  obtain ⟨first, rest, reads, more, whole⟩ := List.forall₂_cons_right_iff.mp read
  obtain ⟨second, none, others, ended, rfl⟩ := List.forall₂_cons_right_iff.mp more
  obtain rfl := List.forall₂_nil_right_iff.mp ended
  exact ⟨first, second, whole, (reads _ _).mpr ⟨sampleName, by simp [sampleRow], rfl, rfl⟩,
    (reads _ _).mpr ⟨sampleAddress, by simp [sampleRow], rfl, rfl⟩,
    (others _ _).mpr ⟨_, List.mem_singleton.mpr rfl, rfl, rfl⟩⟩

end Mitigador.Subscriber
