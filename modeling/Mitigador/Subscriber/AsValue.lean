import Mitigador.Go.Strings
import Mitigador.Lib.KeyedMap

/-! The as-value output of RouterOS and its parser (internal/subscriber/mikrotik.go). -/

namespace Mitigador.Subscriber

open Go Lib

/-- The most that the scanner of `parseAsValue` buffers for one line. -/
def maxTokenSize : Nat := 1024 * 1024

def fitsBuffer (line : String) : Bool := decide (line.utf8ByteSize < maxTokenSize)

/-- `bufio.ScanLines` over a whole text. The scanner stops before a line that its buffer cannot
hold; what follows that line is lost. -/
def scanLines (text : String) : List String :=
  let lines := split text "\n"
  let lines := if lines.getLast? = some "" then lines.dropLast else lines
  (lines.takeWhile fitsBuffer).map fun line => trimSuffix line "\x0d"

def addField (found : KeyedMap String String) (kv : String) : KeyedMap String String :=
  let kv := trimSpace kv
  if kv = "" then found
  else match indexRune kv '=' with
    | none | some 0 => found
    | some eq =>
        let k := trimSpace (String.ofList (kv.toList.take eq))
        let v := trimSpace (String.ofList (kv.toList.drop (eq + 1)))
        found.insert k (trim v "\x22")

def parseAsValueLine (line : String) : KeyedMap String String :=
  (split line ";").foldl addField ∅

def lineRecord (line : String) : Option (KeyedMap String String) :=
  let line := trimSpace line
  if line = "" then none
  else
    let found := parseAsValueLine line
    if found.entries.isEmpty then none else some found

def parseAsValue (s : String) : List (KeyedMap String String) :=
  (split s ";;;").flatMap fun chunk => (scanLines chunk).filterMap lineRecord

section Lines

variable {line : List Char}

theorem split_newline_cons (clear : '\n' ∉ line) (rest : List Char) :
    split (String.ofList (line ++ '\n' :: rest)) "\n" =
      String.ofList line :: split (String.ofList rest) "\n" := by
  have parted : pieces ['\n'] 0 (line ++ '\n' :: rest) = line :: pieces ['\n'] 0 rest :=
    pieces_append_separator (List.cons_ne_nil _ _) (clear_of_not_mem clear _)
  simp only [split, String.toList_ofList]
  exact congrArg (List.map String.ofList) parted

theorem scanLines_cons (clear : '\n' ∉ line)
    (short : fitsBuffer (String.ofList line) = true) (rest : List Char) :
    scanLines (String.ofList (line ++ '\n' :: rest)) =
      trimSuffix (String.ofList line) "\x0d" :: scanLines (String.ofList rest) := by
  have more : split (String.ofList rest) "\n" ≠ [] := by
    simpa [split] using pieces_ne_nil _ 0 rest
  rw [scanLines, scanLines, split_newline_cons clear, List.getLast?_cons_of_ne_nil more]
  split
  · rw [List.dropLast_cons_of_ne_nil more, List.takeWhile_cons_of_pos short, List.map_cons]
  · rw [List.takeWhile_cons_of_pos short, List.map_cons]

theorem lineRecord_empty : lineRecord "" = none := by decide

theorem lineRecord_trimSuffix (line : String) :
    lineRecord (trimSuffix line "\x0d") = lineRecord line := by
  have same : trimSpace (trimSuffix line "\x0d") = trimSpace line :=
    trimSpace_trimSuffix (by decide) line
  rw [lineRecord, lineRecord, same]

theorem scanLines_last (clear : '\n' ∉ line)
    (short : fitsBuffer (String.ofList line) = true) :
    (scanLines (String.ofList line)).filterMap lineRecord =
      (lineRecord (String.ofList line)).toList := by
  have whole : split (String.ofList line) "\n" = [String.ofList line] := by
    have one : pieces ['\n'] 0 line = [line] := pieces_clear (clear_of_not_mem clear _)
    simp only [split, String.toList_ofList]
    exact congrArg (List.map String.ofList) one
  by_cases blank : String.ofList line = ""
  · rw [blank, lineRecord_empty]
    decide
  · have kept : scanLines (String.ofList line) = [trimSuffix (String.ofList line) "\x0d"] := by
      simp [scanLines, whole, blank, short]
    rw [kept, List.filterMap_cons, lineRecord_trimSuffix]
    cases lineRecord (String.ofList line) <;> rfl

def Apart (line : List Char) : Prop := ∀ back, Clear [';', ';', ';'] line back

theorem apart_of_not_mem (clear : ';' ∉ line) : Apart line := fun back =>
  clear_of_not_mem clear back

theorem Apart.append {more : List Char} (first : Apart line) (second : Apart more) :
    Apart (line ++ more) := fun back => clear_append.mpr ⟨first _, second back⟩

theorem parseAsValue_of_pieces {text chunk : List Char} {chunks : List (List Char)}
    (parted : pieces [';', ';', ';'] 0 text = chunk :: chunks) :
    parseAsValue (String.ofList text) =
      (scanLines (String.ofList chunk)).filterMap lineRecord ++
        (chunks.map String.ofList).flatMap fun chunk =>
          (scanLines chunk).filterMap lineRecord := by
  have cut : split (String.ofList text) ";;;" = String.ofList chunk :: chunks.map String.ofList := by
    simp only [split, String.toList_ofList]
    exact congrArg (List.map String.ofList) parted
  rw [parseAsValue, cut, List.flatMap_cons]

theorem parseAsValue_semicolons (clear : '\n' ∉ line)
    (short : fitsBuffer (String.ofList line) = true) (apart : Apart line) (rest : List Char) :
    parseAsValue (String.ofList (line ++ ([';', ';', ';'] ++ rest))) =
      (lineRecord (String.ofList line)).toList ++ parseAsValue (String.ofList rest) := by
  have parted := pieces_append_separator (List.cons_ne_nil ';' [';', ';']) (apart (_ ++ rest))
  rw [parseAsValue_of_pieces parted, scanLines_last clear short]
  simp only [parseAsValue, split, String.toList_ofList]
  rfl

theorem parseAsValue_newline (clear : '\n' ∉ line)
    (short : fitsBuffer (String.ofList line) = true) (apart : Apart line) (rest : List Char) :
    parseAsValue (String.ofList (line ++ '\n' :: rest)) =
      (lineRecord (String.ofList line)).toList ++ parseAsValue (String.ofList rest) := by
  obtain ⟨chunk, chunks, following⟩ :=
    List.exists_cons_of_ne_nil (pieces_ne_nil [';', ';', ';'] 0 rest)
  have ended : Apart (line ++ ['\n']) := apart.append (apart_of_not_mem (by decide))
  have parted := pieces_append (ended rest)
  rw [following, List.modifyHead_cons, List.append_assoc, List.append_assoc,
    List.singleton_append, List.singleton_append] at parted
  rw [parseAsValue_of_pieces parted, parseAsValue_of_pieces following,
    scanLines_cons clear short, List.filterMap_cons, lineRecord_trimSuffix]
  cases lineRecord (String.ofList line) <;> rfl

theorem parseAsValue_last (clear : '\n' ∉ line)
    (short : fitsBuffer (String.ofList line) = true) (apart : Apart line) :
    parseAsValue (String.ofList line) = (lineRecord (String.ofList line)).toList := by
  rw [parseAsValue_of_pieces (pieces_clear (apart [])), scanLines_last clear short]
  exact List.append_nil _

end Lines

end Mitigador.Subscriber
