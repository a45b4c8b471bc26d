import Mathlib.Data.List.DropRight
import Mitigador.Lib.Split

/-! Functions of Go's `strings` on valid UTF-8, a text being the list of its runes. -/

namespace Mitigador.Go

def isSpace (r : Char) : Bool :=
  let code := r.toNat
  (9 ≤ code && code ≤ 13) || code == 0x20 || code == 0x85 || code == 0xa0 || code == 0x1680 ||
    (0x2000 ≤ code && code ≤ 0x200a) || code == 0x2028 || code == 0x2029 || code == 0x202f ||
    code == 0x205f || code == 0x3000

theorem forall_of_all {P : Char → Prop} [DecidablePred P] {text : List Char}
    (checked : text.all (fun r => decide (P r)) = true) : ∀ r ∈ text, P r := by
  simpa using checked

def trimSpace (s : String) : String :=
  String.ofList ((s.toList.dropWhile isSpace).rdropWhile isSpace)

def trimRight (s cutset : String) : String :=
  String.ofList (s.toList.rdropWhile fun r => cutset.toList.contains r)

def trimSuffix (s suffix : String) : String :=
  if suffix.toList.isSuffixOf s.toList then
    String.ofList (s.toList.take (s.toList.length - suffix.toList.length))
  else s

def trimPrefix (s front : String) : String :=
  if front.toList.isPrefixOf s.toList then String.ofList (s.toList.drop front.toList.length) else s

def trim (s cutset : String) : String :=
  String.ofList ((s.toList.dropWhile fun r => cutset.toList.contains r).rdropWhile fun r =>
    cutset.toList.contains r)

/-- `strings.Split` at a separator that is not empty. -/
def split (s sep : String) : List String :=
  (Lib.pieces sep.toList 0 s.toList).map String.ofList

/-- `strings.Index` of one rune, counted in runes. -/
def indexRune (s : String) (r : Char) : Option Nat := s.toList.findIdx? (· == r)

def hasPrefix (s front : String) : Bool := front.toList.isPrefixOf s.toList

def contains (s part : String) : Bool :=
  s.toList.tails.any fun tail => part.toList.isPrefixOf tail

theorem trimSpace_eq_empty_iff (s : String) :
    trimSpace s = "" ↔ ∀ r ∈ s.toList, isSpace r = true := by
  have empty : trimSpace s = "" ↔ (s.toList.dropWhile isSpace).rdropWhile isSpace = [] := by
    rw [trimSpace, ← String.toList_inj, String.toList_ofList]
    rfl
  rw [empty, List.rdropWhile_eq_nil_iff]
  constructor
  · intro tail r member
    rw [← List.takeWhile_append_dropWhile (p := isSpace) (l := s.toList)] at member
    rcases List.mem_append.mp member with before | after
    · exact List.mem_takeWhile_imp before
    · exact tail r after
  · intro every r member
    exact every r ((List.dropWhile_sublist isSpace).subset member)

theorem rdropWhile_append {α : Type*} (p : α → Bool) (front back : List α) :
    (front ++ back).rdropWhile p =
      if ∀ x ∈ back, p x = true then front.rdropWhile p else front ++ back.rdropWhile p := by
  rw [List.rdropWhile, List.reverse_append, List.dropWhile_append]
  by_cases every : ∀ x ∈ back, p x = true
  · have gone : back.reverse.dropWhile p = [] := by
      rw [List.dropWhile_eq_nil_iff]
      intro x member
      exact every x (List.mem_reverse.mp member)
    rw [if_pos every, gone]
    rfl
  · have left : back.reverse.dropWhile p ≠ [] := by
      intro gone
      rw [List.dropWhile_eq_nil_iff] at gone
      exact every fun x member => gone x (List.mem_reverse.mpr member)
    rw [if_neg every, if_neg (by simpa using left), List.reverse_append, List.reverse_reverse]
    rfl

theorem trimPrefix_append (front : String) (rest : List Char) :
    trimPrefix (String.ofList (front.toList ++ rest)) front = String.ofList rest := by
  have matched : front.toList.isPrefixOf (front.toList ++ rest) = true := by
    rw [List.isPrefixOf_iff_prefix]
    exact List.prefix_append _ _
  rw [trimPrefix, String.toList_ofList, if_pos matched, List.drop_left]

theorem trimPrefix_other {front other : String} (n : Nat) (short : n ≤ other.toList.length)
    (unmatched : ¬ front.toList.take n <+: other.toList) (rest : List Char) :
    trimPrefix (String.ofList (other.toList ++ rest)) front =
      String.ofList (other.toList ++ rest) := by
  have different : ¬ front.toList.isPrefixOf (other.toList ++ rest) = true := by
    rw [List.isPrefixOf_iff_prefix]
    intro start
    exact unmatched (List.prefix_of_prefix_length_le ((List.take_prefix _ _).trans start)
      (List.prefix_append _ _) ((List.length_take_le _ _).trans short))
  rw [trimPrefix, String.toList_ofList, if_neg different]

/-- Nothing is trimmed from a text whose ends do not satisfy `p`. -/
def Bare {α : Type*} (p : α → Bool) (text : List α) : Prop :=
  (∀ x ∈ text.head?, p x = false) ∧ ∀ x ∈ text.getLast?, p x = false

theorem Bare.append {α : Type*} {p : α → Bool} {front back : List α} (first : Bare p front)
    (last : Bare p back) (some : front ≠ []) (more : back ≠ []) (middle : List α) :
    Bare p (front ++ middle ++ back) := by
  constructor
  · intro x head
    rw [List.append_assoc, List.head?_append_of_ne_nil _ some] at head
    exact first.1 x head
  · intro x tail
    rw [List.getLast?_append_of_ne_nil _ more] at tail
    exact last.2 x tail

theorem trim_around {α : Type*} {p : α → Bool} {front text back : List α} (bare : Bare p text)
    (before : ∀ x ∈ front, p x = true) (after : ∀ x ∈ back, p x = true) :
    ((front ++ text ++ back).dropWhile p).rdropWhile p = text := by
  rw [List.append_assoc, List.dropWhile_append_of_pos before]
  cases text with
  | nil =>
      have gone : back.dropWhile p = [] := List.dropWhile_eq_nil_iff.mpr after
      rw [List.nil_append, gone, List.rdropWhile_nil]
  | cons x text =>
      rw [List.cons_append, List.dropWhile_cons_of_neg (by simp [bare.1 x rfl]),
        ← List.cons_append, rdropWhile_append, if_pos after, List.rdropWhile_eq_self_iff]
      intro some
      simp [bare.2 _ (List.getLast_mem_getLast? some)]

theorem trim_bare {α : Type*} {p : α → Bool} {text : List α} (bare : Bare p text) :
    (text.dropWhile p).rdropWhile p = text := by
  have inner : (([] ++ text ++ []).dropWhile p).rdropWhile p = text := trim_around bare nofun nofun
  rwa [List.nil_append, List.append_nil] at inner

theorem trimSpace_append {text spaces : List Char} (bare : Bare isSpace text)
    (white : ∀ r ∈ spaces, isSpace r = true) :
    trimSpace (String.ofList (text ++ spaces)) = String.ofList text := by
  have kept : (([] ++ text ++ spaces).dropWhile isSpace).rdropWhile isSpace = text :=
    trim_around bare nofun white
  rw [List.nil_append] at kept
  rw [trimSpace, String.toList_ofList, kept]

theorem trimSpace_bare {text : List Char} (bare : Bare isSpace text) :
    trimSpace (String.ofList text) = String.ofList text := by
  rw [trimSpace, String.toList_ofList, trim_bare bare]

theorem bare_of_trimSpace {s : String} (trimmed : trimSpace s = s) : Bare isSpace s.toList := by
  have fixed : (s.toList.dropWhile isSpace).rdropWhile isSpace = s.toList := by
    rw [← String.toList_inj, trimSpace, String.toList_ofList] at trimmed
    exact trimmed
  have left : s.toList.dropWhile isSpace = s.toList := by
    apply (List.dropWhile_suffix isSpace).eq_of_length_le
    calc
      s.toList.length = ((s.toList.dropWhile isSpace).rdropWhile isSpace).length := by rw [fixed]
      _ ≤ (s.toList.dropWhile isSpace).length := (List.rdropWhile_prefix isSpace _).length_le
  have right : s.toList.rdropWhile isSpace = s.toList := by rwa [left] at fixed
  constructor
  · intro r head
    obtain ⟨rest, text⟩ := List.head?_eq_some_iff.mp head
    rw [text, List.dropWhile_eq_self_iff] at left
    simpa using left (Nat.zero_lt_succ _)
  · intro r last
    have some : s.toList ≠ [] := by
      intro none
      simp [none] at last
    have ending := (List.rdropWhile_eq_self_iff.mp right) some
    rw [Option.mem_def, List.getLast?_eq_some_getLast some] at last
    simpa [Option.some.inj last] using ending

theorem trimSpace_trimSuffix {suffix : Char} (space : isSpace suffix = true) (s : String) :
    trimSpace (trimSuffix s (String.ofList [suffix])) = trimSpace s := by
  rw [trimSuffix, String.toList_ofList]
  split
  next found =>
    obtain ⟨rest, text⟩ := List.isSuffixOf_iff_suffix.mp found
    rw [← text]
    simp only [List.length_append, List.length_singleton, Nat.add_sub_cancel, List.take_left,
      trimSpace, String.toList_ofList, ← text, List.dropWhile_append]
    split
    next gone =>
      rw [List.isEmpty_iff.mp gone, List.dropWhile_cons_of_pos space, List.dropWhile_nil]
    next => rw [List.rdropWhile_concat_pos _ _ _ space]
  next => rfl

end Mitigador.Go
