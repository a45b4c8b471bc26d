import Mathlib.Data.List.Count
import Mitigador.Go.Strings

/-! `SplitHostPort` and `JoinHostPort` of Go's `net`. -/

namespace Mitigador.Go

/-- `strings.LastIndex` of one rune, counted in runes. -/
def lastIndexRune (s : String) (r : Char) : Option Nat :=
  (s.toList.reverse.findIdx? (· == r)).map fun index => s.toList.length - 1 - index

def missingPort : String := "missing port in address"
def tooManyColons : String := "too many colons in address"

/-- The end of `net.SplitHostPort`: brackets elsewhere are refused. -/
def splitFound (text : List Char) (i j k : Nat) (host : List Char) :
    Except String (String × String) :=
  if (text.drop j).contains '[' then .error "unexpected '[' in address"
  else if (text.drop k).contains ']' then .error "unexpected ']' in address"
  else .ok (String.ofList host, String.ofList (text.drop (i + 1)))

/-- `net.SplitHostPort`, with the reason of its error. -/
def splitHostPort (hostport : String) : Except String (String × String) :=
  let text := hostport.toList
  match lastIndexRune hostport ':' with
  | none => .error missingPort
  | some i =>
      if text.head? = some '[' then
        match indexRune hostport ']' with
        | none => .error "missing ']' in address"
        | some close =>
            if close + 1 = text.length then .error missingPort
            else if close + 1 = i then
              splitFound text i 1 (close + 1) ((text.take close).drop 1)
            else if text[close + 1]? = some ':' then .error tooManyColons
            else .error missingPort
      else
        let host := text.take i
        if host.contains ':' then .error tooManyColons else splitFound text i 0 0 host

def joinHostPort (host port : String) : String :=
  if host.toList.contains ':' then "[" ++ host ++ "]:" ++ port else host ++ ":" ++ port

section

variable {r : Char} {front back : List Char}

theorem indexRune_append (front back : List Char) (missing : r ∉ front) :
    indexRune (String.ofList (front ++ r :: back)) r = some front.length := by
  have before : front.findIdx? (· == r) = none := by
    rw [List.findIdx?_eq_none_iff]
    intro x member
    exact beq_false_of_ne fun same => missing (same ▸ member)
  rw [indexRune, String.toList_ofList, List.findIdx?_append, before]
  simp [List.findIdx?_cons]

theorem lastIndexRune_append (missing : r ∉ back) (front : List Char) :
    lastIndexRune (String.ofList (front ++ r :: back)) r = some front.length := by
  have mirrored := indexRune_append back.reverse front.reverse (mt List.mem_reverse.mp missing)
  rw [indexRune, String.toList_ofList] at mirrored
  rw [lastIndexRune, String.toList_ofList, List.reverse_append, List.reverse_cons,
    List.append_assoc, List.singleton_append, mirrored]
  simp

theorem lastIndexRune_none (missing : r ∉ front) :
    lastIndexRune (String.ofList front) r = none := by
  rw [lastIndexRune, String.toList_ofList, Option.map_eq_none_iff, List.findIdx?_eq_none_iff]
  intro x member
  exact beq_false_of_ne fun same => missing (List.mem_reverse.mp (same ▸ member))

theorem exists_last (member : r ∈ front) : ∃ before after, front = before ++ r :: after ∧ r ∉ after := by
  obtain ⟨after, before, reversed, missing⟩ :=
    List.eq_append_cons_of_mem (List.mem_reverse.mpr member)
  refine ⟨before.reverse, after.reverse, ?_, mt List.mem_reverse.mp missing⟩
  rw [← List.reverse_reverse front, reversed]
  simp

end

def Unbracketed (text : List Char) : Prop := '[' ∉ text ∧ ']' ∉ text

section

variable {host port : List Char}

theorem joinHostPort_plain (missing : ':' ∉ host) (port : String) :
    joinHostPort (String.ofList host) port = String.ofList (host ++ ':' :: port.toList) := by
  rw [joinHostPort, String.toList_ofList, if_neg (by simpa using missing), ← String.toList_inj]
  simp

theorem joinHostPort_colon (member : ':' ∈ host) (port : String) :
    joinHostPort (String.ofList host) port =
      String.ofList ('[' :: (host ++ ']' :: ':' :: port.toList)) := by
  rw [joinHostPort, String.toList_ofList, if_pos (by simpa using member), ← String.toList_inj]
  simp

theorem splitHostPort_no_colon (missing : ':' ∉ host) :
    splitHostPort (String.ofList host) = .error missingPort := by
  rw [splitHostPort, lastIndexRune_none missing]

theorem splitHostPort_plain (single : ':' ∉ host) (last : ':' ∉ port)
    (hostClear : Unbracketed host) (portClear : Unbracketed port) :
    splitHostPort (String.ofList (host ++ ':' :: port)) =
      .ok (String.ofList host, String.ofList port) := by
  have head : (host ++ ':' :: port).head? ≠ some '[' := by
    intro first
    have member := List.mem_of_head? first
    simp [hostClear.1, portClear.1] at member
  have opening : ('[' ∈ host ++ ':' :: port) = False := by simp [hostClear.1, portClear.1]
  have closing : (']' ∈ host ++ ':' :: port) = False := by simp [hostClear.2, portClear.2]
  have after : (host ++ ':' :: port).drop (host.length + 1) = port := by
    rw [← List.drop_drop, List.drop_left]
    rfl
  simp only [splitHostPort, lastIndexRune_append last host, String.toList_ofList, if_neg head,
    List.take_left, splitFound, List.drop_zero, List.contains_iff_mem, single, opening, closing,
    after, if_false]

theorem splitHostPort_bracketed (last : ':' ∉ port) (hostClear : Unbracketed host)
    (portClear : Unbracketed port) :
    splitHostPort (String.ofList ('[' :: (host ++ ']' :: ':' :: port))) =
      .ok (String.ofList host, String.ofList port) := by
  have close : indexRune (String.ofList ('[' :: (host ++ ']' :: ':' :: port))) ']' =
      some (host.length + 1) :=
    indexRune_append ('[' :: host) (':' :: port) (by simp [hostClear.2])
  have colon : lastIndexRune (String.ofList ('[' :: (host ++ ']' :: ':' :: port))) ':' =
      some (host.length + 2) := by
    have found := lastIndexRune_append last ('[' :: (host ++ [']']))
    rw [List.cons_append, List.append_assoc] at found
    simpa using found
  have more : host.length + 1 + 1 ≠ ('[' :: (host ++ ']' :: ':' :: port)).length := by simp
  have opening : ('[' ∈ host ++ ']' :: ':' :: port) = False := by simp [hostClear.1, portClear.1]
  have closing : (']' ∈ ':' :: port) = False := by simp [portClear.2]
  have inner : ('[' :: (host ++ ']' :: ':' :: port)).drop (host.length + 2) = ':' :: port := by
    rw [List.drop_succ_cons, ← List.drop_drop, List.drop_left]
    rfl
  have after : ('[' :: (host ++ ']' :: ':' :: port)).drop (host.length + 2 + 1) = port := by
    rw [← List.drop_drop, inner]
    rfl
  have between : (('[' :: (host ++ ']' :: ':' :: port)).take (host.length + 1)).drop 1 = host := by
    rw [List.take_succ_cons, List.drop_one, List.tail_cons, List.take_left]
  simp only [splitHostPort, colon, close, String.toList_ofList, List.head?_cons, if_true,
    if_neg more, splitFound, List.drop_one, List.tail_cons, List.contains_iff_mem, opening,
    inner, closing, if_false, after]
  rw [List.drop_one] at between
  rw [between]

theorem splitHostPort_bare (several : 2 ≤ host.count ':') (hostClear : Unbracketed host) :
    splitHostPort (String.ofList host) = .error tooManyColons := by
  have member : ':' ∈ host := List.count_pos_iff.mp (by omega)
  obtain ⟨front, back, rfl, missing⟩ := exists_last member
  have again : ':' ∈ front := by
    rw [List.count_append, List.count_cons_self, List.count_eq_zero_of_not_mem missing] at several
    exact List.count_pos_iff.mp (by omega)
  have head : (front ++ ':' :: back).head? ≠ some '[' := by
    intro first
    exact hostClear.1 (List.mem_of_head? first)
  simp only [splitHostPort, lastIndexRune_append missing front, String.toList_ofList, if_neg head,
    List.take_left, List.contains_iff_mem, again, if_true]

theorem splitHostPort_unported (colon : ':' ∈ host) (hostClear : Unbracketed host) :
    splitHostPort (String.ofList ('[' :: (host ++ [']']))) = .error missingPort := by
  have close : indexRune (String.ofList ('[' :: (host ++ [']']))) ']' = some (host.length + 1) :=
    indexRune_append ('[' :: host) [] (by simp [hostClear.2])
  obtain ⟨front, back, split, missing⟩ := exists_last colon
  have last : lastIndexRune (String.ofList ('[' :: (host ++ [']']))) ':' =
      some (front.length + 1) := by
    have beyond : ':' ∉ back ++ [']'] := by simp [missing]
    rw [split, List.append_assoc]
    exact lastIndexRune_append beyond ('[' :: front)
  have whole : host.length + 1 + 1 = ('[' :: (host ++ [']'])).length := by simp
  simp only [splitHostPort, last, close, String.toList_ofList, List.head?_cons, if_true,
    if_pos whole]

theorem splitHostPort_doubled (last : ':' ∉ port) (hostClear : Unbracketed host) :
    splitHostPort (String.ofList ('[' :: '[' :: (host ++ ']' :: ']' :: ':' :: port))) =
      .error missingPort := by
  have close : indexRune (String.ofList ('[' :: '[' :: (host ++ ']' :: ']' :: ':' :: port))) ']' =
      some (host.length + 2) :=
    indexRune_append ('[' :: '[' :: host) (']' :: ':' :: port) (by simp [hostClear.2])
  have colon : lastIndexRune
      (String.ofList ('[' :: '[' :: (host ++ ']' :: ']' :: ':' :: port))) ':' =
      some (host.length + 4) := by
    have found := lastIndexRune_append last ('[' :: '[' :: (host ++ [']', ']']))
    simpa using found
  have next : ('[' :: '[' :: (host ++ ']' :: ']' :: ':' :: port))[host.length + 2 + 1]? =
      some ']' := by
    rw [List.getElem?_cons_succ, List.getElem?_cons_succ, List.getElem?_append_right (by omega)]
    simp
  have more : host.length + 2 + 1 ≠
      ('[' :: '[' :: (host ++ ']' :: ']' :: ':' :: port)).length := by simp
  have other : host.length + 2 + 1 ≠ host.length + 4 := by omega
  have bracket : some ']' ≠ some ':' := by decide
  simp only [splitHostPort, colon, close, String.toList_ofList, List.head?_cons, if_true,
    if_neg more, if_neg other, next, if_neg bracket]

end

end Mitigador.Go
