import Mitigador.Go.Net

/-! The address of a router as it is configured, and the host and port that are dialled
(internal/subscriber/mikrotik.go). -/

namespace Mitigador.Subscriber

open Go

/-- The port is added when the text does not parse as host and port. -/
def withPort (s : String) : String :=
  match splitHostPort s with
  | .ok _ => s
  | .error _ => joinHostPort s "22"

def normalizeHost (s : String) : String :=
  let s := trimSpace s
  let s := ["ssh://", "https://", "http://"].foldl trimPrefix s
  let s := trimRight s "/"
  if s = "" then "" else withPort s

/-- A rune of a host or a port: no slash, no bracket, no space. -/
def Ordinary (r : Char) : Prop := r ≠ '/' ∧ r ≠ '[' ∧ r ≠ ']' ∧ isSpace r = false

instance (r : Char) : Decidable (Ordinary r) := inferInstanceAs (Decidable (_ ∧ _))

structure Word where
  text : String
  some : text ≠ ""
  plain : ∀ r ∈ text.toList, r ≠ ':' ∧ Ordinary r

structure IPv6 where
  text : String
  colons : 2 ≤ text.toList.count ':'
  plain : ∀ r ∈ text.toList, Ordinary r

inductive Written
  | name (host : Word) (port : Option Word)
  | bare (host : IPv6)
  | bracketed (host : IPv6) (port : Option Word)

inductive Scheme
  | none
  | ssh
  | http
  | https
  deriving DecidableEq

def Scheme.text : Scheme → String
  | none => ""
  | ssh => "ssh://"
  | http => "http://"
  | https => "https://"

theorem Scheme.spaceless (scheme : Scheme) : ∀ r ∈ scheme.text.toList, isSpace r = false := by
  cases scheme <;> exact forall_of_all (by decide)

def portText : Option Word → List Char
  | none => []
  | some port => ':' :: port.text.toList

namespace Written

def body : Written → List Char
  | name host port => host.text.toList ++ portText port
  | bare host => host.text.toList
  | bracketed host port => '[' :: (host.text.toList ++ ']' :: portText port)

def host : Written → String
  | name host _ => host.text
  | bare host | bracketed host _ => host.text

def port : Written → String
  | name _ port | bracketed _ port => (port.map Word.text).getD "22"
  | bare _ => "22"

def text (w : Written) (scheme : Scheme) (slashes : Nat) : String :=
  String.ofList (scheme.text.toList ++ (w.body ++ List.replicate slashes '/'))

def unported : Written → Bool
  | bracketed _ none => true
  | _ => false

end Written

def schemeNames : List (List Char) := ["ssh:".toList, "https:".toList, "http:".toList]

structure Body (body : List Char) : Prop where
  some : body ≠ []
  plain : ∀ r ∈ body, r ≠ '/' ∧ isSpace r = false
  noScheme : body ∉ schemeNames

theorem not_mem_schemeNames {body : List Char}
    (colons : body.count ':' ≠ 1 ∨ body.getLast? ≠ some ':') : body ∉ schemeNames := by
  have every : ∀ name ∈ schemeNames, name.count ':' = 1 ∧ name.getLast? = some ':' := by decide
  intro member
  have both := every body member
  rcases colons with several | ending
  · exact several both.1
  · exact ending both.2

section

variable {body : List Char} (is : Body body) (slashes : Nat)

include is

theorem Body.uncut (front : String) (name : List Char) (known : name ∈ schemeNames)
    (text : front.toList = name ++ ['/', '/']) :
    trimPrefix (String.ofList (body ++ List.replicate slashes '/')) front =
      String.ofList (body ++ List.replicate slashes '/') := by
  have unmatched : ¬ (name ++ ['/', '/']).isPrefixOf (body ++ List.replicate slashes '/') = true := by
    rw [List.isPrefixOf_iff_prefix]
    rintro ⟨rest, same⟩
    have cutBody : (body ++ List.replicate slashes '/').takeWhile (· != '/') = body := by
      rw [List.takeWhile_append_of_pos fun r member => by simpa using (is.plain r member).1]
      cases slashes <;> simp [List.replicate_succ]
    have noSlash : ∀ name ∈ schemeNames, ∀ r ∈ name, (r != '/') = true := by
      simp [schemeNames]
    have cutName : (name ++ ['/', '/'] ++ rest).takeWhile (· != '/') = name := by
      rw [List.append_assoc, List.takeWhile_append_of_pos (noSlash name known)]
      simp
    rw [same, cutBody] at cutName
    exact is.noScheme (cutName ▸ known)
  rw [trimPrefix, String.toList_ofList, text, if_neg unmatched]

theorem Body.unslashed :
    trimRight (String.ofList (body ++ List.replicate slashes '/')) "/" = String.ofList body := by
  have every : ∀ r ∈ List.replicate slashes '/', ['/'].contains r = true := by
    intro r member
    rw [List.eq_of_mem_replicate member]
    decide
  have kept : body.rdropWhile (fun r => ['/'].contains r) = body := by
    rw [List.rdropWhile_eq_self_iff]
    intro some
    have other := (is.plain _ (List.getLast_mem some)).1
    simpa using other
  rw [trimRight, String.toList_ofList, String.toList_ofList, rdropWhile_append, if_pos every,
    kept]

theorem Body.normalized (scheme : Scheme) :
    normalizeHost (String.ofList (scheme.text.toList ++ (body ++ List.replicate slashes '/'))) =
      withPort (String.ofList body) := by
  have filled : String.ofList body ≠ "" := by
    intro none
    exact is.some (by rw [← String.toList_ofList (l := body), none]; rfl)
  have spaceless : ∀ r ∈ scheme.text.toList ++ (body ++ List.replicate slashes '/'),
      isSpace r = false := by
    intro r member
    rcases List.mem_append.mp member with front | member
    · exact scheme.spaceless r front
    · rcases List.mem_append.mp member with inner | slash
      · exact (is.plain r inner).2
      · rw [List.eq_of_mem_replicate slash]
        decide
  have trimmed : trimSpace (String.ofList (scheme.text.toList ++ (body ++ List.replicate slashes '/'))) =
      String.ofList (scheme.text.toList ++ (body ++ List.replicate slashes '/')) := by
    have bare : Bare isSpace (scheme.text.toList ++ (body ++ List.replicate slashes '/')) :=
      ⟨fun r head => spaceless r (List.mem_of_head? head),
        fun r last => spaceless r (List.mem_of_getLast? last)⟩
    exact trimSpace_bare bare
  have stripped : ["ssh://", "https://", "http://"].foldl trimPrefix
      (String.ofList (scheme.text.toList ++ (body ++ List.replicate slashes '/'))) =
      String.ofList (body ++ List.replicate slashes '/') := by
    have ssh := is.uncut slashes "ssh://" "ssh:".toList (by decide)
      (by decide)
    have https := is.uncut slashes "https://" "https:".toList (by decide)
      (by decide)
    have http := is.uncut slashes "http://" "http:".toList (by decide)
      (by decide)
    -- each cut is taken by itself, so that no unifier looks inside the others
    have cuts {s₀ s₁ s₂ s₃ : String} (first : trimPrefix s₀ "ssh://" = s₁)
        (second : trimPrefix s₁ "https://" = s₂) (third : trimPrefix s₂ "http://" = s₃) :
        ["ssh://", "https://", "http://"].foldl trimPrefix s₀ = s₃ := by
      simp only [List.foldl_cons, List.foldl_nil, first, second, third]
    cases scheme with
    | none => exact cuts ssh https http
    | ssh => exact cuts (trimPrefix_append "ssh://" _) https http
    | https =>
        exact cuts (trimPrefix_other 1 (by decide) (by decide) _) (trimPrefix_append "https://" _) http
    | http =>
        exact cuts (trimPrefix_other 1 (by decide) (by decide) _)
          (trimPrefix_other 5 (by decide) (by decide) _) (trimPrefix_append "http://" _)
  rw [normalizeHost, trimmed, stripped, is.unslashed, if_neg filled]

end

theorem Body.fixed {body : List Char} (is : Body body) {pair : String × String}
    (splits : splitHostPort (String.ofList body) = .ok pair) :
    normalizeHost (String.ofList body) = String.ofList body := by
  have whole := is.normalized 0 .none
  have unwritten : Scheme.none.text.toList = [] := by decide
  rw [unwritten, List.nil_append, List.replicate_zero, List.append_nil] at whole
  rw [whole, withPort]
  simp only [splits]

namespace Word

variable (word : Word)

theorem some_toList : word.text.toList ≠ [] := fun none =>
  word.some (String.toList_eq_nil_iff.mp none)

theorem no_colon : ':' ∉ word.text.toList := fun member => (word.plain _ member).1 rfl

theorem unbracketed : Unbracketed word.text.toList :=
  ⟨fun member => (word.plain _ member).2.2.1 rfl, fun member => (word.plain _ member).2.2.2.1 rfl⟩

theorem ordinary {r : Char} (member : r ∈ word.text.toList) : r ≠ '/' ∧ isSpace r = false :=
  ⟨(word.plain r member).2.1, (word.plain r member).2.2.2.2⟩

theorem ends (front : List Char) :
    (front ++ ':' :: word.text.toList) ∉ schemeNames := by
  apply not_mem_schemeNames
  right
  intro last
  have within : ':' ∈ word.text.toList := by
    apply List.mem_of_getLast?
    rwa [← List.singleton_append, ← List.append_assoc,
      List.getLast?_append_of_ne_nil _ word.some_toList] at last
  exact word.no_colon within

end Word

namespace IPv6

variable (host : IPv6)

theorem colon : ':' ∈ host.text.toList := List.count_pos_iff.mp (by have := host.colons; omega)

theorem unbracketed : Unbracketed host.text.toList :=
  ⟨fun member => (host.plain _ member).2.1 rfl, fun member => (host.plain _ member).2.2.1 rfl⟩

theorem ordinary {r : Char} (member : r ∈ host.text.toList) : r ≠ '/' ∧ isSpace r = false :=
  ⟨(host.plain r member).1, (host.plain r member).2.2.2⟩

end IPv6

theorem body_named (host port : Word) : Body (host.text.toList ++ ':' :: port.text.toList) where
  some := List.append_ne_nil_of_left_ne_nil host.some_toList _
  plain r member := by
    rcases List.mem_append.mp member with front | rest
    · exact host.ordinary front
    · rcases List.mem_cons.mp rest with rfl | back
      · decide
      · exact port.ordinary back
  noScheme := port.ends _

theorem body_bracketed (host : IPv6) (port : Word) :
    Body ('[' :: (host.text.toList ++ ']' :: ':' :: port.text.toList)) where
  some := List.cons_ne_nil _ _
  plain r member := by
    simp only [List.mem_cons, List.mem_append] at member
    rcases member with rfl | inner | rfl | rfl | back
    · decide
    · exact host.ordinary inner
    · decide
    · decide
    · exact port.ordinary back
  noScheme := by
    have ends := port.ends ('[' :: (host.text.toList ++ [']']))
    rwa [List.cons_append, List.append_assoc, List.singleton_append] at ends

def port22 : Word := ⟨"22", by decide, forall_of_all (by decide)⟩

namespace Written

theorem isBody (w : Written) : Body w.body := by
  cases w with
  | name host port =>
      cases port with
      | some port => exact body_named host port
      | none =>
          rw [body, portText, List.append_nil]
          refine ⟨host.some_toList, fun r => host.ordinary, not_mem_schemeNames (.inl ?_)⟩
          rw [List.count_eq_zero_of_not_mem host.no_colon]
          decide
  | bare host =>
      have colons := host.colons
      refine ⟨List.ne_nil_of_mem host.colon, fun r => host.ordinary, ?_⟩
      exact not_mem_schemeNames (.inl fun single => by rw [body] at single; omega)
  | bracketed host port =>
      cases port with
      | some port => exact body_bracketed host port
      | none =>
          refine ⟨List.cons_ne_nil _ _, ?_, not_mem_schemeNames (.inr ?_)⟩
          · intro r member
            simp only [body, portText, List.mem_cons, List.mem_append, List.not_mem_nil,
              or_false] at member
            rcases member with rfl | inner | rfl
            · decide
            · exact host.ordinary inner
            · decide
          · rw [body, portText, ← List.cons_append, List.getLast?_concat]
            decide

theorem withPort_body {w : Written} (ported : w.unported = false) :
    ∃ text, Body text ∧ withPort (String.ofList w.body) = String.ofList text ∧
      splitHostPort (String.ofList text) = .ok (w.host, w.port) := by
  have named (host port : Word) :
      splitHostPort (String.ofList (host.text.toList ++ ':' :: port.text.toList)) =
        .ok (host.text, port.text) := by
    rw [splitHostPort_plain host.no_colon port.no_colon host.unbracketed port.unbracketed,
      String.ofList_toList, String.ofList_toList]
  have bracket (host : IPv6) (port : Word) :
      splitHostPort
          (String.ofList ('[' :: (host.text.toList ++ ']' :: ':' :: port.text.toList))) =
        .ok (host.text, port.text) := by
    rw [splitHostPort_bracketed port.no_colon host.unbracketed port.unbracketed,
      String.ofList_toList, String.ofList_toList]
  cases w with
  | name host port =>
      cases port with
      | some port =>
          refine ⟨_, body_named host port, ?_, named host port⟩
          rw [body, portText, withPort, named host port]
      | none =>
          refine ⟨_, body_named host port22, ?_, named host port22⟩
          rw [body, portText, List.append_nil, withPort, splitHostPort_no_colon host.no_colon]
          exact joinHostPort_plain host.no_colon "22"
  | bare host =>
      refine ⟨_, body_bracketed host port22, ?_, bracket host port22⟩
      rw [body, withPort, splitHostPort_bare host.colons host.unbracketed]
      exact joinHostPort_colon host.colon "22"
  | bracketed host port =>
      cases port with
      | none => contradiction
      | some port =>
          refine ⟨_, body_bracketed host port, ?_, bracket host port⟩
          rw [body, portText, withPort, bracket host port]

theorem withPort_unported (host : IPv6) :
    withPort (String.ofList (bracketed host none).body) =
      String.ofList ('[' :: '[' :: (host.text.toList ++ ']' :: ']' :: ':' :: "22".toList)) := by
  have colon : ':' ∈ '[' :: (host.text.toList ++ [']']) := by simp [host.colon]
  rw [body, portText, withPort, splitHostPort_unported host.colon host.unbracketed]
  rw [joinHostPort_colon colon, List.cons_append, List.append_assoc, List.singleton_append]

/-- The host and the port come out exactly of the addresses that are not in brackets without a
port, and those do not change when they are normalized once more. -/
theorem normalizeHost_splits_iff (w : Written) (scheme : Scheme) (slashes : Nat) :
    (splitHostPort (normalizeHost (w.text scheme slashes)) = .ok (w.host, w.port) ∧
      normalizeHost (normalizeHost (w.text scheme slashes)) =
        normalizeHost (w.text scheme slashes)) ↔ w.unported = false := by
  rw [text, w.isBody.normalized slashes scheme]
  cases unported : w.unported with
  | false =>
      obtain ⟨text, is, dialled, splits⟩ := withPort_body unported
      rw [dialled]
      exact iff_of_true ⟨splits, is.fixed splits⟩ rfl
  | true =>
      rw [iff_false_right (by decide)]
      rintro ⟨splits, -⟩
      cases w with
      | name | bare => contradiction
      | bracketed host port =>
          cases port with
          | some => contradiction
          | none =>
              rw [withPort_unported, splitHostPort_doubled (by decide) host.unbracketed] at splits
              contradiction

def loopback : Written := bracketed ⟨"::1", by decide, forall_of_all (by decide)⟩ none

theorem normalizeHost_doubles :
    ¬ ∀ (w : Written) (scheme : Scheme) (slashes : Nat),
      splitHostPort (normalizeHost (w.text scheme slashes)) = .ok (w.host, w.port) ∧
        normalizeHost (normalizeHost (w.text scheme slashes)) =
          normalizeHost (w.text scheme slashes) := by
  intro every
  have splits := (every loopback .https 0).1
  rw [text, loopback.isBody.normalized 0 .https, loopback, withPort_unported,
    splitHostPort_doubled (by decide) (IPv6.unbracketed _)] at splits
  contradiction

end Written

end Mitigador.Subscriber
