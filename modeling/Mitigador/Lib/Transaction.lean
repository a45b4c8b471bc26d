import Mathlib.Data.List.Basic

/-! Programs over the private copy of a store that a transaction works on. A program ends with a
value or an error; the store gets the copy of a program that ends with a value, or nothing. -/

namespace Mitigador.Lib

universe u

/-- What goes wrong with a commit, or with a statement that commits itself. The server may have
applied it before the connection was lost. -/
inductive CommitFault (δ : Type*)
  | none
  | failed (report : δ) (applied : Bool)
  deriving DecidableEq, Repr

namespace CommitFault

variable {σ δ ε α : Type*}

def applied : CommitFault δ → Bool
  | none => true
  | failed _ applied => applied

def settle (fault : CommitFault δ) (wrap : δ → ε) (before after : σ) (value : α) :
    σ × Except ε α :=
  match fault with
  | none => (after, .ok value)
  | failed report applied => (if applied then after else before, .error (wrap report))

theorem settle_fst (fault : CommitFault δ) (wrap : δ → ε) (before after : σ) (value : α) :
    (fault.settle wrap before after value).1 = if fault.applied then after else before := by
  cases fault <;> rfl

theorem settle_ok {fault : CommitFault δ} {wrap : δ → ε} {before after next : σ} {value answer : α}
    (done : fault.settle wrap before after value = (next, .ok answer)) :
    next = after ∧ answer = value := by
  cases fault with
  | none =>
      cases done
      exact ⟨rfl, rfl⟩
  | failed report applied => cases done

end CommitFault

structure Work (σ : Type*) where
  copy : σ
  requests : Nat

def Program (σ ε : Type*) (α : Type u) := Work σ → Except ε α × Work σ

namespace Program

variable {σ ε δ ι : Type*} {α β : Type u}

instance : Monad (Program σ ε) where
  pure value := fun work => (.ok value, work)
  bind first rest := fun work =>
    match first work with
    | (.error cause, work) => (.error cause, work)
    | (.ok value, work) => rest value work

def fail (cause : ε) : Program σ ε α := fun work => (.error cause, work)

/-- One statement, which knows the number of its request; the answer or the refusal is a value for
the program. A request that `fails` has no effect. -/
def request (fails : Nat → Option δ) (statement : Nat → σ → Except δ (α × σ)) :
    Program σ ε (Except δ α) := fun work =>
  match fails work.requests with
  | some cause => (.ok (.error cause), ⟨work.copy, work.requests + 1⟩)
  | none =>
      match statement work.requests work.copy with
      | .error cause => (.ok (.error cause), ⟨work.copy, work.requests + 1⟩)
      | .ok (answer, copy) => (.ok (.ok answer), ⟨copy, work.requests + 1⟩)

def query (fails : Nat → Option δ) (read : σ → Except δ α) : Program σ ε (Except δ α) :=
  request fails fun _ copy => (read copy).map fun answer => (answer, copy)

def exec (fails : Nat → Option δ) (write : σ → Except δ σ) : Program σ ε (Except δ PUnit) :=
  request fails fun _ copy => (write copy).map fun copy => (.unit, copy)

def atomically (fails : Nat → Option δ) (commit : CommitFault δ) (refused lost : δ → ε)
    (program : Program σ ε α) (stored : σ) : σ × Except ε α :=
  match fails 0 with
  | some cause => (stored, .error (refused cause))
  | none =>
      match program ⟨stored, 1⟩ with
      | (.error cause, _) => (stored, .error cause)
      | (.ok value, work) => commit.settle lost stored work.copy value

theorem bind_eq_ok {first : Program σ ε α} {rest : α → Program σ ε β} {before after : Work σ}
    {value : β} (ran : (first >>= rest) before = (.ok value, after)) :
    ∃ (middle : Work σ) (found : α),
      first before = (.ok found, middle) ∧ rest found middle = (.ok value, after) := by
  change (match first before with
    | (Except.error cause, work) => (Except.error cause, work)
    | (Except.ok found, work) => rest found work) = _ at ran
  split at ran
  · cases ran
  · next found work first => exact ⟨work, found, first, ran⟩

theorem pure_eq_ok {found value : α} {before after : Work σ}
    (ran : (pure found : Program σ ε α) before = (.ok value, after)) :
    found = value ∧ before = after := by
  cases ran
  exact ⟨rfl, rfl⟩

theorem query_eq_ok {fails : Nat → Option δ} {read : σ → Except δ α} {before after : Work σ}
    {answer : Except δ α}
    (ran : (query fails read : Program σ ε (Except δ α)) before = (.ok answer, after)) :
    after.copy = before.copy ∧ ∀ found, answer = .ok found → read before.copy = .ok found := by
  unfold query request at ran
  split at ran
  · cases ran
    exact ⟨rfl, fun found impossible => by contradiction⟩
  · split at ran
    · cases ran
      exact ⟨rfl, fun found impossible => by contradiction⟩
    · next answered copy known =>
        cases ran
        dsimp only at known ⊢
        cases reads : read before.copy with
        | error cause =>
            rw [reads] at known
            contradiction
        | ok value =>
            rw [reads] at known
            cases known
            exact ⟨rfl, fun found same => same⟩

theorem query_eq_error {fails : Nat → Option δ} {read : σ → Except δ α} {before after : Work σ}
    {cause : δ}
    (ran : (query fails read : Program σ ε (Except δ α)) before = (.ok (.error cause), after)) :
    fails before.requests = some cause ∨ read before.copy = .error cause := by
  unfold query request at ran
  split at ran
  · next failed =>
      cases ran
      exact .inl failed
  · split at ran
    · next refused =>
        cases ran
        dsimp only at refused
        cases reads : read before.copy with
        | error given =>
            rw [reads] at refused
            cases refused
            exact .inr rfl
        | ok value =>
            rw [reads] at refused
            contradiction
    · cases ran

theorem request_eq_ok {fails : Nat → Option δ} {statement : Nat → σ → Except δ (α × σ)}
    {before after : Work σ} {answer : α}
    (ran : (request fails statement : Program σ ε (Except δ α)) before =
      (.ok (.ok answer), after)) :
    statement before.requests before.copy = .ok (answer, after.copy) := by
  unfold request at ran
  split at ran
  · cases ran
  · split at ran
    · cases ran
    · next known =>
        cases ran
        exact known

theorem exec_eq_ok {fails : Nat → Option δ} {write : σ → Except δ σ} {before after : Work σ}
    (ran : (exec fails write : Program σ ε (Except δ PUnit)) before = (.ok (.ok .unit), after)) :
    write before.copy = .ok after.copy := by
  have known := request_eq_ok ran
  cases written : write before.copy with
  | error cause =>
      rw [written] at known
      contradiction
  | ok copy =>
      rw [written] at known
      cases known
      rfl

/-- A loop keeps what each of its turns keeps. The invariant knows the items that are done. -/
theorem foldlM_eq_ok {body : α → ι → Program σ ε α} (invariant : List ι → α → σ → Prop)
    (turn : ∀ done item sum next before after, invariant done sum before.copy →
      body sum item before = (.ok next, after) → invariant (done ++ [item]) next after.copy)
    {items done : List ι} {sum next : α} {before after : Work σ}
    (start : invariant done sum before.copy)
    (ran : items.foldlM body sum before = (.ok next, after)) :
    invariant (done ++ items) next after.copy := by
  induction items generalizing done sum before with
  | nil =>
      obtain ⟨rfl, rfl⟩ := pure_eq_ok ran
      rw [List.append_nil]
      exact start
  | cons item rest ih =>
      rw [List.foldlM_cons] at ran
      obtain ⟨middle, found, first, later⟩ := bind_eq_ok ran
      have known := ih (turn done item sum found before middle start first) later
      rw [List.append_assoc] at known
      exact known

theorem foldlM_split {body : α → ι → Program σ ε α} {front back : List ι} {item : ι}
    {start final : α} {before after : Work σ}
    (ran : (front ++ item :: back).foldlM body start before = (.ok final, after)) :
    ∃ sum middle next later, front.foldlM body start before = (.ok sum, middle) ∧
      body sum item middle = (.ok next, later) := by
  induction front generalizing start before with
  | nil =>
      rw [List.nil_append, List.foldlM_cons] at ran
      obtain ⟨later, next, turned, -⟩ := bind_eq_ok ran
      exact ⟨start, before, next, later, rfl, turned⟩
  | cons head front ih =>
      rw [List.cons_append, List.foldlM_cons] at ran
      obtain ⟨middle, found, first, rest⟩ := bind_eq_ok ran
      obtain ⟨sum, last, next, later, past, turned⟩ := ih rest
      refine ⟨sum, last, next, later, ?_, turned⟩
      rw [List.foldlM_cons]
      change (match body start head before with
        | (Except.error cause, work) => (Except.error cause, work)
        | (Except.ok found, work) => front.foldlM body found work) = _
      rw [first]
      exact past

/-- An error leaves the store as it was, or it is that of a commit which was applied. -/
theorem stored_of_error {fails : Nat → Option δ} {commit : CommitFault δ} {refused lost : δ → ε}
    {program : Program σ ε α} {stored after : σ} {cause : ε}
    (ran : atomically fails commit refused lost program stored = (after, .error cause)) :
    after = stored ∨ ∃ report value, commit = .failed report true ∧ cause = lost report ∧
      atomically fails .none refused lost program stored = (after, .ok value) := by
  unfold atomically at ran ⊢
  split at ran
  · cases ran
    exact .inl rfl
  · split at ran
    · cases ran
      exact .inl rfl
    · next value work ended =>
        cases commit with
        | none => cases ran
        | failed report applied =>
            cases applied with
            | false =>
                cases ran
                exact .inl rfl
            | true =>
                cases ran
                exact .inr ⟨report, value, rfl, rfl, rfl⟩

theorem program_of_ok {fails : Nat → Option δ} {commit : CommitFault δ} {refused lost : δ → ε}
    {program : Program σ ε α} {stored after : σ} {value : α}
    (ran : atomically fails commit refused lost program stored = (after, .ok value)) :
    ∃ requests, program ⟨stored, 1⟩ = (.ok value, ⟨after, requests⟩) := by
  unfold atomically at ran
  split at ran
  · cases ran
  · split at ran
    · cases ran
    · next found work ended =>
        obtain ⟨rfl, rfl⟩ := CommitFault.settle_ok ran
        exact ⟨work.requests, ended⟩

def Raises (program : Program σ ε α) (allowed : ε → Prop) : Prop :=
  ∀ before cause after, program before = (.error cause, after) → allowed cause

section Raises

variable {allowed : ε → Prop}

theorem raises_pure (value : α) : (pure value : Program σ ε α).Raises allowed :=
  fun _ _ _ ended => by cases ended

theorem raises_fail {cause : ε} (known : allowed cause) :
    (fail cause : Program σ ε α).Raises allowed := by
  intro before other after ended
  cases ended
  exact known

theorem raises_request (fails : Nat → Option δ) (statement : Nat → σ → Except δ (α × σ)) :
    (request fails statement : Program σ ε (Except δ α)).Raises allowed := by
  intro before cause after ended
  unfold request at ended
  split at ended
  · cases ended
  · split at ended <;> cases ended

theorem Raises.bind {first : Program σ ε α} {rest : α → Program σ ε β}
    (earlier : first.Raises allowed) (later : ∀ value, (rest value).Raises allowed) :
    (first >>= rest).Raises allowed := by
  intro before cause after ended
  change (match first before with
    | (Except.error cause, work) => (Except.error cause, work)
    | (Except.ok found, work) => rest found work) = _ at ended
  split at ended
  · next failed =>
      cases ended
      exact earlier _ _ _ failed
  · exact later _ _ _ _ ended

theorem Raises.foldlM {body : α → ι → Program σ ε α}
    (turn : ∀ sum item, (body sum item).Raises allowed) (items : List ι) (sum : α) :
    (items.foldlM body sum).Raises allowed := by
  induction items generalizing sum with
  | nil => exact raises_pure sum
  | cons item rest ih =>
      rw [List.foldlM_cons]
      exact (turn sum item).bind ih

end Raises

theorem applied_of_lost {fails : Nat → Option δ} {commit : CommitFault δ} {refused lost : δ → ε}
    {program : Program σ ε α} {stored after : σ} {report : δ}
    (begun : ∀ cause, refused cause ≠ lost report)
    (quiet : program.Raises fun cause => cause ≠ lost report) (applied : commit.applied = true)
    (ran : atomically fails commit refused lost program stored = (after, .error (lost report))) :
    ∃ value, atomically fails .none refused lost program stored = (after, .ok value) := by
  unfold atomically at ran ⊢
  split at ran
  · next cause failed => exact absurd (Except.error.inj (Prod.ext_iff.mp ran).2) (begun cause)
  · split at ran
    · next cause work failed =>
        exact absurd (Except.error.inj (Prod.ext_iff.mp ran).2) (quiet _ _ _ failed)
    · next value work ended =>
        cases commit with
        | none => cases ran
        | failed other applied' =>
            obtain rfl : applied' = true := applied
            obtain rfl : work.copy = after := (Prod.ext_iff.mp ran).1
            exact ⟨value, rfl⟩

end Program

end Mitigador.Lib
