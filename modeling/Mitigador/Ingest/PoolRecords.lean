import Mitigador.Ingest.Pool
import Mitigador.Ingest.Sampling

/-! Which message objects a call may touch, and when its records are those of its own packet. -/

namespace Mitigador.Ingest

open Go Mitigador.Flow Lib

variable {Packet : Type} {pp : ProtoProducer Packet}

namespace DecodePhase

def held : DecodePhase → List Nat
  | filling msgs _ => msgs
  | writing msgs o _ _ _ => o :: msgs
  | committing _ left => left
  | reading _ _ | copying _ _ _ _ _ => []

def unread : DecodePhase → List Nat
  | filling _ _ | writing _ _ _ _ _ => []
  | committing msgs _ => msgs
  | reading _ msgs => msgs
  | copying _ o _ _ msgs => o :: msgs

end DecodePhase

def Hold (objects : Nat → Message) (msgs : List Nat) (values : List Message) : Prop :=
  List.Forall₂ (fun o m => objects o = m) msgs values

def Carries (own : List Message) (call : DecodeCall Packet) (objects : Nat → Message) :
    DecodePhase → Prop
  | .filling msgs todo => ∃ done, own = done ++ todo ∧ Hold objects msgs done
  | .writing msgs o m left todo => ∃ done, own = done ++ m :: todo ∧ Hold objects msgs done ∧
      m.fill left (objects o) = m
  | .committing msgs _ => Hold objects msgs own
  | .reading records msgs => ∃ done rest, own = done ++ rest ∧ Hold objects msgs rest ∧
      records = extractAll call.exp call.args call.clock done
  | .copying records o copy left msgs => ∃ done m rest, own = done ++ m :: rest ∧
      objects o = m ∧ m.fill left copy = m ∧ Hold objects msgs rest ∧
      records = extractAll call.exp call.args call.clock done

def DecodePhase.Early : DecodePhase → Prop
  | filling _ _ | writing _ _ _ _ _ => True
  | _ => False

def Job.Faithful (pp : ProtoProducer Packet) (job : Job Packet) (objects : Nat → Message) : Prop :=
  match produced pp job.call with
  | none => job.phase.Early
  | some own => Carries own job.call objects job.phase

/-- No object that the first call may still write is used by the second. -/
def Excludes (first second : DecodePhase) : Prop :=
  ∀ o ∈ first.held, o ∉ second.held ∧ o ∉ second.unread

structure Sound (pp : ProtoProducer Packet) (s : MessagePool Packet) : Prop where
  distinct : s.free.Nodup
  freeBelow : ∀ o ∈ s.free, o < s.next
  usedBelow : ∀ n job, s.jobs.lookup n = some job →
    (∀ o ∈ job.phase.held, o < s.next) ∧ ∀ o ∈ job.phase.unread, o < s.next
  heldDistinct : ∀ n job, s.jobs.lookup n = some job → job.phase.held.Nodup
  heldTaken : ∀ n job, s.jobs.lookup n = some job → ∀ o ∈ job.phase.held, o ∉ s.free
  apart : ∀ n m job other, n ≠ m → s.jobs.lookup n = some job → s.jobs.lookup m = some other →
    Excludes job.phase other.phase
  faithful : ∀ n job, s.jobs.lookup n = some job → job.Faithful pp s.objects

/-! Contents. -/

theorem Hold.congr {objects other : Nat → Message} {msgs : List Nat} {values : List Message}
    (hold : Hold objects msgs values) (same : ∀ o ∈ msgs, other o = objects o) :
    Hold other msgs values := by
  induction hold with
  | nil => exact .nil
  | @cons o m msgs values first rest ih =>
      have now : other o = m := (same o List.mem_cons_self).trans first
      exact .cons now (ih fun later member => same later (List.mem_cons_of_mem o member))

theorem Hold.snoc {objects : Nat → Message} {msgs : List Nat} {values : List Message}
    (hold : Hold objects msgs values) (o : Nat) :
    Hold objects (msgs ++ [o]) (values ++ [objects o]) := by
  induction hold with
  | nil => exact .cons rfl .nil
  | cons first _ ih => exact .cons first ih

theorem Job.faithful_of_produced {call : DecodeCall Packet} {phase : DecodePhase}
    {objects : Nat → Message} {own : List Message} (known : produced pp call = some own) :
    Job.Faithful pp ⟨call, phase⟩ objects ↔ Carries own call objects phase := by
  unfold Job.Faithful
  rw [known]

theorem Job.faithful_of_failed {call : DecodeCall Packet} {phase : DecodePhase}
    {objects : Nat → Message} (failed : produced pp call = none) :
    Job.Faithful pp ⟨call, phase⟩ objects ↔ phase.Early := by
  unfold Job.Faithful
  rw [failed]

theorem Job.Faithful.carries {call : DecodeCall Packet} {phase : DecodePhase}
    {objects : Nat → Message} (faithful : Job.Faithful pp ⟨call, phase⟩ objects)
    (late : ¬ phase.Early) :
    ∃ own, produced pp call = some own ∧ Carries own call objects phase := by
  cases known : produced pp call with
  | none =>
      rw [Job.faithful_of_failed known] at faithful
      exact absurd faithful late
  | some own =>
      rw [Job.faithful_of_produced known] at faithful
      exact ⟨own, rfl, faithful⟩

theorem Job.Faithful.turn {call : DecodeCall Packet} {phase next : DecodePhase}
    {objects other : Nat → Message} (faithful : Job.Faithful pp ⟨call, phase⟩ objects)
    (early : next.Early)
    (turn : ∀ own, Carries own call objects phase → Carries own call other next) :
    Job.Faithful pp ⟨call, next⟩ other := by
  cases known : produced pp call with
  | none =>
      rw [Job.faithful_of_failed known]
      exact early
  | some own =>
      rw [Job.faithful_of_produced known] at faithful ⊢
      exact turn own faithful

theorem Job.Faithful.congr {job : Job Packet} {objects other : Nat → Message}
    (faithful : job.Faithful pp objects) (held : ∀ o ∈ job.phase.held, other o = objects o)
    (unread : ∀ o ∈ job.phase.unread, other o = objects o) : job.Faithful pp other := by
  obtain ⟨call, phase⟩ := job
  cases known : produced pp call with
  | none =>
      rw [Job.faithful_of_failed known] at faithful ⊢
      exact faithful
  | some own =>
      rw [Job.faithful_of_produced known] at faithful ⊢
      cases phase with
      | filling msgs todo =>
          obtain ⟨done, split, hold⟩ := faithful
          exact ⟨done, split, hold.congr held⟩
      | writing msgs o m left todo =>
          obtain ⟨done, split, hold, partly⟩ := faithful
          refine ⟨done, split, hold.congr fun later member =>
            held later (List.mem_cons_of_mem o member), ?_⟩
          rwa [held o List.mem_cons_self]
      | committing msgs left => exact Hold.congr faithful unread
      | reading records msgs =>
          obtain ⟨done, rest, split, hold, read⟩ := faithful
          exact ⟨done, rest, split, hold.congr unread, read⟩
      | copying records o copy left msgs =>
          obtain ⟨done, m, rest, split, whole, partly, hold, read⟩ := faithful
          exact ⟨done, m, rest, split, (unread o List.mem_cons_self).trans whole, partly,
            hold.congr fun later member => unread later (List.mem_cons_of_mem o member), read⟩

/-! One step. -/

theorem Sound.replace {s : MessagePool Packet} (sound : Sound pp s) {n : Nat} {job : Job Packet}
    {objects : Nat → Message} {free : List Nat} {next : Nat} (grown : s.next ≤ next)
    (distinct : free.Nodup) (freeBelow : ∀ o ∈ free, o < next)
    (heldBelow : ∀ o ∈ job.phase.held, o < next) (unreadBelow : ∀ o ∈ job.phase.unread, o < next)
    (heldDistinct : job.phase.held.Nodup) (heldTaken : ∀ o ∈ job.phase.held, o ∉ free)
    (others : ∀ m other, m ≠ n → s.jobs.lookup m = some other →
      (∀ o ∈ other.phase.held, o ∉ free ∧ objects o = s.objects o) ∧
      (∀ o ∈ other.phase.unread, objects o = s.objects o) ∧
      Excludes job.phase other.phase ∧ Excludes other.phase job.phase)
    (faithful : job.Faithful pp objects) :
    Sound pp ⟨objects, free, next, s.jobs.insert n job⟩ where
  distinct := distinct
  freeBelow := freeBelow
  usedBelow := by
    intro m other under
    rw [KeyedMap.lookup_insert] at under
    split at under
    · cases under
      exact ⟨heldBelow, unreadBelow⟩
    · obtain ⟨held, unread⟩ := sound.usedBelow m other under
      exact ⟨fun o member => (held o member).trans_le grown,
        fun o member => (unread o member).trans_le grown⟩
  heldDistinct := by
    intro m other under
    rw [KeyedMap.lookup_insert] at under
    split at under
    · cases under
      exact heldDistinct
    · exact sound.heldDistinct m other under
  heldTaken := by
    intro m other under o member
    rw [KeyedMap.lookup_insert] at under
    split at under
    · cases under
      exact heldTaken o member
    · next different => exact ((others m other different under).1 o member).1
  apart := by
    intro first second left right different here there
    rw [KeyedMap.lookup_insert] at here there
    split at here
    · next own =>
        cases here
        split at there
        · next also => exact absurd (own.trans also.symm) different
        · next apart => exact (others second right apart there).2.2.1
    · next apart =>
        split at there
        · cases there
          exact (others first left apart here).2.2.2
        · exact sound.apart first second left right different here there
  faithful := by
    intro m other under
    rw [KeyedMap.lookup_insert] at under
    split at under
    · cases under
      exact faithful
    · next different =>
        obtain ⟨held, unread, -, -⟩ := others m other different under
        exact (sound.faithful m other under).congr (fun o member => (held o member).2) unread

theorem Sound.move {s : MessagePool Packet} (sound : Sound pp s) {n : Nat} {job : Job Packet}
    (under : s.jobs.lookup n = some job) {phase : DecodePhase}
    (held : ∀ o ∈ phase.held, o ∈ job.phase.held) (heldDistinct : phase.held.Nodup)
    (unread : ∀ o ∈ phase.unread, o ∈ job.phase.held ∨ o ∈ job.phase.unread)
    (faithful : Job.Faithful pp ⟨job.call, phase⟩ s.objects) :
    Sound pp (s.set n job.call phase) := by
  obtain ⟨heldBelow, unreadBelow⟩ := sound.usedBelow n job under
  apply sound.replace (Nat.le_refl _) sound.distinct sound.freeBelow
  · exact fun o member => heldBelow o (held o member)
  · exact fun o member => (unread o member).elim (heldBelow o) (unreadBelow o)
  · exact heldDistinct
  · exact fun o member => sound.heldTaken n job under o (held o member)
  · intro m other different there
    have mine := sound.apart n m job other different.symm under there
    have theirs := sound.apart m n other job different there under
    refine ⟨fun o member => ⟨sound.heldTaken m other there o member, rfl⟩, fun _ _ => rfl,
      fun o member => mine o (held o member), fun o member => ?_⟩
    obtain ⟨unheld, read⟩ := theirs o member
    exact ⟨fun own => unheld (held o own), fun own => (unread o own).elim unheld read⟩
  · exact faithful

theorem Sound.taken {s : MessagePool Packet} (sound : Sound pp s) {n o next : Nat}
    {call : DecodeCall Packet} {msgs : List Nat} {m : Message} {todo : List Message}
    {free : List Nat} (under : s.jobs.lookup n = some ⟨call, .filling msgs (m :: todo)⟩)
    (grown : s.next ≤ next) (below : o < next) (sub : ∀ other ∈ free, other ∈ s.free)
    (distinct : free.Nodup) (gone : o ∉ free)
    (unheld : ∀ k job, s.jobs.lookup k = some job → o ∉ job.phase.held)
    (unread : ∀ k job, s.jobs.lookup k = some job → o ∉ job.phase.unread) :
    Sound pp ⟨Function.update s.objects o Message.zero, free, next,
      s.jobs.insert n ⟨call, .writing msgs o m Message.fields todo⟩⟩ := by
  obtain ⟨heldBelow, -⟩ := sound.usedBelow n _ under
  have mine : o ∉ msgs := unheld n _ under
  have kept : ∀ other, other ≠ o → Function.update s.objects o Message.zero other =
      s.objects other := fun other different => Function.update_of_ne different _ _
  apply sound.replace grown distinct
  · exact fun other member => (sound.freeBelow other (sub other member)).trans_le grown
  · intro other member
    rcases List.mem_cons.mp member with rfl | old
    · exact below
    · exact (heldBelow other old).trans_le grown
  · intro other impossible
    contradiction
  · exact List.nodup_cons.mpr ⟨mine, sound.heldDistinct n _ under⟩
  · intro other member
    rcases List.mem_cons.mp member with rfl | old
    · exact gone
    · exact fun back => sound.heldTaken n _ under other old (sub other back)
  · intro k other different there
    have notHeld := unheld k other there
    have notRead := unread k other there
    refine ⟨fun x member => ⟨fun back => sound.heldTaken k other there x member (sub x back),
      kept x fun same => notHeld (same ▸ member)⟩,
      fun x member => kept x fun same => notRead (same ▸ member), ?_, ?_⟩
    · intro x member
      rcases List.mem_cons.mp member with rfl | old
      · exact ⟨notHeld, notRead⟩
      · exact sound.apart n k _ other different.symm under there x old
    · intro x member
      obtain ⟨unused, -⟩ := sound.apart k n other _ different there under x member
      refine ⟨fun taken => ?_, fun impossible => by contradiction⟩
      rcases List.mem_cons.mp taken with rfl | old
      · exact notHeld member
      · exact unused old
  · refine (sound.faithful n _ under).turn trivial ?_
    rintro own ⟨done, split, hold⟩
    refine ⟨done, split, hold.congr fun x member =>
      kept x fun same => mine (same ▸ member), ?_⟩
    rw [Function.update_self]
    exact Message.fill_fields m Message.zero

/-- A call does not take an object that another call has put back and still has to read. -/
def Respects (s : MessagePool Packet) : PoolAction Packet → Prop
  | .take _ (some o) => ∀ k job, s.jobs.lookup k = some job → o ∉ job.phase.unread
  | _ => True

instance (s : MessagePool Packet) (action : PoolAction Packet) :
    Decidable (Respects s action) :=
  match action with
  | .take _ (some o) =>
      decidable_of_iff (∀ entry ∈ s.jobs.entries, o ∉ entry.2.phase.unread) (by
        constructor
        · intro every k job under
          exact every ⟨k, job⟩ ((KeyedMap.mem_entries ..).mpr under)
        · intro every entry member
          exact every entry.1 entry.2 ((KeyedMap.mem_entries ..).mp member))
  | .begin .. | .take _ none | .advance _ | .collect _ => isTrue trivial

theorem take_sound {s next : MessagePool Packet} (sound : Sound pp s) {n : Nat} {o : Option Nat}
    {job : Job Packet} (under : s.jobs.lookup n = some job) (respects : Respects s (.take n o))
    (moved : s.take n o job = some next) : Sound pp next := by
  obtain ⟨call, phase⟩ := job
  unfold MessagePool.take at moved
  split at moved
  · next msgs m todo here =>
      cases here
      cases moved
      have fresh : ∀ k job, s.jobs.lookup k = some job →
          s.next ∉ job.phase.held ∧ s.next ∉ job.phase.unread := by
        intro k job there
        obtain ⟨held, unread⟩ := sound.usedBelow k job there
        exact ⟨fun member => absurd (held _ member) (Nat.lt_irrefl _),
          fun member => absurd (unread _ member) (Nat.lt_irrefl _)⟩
      exact sound.taken under (Nat.le_succ _) (Nat.lt_succ_self _) (fun _ member => member)
        sound.distinct (fun member => absurd (sound.freeBelow _ member) (Nat.lt_irrefl _))
        (fun k job there => (fresh k job there).1) (fun k job there => (fresh k job there).2)
  · next msgs m todo o here =>
      cases here
      split at moved
      · next pooled =>
          cases moved
          exact sound.taken under (Nat.le_refl _) (sound.freeBelow o pooled)
            (fun _ member => List.mem_of_mem_erase member) (sound.distinct.erase o)
            (fun back => absurd rfl (sound.distinct.mem_erase_iff.mp back).1)
            (fun k job there member => sound.heldTaken k job there o member pooled) respects
      · contradiction
  · contradiction

theorem Sound.finished {s : MessagePool Packet} (sound : Sound pp s) (n : Nat) :
    Sound pp { s with jobs := s.jobs.erase n } := by
  have kept : ∀ m job, (s.jobs.erase n).lookup m = some job → s.jobs.lookup m = some job :=
    fun m job => KeyedMap.lookup_of_erase
  constructor
  · exact sound.distinct
  · exact sound.freeBelow
  · exact fun m job under => sound.usedBelow m job (kept m job under)
  · exact fun m job under => sound.heldDistinct m job (kept m job under)
  · exact fun m job under => sound.heldTaken m job (kept m job under)
  · exact fun m k job other different here there =>
      sound.apart m k job other different (kept m job here) (kept k other there)
  · exact fun m job under => sound.faithful m job (kept m job under)

theorem Sound.written {s : MessagePool Packet} (sound : Sound pp s) {n o : Nat}
    {call : DecodeCall Packet} {msgs : List Nat} {m : Message} {f : Message.Field}
    {left : List Message.Field} {todo : List Message}
    (under : s.jobs.lookup n = some ⟨call, .writing msgs o m (f :: left) todo⟩) :
    Sound pp ⟨Function.update s.objects o (f.copy m (s.objects o)), s.free, s.next,
      s.jobs.insert n ⟨call, .writing msgs o m left todo⟩⟩ := by
  have distinct := sound.heldDistinct n _ under
  have taken := sound.heldTaken n _ under
  have mine : o ∉ msgs := (List.nodup_cons.mp distinct).1
  have kept : ∀ other, other ≠ o → Function.update s.objects o (f.copy m (s.objects o)) other =
      s.objects other := fun other different => Function.update_of_ne different _ _
  apply sound.replace (Nat.le_refl _) sound.distinct sound.freeBelow
  · exact (sound.usedBelow n _ under).1
  · exact (sound.usedBelow n _ under).2
  · exact distinct
  · exact taken
  · intro k other different there
    have ours := sound.apart n k _ other different.symm under there
    have theirs := sound.apart k n other _ different there under
    obtain ⟨unheld, unread⟩ := ours o List.mem_cons_self
    exact ⟨fun x member => ⟨sound.heldTaken k other there x member,
      kept x fun same => unheld (same ▸ member)⟩,
      fun x member => kept x fun same => unread (same ▸ member), ours, theirs⟩
  · refine (sound.faithful n _ under).turn trivial ?_
    rintro own ⟨done, split, hold, partly⟩
    refine ⟨done, split, hold.congr fun x member =>
      kept x fun same => mine (same ▸ member), ?_⟩
    rw [Function.update_self]
    exact partly

theorem Sound.put {s : MessagePool Packet} (sound : Sound pp s) {n o : Nat}
    {call : DecodeCall Packet} {msgs left : List Nat}
    (under : s.jobs.lookup n = some ⟨call, .committing msgs (o :: left)⟩) :
    Sound pp ⟨s.objects, o :: s.free, s.next, s.jobs.insert n ⟨call, .committing msgs left⟩⟩ := by
  obtain ⟨heldBelow, unreadBelow⟩ := sound.usedBelow n _ under
  obtain ⟨fresh, distinct⟩ := List.nodup_cons.mp (sound.heldDistinct n _ under)
  apply sound.replace (Nat.le_refl _)
  · exact List.nodup_cons.mpr ⟨sound.heldTaken n _ under o List.mem_cons_self, sound.distinct⟩
  · intro x member
    rcases List.mem_cons.mp member with rfl | old
    · exact heldBelow x List.mem_cons_self
    · exact sound.freeBelow x old
  · exact fun x member => heldBelow x (List.mem_cons_of_mem o member)
  · exact unreadBelow
  · exact distinct
  · intro x member back
    rcases List.mem_cons.mp back with rfl | old
    · exact fresh member
    · exact sound.heldTaken n _ under x (List.mem_cons_of_mem o member) old
  · intro k other different there
    have ours := sound.apart n k _ other different.symm under there
    have theirs := sound.apart k n other _ different there under
    refine ⟨fun x member => ⟨fun back => ?_, rfl⟩, fun _ _ => rfl,
      fun x member => ours x (List.mem_cons_of_mem o member), fun x member => ?_⟩
    · rcases List.mem_cons.mp back with rfl | old
      · exact (ours x List.mem_cons_self).1 member
      · exact sound.heldTaken k other there x member old
    · obtain ⟨unheld, unread⟩ := theirs x member
      exact ⟨fun own => unheld (List.mem_cons_of_mem o own), unread⟩
  · obtain ⟨own, known, carries⟩ := (sound.faithful n _ under).carries id
    rw [Job.faithful_of_produced known]
    exact carries

/-- The functional reading of `decode`. -/
theorem decode_raw (call : DecodeCall Packet) :
    decode pp (.raw call.packet) call.exp call.args call.clock =
      ((produced pp call).map (extractAll call.exp call.args call.clock)).getD [] := by
  unfold decode produced
  cases pp.create with
  | none => rfl
  | some memory =>
      simp only [Option.bind_some]
      cases (pp.produce memory call.packet call.args).2 <;> rfl

theorem extractAll_concat (call : DecodeCall Packet) (done : List Message) (m : Message) :
    extractAll call.exp call.args call.clock (done ++ [m]) =
      extractAll call.exp call.args call.clock done ++
        [extractRecord m call.exp.sourceIP call.args.timeReceived
          (call.clock (extractAll call.exp call.args call.clock done).length)] := by
  simp [extractAll]

section Advance

variable {s : MessagePool Packet} {n : Nat} {call : DecodeCall Packet}

theorem Sound.commit (sound : Sound pp s) {msgs : List Nat} {own : List Message}
    (known : produced pp call = some own)
    (under : s.jobs.lookup n = some ⟨call, .filling msgs []⟩) :
    Sound pp (s.set n call (.committing msgs msgs)) := by
  refine sound.move under (fun _ member => member) (sound.heldDistinct n _ under)
    (fun _ member => .inl member) ?_
  have before := sound.faithful n _ under
  rw [Job.faithful_of_produced known] at before ⊢
  obtain ⟨done, rfl, hold⟩ := before
  rw [List.append_nil]
  exact hold

theorem Sound.filled (sound : Sound pp s) {msgs : List Nat} {o : Nat} {m : Message}
    {todo : List Message} (under : s.jobs.lookup n = some ⟨call, .writing msgs o m [] todo⟩) :
    Sound pp (s.set n call (.filling (msgs ++ [o]) todo)) := by
  apply sound.move under
  · intro x member
    rcases List.mem_append.mp member with old | latest
    · exact List.mem_cons_of_mem o old
    · rw [List.mem_singleton.mp latest]
      exact List.mem_cons_self
  · exact ((List.perm_append_singleton o msgs).nodup_iff).mpr (sound.heldDistinct n _ under)
  · intro x impossible
    contradiction
  · refine (sound.faithful n _ under).turn trivial ?_
    rintro own ⟨done, split, hold, whole⟩
    have stored : s.objects o = m := whole
    refine ⟨done ++ [m], by rw [split, List.append_assoc]; rfl, ?_⟩
    rw [← stored]
    exact hold.snoc o

theorem Sound.committed (sound : Sound pp s) {msgs : List Nat}
    (under : s.jobs.lookup n = some ⟨call, .committing msgs []⟩) :
    Sound pp (s.set n call (.reading [] msgs)) := by
  refine sound.move under (fun _ member => member) (sound.heldDistinct n _ under)
    (fun _ member => .inr member) ?_
  obtain ⟨own, known, carries⟩ := (sound.faithful n _ under).carries id
  rw [Job.faithful_of_produced known]
  exact ⟨[], own, rfl, carries, rfl⟩

theorem Sound.opened (sound : Sound pp s) {records : List Record} {o : Nat} {msgs : List Nat}
    (under : s.jobs.lookup n = some ⟨call, .reading records (o :: msgs)⟩) :
    Sound pp (s.set n call (.copying records o Message.zero Message.fields msgs)) := by
  refine sound.move under (fun _ member => member) (sound.heldDistinct n _ under)
    (fun _ member => .inr member) ?_
  obtain ⟨own, known, done, rest, split, hold, read⟩ := (sound.faithful n _ under).carries id
  rw [Job.faithful_of_produced known]
  obtain ⟨m, later, whole, others, rfl⟩ := List.forall₂_cons_left_iff.mp hold
  exact ⟨done, m, later, split, whole, Message.fill_fields m Message.zero, others, read⟩

theorem Sound.copied (sound : Sound pp s) {records : List Record} {o : Nat} {copy : Message}
    {f : Message.Field} {left : List Message.Field} {msgs : List Nat}
    (under : s.jobs.lookup n = some ⟨call, .copying records o copy (f :: left) msgs⟩) :
    Sound pp (s.set n call (.copying records o (f.copy (s.objects o) copy) left msgs)) := by
  refine sound.move under (fun _ member => member) (sound.heldDistinct n _ under)
    (fun _ member => .inr member) ?_
  obtain ⟨own, known, done, m, rest, split, whole, partly, hold, read⟩ :=
    (sound.faithful n _ under).carries id
  rw [Job.faithful_of_produced known]
  refine ⟨done, m, rest, split, whole, ?_, hold, read⟩
  rw [whole]
  exact partly

theorem Sound.extracted (sound : Sound pp s) {records : List Record} {o : Nat} {copy : Message}
    {msgs : List Nat} (under : s.jobs.lookup n = some ⟨call, .copying records o copy [] msgs⟩) :
    Sound pp (s.set n call (.reading (records ++ [extractRecord copy call.exp.sourceIP
      call.args.timeReceived (call.clock records.length)]) msgs)) := by
  refine sound.move under (fun _ member => member) (sound.heldDistinct n _ under)
    (fun _ member => .inr (List.mem_cons_of_mem o member)) ?_
  obtain ⟨own, known, done, m, rest, split, -, partly, hold, read⟩ :=
    (sound.faithful n _ under).carries id
  rw [Job.faithful_of_produced known]
  obtain rfl : copy = m := partly
  refine ⟨done ++ [copy], rest, by rw [split, List.append_assoc]; rfl, hold, ?_⟩
  rw [extractAll_concat, read]

theorem Sound.records (sound : Sound pp s) {records : List Record}
    (under : s.jobs.lookup n = some ⟨call, .reading records []⟩) :
    records = decode pp (.raw call.packet) call.exp call.args call.clock := by
  obtain ⟨own, known, done, rest, split, hold, read⟩ := (sound.faithful n _ under).carries id
  obtain rfl := List.forall₂_nil_left_iff.mp hold
  rw [decode_raw, known, split, List.append_nil]
  exact read

end Advance

def Returned.Own (pp : ProtoProducer Packet) (returned : Returned Packet) : Prop :=
  ∀ call records, returned = some (call, records) →
    records = decode pp (.raw call.packet) call.exp call.args call.clock

theorem own_none : Returned.Own pp none := fun _ _ impossible => by contradiction

theorem own_some {call : DecodeCall Packet} {records : List Record}
    (same : records = decode pp (.raw call.packet) call.exp call.args call.clock) :
    Returned.Own pp (some (call, records)) := by
  intro other found equal
  cases equal
  exact same

theorem advance_sound {s next : MessagePool Packet} (sound : Sound pp s) {n : Nat}
    {job : Job Packet} (under : s.jobs.lookup n = some job) {returned : Returned Packet}
    (moved : s.advance pp n job = some (next, returned)) :
    Sound pp next ∧ Returned.Own pp returned := by
  obtain ⟨call, phase⟩ := job
  cases phase with
  | filling msgs todo =>
      cases todo with
      | cons m todo => contradiction
      | nil =>
          simp only [MessagePool.advance] at moved
          split at moved
          · next failed =>
              cases moved
              refine ⟨sound.finished n, own_some ?_⟩
              rw [decode_raw, failed]
              rfl
          · next own known =>
              cases moved
              exact ⟨sound.commit known under, own_none⟩
  | writing msgs o m left todo =>
      cases left with
      | cons f left =>
          cases moved
          exact ⟨sound.written under, own_none⟩
      | nil =>
          cases moved
          exact ⟨sound.filled under, own_none⟩
  | committing msgs left =>
      cases left with
      | cons o left =>
          cases moved
          exact ⟨sound.put under, own_none⟩
      | nil =>
          cases moved
          exact ⟨sound.committed under, own_none⟩
  | reading records msgs =>
      cases msgs with
      | cons o msgs =>
          cases moved
          exact ⟨sound.opened under, own_none⟩
      | nil =>
          cases moved
          exact ⟨sound.finished n, own_some (sound.records under)⟩
  | copying records o copy left msgs =>
      cases left with
      | cons f left =>
          cases moved
          exact ⟨sound.copied under, own_none⟩
      | nil =>
          cases moved
          exact ⟨sound.extracted under, own_none⟩

theorem begun_sound {s : MessagePool Packet} (sound : Sound pp s) (n : Nat)
    (call : DecodeCall Packet) (scratch : List Message) :
    Sound pp (s.set n call (.filling [] ((produced pp call).getD scratch))) := by
  apply sound.replace (Nat.le_refl _) sound.distinct sound.freeBelow
  · exact fun _ impossible => by contradiction
  · exact fun _ impossible => by contradiction
  · exact List.nodup_nil
  · exact fun _ impossible => by contradiction
  · intro m other _ there
    exact ⟨fun o member => ⟨sound.heldTaken m other there o member, rfl⟩, fun _ _ => rfl,
      fun _ impossible => by contradiction, fun _ _ => ⟨List.not_mem_nil, List.not_mem_nil⟩⟩
  · cases known : produced pp call with
    | none =>
        rw [Job.faithful_of_failed known]
        exact trivial
    | some own =>
        rw [Job.faithful_of_produced known]
        exact ⟨[], rfl, .nil⟩

theorem step_sound {s next : MessagePool Packet} (sound : Sound pp s)
    {action : PoolAction Packet} (respects : Respects s action) {returned : Returned Packet}
    (moved : s.step pp action = some (next, returned)) :
    Sound pp next ∧ Returned.Own pp returned := by
  cases action with
  | begin n call scratch =>
      simp only [MessagePool.step] at moved
      split at moved
      · contradiction
      · cases moved
        exact ⟨begun_sound sound n call scratch, own_none⟩
  | take n o =>
      obtain ⟨job, under, taken⟩ := Option.bind_eq_some_iff.mp moved
      obtain ⟨after, made, same⟩ := Option.map_eq_some_iff.mp taken
      cases same
      exact ⟨take_sound sound under respects made, own_none⟩
  | advance n =>
      obtain ⟨job, under, advanced⟩ := Option.bind_eq_some_iff.mp moved
      exact advance_sound sound under advanced
  | collect o =>
      simp only [MessagePool.step] at moved
      split at moved
      · cases moved
        constructor
        · constructor
          · exact sound.distinct.erase o
          · exact fun x member => sound.freeBelow x (List.mem_of_mem_erase member)
          · exact sound.usedBelow
          · exact sound.heldDistinct
          · exact fun n job under x member back =>
              sound.heldTaken n job under x member (List.mem_of_mem_erase back)
          · exact sound.apart
          · exact sound.faithful
        · exact own_none
      · contradiction

abbrev PoolTrace (Packet : Type) :=
  List (Entry (MessagePool Packet) (PoolAction Packet) (Returned Packet))

theorem sound_empty : Sound pp (MessagePool.empty : MessagePool Packet) where
  distinct := List.nodup_nil
  freeBelow _ impossible := by contradiction
  usedBelow _ _ impossible := by contradiction
  heldDistinct _ _ impossible := by contradiction
  heldTaken _ _ impossible := by contradiction
  apart _ _ _ _ _ impossible := by contradiction
  faithful _ _ impossible := by contradiction

theorem sound_run {trace : PoolTrace Packet} {final : MessagePool Packet}
    (run : Run (MessagePool.step pp) MessagePool.empty trace final)
    (respected : ∀ front entry back, trace = front ++ entry :: back →
      Respects entry.before entry.action) : Sound pp final := by
  apply run.invariant (fun _ s action => Respects s action) (fun _ s => Sound pp s)
  · exact sound_empty
  · intro _ s action next returned _ sound guard moved
    exact (step_sound sound guard moved).1
  · exact respected

/-- In every interleaving of decode calls in which no call takes an object that another has put
back and not yet read, each call returns the records of its own packet. -/
theorem records_own {trace : PoolTrace Packet} {final : MessagePool Packet}
    (run : Run (MessagePool.step pp) MessagePool.empty trace final)
    (respected : ∀ front entry back, trace = front ++ entry :: back →
      Respects entry.before entry.action) :
    ∀ front entry back call records, trace = front ++ entry :: back →
      entry.output = some (call, records) →
      records = decode pp (.raw call.packet) call.exp call.args call.clock := by
  rintro front entry back call records rfl returned
  obtain ⟨past, next, moved, -⟩ := run.cut
  have earlier : back <:+ front ++ entry :: back :=
    (List.suffix_cons entry back).trans (List.suffix_append ..)
  have sound := sound_run past (Run.guarded_of_suffix earlier respected)
  exact (step_sound sound (respected front entry back rfl) moved).2 call records returned

def sampleDecode (proto : UInt32) : DecodeCall (List Item) where
  packet := [.flow { sampleMessage with proto := proto }]
  exp := sampleExporter
  args := (sampleDatagram []).args
  clock _ := Time.ofUnix 100

def sampleProduce (n : Nat) (o : Option Nat) : List (PoolAction (List Item)) :=
  .take n o :: List.replicate 10 (.advance n)

def sampleExtract (n : Nat) : List (PoolAction (List Item)) := List.replicate 9 (.advance n)

theorem records_own_sample : ∃ (trace : PoolTrace (List Item)) (final : MessagePool (List Item)),
    Run (MessagePool.step sampleProducer) MessagePool.empty trace final ∧
      (trace.filterMap Entry.output).map (fun r => r.2.map Record.proto) = [[6], [17]] ∧
      ∀ front entry back call records, trace = front ++ entry :: back →
        entry.output = some (call, records) →
        records = decode sampleProducer (.raw call.packet) call.exp call.args call.clock := by
  have executed : (Run.replay (MessagePool.step sampleProducer) [] MessagePool.empty
      ([.begin 0 (sampleDecode 17) [], .begin 1 (sampleDecode 6) []] ++ sampleProduce 0 none ++
        sampleExtract 0 ++ sampleProduce 1 (some 0) ++ sampleExtract 1)).map
      (fun made : PoolTrace (List Item) × MessagePool (List Item) =>
        ((made.1.filterMap Entry.output).map fun r => r.2.map Record.proto,
          Run.checks (fun _ entry => decide (Respects entry.before entry.action)) made.1)) =
      some ([[6], [17]], true) := by
    decide +kernel
  obtain ⟨⟨trace, final⟩, replayed, observed⟩ := Option.map_eq_some_iff.mp executed
  rw [Prod.mk.injEq] at observed
  have run : Run (MessagePool.step sampleProducer) MessagePool.empty trace final :=
    Run.of_replay .start replayed
  refine ⟨trace, final, run, observed.1, ?_⟩
  apply records_own run
  intro front entry back split
  exact of_decide_eq_true (Run.of_checks observed.2 front entry back split)

/-- The second call takes the object of the first one while it is being read: a record of the
first packet gets the protocol of the second. -/
theorem record_leaked : ∃ (trace : PoolTrace (List Item)) (final : MessagePool (List Item)),
    Run (MessagePool.step sampleProducer) MessagePool.empty trace final ∧
      ∃ front entry back call records, trace = front ++ entry :: back ∧
        entry.output = some (call, records) ∧
        records ≠ decode sampleProducer (.raw call.packet) call.exp call.args call.clock := by
  have executed : (Run.replay (MessagePool.step sampleProducer) [] MessagePool.empty
      ([.begin 0 (sampleDecode 17) [], .begin 1 (sampleDecode 6) []] ++ sampleProduce 0 none ++
        sampleProduce 1 (some 0) ++ sampleExtract 0)).map
      (fun made : PoolTrace (List Item) × MessagePool (List Item) =>
        made.1.head?.bind fun entry => entry.output.map fun r =>
          decide (r.2 = decode sampleProducer (.raw r.1.packet) r.1.exp r.1.args r.1.clock)) =
      some (some false) := by
    decide +kernel
  obtain ⟨⟨trace, final⟩, replayed, observed⟩ := Option.map_eq_some_iff.mp executed
  obtain ⟨entry, latest, seen⟩ := Option.bind_eq_some_iff.mp observed
  obtain ⟨⟨call, records⟩, returned, different⟩ := Option.map_eq_some_iff.mp seen
  obtain ⟨back, rfl⟩ := List.head?_eq_some_iff.mp latest
  exact ⟨entry :: back, final, Run.of_replay .start replayed, [], entry, back, call, records, rfl,
    returned, of_decide_eq_false different⟩

end Mitigador.Ingest
