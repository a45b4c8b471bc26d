import Mathlib.Data.List.Induction
import Mathlib.Data.List.Lemmas
import Mathlib.Logic.Function.Basic
import Mitigador.Lib.KeyedMap
import Mitigador.Lib.Transaction

/-! Entries with keys laid over a partial function, where a later entry covers an earlier one. -/

namespace Mitigador.Lib

variable {κ ν μ : Type*} [DecidableEq κ]

/-- The last entry of the key, or what was there before. -/
def overlay (entries : List (κ × ν)) (prior : κ → Option ν) (key : κ) : Option ν :=
  ((entries.reverse.find? fun entry => entry.1 = key).map Prod.snd).or (prior key)

theorem overlay_concat (entries : List (κ × ν)) (key : κ) (value : ν) (prior : κ → Option ν) :
    overlay (entries ++ [(key, value)]) prior =
      Function.update (overlay entries prior) key (some value) := by
  funext other
  by_cases same : other = key
  · subst same
    simp [overlay]
  · simp [overlay, same, Ne.symm same]

theorem overlay_append (older newer : List (κ × ν)) (prior : κ → Option ν) :
    overlay (older ++ newer) prior = overlay newer (overlay older prior) := by
  funext key
  simp only [overlay, List.reverse_append, List.find?_append, Option.map_or, Option.or_assoc]

theorem overlay_rows {ι : Type*} {row : ι → Option (κ × ν)} {own : ι → κ} {items : List ι}
    (asks : ∀ item ∈ items, ∃ value, row item = some (own item, value)) {key : κ} {value : ν} :
    overlay (items.filterMap row) (fun _ => none) key = some value ↔
      ∃ item, KeyedMap.lastAt own key items = some item ∧ row item = some (key, value) := by
  induction items using List.reverseRecOn with
  | nil => simp [overlay, KeyedMap.lastAt]
  | append_singleton items item ih =>
      obtain ⟨last, asked⟩ := asks item (by simp)
      have earlier := ih fun other member => asks other (List.mem_append_left _ member)
      have appended : overlay ((items ++ [item]).filterMap row) (fun _ => none) =
          Function.update (overlay (items.filterMap row) fun _ => none) (own item) (some last) := by
        rw [List.filterMap_append, List.filterMap_cons, asked, List.filterMap_nil, overlay_concat]
      rw [appended, Function.update_apply, KeyedMap.lastAt, List.reverse_append]
      by_cases here : key = own item
      · subst here
        simp [asked]
      · rw [if_neg here, earlier]
        simp [KeyedMap.lastAt, Ne.symm here]

theorem KeyedMap.lookup_insert_eq_update (table : KeyedMap κ ν) (key : κ) (value : ν) :
    (table.insert key value).lookup = Function.update table.lookup key (some value) := by
  funext other
  rw [KeyedMap.lookup_insert, Function.update_apply]

/-- A loop whose turns each write the row of their item into one part of the store lays the rows
over what was there, and leaves the other parts. -/
theorem Program.foldlM_overlay {σ ε ι α ω : Type*} {body : α → ι → Program σ ε α}
    (keeps : α → σ → Prop) (view : σ → ω) (put : (κ → Option ν) → ω) (row : ι → Option (κ × ν))
    (turn : ∀ sum item next before after seen, keeps sum before.copy →
      view before.copy = put seen → body sum item before = (.ok next, after) →
        keeps next after.copy ∧ ∃ key value, row item = some (key, value) ∧
          view after.copy = put (Function.update seen key (some value)))
    {items : List ι} {sum next : α} {before after : Work σ} {prior : κ → Option ν}
    (start : keeps sum before.copy) (seen : view before.copy = put prior)
    (ran : items.foldlM body sum before = (.ok next, after)) :
    keeps next after.copy ∧ (∀ item ∈ items, (row item).isSome) ∧
      view after.copy = put (overlay (items.filterMap row) prior) := by
  let laid (done : List ι) (next : α) (copy : σ) : Prop :=
    keeps next copy ∧ (∀ item ∈ done, (row item).isSome) ∧
      view copy = put (overlay (done.filterMap row) prior)
  have fresh : laid [] sum before.copy := ⟨start, by simp, seen⟩
  refine Program.foldlM_eq_ok laid ?_ fresh ran
  rintro done item sum next before after ⟨kept, valid, known⟩ turned
  obtain ⟨keeps, key, value, proposed, written⟩ :=
    turn sum item next before after _ kept known turned
  refine ⟨keeps, ?_, ?_⟩
  · intro other member
    rcases List.mem_append.mp member with early | last
    · exact valid other early
    · rw [List.mem_singleton.mp last, proposed]
      rfl
  · rw [List.filterMap_append, List.filterMap_cons, proposed, List.filterMap_nil, overlay_concat,
      written]

end Mitigador.Lib
