import Coppermind.Purge.Unused

/-!
# Saving a receipt

`save` writes a receipt where its state puts it and then removes it everywhere else, so a kill in
between leaves two copies.  At every step each file of receipts is as it was, or is the receipt
that is saved; nothing but receipts changes.
-/

namespace Coppermind.Purge

open Coppermind.Lib
open Coppermind.Lib.Task (perform wp_perform_alone wp_look_alone wp_forEach)

abbrev Receipts := Folder → AList fun _ : PyStr => Option Record

def World.withReceipts (w : World) (r : Receipts) : World := { w with receipts := r }

/-- A step of `save`. -/
def Site.saves : Site → Bool
  | .write _ | .sync _ | .discard _ _ => true
  | _ => false

variable {env : Env} {record : Record} {w : World}

/-- The receipts while one is saved. -/
structure Saving (record : Record) (w : World) (r : Receipts) : Prop where
  others : ∀ folder token, token ≠ record.token →
    (r folder).lookup token = (w.receipts folder).lookup token
  own : ∀ folder found, (r folder).lookup record.token = some found →
    (w.receipts folder).lookup record.token = some found ∨ found = some record

/-- The receipts after one is saved: it stands in one place. -/
structure SavedAs (record : Record) (w : World) (r : Receipts) : Prop extends
    Saving record w r where
  here : (r record.state.folder).lookup record.token = some (some record)
  elsewhere : ∀ folder, folder ≠ record.state.folder → (r folder).lookup record.token = none

theorem saving_start : Saving record w w.receipts where
  others _ _ _ := rfl
  own _ _ h := Or.inl h

theorem saving_write : Saving record w
    (Function.update w.receipts record.state.folder
      ((w.receipts record.state.folder).insert record.token (some record))) where
  others folder token hne := by
    by_cases hf : folder = record.state.folder
    · subst hf
      rw [Function.update_self, AList.lookup_insert_ne hne]
    · rw [Function.update_of_ne hf]
  own folder found h := by
    by_cases hf : folder = record.state.folder
    · subst hf
      rw [Function.update_self, AList.lookup_insert] at h
      exact Or.inr (Option.some.inj h).symm
    · rw [Function.update_of_ne hf] at h
      exact Or.inl h

theorem Saving.discard {r : Receipts} (h : Saving record w r) (folder : Folder) :
    Saving record w (Function.update r folder ((r folder).erase record.token)) where
  others folder' token hne := by
    by_cases hf : folder' = folder
    · subst hf
      rw [Function.update_self, AList.lookup_erase_ne hne]
      exact h.others folder' token hne
    · rw [Function.update_of_ne hf]
      exact h.others folder' token hne
  own folder' found hfound := by
    by_cases hf : folder' = folder
    · subst hf
      rw [Function.update_self, AList.lookup_erase] at hfound
      cases hfound
    · rw [Function.update_of_ne hf] at hfound
      exact h.own folder' found hfound

variable {fails : Site → Prop} {K : Site → World → Prop} {E : Raised → World → Prop}

/-- **Saving a receipt**, step by step. -/
theorem wp_save {Q : Unit → World → Prop}
    (hK : ∀ site, site.saves = true → ∀ r, Saving record w r → K site (w.withReceipts r))
    (hE : ∀ site, fails site → ∀ r, Saving record w r → E (.osError none) (w.withReceipts r))
    (hQ : ∀ r, SavedAs record w r → Q () (w.withReceipts r)) :
    Task.wp (.alone fails) K Q E (save record) w := by
  unfold save
  rw [Task.wp_bind, wp_perform_alone]
  refine ⟨hK _ rfl w.receipts saving_start, ?_, fun hf => hE _ hf w.receipts saving_start⟩
  rw [Task.wp_bind, wp_look_alone]
  refine ⟨hK _ rfl _ saving_write, ?_, fun hf => hE _ hf _ saving_write⟩
  let Reached (past : List Folder) (s : World) : Prop :=
    ∃ r, s = w.withReceipts r ∧ Saving record w r ∧
      (r record.state.folder).lookup record.token = some (some record) ∧
      ∀ folder ∈ past, (r folder).lookup record.token = none
  refine Task.wp_mono (wp_forEach (I := Reached) ?_ ?_) (fun _ _ h => h) ?_ fun _ _ h => h
  · rintro past folder rest hsplit s ⟨r, rfl, hsaving, hhere, hpast⟩
    have hfolder : folder ≠ record.state.folder := by
      have hmem : folder ∈ [Folder.root, .done, .abandoned].filter (· ≠ record.state.folder) := by
        rw [hsplit]
        simp
      simpa using (List.mem_filter.1 hmem).2
    rw [wp_perform_alone]
    refine ⟨hK _ rfl r hsaving, ⟨_, rfl, hsaving.discard folder, ?_, ?_⟩,
      fun hf => hE _ hf r hsaving⟩
    · change (Function.update r folder _ record.state.folder).lookup _ = _
      rw [Function.update_of_ne hfolder.symm]
      exact hhere
    · intro folder' hfolder'
      change (Function.update r folder _ folder').lookup _ = _
      by_cases hf : folder' = folder
      · subst hf
        rw [Function.update_self, AList.lookup_erase]
      · rw [Function.update_of_ne hf]
        obtain hold | hnew := List.mem_append.1 hfolder'
        · exact hpast folder' hold
        · exact absurd (List.mem_singleton.1 hnew) hf
  · refine ⟨_, rfl, saving_write, ?_, by simp⟩
    rw [Function.update_self, AList.lookup_insert]
  · rintro _ s ⟨r, rfl, hsaving, hhere, hpast⟩
    refine hQ r ⟨hsaving, hhere, fun folder hfolder => hpast folder ?_⟩
    rw [List.mem_filter]
    refine ⟨?_, by simpa using hfolder⟩
    cases folder <;> simp

/-- The handler of a confirmation, step by step. -/
theorem wp_giveUp {α : Type} {Q : α → World → Prop} {e : Raised}
    (hK : ∀ site, site.saves = true → ∀ r,
      Saving { record with error := some unfinishedText } w r → K site (w.withReceipts r))
    (hE : ∀ e r, Saving { record with error := some unfinishedText } w r →
      E e (w.withReceipts r)) :
    Task.wp (.alone fails) K Q E (giveUp record e) w := by
  unfold giveUp
  rw [Task.wp_bind]
  exact wp_save hK (fun _ _ r hr => hE _ r hr) fun r hr => hE e r hr.toSaving

end Coppermind.Purge
