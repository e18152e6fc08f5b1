import Agenda.Proofs.Event.Validation
import Agenda.Proofs.Sequential.Lives

/-!
# Validity of what is stored

Only valid events are accepted, but they are checked before their start is cut to microseconds. So a
store holds valid events only, unless an event was accepted whose start is cut to the zero date: that
one is stored without a start, and would not be accepted again.

* `exists_stored`: an event that is accepted is stored right then.
* `stored_valid_iff`: everything stored is valid iff no accepted event is cut to the zero date.
-/
namespace Agenda.Sequential

variable {e f : Event} {cs : List Command}

/-- An event that a session has accepted was stored at some time. -/
theorem exists_stored (he : .accepted e ∈ (run cs).history) :
    ∃ ds, ds <+: cs ∧ (run ds).backend.store.find? e.id = some e.rearmed := by
  induction cs using List.reverseRecOn with
  | nil => cases he
  | append_singleton cs c ih =>
    have hearlier : .accepted e ∈ (run cs).history → ∃ ds, ds <+: cs ++ [c] ∧
        (run ds).backend.store.find? e.id = some e.rearmed := by
      intro h
      obtain ⟨ds, hds, hf⟩ := ih h
      exact ⟨ds, hds.trans (List.prefix_append _ _), hf⟩
    cases hc : c.perform (run cs).backend with
    | none =>
      rw [run_concat, Session.perform, hc] at he
      exact hearlier he
    | some p =>
      obtain ⟨x, b⟩ := p
      have hrun : run (cs ++ [c]) = ⟨b, (run cs).history ++ [x]⟩ := by
        rw [run_concat, Session.perform, hc]
      rw [hrun] at he
      rcases List.mem_append.1 he with he | he
      · exact hearlier he
      · cases List.mem_singleton.1 he
        obtain ⟨hr, -⟩ := Command.perform_records (run_explained cs).reliable hc
        refine ⟨cs ++ [c], List.prefix_refl _, ?_⟩
        rw [hrun, hr.2]
        exact Function.update_self ..

/-- What is stored is what was kept of a valid event that was accepted. -/
theorem exists_accepted_of_stored (hf : f ∈ (run cs).backend.store.events) :
    ∃ e, .accepted e ∈ (run cs).history ∧ e.violation? = none ∧
      f = { e.truncated with isSent := f.isSent } := by
  have hex := run_explained cs
  have hv := Store.find?_of_mem hf
  rw [hex.view] at hv
  obtain ⟨l, hl, rfl⟩ := Option.map_eq_some_iff.1 hv
  obtain ⟨pre, post, hhist, -, -⟩ := exists_accepted hl
  have hmem : .accepted l.event ∈ (run cs).history := by
    rw [hhist]; exact List.mem_append_right _ (List.mem_cons_self ..)
  exact ⟨l.event, hmem, hex.valid l.event hmem, rfl⟩

/-- **Validity.** At every time of a session every stored event is valid, and acceptable once more,
iff the session accepts no event whose start is cut to the zero date. -/
theorem stored_valid_iff (cs : List Command) :
    (∀ ds, ds <+: cs → ∀ f ∈ (run ds).backend.store.events,
      f.violation? = none ∧ f.Acceptable) ↔
    ∀ e, .accepted e ∈ (run cs).history → ¬ e.StartsAtZero := by
  constructor
  · intro h e he
    have hv : e.violation? = none := (run_explained cs).valid e he
    obtain ⟨ds, hds, hf⟩ := exists_stored he
    exact (Event.violation?_kept_iff hv false).1 (h ds hds e.rearmed (Store.mem_of_find? hf)).1
  · intro h ds hds f hf
    obtain ⟨e, he, hv, hfe⟩ := exists_accepted_of_stored hf
    have hz : ¬ e.StartsAtZero := h e ((history_mono hds).subset he)
    have hvf : f.violation? = none := by
      rw [hfe]; exact (Event.violation?_kept_iff hv f.isSent).2 hz
    exact ⟨hvf, Event.acceptable_iff.2 hvf⟩

/-! ## An event that is stored without a start -/

/-- It starts half a microsecond after the zero date. -/
def dawn : Event := { Reminders.visit with startDate := ⟨-62135596800, 500, by decide⟩ }

theorem stored_invalid : ∃ f ∈ (run [.call (.create "" dawn)]).backend.store.events,
    f.violation? = some (.missing "startDate") :=
  ⟨dawn.rearmed, List.mem_singleton.2 rfl, by decide⟩

end Agenda.Sequential
