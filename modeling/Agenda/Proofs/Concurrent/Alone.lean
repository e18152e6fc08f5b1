import Agenda.Proofs.Concurrent.System

/-!
# Jobs that nothing interferes with

The steps of a job, taken one after the other with nothing in between, are a dispatch or a purge as
the service runs it: they leave the same store, and what it reports is what has occurred.

* `Follows`: the occurrences account for the messages and the marks of a dispatch.
* `run_dispatch`, `run_purge`: a dispatch or a purge is a run.
-/
namespace Agenda.Concurrent

open Reminders Retention

variable {accepts : Event → Bool} {now : Instant} {s : State} {d d' d'' : Dispatch} {js : List Job}
  {e : Event} {m : Message} {os os' : List Occurrence}

/-- The message that the broker has taken in the occurrence. -/
def Occurrence.message? : Occurrence → Option Message
  | published _ m => some m
  | _ => none

/-- The id whose event a purge deletes in the occurrence. -/
def Occurrence.purge? : Occurrence → Option String
  | purged _ id => some id
  | _ => none

/-- The job that has begun last takes a step. -/
theorem Step.last {b b' : Backend} {j j' : Job} {o : Occurrence} (h : JobStep b j o b' j') :
    Step ⟨b, js ++ [j]⟩ o ⟨b', js ++ [j']⟩ := by
  have hs : Step ⟨b, js ++ [j]⟩ o ⟨b', (js ++ [j]).set js.length j'⟩ :=
    .job (i := js.length) (by simp) h
  simpa using hs

/-! ## Dispatches -/

/-- The occurrences account for what a dispatch has done between `d` and `d'`. -/
structure Follows (d d' : Dispatch) (os : List Occurrence) : Prop where
  messages : d'.messages.filter (·.taken) =
    (os.filterMap Occurrence.message?).reverse ++ d.messages.filter (·.taken)
  marked : d'.marked = d.marked + (os.filterMap Occurrence.mark?).length

theorem Follows.refl (d : Dispatch) : Follows d d [] where
  messages := by simp
  marked := by simp

theorem Follows.trans (h : Follows d d' os) (h' : Follows d' d'' os') :
    Follows d d'' (os ++ os') where
  messages := by rw [h'.messages, h.messages]; simp
  marked := by rw [h'.marked, h.marked]; simp; omega

/-- Handling one event is at most two steps: its message, and its mark. -/
theorem run_step (accepts : Event → Bool) (d : Dispatch) (js : List Job) (e : Event)
    (due : List Event) : ∃ os,
    Run ⟨d.backend, js ++ [.publishing (e :: due)]⟩ os
      ⟨(d.step accepts e).backend, js ++ [.publishing due]⟩ ∧
    Follows d (d.step accepts e) os := by
  unfold Dispatch.step
  cases hm : publish accepts e with
  | none => exact ⟨[.unsent e], .single (.last .fail), ⟨rfl, rfl⟩⟩
  | some m =>
    dsimp only
    by_cases ht : m.taken = true
    · have hp : Step ⟨d.backend, js ++ [.publishing (e :: due)]⟩ (.published e m)
          ⟨d.backend, js ++ [.marking e due]⟩ := .last (.publish (publish_taken hm ht))
      have hf : (m :: d.messages).filter (·.taken) = [m] ++ d.messages.filter (·.taken) :=
        List.filter_cons_of_pos ht
      rw [if_pos ht]
      cases hk : mark e d.backend with
      | ok b =>
        exact ⟨[.published e m, .marked e], .cons hp (.single (.last (.mark hk))), ⟨hf, rfl⟩⟩
      | error err =>
        exact ⟨[.published e m, .idle], .cons hp (.single (.last (.unmarked hk))), ⟨hf, rfl⟩⟩
    · have hf : (m :: d.messages).filter (·.taken) = d.messages.filter (·.taken) :=
        List.filter_cons_of_neg ht
      rw [if_neg ht]
      exact ⟨[.unsent e], .single (.last .fail), ⟨hf, rfl⟩⟩

theorem run_steps (accepts : Event → Bool) (js : List Job) (due : List Event) (d : Dispatch) : ∃ os,
    Run ⟨d.backend, js ++ [.publishing due]⟩ os
      ⟨(due.foldl (Dispatch.step accepts) d).backend, js ++ [.publishing []]⟩ ∧
    Follows d (due.foldl (Dispatch.step accepts) d) os := by
  induction due generalizing d with
  | nil => exact ⟨[], .nil _, .refl d⟩
  | cons e due ih =>
    obtain ⟨os₁, hr₁, hf₁⟩ := run_step accepts d js e due
    obtain ⟨os₂, hr₂, hf₂⟩ := ih (d.step accepts e)
    exact ⟨os₁ ++ os₂, hr₁.append hr₂, hf₁.trans hf₂⟩

/-- **Dispatches.** A dispatch that nothing interferes with is a run: it leaves the same store, and
the messages that were taken and the marks are those that occur. -/
theorem run_dispatch (h : dispatch accepts now s.backend = .ok d) : ∃ os,
    Run s os ⟨d.backend, s.jobs ++ [.publishing []]⟩ ∧
    d.messages.filter (·.taken) = (os.filterMap Occurrence.message?).reverse ∧
    d.marked = (os.filterMap Occurrence.mark?).length := by
  unfold dispatch at h
  cases hl : s.backend.list with
  | error err => rw [hl] at h; cases h
  | ok es =>
    rw [hl] at h
    cases h
    obtain ⟨os, hr, hf⟩ := run_steps accepts s.jobs (dueEvents now es) ⟨s.backend, 0, []⟩
    refine ⟨.listed :: os, .cons (.dispatch now hl (.refl es)) hr, ?_, ?_⟩
    · exact hf.messages.trans (List.append_nil _)
    · exact hf.marked.trans (Nat.zero_add _)

/-! ## Purges -/

theorem run_remove (now : Instant) (js : List Job) (es : List Event) (p : Nat × Backend) : ∃ os,
    Run ⟨p.2, js ++ [.deleting now es]⟩ os ⟨(es.foldl remove p).2, js ++ [.deleting now []]⟩ ∧
    (es.foldl remove p).1 = p.1 + (os.filterMap Occurrence.purge?).length := by
  induction es generalizing p with
  | nil => exact ⟨[], .nil _, rfl⟩
  | cons e es ih =>
    obtain ⟨os, hr, hn⟩ := ih (remove p e)
    rw [List.foldl_cons, hn]
    unfold remove at hr ⊢
    cases hd : p.2.delete e.id with
    | ok b =>
      rw [hd] at hr
      refine ⟨.purged now e.id :: os, .cons (.last (.delete hd)) hr, ?_⟩
      rw [List.filterMap_cons_some (show (Occurrence.purged now e.id).purge? = some e.id from rfl),
        List.length_cons]
      dsimp only
      omega
    | error err =>
      rw [hd] at hr
      exact ⟨.idle :: os, .cons (.last (.undeleted hd)) hr, rfl⟩

/-- **Purges.** A purge that nothing interferes with is a run: it leaves the same store, and what it
counts are the deletions that occur. -/
theorem run_purge {p : Nat × Backend} (h : purge now s.backend = .ok p) : ∃ os,
    Run s os ⟨p.2, s.jobs ++ [.deleting now []]⟩ ∧
    p.1 = (os.filterMap Occurrence.purge?).length := by
  unfold purge at h
  cases hl : s.backend.list with
  | error err => rw [hl] at h; cases h
  | ok es =>
    rw [hl] at h
    cases h
    obtain ⟨os, hr, hn⟩ := run_remove now s.jobs (expired now es) (0, s.backend)
    exact ⟨.listed :: os, .cons (.purge now hl (.refl es)) hr, hn.trans (Nat.zero_add _)⟩

end Agenda.Concurrent
