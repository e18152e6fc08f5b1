import Agenda.Proofs.Call
import Agenda.Proofs.Reminders
import Agenda.Proofs.Retention
import Mathlib.Data.List.Induction

/-!
# Sessions

Calls, dispatches and purges on one store that does not fail, one after the other and each run to its
end. A session keeps the history of what has been accepted, removed and handed to the broker.

* `run`: a session from the empty store.
* `Command.perform_records`: what an entry of the history says about the store before and after it.
* `run_induction`: what every command keeps holds after every session.
-/
namespace Agenda.Sequential

open Reminders Retention

inductive Command where
  | call (c : Call)
  /-- A dispatch at `now`; `accepts` tells which messages the broker takes. -/
  | dispatch (now : Instant) (accepts : Event → Bool)
  | purge (now : Instant)

inductive Entry where
  /-- An event was accepted; it is recorded as submitted, with its id. -/
  | accepted (e : Event)
  | deleted (id : String)
  /-- A purge has deleted the events with these ids. -/
  | purged (now : Instant) (ids : List String)
  /-- A dispatch has handed these messages to the broker. -/
  | dispatched (now : Instant) (accepts : Event → Bool) (messages : List Message)

structure Session where
  backend : Backend
  history : List Entry

/-- Nothing is stored, and nothing has happened. -/
def start : Session := ⟨.reliable .empty, []⟩

/-- The entry for a call that has made a change. -/
def entry (c : Call) : Change → Entry
  | .created e | .updated e => .accepted (c.submission?.getD e)
  | .deleted id => .deleted id

/-- Runs a command: the entry for it, and the store after it. -/
def Command.perform (b : Backend) : Command → Option (Entry × Backend)
  | call c => (c.perform b).map fun (ch, b) => (entry c ch, b)
  | dispatch now accepts =>
    (Reminders.dispatch accepts now b).toOption.map fun d =>
      (.dispatched now accepts d.messages.reverse, d.backend)
  | purge now =>
    (Retention.purge now b).toOption.map fun p =>
      (.purged now ((expired now b.store.events).map Event.id), p.2)

/-- A command that fails leaves the session as it is. -/
def Session.perform (s : Session) (c : Command) : Session :=
  match c.perform s.backend with
  | some (x, b) => ⟨b, s.history ++ [x]⟩
  | none => s

def run (cs : List Command) : Session := cs.foldl Session.perform start

/-! ## Runs -/

theorem run_concat (cs : List Command) (c : Command) : run (cs ++ [c]) = (run cs).perform c := by
  simp [run]

/-- What holds at the start and is kept by every command holds after every session. -/
theorem run_induction {P : Session → Prop} (init : P start)
    (step : ∀ {s x b} c, P s → Command.perform s.backend c = some (x, b) → P ⟨b, s.history ++ [x]⟩)
    (cs : List Command) : P (run cs) := by
  induction cs using List.reverseRecOn with
  | nil => exact init
  | append_singleton cs c ih =>
    rw [run_concat, Session.perform]
    split
    · rename_i x b h; exact step c ih h
    · exact ih

theorem history_perform (s : Session) (c : Command) : s.history <+: (s.perform c).history := by
  unfold Session.perform
  split
  · exact List.prefix_append _ _
  · exact List.prefix_refl _

theorem history_mono {cs ds : List Command} (h : ds <+: cs) :
    (run ds).history <+: (run cs).history := by
  obtain ⟨es, rfl⟩ := h
  induction es using List.reverseRecOn with
  | nil => simpa only [List.append_nil] using List.prefix_refl (run ds).history
  | append_singleton es c ih =>
    rw [← List.append_assoc, run_concat]
    exact ih.trans (history_perform _ c)

/-! ## What the entries say -/

/-- What the entry says about the store before and after it. -/
def Entry.Records (b b' : Backend) : Entry → Prop
  | accepted e =>
    e.violation? = none ∧ b'.store.find? = Function.update b.store.find? e.id (some e.rearmed)
  | deleted id => b'.store.find? = Function.update b.store.find? id none
  | purged _ ids => ∀ id, b'.store.find? id = if id ∈ ids then none else b.store.find? id
  | dispatched now accepts ms =>
    ms = (dueEvents now b.store.events).filterMap (publish accepts) ∧
    ∀ id, b'.store.find? id = (b.store.find? id).map fun e =>
      if e.IsDue now ∧ Delivers accepts e then { e with isSent := true } else e

variable {b b' : Backend} {x : Entry}

theorem call_records {c : Call} {ch : Change} (h : c.perform b = some (ch, b')) :
    (entry c ch).Records b b' ∧ b'.fault = b.fault := by
  obtain ⟨e, hs, hv, rfl, hc⟩ | ⟨e, hs, hv, rfl, hc⟩ | ⟨id, rfl, hc⟩ := Call.perform_cases h
  · have hb := Backend.create_ok hc
    exact ⟨by simpa [entry, hs] using ⟨hv, hb.1⟩, hb.2⟩
  · have hb := Backend.update_ok hc
    exact ⟨by simpa [entry, hs] using ⟨hv, hb.1⟩, hb.2⟩
  · exact Backend.delete_ok hc

theorem dispatch_records {accepts : Event → Bool} {now : Instant} {d : Dispatch}
    (hf : b.fault = fun _ => none) (h : Reminders.dispatch accepts now b = .ok d) :
    (Entry.dispatched now accepts d.messages.reverse).Records b d.backend := by
  refine ⟨dispatch_messages h, fun id => ?_⟩
  rw [dispatch_find? h]
  cases hb : b.store.find? id with
  | none => rfl
  | some e =>
    have hm : Marks accepts b e ↔ Delivers accepts e := by
      have hh : b.store.Holds e.id := by
        rw [Store.id_of_find? hb]; exact Store.holds_iff.2 ⟨e, hb⟩
      simp only [Marks, hf, hh, and_true]
    simp only [Option.map_some, hm]

theorem purge_records {now : Instant} {p : Nat × Backend} (hf : b.fault = fun _ => none)
    (h : Retention.purge now b = .ok p) :
    (Entry.purged now ((expired now b.store.events).map Event.id)).Records b p.2 := by
  intro id
  rw [purge_find? h, hf]
  simp only [and_true]

/-- **Entries.** The entry of a command says what the command has done. -/
theorem Command.perform_records {c : Command} (hf : b.fault = fun _ => none)
    (h : c.perform b = some (x, b')) : x.Records b b' ∧ b'.fault = fun _ => none := by
  cases c with
  | call c =>
    obtain ⟨⟨ch, b₁⟩, hc, hx⟩ := Option.map_eq_some_iff.1 h
    cases hx
    obtain ⟨hr, hb⟩ := call_records hc
    exact ⟨hr, hb.trans hf⟩
  | dispatch now accepts =>
    obtain ⟨d, hd, hx⟩ := Option.map_eq_some_iff.1 h
    cases hx
    have hok := toOption_eq_some.1 hd
    exact ⟨dispatch_records hf hok, (dispatch_fault hok).trans hf⟩
  | purge now =>
    obtain ⟨p, hp, hx⟩ := Option.map_eq_some_iff.1 h
    cases hx
    have hok := toOption_eq_some.1 hp
    exact ⟨purge_records hf hok, (purge_fault hok).trans hf⟩

end Agenda.Sequential
