import Agenda.Proofs.Http.Router
import Agenda.Proofs.Json.List
import Agenda.Proofs.Views

/-!
# Requests for a view

A view is answered with a list of events as JSON. One event that cannot be written would make the
whole list a failure; if all can be, a client reads back exactly what the view shows.

* `eventsResponse_eq`: a response with events that can be written.
* `Router.handle?_view`: the response to a request for a view.
-/
namespace Agenda

open Json Text.Utf8

/-- The events that the bytes denote, as a client reads them. -/
def Event.listOfJson (input : List UInt8) : Except ReadError (List Event) :=
  Event.record.reader.list.decode input

namespace Http

variable {es : List Event} {fresh owner : String} {now : Instant} {req : Request} {v : View}
  {w : Window} {b : Backend}

/-- Events that can be written are each read back. -/
theorem exists_bodies (h : ∀ e ∈ es, ∃ cs, e.toJson? = some cs) :
    ∃ bodies, es.mapM Event.toJson? = some bodies ∧
      List.Forall₂ Event.record.reader.Reads bodies es ∧ ∀ t ∈ bodies, StartsItem t := by
  induction es with
  | nil => exact ⟨[], rfl, .nil, by simp⟩
  | cons e es ih =>
    obtain ⟨⟨cs, hcs⟩, hrest⟩ := List.forall_mem_cons.1 h
    obtain ⟨bodies, hbodies, hreads, hstarts⟩ := ih hrest
    have hobject : StartsItem cs := by
      obtain ⟨nanos, -, rfl⟩ := Option.map_eq_some_iff.1 (e.toJson?_eq ▸ hcs)
      exact startsItem_writeObject _
    refine ⟨cs :: bodies, ?_, .cons (Event.reads_written hcs) hreads,
      List.forall_mem_cons.2 ⟨hobject, hstarts⟩⟩
    simp [List.mapM_cons, hcs, hbodies]

/-- **Lists of events.** If each event can be written, a client reads them all back. -/
theorem eventsResponse_eq (h : ∀ e ∈ es, ∃ cs, e.toJson? = some cs) :
    (eventsResponse es).status = 200 ∧
      (eventsResponse es).contentType = some "application/json" ∧
      Event.listOfJson (encode (eventsResponse es).body) = .ok es := by
  obtain ⟨bodies, hbodies, hreads, hstarts⟩ := exists_bodies h
  rw [eventsResponse, hbodies]
  exact ⟨rfl, rfl, Reader.decode_of_reads (Reader.list_reads hreads hstarts)⟩

/-- A query names an owner if it has one value for it that is not empty. -/
theorem queryOwner_eq {query : List UInt8} (hq : Query.values "owner" query = [owner.toList])
    (ho : owner ≠ "") : queryOwner query = .ok owner := by
  unfold queryOwner
  split
  · simp_all
  · rename_i he
    rw [hq] at he
    exact absurd (String.toList_inj.1 (List.cons.inj he).1) ho
  · rename_i cs he
    rw [hq] at he
    rw [← (List.cons.inj he).1, String.ofList_toList]
  · simp_all

namespace Router

/-- A request for a view shows the events of the owner, if there is such a window. -/
theorem handle?_view (s : Store) (fresh : String) (hr : req.Is "GET" (Route.view v).path)
    (hq : Query.values "owner" (req.target.query.getD []) = [owner.toList]) (ho : owner ≠ "")
    (hw : v.window? now = some w) :
    handle? fresh now req (.reliable s) =
      some (eventsResponse (s.period owner w.start w.stop), .reliable s) := by
  have hshow : showEvents? v now (req.target.query.getD []) (.reliable s) =
      some (eventsResponse (s.period owner w.start w.stop)) := by
    rw [showEvents?, queryOwner_eq hq ho]
    show (Calendar.view? v owner now (.reliable s)).map _ = _
    rw [Calendar.view?_reliable s owner hw]
    rfl
  rw [handle?_eq_serve? (.view v) hr List.mem_cons_self (by decide), serve?, hshow]
  rfl

end Router

end Http

end Agenda
