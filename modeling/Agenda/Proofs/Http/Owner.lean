import Agenda.Proofs.Http.Query
import Agenda.Proofs.Http.Views

/-!
# Owners ask for their events

Whatever the name of an owner is made of, a request for a view that encodes it as a form does is
answered with what the calendar shows to that owner. Events of other owners make no difference, not
even those that cannot be written.

* `Store.SameFor`: two stores have the same events of an owner.
* `Router.owner_served`: what a request of an owner is answered with.
-/
namespace Agenda

open Json Text.Utf8

variable {s s' : Store} {owner : String} {v : View} {now : Instant} {w : Window}

/-! ## The events of an owner -/

namespace Store

/-- The events of an owner, in the order of the store. -/
def ofOwner (s : Store) (owner : String) : List Event := s.events.filter fun e => e.owner = owner

/-- The stores have the same events of an owner. -/
def SameFor (owner : String) (s s' : Store) : Prop :=
  ∀ e : Event, e.owner = owner → (e ∈ s.events ↔ e ∈ s'.events)

theorem period_eq_ofOwner (s : Store) (owner : String) (start stop : Instant) :
    s.period owner start stop =
      (s.ofOwner owner).filter fun e => start ≤ e.startDate ∧ e.startDate < stop := by
  rw [period, ofOwner, List.filter_filter]
  refine List.filter_congr fun e _ => ?_
  rw [Bool.decide_and, Bool.and_comm]

/-- What an owner has in a span of time does not depend on the events of others. -/
theorem SameFor.period_perm (h : SameFor owner s s') (start stop : Instant) :
    (s.period owner start stop).Perm (s'.period owner start stop) := by
  have hnodup (t : Store) : (t.period owner start stop).Nodup :=
    (t.distinct.of_map _).sublist (t.sublist_period owner start stop)
  rw [List.perm_ext_iff_of_nodup (hnodup s) (hnodup s')]
  intro e
  rw [mem_period, mem_period]
  exact and_congr_left fun he => h e he.1

end Store

namespace Http

/-- The response is a list of these events as JSON. -/
structure Response.Lists (r : Response) (es : List Event) : Prop where
  status : r.status = 200
  contentType : r.contentType = some "application/json"
  body : Event.listOfJson (encode r.body) = .ok es

namespace Router

/-- The name of the parameter stands for itself. -/
theorem unreserved_owner : ∀ c ∈ "owner".toList, c ∈ Query.unreserved := by decide

theorem lists_period (hs : ∀ e ∈ s.events, e.owner = owner → ∃ cs, e.toJson? = some cs)
    (start stop : Instant) :
    (eventsResponse (s.period owner start stop)).Lists (s.period owner start stop) := by
  have hwritable : ∀ e ∈ s.period owner start stop, ∃ cs, e.toJson? = some cs := by
    intro e he
    obtain ⟨he, ho, -⟩ := Store.mem_period.1 he
    exact hs e he ho
  obtain ⟨hstatus, htype, hbody⟩ := eventsResponse_eq hwritable
  exact ⟨hstatus, htype, hbody⟩

/-- The target of a request for a view. -/
def viewTarget (v : View) (query : List UInt8) : List UInt8 :=
  encode (Route.view v).path.toList ++ 0x3F :: query

theorem ofBytes?_viewTarget {query : List UInt8} (v : View)
    (hquery : ∀ b ∈ query, Target.isQueryByte b) (hl : (viewTarget v query).length ≤ Target.maxLength) :
    Target.ofBytes? (viewTarget v query) =
      some ⟨encode (Route.view v).path.toList, some query⟩ := by
  have hpath : (encode (Route.view v).path.toList).head? = some 0x2F ∧
      ∀ b ∈ encode (Route.view v).path.toList, Target.isPathByte b := by
    cases v <;> decide
  exact Target.ofBytes?_query hpath.1 hpath.2 hquery hl

/-- **Owners.** A request for a view whose query holds the name of an owner, in any of the encodings of
a form and among whatever other parameters, is answered with the events that the calendar shows to that
owner. A store with the same events of the owner gives the same events, and the same response if it has
them in the same order. -/
theorem owner_served {query : List UInt8}
    (hs : ∀ e ∈ s.events, e.owner = owner → ∃ cs, e.toJson? = some cs) (ho : owner ≠ "")
    (hq : Query.Holds "owner" owner.toList query) (hw : v.window? now = some w) :
    ((∀ b ∈ query, Target.isQueryByte b) → (viewTarget v query).length ≤ Target.maxLength →
      ∃ t, Target.ofBytes? (viewTarget v query) = some t ∧
        t.path = encode (Route.view v).path.toList ∧ t.query = some query) ∧
    ∀ (fresh : String) (req : Request),
      req.Is "GET" (Route.view v).path → req.target.query = some query →
      ∃ r es, handle? fresh now req (.reliable s) = some (r, .reliable s) ∧
        Calendar.view? v owner now (.reliable s) = some (.ok es) ∧ r.Lists es ∧
        ∀ s', Store.SameFor owner s s' →
          ∃ r' es', handle? fresh now req (.reliable s') = some (r', .reliable s') ∧
            r'.Lists es' ∧ es'.Perm es ∧ (s'.ofOwner owner = s.ofOwner owner → r' = r) := by
  refine ⟨fun hbytes hl => ⟨_, ofBytes?_viewTarget v hbytes hl, rfl, rfl⟩, fun fresh req hr hquery => ?_⟩
  have hvalues : Query.values "owner" (req.target.query.getD []) = [owner.toList] := by
    rw [hquery]
    exact hq.values_eq unreserved_owner
  refine ⟨_, _, handle?_view s fresh hr hvalues ho hw, Calendar.view?_reliable s owner hw,
    lists_period hs w.start w.stop, fun s' hsame => ?_⟩
  have hs' : ∀ e ∈ s'.events, e.owner = owner → ∃ cs, e.toJson? = some cs := fun e he heo =>
    hs e ((hsame e heo).2 he) heo
  refine ⟨_, _, handle?_view s' fresh hr hvalues ho hw, lists_period hs' w.start w.stop,
    (hsame.period_perm w.start w.stop).symm, fun heq => ?_⟩
  rw [Store.period_eq_ofOwner, Store.period_eq_ofOwner, heq]

/-- A name of characters that have a meaning in a query, and of one that is not ASCII. -/
def oddName : String := "a&=+% é"

def oddForm : List Char := "a%26%3d%2B%25+%c3%A9".toList

theorem form_odd : Query.Form (encode oddName.toList) oddForm := by
  have hname : encode oddName.toList = [0x61, 0x26, 0x3D, 0x2B, 0x25, 0x20, 0xC3, 0xA9] := by decide
  rw [hname]
  exact .cons (.plain 'a' (by decide)) <| .cons (.percent '2' '6' (by decide) (by decide)) <|
    .cons (.percent '3' 'd' (by decide) (by decide)) <|
    .cons (.percent '2' 'B' (by decide) (by decide)) <|
    .cons (.percent '2' '5' (by decide) (by decide)) <| .cons .blank <|
    .cons (.percent 'c' '3' (by decide) (by decide)) <|
    .cons (.percent 'A' '9' (by decide) (by decide)) .nil

/-- The query `lang=en&owner=a%26%3d%2B%25+%c3%A9&Owner=ada`. -/
def oddQuery : List UInt8 :=
  List.intercalate [0x26] ([Query.parameter "lang" "en".toList] ++
    Query.parameter "owner" oddForm :: [Query.parameter "Owner" "ada".toList])

example : oddQuery = encode "lang=en&owner=a%26%3d%2B%25+%c3%A9&Owner=ada".toList := by decide

theorem holds_odd : Query.Holds "owner" oddName.toList oddQuery := by
  refine .intro form_odd (List.forall_mem_singleton.2 ?_) (List.forall_mem_singleton.2 ?_)
  · exact Query.isOther_parameter (by decide) (by decide) (Query.form_plain (by decide))
  · exact Query.isOther_parameter (by decide) (by decide) (Query.form_plain (by decide))

/-- A visit of that owner, and one of another owner that is too long to be written. -/
def oddVisit : Event := { visit with id := "a1", owner := oddName }

def endlessVisit : Event :=
  { visit with id := "b2", duration := ⟨maxDurationNanos, by decide⟩ }

def oddStore : Store := ⟨[oddVisit, endlessVisit], by decide⟩

theorem owner_served_odd : ∃ t w r, Target.ofBytes? (viewTarget .day oddQuery) = some t ∧
    View.day.window? visit.startDate = some w ∧
    handle? "" visit.startDate ⟨"GET", t, []⟩ (.reliable oddStore) = some (r, .reliable oddStore) ∧
    r.Lists [oddVisit] ∧ endlessVisit.toJson? = none := by
  have hs : ∀ e ∈ oddStore.events, e.owner = oddName → ∃ cs, e.toJson? = some cs := by
    intro e he ho
    rcases List.mem_cons.1 he with rfl | he
    · exact Event.writable_iff.2 ⟨by decide, by decide⟩
    · rw [List.mem_singleton.1 he] at ho
      exact absurd ho (by decide)
  obtain ⟨w, hw⟩ : ∃ w, View.day.window? visit.startDate = some w :=
    ⟨_, Option.some_get (by decide +kernel) |>.symm⟩
  obtain ⟨htarget, hserved⟩ := owner_served hs (by decide) holds_odd hw
  obtain ⟨t, ht, hpath, hquery⟩ := htarget (by decide +kernel) (by decide +kernel)
  obtain ⟨r, es, hh, hview, hlists, -⟩ := hserved "" ⟨"GET", t, []⟩ ⟨rfl, hpath⟩ hquery
  have hshown : Calendar.view? .day oddName visit.startDate (.reliable oddStore) =
      some (.ok [oddVisit]) := by rfl
  rw [hshown] at hview
  cases hview
  exact ⟨t, w, r, ht, hw, hh, hlists, by decide +kernel⟩

end Router

end Http

end Agenda
