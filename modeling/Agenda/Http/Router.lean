import Agenda.Calendar
import Agenda.Event.Json
import Agenda.Http.Response
import Agenda.Http.Target

/-!
# The HTTP interface

Events are created, updated and deleted by requests with JSON in their bodies; the events of an owner
are shown by the day, the week or the month. A request that fails changes nothing.

* `Route.ofPath?`: what a path stands for.
* `Router.handle?`: the response to a request, and the store after it.
-/
namespace Agenda.Http

open Json

structure Request where
  method : String
  target : Target
  body : List UInt8
  deriving DecidableEq, Repr

/-- The method is written with characters that a method may have. -/
def isMethod (m : String) : Bool :=
  !m.isEmpty && m.toList.all fun c =>
    c.isAlphanum || "!#$%&'*+-.^_\x60|~".toList.contains c

/-! ## Routes -/

inductive Route where
  | index
  | health
  | create
  | update
  | delete
  | view (v : View)
  deriving DecidableEq, Repr

namespace Route

/-- The paths and what they stand for (`routes`, `app`). -/
def table : List (String × Route) :=
  [("/", index), ("/health", health), ("/create", create), ("/update", update),
    ("/delete", delete), ("/getDay", view .day), ("/getWeek", view .week),
    ("/getMonth", view .month)]

/-- What a path stands for; it is compared byte by byte. -/
def ofPath? (path : List UInt8) : Option Route :=
  (table.find? fun entry => Text.Utf8.encode entry.1.toList = path).map (·.2)

/-- The methods that a route allows. -/
def methods : Route → List String
  | create => ["POST"]
  | update => ["PUT"]
  | delete => ["DELETE"]
  | index | health | view _ => ["GET", "HEAD"]

end Route

/-! ## Bodies -/

/-- The largest body. -/
def maxBodyLength : Nat := 2097152

/-- The value in a body (`decode_body`). -/
def decodeBody (p : Reader α) (body : List UInt8) : Except ServiceError α :=
  if body.isEmpty then .error (.invalid (.missing "body"))
  else (p.decode body).mapError fun e => .invalid ⟨"body", e.message⟩

/-- The body of a deletion: the id of the event (`DeleteRequest`). -/
def deletion : Record String where
  title := "struct DeleteRequest"
  blank := ""
  fields := [⟨"id", Event.readText.map fun id _ => id⟩]

/-- The response to a body that is too large. -/
def tooLarge : Response :=
  .text 413 "Failed to buffer the request body: length limit exceeded"

/-! ## Handlers -/

/-- The response with an event. -/
def eventResponse (e : Event) : Response :=
  match e.toJson? with
  | some body => .json body
  | none => .text 500 Event.tooLongToWrite

/-- The response with a list of events. -/
def eventsResponse (es : List Event) : Response :=
  match es.mapM Event.toJson? with
  | some bodies => .json (writeList bodies)
  | none => .text 500 Event.tooLongToWrite

/-- Responds to a change of the store: with the failure if it fails, and then nothing changes. -/
def respond (b : Backend) (r : Except ServiceError (Response × Backend)) : Response × Backend :=
  match r with
  | .ok r => r
  | .error e => (.ofError e, b)

/-- Creates the event in the body (`create_event`). -/
def createEvent (fresh : String) (body : List UInt8) (b : Backend) :
    Except ServiceError (Response × Backend) := do
  let (e, b) ← Calendar.create fresh (← decodeBody Event.record.reader body) b
  pure (eventResponse e, b)

/-- Updates the event in the body (`update_event`). -/
def updateEvent (body : List UInt8) (b : Backend) : Except ServiceError (Response × Backend) := do
  let (e, b) ← Calendar.update (← decodeBody Event.record.reader body) b
  pure (eventResponse e, b)

/-- Deletes the event that the body names (`delete_event`). -/
def deleteEvent (body : List UInt8) (b : Backend) : Except ServiceError (Response × Backend) := do
  let id ← decodeBody deletion.reader body
  if id.isEmpty then throw .missingId
  let b ← Calendar.delete id b
  pure (.json (writeObject [writeMember "id" (writeString id)]), b)

/-- The owner that a query names (`OwnerQuery.owner`), or the response to a query that names none or
several. -/
def queryOwner (query : List UInt8) : Except Response String :=
  match Query.values "owner" query with
  | [] | [[]] => .error (.ofError (.invalid (.missing "owner")))
  | [owner] => .ok (String.ofList owner)
  | _ => .error (.text 400 "Failed to deserialize query string: duplicate field \x60owner\x60")

/-- Shows the events of an owner, unless there is no such window (`get_events_day`, `get_events_week`,
`get_events_month`). -/
def showEvents? (v : View) (now : Instant) (query : List UInt8) (b : Backend) : Option Response :=
  match queryOwner query with
  | .error r => some r
  | .ok owner =>
    (Calendar.view? v owner now b).map fun
      | .ok es => eventsResponse es
      | .error e => .ofError e

/-! ## The router -/

namespace Router

/-- What identifies the service. -/
def banner : String := "Calendar API v0.1.0"

/-- The response of a route to a request with an allowed method, and the store after it. -/
def serve? (fresh : String) (now : Instant) (route : Route) (req : Request) (b : Backend) :
    Option (Response × Backend) :=
  let withBody (run : Except ServiceError (Response × Backend)) : Option (Response × Backend) :=
    if maxBodyLength < req.body.length then some (tooLarge, b) else some (respond b run)
  match route with
  | .index => some (.text 200 banner, b)
  | .health => some (.text 200 "OK", b)
  | .create => withBody (createEvent fresh req.body b)
  | .update => withBody (updateEvent req.body b)
  | .delete => withBody (deleteEvent req.body b)
  | .view v => (showEvents? v now (req.target.query.getD []) b).map (·, b)

/-- The response to a request (`app`), and the store after it; nothing if the window of a view is not
supported. The fresh id is for an event that comes without one. -/
def handle? (fresh : String) (now : Instant) (req : Request) (b : Backend) :
    Option (Response × Backend) :=
  match Route.ofPath? req.target.path with
  | none => some (.empty 404 none, b)
  | some route =>
    if req.method ∈ route.methods then
      (serve? fresh now route req b).map fun (r, b) =>
        (if req.method = "HEAD" then { r with body := [] } else r, b)
    else some (.empty 405 (some (String.intercalate "," route.methods)), b)

end Router

end Agenda.Http
