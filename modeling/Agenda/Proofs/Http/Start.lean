import Agenda.Proofs.Event.Start
import Agenda.Proofs.Http.Router
import Agenda.Proofs.Intake

/-!
# Starts of events that are taken in

Whatever offset the start of an event is spelled with, the event is decoded with the same instant and
stored alike, by a message as by a request. Only the length of a body counts as it is spelled: a text
can be too large for a request where another text of the same event is not.

* `Router.TakenAlike`: the bytes have the same effect, as messages and as requests.
* `Router.TakenAlike.of_decoded`: bytes that hold the same event are taken in alike.
* `Router.start_normalised`: on what of the spelling of a start it depends what is decoded and stored.
* `Router.large_refused`: a spelling that makes a body too large.
-/
namespace Agenda

open Json Text.Utf8

variable {p p' : List UInt8} {b : Backend} {e : Event} {fresh : String}

/-- Messages that hold the same event, or none, have the same outcome. -/
theorem Intake.consume_congr (h : ∀ e, Event.ofJson p = .ok e ↔ Event.ofJson p' = .ok e)
    (fresh : String) (b : Backend) :
    (consume fresh (some p) b).toOption = (consume fresh (some p') b).toOption := by
  have hread : (Event.ofJson p).toOption = (Event.ofJson p').toOption := by
    refine Option.ext fun e => ?_
    rw [toOption_eq_some, toOption_eq_some]
    exact h e
  have hevent : event? (some p) = event? (some p') := by
    rw [event?, event?, Option.bind_some, Option.bind_some, hread]
  cases he : event? (some p) with
  | none =>
    obtain ⟨err, herr⟩ := consume_refused he
    obtain ⟨err', herr'⟩ := consume_refused (hevent.symm.trans he)
    rw [herr, herr']
    rfl
  | some e => rw [consume_event he, consume_event (hevent.symm.trans he)]

namespace Http

variable {req : Request} {now : Instant} {body : List UInt8}

theorem ne_nil_of_ofJson (h : Event.ofJson body = .ok e) : body ≠ [] := by
  rintro rfl
  cases h

/-- A handler gets nothing of a body but the event. -/
theorem createEvent_of_ofJson (h : Event.ofJson body = .ok e) (fresh : String) (b : Backend) :
    createEvent fresh body b =
      (Calendar.create fresh e b).map fun (e, b) => (eventResponse e, b) := by
  have hd : decodeBody Event.record.reader body = .ok e :=
    decodeBody_eq_ok.2 ⟨ne_nil_of_ofJson h, h⟩
  rw [createEvent, hd]
  show (Calendar.create fresh e b >>= _) = _
  cases Calendar.create fresh e b <;> rfl

/-- Without an event in the body nothing is stored. -/
theorem respond_undecodable (h : ∀ e, Event.ofJson body ≠ .ok e) (fresh : String) (b : Backend) :
    (respond b (createEvent fresh body b)).2 = b := by
  cases hc : createEvent fresh body b with
  | error err => rfl
  | ok x =>
    obtain ⟨e, -, he, -⟩ := createEvent_eq_ok.1 hc
    exact absurd he (h e)

namespace Router

theorem handle?_tooLarge (hr : req.Is "POST" "/create") (hl : maxBodyLength < req.body.length) :
    handle? fresh now req b = some (tooLarge, b) := by
  rw [handle?_eq_serve? .create hr (by decide) (by decide)]
  exact if_pos hl

/-- The bytes have the same effect, as messages and as bodies of requests to create an event that are
not too large. -/
structure TakenAlike (p p' : List UInt8) : Prop where
  decoded : ∀ e, Event.ofJson p = .ok e ↔ Event.ofJson p' = .ok e
  message : ∀ fresh b, (Intake.consume fresh (some p) b).toOption =
    (Intake.consume fresh (some p') b).toOption
  /-- The store after it is the same, and so is the response if there is an event in the body. -/
  request : ∀ fresh now b (req req' : Request), req.Is "POST" "/create" → req.body = p →
    req'.Is "POST" "/create" → req'.body = p' →
    p.length ≤ maxBodyLength → p'.length ≤ maxBodyLength →
    ∃ r r' b', handle? fresh now req b = some (r, b') ∧ handle? fresh now req' b = some (r', b') ∧
      ((∃ e, Event.ofJson p = .ok e) → r = r')

theorem TakenAlike.of_decoded (h : ∀ e, Event.ofJson p = .ok e ↔ Event.ofJson p' = .ok e) :
    TakenAlike p p' where
  decoded := h
  message := Intake.consume_congr h
  request := by
    rintro fresh now b req req' hr rfl hr' rfl hl hl'
    rw [handle?_create hr hl, handle?_create hr' hl']
    by_cases hd : ∃ e, Event.ofJson req.body = .ok e
    · obtain ⟨e, he⟩ := hd
      rw [createEvent_of_ofJson he, createEvent_of_ofJson ((h e).1 he)]
      exact ⟨_, _, _, rfl, rfl, fun _ => rfl⟩
    · have hnot : ∀ e, Event.ofJson req.body ≠ .ok e := not_exists.1 hd
      have hnot' : ∀ e, Event.ofJson req'.body ≠ .ok e := fun e he => hnot e ((h e).2 he)
      refine ⟨(respond b (createEvent fresh req.body b)).1,
        (respond b (createEvent fresh req'.body b)).1, b, ?_, ?_, fun h => absurd h hd⟩
      · exact congrArg some (Prod.ext rfl (respond_undecodable hnot fresh b))
      · exact congrArg some (Prod.ext rfl (respond_undecodable hnot' fresh b))

/-- **Starts.** A start is decoded as the instant that it is the local time of, whatever the offset. The
event is the same as with any other start that can be read, but for the start. Texts with the same start
in other offsets are taken in alike. -/
theorem start_normalised {t : Instant} {cs text : List Char} {rest : Event.Rest}
    (h : t.LocalText cs) (hs : Event.StartText cs rest text) :
    (∀ e, Event.ofJson (encode text) = .ok e → e.startDate = t) ∧
    (∀ cs' text' u, Event.StartText cs' rest text' → Instant.ofText cs' = .ok u →
      ∀ e, Event.ofJson (encode text) = .ok e ↔
        ∃ e', Event.ofJson (encode text') = .ok e' ∧ { e' with startDate := t } = e) ∧
    (∀ cs' text', t.LocalText cs' → Event.StartText cs' rest text' →
      TakenAlike (encode text) (encode text')) := by
  have hread (e : Event) := Event.ofJson_of_start hs (Instant.ofText_local h) (e := e)
  refine ⟨fun e he => ?_, fun cs' text' u hs' hu e => ?_, fun cs' text' h' hs' => ?_⟩
  · obtain ⟨e', -, rfl⟩ := (hread e).1 he
    rfl
  · simp only [hread e, Event.ofJson_of_start hs' hu]
    constructor
    · rintro ⟨e', he', rfl⟩
      exact ⟨_, ⟨e', he', rfl⟩, rfl⟩
    · rintro ⟨_, ⟨e', he', rfl⟩, rfl⟩
      exact ⟨e', he', rfl⟩
  · refine .of_decoded fun e => ?_
    rw [hread e, Event.ofJson_of_start hs' (Instant.ofText_local h')]

/-! ## Spellings -/

/-- The member that spells the start in this way. -/
def startPair (cs : List Char) (h : ∀ c ∈ cs, IsPlain c) : Pair :=
  .plain "startDate".toList cs (by decide) h

theorem startText_braces (cs : List Char) (hcs : ∀ c ∈ cs, IsPlain c) (before : Space)
    {others : List Pair}
    (hothers : ∀ p ∈ others, ValueText p.item.value p.item.text)
    (hnames : ∀ m ∈ others.map Pair.entry, m.name ≠ some "startDate".toList) :
    Event.StartText cs (.members (others.map Pair.entry))
      (before.chars ++ braces .empty (startPair cs hcs :: others)) := by
  have h := ObjectText.intro before .empty (startPair cs hcs :: others) .empty
    (List.forall_mem_cons.2 ⟨valueText_plain _ _, hothers⟩)
  have htext : braces .empty (startPair cs hcs :: others) ++ Space.empty.chars =
      braces .empty (startPair cs hcs :: others) := List.append_nil _
  rw [htext, List.map_cons, startPair, Pair.entry_plain] at h
  exact .object h (.refl _) hnames

/-- The leap second in the middle of 2015, after a quarter of it. -/
def leap : Instant := ⟨1435708799, 1250000000, by decide⟩

def leapAhead : List Char := "2015-07-01T02:59:60.25+03:00".toList

def leapBehind : List Char := "2015-06-30T12:29:60.250-11:30".toList

theorem leap_localText_ahead : leap.LocalText leapAhead := by
  let clock : Instant := ⟨1435719599, 1250000000, by decide⟩
  have htext : leapAhead = clock.reading.secondsText ++
      (('.' :: "25".toList) ++ ('+' :: Instant.hoursMinutes 180)) := by decide +kernel
  rw [htext]
  exact .intro clock 180 _ _ (by decide) (by decide) rfl
    (.digits "25".toList (by decide) (by decide) (by decide) (by decide +kernel)) (.ahead 180)

theorem leap_localText_behind : leap.LocalText leapBehind := by
  let clock : Instant := ⟨1435667399, 1250000000, by decide⟩
  have htext : leapBehind = clock.reading.secondsText ++
      (('.' :: "250".toList) ++ ('-' :: Instant.hoursMinutes 690)) := by decide +kernel
  rw [htext]
  exact .intro clock (-690) _ _ (by decide) (by decide) rfl
    (.digits "250".toList (by decide) (by decide) (by decide) (by decide +kernel)) (.behind 690)

theorem start_normalised_leap : ∃ rest text text',
    text = "\x7b\"startDate\":\"2015-07-01T02:59:60.25+03:00\"\x7d".toList ∧
    text' = "\x7b\"startDate\":\"2015-06-30T12:29:60.250-11:30\"\x7d".toList ∧
    leap.LocalText leapAhead ∧ Event.StartText leapAhead rest text ∧
    Event.ofJson (encode text) = .ok { Event.blank with startDate := leap } ∧
    TakenAlike (encode text) (encode text') := by
  have h := startText_braces leapAhead (by decide) .empty (List.forall_mem_nil _)
    (List.forall_mem_nil _)
  have h' := startText_braces leapBehind (by decide) .empty (List.forall_mem_nil _)
    (List.forall_mem_nil _)
  refine ⟨_, _, _, ?_, ?_, leap_localText_ahead, h, ?_,
    (start_normalised leap_localText_ahead h).2.2 _ _ leap_localText_behind h'⟩
  · decide
  · decide
  · exact (Event.ofJson_of_start h (Instant.ofText_local leap_localText_ahead)).2 ⟨_, rfl, rfl⟩

/-! ## Large bodies -/

/-- So many blanks. -/
def blanks (n : Nat) : Space :=
  ⟨List.replicate n ' ', fun _ hc => List.eq_of_mem_replicate hc ▸ List.mem_cons_self⟩

theorem length_encode_blanks (n : Nat) (cs : List Char) :
    (encode ((blanks n).chars ++ cs)).length = n + (encode cs).length := by
  have hblank : (String.utf8EncodeChar ' ').length = 1 := rfl
  have hblanks : (encode (blanks n).chars).length = n := by
    show ((List.replicate n ' ').flatMap String.utf8EncodeChar).length = n
    rw [List.length_flatMap, List.map_replicate, hblank, List.sum_replicate_nat, Nat.mul_one]
  rw [encode_append, List.length_append, hblanks]

/-- The last half hour of the year 9999. -/
def lastHalfHour : Instant := ⟨253402299000, 0, by decide⟩

/-- What an event needs besides its start. -/
def partyPairs : List Pair :=
  [.plain "id".toList "a".toList (by decide) (by decide),
    .plain "title".toList "T".toList (by decide) (by decide), Event.ownerPair,
    .bare (plains "duration".toList (by decide)) (.number (.ofNat 1)) ['1']]

/-- The event in `large`. -/
def party : Event :=
  { Event.blank with
    id := "a", title := "T", owner := "ada", duration := Duration.ofNanos 1, startDate := lastHalfHour }

/-- An event as large as a body may be if its start takes 25 characters. -/
def large (cs : List Char) (h : ∀ c ∈ cs, IsPlain c) : List Char :=
  (blanks 2097063).chars ++ braces .empty (startPair cs h :: partyPairs)

def startOfUtc : List Char := "9999-12-31T23:30:00+00:00".toList

def startAhead : List Char := "+10000-01-01T00:30:00+01:00".toList

theorem lastHalfHour_localText_utc : lastHalfHour.LocalText startOfUtc := by
  have htext : startOfUtc = lastHalfHour.reading.secondsText ++
      ([] ++ ('+' :: Instant.hoursMinutes 0)) := by decide +kernel
  rw [htext]
  exact .intro lastHalfHour 0 _ _ (by decide) (by decide) rfl .none (.ahead 0)

theorem lastHalfHour_localText_ahead : lastHalfHour.LocalText startAhead := by
  let clock : Instant := ⟨253402302600, 0, by decide⟩
  have htext : startAhead = clock.reading.secondsText ++
      ([] ++ ('+' :: Instant.hoursMinutes 60)) := by decide +kernel
  rw [htext]
  exact .intro clock 60 _ _ (by decide) (by decide) rfl .none (.ahead 60)

theorem valueText_partyPairs : ∀ p ∈ partyPairs, ValueText p.item.value p.item.text := by
  simp only [partyPairs, List.forall_mem_cons]
  exact ⟨valueText_plain _ _, valueText_plain _ _, Event.valueText_owner,
    .number (.ofNat 1), List.forall_mem_nil _⟩

theorem startText_large {cs : List Char} (h : ∀ c ∈ cs, IsPlain c) :
    Event.StartText cs (.members (partyPairs.map Pair.entry)) (large cs h) :=
  startText_braces cs h (blanks _) valueText_partyPairs (by decide)

/-- A request to create the event in `large`. -/
def largeRequest (cs : List Char) (h : ∀ c ∈ cs, IsPlain c) : Request :=
  { visitRequest with body := encode (large cs h) }

/-- With an hour of offset the start is in the year 10000, which makes the body too large. -/
theorem large_refused :
    (lastHalfHour.LocalText startOfUtc ∧ lastHalfHour.LocalText startAhead ∧
      ∃ rest, Event.StartText startOfUtc rest (large startOfUtc (by decide)) ∧
        Event.StartText startAhead rest (large startAhead (by decide))) ∧
    handle? "" lastHalfHour (largeRequest startOfUtc (by decide)) (.reliable .empty) =
      some (eventResponse party, .reliable ⟨[party], by decide⟩) ∧
    handle? "" lastHalfHour (largeRequest startAhead (by decide)) (.reliable .empty) =
      some (tooLarge, .reliable .empty) := by
  have hr {cs : List Char} {h} : (largeRequest cs h).Is "POST" "/create" := ⟨rfl, rfl⟩
  refine ⟨⟨lastHalfHour_localText_utc, lastHalfHour_localText_ahead, _, startText_large _,
    startText_large _⟩, ?_, ?_⟩
  · have hl : (largeRequest startOfUtc (by decide)).body.length = maxBodyLength := by
      refine (length_encode_blanks _ _).trans ?_
      decide +kernel
    have hj : Event.ofJson (largeRequest startOfUtc (by decide)).body = .ok party :=
      (Event.ofJson_of_start (startText_large _)
        (Instant.ofText_local lastHalfHour_localText_utc)).2 ⟨_, rfl, rfl⟩
    have hc := createEvent_eq_ok.2 ⟨party, ne_nil_of_ofJson hj, hj, by decide,
      (rfl : (Backend.reliable .empty).create (party.accepted "") =
        .ok (.reliable ⟨[party], by decide⟩)), rfl⟩
    rw [handle?_create hr (Nat.le_of_eq hl), hc]
    rfl
  · have hl : (largeRequest startAhead (by decide)).body.length = maxBodyLength + 2 := by
      refine (length_encode_blanks _ _).trans ?_
      decide +kernel
    exact handle?_tooLarge hr (by omega)

end Router

end Http

end Agenda
