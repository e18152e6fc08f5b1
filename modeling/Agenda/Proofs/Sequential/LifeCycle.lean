import Agenda.Proofs.Sequential.Lives

/-!
# The life cycle of a reminder

After an event is accepted its reminder is pending. The first dispatch that finds it due and delivers
it sends it, once; accepting the event anew starts over, and removing it ends all that. A history of
any length decides in which phase an event is.

* `Phase`: pending, sent or gone. `Phase.step`: what one entry does; `phase`: the phase after any
  number of entries.
* `life_cycle`: which ids are stored, as what, whether as sent, and what was published in between.
-/
namespace Agenda.Sequential

open Reminders

variable {e : Event} {x : Entry} {h pre post seg : List Entry} {id : String} {l : Life}
  {o : Option Life} {now : Instant} {accepts : Event → Bool} {m : Message} {ms : List Message}

/-! ## What dispatches do -/

/-- The entry is a dispatch that delivers the event if it is stored. -/
def Entry.Sends (e : Event) : Entry → Prop
  | dispatched now accepts _ => e.IsDue now ∧ Delivers accepts e
  | _ => False

def Entry.messages : Entry → List Message
  | dispatched _ _ ms => ms
  | _ => []

/-- What was handed to the broker under this id. -/
def messages (id : String) (h : List Entry) : List Message :=
  (h.flatMap Entry.messages).filter fun m => m.id = id

/-- What of it was taken. -/
def taken (id : String) (h : List Entry) : List Message := (messages id h).filter fun m => m.taken

theorem mem_messages : m ∈ messages id h ↔ m.id = id ∧ ∃ x ∈ h, m ∈ x.messages := by
  simp only [messages, List.mem_filter, List.mem_flatMap, decide_eq_true_eq, and_comm]

theorem taken_ne_nil : taken id h ≠ [] ↔ ∃ m ∈ messages id h, m.taken = true := by
  simp [taken, List.filter_eq_nil_iff]

theorem exists_sends : (∃ x ∈ h, x.Sends e) ↔
    ∃ now accepts ms, .dispatched now accepts ms ∈ h ∧ e.IsDue now ∧ Delivers accepts e := by
  constructor
  · rintro ⟨x, hx, hs⟩
    cases x with
    | accepted | deleted | purged => exact hs.elim
    | dispatched now accepts ms => exact ⟨now, accepts, ms, hx, hs⟩
  · rintro ⟨now, accepts, ms, hx, hs⟩
    exact ⟨_, hx, hs⟩

theorem taken_concat (id : String) (h : List Entry) (x : Entry) :
    taken id (h ++ [x]) = taken id h ++ taken id [x] := by
  simp [taken, messages]

/-- What a dispatch hands over of an event that is stored. -/
def Life.message? (now : Instant) (accepts : Event → Bool) (l : Life) : Option Message :=
  if l.kept.IsDue now then publish accepts l.kept else none

/-- A dispatch hands over at most one message under an id: that of the event, if it is due. -/
theorem Accurate.messages_eq (ha : Accurate pre now accepts ms) (id : String) :
    messages id [.dispatched now accepts ms] =
      ((life id pre).bind (Life.message? now accepts)).toList := by
  have hmem : ∀ m, m ∈ messages id [.dispatched now accepts ms] ↔
      m ∈ ((life id pre).bind (Life.message? now accepts)).toList := by
    intro m
    simp only [mem_messages, List.mem_singleton, exists_eq_left, Entry.messages, ha.mem_iff,
      Option.mem_toList, Option.bind_eq_some_iff, Life.message?, Option.ite_none_right_eq_some]
    constructor
    · rintro ⟨rfl, l, hl, hd, hp⟩
      exact ⟨l, hl, hd, hp⟩
    · rintro ⟨l, hl, hd, hp⟩
      have hi : m.id = id := (publish_id hp).trans (life_id hl)
      exact ⟨hi, l, by rw [hi, hl], hd, hp⟩
  have hn : (messages id [.dispatched now accepts ms]).Nodup := by
    refine List.Nodup.filter _ ?_
    simpa [Entry.messages] using ha.once.of_map
  have hp := (List.perm_ext_iff_of_nodup hn (by cases Option.bind .. <;> simp)).2 hmem
  cases ho : (life id pre).bind (Life.message? now accepts) with
  | none => rw [ho] at hp; exact List.perm_nil.1 hp
  | some m => rw [ho] at hp; exact List.perm_singleton.1 hp

/-! ## Phases -/

/-- What has become of `e` in the entries since it was accepted. -/
inductive Phase (e : Event) (seg : List Entry) : Option Life → Prop where
  | pending (ht : taken e.id seg = []) (hr : ∀ x ∈ seg, ¬ x.Removes e.id)
      (hs : ∀ x ∈ seg, ¬ x.Sends e.rearmed) : Phase e seg (some ⟨e, false⟩)
  | sent (m : Message) (ht : taken e.id seg = [m]) (hr : ∀ x ∈ seg, ¬ x.Removes e.id)
      (hs : ∃ x ∈ seg, x.Sends e.rearmed) : Phase e seg (some ⟨e, true⟩)
  | gone (ht : (taken e.id seg).length ≤ 1) (hr : ∃ x ∈ seg, x.Removes e.id) : Phase e seg none

theorem Phase.taken_le (hp : Phase e seg o) : (taken e.id seg).length ≤ 1 := by
  cases hp with
  | pending ht => rw [ht]; exact Nat.zero_le 1
  | sent m ht => rw [ht]; exact Nat.le_refl 1
  | gone ht => exact ht

/-- An event that is stored is the one accepted, and it is sent iff its message was taken, which a
dispatch has done. -/
theorem Phase.of_some (hp : Phase e seg (some l)) :
    l.event = e ∧ (l.sent = true ↔ taken e.id seg ≠ []) ∧
    (l.sent = true ↔ ∃ x ∈ seg, x.Sends e.rearmed) := by
  cases hp with
  | pending ht hr hs =>
    refine ⟨rfl, ⟨fun h => ?_, fun h => absurd ht h⟩, ⟨fun h => ?_, ?_⟩⟩
    · cases h
    · cases h
    · rintro ⟨x, hx, hsx⟩
      exact absurd hsx (hs x hx)
  | sent m ht hr hs =>
    have hne : taken e.id seg ≠ [] := by rw [ht]; exact List.cons_ne_nil _ _
    exact ⟨rfl, iff_of_true rfl hne, iff_of_true rfl hs⟩

/-- An entry that neither removes nor sends the event leaves it in its phase. -/
theorem Phase.quiet (hp : Phase e seg o) (ht : taken e.id [x] = []) (hr : ¬ x.Removes e.id)
    (hs : o = some ⟨e, false⟩ → ¬ x.Sends e.rearmed) : Phase e (seg ++ [x]) o := by
  have ht' : taken e.id (seg ++ [x]) = taken e.id seg := by rw [taken_concat, ht, List.append_nil]
  cases hp with
  | pending hn hr' hs' =>
    exact .pending (ht'.trans hn) (List.forall_mem_append.2 ⟨hr', List.forall_mem_singleton.2 hr⟩)
      (List.forall_mem_append.2 ⟨hs', List.forall_mem_singleton.2 (hs rfl)⟩)
  | sent m hm hr' hs' =>
    obtain ⟨y, hy, hsy⟩ := hs'
    exact .sent m (ht'.trans hm) (List.forall_mem_append.2 ⟨hr', List.forall_mem_singleton.2 hr⟩)
      ⟨y, List.mem_append_left _ hy, hsy⟩
  | gone hle hr' =>
    obtain ⟨y, hy, hry⟩ := hr'
    exact .gone (by rw [ht']; exact hle) ⟨y, List.mem_append_left _ hy, hry⟩

theorem Phase.remove (hp : Phase e seg o) (ht : taken e.id [x] = []) (hr : x.Removes e.id) :
    Phase e (seg ++ [x]) none :=
  .gone (by rw [taken_concat, ht, List.append_nil]; exact hp.taken_le)
    ⟨x, List.mem_append_right _ (List.mem_singleton.2 rfl), hr⟩

/-- A dispatch sends the event if it is pending, due and delivered. -/
theorem Phase.dispatch (hp : Phase e seg o)
    (hm : messages e.id [.dispatched now accepts ms] =
      (o.bind (Life.message? now accepts)).toList) :
    Phase e (seg ++ [.dispatched now accepts ms])
      ((Entry.dispatched now accepts ms).after e.id o) := by
  cases hp with
  | gone ht hr =>
    have hq : taken e.id [.dispatched now accepts ms] = [] := by rw [taken, hm]; rfl
    exact (Phase.gone ht hr).quiet hq id (by simp)
  | sent m ht hr hs =>
    have hd : ¬ (Life.kept ⟨e, true⟩).IsDue now := fun h => Bool.noConfusion h.1
    have hq : taken e.id [.dispatched now accepts ms] = [] := by
      rw [taken, hm, Option.bind_some, Life.message?, if_neg hd]; rfl
    simp only [Entry.after, Option.map_some, hd, false_and, if_false]
    exact (Phase.sent m ht hr hs).quiet hq id (by simp)
  | pending ht hr hs =>
    -- A pending event is stored as `e.rearmed`.
    rw [Option.bind_some, Life.message?] at hm
    simp only [Entry.after, Option.map_some]
    by_cases hx : (Life.kept ⟨e, false⟩).IsDue now ∧ Delivers accepts (Life.kept ⟨e, false⟩)
    · obtain ⟨m, hpub, htaken⟩ := delivers_iff.1 hx.2
      have hq : taken e.id [.dispatched now accepts ms] = [m] := by
        rw [taken, hm, if_pos hx.1, hpub]
        simp [htaken]
      rw [if_pos hx]
      refine .sent m (by rw [taken_concat, ht, hq]; rfl) ?_
        ⟨_, List.mem_append_right _ (List.mem_singleton.2 rfl), hx⟩
      exact List.forall_mem_append.2 ⟨hr, List.forall_mem_singleton.2 id⟩
    · have hq : taken e.id [.dispatched now accepts ms] = [] := by
        rw [taken, hm, List.filter_eq_nil_iff]
        intro m hmem htaken
        obtain ⟨hd, hpub⟩ := Option.ite_none_right_eq_some.1 (Option.mem_toList.1 hmem)
        exact hx ⟨hd, delivers_iff.2 ⟨m, hpub, htaken⟩⟩
      rw [if_neg hx]
      exact (Phase.pending ht hr hs).quiet hq id fun _ => hx

/-- **One entry.** The phase changes as the life of the event does. -/
theorem Phase.step (hp : Phase e seg o) (hx : ¬ x.Accepts e.id)
    (hm : ∀ now accepts ms, x = .dispatched now accepts ms →
      messages e.id [x] = (o.bind (Life.message? now accepts)).toList) :
    Phase e (seg ++ [x]) (x.after e.id o) := by
  cases x with
  | accepted e' =>
    have hi : e'.id ≠ e.id := hx
    rw [Entry.after, if_neg hi]
    exact hp.quiet rfl id fun _ => id
  | deleted i =>
    simp only [Entry.after]
    split
    · rename_i hi; exact hp.remove rfl hi
    · rename_i hi; exact hp.quiet rfl hi fun _ => id
  | purged now ids =>
    simp only [Entry.after]
    split
    · rename_i hi; exact hp.remove rfl hi
    · rename_i hi; exact hp.quiet rfl hi fun _ => id
  | dispatched now accepts ms => exact hp.dispatch (hm now accepts ms rfl)

/-- **Phases.** After an event is accepted, its life is in one of the phases until the next time. -/
theorem phase (hl : Logged (pre ++ .accepted e :: seg)) (hn : ∀ x ∈ seg, ¬ x.Accepts e.id) :
    Phase e seg (life e.id (pre ++ .accepted e :: seg)) := by
  induction seg using List.reverseRecOn with
  | nil =>
    rw [life_concat, Entry.after, if_pos rfl]
    exact .pending rfl (List.forall_mem_nil _) (List.forall_mem_nil _)
  | append_singleton seg x ih =>
    have heq : pre ++ .accepted e :: (seg ++ [x]) = (pre ++ .accepted e :: seg) ++ [x] := by simp
    rw [heq] at hl ⊢
    rw [List.forall_mem_append] at hn
    have hp := ih (hl.of_prefix (List.prefix_append _ _)) hn.1
    rw [life_concat]
    refine hp.step (hn.2 x (List.mem_singleton.2 rfl)) ?_
    rintro now accepts ms rfl
    exact (hl _ now accepts ms (List.prefix_refl _)).messages_eq e.id

/-- Every message about the event since it was accepted holds it with its reminder pending. -/
theorem payload_eq (hl : Logged (pre ++ .accepted e :: seg)) (hn : ∀ x ∈ seg, ¬ x.Accepts e.id)
    (hm : m ∈ messages e.id seg) : e.rearmed.toJson? = some m.payload := by
  obtain ⟨hi, x, hx, hmx⟩ := mem_messages.1 hm
  obtain ⟨seg₁, seg₂, rfl⟩ := List.append_of_mem hx
  cases x with
  | accepted | deleted | purged => cases hmx
  | dispatched now accepts ms =>
    have hpre : (pre ++ .accepted e :: seg₁) ++ [.dispatched now accepts ms] <+:
        pre ++ .accepted e :: (seg₁ ++ .dispatched now accepts ms :: seg₂) := ⟨seg₂, by simp⟩
    obtain ⟨l, hlife, hd, hp⟩ := ((hl _ now accepts ms hpre).mem_iff m).1 hmx
    have hph := phase (hl.of_prefix ((List.prefix_append _ _).trans hpre))
      fun y hy => hn y (List.mem_append_left _ hy)
    rw [← hi, hlife] at hph
    cases hph with
    | pending =>
      obtain ⟨payload, hj, rfl⟩ := publish_eq_some.1 hp
      exact hj
    | sent => exact Bool.noConfusion hd.1

/-! ## The life cycle -/

/-- **Life cycle.** An id is stored iff an event with it was accepted and not removed since. What is
stored is the event as last accepted, cut to microseconds, and it is sent iff a dispatch since then
has delivered it when it was due. Until it is accepted anew it is published at most once, pending. -/
theorem life_cycle (cs : List Command) (id : String) :
    ((run cs).backend.store.Holds id ↔ ∃ pre e post,
      (run cs).history = pre ++ .accepted e :: post ∧ e.id = id ∧ ∀ x ∈ post, ¬ x.Removes id) ∧
    (∀ pre e post f, (run cs).history = pre ++ .accepted e :: post → e.id = id →
      (∀ x ∈ post, ¬ x.Accepts id) → (run cs).backend.store.find? id = some f →
      f = { e.truncated with isSent := f.isSent } ∧
      (f.isSent = true ↔ ∃ m ∈ messages id post, m.taken = true) ∧
      (f.isSent = true ↔ ∃ now accepts ms, .dispatched now accepts ms ∈ post ∧
        (∃ t ∈ f.remindTime?, t ≤ now) ∧ Delivers accepts { f with isSent := false })) ∧
    (∀ pre e seg post, (run cs).history = pre ++ .accepted e :: (seg ++ post) → e.id = id →
      (∀ x ∈ seg, ¬ x.Accepts id) →
      (taken id seg).length ≤ 1 ∧
      ∀ m ∈ messages id seg, { e.truncated with isSent := false }.toJson? = some m.payload) := by
  have hex := run_explained cs
  refine ⟨⟨fun hh => ?_, ?_⟩, ?_, ?_⟩
  · obtain ⟨f, hf⟩ := Store.holds_iff.1 hh
    rw [hex.view] at hf
    obtain ⟨l, hl, -⟩ := Option.map_eq_some_iff.1 hf
    obtain ⟨pre, post, hhist, hi, hr⟩ := exists_accepted hl
    exact ⟨pre, l.event, post, hhist, hi, hr⟩
  · rintro ⟨pre, e, post, hhist, rfl, hr⟩
    obtain ⟨l, hl⟩ : ∃ l, life e.id (pre ++ .accepted e :: post) = some l :=
      Option.isSome_iff_exists.1 (life_isSome hr)
    rw [Store.holds_iff, hex.view, hhist, hl]
    exact ⟨l.kept, rfl⟩
  · rintro pre e post f hhist rfl hn hf
    have hph := phase (hhist ▸ hex.messages) hn
    rw [hex.view, hhist] at hf
    obtain ⟨l, hl, rfl⟩ := Option.map_eq_some_iff.1 hf
    rw [hl] at hph
    obtain ⟨rfl, ht, hs⟩ := hph.of_some
    refine ⟨rfl, ht.trans taken_ne_nil, hs.trans (exists_sends.trans ?_)⟩
    constructor
    · rintro ⟨now, accepts, ms, hx, hd, hdel⟩
      exact ⟨now, accepts, ms, hx, hd.2, hdel⟩
    · rintro ⟨now, accepts, ms, hx, hd, hdel⟩
      exact ⟨now, accepts, ms, hx, ⟨rfl, hd⟩, hdel⟩
  · rintro pre e seg post hhist rfl hn
    have hp : pre ++ .accepted e :: seg <+: (run cs).history := ⟨post, by simp [hhist]⟩
    have hl := hex.messages.of_prefix hp
    exact ⟨(phase hl hn).taken_le, fun m hm => payload_eq hl hn hm⟩

/-- The visit is created and its message is taken. -/
def visitSession : List Command :=
  [.call (.create "" visit), .dispatch visit.startDate fun _ => true]

theorem visit_history : (run visitSession).history =
    [.accepted visit, .dispatched visit.startDate (fun _ => true) [visitMessage]] := by
  rfl

theorem life_cycle_visit : (run visitSession).backend.store.Holds visit.id ∧
    (∀ f, (run visitSession).backend.store.find? visit.id = some f → f.isSent = true) ∧
    (taken visit.id [.dispatched visit.startDate (fun _ => true) [visitMessage]]).length ≤ 1 := by
  obtain ⟨hstored, hkept, honce⟩ := life_cycle visitSession visit.id
  have hn : ∀ x ∈ [Entry.dispatched visit.startDate (fun _ => true) [visitMessage]],
      ¬ x.Accepts visit.id ∧ ¬ x.Removes visit.id := List.forall_mem_singleton.2 ⟨id, id⟩
  refine ⟨?_, fun f hf => ?_, ?_⟩
  · exact hstored.2 ⟨[], visit, _, visit_history, rfl, fun x hx => (hn x hx).2⟩
  · refine (hkept [] visit _ f visit_history rfl (fun x hx => (hn x hx).1) hf).2.1.2 ?_
    have hm : visitMessage ∈ messages visit.id
        [.dispatched visit.startDate (fun _ => true) [visitMessage]] :=
      mem_messages.2 ⟨rfl, _, List.mem_singleton.2 rfl, List.mem_singleton.2 rfl⟩
    exact ⟨visitMessage, hm, rfl⟩
  · refine (honce [] visit _ [] ?_ rfl fun x hx => (hn x hx).1).1
    rw [List.append_nil]; exact visit_history

end Agenda.Sequential
