import Agenda.Proofs.Sequential.Session

/-!
# Lives of events

What has become of an id can be read off the history alone: its life is the last event that was
accepted and whether its reminder has been sent since, and it ends when the event is removed.

* `life`: the life of an id after a history.
* `Explained`: the store, the accepted events and the messages are as the history says.
  `run_explained`: they are after every session.
-/
namespace Agenda.Sequential

open Reminders

/-- An event that is stored. -/
structure Life where
  /-- The event as last accepted. -/
  event : Event
  /-- Its reminder was sent since. -/
  sent : Bool

/-- The event as it is stored. -/
def Life.kept (l : Life) : Event := { l.event.truncated with isSent := l.sent }

/-- The life of an id after the entry. -/
def Entry.after (id : String) : Entry → Option Life → Option Life
  | accepted e, l => if e.id = id then some ⟨e, false⟩ else l
  | deleted i, l => if i = id then none else l
  | purged _ ids, l => if id ∈ ids then none else l
  | dispatched now accepts _, l =>
    l.map fun l => if l.kept.IsDue now ∧ Delivers accepts l.kept then { l with sent := true } else l

/-- The life of an id after the history. -/
def life (id : String) (h : List Entry) : Option Life := h.foldl (fun l x => x.after id l) none

/-- The entry accepts an event with this id. -/
def Entry.Accepts (id : String) : Entry → Prop
  | accepted e => e.id = id
  | _ => False

/-- The entry removes the event with this id. -/
def Entry.Removes (id : String) : Entry → Prop
  | deleted i => i = id
  | purged _ ids => id ∈ ids
  | _ => False

variable {s : Session} {b b' : Backend} {x : Entry} {h pre post : List Entry} {id : String}
  {l : Life} {o : Option Life} {e : Event} {now : Instant} {accepts : Event → Bool} {ms : List Message}

theorem life_concat (id : String) (h : List Entry) (x : Entry) :
    life id (h ++ [x]) = x.after id (life id h) := by
  simp [life]

/-! ## Which ids are stored -/

theorem Entry.after_isSome (ho : o.isSome) (hr : ¬ x.Removes id) : (x.after id o).isSome := by
  cases x with
  | accepted e =>
    simp only [after]
    split
    · rfl
    · exact ho
  | deleted i => rw [after, if_neg (show ¬ i = id from hr)]; exact ho
  | purged now ids => rw [after, if_neg (show ¬ id ∈ ids from hr)]; exact ho
  | dispatched now accepts ms => rw [after, Option.isSome_map]; exact ho

theorem life_isSome (hr : ∀ x ∈ post, ¬ x.Removes e.id) :
    (life e.id (pre ++ .accepted e :: post)).isSome := by
  induction post using List.reverseRecOn with
  | nil => rw [life_concat, Entry.after, if_pos rfl]; rfl
  | append_singleton post x ih =>
    rw [List.forall_mem_append] at hr
    rw [← List.cons_append, ← List.append_assoc, life_concat]
    exact Entry.after_isSome (ih hr.1) (hr.2 x (List.mem_singleton.2 rfl))

/-- An entry begins a life or carries one on. -/
theorem Entry.after_cases (hl : x.after id o = some l) :
    (x = .accepted l.event ∧ l.event.id = id) ∨
    (¬ x.Removes id ∧ ∃ l', o = some l' ∧ l'.event = l.event) := by
  cases x with
  | accepted e =>
    simp only [after] at hl
    split at hl
    · rename_i hi; cases hl; exact .inl ⟨rfl, hi⟩
    · exact .inr ⟨not_false, l, hl, rfl⟩
  | deleted i =>
    simp only [after] at hl
    split at hl
    · cases hl
    · rename_i hi; exact .inr ⟨hi, l, hl, rfl⟩
  | purged now ids =>
    simp only [after] at hl
    split at hl
    · cases hl
    · rename_i hi; exact .inr ⟨hi, l, hl, rfl⟩
  | dispatched now accepts ms =>
    obtain ⟨l', hl', rfl⟩ := Option.map_eq_some_iff.1 hl
    refine .inr ⟨not_false, l', hl', ?_⟩
    split <;> rfl

/-- What is stored was accepted, and has not been removed since. -/
theorem exists_accepted (hl : life id h = some l) : ∃ pre post,
    h = pre ++ .accepted l.event :: post ∧ l.event.id = id ∧ ∀ x ∈ post, ¬ x.Removes id := by
  induction h using List.reverseRecOn generalizing l with
  | nil => cases hl
  | append_singleton h x ih =>
    rw [life_concat] at hl
    obtain ⟨rfl, hi⟩ | ⟨hr, l', hl', he⟩ := Entry.after_cases hl
    · exact ⟨h, [], rfl, hi, List.forall_mem_nil _⟩
    · obtain ⟨pre, post, rfl, hi, hpost⟩ := ih hl'
      rw [he] at hi ⊢
      refine ⟨pre, post ++ [x], by simp, hi, ?_⟩
      exact List.forall_mem_append.2 ⟨hpost, List.forall_mem_singleton.2 hr⟩

/-- A life is that of an event with its id. -/
theorem life_id (hl : life id h = some l) : l.event.id = id := by
  obtain ⟨pre, post, -, hi, -⟩ := exists_accepted hl
  exact hi

/-! ## What the history explains -/

/-- After the history `pre`, a dispatch hands over the messages of the events that are due, once. -/
structure Accurate (pre : List Entry) (now : Instant) (accepts : Event → Bool) (ms : List Message) :
    Prop where
  once : (ms.map Message.id).Nodup
  mem_iff : ∀ m, m ∈ ms ↔
    ∃ l, life m.id pre = some l ∧ l.kept.IsDue now ∧ publish accepts l.kept = some m

/-- Every dispatch of the history is accurate. -/
def Logged (h : List Entry) : Prop :=
  ∀ pre now accepts ms, pre ++ [.dispatched now accepts ms] <+: h → Accurate pre now accepts ms

theorem Logged.of_prefix (hl : Logged h) (hp : pre <+: h) : Logged pre :=
  fun p now accepts ms hd => hl p now accepts ms (hd.trans hp)

/-- The history explains what is stored, and what it records is right. -/
structure Explained (s : Session) : Prop where
  reliable : s.backend.fault = fun _ => none
  view : ∀ id, s.backend.store.find? id = (life id s.history).map Life.kept
  valid : ∀ e, .accepted e ∈ s.history → e.violation? = none
  messages : Logged s.history

theorem explained_start : Explained start where
  reliable := rfl
  view := fun _ => rfl
  valid := by intro e he; cases he
  messages := by
    intro pre now accepts ms hp
    exact absurd (List.prefix_nil.1 hp) (by simp)

/-- The view after an entry is explained by the history with the entry. -/
theorem Entry.Records.view (hr : x.Records b b')
    (hv : ∀ id, b.store.find? id = (life id h).map Life.kept) (id : String) :
    b'.store.find? id = (life id (h ++ [x])).map Life.kept := by
  rw [life_concat]
  cases x with
  | accepted e =>
    rw [hr.2, after]
    by_cases hi : e.id = id
    · subst hi; rw [Function.update_self, if_pos rfl]; rfl
    · rw [Function.update_of_ne (Ne.symm hi), if_neg hi, hv]
  | deleted i =>
    rw [show b'.store.find? = _ from hr, after]
    by_cases hi : i = id
    · subst hi; rw [Function.update_self, if_pos rfl]; rfl
    · rw [Function.update_of_ne (Ne.symm hi), if_neg hi, hv]
  | purged now ids =>
    rw [hr id, after]
    split
    · rfl
    · exact hv id
  | dispatched now accepts ms =>
    rw [hr.2 id, hv, after]
    cases life id h with
    | none => rfl
    | some l =>
      simp only [Option.map_some]
      split <;> rfl

/-- The messages of a dispatch are explained by the history before it. -/
theorem accurate_of_view (hv : ∀ id, b.store.find? id = (life id h).map Life.kept) :
    Accurate h now accepts ((dueEvents now b.store.events).filterMap (publish accepts)) where
  once := by
    have hs := (sublist_messages accepts (dueEvents now b.store.events)).trans
      (List.filter_sublist.map Event.id)
    exact b.store.distinct.sublist hs
  mem_iff := by
    intro m
    simp only [List.mem_filterMap, dueEvents, List.mem_filter, decide_eq_true_eq]
    constructor
    · rintro ⟨e, ⟨he, hd⟩, hp⟩
      have hf := Store.find?_of_mem he
      rw [hv, ← publish_id hp] at hf
      obtain ⟨l, hl, rfl⟩ := Option.map_eq_some_iff.1 hf
      exact ⟨l, hl, hd, hp⟩
    · rintro ⟨l, hl, hd, hp⟩
      have hf : b.store.find? m.id = some l.kept := by rw [hv, hl]; rfl
      exact ⟨l.kept, ⟨Store.mem_of_find? hf, hd⟩, hp⟩

theorem Explained.step {c : Command} (hs : Explained s) (hc : c.perform s.backend = some (x, b)) :
    Explained ⟨b, s.history ++ [x]⟩ := by
  obtain ⟨hr, hf⟩ := Command.perform_records hs.reliable hc
  refine ⟨hf, hr.view hs.view, ?_, ?_⟩
  · intro e he
    rcases List.mem_append.1 he with he | he
    · exact hs.valid e he
    · cases List.mem_singleton.1 he
      exact hr.1
  · intro pre now accepts ms hp
    rcases List.prefix_concat_iff.1 hp with heq | hp
    · obtain ⟨rfl, hx⟩ := List.append_inj' heq rfl
      cases hx
      obtain ⟨rfl, -⟩ := hr
      exact accurate_of_view hs.view
    · exact hs.messages pre now accepts ms hp

/-- **Sessions are explained by their histories.** -/
theorem run_explained (cs : List Command) : Explained (run cs) :=
  run_induction explained_start (fun _ hs hc => hs.step hc) cs

end Agenda.Sequential
