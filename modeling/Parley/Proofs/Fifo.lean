import Mathlib.Data.List.Infix
import Parley.Proofs.Queue
import Parley.Session.Stage

/-! Inboxes as queues. An inbox holds its messages in two stages, and a search moves them from the second
to the first until it finds something. Main statement: the two stages do not show. A search finds and
leaves what it would find and leave in one queue, so every run of deliveries and searches has the answers
of that queue. -/

namespace Parley

universe u v

variable {μ : Type u} {α : Type v}

/-! ### One queue -/

namespace Fifo

/-- The body of the oldest message under a label, which leaves the queue. -/
def recv (label : String) : Selector μ μ := fun q =>
  (q.find? (·.label == label)).map fun e => (e.body, q.eraseP (·.label == label))

/-- The first place in `labels` of the label of the oldest message that has one of them. -/
def waitAny (labels : List String) : Selector μ Nat := fun q =>
  (q.find? fun e => labels.contains e.label).map fun e => (labels.idxOf e.label, q)

theorem recv_eq_take (label : String) : (recv label : Selector μ μ) = .take label := by
  funext q
  induction q with
  | nil => rfl
  | cons e q ih =>
    rw [Selector.take, ← ih]
    cases he : e.label == label with
    | true => simp [recv, he]
    | false => simp [recv, he, Function.comp_def]

theorem waitAny_eq_peek (labels : List String) : (waitAny labels : Selector μ Nat) = .peek labels := by
  funext q
  have hfind : (q.find? fun e => labels.contains e.label).map (fun e => labels.idxOf e.label) =
      q.findSome? fun e => labels.idxOf? e.label := by
    induction q with
    | nil => rfl
    | cons e q ih =>
      by_cases he : e.label ∈ labels
      · have hsome : labels.idxOf? e.label = some (labels.idxOf e.label) :=
          List.findIdx?_eq_some_iff_findIdx_eq.mpr ⟨List.idxOf_lt_length_iff.mpr he, rfl⟩
        simp [he, hsome]
      · have hnone : labels.idxOf? e.label = none := List.idxOf?_eq_none_iff.mpr he
        simpa [he, hnone] using ih
  rw [waitAny, Selector.peek, ← hfind, Option.map_map]
  rfl

end Fifo

/-! ### One search -/

namespace Inbox

variable {s : Selector μ α} {pending arrived : List (Envelope μ)}

theorem pollFrom_of_some {a : α} {rest : List (Envelope μ)} (h : s pending = some (a, rest)) :
    pollFrom s pending arrived = (some a, ⟨rest, arrived⟩) := by
  cases arrived <;> simp [pollFrom, h]

theorem pollFrom_of_none {e : Envelope μ} (h : s pending = none) :
    pollFrom s pending (e :: arrived) = pollFrom s (pending ++ [e]) arrived := by
  simp [pollFrom, h]

/-- A search takes in messages up to the first with which it succeeds, and none behind that. -/
theorem exists_pulled {a : α} {b : Inbox μ} (h : pollFrom s pending arrived = (some a, b)) :
    ∃ pulled, arrived = pulled ++ b.arrived ∧ s (pending ++ pulled) = some (a, b.pending) ∧
      ∀ first, first <+: pulled → first ≠ pulled → s (pending ++ first) = none := by
  -- nothing more is taken in once the pending messages will do
  have hnow {pending arrived : List (Envelope μ)} {found : α × List (Envelope μ)}
      (hp : s pending = some found) (h : pollFrom s pending arrived = (some a, b)) :
      ∃ pulled, arrived = pulled ++ b.arrived ∧ s (pending ++ pulled) = some (a, b.pending) ∧
        ∀ first, first <+: pulled → first ≠ pulled → s (pending ++ first) = none := by
    rw [pollFrom_of_some hp] at h
    cases h
    refine ⟨[], rfl, by simpa using hp, fun first hfirst hne => ?_⟩
    exact absurd (List.prefix_nil.mp hfirst) hne
  induction arrived generalizing pending with
  | nil =>
    cases hp : s pending with
    | none => simp [pollFrom, hp] at h
    | some found => exact hnow hp h
  | cons e arrived ih =>
    cases hp : s pending with
    | some found => exact hnow hp h
    | none =>
      rw [pollFrom_of_none hp] at h
      obtain ⟨pulled, rfl, hs, hbefore⟩ := ih h
      refine ⟨e :: pulled, rfl, by simpa using hs, fun first hfirst hne => ?_⟩
      rcases List.prefix_cons_iff.mp hfirst with rfl | ⟨front, rfl, hfront⟩
      · simpa using hp
      · have hne : front ≠ pulled := fun he => hne (congrArg (e :: ·) he)
        simpa using hbefore front hfront hne

/-- A search that finds nothing has taken in everything. -/
theorem pollFrom_eq_none {b : Inbox μ} (h : pollFrom s pending arrived = (none, b)) :
    b = ⟨pending ++ arrived, []⟩ := by
  induction arrived generalizing pending with
  | nil =>
    cases hp : s pending with
    | none =>
      simp only [pollFrom, hp] at h
      cases h
      rw [List.append_nil]
    | some found => simp [pollFrom_of_some hp] at h
  | cons e arrived ih =>
    cases hp : s pending with
    | none =>
      rw [pollFrom_of_none hp] at h
      rw [ih h, List.append_assoc, List.singleton_append]
    | some found => simp [pollFrom_of_some hp] at h

end Inbox

/-- Searching the two stages of an inbox comes to searching the one queue that they make up. -/
structure Selector.Refines (s whole : Selector μ α) : Prop where
  /-- Something is found just if it is found in the queue, and then the same messages are left. -/
  ready : ∀ (b : Inbox μ) (a : α) (rest : List (Envelope μ)),
    (∃ pending arrived, b.poll s = (some a, ⟨pending, arrived⟩) ∧ pending ++ arrived = rest) ↔
      whole (b.pending ++ b.arrived) = some (a, rest)
  /-- Nothing is found just if the queue has nothing, and then all of it has been looked at. -/
  waits : ∀ b b' : Inbox μ, b.poll s = (none, b') ↔
    whole (b.pending ++ b.arrived) = none ∧ b' = ⟨b.pending ++ b.arrived, []⟩
  /-- No message is taken in behind the first with which something is found. -/
  pulled : ∀ (b b' : Inbox μ) (a : α), b.poll s = (some a, b') →
    ∃ pulled, b.arrived = pulled ++ b'.arrived ∧
      whole (b.pending ++ pulled) = some (a, b'.pending) ∧
      ∀ first, first <+: pulled → first ≠ pulled → whole (b.pending ++ first) = none
  /-- A mesh answers what the inbox of the route does. Its channels are never closed. -/
  open_channel : ∀ (m : Mesh μ) (sender receiver : String) (b : Inbox μ),
    m.inbox? (sender, receiver) = some b →
      ∃ m', m.select receiver sender s = .ok ((b.poll s).1, m') ∧
        m'.inbox? (sender, receiver) = some (b.poll s).2

theorem Mesh.select_of_inbox? {m : Mesh μ} {sender receiver : String} {b : Inbox μ}
    (h : m.inbox? (sender, receiver) = some b) (s : Selector μ α) :
    ∃ m', m.select receiver sender s = .ok ((b.poll s).1, m') ∧
      m'.inbox? (sender, receiver) = some (b.poll s).2 := by
  obtain ⟨n, hn, rfl⟩ := Option.map_eq_some_iff.mp h
  refine ⟨m.setChannel n ((m.channel n).poll s).2, ?_, ?_⟩
  · have hheld := Route.Table.holds_of_lookup ((m.wired.same _).trans hn)
    simp [select, hn, hheld]
  · have hlt := m.wired.lt_opened hn
    simp [inbox?, setChannel, channel, hn, hlt]

theorem Selector.Stable.refines {s : Selector μ α} (hs : s.Stable) : s.Refines s where
  ready b a rest := by
    obtain ⟨hfound, hleft⟩ := b.poll_spec hs
    constructor
    · rintro ⟨pending, arrived, hpoll, rfl⟩
      rw [hpoll] at hfound hleft
      obtain ⟨⟨a', rest⟩, hsome, rfl⟩ := Option.map_eq_some_iff.mp hfound.symm
      rw [Selector.left, hsome] at hleft
      exact hsome.trans (congrArg _ (congrArg _ hleft.symm))
    · intro hsome
      have hqueue : s b.queue = some (a, rest) := hsome
      rw [hqueue] at hfound
      rw [Selector.left, hqueue] at hleft
      exact ⟨_, _, Prod.ext hfound rfl, hleft⟩
  waits b b' := by
    obtain ⟨hfound, -⟩ := b.poll_spec hs
    constructor
    · intro hpoll
      rw [hpoll] at hfound
      exact ⟨Option.map_eq_none_iff.mp hfound.symm, Inbox.pollFrom_eq_none hpoll⟩
    · rintro ⟨hnone, rfl⟩
      have hqueue : s b.queue = none := hnone
      rw [hqueue] at hfound
      exact Prod.ext hfound (Inbox.pollFrom_eq_none (Prod.ext hfound rfl))
  pulled b b' a hpoll := Inbox.exists_pulled hpoll
  open_channel m sender receiver b hb := Mesh.select_of_inbox? hb s

/-! ### Runs -/

/-- What may happen to the messages of a route. -/
inductive Inbox.Event (μ : Type u) where
  | deliver (e : Envelope μ)
  | recv (label : String)
  | waitAny (labels : List String)

/-- The answers of a machine to one event after the other, and its last state. -/
def Inbox.Event.run {σ : Type v} (handle : σ → Event μ → Answer μ × σ) (s : σ) :
    List (Event μ) → List (Answer μ) × σ
  | [] => ([], s)
  | event :: events =>
    ((handle s event).1 :: (run handle (handle s event).2 events).1,
      (run handle (handle s event).2 events).2)

def Inbox.handle (b : Inbox μ) : Event μ → Answer μ × Inbox μ
  | .deliver e => (.sent, b.deliver e)
  | .recv label => ((b.poll (.take label)).1.elim .blocked .received, (b.poll (.take label)).2)
  | .waitAny labels => ((b.poll (.peek labels)).1.elim .blocked .index, (b.poll (.peek labels)).2)

def Fifo.handle (q : List (Envelope μ)) : Inbox.Event μ → Answer μ × List (Envelope μ)
  | .deliver e => (.sent, q ++ [e])
  | .recv label =>
    match recv label q with
    | some (body, rest) => (.received body, rest)
    | none => (.blocked, q)
  | .waitAny labels =>
    match waitAny labels q with
    | some (i, rest) => (.index i, rest)
    | none => (.blocked, q)

namespace Inbox

/-- One event is answered by the inbox as by the queue. -/
theorem handle_queue (b : Inbox μ) (event : Event μ) :
    (b.handle event).1 = (Fifo.handle b.queue event).1 ∧
      (b.handle event).2.queue = (Fifo.handle b.queue event).2 := by
  cases event with
  | deliver e => exact ⟨rfl, b.queue_deliver e⟩
  | recv label =>
    obtain ⟨hfound, hleft⟩ := b.poll_spec (Selector.stable_take label)
    simp only [handle, Fifo.handle, hfound, hleft, Selector.left, Fifo.recv_eq_take]
    cases Selector.take label b.queue with
    | none => exact ⟨rfl, rfl⟩
    | some found => exact ⟨rfl, rfl⟩
  | waitAny labels =>
    obtain ⟨hfound, hleft⟩ := b.poll_spec (Selector.stable_peek labels)
    simp only [handle, Fifo.handle, hfound, hleft, Selector.left, Fifo.waitAny_eq_peek]
    cases Selector.peek labels b.queue with
    | none => exact ⟨rfl, rfl⟩
    | some found => exact ⟨rfl, rfl⟩

theorem run_queue (b : Inbox μ) (events : List (Event μ)) :
    (Event.run handle b events).1 = (Event.run Fifo.handle b.queue events).1 ∧
      (Event.run handle b events).2.queue = (Event.run Fifo.handle b.queue events).2 := by
  induction events generalizing b with
  | nil => exact ⟨rfl, rfl⟩
  | cons event events ih =>
    obtain ⟨hanswer, hqueue⟩ := b.handle_queue event
    obtain ⟨hanswers, hlast⟩ := ih (b.handle event).2
    rw [hqueue] at hanswers hlast
    simp only [Event.run, hanswer, hanswers, hlast, and_self]

/-- The two stages of an inbox do not show: both kinds of search refine the search of one queue, every
run is answered as by one queue, and inboxes that hold the same messages in order give the same answers
for ever, wherever the line between their stages runs. -/
theorem refines_fifo (μ : Type u) :
    (∀ label, (Selector.take label : Selector μ μ).Refines (Fifo.recv label)) ∧
      (∀ labels, (Selector.peek labels : Selector μ Nat).Refines (Fifo.waitAny labels)) ∧
      (∀ (b : Inbox μ) (events : List (Event μ)),
        (Event.run handle b events).1 = (Event.run Fifo.handle b.queue events).1 ∧
          (Event.run handle b events).2.queue = (Event.run Fifo.handle b.queue events).2) ∧
      ∀ (b b' : Inbox μ) (events : List (Event μ)), b.queue = b'.queue →
        (Event.run handle b events).1 = (Event.run handle b' events).1 := by
  refine ⟨fun label => ?_, fun labels => ?_, run_queue, fun b b' events hq => ?_⟩
  · rw [Fifo.recv_eq_take]
    exact (Selector.stable_take label).refines
  · rw [Fifo.waitAny_eq_peek]
    exact (Selector.stable_peek labels).refines
  · rw [(b.run_queue events).1, (b'.run_queue events).1, hq]

theorem refines_fifo_of_two_splits :
    let seen : Inbox Nat := ⟨[⟨"x", 1⟩], [⟨"y", 2⟩]⟩
    let unseen : Inbox Nat := ⟨[], [⟨"x", 1⟩, ⟨"y", 2⟩]⟩
    let events : List (Event Nat) := [.recv "y", .waitAny ["y", "x"], .recv "x", .recv "x"]
    seen.queue = unseen.queue ∧
      (Event.run handle seen events).1 = [.received 2, .index 1, .received 1, .blocked] ∧
      (Event.run handle seen events).1 = (Event.run handle unseen events).1 :=
  ⟨rfl, rfl, (refines_fifo Nat).2.2.2 _ _ _ rfl⟩

end Inbox

end Parley
