import Parley.Session.Error
import Parley.Session.Inbox
import Parley.Text.Shown

/-! A mesh connects a fixed list of roles: for each ordered pair of them, a role with itself included,
a channel is opened, and the pair is entered in the table of senders and in the table of inboxes. A
pair that comes again gets a new channel in place of the old one. Sending never waits; receiving may
have to, and then there is no answer yet. -/

namespace Parley

universe u v

/-- Sender and receiver. -/
abbrev Route := String × String

namespace Route

/-- The channels of some routes, by number. -/
abbrev Table := List (Route × Nat)

namespace Table

/-- Enters the channel of a route, in place of the one it had. -/
def enter (t : Table) (route : Route) (channel : Nat) : Table :=
  (route, channel) :: t.filter (·.1 != route)

/-- Whether some route has the channel. -/
def holds (t : Table) (channel : Nat) : Bool := t.any (·.2 == channel)

theorem lookup_enter (t : Table) (route other : Route) (channel : Nat) :
    (t.enter route channel).lookup other =
      if other = route then some channel else t.lookup other := by
  by_cases h : other = route
  · simp [enter, h]
  · have hne : (other == route) = false := by simpa using h
    simp only [enter, List.lookup_cons, hne, if_neg h]
    induction t with
    | nil => rfl
    | cons entry t ih =>
      obtain ⟨r, n⟩ := entry
      by_cases hr : r = route
      · subst hr
        simpa [List.lookup_cons, hne] using ih
      · simp only [List.filter_cons, bne_iff_ne, ne_eq, hr, not_false_eq_true, if_true,
          List.lookup_cons]
        cases other == r with
        | true => rfl
        | false => exact ih

theorem holds_of_lookup {t : Table} {route : Route} {channel : Nat}
    (h : t.lookup route = some channel) : t.holds channel = true := by
  induction t with
  | nil => simp at h
  | cons entry t ih =>
    rw [List.lookup_cons] at h
    cases hr : route == entry.1 with
    | true => simp_all [holds]
    | false =>
      rw [hr] at h
      have ht := ih h
      simp only [holds, List.any_cons, Bool.or_eq_true] at ht ⊢
      exact .inr ht

end Table

end Route

/-- Both ends of a route are ends of one channel, which is open and no other route's. -/
structure Wired (senders inboxes : Route.Table) (opened : Nat) : Prop where
  same : ∀ route, senders.lookup route = inboxes.lookup route
  lt_opened : ∀ {route n}, inboxes.lookup route = some n → n < opened
  apart : ∀ {route other n}, inboxes.lookup route = some n → inboxes.lookup other = some n →
    other = route

namespace Wired

theorem none : Wired [] [] 0 := ⟨fun _ => rfl, by simp, by simp⟩

theorem enter {senders inboxes : Route.Table} {opened : Nat} (h : Wired senders inboxes opened)
    (route : Route) : Wired (senders.enter route opened) (inboxes.enter route opened)
      (opened + 1) := by
  constructor
  · intro r
    rw [Route.Table.lookup_enter, Route.Table.lookup_enter, h.same]
  · intro r n hr
    rw [Route.Table.lookup_enter] at hr
    split at hr
    · cases hr
      exact Nat.lt_succ_self _
    · exact Nat.lt_succ_of_lt (h.lt_opened hr)
  · intro r r' n hr hr'
    rw [Route.Table.lookup_enter] at hr hr'
    -- the new channel has a number that no route had before
    split at hr <;> split at hr'
    · simp_all
    · cases hr
      exact absurd (h.lt_opened hr') (Nat.lt_irrefl _)
    · cases hr'
      exact absurd (h.lt_opened hr) (Nat.lt_irrefl _)
    · exact h.apart hr hr'

end Wired

structure Mesh (μ : Type u) where
  roles : List String
  senders : Route.Table
  inboxes : Route.Table
  /-- All channels that were ever opened. -/
  channels : List (Inbox μ)
  wired : Wired senders inboxes channels.length

namespace Mesh

variable {μ : Type u}

/-- The pairs of roles in order, as often as the roles are listed. -/
def routes (roles : List String) : List Route :=
  roles.flatMap fun sender => roles.map fun receiver => (sender, receiver)

/-- Opens a channel for a route. -/
def connect (m : Mesh μ) (route : Route) : Mesh μ where
  roles := m.roles
  senders := m.senders.enter route m.channels.length
  inboxes := m.inboxes.enter route m.channels.length
  channels := m.channels ++ [.empty]
  wired := by
    rw [List.length_append]
    exact m.wired.enter route

/-- A mesh without messages. A role that is listed twice is one role. -/
def ofRoles (roles : List String) : Mesh μ :=
  { (routes roles).foldl connect ⟨[], [], [], [], .none⟩ with roles }

def channel (m : Mesh μ) (n : Nat) : Inbox μ := m.channels.getD n .empty

def inbox? (m : Mesh μ) (route : Route) : Option (Inbox μ) :=
  (m.inboxes.lookup route).map m.channel

def setChannel (m : Mesh μ) (channel : Nat) (box : Inbox μ) : Mesh μ :=
  { m with
    channels := m.channels.set channel box
    wired := by rw [List.length_set]; exact m.wired }

def checkRole (m : Mesh μ) (role : String) : Except SessionError Unit :=
  if m.roles.contains role then .ok () else .error (.unknownRole role)

/-- Puts a message into the channel of a route, which is closed once no inbox reads from it. -/
def send (m : Mesh μ) (sender receiver label : String) (body : μ) : Except SessionError (Mesh μ) :=
  match m.senders.lookup (sender, receiver) with
  | none => .error (.unknownRole receiver)
  | some n =>
    if m.inboxes.holds n then .ok (m.setChannel n ((m.channel n).deliver ⟨label, body⟩))
    else .error (.disconnected sender)

/-- Looks for messages in the inbox of a route. What is not found may still arrive, unless nobody
sends into the channel any more. -/
def select {α : Type v} (m : Mesh μ) (receiver sender : String) (s : Selector μ α) :
    Except SessionError (Option α × Mesh μ) :=
  match m.inboxes.lookup (sender, receiver) with
  | none => .error (.unknownRole sender)
  | some n =>
    let (found, box) := (m.channel n).poll s
    if found.isSome || m.senders.holds n then .ok (found, m.setChannel n box)
    else .error (.disconnected sender)

/-- Takes the oldest message under a label. -/
def recv (m : Mesh μ) (receiver sender label : String) : Except SessionError (Option μ × Mesh μ) :=
  m.select receiver sender (.take label)

/-- The place in `labels` of the label of the oldest message that has one of them. -/
def waitAny (m : Mesh μ) (receiver sender : String) (labels : List String) :
    Except SessionError (Option Nat × Mesh μ) :=
  m.select receiver sender (.peek labels)

def shown (m : Mesh μ) : String :=
  "Mesh \x7b roles: [" ++ ", ".intercalate (m.roles.map Text.shown) ++ "] \x7d"

end Mesh

end Parley
