import Mathlib.Data.List.Basic
import Parley.Session.Mesh

/-! Meshes by their queues. A call looks through the messages of one route from the oldest on, however
many of them it has already looked at; so each call is given by what it does to the queue of its
route, and it leaves every other route alone. -/

namespace Parley

universe u v

variable {μ : Type u} {α : Type v}

/-- Whether what a selector finds does not depend on messages that arrive later. -/
def Selector.Stable (s : Selector μ α) : Prop :=
  ∀ es fs a rest, s es = some (a, rest) → s (es ++ fs) = some (a, rest ++ fs)

/-- The messages that a selector leaves. -/
def Selector.left (s : Selector μ α) (es : List (Envelope μ)) : List (Envelope μ) :=
  ((s es).map Prod.snd).getD es

namespace Selector

/-- A label that is listed once is found at its place. -/
theorem idxOf?_eq_some_iff {labels : List String} (h : labels.Nodup) {label : String} {i : Nat} :
    labels.idxOf? label = some i ↔ labels[i]? = some label := by
  rw [List.idxOf?_eq_some_iff, List.getElem?_eq_some_iff]
  constructor
  · rintro ⟨hi, hlabel, _⟩
    exact ⟨hi, hlabel⟩
  · rintro ⟨hi, hlabel⟩
    refine ⟨hi, hlabel, ?_⟩
    intro j hj he
    have := (List.getElem_inj h).mp (he.trans hlabel.symm)
    omega

theorem stable_take (label : String) : (take label : Selector μ μ).Stable := by
  intro es fs a rest h
  induction es generalizing rest with
  | nil => simp [take] at h
  | cons e es ih =>
    rw [take] at h
    rw [List.cons_append, take]
    by_cases he : (e.label == label) = true
    · rw [if_pos he] at h ⊢
      cases h
      rfl
    · rw [if_neg he] at h ⊢
      obtain ⟨⟨body, left⟩, hl, hb⟩ := Option.map_eq_some_iff.mp h
      cases hb
      rw [ih left hl]
      rfl

theorem stable_peek (labels : List String) : (peek labels : Selector μ Nat).Stable := by
  intro es fs i rest h
  obtain ⟨j, hj, hp⟩ := Option.map_eq_some_iff.mp h
  cases hp
  rw [peek, List.findSome?_append, hj]
  rfl

theorem take_cons {label : String} {body : μ} {es : List (Envelope μ)} :
    take label (⟨label, body⟩ :: es) = some (body, es) := by
  simp [take]

theorem peek_cons {labels : List String} {e : Envelope μ} {es : List (Envelope μ)} {i : Nat}
    (h : labels.idxOf? e.label = some i) : peek labels (e :: es) = some (i, e :: es) := by
  simp [peek, h]

end Selector

namespace Inbox

theorem pollFrom_spec {s : Selector μ α} (hs : s.Stable) (pending arrived : List (Envelope μ)) :
    (pollFrom s pending arrived).1 = (s (pending ++ arrived)).map Prod.fst ∧
      (pollFrom s pending arrived).2.queue = s.left (pending ++ arrived) := by
  induction arrived generalizing pending with
  | nil =>
    rw [pollFrom, List.append_nil, Selector.left]
    cases hp : s pending with
    | none => exact ⟨rfl, List.append_nil pending⟩
    | some found => exact ⟨rfl, List.append_nil found.2⟩
  | cons e es ih =>
    rw [pollFrom]
    cases hp : s pending with
    | some found =>
      -- what is found among the pending messages is found in the whole queue
      rw [Selector.left, hs pending (e :: es) found.1 found.2 hp]
      exact ⟨rfl, rfl⟩
    | none =>
      have h := ih (pending ++ [e])
      rw [List.append_assoc] at h
      exact h

theorem poll_spec {s : Selector μ α} (hs : s.Stable) (b : Inbox μ) :
    (b.poll s).1 = (s b.queue).map Prod.fst ∧ (b.poll s).2.queue = s.left b.queue :=
  pollFrom_spec hs b.pending b.arrived

theorem queue_deliver (b : Inbox μ) (e : Envelope μ) : (b.deliver e).queue = b.queue ++ [e] :=
  (List.append_assoc b.pending b.arrived [e]).symm

end Inbox

namespace Mesh

/-- The messages on a route, the oldest first, if the route exists. -/
def queue? (m : Mesh μ) (route : Route) : Option (List (Envelope μ)) :=
  (m.inbox? route).map Inbox.queue

theorem queue?_eq_some {m : Mesh μ} {route : Route} {q : List (Envelope μ)} :
    m.queue? route = some q ↔
      ∃ n, m.inboxes.lookup route = some n ∧ (m.channel n).queue = q := by
  simp [queue?, inbox?]

/-- A change of one channel is seen on its own route alone. -/
theorem queue?_setChannel {m : Mesh μ} {route : Route} {n : Nat}
    (h : m.inboxes.lookup route = some n) (box : Inbox μ) :
    (m.setChannel n box).queue? route = some box.queue ∧
      ∀ other, other ≠ route → (m.setChannel n box).queue? other = m.queue? other := by
  constructor
  · have hn := m.wired.lt_opened h
    simp [queue?, inbox?, setChannel, channel, h, hn]
  · intro other hne
    cases ho : m.inboxes.lookup other with
    | none => simp [queue?, inbox?, setChannel, ho]
    | some k =>
      have hk : n ≠ k := by
        rintro rfl
        exact hne (m.wired.apart h ho)
      simp [queue?, inbox?, setChannel, channel, ho, hk]

theorem queue?_connect (m : Mesh μ) (route other : Route) :
    (m.connect route).queue? other = if other = route then some [] else m.queue? other := by
  by_cases h : other = route
  · simp [queue?, inbox?, connect, channel, Route.Table.lookup_enter, h, Inbox.empty, Inbox.queue]
  · simp only [queue?, inbox?, connect, Route.Table.lookup_enter, if_neg h]
    cases ho : m.inboxes.lookup other with
    | none => rfl
    | some k =>
      have hk := m.wired.lt_opened ho
      simp [channel, List.getElem?_append_left hk]

theorem queue?_foldl_connect (m : Mesh μ) (routes : List Route) (other : Route) :
    (routes.foldl connect m).queue? other =
      if other ∈ routes then some [] else m.queue? other := by
  induction routes generalizing m with
  | nil => simp
  | cons route routes ih =>
    rw [List.foldl_cons, ih, queue?_connect]
    by_cases ho : other ∈ routes
    · simp [ho]
    · by_cases hr : other = route <;> simp [ho, hr]

theorem mem_routes {roles : List String} {sender receiver : String} :
    (sender, receiver) ∈ routes roles ↔ sender ∈ roles ∧ receiver ∈ roles := by
  simp [routes]

theorem queue?_ofRoles_eq (roles : List String) (route : Route) :
    (ofRoles roles : Mesh μ).queue? route = if route ∈ routes roles then some [] else none :=
  queue?_foldl_connect ⟨[], [], [], [], .none⟩ (routes roles) route

theorem queue?_ofRoles {roles : List String} {sender receiver : String} (hs : sender ∈ roles)
    (hr : receiver ∈ roles) : (ofRoles roles : Mesh μ).queue? (sender, receiver) = some [] := by
  rw [queue?_ofRoles_eq, if_pos (mem_routes.mpr ⟨hs, hr⟩)]

theorem send_spec {m : Mesh μ} {sender receiver : String} {q : List (Envelope μ)}
    (h : m.queue? (sender, receiver) = some q) (label : String) (body : μ) :
    ∃ m', m.send sender receiver label body = .ok m' ∧
      m'.queue? (sender, receiver) = some (q ++ [⟨label, body⟩]) ∧
      ∀ route, route ≠ (sender, receiver) → m'.queue? route = m.queue? route := by
  obtain ⟨n, hn, rfl⟩ := queue?_eq_some.mp h
  obtain ⟨hself, hother⟩ := queue?_setChannel hn ((m.channel n).deliver ⟨label, body⟩)
  refine ⟨m.setChannel n ((m.channel n).deliver ⟨label, body⟩), ?_, ?_, hother⟩
  · simp [send, m.wired.same, hn, Route.Table.holds_of_lookup hn]
  · rw [hself, Inbox.queue_deliver]

/-- Looking for messages finds what stands in the queue of the route, and leaves the rest of it. -/
theorem select_spec {m : Mesh μ} {sender receiver : String} {q : List (Envelope μ)}
    (h : m.queue? (sender, receiver) = some q) {s : Selector μ α} (hs : s.Stable) :
    ∃ m', m.select receiver sender s = .ok ((s q).map Prod.fst, m') ∧
      m'.queue? (sender, receiver) = some (s.left q) ∧
      ∀ route, route ≠ (sender, receiver) → m'.queue? route = m.queue? route := by
  obtain ⟨n, hn, rfl⟩ := queue?_eq_some.mp h
  obtain ⟨hfound, hleft⟩ := (m.channel n).poll_spec hs
  obtain ⟨hself, hother⟩ := queue?_setChannel hn ((m.channel n).poll s).2
  refine ⟨m.setChannel n ((m.channel n).poll s).2, ?_, ?_, hother⟩
  · have hheld := Route.Table.holds_of_lookup ((m.wired.same _).trans hn)
    simp [select, hn, hheld, hfound]
  · rw [hself, hleft]

theorem roles_of_send {m m' : Mesh μ} {sender receiver label : String} {body : μ}
    (h : m.send sender receiver label body = .ok m') : m'.roles = m.roles := by
  unfold send at h
  split at h
  · cases h
  · split at h <;> cases h
    rfl

theorem roles_of_select {m m' : Mesh μ} {sender receiver : String} {s : Selector μ α}
    {found : Option α} (h : m.select receiver sender s = .ok (found, m')) : m'.roles = m.roles := by
  unfold select at h
  split at h
  · cases h
  · dsimp only at h
    split at h <;> cases h
    rfl

theorem send_of_queue?_eq_none {m : Mesh μ} {sender receiver : String}
    (h : m.queue? (sender, receiver) = none) (label : String) (body : μ) :
    m.send sender receiver label body = .error (.unknownRole receiver) := by
  have hn : m.inboxes.lookup (sender, receiver) = none := by simpa [queue?, inbox?] using h
  simp [send, m.wired.same, hn]

theorem select_of_queue?_eq_none {m : Mesh μ} {sender receiver : String}
    (h : m.queue? (sender, receiver) = none) (s : Selector μ α) :
    m.select receiver sender s = .error (.unknownRole sender) := by
  have hn : m.inboxes.lookup (sender, receiver) = none := by simpa [queue?, inbox?] using h
  simp [select, hn]

theorem select_none {m : Mesh μ} {sender receiver : String} {q : List (Envelope μ)}
    (h : m.queue? (sender, receiver) = some q) {s : Selector μ α} (hs : s.Stable)
    (hnone : s q = none) : ∃ m', m.select receiver sender s = .ok (none, m') ∧
      ∀ route, m'.queue? route = m.queue? route := by
  obtain ⟨m', hselect, hq, hother⟩ := select_spec h hs
  rw [hnone] at hselect
  refine ⟨m', hselect, fun route => ?_⟩
  by_cases hr : route = (sender, receiver)
  · rw [hr, hq, h, Selector.left, hnone]
    rfl
  · exact hother route hr

end Mesh

end Parley
