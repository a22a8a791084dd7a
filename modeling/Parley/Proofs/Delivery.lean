import Mathlib.Data.List.Perm.Subperm
import Mathlib.Data.List.Perm.Basic
import Parley.Proofs.Queue
import Parley.Session.Stage

/-! Delivery over a mesh. The endpoints of a mesh make calls in any order. Each route is a queue of its
own: what is received on it under a label comes in the order in which it was sent, and what is left on
it is what was sent less what was received. -/

namespace Parley

universe u

variable {μ : Type u}

section Lists

variable [DecidableEq μ]

theorem diff_append_of_subperm {taken first : List (Envelope μ)} (h : taken.Subperm first)
    (last : List (Envelope μ)) : (first ++ last).diff taken = first.diff taken ++ last := by
  induction taken generalizing first with
  | nil => simp
  | cons e taken ih =>
    have he : e ∈ first := h.subset List.mem_cons_self
    have ht : taken.Subperm (first.erase e) := by simpa using h.erase e
    rw [List.diff_cons, List.diff_cons, List.erase_append_left _ he, ih ht]

/-- From the messages `before` and then `sent` on a route, `received` were taken and `after` stayed. -/
structure Delivered (before sent received after : List (Envelope μ)) : Prop where
  in_order : ∀ label, (before ++ sent).filter (·.label == label) =
    (received ++ after).filter (·.label == label)
  left : after = (before ++ sent).diff received

namespace Delivered

variable {before sent received after : List (Envelope μ)}

theorem refl (q : List (Envelope μ)) : Delivered q [] [] q :=
  ⟨by simp, by simp⟩

theorem send (q : List (Envelope μ)) (e : Envelope μ) : Delivered q [e] [] (q ++ [e]) :=
  ⟨by simp, by simp⟩

theorem perm (h : Delivered before sent received after) :
    (before ++ sent).Perm (received ++ after) := by
  rw [List.perm_iff_count]
  intro e
  have hfilter := congrArg (List.count e) (h.in_order e.label)
  rwa [List.count_filter (by simp), List.count_filter (by simp)] at hfilter

theorem trans {sent' received' last : List (Envelope μ)} (h : Delivered before sent received after)
    (h' : Delivered after sent' received' last) :
    Delivered before (sent ++ sent') (received ++ received') last := by
  constructor
  · intro label
    have hfirst := h.in_order label
    have hlast := h'.in_order label
    simp only [List.filter_append] at hfirst hlast ⊢
    rw [← List.append_assoc, hfirst, List.append_assoc, hlast, List.append_assoc]
  · have hsub : received.Subperm (before ++ sent) :=
      (List.sublist_append_left received after).subperm.trans h.perm.symm.subperm
    rw [← List.append_assoc, List.diff_append, diff_append_of_subperm hsub, ← h.left]
    exact h'.left

end Delivered

namespace Selector

/-- The message that is taken is the oldest under its label. -/
theorem take_eq_some {label : String} {q rest : List (Envelope μ)} {body : μ}
    (h : take label q = some (body, rest)) :
    rest = q.erase ⟨label, body⟩ ∧
      ∀ other, q.filter (·.label == other) =
        (⟨label, body⟩ :: rest).filter (·.label == other) := by
  induction q generalizing rest with
  | nil => simp [take] at h
  | cons e q ih =>
    rw [take] at h
    by_cases he : e.label = label
    · rw [if_pos (by simpa using he)] at h
      cases h
      subst he
      simp
    · rw [if_neg (by simpa using he)] at h
      obtain ⟨⟨found, left⟩, hl, hb⟩ := Option.map_eq_some_iff.mp h
      cases hb
      obtain ⟨hleft, hfilter⟩ := ih hl
      have hne : e ≠ ⟨label, body⟩ := by
        rintro rfl
        exact he rfl
      refine ⟨?_, ?_⟩
      · rw [List.erase_cons_tail (by simpa using hne), hleft]
      · intro other
        have hq := hfilter other
        by_cases ho : e.label = other
        · have hlo : label ≠ other := by
            rintro rfl
            exact he ho
          simp only [List.filter_cons, ho, hlo, beq_iff_eq] at hq ⊢
          simp [hq]
        · simp only [List.filter_cons, beq_iff_eq, if_neg ho] at hq ⊢
          exact hq

theorem delivered_of_take {label : String} {q rest : List (Envelope μ)} {body : μ}
    (h : take label q = some (body, rest)) : Delivered q [] [⟨label, body⟩] rest := by
  obtain ⟨hleft, hfilter⟩ := take_eq_some h
  refine ⟨?_, ?_⟩
  · intro other
    simpa using hfilter other
  · simpa [List.diff_cons] using hleft

end Selector

end Lists

namespace Mesh

/-- A call that a role makes at its endpoint. -/
inductive Call (μ : Type u) where
  | send (receiver label : String) (body : μ)
  | request (request : Request)

/-- The other role that a call names. -/
def Call.peer : Call μ → String
  | .send receiver _ _ => receiver
  | .request (.recv sender _) => sender
  | .request (.waitAny sender _) => sender

/-- The route that a call by `caller` is about. -/
def Call.route (caller : String) : Call μ → Route
  | .send receiver _ _ => (caller, receiver)
  | .request (.recv sender _) => (sender, caller)
  | .request (.waitAny sender _) => (sender, caller)

def perform (m : Mesh μ) (caller : String) : Call μ → Answer μ × Mesh μ
  | .send receiver label body =>
    match m.send caller receiver label body with
    | .error e => (.failed e, m)
    | .ok m => (.sent, m)
  | .request (.recv sender label) =>
    match m.recv caller sender label with
    | .error e => (.failed e, m)
    | .ok (found, m) => (found.elim .blocked .received, m)
  | .request (.waitAny sender labels) =>
    match m.waitAny caller sender labels with
    | .error e => (.failed e, m)
    | .ok (found, m) => (found.elim .blocked .index, m)

/-- A call with its answer. -/
structure Turn (μ : Type u) where
  caller : String
  call : Call μ
  answer : Answer μ

namespace Turn

def route (t : Turn μ) : Route := t.call.route t.caller

/-- The message that the turn put on its route. -/
def sent? (t : Turn μ) : Option (Envelope μ) :=
  match t.call, t.answer with
  | .send _ label body, .sent => some ⟨label, body⟩
  | _, _ => none

/-- The message that the turn took off its route. -/
def received? (t : Turn μ) : Option (Envelope μ) :=
  match t.call, t.answer with
  | .request (.recv _ label), .received body => some ⟨label, body⟩
  | _, _ => none

end Turn

def sent (turns : List (Turn μ)) (route : Route) : List (Envelope μ) :=
  (turns.filter (·.route == route)).filterMap Turn.sent?

def received (turns : List (Turn μ)) (route : Route) : List (Envelope μ) :=
  (turns.filter (·.route == route)).filterMap Turn.received?

/-- Makes calls one after the other, each by the role it stands with. -/
def play (m : Mesh μ) : List (String × Call μ) → List (Turn μ) × Mesh μ
  | [] => ([], m)
  | (caller, call) :: calls =>
    let (answer, m) := m.perform caller call
    let (turns, m) := m.play calls
    (⟨caller, call, answer⟩ :: turns, m)

theorem perform_of_queue?_eq_none {m : Mesh μ} {caller : String} {call : Call μ}
    (h : m.queue? (call.route caller) = none) :
    m.perform caller call = (.failed (.unknownRole call.peer), m) := by
  cases call with
  | send receiver label body => simp [perform, send_of_queue?_eq_none h, Call.peer]
  | request request =>
    cases request with
    | recv sender label => simp [perform, recv, select_of_queue?_eq_none h, Call.peer]
    | waitAny sender labels => simp [perform, waitAny, select_of_queue?_eq_none h, Call.peer]

/-- What a call can answer, and what it makes of the queue of its route. -/
inductive Call.Does (q : List (Envelope μ)) : Call μ → Answer μ → List (Envelope μ) → Prop where
  | sent {receiver label : String} {body : μ} :
      Does q (.send receiver label body) .sent (q ++ [⟨label, body⟩])
  | received {sender label : String} {body : μ} {rest : List (Envelope μ)} :
      Selector.take label q = some (body, rest) →
      Does q (.request (.recv sender label)) (.received body) rest
  | index {sender : String} {labels : List String} {i : Nat} :
      Does q (.request (.waitAny sender labels)) (.index i) q
  | blocked {request : Request} : Does q (.request request) .blocked q

/-- A call on a route does something to the queue of that route, and nothing to any other. -/
theorem perform_spec {m : Mesh μ} {caller : String} {call : Call μ} {q : List (Envelope μ)}
    (h : m.queue? (call.route caller) = some q) :
    ∃ answer m' q', m.perform caller call = (answer, m') ∧ call.Does q answer q' ∧
      m'.queue? (call.route caller) = some q' ∧
      ∀ route, route ≠ call.route caller → m'.queue? route = m.queue? route := by
  cases call with
  | send receiver label body =>
    obtain ⟨m', hsend, hq, hother⟩ := send_spec h label body
    exact ⟨.sent, m', _, by simp [perform, hsend], .sent, hq, hother⟩
  | request request =>
    cases request with
    | recv sender label =>
      obtain ⟨m', hselect, hq, hother⟩ := select_spec h (Selector.stable_take label)
      cases ht : Selector.take label q with
      | none =>
        rw [ht] at hselect
        rw [Selector.left, ht] at hq
        exact ⟨.blocked, m', q, by simp [perform, recv, hselect], .blocked, hq, hother⟩
      | some found =>
        rw [ht] at hselect
        rw [Selector.left, ht] at hq
        exact ⟨.received found.1, m', found.2, by simp [perform, recv, hselect], .received ht, hq,
          hother⟩
    | waitAny sender labels =>
      obtain ⟨m', hselect, hq, hother⟩ := select_spec h (Selector.stable_peek labels)
      have hleft : (Selector.peek labels).left q = q := by
        rw [Selector.left, Selector.peek]
        cases q.findSome? fun e => labels.idxOf? e.label <;> rfl
      rw [hleft] at hq
      cases hp : Selector.peek labels q with
      | none =>
        rw [hp] at hselect
        exact ⟨.blocked, m', q, by simp [perform, waitAny, hselect], .blocked, hq, hother⟩
      | some found =>
        rw [hp] at hselect
        exact ⟨.index found.1, m', q, by simp [perform, waitAny, hselect], .index, hq, hother⟩

theorem perform_other {m : Mesh μ} {caller : String} {call : Call μ} {route : Route}
    (h : route ≠ call.route caller) : (m.perform caller call).2.queue? route = m.queue? route := by
  cases hq : m.queue? (call.route caller) with
  | none => rw [perform_of_queue?_eq_none hq]
  | some before =>
    obtain ⟨answer, m', after, hp, -, -, hother⟩ := perform_spec hq
    rw [hp]
    exact hother route h

theorem Call.Does.ne_failed {q q' : List (Envelope μ)} {call : Call μ} {answer : Answer μ}
    (h : call.Does q answer q') (e : SessionError) : answer ≠ .failed e := by
  cases h <;> simp

theorem Call.Does.eq_of_unmoved {q q' : List (Envelope μ)} {call : Call μ} {answer : Answer μ}
    (h : call.Does q answer q') (hs : answer ≠ .sent) (hr : ∀ body, answer ≠ .received body) :
    q' = q := by
  cases h with
  | sent => exact absurd rfl hs
  | received => exact absurd rfl (hr _)
  | index => rfl
  | blocked => rfl

theorem delivered_of_does [DecidableEq μ] {q q' : List (Envelope μ)} {t : Turn μ}
    (h : t.call.Does q t.answer q') :
    Delivered q (sent [t] t.route) (received [t] t.route) q' := by
  obtain ⟨caller, call, answer⟩ := t
  simp only [sent, received, List.filter_cons, beq_self_eq_true, if_true, List.filter_nil]
  cases h with
  | sent => exact .send q _
  | received ht => exact Selector.delivered_of_take ht
  | index => exact .refl q
  | blocked => cases ‹Request› <;> exact .refl q

theorem delivered_of_ne [DecidableEq μ] (q : List (Envelope μ)) {t : Turn μ} {route : Route}
    (h : route ≠ t.route) : Delivered q (sent [t] route) (received [t] route) q := by
  have hne : (t.route == route) = false := by simpa using Ne.symm h
  simp only [sent, received, List.filter_cons, hne, List.filter_nil]
  exact .refl q

/-- One call, whoever makes it, keeps account of every route. -/
theorem perform_delivered [DecidableEq μ] {m : Mesh μ} {route : Route} {q : List (Envelope μ)}
    (h : m.queue? route = some q) (caller : String) (call : Call μ) :
    ∃ q', (m.perform caller call).2.queue? route = some q' ∧
      Delivered q (sent [⟨caller, call, (m.perform caller call).1⟩] route)
        (received [⟨caller, call, (m.perform caller call).1⟩] route) q' := by
  by_cases hr : route = call.route caller
  · subst hr
    obtain ⟨answer, m', after, hp, hdoes, hself, -⟩ := perform_spec h
    rw [hp]
    exact ⟨after, hself, delivered_of_does (t := ⟨caller, call, answer⟩) hdoes⟩
  · exact ⟨q, (perform_other hr).trans h, delivered_of_ne q hr⟩

theorem sent_cons (t : Turn μ) (turns : List (Turn μ)) (route : Route) :
    sent (t :: turns) route = sent [t] route ++ sent turns route := by
  simp only [sent, ← List.filterMap_append, ← List.filter_append, List.singleton_append]

theorem received_cons (t : Turn μ) (turns : List (Turn μ)) (route : Route) :
    received (t :: turns) route = received [t] route ++ received turns route := by
  simp only [received, ← List.filterMap_append, ← List.filter_append, List.singleton_append]

/-- Any number of calls keep account of every route. -/
theorem play_delivered [DecidableEq μ] {m : Mesh μ} {route : Route} {q : List (Envelope μ)}
    (h : m.queue? route = some q) (calls : List (String × Call μ)) :
    ∃ q', (m.play calls).2.queue? route = some q' ∧
      Delivered q (sent (m.play calls).1 route) (received (m.play calls).1 route) q' := by
  induction calls generalizing m q with
  | nil => exact ⟨q, h, .refl q⟩
  | cons c calls ih =>
    obtain ⟨caller, call⟩ := c
    obtain ⟨q₁, hq₁, hfirst⟩ := perform_delivered h caller call
    obtain ⟨q₂, hq₂, hrest⟩ := ih hq₁
    refine ⟨q₂, hq₂, ?_⟩
    rw [play, sent_cons, received_cons]
    exact hfirst.trans hrest

/-- Which routes there are does not change. -/
theorem perform_queue?_eq_none {m : Mesh μ} {caller : String} {call : Call μ} {route : Route} :
    (m.perform caller call).2.queue? route = none ↔ m.queue? route = none := by
  cases hq : m.queue? (call.route caller) with
  | none => rw [perform_of_queue?_eq_none hq]
  | some before =>
    obtain ⟨answer, m', after, hp, -, hself, hother⟩ := perform_spec hq
    rw [hp]
    by_cases hr : route = call.route caller
    · simp [hr, hself, hq]
    · rw [hother route hr]

theorem play_queue?_eq_none {m : Mesh μ} {calls : List (String × Call μ)} {route : Route} :
    (m.play calls).2.queue? route = none ↔ m.queue? route = none := by
  induction calls generalizing m with
  | nil => rfl
  | cons c calls ih => exact ih.trans perform_queue?_eq_none

theorem perform_roles (m : Mesh μ) (caller : String) (call : Call μ) :
    (m.perform caller call).2.roles = m.roles := by
  cases call with
  | send receiver label body =>
    rw [perform]
    split
    · rfl
    · exact roles_of_send ‹_›
  | request request =>
    cases request with
    | recv sender label =>
      rw [perform]
      split
      · rfl
      · exact roles_of_select ‹_›
    | waitAny sender labels =>
      rw [perform]
      split
      · rfl
      · exact roles_of_select ‹_›

theorem play_roles (m : Mesh μ) (calls : List (String × Call μ)) :
    (m.play calls).2.roles = m.roles := by
  induction calls generalizing m with
  | nil => rfl
  | cons c calls ih => exact (ih _).trans (perform_roles m c.1 c.2)

/-- Nothing goes over a route that does not exist. -/
theorem play_of_queue?_eq_none {m : Mesh μ} {route : Route} (h : m.queue? route = none)
    (calls : List (String × Call μ)) :
    sent (m.play calls).1 route = [] ∧ received (m.play calls).1 route = [] := by
  induction calls generalizing m with
  | nil => exact ⟨rfl, rfl⟩
  | cons c calls ih =>
    obtain ⟨caller, call⟩ := c
    obtain ⟨hs, hr⟩ := ih (perform_queue?_eq_none.mpr h)
    rw [play, sent_cons, received_cons, hs, hr, List.append_nil, List.append_nil]
    by_cases he : call.route caller = route
    · rw [perform_of_queue?_eq_none (he ▸ h)]
      cases call with
      | send => exact ⟨by simp [sent, Turn.sent?], by simp [received, Turn.received?]⟩
      | request request =>
        cases request <;> exact ⟨by simp [sent, Turn.sent?], by simp [received, Turn.received?]⟩
    · simp [sent, received, Turn.route, he]

/-- What is asked of a mesh for some roles after some turns. -/
structure Faithful (roles : List String) (turns : List (Turn μ)) (m : Mesh μ) [DecidableEq μ] :
    Prop where
  /-- What was received on a route under a label was sent first, and in this order. -/
  in_order : ∀ route label, (received turns route).filter (·.label == label) <+:
    (sent turns route).filter (·.label == label)
  /-- What is left on a route is what was sent less what was received. -/
  left : ∀ sender ∈ roles, ∀ receiver ∈ roles, m.queue? (sender, receiver) =
    some ((sent turns (sender, receiver)).diff (received turns (sender, receiver)))
  /-- Looking at a queue changes none. -/
  looked : ∀ caller sender labels route,
    (m.perform caller (.request (.waitAny sender labels))).2.queue? route = m.queue? route
  /-- Nor does a call that has to wait or fails. -/
  unmoved : ∀ caller call,
    (m.perform caller call).1 = .blocked ∨ (∃ e, (m.perform caller call).1 = .failed e) →
    ∀ route, (m.perform caller call).2.queue? route = m.queue? route
  endpoint : ∀ role, m.checkRole role = if role ∈ roles then .ok () else .error (.unknownRole role)
  /-- A call at an endpoint fails if it names an unknown role, and only then. -/
  failed : ∀ caller, m.checkRole caller = .ok () → ∀ call e,
    (m.perform caller call).1 = .failed e ↔ call.peer ∉ roles ∧ e = .unknownRole call.peer

theorem perform_unmoved {m : Mesh μ} {caller : String} {call : Call μ}
    (hs : (m.perform caller call).1 ≠ .sent)
    (hr : ∀ body, (m.perform caller call).1 ≠ .received body) (route : Route) :
    (m.perform caller call).2.queue? route = m.queue? route := by
  cases hq : m.queue? (call.route caller) with
  | none => rw [perform_of_queue?_eq_none hq]
  | some before =>
    obtain ⟨answer, m', after, hp, hdoes, hself, hother⟩ := perform_spec hq
    rw [hp] at hs hr ⊢
    by_cases he : route = call.route caller
    · rw [he, hself, hq, hdoes.eq_of_unmoved hs hr]
    · exact hother route he

theorem perform_waitAny_ne (m : Mesh μ) (caller sender : String) (labels : List String) :
    (m.perform caller (.request (.waitAny sender labels))).1 ≠ .sent ∧
      ∀ body, (m.perform caller (.request (.waitAny sender labels))).1 ≠ .received body := by
  rw [perform]
  split
  · simp
  · rename_i found _ _
    cases found <;> simp

theorem perform_eq_failed {m : Mesh μ} {caller : String} {call : Call μ} {e : SessionError} :
    (m.perform caller call).1 = .failed e ↔
      m.queue? (call.route caller) = none ∧ e = .unknownRole call.peer := by
  cases hq : m.queue? (call.route caller) with
  | none =>
    rw [perform_of_queue?_eq_none hq]
    simp [eq_comm]
  | some before =>
    obtain ⟨answer, m', after, hp, hdoes, -, -⟩ := perform_spec hq
    simp [hp, hdoes.ne_failed e]

theorem checkRole_eq (m : Mesh μ) (role : String) :
    m.checkRole role = if role ∈ m.roles then .ok () else .error (.unknownRole role) := by
  simp [checkRole]

theorem Call.route_mem_routes {roles : List String} {caller : String} (h : caller ∈ roles)
    (call : Call μ) : call.route caller ∈ routes roles ↔ call.peer ∈ roles := by
  cases call with
  | send => simp [Call.route, Call.peer, mem_routes, h]
  | request request => cases request <;> simp [Call.route, Call.peer, mem_routes, h]

/-- Whatever calls are made in whatever order, a mesh delivers what is sent, and only that. -/
theorem faithful_play [DecidableEq μ] (roles : List String) (calls : List (String × Call μ)) :
    ((ofRoles roles).play calls).2.Faithful roles ((ofRoles roles : Mesh μ).play calls).1 := by
  have hroles : ((ofRoles roles : Mesh μ).play calls).2.roles = roles := play_roles _ calls
  have hroute (route : Route) : (ofRoles roles : Mesh μ).queue? route =
      if route ∈ routes roles then some [] else none := queue?_ofRoles_eq roles route
  constructor
  · intro route label
    by_cases hr : route ∈ routes roles
    · obtain ⟨q, -, hd⟩ := play_delivered ((hroute route).trans (if_pos hr)) calls
      have h := hd.in_order label
      rw [List.nil_append, List.filter_append] at h
      exact ⟨_, h.symm⟩
    · obtain ⟨-, hrec⟩ := play_of_queue?_eq_none ((hroute route).trans (if_neg hr)) calls
      simp [hrec]
  · intro sender hs receiver hr
    have hq := (hroute (sender, receiver)).trans (if_pos (mem_routes.mpr ⟨hs, hr⟩))
    obtain ⟨q, hq, hd⟩ := play_delivered hq calls
    rw [hq, hd.left, List.nil_append]
  · intro caller sender labels route
    obtain ⟨hs, hr⟩ := perform_waitAny_ne ((ofRoles roles).play calls).2 caller sender labels
    exact perform_unmoved hs hr route
  · intro caller call hidle route
    apply perform_unmoved
    · rcases hidle with h | ⟨e, h⟩ <;> simp [h]
    · rcases hidle with h | ⟨e, h⟩ <;> simp [h]
  · intro role
    rw [checkRole_eq, hroles]
  · intro caller hc call e
    have hmem : caller ∈ roles := by
      rw [checkRole_eq, hroles] at hc
      by_contra hn
      simp [hn] at hc
    rw [perform_eq_failed, play_queue?_eq_none, hroute, ← call.route_mem_routes hmem]
    simp

/-- Two messages overtake one another on a mesh whose first role is listed twice. -/
example : ((ofRoles ["A", "B", "A"] : Mesh Nat).play [("A", .send "B" "x" 1),
    ("A", .send "B" "y" 2), ("A", .send "A" "x" 3), ("B", .request (.recv "A" "y")),
    ("B", .request (.waitAny "A" ["y", "x"]))]).2.queue? ("A", "B") = some [⟨"x", 1⟩] := by
  decide

end Mesh

end Parley
