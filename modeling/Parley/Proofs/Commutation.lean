import Parley.Proofs.Delivery

/-! Calls on a mesh that do not get in each other's way. What a call does depends on the queue of its
route alone, so calls on two routes never meet. On one route a message that is sent comes behind all
others, one that is taken leaves the order of the rest, and a look takes nothing. -/

namespace Parley

universe u

variable {μ : Type u}

namespace Selector

/-- Messages under two labels may be taken in either order. -/
theorem take_comm {label other : String} (hne : label ≠ other) {q left right : List (Envelope μ)}
    {x y : μ} (hx : take label q = some (x, left)) (hy : take other q = some (y, right)) :
    ∃ rest, take other left = some (y, rest) ∧ take label right = some (x, rest) := by
  induction q generalizing left right with
  | nil => simp [take] at hx
  | cons e q ih =>
    rw [take] at hx hy
    by_cases hl : e.label = label
    · have ho : e.label ≠ other := fun h => hne (hl.symm.trans h)
      rw [if_pos (by simpa using hl)] at hx
      rw [if_neg (by simpa using ho)] at hy
      cases hx
      obtain ⟨⟨_, rest⟩, hrest, hb⟩ := Option.map_eq_some_iff.mp hy
      cases hb
      exact ⟨rest, hrest, by rw [take, if_pos (by simpa using hl)]⟩
    · rw [if_neg (by simpa using hl)] at hx
      obtain ⟨⟨_, left'⟩, hleft, hb⟩ := Option.map_eq_some_iff.mp hx
      cases hb
      by_cases ho : e.label = other
      · rw [if_pos (by simpa using ho)] at hy
        cases hy
        exact ⟨left', by rw [take, if_pos (by simpa using ho)], hleft⟩
      · rw [if_neg (by simpa using ho)] at hy
        obtain ⟨⟨_, right'⟩, hright, hb⟩ := Option.map_eq_some_iff.mp hy
        cases hb
        obtain ⟨rest, hr, hl'⟩ := ih hleft hright
        refine ⟨e :: rest, ?_, ?_⟩
        · rw [take, if_neg (by simpa using ho), hr]
          rfl
        · rw [take, if_neg (by simpa using hl), hl']
          rfl

/-- A look does not miss a message under a label that it does not look for. -/
theorem findSome?_of_take {label : String} {labels : List String} (hl : label ∉ labels)
    {q rest : List (Envelope μ)} {x : μ} (h : take label q = some (x, rest)) :
    (rest.findSome? fun e => labels.idxOf? e.label) = q.findSome? fun e => labels.idxOf? e.label := by
  induction q generalizing rest with
  | nil => simp [take] at h
  | cons e q ih =>
    rw [take] at h
    by_cases he : e.label = label
    · rw [if_pos (by simpa using he)] at h
      cases h
      have hnone : labels.idxOf? e.label = none := by
        rw [List.idxOf?_eq_none_iff, he]
        exact hl
      rw [List.findSome?_cons, hnone]
    · rw [if_neg (by simpa using he)] at h
      obtain ⟨⟨_, rest'⟩, hrest, hb⟩ := Option.map_eq_some_iff.mp h
      cases hb
      rw [List.findSome?_cons, List.findSome?_cons, ih hrest]

theorem peek_of_take {label : String} {labels : List String} (hl : label ∉ labels)
    {q rest seen : List (Envelope μ)} {x : μ} {i : Nat} (h : take label q = some (x, rest))
    (hp : peek labels q = some (i, seen)) : seen = q ∧ peek labels rest = some (i, rest) := by
  rw [peek] at hp ⊢
  obtain ⟨j, hj, heq⟩ := Option.map_eq_some_iff.mp hp
  cases heq
  rw [findSome?_of_take hl h, hj]
  exact ⟨rfl, rfl⟩

end Selector

namespace Mesh

namespace Call

/-- The answer of a call that finds a queue on its route, and the queue it leaves, unless it has to
wait. -/
def effect? (q : List (Envelope μ)) : Call μ → Option (Answer μ × List (Envelope μ))
  | .send _ label body => some (.sent, q ++ [⟨label, body⟩])
  | .request (.recv _ label) => (Selector.take label q).map fun (body, rest) => (.received body, rest)
  | .request (.waitAny _ labels) => (Selector.peek labels q).map fun (i, rest) => (.index i, rest)

/-- Two calls on one route of which the one may change what the other does. -/
def Clashes : Call μ → Call μ → Prop
  | .send .., .send .. => True
  | .request (.recv _ label), .request (.recv _ other) => label = other
  | .request (.recv _ label), .request (.waitAny _ labels) => label ∈ labels
  | .request (.waitAny _ labels), .request (.recv _ label) => label ∈ labels
  | _, _ => False

variable {q : List (Envelope μ)} {a b : Call μ} {x y : Answer μ}

theorem effect?_append {request : Request} {left : List (Envelope μ)}
    (h : effect? q (.request request : Call μ) = some (x, left)) (e : Envelope μ) :
    effect? (q ++ [e]) (.request request : Call μ) = some (x, left ++ [e]) := by
  cases request with
  | recv sender label =>
    obtain ⟨⟨body, rest⟩, hrest, hb⟩ := Option.map_eq_some_iff.mp h
    cases hb
    rw [effect?, Selector.stable_take label q [e] body _ hrest]
    rfl
  | waitAny sender labels =>
    obtain ⟨⟨i, rest⟩, hrest, hb⟩ := Option.map_eq_some_iff.mp h
    cases hb
    rw [effect?, Selector.stable_peek labels q [e] i _ hrest]
    rfl

theorem effect?_waitAny {sender : String} {labels : List String} {left : List (Envelope μ)}
    (h : effect? q (.request (.waitAny sender labels) : Call μ) = some (x, left)) : left = q := by
  obtain ⟨⟨i, rest⟩, hrest, hb⟩ := Option.map_eq_some_iff.mp h
  cases hb
  obtain ⟨j, _, hp⟩ := Option.map_eq_some_iff.mp hrest
  cases hp
  rfl

theorem effect?_recv_waitAny {sender peer label : String} {labels : List String}
    (hl : label ∉ labels) {left right : List (Envelope μ)}
    (hx : effect? q (.request (.recv sender label) : Call μ) = some (x, left))
    (hy : effect? q (.request (.waitAny peer labels) : Call μ) = some (y, right)) :
    right = q ∧ effect? left (.request (.waitAny peer labels) : Call μ) = some (y, left) := by
  obtain ⟨⟨body, rest⟩, htake, hb⟩ := Option.map_eq_some_iff.mp hx
  cases hb
  obtain ⟨⟨i, seen⟩, hpeek, hb⟩ := Option.map_eq_some_iff.mp hy
  cases hb
  obtain ⟨hseen, hrest⟩ := Selector.peek_of_take hl htake hpeek
  exact ⟨hseen, by rw [effect?, hrest]; rfl⟩

/-- On one queue, calls that do not clash lead to the same answers and the same queue in either
order. -/
theorem effect?_comm (h : ¬ a.Clashes b) {left right : List (Envelope μ)}
    (hx : a.effect? q = some (x, left)) (hy : b.effect? q = some (y, right)) :
    ∃ rest, b.effect? left = some (y, rest) ∧ a.effect? right = some (x, rest) := by
  match a, b with
  | .send .., .send .. => exact absurd trivial h
  | .send .., .request _ =>
    cases hx
    exact ⟨_, effect?_append hy _, rfl⟩
  | .request _, .send .. =>
    cases hy
    exact ⟨_, rfl, effect?_append hx _⟩
  | .request (.recv _ label), .request (.recv _ other) =>
    obtain ⟨⟨body, rest⟩, hl, hb⟩ := Option.map_eq_some_iff.mp hx
    cases hb
    obtain ⟨⟨body', rest'⟩, ho, hb⟩ := Option.map_eq_some_iff.mp hy
    cases hb
    obtain ⟨last, hlast, hlast'⟩ := Selector.take_comm h hl ho
    exact ⟨last, by rw [effect?, hlast]; rfl, by rw [effect?, hlast']; rfl⟩
  | .request (.recv ..), .request (.waitAny ..) =>
    obtain ⟨rfl, hleft⟩ := effect?_recv_waitAny h hx hy
    exact ⟨left, hleft, hx⟩
  | .request (.waitAny ..), .request (.recv ..) =>
    obtain ⟨rfl, hright⟩ := effect?_recv_waitAny h hy hx
    exact ⟨right, hy, hright⟩
  | .request (.waitAny ..), .request (.waitAny ..) =>
    obtain rfl := effect?_waitAny hx
    obtain rfl := effect?_waitAny hy
    exact ⟨_, hy, hx⟩

end Call

variable {m : Mesh μ} {caller : String} {call : Call μ} {q : List (Envelope μ)}

theorem perform_of_effect? (h : m.queue? (call.route caller) = some q) {x : Answer μ}
    {left : List (Envelope μ)} (he : call.effect? q = some (x, left)) :
    ∃ m', m.perform caller call = (x, m') ∧ m'.queue? (call.route caller) = some left ∧
      ∀ route, route ≠ call.route caller → m'.queue? route = m.queue? route := by
  cases call with
  | send receiver label body =>
    cases he
    obtain ⟨m', hsend, hq, hother⟩ := send_spec h label body
    exact ⟨m', by simp [perform, hsend], hq, hother⟩
  | request request =>
    cases request with
    | recv sender label =>
      obtain ⟨⟨body, rest⟩, hfound, hb⟩ := Option.map_eq_some_iff.mp he
      cases hb
      obtain ⟨m', hselect, hq, hother⟩ := select_spec h (Selector.stable_take label)
      rw [hfound] at hselect
      rw [Selector.left, hfound] at hq
      exact ⟨m', by simp [perform, recv, hselect], hq, hother⟩
    | waitAny sender labels =>
      obtain ⟨⟨i, rest⟩, hfound, hb⟩ := Option.map_eq_some_iff.mp he
      cases hb
      obtain ⟨m', hselect, hq, hother⟩ := select_spec h (Selector.stable_peek labels)
      rw [hfound] at hselect
      rw [Selector.left, hfound] at hq
      exact ⟨m', by simp [perform, waitAny, hselect], hq, hother⟩

theorem exists_effect? (h : m.queue? (call.route caller) = some q)
    (hb : (m.perform caller call).1 ≠ .blocked) : ∃ x left, call.effect? q = some (x, left) := by
  cases he : call.effect? q with
  | some found => exact ⟨found.1, found.2, rfl⟩
  | none =>
    -- nothing is found, so the call has to wait
    refine absurd ?_ hb
    cases call with
    | send => cases he
    | request request =>
      cases request with
      | recv sender label =>
        have hnone := Option.map_eq_none_iff.mp he
        obtain ⟨m', hselect, _⟩ := select_none h (Selector.stable_take label) hnone
        simp [perform, recv, hselect]
      | waitAny sender labels =>
        have hnone := Option.map_eq_none_iff.mp he
        obtain ⟨m', hselect, _⟩ := select_none h (Selector.stable_peek labels) hnone
        simp [perform, waitAny, hselect]

/-- Two calls in either order: neither has to wait for the other, each gets the answer that it gets
alone, and the same messages are left. -/
structure Commute (m : Mesh μ) (a b : String × Call μ) : Prop where
  first_unblocked : ((m.perform b.1 b.2).2.perform a.1 a.2).1 ≠ .blocked
  second_unblocked : ((m.perform a.1 a.2).2.perform b.1 b.2).1 ≠ .blocked
  first_answer : ((m.perform b.1 b.2).2.perform a.1 a.2).1 = (m.perform a.1 a.2).1
  second_answer : ((m.perform a.1 a.2).2.perform b.1 b.2).1 = (m.perform b.1 b.2).1
  queues : ∀ route, ((m.perform a.1 a.2).2.perform b.1 b.2).2.queue? route =
    ((m.perform b.1 b.2).2.perform a.1 a.2).2.queue? route

/-- Calls that are on different routes or do not clash. -/
def Independent (a b : String × Call μ) : Prop :=
  a.2.route a.1 = b.2.route b.1 → ¬ a.2.Clashes b.2

section Order

variable {a b : String × Call μ}

theorem Commute.symm (h : m.Commute a b) : m.Commute b a :=
  ⟨h.second_unblocked, h.first_unblocked, h.second_answer, h.first_answer,
    fun route => (h.queues route).symm⟩

theorem commute_of_answers (ha : (m.perform a.1 a.2).1 ≠ .blocked)
    (hb : (m.perform b.1 b.2).1 ≠ .blocked)
    (first : ((m.perform b.1 b.2).2.perform a.1 a.2).1 = (m.perform a.1 a.2).1)
    (second : ((m.perform a.1 a.2).2.perform b.1 b.2).1 = (m.perform b.1 b.2).1)
    (queues : ∀ route, ((m.perform a.1 a.2).2.perform b.1 b.2).2.queue? route =
      ((m.perform b.1 b.2).2.perform a.1 a.2).2.queue? route) : m.Commute a b :=
  ⟨first ▸ ha, second ▸ hb, first, second, queues⟩

/-- A call that names an unknown role fails at any time and changes nothing. -/
theorem commute_of_queue?_eq_none (h : m.queue? (a.2.route a.1) = none)
    (ha : (m.perform a.1 a.2).1 ≠ .blocked) (hb : (m.perform b.1 b.2).1 ≠ .blocked) :
    m.Commute a b := by
  have hlater : (m.perform b.1 b.2).2.queue? (a.2.route a.1) = none := perform_queue?_eq_none.mpr h
  refine commute_of_answers ha hb ?_ ?_ ?_
  · rw [perform_of_queue?_eq_none h, perform_of_queue?_eq_none hlater]
  · rw [perform_of_queue?_eq_none h]
  · intro route
    rw [perform_of_queue?_eq_none h, perform_of_queue?_eq_none hlater]

theorem commute_of_route_ne (hne : a.2.route a.1 ≠ b.2.route b.1)
    {q r : List (Envelope μ)} (hq : m.queue? (a.2.route a.1) = some q)
    (hr : m.queue? (b.2.route b.1) = some r) (ha : (m.perform a.1 a.2).1 ≠ .blocked)
    (hb : (m.perform b.1 b.2).1 ≠ .blocked) : m.Commute a b := by
  obtain ⟨x, left, hx⟩ := exists_effect? hq ha
  obtain ⟨y, right, hy⟩ := exists_effect? hr hb
  obtain ⟨ma, hpa, hselfa, hothera⟩ := perform_of_effect? hq hx
  obtain ⟨mb, hpb, hselfb, hotherb⟩ := perform_of_effect? hr hy
  obtain ⟨mab, hpab, hselfab, hotherab⟩ := perform_of_effect? ((hothera _ hne.symm).trans hr) hy
  obtain ⟨mba, hpba, hselfba, hotherba⟩ := perform_of_effect? ((hotherb _ hne).trans hq) hx
  refine commute_of_answers ha hb ?_ ?_ ?_
  · rw [hpa, hpb, hpba]
  · rw [hpa, hpb, hpab]
  · intro route
    rw [hpa, hpb, hpab, hpba]
    by_cases hra : route = a.2.route a.1
    · rw [hra, hotherab _ hne, hselfa, hselfba]
    · rw [hotherba _ hra]
      by_cases hrb : route = b.2.route b.1
      · rw [hrb, hselfab, hselfb]
      · rw [hotherab _ hrb, hothera _ hra, hotherb _ hrb]

theorem commute_of_not_clashes (hroute : a.2.route a.1 = b.2.route b.1) (hc : ¬ a.2.Clashes b.2)
    {q : List (Envelope μ)} (hq : m.queue? (a.2.route a.1) = some q)
    (ha : (m.perform a.1 a.2).1 ≠ .blocked) (hb : (m.perform b.1 b.2).1 ≠ .blocked) :
    m.Commute a b := by
  have hqb : m.queue? (b.2.route b.1) = some q := hroute ▸ hq
  obtain ⟨x, left, hx⟩ := exists_effect? hq ha
  obtain ⟨y, right, hy⟩ := exists_effect? hqb hb
  obtain ⟨rest, hab, hba⟩ := Call.effect?_comm hc hx hy
  obtain ⟨ma, hpa, hselfa, hothera⟩ := perform_of_effect? hq hx
  obtain ⟨mb, hpb, hselfb, hotherb⟩ := perform_of_effect? hqb hy
  obtain ⟨mab, hpab, hselfab, hotherab⟩ := perform_of_effect? (hroute ▸ hselfa) hab
  obtain ⟨mba, hpba, hselfba, hotherba⟩ := perform_of_effect? (hroute ▸ hselfb) hba
  refine commute_of_answers ha hb ?_ ?_ ?_
  · rw [hpa, hpb, hpba]
  · rw [hpa, hpb, hpab]
  · intro route
    rw [hpa, hpb, hpab, hpba]
    by_cases hr : route = a.2.route a.1
    · rw [hr, hselfba, hroute, hselfab]
    · have hrb : route ≠ b.2.route b.1 := hroute ▸ hr
      rw [hotherab _ hrb, hotherba _ hr, hothera _ hr, hotherb _ hrb]

end Order

/-- Calls that need not wait and are independent may be made in either order. -/
theorem commute_of_independent (m : Mesh μ) (a b : String × Call μ)
    (ha : (m.perform a.1 a.2).1 ≠ .blocked) (hb : (m.perform b.1 b.2).1 ≠ .blocked)
    (h : Independent a b) : m.Commute a b := by
  cases hqa : m.queue? (a.2.route a.1) with
  | none => exact commute_of_queue?_eq_none hqa ha hb
  | some q =>
    cases hqb : m.queue? (b.2.route b.1) with
    | none => exact (commute_of_queue?_eq_none hqb hb ha).symm
    | some r =>
      by_cases hroute : a.2.route a.1 = b.2.route b.1
      · exact commute_of_not_clashes hroute (h hroute) hqa ha hb
      · exact commute_of_route_ne hroute hqa hqb ha hb

/-- Three messages on one route. -/
def crossing : Mesh Nat :=
  ((ofRoles ["A", "B"]).play [("A", .send "B" "x" 1), ("A", .send "B" "y" 2),
    ("A", .send "B" "x" 3)]).2

/-- One branch of a role takes a message from behind the one that another branch looks at. -/
theorem crossing_commute :
    (crossing.perform "B" (.request (.recv "A" "y"))).1 ≠ .blocked ∧
      (crossing.perform "B" (.request (.waitAny "A" ["z", "x"]))).1 ≠ .blocked ∧
      crossing.Commute ("B", .request (.recv "A" "y")) ("B", .request (.waitAny "A" ["z", "x"])) := by
  have hrecv : (crossing.perform "B" (.request (.recv "A" "y"))).1 = .received 2 := by rfl
  have hwait : (crossing.perform "B" (.request (.waitAny "A" ["z", "x"]))).1 = .index 1 := by rfl
  have hr : (crossing.perform "B" (.request (.recv "A" "y"))).1 ≠ .blocked := by simp [hrecv]
  have hw : (crossing.perform "B" (.request (.waitAny "A" ["z", "x"]))).1 ≠ .blocked := by
    simp [hwait]
  refine ⟨hr, hw, commute_of_independent crossing _ _ hr hw fun _ => ?_⟩
  show "y" ∉ ["z", "x"]
  decide

end Mesh

end Parley
