import Mathlib.Logic.Relation
import Parley.Proofs.Delivery
import Parley.Proofs.Drive
import Parley.Proofs.SourceCode

/-! Generated sources are closed. The roles that their code looks up are among those that the mesh
connects, so no request fails, and every payload type is native or has its item in the source. -/

namespace Parley

open Outcome

/-- The role whose session is held. -/
def Holder.role : Holder → String
  | .post ⟨_, session⟩ => session.role
  | .pending _ joiner => joiner.session.role

section Roles

variable {hs : List Holder} {f f' : Forks} {role : String}

theorem Session.role_of_goTo {s : Session} {x : Landing} (h : s.goTo x f = .ok (hs, f')) :
    ∀ held ∈ hs, held.role = s.role := by
  obtain ⟨⟨post?, f₁⟩, harrive, h⟩ := bind_eq_ok.mp h
  obtain ⟨rfl, rfl⟩ := Prod.mk.inj (pure_eq_ok.mp h)
  intro held hheld
  obtain ⟨post, hpost, rfl⟩ := List.mem_map.mp hheld
  cases x with
  | state name =>
    cases harrive
    cases List.mem_singleton.mp hpost
    rfl
  | join par =>
    obtain ⟨⟨_, _⟩, _, harrive⟩ := bind_eq_ok.mp harrive
    cases harrive
    simp at hpost
  | finish =>
    obtain ⟨_, _, harrive⟩ := bind_eq_ok.mp harrive
    cases harrive
    simp at hpost

theorem Session.role_of_goAll {pairs : List (Session × Landing)}
    (hpairs : ∀ e ∈ pairs, e.1.role = role) (h : Session.goAll pairs f = .ok (hs, f')) :
    ∀ held ∈ hs, held.role = role := by
  induction pairs generalizing f hs with
  | nil =>
    cases h
    simp
  | cons e pairs ih =>
    obtain ⟨he, hpairs⟩ := List.forall_mem_cons.mp hpairs
    obtain ⟨⟨hs₁, f₁⟩, hfirst, h⟩ := bind_eq_ok.mp h
    obtain ⟨⟨hs₂, f₂⟩, hrest, h⟩ := bind_eq_ok.mp h
    cases h
    rw [List.forall_mem_append]
    exact ⟨he ▸ Session.role_of_goTo hfirst, ih hpairs hrest⟩

theorem Session.role_of_forkTo {s : Session} {join : String} {xs : List Landing}
    (h : s.forkTo join xs f = .ok (hs, f')) : ∀ held ∈ hs, held.role = s.role := by
  obtain ⟨⟨hs₁, f₁⟩, hall, h⟩ := bind_eq_ok.mp h
  cases h
  refine List.forall_mem_cons.mpr ⟨rfl, Session.role_of_goAll ?_ hall⟩
  intro e he
  obtain ⟨i, _, hi⟩ := List.mem_map.mp (List.of_mem_zip he).1
  rw [← hi]
  rfl

/-- The methods of a role leave sessions of the same role. -/
theorem Projection.Method.role_eq {p : Projection} {held : Holder} {opened : List NodeId}
    {method : Forks → Moved} (hm : p.Method held opened method) (h : method f = .ok (hs, f')) :
    ∀ left ∈ hs, left.role = held.role := by
  cases hm with
  | message => exact Session.role_of_goTo h
  | choice => exact Session.role_of_goTo h
  | fork => exact Session.role_of_forkTo h
  | @join r x j =>
    obtain ⟨s, hjoin, h⟩ := bind_eq_ok.mp h
    obtain ⟨_, _, hs⟩ := bind_eq_ok.mp hjoin
    cases hs
    exact Session.role_of_goTo h

end Roles

namespace Crew

variable {p : Projection} {c c' : Crew}

theorem Step.role_eq (hstep : Step p c c') (h : ∀ held ∈ c.holders, held.role = p.protagonist) :
    ∀ held ∈ c'.holders, held.role = p.protagonist := by
  cases hstep with
  | start _ hgo =>
    rw [List.forall_mem_append]
    exact ⟨Session.role_of_goTo hgo, h⟩
  | call hsplit hm hok =>
    rw [hsplit, List.forall_mem_append, List.forall_mem_cons] at h
    obtain ⟨hbefore, hheld, hafter⟩ := h
    simp only [List.forall_mem_append]
    exact ⟨fun left hleft => (hm.role_eq hok left hleft).trans hheld, hbefore, hafter⟩
  | drop hsplit =>
    rw [hsplit, List.forall_mem_append, List.forall_mem_cons] at h
    exact List.forall_mem_append.mpr ⟨h.1, h.2.2⟩

end Crew

/-- A request that does not fail on a mesh if it is made by a session of the role `caller`. -/
def Api.Request.Granted {μ : Type} (m : Mesh μ) (caller : String) (request : Request) : Prop :=
  ∃ role, request.role? = some role ∧
    match request.lookup with
    | .send => ∀ label body e, (m.perform caller (.send role label body)).1 ≠ .failed e
    | .recv => ∀ label e, (m.perform caller (.request (.recv role label))).1 ≠ .failed e
    | .waitAny => ∀ labels e, (m.perform caller (.request (.waitAny role labels))).1 ≠ .failed e
    | .endpoint => m.checkRole role = .ok ()

/-- Sources of some projections, together or apart, that need nothing from outside but the runtime. -/
structure Api.Closed (ps : List Projection) : Prop where
  peers : ∀ p ∈ ps, ∀ r ∈ p.messages, r.peer ∈ p.roles ∧ r.peer ≠ p.protagonist
  directions : ∀ p ∈ ps, ∀ r ∈ p.messages,
    (r.direction = .send ↔ r.message.sender = p.protagonist) ∧
      (r.direction = .receive → r.message.receiver = p.protagonist)
  choosers : ∀ p ∈ ps, ∀ r ∈ p.choices, r.chooser ∈ p.roles
  callees : ∀ p ∈ ps, ∀ r ∈ p.calls, ∀ role ∈ r.roles, role ∈ p.roles
  /-- A payload type is native, or its item stands in every source that uses it. -/
  payloads : ∀ p ∈ ps, ∀ r ∈ p.messages, ∀ type ∈ r.message.payloads,
    (type, typeName type) ∈ nativeNames ∨
      typeName type = type ∧ (∀ o source, single o p = .ok source → Holds source (aliasItem type)) ∧
        ∀ o source, combined o ps = .ok source → Holds source (aliasItem type)
  meshed : ∀ o source, combined o ps = .ok source → Holds source (meshStatement ps)
  distinct : (meshRoles ps).Nodup
  connected : ∀ p ∈ ps, p.protagonist ∈ meshRoles ps ∧
    (∀ r ∈ p.messages, r.peer ∈ meshRoles ps) ∧ ∀ r ∈ p.choices, r.chooser ∈ meshRoles ps
  /-- The code of a role makes the requests of its steps and no others, and has them in its own source
  and in that of all roles together. -/
  coded : ∀ p ∈ ps,
    (∀ o source, single o p = .ok source → ∃ vs items, variants [p] = .ok vs ∧
      roleItems p vs = .ok items ∧ Coded p items source) ∧
    ∀ o source, combined o ps = .ok source → ∃ vs items, variants ps = .ok vs ∧
      roleItems p vs = .ok items ∧ Coded p items source
  /-- The code that connects the roles asks for the endpoint of each. -/
  endpoints : ∀ o source, combined o ps = .ok source → ∃ starts line,
    (∀ start ∈ starts, ∃ p ∈ ps, p.landing p.start = .ok start) ∧ pad line ∈ connector ps starts ∧
      Holds source line ∧ requests line = ps.map endpointRequest
  /-- Whatever has gone over the mesh before, no request fails that is read off the code: neither where
  the roles are connected nor in the methods of a session. -/
  answered : ∀ (μ : Type) (calls : List (String × Mesh.Call μ)) (m : Mesh μ),
    m = ((Mesh.ofRoles (meshRoles ps)).play calls).2 →
      (∀ starts, (∀ start ∈ starts, ∃ p ∈ ps, p.landing p.start = .ok start) →
        ∀ request ∈ (connector ps starts).flatMap requests, ∀ caller, request.Granted m caller) ∧
      ∀ p ∈ ps, ∀ vs items, variants [p] = .ok vs ∨ variants ps = .ok vs → roleItems p vs = .ok items →
        ∀ c, Relation.ReflTransGen (Crew.Step p) .empty c → ∀ state session,
          .post ⟨state, session⟩ ∈ c.holders → ∀ request ∈ items.flatten.flatMap requests,
            request.Granted m session.role

namespace Api

end Api

end Parley
