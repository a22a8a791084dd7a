import Mathlib.Logic.Relation
import Parley.Proofs.Drive
import Parley.Proofs.Ledger
import Parley.Proofs.Scope

/-! Crews keep to the scopes of their states: the join stack of a session is made of one fork for each
parallel step around the state it stands in. So a branch is ended only inside its own parallel step,
and a session finishes only outside all. -/

namespace Parley

open Outcome

namespace Forks

variable {f f' f'' : Forks}

/-- No barrier gets smaller. -/
def Grows (f f' : Forks) : Prop := ∀ k, (f.barrier k).done.length ≤ (f'.barrier k).done.length

theorem Grows.refl (f : Forks) : f.Grows f := fun _ => Nat.le_refl _

theorem Grows.trans (h : f.Grows f') (h' : f'.Grows f'') : f.Grows f'' :=
  fun k => Nat.le_trans (h k) (h' k)

theorem grows_add (f : Forks) (n : Nat) : f.Grows (f.add n) := by
  intro k
  by_cases hk : k < f.barriers.length
  · exact Nat.le_of_eq (by rw [barrier_add_of_lt hk])
  · have hnone : f.barriers[k]? = none := List.getElem?_eq_none (by omega)
    simp [barrier, hnone]

theorem exists_signal {b : Branch} (h : b.index < (f.barrier b.fork).done.length) :
    ∃ f', f.signal b = .ok f' ∧ f'.fresh = f.fresh ∧ f.Grows f' := by
  have hok : f.signal b = .ok ⟨f.barriers.set b.fork ⟨(f.barrier b.fork).done.set b.index true⟩⟩ := by
    simp [signal, Barrier.signal, h]
  obtain ⟨hcount, hsize⟩ := length_signal hok
  exact ⟨_, hok, hcount, fun k => Nat.le_of_eq (hsize k).symm⟩

end Forks

/-- A join stack that stands for some parallel steps: for each a fork that it opened, in which the
branch exists. -/
structure Stacked (opened : List NodeId) (f : Forks) (pars : List NodeId) (st : List Branch) :
    Prop where
  scope : st.map (fun b => opened[b.fork]?) = pars.reverse.map some
  inRange : ∀ b ∈ st, b.index < (f.barrier b.fork).done.length

namespace Stacked

variable {opened opened' pars : List NodeId} {f f' : Forks} {st : List Branch}

theorem mono (h : Stacked opened f pars st) (ho : opened <+: opened') (hf : f.Grows f') :
    Stacked opened' f' pars st := by
  obtain ⟨ids, rfl⟩ := ho
  refine ⟨?_, fun b hb => Nat.lt_of_lt_of_le (h.inRange b hb) (hf b.fork)⟩
  rw [← h.scope]
  refine List.map_congr_left fun b hb => List.getElem?_append_left ?_
  have hmem : opened[b.fork]? ∈ pars.reverse.map some := h.scope ▸ List.mem_map_of_mem hb
  obtain ⟨id, _, hid⟩ := List.mem_map.mp hmem
  exact (List.getElem?_eq_some_iff.mp hid.symm).1

theorem eq_nil_iff (h : Stacked opened f pars st) : st = [] ↔ pars = [] := by
  have hlen := congrArg List.length h.scope
  simp only [List.length_map, List.length_reverse] at hlen
  rw [← List.length_eq_zero_iff, ← List.length_eq_zero_iff, hlen]

theorem branch (h : Stacked opened f pars st) (ho : opened.length = f.fresh) {id : NodeId}
    {n k : Nat} (hk : k < n) :
    Stacked (opened ++ [id]) (f.add n) (pars ++ [id]) (⟨f.fresh, k⟩ :: st) := by
  have hold : Stacked (opened ++ [id]) (f.add n) pars st :=
    h.mono (List.prefix_append ..) (f.grows_add n)
  refine ⟨?_, ?_⟩
  · simp only [List.map_cons, hold.scope, List.reverse_append]
    simp [← ho]
  · intro b hb
    rcases List.mem_cons.mp hb with rfl | hb
    · simpa [Forks.add, Forks.barrier, Forks.fresh, Barrier.ofSize] using hk
    · exact hold.inRange b hb

end Stacked

/-- Something held in line with the scope of where it stands. -/
def Holder.Fits (l : LocalProtocol) (opened : List NodeId) (f : Forks) : Holder → Prop
  | .post ⟨state, s⟩ => ∃ pars, l.InScope pars state ∧ Stacked opened f pars s.joins
  | .pending join j => ∃ s id bs ns, l.Has s ∧ s.rest = .par id bs :: ns ∧
      join = joinState s.state ∧ opened[j.fork]? = some id ∧
      Stacked opened f s.pars j.session.joins

theorem Holder.Fits.mono {l : LocalProtocol} {opened opened' : List NodeId} {f f' : Forks}
    {h : Holder} (hfit : h.Fits l opened f) (ho : opened <+: opened') (hf : f.Grows f') :
    h.Fits l opened' f' := by
  cases h with
  | post post =>
    obtain ⟨pars, hscope, hst⟩ := hfit
    exact ⟨pars, hscope, hst.mono ho hf⟩
  | pending join j =>
    obtain ⟨s, id, bs, ns, hs, hr, hjoin, hopen, hst⟩ := hfit
    refine ⟨s, id, bs, ns, hs, hr, hjoin, ?_, hst.mono ho hf⟩
    obtain ⟨ids, rfl⟩ := ho
    rw [List.getElem?_append_left (List.getElem?_eq_some_iff.mp hopen).1]
    exact hopen

/-- A call that works out, and leaves what fits. -/
def Moved.Fits (l : LocalProtocol) (opened : List NodeId) (f : Forks) (n : Nat) (m : Moved) : Prop :=
  ∃ hs f', m = .ok (hs, f') ∧ f'.fresh = f.fresh + n ∧ f.Grows f' ∧
    ∀ h ∈ hs, h.Fits l opened f'

section Moves

variable {l : LocalProtocol} {opened pars : List NodeId} {f : Forks} {s : Session} {x : Landing}

theorem Session.goTo_fits (hst : Stacked opened f pars s.joins) (hx : l.Within pars x) :
    (s.goTo x f).Fits l opened f 0 := by
  cases x with
  | state name =>
    refine ⟨[.post ⟨name, s⟩], f, rfl, rfl, .refl f, ?_⟩
    intro h hm
    cases List.mem_singleton.mp hm
    exact ⟨pars, hx, hst⟩
  | join par =>
    cases hj : s.joins with
    | nil =>
      -- outside all parallel steps there is no join to come to
      have hnil : pars = [] := hst.eq_nil_iff.mp hj
      rw [LocalProtocol.Within, hnil] at hx
      cases hx
    | cons b rest =>
      obtain ⟨f', hsignal, hfresh, hgrows⟩ :=
        Forks.exists_signal (hst.inRange b (hj ▸ List.mem_cons_self))
      refine ⟨[], f', ?_, hfresh, hgrows, by simp⟩
      simp [Session.goTo, Session.arrive, Session.complete, hj, hsignal]
  | finish =>
    have hnil : s.joins = [] := hst.eq_nil_iff.mpr hx
    refine ⟨[], f, ?_, rfl, .refl f, by simp⟩
    simp [Session.goTo, Session.arrive, Session.finish, hnil]

theorem Session.goAll_fits {pairs : List (Session × Landing)}
    (h : ∀ e ∈ pairs, ∃ pars, Stacked opened f pars e.1.joins ∧ l.Within pars e.2) :
    (Session.goAll pairs f).Fits l opened f 0 := by
  induction pairs generalizing f with
  | nil => exact ⟨[], f, rfl, rfl, .refl f, by simp⟩
  | cons e rest ih =>
    obtain ⟨pars, hst, hx⟩ := h e List.mem_cons_self
    obtain ⟨hs, f', hgo, hfresh, hgrows, hfit⟩ := goTo_fits hst hx
    obtain ⟨hs', f'', hall, hfresh', hgrows', hfit'⟩ := ih fun e' hm => by
      obtain ⟨pars', hst', hx'⟩ := h e' (List.mem_cons_of_mem _ hm)
      exact ⟨pars', hst'.mono (List.prefix_refl _) hgrows, hx'⟩
    refine ⟨hs ++ hs', f'', ?_, by omega, hgrows.trans hgrows', ?_⟩
    · exact bind_eq_ok.mpr ⟨_, hgo, bind_eq_ok.mpr ⟨_, hall, rfl⟩⟩
    · intro h hm
      rcases List.mem_append.mp hm with hm | hm
      · exact (hfit h hm).mono (List.prefix_refl _) hgrows'
      · exact hfit' h hm

theorem Session.forkTo_fits {t : Stretch} {id : NodeId} {bs : List Conversation}
    {ns : Conversation} (ht : l.Has t) (hr : t.rest = .par id bs :: ns)
    (hst : Stacked opened f t.pars s.joins) (ho : opened.length = f.fresh) {xs : List Landing}
    (hxs : ∀ x ∈ xs, l.Within (t.pars ++ [id]) x) :
    (s.forkTo (joinState t.state) xs f).Fits l (opened ++ [id]) f 1 := by
  have hbranches : ∀ e ∈ (s.fork xs.length f).2.1.zip xs, ∃ pars,
      Stacked (opened ++ [id]) (f.add xs.length) pars e.1.joins ∧ l.Within pars e.2 := by
    intro e he
    obtain ⟨hsession, hx⟩ := List.of_mem_zip he
    obtain ⟨k, hk, hbranch⟩ := List.mem_map.mp hsession
    refine ⟨t.pars ++ [id], ?_, hxs _ hx⟩
    rw [← hbranch]
    exact hst.branch ho (List.mem_range.mp hk)
  obtain ⟨hs, f', hgo, hfresh, hgrows, hfit⟩ := Session.goAll_fits hbranches
  have hgrows' := (f.grows_add xs.length).trans hgrows
  refine ⟨.pending (joinState t.state) (s.fork xs.length f).1 :: hs, f',
    bind_eq_ok.mpr ⟨_, hgo, rfl⟩, ?_, hgrows', List.forall_mem_cons.mpr ⟨?_, hfit⟩⟩
  · simpa [Forks.fresh, Forks.add] using hfresh
  · refine ⟨t, id, bs, ns, ht, hr, rfl, ?_, hst.mono (List.prefix_append ..) hgrows'⟩
    simp [Session.fork, ← ho]

theorem Joiner.joinTo_fits {j : Joiner} (hst : Stacked opened f pars j.session.joins)
    (hx : l.Within pars x) : (j.joinTo x f).Fits l opened f 0 ∨
      ∃ i, j.joinTo x f = .error (.branchIncomplete i) := by
  unfold joinTo
  rcases j.join_cases f with ⟨hok, _⟩ | ⟨i, _, herr, _⟩
  · rw [hok]
    exact .inl (Session.goTo_fits hst hx)
  · rw [herr]
    exact .inr ⟨i, rfl⟩

/-- A call with something that fits works out, unless it joins too early. -/
theorem Projection.Method.fits {p : Projection} (y : l.Yields p) {h : Holder} {ids : List NodeId}
    {method : Forks → Moved} (hm : p.Method h ids method) (hfit : h.Fits l opened f)
    (ho : opened.length = f.fresh) : (method f).Fits l (opened ++ ids) f ids.length ∨
      ∃ i, method f = .error (.branchIncomplete i) := by
  cases hm with
  | message hr hx =>
    obtain ⟨pars, hscope, hst⟩ := hfit
    have hwithin := y.within_of_mem_targets (r := .message _) hr hscope List.mem_cons_self hx
    rw [List.append_nil]
    exact .inl (Session.goTo_fits hst hwithin)
  | choice hr hb hx =>
    obtain ⟨pars, hscope, hst⟩ := hfit
    have hwithin := y.within_of_mem_targets (r := .choice _) hr hscope
      (List.mem_cons_of_mem _ (List.mem_map_of_mem hb)) hx
    rw [List.append_nil]
    exact .inl (Session.goTo_fits hst hwithin)
  | @fork r xs s hr hxs =>
    obtain ⟨pars, hscope, hst⟩ := hfit
    obtain ⟨t, ht, hrec⟩ := y.exists_stretch (r := .par r) hr
    obtain rfl : t.pars = pars := hrec.pars_eq ht hscope
    have hwithin : ∀ x ∈ xs, l.Within (t.pars ++ [r.id]) x := by
      intro x hx
      obtain ⟨b, hb, hland⟩ := exists_of_mem_mapM hxs hx
      obtain ⟨u, hu, htarget, hpars⟩ := hrec.exists_of_mem_branches ht hb
      rw [← hpars]
      exact y.within_of_lands hu ((Stretch.lands_iff htarget).mpr hland)
    obtain ⟨bs, ns, hrest, _, _, hjoin, _⟩ := hrec
    rw [hjoin]
    exact .inl (Session.forkTo_fits ht hrest hst ho hwithin)
  | @join r x j hr hx =>
    obtain ⟨t, id, bs, ns, ht, hrest, hjoin, _, hst⟩ := hfit
    obtain ⟨u, hu, hrec⟩ := y.exists_stretch (r := .par r) hr
    obtain ⟨bs', ns', hrest', _, _, hjoin', hnext, _⟩ := hrec
    -- the name of the join tells which parallel step it belongs to
    have hstate : u.state = t.state := StateName.joinState_injective (hjoin'.symm.trans hjoin)
    obtain rfl := hu.eq_of_state_eq ht hrest' hrest hstate
    have hwithin := y.within_of_lands (hu.pass hrest') ((Stretch.lands_iff hnext).mpr hx)
    rw [List.append_nil]
    exact Joiner.joinTo_fits hst hwithin

end Moves

namespace Crew

variable {l : LocalProtocol} {p : Projection} {c c' : Crew}

structure Fit (l : LocalProtocol) (c : Crew) : Prop where
  opened : c.opened.length = c.forks.fresh
  holders : ∀ h ∈ c.holders, h.Fits l c.opened c.forks

namespace Fit

theorem empty : Fit l .empty := ⟨rfl, fun _ h => absurd h List.not_mem_nil⟩

theorem start (y : l.Yields p) {x : Landing} (hx : p.landing p.start = .ok x)
    (opened : List NodeId) (f : Forks) :
    ((Session.start p.protagonist).goTo x f).Fits l opened f 0 := by
  have hwithin := y.within_of_lands .whole ((Stretch.lands_iff y.start).mpr hx)
  exact Session.goTo_fits ⟨rfl, fun _ h => absurd h List.not_mem_nil⟩ hwithin

theorem append (hc : Fit l c) {rest hs : List Holder} (hsub : rest ⊆ c.holders) {ids : List NodeId}
    {f : Forks} (hm : Moved.Fits l (c.opened ++ ids) c.forks ids.length (.ok (hs, f))) :
    Fit l ⟨f, c.opened ++ ids, hs ++ rest⟩ := by
  obtain ⟨_, _, heq, hfresh, hgrows, hfit⟩ := hm
  cases heq
  refine ⟨by simp [hc.opened, hfresh], List.forall_mem_append.mpr ⟨hfit, ?_⟩⟩
  exact fun h hm => (hc.holders h (hsub hm)).mono (List.prefix_append ..) hgrows

theorem step (y : l.Yields p) (hc : Fit l c) (h : Step p c c') : Fit l c' := by
  cases h with
  | @start x hs f hx hgo =>
    have hfits := start y hx (c.opened ++ []) c.forks
    rw [hgo] at hfits
    have hstart : Fit l ⟨f, c.opened ++ [], hs ++ c.holders⟩ :=
      hc.append (List.Subset.refl _) hfits
    rwa [List.append_nil] at hstart
  | @call h before after hs opened method f hsplit hm hgo =>
    have hmem : h ∈ c.holders := by simp [hsplit]
    have hsub : before ++ after ⊆ c.holders :=
      hsplit ▸ ((List.sublist_cons_self h after).append_left before).subset
    rcases hm.fits y (hc.holders h hmem) hc.opened with hfits | ⟨i, herr⟩
    · rw [hgo] at hfits
      exact hc.append hsub hfits
    · cases hgo.symm.trans herr
  | @drop h before after hsplit =>
    have hsub : before ++ after ⊆ c.holders :=
      hsplit ▸ ((List.sublist_cons_self h after).append_left before).subset
    exact ⟨hc.opened, fun h hm => hc.holders h (hsub hm)⟩

theorem run (y : l.Yields p) (h : Relation.ReflTransGen (Step p) .empty c) : Fit l c := by
  induction h with
  | refl => exact empty
  | tail _ hstep ih => exact ih.step y hstep

end Fit

/-- What is asked of a crew: join stacks that match the scopes of the states, and calls of which none
fails but a join that comes too early. -/
structure Aligned (l : LocalProtocol) (p : Projection) (c : Crew) : Prop where
  posted : ∀ state session, .post ⟨state, session⟩ ∈ c.holders → ∃ pars,
    l.Admits pars (.state state) ∧
      session.joins.map (fun b => c.opened[b.fork]?) = pars.reverse.map some
  pending : ∀ join j, .pending join j ∈ c.holders → ∃ q ∈ l.places, ∃ r,
    l.record l.messages q = .ok (.par r) ∧ r.join = join ∧ c.opened[j.fork]? = some r.id ∧
      j.session.joins.map (fun b => c.opened[b.fork]?) = q.pars.reverse.map some
  starts : ∀ x, p.landing p.start = .ok x →
    ∃ hs f, (Session.start p.protagonist).goTo x c.forks = .ok (hs, f)
  sound : ∀ h ∈ c.holders, ∀ opened method e, p.Method h opened method →
    method c.forks = .error e → ∃ i, e = .branchIncomplete i

theorem Fit.aligned (y : l.Yields p) (hc : Fit l c) : c.Aligned l p := by
  refine ⟨?_, ?_, ?_, ?_⟩
  · intro state session hm
    obtain ⟨pars, hscope, hst⟩ := hc.holders _ hm
    exact ⟨pars, y.admits_of_within hscope, hst.scope⟩
  · intro join j hm
    obtain ⟨s, id, bs, ns, hs, hr, rfl, hopen, hst⟩ := hc.holders _ hm
    obtain ⟨q, hq, _, rfl, _⟩ := hs.exists_place hr
    obtain ⟨r, hrq⟩ := y.recorded q hq
    have hok := LocalProtocol.record?_eq_some.mp hrq
    have hrec := LocalProtocol.records_of_record_eq_ok hok
    have hkind := hrec.kind_eq hr
    cases r <;> cases hkind
    rename_i r
    obtain ⟨bs', ns', hr', _, _, hjoin, _⟩ := hrec
    cases (List.cons.inj (hr.symm.trans hr')).1
    exact ⟨q, hq, r, hok, hjoin, hopen, hst.scope⟩
  · intro x hx
    obtain ⟨hs, f, hgo, _⟩ := Fit.start y hx c.opened c.forks
    exact ⟨hs, f, hgo⟩
  · intro h hm opened method e hmethod herr
    rcases hmethod.fits y (hc.holders h hm) hc.opened with ⟨_, _, hok, _⟩ | ⟨i, hi⟩
    · cases herr.symm.trans hok
    · cases herr.symm.trans hi
      exact ⟨i, rfl⟩

end Crew

/-- Every target of a projection keeps to the parallel steps around its step, and a crew that follows
the targets never ends a branch or a session in the wrong place. -/
theorem LocalProtocol.scoped_of_project {l : LocalProtocol} {moduleName? : Option String}
    {types : List TypeImport} {p : Projection} (h : l.project moduleName? types = .ok p) :
    l.Scoped p ∧ ∀ c, Relation.ReflTransGen (Crew.Step p) .empty c → c.Aligned l p := by
  have y := yields_of_project_eq_ok h
  exact ⟨y.scoped, fun c hc => (Crew.Fit.run y hc).aligned y⟩

/-- Vans on tour while the books are kept, with loading and refuelling at once. -/
def dispatch : LocalProtocol where
  name := "Dispatch"
  protagonist := "Desk"
  roles := ["Desk", "Van", "Clerk"]
  conversation :=
    [.par ⟨"Desk", "par", 0⟩
      [[.loop ⟨"Desk", "rec", 1⟩ "Tour"
        [.choice ⟨"Desk", "choice", 2⟩ "Desk"
          [[.par ⟨"Desk", "par", 3⟩
              [[.message ⟨⟨"Desk", "step", 4⟩, "Load", "Desk", "Van", ["u32"]⟩],
               [.message ⟨⟨"Desk", "step", 5⟩, "Fuel", "Desk", "Van", []⟩]],
            .jump ⟨"Desk", "continue", 6⟩ "Tour"],
           [.message ⟨⟨"Desk", "step", 7⟩, "Park", "Desk", "Van", []⟩]]]],
       [.message ⟨⟨"Desk", "step", 8⟩, "Books", "Clerk", "Desk", []⟩]],
     .message ⟨⟨"Desk", "step", 9⟩, "Close", "Desk", "Clerk", []⟩]

theorem dispatch_scoped : ∃ p, dispatch.project none [] = .ok p ∧ dispatch.Scoped p ∧
    ∀ c, Relation.ReflTransGen (Crew.Step p) .empty c → c.Aligned dispatch p := by
  have hok : (dispatch.project none []).toBool = true := by decide +kernel
  cases h : dispatch.project none [] with
  | error e =>
    rw [h] at hok
    cases hok
  | ok p =>
    obtain ⟨hscoped, haligned⟩ := LocalProtocol.scoped_of_project h
    exact ⟨p, rfl, hscoped, haligned⟩

end Parley
