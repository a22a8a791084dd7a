import Parley.Proofs.ForkJoin

/-! Structured concurrency on a stage. A run takes commands and drops handles in any order, and its
ledger notes each fork and each branch that ends. After every run the handles on the stage stand as
forks nested in each other, and a join answers by what the ledger says. -/

namespace Parley

universe u

open Outcome

theorem Session.complete_eq_ok {s : Session} {f : Forks} {r : Nat × Forks}
    (h : s.complete f = .ok r) :
    ∃ b rest f', s.joins = b :: rest ∧ f.signal b = .ok f' ∧ r = (b.index, f') := by
  unfold Session.complete at h
  split at h
  case h_1 => cases h
  case h_2 b rest hjoins =>
    obtain ⟨f', hsignal, h⟩ := bind_eq_ok.mp h
    exact ⟨b, rest, f', hjoins, hsignal, (pure_eq_ok.mp h).symm⟩

theorem Joiner.join_eq_ok {j : Joiner} {f : Forks} {s : Session} (h : j.join f = .ok s) :
    j.tryJoin f = .ok () ∧ s = j.session := by
  obtain ⟨_, htry, h⟩ := bind_eq_ok.mp h
  exact ⟨htry, (pure_eq_ok.mp h).symm⟩

/-- What can happen on a stage. -/
inductive Turn (μ : Type u) where
  | command (command : Command μ)
  | drop (slot : String)

namespace Stage

variable {μ : Type u} {s s' : Stage μ} {log : List Deed} {slot : String} {h : Handle}

def handles (s : Stage μ) : List Handle := s.slots.map Prod.snd

def turn (s : Stage μ) : Turn μ → Stage μ
  | .command c => (s.step c).2
  | .drop slot => s.clear slot

/-- What a turn adds to the ledger. -/
def deeds (s : Stage μ) : Turn μ → List Deed
  | .command (.fork slot _ branches) =>
    match s.session? slot with
    | some session => [.forked s.forks.fresh branches.length session.joins]
    | none => []
  | .command (.complete slot) =>
    match s.session? slot with
    | some session =>
      match session.joins, session.complete s.forks with
      | b :: _, .ok _ => [.ended b]
      | _, _ => []
    | none => []
  | _ => []

/-- Takes turns and continues the ledger. -/
def play (s : Stage μ) (log : List Deed) : List (Turn μ) → Stage μ × List Deed
  | [] => (s, log)
  | t :: ts => (s.turn t).play (log ++ s.deeds t) ts

theorem session?_eq_some {session : Session} :
    s.session? slot = some session ↔ s.slots.lookup slot = some (.session session) := by
  unfold session?
  split <;> simp_all

theorem joiner?_eq_some {joiner : Joiner} :
    s.joiner? slot = some joiner ↔ s.slots.lookup slot = some (.joiner joiner) := by
  unfold joiner?
  split <;> simp_all

theorem task?_eq_some {session : Session} {request : Request} :
    s.task? slot = some (session, request) ↔
      s.slots.lookup slot = some (.task session request) := by
  unfold task?
  split <;> simp_all

theorem handles_put (s : Stage μ) (slot : String) (h : Handle) :
    (s.put slot h).handles = h :: (s.clear slot).handles := rfl

theorem subperm_clear (s : Stage μ) (slot : String) :
    (s.clear slot).handles.Subperm s.handles :=
  (List.filter_sublist.map _).subperm

theorem subperm_of_lookup_eq_some {slots : List (String × Handle)}
    (hl : slots.lookup slot = some h) :
    (h :: (slots.filter (·.1 != slot)).map Prod.snd).Subperm (slots.map Prod.snd) := by
  induction slots with
  | nil => cases hl
  | cons entry rest ih =>
    obtain ⟨name, h'⟩ := entry
    rw [List.lookup_cons] at hl
    by_cases hname : slot = name
    · -- the first of a name is found, and clearing takes out all of them
      subst hname
      obtain rfl : h' = h := by simpa using hl
      have hsub : (rest.filter (·.1 != slot)).Sublist rest := List.filter_sublist
      simpa using ((hsub.map Prod.snd).cons_cons h').subperm
    · have hne : (slot == name) = false := by simpa using hname
      rw [hne] at hl
      have hkeep : ((name, h') :: rest).filter (·.1 != slot) =
          (name, h') :: rest.filter (·.1 != slot) :=
        List.filter_cons_of_pos (by simpa using Ne.symm hname)
      rw [hkeep]
      exact (List.Perm.swap _ _ _).subperm.trans ((List.subperm_cons h').mpr (ih hl))

theorem handles_foldl_put (pairs : List (String × Session)) (s : Stage μ) :
    (pairs.foldl (fun s (name, branch) => s.put name (.session branch)) s).forks = s.forks ∧
      (pairs.foldl (fun s (name, branch) => s.put name (.session branch)) s).handles.Subperm
        (pairs.map (Handle.session ·.2) ++ s.handles) := by
  induction pairs generalizing s with
  | nil => exact ⟨rfl, .refl _⟩
  | cons pair rest ih =>
    obtain ⟨hf, hsub⟩ := ih (s.put pair.1 (.session pair.2))
    refine ⟨hf, hsub.trans ?_⟩
    rw [handles_put, List.map_cons, List.cons_append]
    refine (List.perm_middle.subperm).trans ((List.subperm_cons _).mpr ?_)
    exact (List.subperm_append_left _).mpr (s.subperm_clear pair.1)

theorem call_eq (s : Stage μ) (session : Session) (request : Request) :
    ∃ mesh, (s.call session request).2 = { s with mesh } := by
  cases request with
  | recv sender label =>
    simp only [call]
    split <;> exact ⟨_, rfl⟩
  | waitAny sender labels =>
    simp only [call]
    split <;> exact ⟨_, rfl⟩

/-- What holds between a stage and the ledger of its forks. -/
structure Sound (s : Stage μ) (log : List Deed) : Prop where
  keeps : s.forks.Keeps log
  clan : Clan log s.handles

namespace Sound

theorem ofRoles (roles : List String) : (ofRoles roles : Stage μ).Sound [] :=
  ⟨.empty, ⟨by simp [handles, Stage.ofRoles], by simp [handles, Stage.ofRoles], .nil⟩⟩

theorem subperm (hs : s.Sound log) (hf : s'.forks = s.forks)
    (hsub : s'.handles.Subperm s.handles) : s'.Sound log :=
  ⟨hf ▸ hs.keeps, hs.clan.subperm hsub⟩

theorem clear (hs : s.Sound log) (slot : String) : (s.clear slot).Sound log :=
  hs.subperm rfl (s.subperm_clear slot)

theorem clan_of_lookup (hs : s.Sound log) (hl : s.slots.lookup slot = some h) :
    Clan log (h :: (s.clear slot).handles) := hs.clan.subperm (subperm_of_lookup_eq_some hl)

theorem put (hs : s.Sound log) (hc : Clan log (h :: s.handles)) (slot : String) :
    (s.put slot h).Sound log :=
  ⟨hs.keeps, hc.subperm ((List.subperm_cons h).mpr (s.subperm_clear slot))⟩

theorem replace (hs : s.Sound log) (hl : s.slots.lookup slot = some h) {h' : Handle}
    (hheld : h'.held = h.held) (hf : h.fork? = none) (hf' : h'.fork? = none) :
    (s.put slot h').Sound log :=
  ⟨hs.keeps, (hs.clan_of_lookup hl).swap hheld hf hf'⟩

theorem start (hs : s.Sound log) (role slot : String) : (s.start role slot).2.Sound log := by
  unfold Stage.start
  cases s.mesh.checkRole role with
  | error e => exact hs
  | ok r => exact hs.put (hs.clan.start role) slot

theorem send (hs : s.Sound log) (session : Session) (receiver label : String) (body : μ) :
    (s.send session receiver label body).2.Sound log := by
  unfold Stage.send
  cases s.mesh.send session.role receiver label body with
  | error e => exact hs
  | ok mesh => exact ⟨hs.keeps, hs.clan⟩

theorem call (hs : s.Sound log) (session : Session) (request : Request) :
    (s.call session request).2.Sound log := by
  obtain ⟨mesh, hcall⟩ := s.call_eq session request
  rw [hcall]
  exact ⟨hs.keeps, hs.clan⟩

theorem fork (hs : s.Sound log) {session : Session}
    (hl : s.slots.lookup slot = some (.session session)) (joiner : String)
    (branches : List String) : (s.fork slot joiner branches session).2.Sound
      (log ++ [.forked s.forks.fresh branches.length session.joins]) := by
  have hclan := (hs.clan_of_lookup hl).fork hs.keeps branches.length
  have hstack : ∀ b ∈ session.joins, b.fork < s.forks.fresh := fun b hb =>
    (hs.clan_of_lookup hl).lt_fresh hs.keeps List.mem_cons_self hb
  let base : Stage μ := { s.clear slot with forks := s.forks.add branches.length }
  let held := base.put joiner (.joiner (session.fork branches.length s.forks).1)
  let sessions := (session.fork branches.length s.forks).2.1
  obtain ⟨hforks, hsub⟩ := handles_foldl_put (branches.zip sessions) held
  have hlen : sessions.length ≤ branches.length := by simp [sessions, Session.fork]
  have hsessions : (branches.zip sessions).map (Handle.session ·.2) = sessions.map .session := by
    have hsnd := congrArg (List.map Handle.session) (List.map_snd_zip hlen)
    rwa [List.map_map] at hsnd
  rw [hsessions] at hsub
  have hrest : (sessions.map Handle.session ++ held.handles).Subperm (sessions.map Handle.session ++
      .joiner (session.fork branches.length s.forks).1 :: (s.clear slot).handles) :=
    (List.subperm_append_left _).mpr ((List.subperm_cons _).mpr (base.subperm_clear joiner))
  exact ⟨hforks.symm ▸ hs.keeps.add hstack, hclan.subperm (hsub.trans hrest)⟩

theorem complete (hs : s.Sound log) {session : Session}
    (hl : s.slots.lookup slot = some (.session session)) :
    (s.complete slot session).2.Sound (log ++ s.deeds (.command (.complete slot))) := by
  have hsession : s.session? slot = some session := session?_eq_some.mpr hl
  cases hc : session.complete s.forks with
  | error e =>
    have hnone : s.deeds (.command (.complete slot)) = [] := by
      simp only [deeds, hsession, hc]
      split <;> simp_all
    have hclear : (s.complete slot session).2 = s.clear slot := by
      simp [Stage.complete, Stage.clear, hc]
    rw [hnone, hclear, List.append_nil]
    exact hs.clear slot
  | ok r =>
    obtain ⟨b, rest, forks, hjoins, hsignal, rfl⟩ := Session.complete_eq_ok hc
    have hended : s.deeds (.command (.complete slot)) = [.ended b] := by
      simp [deeds, hsession, hjoins, hc]
    have hclear : (s.complete slot session).2 = { s.clear slot with forks } := by
      simp [Stage.complete, Stage.clear, hc]
    have hclan := hs.clan_of_lookup hl
    have hhead : (Handle.session session).innermost? = some b := by
      simp [Handle.innermost?, Handle.stack, Handle.held, hjoins]
    have hopen := ((hclan.grounded _ List.mem_cons_self).of_mem (List.mem_of_head? hhead)).1
    rw [hended, hclear]
    exact ⟨hs.keeps.signal hopen hsignal, hclan.complete rfl hhead⟩

theorem finish (hs : s.Sound log) (slot : String) (session : Session) :
    (s.finish slot session).2.Sound log := by
  unfold Stage.finish
  cases session.finish with
  | error e => exact hs.clear slot
  | ok r => exact hs.clear slot

theorem join (hs : s.Sound log) {joiner : Joiner} (hl : s.slots.lookup slot = some (.joiner joiner))
    (target : String) : (s.join slot target joiner).2.Sound log := by
  cases hj : joiner.join s.forks with
  | error e =>
    have hclear : (s.join slot target joiner).2 = s.clear slot := by
      simp [Stage.join, Stage.clear, hj]
    rw [hclear]
    exact hs.clear slot
  | ok session =>
    obtain ⟨htry, rfl⟩ := Joiner.join_eq_ok hj
    have hput : (s.join slot target joiner).2 =
        (s.clear slot).put target (.session joiner.session) := by
      simp [Stage.join, Stage.clear, hj]
    rw [hput]
    exact (hs.clear slot).put ((hs.clan_of_lookup hl).join hs.keeps htry) target

theorem await (hs : s.Sound log) (slot : String) : (s.await slot).2.Sound log := by
  unfold Stage.await
  cases ht : s.task? slot with
  | none => exact hs
  | some task =>
    obtain ⟨session, request⟩ := task
    have hl := task?_eq_some.mp ht
    have hcall := hs.call session request
    obtain ⟨mesh, hmesh⟩ := s.call_eq session request
    have hput : ((s.call session request).2.put slot (.session session)).Sound log := by
      refine hcall.replace (h := .task session request) ?_ rfl rfl rfl
      rw [hmesh]
      exact hl
    dsimp only
    split
    case h_1 waiting hblocked =>
      rw [hblocked] at hcall
      exact hcall
    case h_2 done _ hanswer =>
      rw [hanswer] at hput
      exact hput

theorem withSession (hs : s.Sound log) {k : Session → Answer μ × Stage μ}
    (hk : ∀ session, s.session? slot = some session → (k session).2.Sound log) :
    (s.withSession slot k).2.Sound log := by
  unfold Stage.withSession
  cases h : s.session? slot with
  | none => exact hs
  | some session => exact hk session h

theorem withJoiner (hs : s.Sound log) {k : Joiner → Answer μ × Stage μ}
    (hk : ∀ joiner, s.joiner? slot = some joiner → (k joiner).2.Sound log) :
    (s.withJoiner slot k).2.Sound log := by
  unfold Stage.withJoiner
  cases h : s.joiner? slot with
  | none => exact hs
  | some joiner => exact hk joiner h

theorem step (hs : s.Sound log) (c : Command μ) :
    (s.step c).2.Sound (log ++ s.deeds (.command c)) := by
  -- Only forks and ended branches go into the ledger.
  have quiet {s' : Stage μ} (h : s'.Sound log) : s'.Sound (log ++ []) := by rwa [List.append_nil]
  cases c with
  | fork slot joiner branches =>
    cases h : s.session? slot with
    | none => simpa [Stage.step, Stage.withSession, deeds, h] using hs
    | some session =>
      simpa [Stage.step, Stage.withSession, deeds, h] using
        hs.fork (session?_eq_some.mp h) joiner branches
  | complete slot =>
    cases h : s.session? slot with
    | none => simpa [Stage.step, Stage.withSession, deeds, h] using hs
    | some session =>
      simpa [Stage.step, Stage.withSession, h] using hs.complete (session?_eq_some.mp h)
  | start role slot => exact quiet (hs.start role slot)
  | send slot receiver label body =>
    exact quiet (hs.withSession fun session _ => hs.send session receiver label body)
  | request slot request =>
    exact quiet (hs.withSession fun session _ => hs.call session request)
  | finish slot => exact quiet (hs.withSession fun session _ => hs.finish slot session)
  | tryJoin joiner =>
    refine quiet (hs.withJoiner fun j _ => ?_)
    unfold Stage.tryJoin
    cases j.tryJoin s.forks <;> exact hs
  | join joiner slot =>
    exact quiet (hs.withJoiner fun j h => hs.join (joiner?_eq_some.mp h) slot)
  | spawn slot request =>
    refine quiet (hs.withSession fun session h => ?_)
    exact hs.replace (session?_eq_some.mp h) rfl rfl rfl
  | await slot => exact quiet (hs.await slot)
  | roles => exact quiet hs
  | showMesh => exact quiet hs
  | showEndpoint role =>
    refine quiet ?_
    simp only [Stage.step]
    split <;> exact hs
  | role slot => exact quiet (hs.withSession fun _ _ => hs)
  | showSession slot => exact quiet (hs.withSession fun _ _ => hs)
  | ready joiner => exact quiet (hs.withJoiner fun _ _ => hs)
  | showJoiner joiner => exact quiet (hs.withJoiner fun _ _ => hs)

theorem play (hs : s.Sound log) (turns : List (Turn μ)) :
    (s.play log turns).1.Sound (s.play log turns).2 := by
  induction turns generalizing s log with
  | nil => exact hs
  | cons t rest ih =>
    refine ih ?_
    cases t with
    | command c => exact hs.step c
    | drop slot => simpa [deeds, Stage.turn] using hs.clear slot

end Sound

/-- What structured concurrency asks of a stage and the ledger of its run. -/
structure Structured (s : Stage μ) (log : List Deed) : Prop where
  /-- A branch is the innermost of one handle at most, and of none once its flag is set. -/
  innermost : (s.handles.filterMap Handle.innermost?).Nodup
  unset : ∀ b ∈ s.handles.filterMap Handle.innermost?,
    (s.forks.barrier b.fork).isDone b.index = false
  once : (log.filterMap Deed.ended?).Nodup
  /-- A joiner stands for one fork of the run. -/
  forked : ∀ j, .joiner j ∈ s.handles →
    ∃ n st, ∀ n' st', .forked j.fork n' st' ∈ log ↔ n' = n ∧ st' = st
  /-- A join succeeds when each branch has ended once, and else names the first that has not. -/
  join_isOk_iff : ∀ j n st, .joiner j ∈ s.handles → .forked j.fork n st ∈ log →
    ((j.join s.forks).isOk = true ↔ ∀ i < n, log.count (.ended ⟨j.fork, i⟩) = 1)
  join_error : ∀ j n st e, .joiner j ∈ s.handles → .forked j.fork n st ∈ log →
    j.join s.forks = .error e → ∃ i < n, e = .branchIncomplete i ∧ .ended ⟨j.fork, i⟩ ∉ log ∧
      ∀ k < i, .ended ⟨j.fork, k⟩ ∈ log
  /-- With a join the session is back where it forked, and nobody is left inside the fork. -/
  join_ok : ∀ j n st session, .joiner j ∈ s.handles → .forked j.fork n st ∈ log →
    j.join s.forks = .ok session →
      session.joins = st ∧ ∀ h ∈ s.handles, ∀ b ∈ h.stack, b.fork ≠ j.fork

namespace Sound

/-- Two handles with one innermost branch would each wait for a fork inside the other's. -/
theorem nodup_innermost (hs : s.Sound log) : (s.handles.filterMap Handle.innermost?).Nodup := by
  refine List.pairwise_filterMap.mpr (hs.clan.apart.imp_of_mem ?_)
  rintro h h' hm hm' ⟨hg, hg'⟩ b hb b' hb' rfl
  obtain ⟨f, k, hf, hk⟩ := hg b hb (List.mem_of_head? hb')
  obtain ⟨f', k', hf', hk'⟩ := hg' b hb' (List.mem_of_head? hb)
  obtain ⟨n, hn⟩ := hs.clan.awaited h hm f hf
  obtain ⟨n', hn'⟩ := hs.clan.awaited h' hm' f' hf'
  have hlt : f' < f := hs.keeps.later hn _ hk'
  have hlt' : f < f' := hs.keeps.later hn' _ hk
  omega

theorem join_cases (hs : s.Sound log) {j : Joiner} {n : Nat} {st : List Branch}
    (hf : .forked j.fork n st ∈ log) :
    (j.join s.forks = .ok j.session ∧ ∀ i < n, .ended ⟨j.fork, i⟩ ∈ log) ∨
      ∃ i < n, j.join s.forks = .error (.branchIncomplete i) ∧ .ended ⟨j.fork, i⟩ ∉ log ∧
        ∀ k < i, .ended ⟨j.fork, k⟩ ∈ log := by
  have hflag (i : Nat) := hs.keeps.flag ⟨j.fork, i⟩
  have hlen := (hs.keeps.size hf).2
  rcases j.join_cases s.forks with ⟨hok, hall⟩ | ⟨i, hi, herr, hnot, hbefore⟩
  · exact .inl ⟨hok, fun i hi => (hflag i).mp (hall i (hlen ▸ hi))⟩
  · refine .inr ⟨i, hlen ▸ hi, herr, ?_, fun k hk => (hflag k).mp (hbefore k hk)⟩
    rw [← hflag i, hnot]
    exact Bool.false_ne_true

theorem structured (hs : s.Sound log) : s.Structured log := by
  refine ⟨hs.nodup_innermost, ?_, hs.keeps.once, ?_, ?_, ?_, ?_⟩
  · intro b hb
    obtain ⟨h, hm, hb⟩ := List.mem_filterMap.mp hb
    have hopen := ((hs.clan.grounded h hm).of_mem (List.mem_of_head? hb)).1
    rw [← hs.keeps.flag] at hopen
    simpa using hopen
  · intro j hj
    obtain ⟨n, hn⟩ := hs.clan.awaited _ hj j.fork rfl
    refine ⟨n, j.session.joins, fun n' st' => ⟨fun h => hs.keeps.unique h hn, ?_⟩⟩
    rintro ⟨rfl, rfl⟩
    exact hn
  · intro j n st _ hf
    simp only [hs.keeps.count_ended_eq_one_iff]
    rcases hs.join_cases hf with ⟨hok, hall⟩ | ⟨i, hi, herr, hnot, _⟩
    · simpa [hok, Except.isOk, Except.toBool] using hall
    · rw [herr]
      refine ⟨fun h => absurd h Bool.false_ne_true, fun h => absurd (h i hi) hnot⟩
  · intro j n st e _ hf he
    rcases hs.join_cases hf with ⟨hok, _⟩ | ⟨i, hi, herr, hnot, hbefore⟩
    · rw [hok] at he
      cases he
    · rw [herr] at he
      cases he
      exact ⟨i, hi, rfl, hnot, hbefore⟩
  · intro j n st session hj hf hok
    obtain ⟨htry, rfl⟩ := Joiner.join_eq_ok hok
    obtain ⟨n', hn'⟩ := hs.clan.awaited _ hj j.fork rfl
    exact ⟨(hs.keeps.unique hn' hf).2, hs.clan.nobody_inside hs.keeps hf htry⟩

end Sound

/-- Every run from an empty stage is structured, at every moment. -/
theorem structured_play (roles : List String) (turns : List (Turn μ)) :
    ((ofRoles roles).play [] turns).1.Structured ((ofRoles roles : Stage μ).play [] turns).2 :=
  ((Sound.ofRoles roles).play turns).structured

end Stage

end Parley
