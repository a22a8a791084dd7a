import Mathlib.Data.List.Perm.Subperm
import Parley.Proofs.Ledger
import Parley.Session.Stage

/-! Handles that fork, end their branches and join. The handles in use stay apart from each other: a
branch is the innermost of one of them at most, and whoever else runs inside that branch runs inside a
fork which that handle waits for. -/

namespace Parley

universe u

open Outcome

namespace Handle

def held : Handle → Session
  | .session s => s
  | .joiner j => j.session
  | .task s _ => s

def stack (h : Handle) : List Branch := h.held.joins

def innermost? (h : Handle) : Option Branch := h.stack.head?

/-- The fork that a handle waits for. -/
def fork? : Handle → Option Nat
  | .joiner j => some j.fork
  | _ => none

/-- Whoever runs inside the innermost branch of a handle runs inside the fork it waits for. -/
def Guards (h h' : Handle) : Prop :=
  ∀ b, h.innermost? = some b → b ∈ h'.stack → ∃ f k, h.fork? = some f ∧ ⟨f, k⟩ ∈ h'.stack

def Apart (h h' : Handle) : Prop := h.Guards h' ∧ h'.Guards h

end Handle

/-- A join stack of branches that are in the ledger and have not ended, each forked out of the stack
below it. -/
def Grounded (log : List Deed) : List Branch → Prop
  | [] => True
  | b :: rest =>
    (∃ n, .forked b.fork n rest ∈ log ∧ b.index < n) ∧ .ended b ∉ log ∧ Grounded log rest

namespace Grounded

variable {log : List Deed} {st : List Branch} {b : Branch}

theorem of_mem (h : Grounded log st) (hb : b ∈ st) :
    .ended b ∉ log ∧ ∃ n st', .forked b.fork n st' ∈ log ∧ b.index < n := by
  induction st with
  | nil => cases hb
  | cons c rest ih =>
    obtain ⟨⟨n, hf, hn⟩, he, hrest⟩ := h
    rcases List.mem_cons.mp hb with rfl | hb
    · exact ⟨he, n, rest, hf, hn⟩
    · exact ih hrest hb

theorem forked (h : Grounded log st) (k n : Nat) (st' : List Branch) :
    Grounded (log ++ [.forked k n st']) st := by
  induction st with
  | nil => trivial
  | cons c rest ih =>
    obtain ⟨⟨m, hf, hm⟩, he, hrest⟩ := h
    exact ⟨⟨m, List.mem_append_left _ hf, hm⟩, by simpa using he, ih hrest⟩

theorem ended (h : Grounded log st) (hb : b ∉ st) : Grounded (log ++ [.ended b]) st := by
  induction st with
  | nil => trivial
  | cons c rest ih =>
    obtain ⟨⟨m, hf, hm⟩, he, hrest⟩ := h
    obtain ⟨hc, hb⟩ : b ≠ c ∧ b ∉ rest := by simpa using hb
    exact ⟨⟨m, List.mem_append_left _ hf, hm⟩, by simpa [he] using hc.symm, ih hrest hb⟩

end Grounded

/-- Handles that can be in use together. -/
structure Clan (log : List Deed) (hs : List Handle) : Prop where
  grounded : ∀ h ∈ hs, Grounded log h.stack
  /-- A joiner waits for a fork out of its own join stack. -/
  awaited : ∀ h ∈ hs, ∀ f, h.fork? = some f → ∃ n, .forked f n h.stack ∈ log
  apart : hs.Pairwise Handle.Apart

namespace Clan

variable {log : List Deed} {h h' : Handle} {hs hs' : List Handle} {f : Forks}

theorem subperm (hc : Clan log hs) (hsub : hs'.Subperm hs) : Clan log hs' := by
  refine ⟨fun h hm => hc.grounded h (hsub.subset hm), fun h hm => hc.awaited h (hsub.subset hm), ?_⟩
  obtain ⟨hs'', hperm, hsub⟩ := hsub
  have hpair := hc.apart.sublist hsub
  exact (hperm.pairwise_iff fun h => ⟨h.2, h.1⟩).mp hpair

theorem cons_iff : Clan log (h :: hs) ↔ Clan log hs ∧ Grounded log h.stack ∧
    (∀ f, h.fork? = some f → ∃ n, .forked f n h.stack ∈ log) ∧ ∀ h' ∈ hs, h.Apart h' := by
  constructor
  · rintro ⟨hg, ha, hp⟩
    obtain ⟨hp, hps⟩ := List.pairwise_cons.mp hp
    exact ⟨⟨fun h hm => hg h (List.mem_cons_of_mem _ hm),
      fun h hm => ha h (List.mem_cons_of_mem _ hm), hps⟩,
      hg h List.mem_cons_self, ha h List.mem_cons_self, hp⟩
  · rintro ⟨⟨hg, ha, hp⟩, hg', ha', hp'⟩
    exact ⟨List.forall_mem_cons.mpr ⟨hg', hg⟩, List.forall_mem_cons.mpr ⟨ha', ha⟩,
      List.pairwise_cons.mpr ⟨hp', hp⟩⟩

theorem start (hc : Clan log hs) (role : String) : Clan log (.session (.start role) :: hs) := by
  refine cons_iff.mpr ⟨hc, trivial, by simp [Handle.fork?], fun h' _ => ⟨?_, ?_⟩⟩
  · intro b hb
    cases hb
  · intro b _ hb
    cases hb

/-- Handles that hold the same session and wait for no fork are the same to others. -/
theorem swap (hc : Clan log (h :: hs)) (hheld : h'.held = h.held) (hf : h.fork? = none)
    (hf' : h'.fork? = none) : Clan log (h' :: hs) := by
  obtain ⟨hcs, hg, _, hp⟩ := cons_iff.mp hc
  have hstack : h'.stack = h.stack := congrArg Session.joins hheld
  refine cons_iff.mpr ⟨hcs, hstack ▸ hg, by simp [hf'], fun k hk => ?_⟩
  obtain ⟨hgk, hkg⟩ := hp k hk
  unfold Handle.Apart Handle.Guards Handle.innermost? at *
  rw [hstack, hf']
  rw [hf] at hgk
  exact ⟨hgk, hkg⟩

theorem complete (hc : Clan log (h :: hs)) (hf : h.fork? = none) {b : Branch}
    (hb : h.innermost? = some b) : Clan (log ++ [.ended b]) hs := by
  obtain ⟨hcs, _, _, hp⟩ := cons_iff.mp hc
  have hout : ∀ h' ∈ hs, b ∉ h'.stack := by
    intro h' hm hmem
    obtain ⟨g, _, hg, _⟩ := (hp h' hm).1 b hb hmem
    rw [hf] at hg
    cases hg
  refine ⟨fun h' hm => (hcs.grounded h' hm).ended (hout h' hm), ?_, hcs.apart⟩
  intro h' hm g hg
  obtain ⟨n, hn⟩ := hcs.awaited h' hm g hg
  exact ⟨n, List.mem_append_left _ hn⟩

theorem append (hc : Clan log hs) (hc' : Clan log hs')
    (ha : ∀ h ∈ hs, ∀ h' ∈ hs', h.Apart h') : Clan log (hs ++ hs') :=
  ⟨List.forall_mem_append.mpr ⟨hc.grounded, hc'.grounded⟩,
    List.forall_mem_append.mpr ⟨hc.awaited, hc'.awaited⟩,
    List.pairwise_append.mpr ⟨hc.apart, hc'.apart, ha⟩⟩

theorem lt_fresh (hk : f.Keeps log) (hc : Clan log hs) (hm : h ∈ hs) {b : Branch}
    (hb : b ∈ h.stack) : b.fork < f.fresh := by
  obtain ⟨_, n, st, hf, _⟩ := (hc.grounded h hm).of_mem hb
  exact (hk.size hf).1

theorem forked (hc : Clan log hs) (k n : Nat) (st : List Branch) :
    Clan (log ++ [.forked k n st]) hs := by
  refine ⟨fun h hm => (hc.grounded h hm).forked k n st, fun h hm g hg => ?_, hc.apart⟩
  obtain ⟨m, hm⟩ := hc.awaited h hm g hg
  exact ⟨m, List.mem_append_left _ hm⟩

/-- A session that forks stays behind as a joiner. -/
theorem hold {s : Session} (hc : Clan log (.session s :: hs)) (n : Nat) :
    Clan (log ++ [.forked f.fresh n s.joins]) (.joiner (s.fork n f).1 :: hs) := by
  obtain ⟨hcs, hg, _, hp⟩ := cons_iff.mp hc
  refine cons_iff.mpr ⟨hcs.forked _ _ _, hg.forked _ _ _, ?_, fun h' hm => ⟨?_, (hp h' hm).2⟩⟩
  · intro g hg
    cases hg
    exact ⟨n, List.mem_append_right _ List.mem_cons_self⟩
  · intro b hb hmem
    obtain ⟨g, _, hg, _⟩ := (hp h' hm).1 b hb hmem
    cases hg

theorem branches (hk : f.Keeps log) {s : Session} (hg : Grounded log s.joins)
    (hfresh : ∀ k, ⟨f.fresh, k⟩ ∉ s.joins) (n : Nat) :
    Clan (log ++ [.forked f.fresh n s.joins]) ((s.fork n f).2.1.map .session) := by
  simp only [Session.fork, List.map_map]
  refine ⟨?_, ?_, List.pairwise_map.mpr (List.pairwise_lt_range.imp ?_)⟩
  · intro h hm
    obtain ⟨k, hkn, rfl⟩ := List.mem_map.mp hm
    refine ⟨⟨n, List.mem_append_right _ List.mem_cons_self, List.mem_range.mp hkn⟩, ?_,
      hg.forked _ _ _⟩
    intro hend
    exact hk.not_ended_fresh k (by simpa [Session.branch] using hend)
  · intro h hm g hg
    obtain ⟨k, _, rfl⟩ := List.mem_map.mp hm
    cases hg
  · intro k k' hkk
    -- two branches share a join stack but for their indices
    have hne : ∀ i i', i ≠ i' → Branch.mk f.fresh i ∉ ⟨f.fresh, i'⟩ :: s.joins := by
      intro i i' hi hmem
      rcases List.mem_cons.mp hmem with he | hmem
      · cases he
        exact hi rfl
      · exact hfresh i hmem
    refine ⟨fun b hb hmem => ?_, fun b hb hmem => ?_⟩
    · cases hb
      exact absurd hmem (hne k k' (Nat.ne_of_lt hkk))
    · cases hb
      exact absurd hmem (hne k' k (Nat.ne_of_gt hkk))

theorem fork (hk : f.Keeps log) {s : Session} (hc : Clan log (.session s :: hs)) (n : Nat) :
    Clan (log ++ [.forked f.fresh n s.joins])
      ((s.fork n f).2.1.map .session ++ .joiner (s.fork n f).1 :: hs) := by
  obtain ⟨hcs, hg, _, hp⟩ := cons_iff.mp hc
  have hfresh : ∀ k, ⟨f.fresh, k⟩ ∉ s.joins :=
    fun k hm => Nat.lt_irrefl _ (lt_fresh hk hc List.mem_cons_self hm)
  refine append (branches hk hg hfresh n) (hc.hold n) ?_
  intro h hm h' hm'
  simp only [Session.fork, List.map_map, List.mem_map, List.mem_range] at hm
  obtain ⟨k, _, rfl⟩ := hm
  rcases List.mem_cons.mp hm' with rfl | hm'
  · -- the branch runs inside the fork that the joiner waits for
    refine ⟨?_, fun b _ _ => ⟨f.fresh, k, rfl, List.mem_cons_self⟩⟩
    intro b hb hmem
    cases hb
    exact absurd hmem (hfresh k)
  · refine ⟨?_, ?_⟩
    · intro b hb hmem
      cases hb
      exact absurd (lt_fresh hk hcs hm' hmem) (Nat.lt_irrefl _)
    · -- what the session was inside of, its branches are
      intro b hb hmem
      rcases List.mem_cons.mp hmem with rfl | hmem
      · exact absurd (lt_fresh hk hcs hm' (List.mem_of_head? hb)) (Nat.lt_irrefl _)
      · obtain ⟨g, i, hg, hi⟩ := (hp h' hm').2 b hb hmem
        exact ⟨g, i, hg, List.mem_cons_of_mem _ hi⟩

/-- Nobody runs inside a fork whose branches have all ended. -/
theorem nobody_inside (hk : f.Keeps log) (hc : Clan log hs) {k n : Nat} {st : List Branch}
    (hf : .forked k n st ∈ log) (hj : (f.barrier k).tryJoin = .ok ()) :
    ∀ h ∈ hs, ∀ b ∈ h.stack, b.fork ≠ k := by
  rintro h hm b hb rfl
  obtain ⟨hopen, n', st', hf', hn⟩ := (hc.grounded h hm).of_mem hb
  obtain ⟨rfl, _⟩ := hk.unique hf hf'
  rcases (f.barrier b.fork).tryJoin_cases with ⟨_, hall⟩ | ⟨_, _, herr, _⟩
  · exact hopen ((hk.flag b).mp (hall b.index (by rw [(hk.size hf).2]; exact hn)))
  · rw [hj] at herr
    cases herr

/-- A session that is joined again is what its joiner was to others. -/
theorem join (hk : f.Keeps log) {j : Joiner} (hc : Clan log (.joiner j :: hs))
    (hj : j.tryJoin f = .ok ()) : Clan log (.session j.session :: hs) := by
  obtain ⟨hcs, hg, ha, hp⟩ := cons_iff.mp hc
  obtain ⟨n, hf⟩ := ha j.fork rfl
  refine cons_iff.mpr ⟨hcs, hg, by simp [Handle.fork?], fun h' hm => ⟨?_, (hp h' hm).2⟩⟩
  intro b hb hmem
  obtain ⟨g, i, hg, hi⟩ := (hp h' hm).1 b hb hmem
  cases hg
  exact absurd rfl (nobody_inside hk hcs hf hj h' hm _ hi)

end Clan

end Parley
