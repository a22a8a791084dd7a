import Mathlib.Data.List.Nodup
import Parley.Proofs.Outcome
import Parley.Session.Fork

/-! A ledger of forks: which forks there have been, of how many branches and out of which join stack,
and which branches have been ended. The barriers hold just the part of it that a join needs. -/

namespace Parley

open Outcome

/-- What a ledger notes. -/
inductive Deed where
  | forked (fork branches : Nat) (stack : List Branch)
  | ended (branch : Branch)
deriving DecidableEq

def Deed.ended? : Deed → Option Branch
  | .ended b => some b
  | .forked .. => none

theorem mem_filterMap_ended? {b : Branch} {log : List Deed} :
    b ∈ log.filterMap Deed.ended? ↔ .ended b ∈ log := by
  constructor
  · intro h
    obtain ⟨d, hd, he⟩ := List.mem_filterMap.mp h
    cases d <;> cases he
    exact hd
  · exact fun h => List.mem_filterMap.mpr ⟨_, h, rfl⟩

namespace Barrier

theorem isDone_eq_true_iff {b : Barrier} {i : Nat} : b.isDone i = true ↔ b.done[i]? = some true := by
  unfold isDone
  cases b.done[i]? with
  | none => simp
  | some v => simp

theorem tryJoin_cases (b : Barrier) :
    (b.tryJoin = .ok () ∧ ∀ i < b.done.length, b.isDone i = true) ∨
      ∃ i < b.done.length, b.tryJoin = .error (.branchIncomplete i) ∧ b.isDone i = false ∧
        ∀ k < i, b.isDone k = true := by
  unfold tryJoin
  cases h : b.done.idxOf? false with
  | none =>
    refine .inl ⟨rfl, fun i hi => ?_⟩
    have hmem : false ∉ b.done := List.idxOf?_eq_none_iff.mp h
    rw [isDone_eq_true_iff, List.getElem?_eq_getElem hi]
    cases hv : b.done[i] with
    | true => rfl
    | false => exact absurd (hv ▸ List.getElem_mem hi) hmem
  | some i =>
    obtain ⟨hi, hv, hbefore⟩ := List.idxOf?_eq_some_iff.mp h
    refine .inr ⟨i, hi, rfl, ?_, fun k hk => ?_⟩
    · simp [isDone, List.getElem?_eq_getElem hi, hv]
    · have hk' : k < b.done.length := Nat.lt_trans hk hi
      have hne := hbefore k hk
      rw [isDone_eq_true_iff, List.getElem?_eq_getElem hk']
      simpa using hne

end Barrier

theorem Joiner.join_cases (j : Joiner) (f : Forks) :
    (j.join f = .ok j.session ∧ ∀ i < (f.barrier j.fork).done.length,
      (f.barrier j.fork).isDone i = true) ∨
    ∃ i < (f.barrier j.fork).done.length, j.join f = .error (.branchIncomplete i) ∧
      (f.barrier j.fork).isDone i = false ∧ ∀ k < i, (f.barrier j.fork).isDone k = true := by
  rcases (f.barrier j.fork).tryJoin_cases with ⟨hok, hall⟩ | ⟨i, hi, herr, hrest⟩
  · exact .inl ⟨by simp [join, tryJoin, hok], hall⟩
  · exact .inr ⟨i, hi, by simp [join, tryJoin, herr], hrest⟩

namespace Forks

variable {f f' : Forks} {b c : Branch}

theorem signal_eq_ok (h : f.signal b = .ok f') : b.index < (f.barrier b.fork).done.length ∧
    f' = ⟨f.barriers.set b.fork ⟨(f.barrier b.fork).done.set b.index true⟩⟩ := by
  obtain ⟨barrier, hb, h⟩ := bind_eq_ok.mp h
  obtain rfl := pure_eq_ok.mp h
  unfold Barrier.signal at hb
  split at hb
  · cases hb
    exact ⟨by assumption, rfl⟩
  · cases hb

theorem barrier_add_of_lt {n k : Nat} (h : k < f.barriers.length) :
    (f.add n).barrier k = f.barrier k := by
  unfold barrier add
  rw [List.getElem?_append_left h]

theorem isDone_add {n : Nat} : ((f.add n).barrier c.fork).isDone c.index =
    (f.barrier c.fork).isDone c.index := by
  rcases Nat.lt_trichotomy c.fork f.barriers.length with h | h | h
  · rw [barrier_add_of_lt h]
  · have hold : f.barriers[c.fork]? = none := List.getElem?_eq_none (Nat.le_of_eq h.symm)
    have hnew : (f.add n).barriers[c.fork]? = some (.ofSize n) := by simp [add, h]
    unfold barrier Barrier.isDone
    rw [hold, hnew]
    by_cases hi : c.index < n <;> simp [Barrier.ofSize, hi]
  · have hold : f.barriers[c.fork]? = none := List.getElem?_eq_none (Nat.le_of_lt h)
    have hnew : (f.add n).barriers[c.fork]? = none :=
      List.getElem?_eq_none (by simp [add]; omega)
    unfold barrier
    rw [hold, hnew]

theorem length_signal (h : f.signal b = .ok f') : f'.barriers.length = f.barriers.length ∧
    ∀ k, (f'.barrier k).done.length = (f.barrier k).done.length := by
  obtain ⟨hi, rfl⟩ := signal_eq_ok h
  refine ⟨List.length_set, fun k => ?_⟩
  by_cases hk : b.fork = k
  · subst hk
    by_cases hlt : b.fork < f.barriers.length
    · rw [barrier, List.getElem?_set_self hlt]
      simp
    · rw [barrier, barrier, List.set_eq_of_length_le (by omega)]
  · rw [barrier, List.getElem?_set_ne hk, barrier]

theorem isDone_signal (h : f.signal b = .ok f') : (f'.barrier c.fork).isDone c.index = true ↔
    c = b ∨ (f.barrier c.fork).isDone c.index = true := by
  obtain ⟨hi, rfl⟩ := signal_eq_ok h
  have hlt : b.fork < f.barriers.length := by
    by_contra hge
    have hnone : f.barriers[b.fork]? = none := List.getElem?_eq_none (by omega)
    simp [barrier, hnone] at hi
  by_cases hf : c.fork = b.fork
  · have hset : (f.barriers.set b.fork ⟨(f.barrier b.fork).done.set b.index true⟩)[c.fork]? =
        some ⟨(f.barrier b.fork).done.set b.index true⟩ := by
      rw [hf, List.getElem?_set_self hlt]
    rw [barrier, hset, hf]
    simp only [Option.getD_some, Barrier.isDone_eq_true_iff]
    by_cases hx : b.index = c.index
    · rw [hx, List.getElem?_set_self (hx ▸ hi)]
      obtain ⟨bf, bi⟩ := b
      obtain ⟨cf, ci⟩ := c
      simp_all
    · rw [List.getElem?_set_ne hx]
      have hne : c ≠ b := fun he => hx (he ▸ rfl)
      simp [hne]
  · have hne : c ≠ b := fun he => hf (he ▸ rfl)
    have hset : (f.barriers.set b.fork ⟨(f.barrier b.fork).done.set b.index true⟩)[c.fork]? =
        f.barriers[c.fork]? := List.getElem?_set_ne (Ne.symm hf)
    rw [barrier, hset]
    simp [hne, barrier]

end Forks

/-- What the barriers have to do with the ledger. -/
structure Forks.Keeps (f : Forks) (log : List Deed) : Prop where
  size : ∀ {k n st}, .forked k n st ∈ log → k < f.barriers.length ∧ (f.barrier k).done.length = n
  unique : ∀ {k n st n' st'}, .forked k n st ∈ log → .forked k n' st' ∈ log → n = n' ∧ st = st'
  /-- A fork comes later than those it lies in. -/
  later : ∀ {k n st}, .forked k n st ∈ log → ∀ b ∈ st, b.fork < k
  flag : ∀ b, (f.barrier b.fork).isDone b.index = true ↔ .ended b ∈ log
  once : (log.filterMap Deed.ended?).Nodup

namespace Forks.Keeps

variable {f f' : Forks} {log : List Deed}

theorem empty : Forks.Keeps .empty [] := by
  refine ⟨by simp, by simp, by simp, ?_, by simp⟩
  intro b
  simp [Forks.barrier, Forks.empty, Barrier.isDone]

theorem not_ended_fresh (h : f.Keeps log) (k : Nat) : .ended ⟨f.fresh, k⟩ ∉ log := by
  rw [← h.flag]
  simp [Forks.barrier, Forks.fresh, Barrier.isDone]

theorem add (h : f.Keeps log) {n : Nat} {st : List Branch} (hst : ∀ b ∈ st, b.fork < f.fresh) :
    (f.add n).Keeps (log ++ [.forked f.fresh n st]) := by
  have hold : ∀ {k m st'}, Deed.forked k m st' ∈ log → k < f.fresh := fun hm => (h.size hm).1
  refine ⟨?_, ?_, ?_, ?_, ?_⟩
  · intro k m st' hm
    rcases List.mem_append.mp hm with hm | hm
    · obtain ⟨hk, hlen⟩ := h.size hm
      rw [Forks.barrier_add_of_lt hk]
      exact ⟨by simp [Forks.add]; omega, hlen⟩
    · cases List.mem_singleton.mp hm
      simp [Forks.add, Forks.fresh, Forks.barrier, Barrier.ofSize]
  · intro k m st' m' st'' hm hm'
    simp only [List.mem_append, List.mem_singleton] at hm hm'
    rcases hm with hm | hm <;> rcases hm' with hm' | hm'
    · exact h.unique hm hm'
    · cases hm'
      exact absurd (hold hm) (Nat.lt_irrefl _)
    · cases hm
      exact absurd (hold hm') (Nat.lt_irrefl _)
    · cases hm
      cases hm'
      exact ⟨rfl, rfl⟩
  · intro k m st' hm
    rcases List.mem_append.mp hm with hm | hm
    · exact h.later hm
    · cases List.mem_singleton.mp hm
      exact hst
  · intro b
    rw [Forks.isDone_add, h.flag]
    simp
  · rw [List.filterMap_append]
    simpa [List.filterMap_cons, Deed.ended?] using h.once

theorem signal (h : f.Keeps log) {b : Branch} (hb : .ended b ∉ log) (hs : f.signal b = .ok f') :
    f'.Keeps (log ++ [.ended b]) := by
  have hold : ∀ {k n st}, Deed.forked k n st ∈ log ++ [.ended b] → .forked k n st ∈ log := by
    intro k n st hm
    simpa using hm
  refine ⟨?_, ?_, ?_, ?_, ?_⟩
  · intro k n st hm
    obtain ⟨hk, hlen⟩ := h.size (hold hm)
    obtain ⟨hcount, hsize⟩ := Forks.length_signal hs
    exact ⟨by rwa [hcount], by rw [hsize, hlen]⟩
  · exact fun hm hm' => h.unique (hold hm) (hold hm')
  · exact fun hm => h.later (hold hm)
  · intro c
    rw [Forks.isDone_signal hs, h.flag]
    simp [or_comm]
  · rw [List.filterMap_append]
    refine h.once.append (List.nodup_singleton b) (List.disjoint_singleton.mpr ?_)
    exact fun hm => hb (mem_filterMap_ended?.mp hm)

theorem count_ended_eq_one_iff (h : f.Keeps log) {b : Branch} :
    log.count (.ended b) = 1 ↔ .ended b ∈ log := by
  have hcount : log.count (.ended b) = (log.filterMap Deed.ended?).count b := by
    rw [List.count_filterMap, List.count]
    refine List.countP_congr fun d _ => ?_
    cases d <;> simp [Deed.ended?]
  rw [hcount, ← mem_filterMap_ended?]
  exact ⟨fun hone => List.count_pos_iff.mp (by omega), List.count_eq_one_of_mem h.once⟩

end Forks.Keeps

end Parley
