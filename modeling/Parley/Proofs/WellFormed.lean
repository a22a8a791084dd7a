import Parley.Error
import Parley.Proofs.Acceptance
import Parley.Proofs.Declared

/-! Which local protocols can be projected. Their shape is said of the tree alone, without states or
frames: identifiers are not used twice, nothing is empty that must not be, nothing stands behind a
jump, each jump has its loop, and each loop comes to a step that can be observed. -/

namespace Parley

open Outcome

/-- A loop or a parallel step around a jump. -/
inductive Surrounding where
  | loop (label : String)
  | par
deriving DecidableEq

/-- A jump and what surrounds it, innermost first. -/
structure Jump where
  label : String
  around : List Surrounding

namespace Jump

/-- The jump lies in a loop with its label. -/
def Enclosed (j : Jump) : Prop := .loop j.label ∈ j.around

/-- The jump lies in a loop with its label, and no parallel step lies between it and the innermost of
these. -/
def Bound (j : Jump) : Prop :=
  ∃ inner outer, j.around = inner ++ .loop j.label :: outer ∧ .loop j.label ∉ inner ∧ .par ∉ inner

instance (j : Jump) : Decidable j.Enclosed := inferInstanceAs (Decidable (_ ∈ _))

/-- What is reported of a jump that is not bound. -/
def fault (j : Jump) : LayoutError :=
  if j.Enclosed then .leavesPar j.label else .unboundJump j.label

variable {label : String} {around : List Surrounding}

theorem bound_loop_self : Bound ⟨label, .loop label :: around⟩ :=
  ⟨[], around, rfl, List.not_mem_nil, List.not_mem_nil⟩

theorem bound_loop_of_ne {other : String} (h : other ≠ label) :
    Bound ⟨label, .loop other :: around⟩ ↔ Bound ⟨label, around⟩ := by
  constructor
  · intro hb
    obtain ⟨inner, outer, he, hloop, hpar⟩ := hb
    change Surrounding.loop other :: around = inner ++ .loop label :: outer at he
    cases inner with
    | nil =>
      cases he
      exact absurd rfl h
    | cons x inner =>
      obtain ⟨rfl, htail⟩ := List.cons.inj he
      exact ⟨inner, outer, htail, List.not_mem_of_not_mem_cons hloop, List.not_mem_of_not_mem_cons hpar⟩
  · intro hb
    obtain ⟨inner, outer, he, hloop, hpar⟩ := hb
    refine ⟨.loop other :: inner, outer, congrArg _ he, ?_, ?_⟩
    · simpa [Ne.symm h] using hloop
    · simpa using hpar

theorem not_bound_par : ¬ Bound ⟨label, .par :: around⟩ := by
  intro hb
  obtain ⟨inner, outer, he, _, hpar⟩ := hb
  cases inner with
  | nil => cases he
  | cons x inner =>
    obtain ⟨rfl, _⟩ := List.cons.inj he
    exact hpar List.mem_cons_self

theorem not_bound_nil : ¬ Bound ⟨label, []⟩ := by
  intro hb
  obtain ⟨inner, outer, he, _⟩ := hb
  simp at he

end Jump

mutual

/-- The jumps of a conversation in the order in which they are written. -/
def Conversation.jumps (around : List Surrounding) : List Node → List Jump
  | [] => []
  | n :: ns => n.jumps around ++ Conversation.jumps around ns

def Node.jumps (around : List Surrounding) : Node → List Jump
  | .jump _ label => [⟨label, around⟩]
  | .loop _ label body => Conversation.jumps (.loop label :: around) body
  | .choice _ _ branches => branchJumps around branches
  | .par _ branches => branchJumps (.par :: around) branches
  | .message _ => []
  | .call .. => []

def branchJumps (around : List Surrounding) : List (List Node) → List Jump
  | [] => []
  | b :: bs => Conversation.jumps around b ++ branchJumps around bs

end

/-- A conversation that begins with a step which can be observed, once calls are passed and loops
entered. -/
inductive Conversation.Opens : List Node → Prop where
  | message {m : Message} {ns : Conversation} : Opens (.message m :: ns)
  | choice {id : NodeId} {chooser : String} {bs : List Conversation} {ns : Conversation} :
      Opens (.choice id chooser bs :: ns)
  | par {id : NodeId} {bs : List Conversation} {ns : Conversation} : Opens (.par id bs :: ns)
  | call {name : String} {roles : List String} {ns : Conversation} :
      Opens ns → Opens (.call name roles :: ns)
  | loop {id : NodeId} {label : String} {body ns : Conversation} :
      Opens body → Opens (.loop id label body :: ns)

namespace Node

/-- A choice or a parallel step has a branch. -/
def Branched : Node → Prop
  | .choice _ _ branches => branches ≠ []
  | .par _ branches => branches ≠ []
  | _ => True

/-- A loop has a step in its body. -/
def Bodied : Node → Prop
  | .loop _ _ body => body ≠ []
  | _ => True

/-- A loop comes to a step that can be observed before it comes to a jump or an end. -/
def Opened : Node → Prop
  | .loop _ _ body => Conversation.Opens body
  | _ => True

/-- The conversations directly inside a step. -/
def inner : Node → List Conversation
  | .loop _ _ body => [body]
  | .choice _ _ branches => branches
  | .par _ branches => branches
  | _ => []

end Node

namespace LocalProtocol

def steps (l : LocalProtocol) : List Node := Conversation.preorder l.conversation

def ids (l : LocalProtocol) : List NodeId := l.steps.filterMap Node.id?

def jumps (l : LocalProtocol) : List Jump := Conversation.jumps [] l.conversation

/-- All conversations of a local protocol, at any depth. -/
def conversations (l : LocalProtocol) : List Conversation :=
  l.conversation :: l.steps.flatMap Node.inner

/-- What is asked of a local protocol apart from its jumps having loops to go to. -/
structure Shaped (l : LocalProtocol) : Prop where
  distinct : l.ids.Nodup
  branched : ∀ n ∈ l.steps, n.Branched
  bodied : ∀ n ∈ l.steps, n.Bodied
  ended : ∀ c ∈ l.conversations, ∀ before id label after, c = before ++ .jump id label :: after →
    after = []
  opened : ∀ n ∈ l.steps, n.Opened

structure WellFormed (l : LocalProtocol) : Prop extends Shaped l where
  bound : ∀ j ∈ l.jumps, j.Bound

end LocalProtocol

theorem LocalProtocol.Identified.exists_counted {l : LocalProtocol} (h : l.Identified) :
    ∃ next, Counted 0 l.ids next := by
  have hcounted := Conversation.counted_identify (IdSource.ofScope l.name) l.conversation
  rw [h] at hcounted
  exact ⟨_, hcounted⟩

/-! ### Jumps and frames -/

namespace Frame

def surrounding? : Frame → Option Surrounding
  | .loop inner => some (.loop inner.label)
  | .choice .. => none
  | .par .. => some .par

/-- What some frames surround a step with, innermost first. -/
def surroundings (frames : List Frame) : List Surrounding := frames.filterMap surrounding?

@[simp] theorem surroundings_loop (inner : Loop) (outer : List Frame) :
    surroundings (.loop inner :: outer) = .loop inner.label :: surroundings outer := rfl

@[simp] theorem surroundings_par (id : NodeId) (state : String) (outer : List Frame) :
    surroundings (.par id state :: outer) = .par :: surroundings outer := rfl

theorem any_isLoop_iff {label : String} {frames : List Frame} :
    frames.any (isLoop label) = true ↔ Jump.Enclosed ⟨label, surroundings frames⟩ := by
  unfold Jump.Enclosed surroundings
  rw [List.any_eq_true, List.mem_filterMap]
  refine exists_congr fun f => and_congr_right fun _ => ?_
  cases f <;> simp [isLoop, surrounding?]

/-- The loop of a jump is found just where the jump is bound, and otherwise the report says whether
there is one out of reach. -/
theorem target_cases (label : String) (frames : List Frame) :
    (Jump.Bound ⟨label, surroundings frames⟩ ∧ ∃ inner, target label frames = .ok inner) ∨
      ¬ Jump.Bound ⟨label, surroundings frames⟩ ∧
        target label frames = .error (Jump.fault ⟨label, surroundings frames⟩) := by
  induction frames with
  | nil => exact .inr ⟨Jump.not_bound_nil, rfl⟩
  | cons f outer ih =>
    cases f with
    | loop inner =>
      rw [surroundings_loop, target]
      by_cases h : inner.label = label
      · rw [if_pos (by simpa using h), h]
        exact .inl ⟨Jump.bound_loop_self, inner, rfl⟩
      · have henclosed : Jump.Enclosed ⟨label, .loop inner.label :: surroundings outer⟩ ↔
            Jump.Enclosed ⟨label, surroundings outer⟩ := by
          simp [Jump.Enclosed, Ne.symm h]
        rw [if_neg (by simpa using h), Jump.bound_loop_of_ne h]
        simpa only [Jump.fault, henclosed] using ih
    | choice stem i following => exact ih
    | par id state =>
      rw [surroundings_par, target]
      refine .inr ⟨Jump.not_bound_par, ?_⟩
      have henclosed : Jump.Enclosed ⟨label, .par :: surroundings outer⟩ ↔
          Jump.Enclosed ⟨label, surroundings outer⟩ := by
        simp [Jump.Enclosed]
      simp only [Jump.fault, henclosed, any_isLoop_iff]

end Frame

/-- The jump at a place, if there is one. -/
def Place.jump? (q : Place) : Option Jump :=
  match q.node with
  | .jump _ label => some ⟨label, Frame.surroundings q.frames⟩
  | _ => none

theorem Conversation.draws_jumps : Stretch.Draws (fun q => q.jump?.toList)
    (fun s => Conversation.jumps (Frame.surroundings s.frames) s.rest)
    (fun _ _ frames _ bs => branchJumps (Frame.surroundings frames) bs) := by
  constructor <;> intros <;> rfl

theorem LocalProtocol.filterMap_jump?_places (l : LocalProtocol) :
    l.places.filterMap Place.jump? = l.jumps := by
  rw [List.filterMap_eq_flatMap_toList]
  exact Conversation.flatMap_places Conversation.draws_jumps _ _ _ _ l.conversation

/-! ### Checks of places -/

namespace Place

/-- One check of a place that is reached and has an identifier of its own. -/
theorem checkAll_cons_eq {seen : List NodeId} {p : Place} {ps : List Place}
    (hr : p.checkReached = .ok ()) (hid : ∀ id, p.node.id? = some id → id ∉ seen) :
    checkAll seen (p :: ps) =
      p.checkNode >>= fun _ => checkAll (p.node.id?.toList ++ seen) ps := by
  rw [checkAll, hr]
  cases hn : p.node.id? with
  | none => rfl
  | some id =>
    have hfresh : seen.contains id = false := by simpa using hid id hn
    simp only [hfresh]
    rfl

theorem nodup_ids_cons {seen : List NodeId} {p : Place} {ps : List Place}
    (hn : (seen ++ (p :: ps).filterMap (·.node.id?)).Nodup) :
    (∀ id, p.node.id? = some id → id ∉ seen) ∧
      (p.node.id?.toList ++ seen ++ ps.filterMap (·.node.id?)).Nodup := by
  cases hid : p.node.id? with
  | none =>
    rw [List.filterMap_cons_none (by exact hid)] at hn
    exact ⟨by simp, hn⟩
  | some id =>
    rw [List.filterMap_cons_some (by exact hid)] at hn
    have hperm := List.perm_middle.nodup_iff.mp hn
    refine ⟨?_, hperm⟩
    intro i hi hseen
    cases hi
    exact (List.nodup_cons.mp hperm).1 (List.mem_append_left _ hseen)

/-- Places that pass their checks, with identifiers that never repeat, are left behind. -/
theorem checkAll_append {seen : List NodeId} {ps qs : List Place}
    (hall : ∀ p ∈ ps, p.checkReached = .ok () ∧ p.checkNode = .ok ())
    (hn : (seen ++ (ps ++ qs).filterMap (·.node.id?)).Nodup) :
    ∃ seen', checkAll seen (ps ++ qs) = checkAll seen' qs ∧
      (seen' ++ qs.filterMap (·.node.id?)).Nodup := by
  induction ps generalizing seen with
  | nil => exact ⟨seen, rfl, hn⟩
  | cons p ps ih =>
    obtain ⟨⟨hreached, hnode⟩, hall⟩ := List.forall_mem_cons.mp hall
    obtain ⟨hfresh, hn⟩ := nodup_ids_cons hn
    obtain ⟨seen', heq, hn'⟩ := ih hall hn
    refine ⟨seen', ?_, hn'⟩
    rw [List.cons_append, checkAll_cons_eq hreached hfresh, hnode]
    exact heq

theorem checkReached_of_checkAll {seen : List NodeId} {ps : List Place}
    (h : checkAll seen ps = .ok ()) {p : Place} (hp : p ∈ ps) : p.checkReached = .ok () := by
  induction ps generalizing seen with
  | nil => simp at hp
  | cons q ps ih =>
    obtain ⟨hr, _, _, h⟩ := checkAll_cons h
    rcases List.mem_cons.mp hp with rfl | hp
    · exact hr
    · exact ih h hp

theorem checkReached_eq_ok_iff {q : Place} :
    q.checkReached = .ok () ↔ ∀ id label, q.before? ≠ some (.jump id label) := by
  unfold checkReached
  split
  · rename_i hb
    simp [hb]
  · rename_i hb
    simpa using hb

theorem jump?_eq_none {q : Place} (h : ∀ id label, q.node ≠ .jump id label) : q.jump? = none := by
  unfold jump?
  split
  · rename_i hn
    exact absurd hn (h _ _)
  · rfl

/-- A step passes its own check if it is neither empty nor a jump without a loop. -/
theorem checkNode_eq_ok_iff {q : Place} :
    q.checkNode = .ok () ↔ q.node.Bodied ∧ q.node.Branched ∧ ∀ j ∈ q.jump?, j.Bound := by
  cases hn : q.node with
  | jump id label =>
    have hjump : q.jump? = some ⟨label, Frame.surroundings q.frames⟩ := by
      unfold jump?
      rw [hn]
    unfold checkNode
    rw [hn, hjump]
    simp only [Node.Bodied, Node.Branched, true_and, Option.mem_some_iff, forall_eq']
    rcases Frame.target_cases label q.frames with ⟨hb, inner, ht⟩ | ⟨hb, ht⟩
    · simp [hb, ht, Functor.map, Except.map]
    · simp [hb, ht, Functor.map, Except.map]
  | loop id label body =>
    rw [jump?_eq_none (by simp [hn])]
    unfold checkNode
    rw [hn]
    cases body <;> simp [Node.Bodied, Node.Branched]
  | choice id chooser bs =>
    rw [jump?_eq_none (by simp [hn])]
    unfold checkNode
    rw [hn]
    cases bs <;> simp [Node.Bodied, Node.Branched]
  | par id bs =>
    rw [jump?_eq_none (by simp [hn])]
    unfold checkNode
    rw [hn]
    cases bs <;> simp [Node.Bodied, Node.Branched]
  | message m =>
    rw [jump?_eq_none (by simp [hn])]
    unfold checkNode
    rw [hn]
    simp [Node.Bodied, Node.Branched]
  | call name roles =>
    rw [jump?_eq_none (by simp [hn])]
    unfold checkNode
    rw [hn]
    simp [Node.Bodied, Node.Branched]

theorem checkNode_of_not_bound {q : Place} {j : Jump} (hj : q.jump? = some j) (hb : ¬ j.Bound) :
    q.checkNode = .error j.fault := by
  unfold jump? at hj
  split at hj
  · rename_i hn
    cases hj
    unfold checkNode
    rw [hn]
    rcases Frame.target_cases _ q.frames with ⟨hb', _⟩ | ⟨_, ht⟩
    · exact absurd hb' hb
    · simp only [ht]
      rfl
  · cases hj

theorem exists_choiceEntries {p : Place} {i : Nat} {bs : List Conversation}
    (h : ∀ (k : Nat) b, bs[k]? = some b → ∃ t, Target.enter (branchStem p.state choiceTag (i + k))
      (.choice p.stem p.position p.following :: p.frames) 1 b = .ok t) :
    ∃ es, p.choiceEntries i bs = .ok es := by
  induction bs generalizing i with
  | nil => exact ⟨[], rfl⟩
  | cons b bs ih =>
    obtain ⟨t, ht⟩ := h 0 b rfl
    obtain ⟨es, hes⟩ := ih (i := i + 1) (by
      intro k c hc
      have hk := h (k + 1) c (by simpa using hc)
      rwa [show i + (k + 1) = i + 1 + k by omega] at hk)
    refine ⟨(i, t) :: es, ?_⟩
    rw [choiceEntries]
    exact bind_eq_ok.mpr ⟨t, ht, bind_eq_ok.mpr ⟨es, hes, rfl⟩⟩

theorem exists_parBranches {p : Place} {id : NodeId} {i : Nat} {bs : List Conversation}
    (h : ∀ (k : Nat) b, bs[k]? = some b → ∃ t, Target.enter (branchStem p.state parTag (i + k))
      (.par id p.state :: p.frames) 1 b = .ok t) : ∃ ts, p.parBranches id i bs = .ok ts := by
  induction bs generalizing i with
  | nil => exact ⟨[], rfl⟩
  | cons b bs ih =>
    obtain ⟨t, ht⟩ := h 0 b rfl
    obtain ⟨ts, hts⟩ := ih (i := i + 1) (by
      intro k c hc
      have hk := h (k + 1) c (by simpa using hc)
      rwa [show i + (k + 1) = i + 1 + k by omega] at hk)
    refine ⟨t :: ts, ?_⟩
    rw [parBranches]
    exact bind_eq_ok.mpr ⟨t, ht, bind_eq_ok.mpr ⟨ts, hts, rfl⟩⟩

end Place

/-! ### Entries of loops -/

theorem Conversation.opens_of_entryState {label stem state : String} {i : Nat} (c : List Node)
    (h : Conversation.entryState label stem i c = .ok state) : Conversation.Opens c := by
  match c with
  | [] => simp [Conversation.entryState] at h
  | .message m :: ns => exact .message
  | .choice id chooser bs :: ns => exact .choice
  | .par id bs :: ns => exact .par
  | .call name roles :: ns => exact .call (Conversation.opens_of_entryState ns h)
  | .loop id inner body :: ns => exact .loop (Conversation.opens_of_entryState body h)
  | .jump id inner :: ns => simp [Conversation.entryState, Node.entryState] at h
termination_by sizeOf c

theorem Conversation.Opens.exists_entryState {c : Conversation} (h : Conversation.Opens c)
    (label stem : String) (i : Nat) : ∃ state, Conversation.entryState label stem i c = .ok state := by
  induction h generalizing label stem i with
  | message => exact ⟨_, rfl⟩
  | choice => exact ⟨_, rfl⟩
  | par => exact ⟨_, rfl⟩
  | call _ ih => exact ih label stem (i + 1)
  | loop _ ih => exact ih _ _ 1

/-! ### Projection -/

namespace LocalProtocol

variable {l : LocalProtocol} {s : Stretch}

theorem ids_eq_filterMap_places (l : LocalProtocol) :
    l.ids = l.places.filterMap (·.node.id?) := by
  unfold ids steps
  rw [← Conversation.map_node_places l.protagonist [] none 1 l.conversation, List.filterMap_map]
  rfl

theorem Has.exists_conversation (h : l.Has s) : ∃ c ∈ l.conversations, s.rest <:+ c := by
  have hinner {u : Stretch} {n : Node} {ns c : Conversation} (hu : l.Has u) (hr : u.rest = n :: ns)
      (hc : c ∈ n.inner) : c ∈ l.conversations :=
    List.mem_cons_of_mem _ (List.mem_flatMap.mpr ⟨n, hu.mem_preorder hr, hc⟩)
  induction h with
  | whole => exact ⟨_, List.mem_cons_self, List.suffix_refl _⟩
  | @pass s n ns _ hr ih =>
    obtain ⟨c, hc, hsuffix⟩ := ih
    rw [hr] at hsuffix
    exact ⟨c, hc, (List.suffix_cons n ns).trans hsuffix⟩
  | body h hr => exact ⟨_, hinner h hr List.mem_cons_self, List.suffix_refl _⟩
  | choice h hr hb => exact ⟨_, hinner h hr (List.mem_of_getElem? hb), List.suffix_refl _⟩
  | par h hr hb => exact ⟨_, hinner h hr (List.mem_of_getElem? hb), List.suffix_refl _⟩

theorem exists_has_of_mem_conversations {c : Conversation} (hc : c ∈ l.conversations) :
    ∃ s, l.Has s ∧ s.rest = c := by
  rcases List.mem_cons.mp hc with rfl | hc
  · exact ⟨_, .whole, rfl⟩
  obtain ⟨n, hn, hc⟩ := List.mem_flatMap.mp hc
  obtain ⟨q, hq, rfl⟩ := mem_preorder_iff.mp hn
  have hs := l.has_of_mem_places hq
  have hrest : q.stretch.rest = q.node :: q.following := rfl
  cases hnode : q.node with
  | loop id label body =>
    rw [hnode] at hc hrest
    obtain rfl := List.mem_singleton.mp hc
    exact ⟨_, hs.body hrest, rfl⟩
  | choice id chooser bs =>
    rw [hnode] at hc hrest
    obtain ⟨k, hk⟩ := List.mem_iff_getElem?.mp hc
    exact ⟨_, hs.choice hrest hk, rfl⟩
  | par id bs =>
    rw [hnode] at hc hrest
    obtain ⟨k, hk⟩ := List.mem_iff_getElem?.mp hc
    exact ⟨_, hs.par hrest hk, rfl⟩
  | message | call | jump =>
    rw [hnode] at hc
    cases hc

/-- Every step is reached just where no conversation goes on behind a jump. -/
theorem checkReached_iff_ended : (∀ q ∈ l.places, q.checkReached = .ok ()) ↔
    ∀ c ∈ l.conversations, ∀ before id label after, c = before ++ .jump id label :: after →
      after = [] := by
  constructor
  · intro hall c hc before id label after he
    obtain ⟨s, hs, hr⟩ := exists_has_of_mem_conversations hc
    cases after with
    | nil => rfl
    | cons n ns =>
      have hdrop := hs.drop (hr.trans he)
      obtain ⟨before?, hsubset⟩ := hdrop.places_subset
      rw [Conversation.places, Conversation.places] at hsubset
      have hmem := hsubset
        (List.mem_cons_of_mem _ (List.mem_append_right _ List.mem_cons_self))
      exact absurd rfl (Place.checkReached_eq_ok_iff.mp (hall _ hmem) id label)
  · intro hended q hq
    apply Place.checkReached_eq_ok_iff.mpr
    intro id label hb
    obtain ⟨s, hs, hr⟩ := l.follows_of_mem_places hq _ hb
    obtain ⟨c, hc, before, hbefore⟩ := hs.exists_conversation
    rw [hr] at hbefore
    cases hended c hc before id label _ hbefore.symm

section Accepted

variable (hnodes : ∀ q ∈ l.places, q.checkNode = .ok ()) (hopened : ∀ n ∈ l.steps, n.Opened)

include hopened in
theorem exists_entry_of_opened (hs : l.Has s) {id : NodeId} {label : String}
    {body ns : Conversation} (hr : s.rest = .loop id label body :: ns) :
    ∃ state, (s.loop id label body).entry = .ok state :=
  (hopened _ (hs.mem_preorder hr)).exists_entryState label _ 1

include hnodes hopened

theorem exists_target_of_opened (hs : l.Has s) : ∃ t, s.target = .ok t := by
  induction hs using LocalProtocol.Has.walk with
  | @step s n ns hs hr hn =>
    cases n with
    | message m => exact ⟨_, Stretch.target_message hr⟩
    | choice id chooser bs => exact ⟨_, Stretch.target_choice hr⟩
    | par id bs => exact ⟨_, Stretch.target_par hr⟩
    | loop | jump | call => exact absurd trivial hn
  | enter hs hr =>
    obtain ⟨state, he⟩ := exists_entry_of_opened hopened hs hr
    exact ⟨_, Stretch.target_loop hr he⟩
  | jump hs hr =>
    obtain ⟨_, _, _, _, _, ht⟩ := hs.exists_target_jump hnodes
      (fun hu hur => exists_entry_of_opened hopened hu hur) hr
    exact ⟨_, ht⟩
  | call _ hr ih =>
    rw [Stretch.target_call hr]
    exact ih
  | root _ hr hf => exact ⟨_, Stretch.target_root hr hf⟩
  | par _ hr hf => exact ⟨_, Stretch.target_par_end hr hf⟩
  | choice _ hr hf ih =>
    rw [Stretch.target_choice_end hr hf]
    exact ih
  | loop _ hr hf _ => exact ⟨_, Stretch.target_loop_end hr hf⟩

theorem exists_record_of_opened {q : Place} (hq : q ∈ l.places) :
    ∃ r, l.record l.messages q = .ok r := by
  have hs := l.has_of_mem_places hq
  have hrest : q.stretch.rest = q.node :: q.following := rfl
  obtain ⟨next, hnext⟩ := exists_target_of_opened hnodes hopened (hs.pass hrest)
  change q.next = .ok next at hnext
  unfold record
  cases hn : q.node with
  | message m => exact ⟨_, bind_eq_ok.mpr ⟨next, hnext, rfl⟩⟩
  | call name roles => exact ⟨_, bind_eq_ok.mpr ⟨next, hnext, rfl⟩⟩
  | choice id chooser bs =>
    rw [hn] at hrest
    have hentries : ∃ es, q.choiceEntries 1 bs = .ok es := by
      apply Place.exists_choiceEntries
      intro k b hb
      rw [Nat.add_comm 1 k]
      exact exists_target_of_opened hnodes hopened (hs.choice hrest hb)
    obtain ⟨es, hes⟩ := hentries
    exact ⟨_, bind_eq_ok.mpr ⟨es, hes, bind_eq_ok.mpr ⟨next, hnext, rfl⟩⟩⟩
  | par id bs =>
    rw [hn] at hrest
    have hbranches : ∃ ts, q.parBranches id 1 bs = .ok ts := by
      apply Place.exists_parBranches
      intro k b hb
      rw [Nat.add_comm 1 k]
      exact exists_target_of_opened hnodes hopened (hs.par hrest hb)
    obtain ⟨ts, hts⟩ := hbranches
    exact ⟨_, bind_eq_ok.mpr ⟨ts, hts, bind_eq_ok.mpr ⟨next, hnext, rfl⟩⟩⟩
  | loop id label body =>
    rw [hn] at hrest
    obtain ⟨state, he⟩ := exists_entry_of_opened hopened hs hrest
    exact ⟨_, bind_eq_ok.mpr ⟨state, he, bind_eq_ok.mpr ⟨next, hnext, rfl⟩⟩⟩
  | jump id label =>
    rw [hn] at hrest
    obtain ⟨t, ht⟩ := exists_target_of_opened hnodes hopened hs
    have htarget : Target.ofNode q.stem q.position q.frames (.jump id label) = .ok t := by
      unfold Stretch.target at ht
      rw [hrest] at ht
      exact ht
    exact ⟨_, bind_eq_ok.mpr ⟨t, htarget, rfl⟩⟩

/-- What the checks and the entries of loops let pass is projected. -/
theorem exists_project_of_opened (hchecked : Place.checkAll [] l.places = .ok ())
    (moduleName? : Option String) (types : List TypeImport) :
    ∃ p, l.project moduleName? types = .ok p := by
  obtain ⟨start, hstart⟩ := exists_target_of_opened hnodes hopened (l := l) .whole
  obtain ⟨records, hrecords⟩ := exists_mapM_eq_ok fun q hq =>
    exists_record_of_opened hnodes hopened (l := l) (q := q) hq
  unfold project
  exact ⟨_, bind_eq_ok.mpr ⟨(), hchecked,
    bind_eq_ok.mpr ⟨start, hstart, bind_eq_ok.mpr ⟨records, hrecords, rfl⟩⟩⟩⟩

end Accepted

theorem Yields.wellFormed {p : Projection} (y : l.Yields p) : l.WellFormed := by
  have hnode {q : Place} (hq : q ∈ l.places) :=
    Place.checkNode_eq_ok_iff.mp (Place.checkNode_of_checkAll y.checked hq)
  refine ⟨⟨?_, ?_, ?_, ?_, ?_⟩, ?_⟩
  · rw [ids_eq_filterMap_places]
    exact (Place.checkAll_ids y.checked).1
  · intro n hn
    obtain ⟨q, hq, rfl⟩ := mem_preorder_iff.mp hn
    exact (hnode hq).2.1
  · intro n hn
    obtain ⟨q, hq, rfl⟩ := mem_preorder_iff.mp hn
    exact (hnode hq).1
  · exact checkReached_iff_ended.mp fun q hq => Place.checkReached_of_checkAll y.checked hq
  · intro n hn
    obtain ⟨q, hq, rfl⟩ := mem_preorder_iff.mp hn
    cases hloop : q.node with
    | loop id label body =>
      have hr : q.stretch.rest = .loop id label body :: q.following := by rw [← hloop]; rfl
      obtain ⟨state, he⟩ := y.exists_entry (l.has_of_mem_places hq) hr
      exact Conversation.opens_of_entryState body he
    | message | choice | par | call | jump => trivial
  · intro j hj
    rw [← filterMap_jump?_places] at hj
    obtain ⟨q, hq, hjump⟩ := List.mem_filterMap.mp hj
    exact (hnode hq).2.2 j hjump

namespace Shaped

/-- A place passes all its checks unless there is an unbound jump at it. -/
theorem checks (h : l.Shaped) {q : Place} (hq : q ∈ l.places) (hb : ∀ j ∈ q.jump?, j.Bound) :
    q.checkReached = .ok () ∧ q.checkNode = .ok () := by
  have hn : q.node ∈ l.steps := mem_preorder_iff.mpr ⟨q, hq, rfl⟩
  exact ⟨checkReached_iff_ended.mpr h.ended q hq,
    Place.checkNode_eq_ok_iff.mpr ⟨h.bodied _ hn, h.branched _ hn, hb⟩⟩

theorem nodup_places (h : l.Shaped) : (l.places.filterMap (·.node.id?)).Nodup := by
  rw [← ids_eq_filterMap_places]
  exact h.distinct

theorem exists_project (h : l.Shaped) (hbound : ∀ j ∈ l.jumps, j.Bound)
    (moduleName? : Option String) (types : List TypeImport) :
    ∃ p, l.project moduleName? types = .ok p := by
  have hall (q : Place) (hq : q ∈ l.places) : q.checkReached = .ok () ∧ q.checkNode = .ok () := by
    apply h.checks hq
    intro j hj
    apply hbound
    rw [← filterMap_jump?_places]
    exact List.mem_filterMap.mpr ⟨q, hq, hj⟩
  have hchecked : Place.checkAll [] l.places = .ok () := by
    have hnodup := h.nodup_places
    rw [← List.append_nil l.places, ← List.nil_append (List.filterMap _ _)] at hnodup
    obtain ⟨seen, hskip, _⟩ := Place.checkAll_append hall hnodup
    rwa [List.append_nil] at hskip
  exact exists_project_of_opened (fun q hq => (hall q hq).2) h.opened hchecked moduleName? types

/-- The checks stop at the first jump that is not bound. -/
theorem project_eq_error (h : l.Shaped) {before after : List Jump} {j : Jump}
    (hjumps : l.jumps = before ++ j :: after) (hbefore : ∀ i ∈ before, i.Bound) (hj : ¬ j.Bound)
    (moduleName? : Option String) (types : List TypeImport) :
    l.project moduleName? types = .error j.fault := by
  rw [← filterMap_jump?_places] at hjumps
  obtain ⟨ps, rest, hplaces, hps, hrest⟩ := List.filterMap_eq_append_iff.mp hjumps
  obtain ⟨qs, q, after', hrest', hqs, hq, _⟩ := List.filterMap_eq_cons_iff.mp hrest
  rw [hrest', ← List.append_assoc] at hplaces
  have hmem {x : Place} (hx : x ∈ ps ++ qs) : x ∈ l.places := by
    rw [hplaces]
    exact List.mem_append_left _ hx
  have hpassed (x : Place) (hx : x ∈ ps ++ qs) : x.checkReached = .ok () ∧ x.checkNode = .ok () := by
    apply h.checks (hmem hx)
    intro i hi
    rcases List.mem_append.mp hx with hx | hx
    · apply hbefore
      rw [← hps]
      exact List.mem_filterMap.mpr ⟨x, hx, hi⟩
    · rw [hqs x hx] at hi
      cases hi
  have hnodup := h.nodup_places
  rw [hplaces] at hnodup
  rw [← List.nil_append (List.filterMap _ _)] at hnodup
  obtain ⟨seen, hskip, hnodup⟩ := Place.checkAll_append hpassed hnodup
  have hreached : q.checkReached = .ok () := by
    refine checkReached_iff_ended.mpr h.ended q ?_
    rw [hplaces]
    exact List.mem_append_right _ List.mem_cons_self
  have hchecked : Place.checkAll [] l.places = .error j.fault := by
    rw [hplaces, hskip, Place.checkAll_cons_eq hreached (Place.nodup_ids_cons hnodup).1,
      Place.checkNode_of_not_bound hq hj]
    rfl
  unfold project
  rw [hchecked]
  rfl

end Shaped

end LocalProtocol

theorem Jump.kind_fault (j : Jump) :
    (CompileError.layout j.fault).kind = if j.Enclosed then .shape else .linkage := by
  unfold fault
  split <;> rfl

/-! ### Protocols that are read -/

namespace Grammar

section Inside

variable {protagonist : String}

theorem Blocks.ne_nil {α : Type} {P : List String → α → Prop} {sep : String} {ws : List String}
    {as : List α} (h : Blocks P sep ws as) : as ≠ [] := by
  cases h <;> exact List.cons_ne_nil _ _

theorem Branches.exists_blocks {α : Type} {P : List String → α → Prop} {sep : String}
    {ws : List String} {as : List α} (h : Branches P sep ws as) : ∃ us, Blocks P sep us as := by
  cases h with
  | plain h => exact ⟨_, h⟩
  | wrapped h => exact ⟨_, h⟩

-- each step inside a step has a text of its own; structural in the step, as the texts of its blocks are
mutual

theorem StepText.exists_inside {ws : List String} {n : Node} :
    StepText protagonist ws n → ∀ m ∈ n.preorder, ∃ us, StepText protagonist us m
  | .message hname hkeyword hpayloads hdirection => by
    intro m hm
    rw [Node.preorder] at hm
    obtain rfl := List.mem_singleton.mp hm
    exact ⟨_, .message hname hkeyword hpayloads hdirection⟩
  | .choice hchooser hbranches => by
    intro m hm
    rw [Node.preorder] at hm
    obtain ⟨us, hblocks⟩ := hbranches.exists_blocks
    rcases List.mem_cons.mp hm with rfl | hm
    · exact ⟨_, .choice hchooser hbranches⟩
    · exact hblocks.exists_inside m hm
  | .par hbranches => by
    intro m hm
    rw [Node.preorder] at hm
    obtain ⟨us, hblocks⟩ := hbranches.exists_blocks
    rcases List.mem_cons.mp hm with rfl | hm
    · exact ⟨_, .par hbranches⟩
    · exact hblocks.exists_inside m hm
  | .loop hlabel hbody => by
    intro m hm
    rw [Node.preorder] at hm
    rcases List.mem_cons.mp hm with rfl | hm
    · exact ⟨_, .loop hlabel hbody⟩
    · exact hbody.exists_inside m hm
  | .call hname hroles => by
    intro m hm
    rw [Node.preorder] at hm
    obtain rfl := List.mem_singleton.mp hm
    exact ⟨_, .call hname hroles⟩
  | .jump hlabel => by
    intro m hm
    rw [Node.preorder] at hm
    obtain rfl := List.mem_singleton.mp hm
    exact ⟨_, .jump hlabel⟩

theorem Steps.exists_inside {ws : List String} {c : Conversation} :
    Steps (StepText protagonist) ws c →
      ∀ m ∈ Conversation.preorder c, ∃ us, StepText protagonist us m
  | .nil => by simp [Conversation.preorder]
  | .cons hn hns _ => by
    intro m hm
    rw [Conversation.preorder] at hm
    rcases List.mem_append.mp hm with hm | hm
    · exact hn.exists_inside m hm
    · exact hns.exists_inside m hm

theorem Blocks.exists_inside {sep : String} {ws : List String} {bs : List Conversation} :
    Blocks (Steps (StepText protagonist)) sep ws bs →
      ∀ m ∈ branchesPreorder bs, ∃ us, StepText protagonist us m
  | .last hb => by
    intro m hm
    rw [branchesPreorder, branchesPreorder, List.append_nil] at hm
    exact hb.exists_inside m hm
  | .more hb hbs => by
    intro m hm
    rw [branchesPreorder] at hm
    rcases List.mem_append.mp hm with hm | hm
    · exact hb.exists_inside m hm
    · exact hbs.exists_inside m hm

end

theorem StepText.branched {ws : List String} {n : Node} (h : StepText protagonist ws n) :
    n.Branched := by
  cases h with
  | choice _ hbranches | par hbranches =>
    obtain ⟨us, hblocks⟩ := hbranches.exists_blocks
    exact hblocks.ne_nil
  | message | loop | call | jump => trivial

end Inside

theorem Sections.exists_localText {ws : List String} {p : Protocol} (h : Sections ws p)
    {l : LocalProtocol} (hl : l ∈ p.locals) : ∃ us, LocalText us l := by
  induction h with
  | nil => cases hl
  | moduleName _ _ _ ih => exact ih hl
  | typeImport _ _ ih => exact ih hl
  | localProtocol hu _ ih =>
    rcases List.mem_cons.mp hl with rfl | hl
    · exact ⟨_, hu⟩
    · exact ih hl

variable {concurrent : Bool} {tokens : List Token} {p : Protocol} {l : LocalProtocol}

theorem branched_of_readProtocol (h : readProtocol concurrent tokens = .ok p) (hl : l ∈ p.locals) :
    ∀ n ∈ l.steps, n.Branched := by
  obtain ⟨⟨q, s⟩, hread, rfl⟩ := map_eq_ok.mp h
  obtain ⟨us, hlocal⟩ := (protocolReading_eq_ok.mp hread).1.1.sections.exists_localText hl
  cases hlocal with
  | localProtocol _ _ _ hbody =>
    intro n hn
    obtain ⟨_, htext⟩ := hbody.exists_inside n hn
    exact htext.branched

theorem nodup_ids_of_readProtocol (h : readProtocol concurrent tokens = .ok p) (hl : l ∈ p.locals)
    (hlength : l.ids.length ≤ UInt32.size) : l.ids.Nodup := by
  obtain ⟨next, hcounted⟩ := (identified_of_readProtocol h l hl).exists_counted
  exact hcounted.nodup hlength

end Grammar

/-! ### The verdict on a local protocol -/

/-- How projecting a local protocol turns out. -/
structure LocalProtocol.Judged (l : LocalProtocol) (moduleName? : Option String)
    (types : List TypeImport) : Prop where
  accepted : (∃ p, l.project moduleName? types = .ok p) ↔ l.WellFormed
  /-- If nothing but jumps is at fault, then the report is about the first of these. It is on linkage
  if the jump lies in no loop with its label, and on the shape if a parallel step cuts it off. -/
  unbound : l.Shaped → ∀ before j after, l.jumps = before ++ j :: after →
    (∀ i ∈ before, i.Bound) → ¬ j.Bound →
      l.project moduleName? types = .error j.fault ∧
        (CompileError.layout j.fault).kind = if j.Enclosed then .shape else .linkage
  /-- Of a local protocol that is read, the branches are there, and the identifiers are distinct as
  long as there are numbers for them. -/
  read : ∀ concurrent tokens p, Grammar.readProtocol concurrent tokens = .ok p → l ∈ p.locals →
    (∀ n ∈ l.steps, n.Branched) ∧ (l.ids.length ≤ UInt32.size → l.ids.Nodup)

/-- Exactly the well-formed local protocols are projected. -/
theorem LocalProtocol.judged_project (l : LocalProtocol) (moduleName? : Option String)
    (types : List TypeImport) : l.Judged moduleName? types where
  accepted := by
    constructor
    · intro h
      obtain ⟨p, hp⟩ := h
      exact (yields_of_project_eq_ok hp).wellFormed
    · intro h
      exact h.toShaped.exists_project h.bound moduleName? types
  unbound := by
    intro h before j after hjumps hbefore hj
    exact ⟨h.project_eq_error hjumps hbefore hj moduleName? types, j.kind_fault⟩
  read := by
    intro concurrent tokens p hread hl
    exact ⟨Grammar.branched_of_readProtocol hread hl, Grammar.nodup_ids_of_readProtocol hread hl⟩

-- a parallel step cuts the first jump off from its loop, and the second has none
example : LocalProtocol.project none []
    ⟨"Shop", "Clerk", ["Clerk"], [.loop ⟨"Shop", "Day", 0⟩ "Day" [.par ⟨"Shop", "par", 1⟩
      [[.jump ⟨"Shop", "continue", 2⟩ "Day"]]]]⟩ = .error (.leavesPar "Day") := rfl

example : LocalProtocol.project none []
    ⟨"Shop", "Clerk", ["Clerk"], [.loop ⟨"Shop", "Day", 0⟩ "Day"
      [.jump ⟨"Shop", "continue", 1⟩ "Night"]]⟩ = .error (.unboundJump "Night") := rfl

end Parley
