import Mathlib.Data.List.Basic
import Parley.Target

/-! Stretches: what is left of a conversation from a position on, with the frames around it. The
stretches of a local protocol are given inductively, from the whole conversation inwards, and each of
its places begins one. What encloses a stretch begins a stretch in turn. -/

namespace Parley

/-- The steps of a conversation from a position on. -/
structure Stretch where
  stem : String
  frames : List Frame
  position : Nat
  rest : Conversation

/-- The whole body of a loop, inside the frames around the loop. -/
def Loop.stretch (inner : Loop) (outer : List Frame) : Stretch :=
  ⟨inner.stem, .loop inner :: outer, 1, inner.body⟩

namespace Stretch

/-- The state of the first step, if there is one. -/
def state (s : Stretch) : String := stateName s.stem s.position

def target (s : Stretch) : Except LayoutError Target :=
  Target.enter s.stem s.frames s.position s.rest

/-- What is left once the first step is done, given the steps after it. -/
def pass (s : Stretch) (following : Conversation) : Stretch :=
  { s with position := s.position + 1, rest := following }

/-- A loop that begins the stretch, seen from inside. -/
def loop (s : Stretch) (id : NodeId) (label : String) (body : Conversation) : Loop :=
  ⟨id, label, bodyStem s.state label, body⟩

def inLoop (s : Stretch) (id : NodeId) (label : String) (body : Conversation) : Stretch :=
  (s.loop id label body).stretch s.frames

/-- A branch of the choice that begins the stretch. -/
def inChoice (s : Stretch) (following : Conversation) (index : Nat) (b : Conversation) : Stretch :=
  ⟨branchStem s.state choiceTag (index + 1), .choice s.stem s.position following :: s.frames, 1, b⟩

/-- A branch of the parallel step that begins the stretch. -/
def inPar (s : Stretch) (id : NodeId) (index : Nat) (b : Conversation) : Stretch :=
  ⟨branchStem s.state parTag (index + 1), .par id s.state :: s.frames, 1, b⟩

end Stretch

namespace Place

/-- The stretch that begins at a place. -/
def stretch (p : Place) : Stretch := ⟨p.stem, p.frames, p.position, p.node :: p.following⟩

/-- The stretch behind the step at a place. -/
def after (p : Place) : Stretch := ⟨p.stem, p.frames, p.position + 1, p.following⟩

end Place

/-- A list drawn up stretch by stretch: each step gives what `own` says of its place, and then what
the steps inside it give. -/
structure Stretch.Draws {α : Type} (own : Place → List α) (along : Stretch → List α)
    (branches : String → String → List Frame → Nat → List Conversation → List α) : Prop where
  nil : ∀ stem frames i, along ⟨stem, frames, i, []⟩ = []
  message : ∀ stem frames before? i ns m, along ⟨stem, frames, i, .message m :: ns⟩ =
    own ⟨.message m, stem, i, before?, ns, frames⟩ ++ along ⟨stem, frames, i + 1, ns⟩
  call : ∀ stem frames before? i ns name roles, along ⟨stem, frames, i, .call name roles :: ns⟩ =
    own ⟨.call name roles, stem, i, before?, ns, frames⟩ ++ along ⟨stem, frames, i + 1, ns⟩
  jump : ∀ stem frames before? i ns id label, along ⟨stem, frames, i, .jump id label :: ns⟩ =
    own ⟨.jump id label, stem, i, before?, ns, frames⟩ ++ along ⟨stem, frames, i + 1, ns⟩
  loop : ∀ stem frames before? i ns id label body,
    along ⟨stem, frames, i, .loop id label body :: ns⟩ =
      own ⟨.loop id label body, stem, i, before?, ns, frames⟩ ++
        (along (Loop.stretch ⟨id, label, bodyStem (stateName stem i) label, body⟩ frames) ++
          along ⟨stem, frames, i + 1, ns⟩)
  choice : ∀ stem frames before? i ns id chooser bs,
    along ⟨stem, frames, i, .choice id chooser bs :: ns⟩ =
      own ⟨.choice id chooser bs, stem, i, before?, ns, frames⟩ ++
        (branches (stateName stem i) choiceTag (.choice stem i ns :: frames) 1 bs ++
          along ⟨stem, frames, i + 1, ns⟩)
  par : ∀ stem frames before? i ns id bs, along ⟨stem, frames, i, .par id bs :: ns⟩ =
    own ⟨.par id bs, stem, i, before?, ns, frames⟩ ++
      (branches (stateName stem i) parTag (.par id (stateName stem i) :: frames) 1 bs ++
        along ⟨stem, frames, i + 1, ns⟩)
  branches_nil : ∀ state tag frames i, branches state tag frames i [] = []
  branches_cons : ∀ state tag frames i b bs, branches state tag frames i (b :: bs) =
    along ⟨branchStem state tag i, frames, 1, b⟩ ++ branches state tag frames (i + 1) bs

section Drawn

variable {α : Type} {own : Place → List α} {along : Stretch → List α}
  {branches : String → String → List Frame → Nat → List Conversation → List α}

mutual

theorem Conversation.flatMap_places (h : Stretch.Draws own along branches) (stem : String)
    (frames : List Frame) (before? : Option Node) (i : Nat) : ∀ c : List Node,
      (Conversation.places stem frames before? i c).flatMap own = along ⟨stem, frames, i, c⟩
  | [] => by rw [Conversation.places, h.nil, List.flatMap_nil]
  | n :: ns => by
    rw [Conversation.places, List.flatMap_cons, List.flatMap_append,
      Conversation.flatMap_places h stem frames (some n) (i + 1) ns]
    exact Node.flatMap_placesWithin h stem frames before? i ns n

theorem Node.flatMap_placesWithin (h : Stretch.Draws own along branches) (stem : String)
    (frames : List Frame) (before? : Option Node) (i : Nat) (following : Conversation) :
    ∀ n : Node, own ⟨n, stem, i, before?, following, frames⟩ ++
      ((n.placesWithin stem frames i following).flatMap own ++ along ⟨stem, frames, i + 1, following⟩) =
        along ⟨stem, frames, i, n :: following⟩
  | .loop id label body => by
    rw [Node.placesWithin, Conversation.flatMap_places h, h.loop stem frames before?]
    rfl
  | .choice id chooser bs => by
    rw [Node.placesWithin, flatMap_branchPlaces h, h.choice stem frames before?]
  | .par id bs => by rw [Node.placesWithin, flatMap_branchPlaces h, h.par stem frames before?]
  | .message m => by
    rw [Node.placesWithin, h.message stem frames before?, List.flatMap_nil, List.nil_append]
  | .call name roles => by
    rw [Node.placesWithin, h.call stem frames before?, List.flatMap_nil, List.nil_append]
  | .jump id label => by
    rw [Node.placesWithin, h.jump stem frames before?, List.flatMap_nil, List.nil_append]

theorem flatMap_branchPlaces (h : Stretch.Draws own along branches) (state tag : String)
    (frames : List Frame) (i : Nat) : ∀ bs : List (List Node),
      (branchPlaces state tag frames i bs).flatMap own = branches state tag frames i bs
  | [] => by rw [branchPlaces, h.branches_nil, List.flatMap_nil]
  | b :: bs => by
    rw [branchPlaces, h.branches_cons, List.flatMap_append, Conversation.flatMap_places h,
      flatMap_branchPlaces h state tag frames (i + 1) bs]

end

theorem Conversation.map_places {f : Place → α} (h : Stretch.Draws (fun q => [f q]) along branches)
    (stem : String) (frames : List Frame) (before? : Option Node) (i : Nat) (c : Conversation) :
    (Conversation.places stem frames before? i c).map f = along ⟨stem, frames, i, c⟩ := by
  rw [List.map_eq_flatMap, Conversation.flatMap_places h]

end Drawn

namespace LocalProtocol

def whole (l : LocalProtocol) : Stretch := ⟨l.protagonist, [], 1, l.conversation⟩

/-- The stretches of a local protocol. -/
inductive Has (l : LocalProtocol) : Stretch → Prop where
  | whole : l.Has l.whole
  | pass {s : Stretch} {n : Node} {ns : Conversation} :
      l.Has s → s.rest = n :: ns → l.Has (s.pass ns)
  | body {s : Stretch} {id : NodeId} {label : String} {body ns : Conversation} :
      l.Has s → s.rest = .loop id label body :: ns → l.Has (s.inLoop id label body)
  | choice {s : Stretch} {id : NodeId} {chooser : String} {bs : List Conversation}
      {ns b : Conversation} {k : Nat} :
      l.Has s → s.rest = .choice id chooser bs :: ns → bs[k]? = some b → l.Has (s.inChoice ns k b)
  | par {s : Stretch} {id : NodeId} {bs : List Conversation} {ns b : Conversation} {k : Nat} :
      l.Has s → s.rest = .par id bs :: ns → bs[k]? = some b → l.Has (s.inPar id k b)

end LocalProtocol

section Places

variable {l : LocalProtocol}

theorem branchPlaces_subset {state tag : String} {frames : List Frame} {bs : List Conversation}
    {b : Conversation} {k : Nat} (i : Nat) (h : bs[k]? = some b) :
    Conversation.places (branchStem state tag (i + k)) frames none 1 b ⊆
      branchPlaces state tag frames i bs := by
  induction bs generalizing i k with
  | nil => simp at h
  | cons a as ih =>
    rw [branchPlaces]
    cases k with
    | zero =>
      obtain rfl : a = b := by simpa using h
      exact List.subset_append_left _ _
    | succ k =>
      have hk := ih (i + 1) (k := k) (by simpa using h)
      rw [show i + 1 + k = i + (k + 1) by omega] at hk
      exact List.Subset.trans hk (List.subset_append_right _ _)

theorem LocalProtocol.Has.places_subset {s : Stretch} (h : l.Has s) :
    ∃ before?, Conversation.places s.stem s.frames before? s.position s.rest ⊆ l.places := by
  induction h with
  | whole => exact ⟨none, List.Subset.refl _⟩
  | @pass s n ns _ hs ih =>
    obtain ⟨before?, hp⟩ := ih
    rw [hs, Conversation.places] at hp
    refine ⟨some n, fun p hm => hp (List.mem_cons_of_mem _ (List.mem_append_right _ hm))⟩
  | @body s id label body ns _ hs ih =>
    obtain ⟨before?, hp⟩ := ih
    rw [hs, Conversation.places, Node.placesWithin] at hp
    exact ⟨none, fun p hm => hp (List.mem_cons_of_mem _ (List.mem_append_left _ hm))⟩
  | @choice s id chooser bs ns b k _ hs hk ih =>
    obtain ⟨before?, hp⟩ := ih
    rw [hs, Conversation.places, Node.placesWithin] at hp
    refine ⟨none, fun p hm => hp (List.mem_cons_of_mem _ (List.mem_append_left _ ?_))⟩
    apply branchPlaces_subset 1 hk
    rw [Nat.add_comm 1 k]
    exact hm
  | @par s id bs ns b k _ hs hk ih =>
    obtain ⟨before?, hp⟩ := ih
    rw [hs, Conversation.places, Node.placesWithin] at hp
    refine ⟨none, fun p hm => hp (List.mem_cons_of_mem _ (List.mem_append_left _ ?_))⟩
    apply branchPlaces_subset 1 hk
    rw [Nat.add_comm 1 k]
    exact hm

theorem LocalProtocol.Has.exists_place {s : Stretch} (h : l.Has s) {n : Node} {ns : Conversation}
    (hs : s.rest = n :: ns) : ∃ p ∈ l.places, p.node = n ∧ p.stretch = s ∧ p.after = s.pass ns := by
  obtain ⟨before?, hp⟩ := h.places_subset
  rw [hs, Conversation.places] at hp
  refine ⟨_, hp List.mem_cons_self, rfl, ?_, rfl⟩
  simp only [Place.stretch]
  rw [← hs]

/-- The steps in `c` come behind the given one, if there is one. -/
def LocalProtocol.Follows (l : LocalProtocol) (before? : Option Node) (c : Conversation) : Prop :=
  ∀ n, before? = some n → ∃ s, l.Has s ∧ s.rest = n :: c

theorem LocalProtocol.follows_none (c : Conversation) : l.Follows none c := by
  intro n hn
  cases hn

mutual

theorem Conversation.has_of_mem_places (stem : String) (frames : List Frame)
    (before? : Option Node) (i : Nat) : ∀ c : List Node, l.Has ⟨stem, frames, i, c⟩ →
      l.Follows before? c → ∀ p ∈ Conversation.places stem frames before? i c,
        l.Has p.stretch ∧ l.Follows p.before? p.stretch.rest
  | [], _, _, p, hp => by simp [Conversation.places] at hp
  | n :: ns, h, hf, p, hp => by
    rw [Conversation.places] at hp
    rcases List.mem_cons.mp hp with rfl | hp
    · exact ⟨h, hf⟩
    rcases List.mem_append.mp hp with hp | hp
    · exact Node.has_of_mem_placesWithin stem frames i ns n h p hp
    · refine Conversation.has_of_mem_places stem frames (some n) (i + 1) ns (h.pass rfl) ?_ p hp
      intro m hm
      cases hm
      exact ⟨_, h, rfl⟩

theorem Node.has_of_mem_placesWithin (stem : String) (frames : List Frame) (i : Nat)
    (following : Conversation) : ∀ n : Node, l.Has ⟨stem, frames, i, n :: following⟩ →
      ∀ p ∈ n.placesWithin stem frames i following,
        l.Has p.stretch ∧ l.Follows p.before? p.stretch.rest
  | .loop id label body, h, p, hp => by
    rw [Node.placesWithin] at hp
    exact Conversation.has_of_mem_places _ _ none 1 body (h.body rfl) (l.follows_none body) p hp
  | .choice id chooser branches, h, p, hp => by
    rw [Node.placesWithin] at hp
    refine branchPlaces_has_of_mem _ _ _ 1 branches ?_ p hp
    intro k b hk
    rw [Nat.add_comm 1 k]
    exact h.choice rfl hk
  | .par id branches, h, p, hp => by
    rw [Node.placesWithin] at hp
    refine branchPlaces_has_of_mem _ _ _ 1 branches ?_ p hp
    intro k b hk
    rw [Nat.add_comm 1 k]
    exact h.par rfl hk
  | .message m, _, p, hp => by simp [Node.placesWithin] at hp
  | .call name roles, _, p, hp => by simp [Node.placesWithin] at hp
  | .jump id label, _, p, hp => by simp [Node.placesWithin] at hp

theorem branchPlaces_has_of_mem (state tag : String) (frames : List Frame) (i : Nat) :
    ∀ bs : List (List Node),
      (∀ (k : Nat) b, bs[k]? = some b → l.Has ⟨branchStem state tag (i + k), frames, 1, b⟩) →
        ∀ p ∈ branchPlaces state tag frames i bs,
          l.Has p.stretch ∧ l.Follows p.before? p.stretch.rest
  | [], _, p, hp => by simp [branchPlaces] at hp
  | b :: bs, h, p, hp => by
    rw [branchPlaces] at hp
    rcases List.mem_append.mp hp with hp | hp
    · exact Conversation.has_of_mem_places _ _ none 1 b (h 0 b (by simp)) (l.follows_none b) p hp
    · refine branchPlaces_has_of_mem state tag frames (i + 1) bs ?_ p hp
      intro k c hk
      rw [show i + 1 + k = i + (k + 1) by omega]
      exact h (k + 1) c (by simpa using hk)

end

theorem LocalProtocol.has_of_mem_places {p : Place} (hp : p ∈ l.places) : l.Has p.stretch :=
  (Conversation.has_of_mem_places _ _ none 1 l.conversation .whole (l.follows_none _) p hp).1

theorem LocalProtocol.follows_of_mem_places {p : Place} (hp : p ∈ l.places) :
    l.Follows p.before? p.stretch.rest :=
  (Conversation.has_of_mem_places _ _ none 1 l.conversation .whole (l.follows_none _) p hp).2

end Places

namespace LocalProtocol.Has

variable {l : LocalProtocol}

theorem drop {s : Stretch} (h : l.Has s) {xs ys : Conversation} (hr : s.rest = xs ++ ys) :
    l.Has ⟨s.stem, s.frames, s.position + xs.length, ys⟩ := by
  induction xs generalizing s with
  | nil =>
    rw [List.nil_append] at hr
    rw [← hr]
    exact h
  | cons x xs ih =>
    have hrest := ih (h.pass hr) rfl
    rw [List.length_cons, show s.position + (xs.length + 1) = s.position + 1 + xs.length by omega]
    exact hrest

/-- The loop around a stretch begins a stretch of its own, inside the frames further out. -/
theorem enclosing_loop {s : Stretch} (h : l.Has s) {inner : Loop} {outer : List Frame}
    (hf : s.frames = .loop inner :: outer) :
    ∃ t following, l.Has t ∧ t.rest = .loop inner.id inner.label inner.body :: following ∧
      t.frames = outer ∧ inner = t.loop inner.id inner.label inner.body := by
  induction h with
  | whole => simp [LocalProtocol.whole] at hf
  | pass _ _ ih => exact ih hf
  | @body s id label body ns h hs _ =>
    simp only [Stretch.inLoop, Loop.stretch, List.cons.injEq, Frame.loop.injEq] at hf
    obtain ⟨rfl, rfl⟩ := hf
    exact ⟨s, ns, h, hs, rfl, rfl⟩
  | choice => simp [Stretch.inChoice] at hf
  | par => simp [Stretch.inPar] at hf

theorem enclosing_choice {s : Stretch} (h : l.Has s) {stem : String} {i : Nat}
    {following : Conversation} {outer : List Frame}
    (hf : s.frames = .choice stem i following :: outer) :
    ∃ t id chooser bs, l.Has t ∧ t.rest = .choice id chooser bs :: following ∧
      t.frames = outer ∧ t.stem = stem ∧ t.position = i := by
  induction h with
  | whole => simp [LocalProtocol.whole] at hf
  | pass _ _ ih => exact ih hf
  | body => simp [Stretch.inLoop, Loop.stretch] at hf
  | @choice s id chooser bs ns b k h hs _ _ =>
    simp only [Stretch.inChoice, List.cons.injEq, Frame.choice.injEq] at hf
    obtain ⟨⟨rfl, rfl, rfl⟩, rfl⟩ := hf
    exact ⟨s, id, chooser, bs, h, hs, rfl, rfl, rfl⟩
  | par => simp [Stretch.inPar] at hf

theorem enclosing_par {s : Stretch} (h : l.Has s) {id : NodeId} {state : String}
    {outer : List Frame} (hf : s.frames = .par id state :: outer) :
    ∃ t bs following, l.Has t ∧ t.rest = .par id bs :: following ∧ t.frames = outer ∧
      t.state = state := by
  induction h with
  | whole => simp [LocalProtocol.whole] at hf
  | pass _ _ ih => exact ih hf
  | body => simp [Stretch.inLoop, Loop.stretch] at hf
  | choice => simp [Stretch.inChoice] at hf
  | @par s pid bs ns b k h hs _ _ =>
    simp only [Stretch.inPar, List.cons.injEq, Frame.par.injEq] at hf
    obtain ⟨⟨rfl, rfl⟩, rfl⟩ := hf
    exact ⟨s, bs, ns, h, hs, rfl, rfl⟩

theorem behind_choice {s : Stretch} (h : l.Has s) {stem : String} {i : Nat}
    {following : Conversation} {outer : List Frame}
    (hf : s.frames = .choice stem i following :: outer) : l.Has ⟨stem, outer, i + 1, following⟩ := by
  obtain ⟨t, id, chooser, bs, ht, hr, rfl, rfl, rfl⟩ := h.enclosing_choice hf
  exact ht.pass hr

theorem enclosing {s : Stretch} (h : l.Has s) {f : Frame} {outer : List Frame}
    (hf : s.frames = f :: outer) : ∃ t, l.Has t ∧ t.frames = outer := by
  cases f with
  | loop inner =>
    obtain ⟨t, _, ht, _, hframes, _⟩ := h.enclosing_loop hf
    exact ⟨t, ht, hframes⟩
  | choice stem i following => exact ⟨_, h.behind_choice hf, rfl⟩
  | par id state =>
    obtain ⟨t, _, _, ht, _, hframes, _⟩ := h.enclosing_par hf
    exact ⟨t, ht, hframes⟩

theorem inside_loop {s : Stretch} (h : l.Has s) {inner : Loop} {outer : List Frame}
    (hf : s.frames = .loop inner :: outer) : l.Has (inner.stretch outer) := by
  obtain ⟨t, following, ht, hr, rfl, he⟩ := h.enclosing_loop hf
  have hb := ht.body hr
  rw [Stretch.inLoop, ← he] at hb
  exact hb

end LocalProtocol.Has

namespace Frame

/-- The loop that a jump inside some frames goes back to: the innermost with the label, where no
parallel step lies between. The frames around that loop come last. -/
inductive Binds (label : String) : List Frame → Loop → List Frame → Prop where
  | here {inner : Loop} {outer : List Frame} :
      inner.label = label → Binds label (.loop inner :: outer) inner outer
  | loop {other inner : Loop} {frames outer : List Frame} :
      other.label ≠ label → Binds label frames inner outer →
        Binds label (.loop other :: frames) inner outer
  | choice {stem : String} {i : Nat} {following : Conversation} {inner : Loop}
      {frames outer : List Frame} :
      Binds label frames inner outer → Binds label (.choice stem i following :: frames) inner outer

theorem Binds.label_eq {label : String} {frames outer : List Frame} {inner : Loop}
    (h : Binds label frames inner outer) : inner.label = label := by
  induction h with
  | here h => exact h
  | loop _ _ ih => exact ih
  | choice _ ih => exact ih

theorem exists_binds {label : String} {frames : List Frame} {inner : Loop}
    (h : target label frames = .ok inner) : ∃ outer, Binds label frames inner outer := by
  induction frames with
  | nil => simp [target] at h
  | cons f frames ih =>
    cases f with
    | loop other =>
      rw [target] at h
      by_cases hl : (other.label == label) = true
      · rw [if_pos hl] at h
        cases h
        exact ⟨frames, .here (by simpa using hl)⟩
      · rw [if_neg hl] at h
        obtain ⟨outer, ho⟩ := ih h
        exact ⟨outer, .loop (by simpa using hl) ho⟩
    | choice stem i following =>
      obtain ⟨outer, ho⟩ := ih h
      exact ⟨outer, .choice ho⟩
    | par id state => simp [target] at h

end Frame

theorem LocalProtocol.Has.of_binds {l : LocalProtocol} {label : String} {frames outer : List Frame}
    {inner : Loop} (hb : Frame.Binds label frames inner outer) {s : Stretch} (h : l.Has s)
    (hf : s.frames = frames) : l.Has (inner.stretch outer) := by
  induction hb generalizing s with
  | here => exact h.inside_loop hf
  | loop _ _ ih =>
    obtain ⟨t, ht, htf⟩ := h.enclosing hf
    exact ih ht htf
  | choice _ ih =>
    obtain ⟨t, ht, htf⟩ := h.enclosing hf
    exact ih ht htf

end Parley
