import Parley.Proofs.Request
import Parley.Proofs.TypeScope
import Parley.Proofs.WayOut

/-! The requests in the code of a role. Each message has one, to its peer, and so has each choice that
the role observes, to the chooser. There is none in the rest of the code. -/

namespace Parley

open Outcome Text

/-! ### The words of the code -/

/-- A landing whose state is spelled with letters, digits and underscores. -/
def Landing.Spelled (x : Landing) : Prop := ∀ name, x = .state name → Parts name.toList

namespace Projection.Checked

variable {p : Projection} {l : LocalProtocol} {types : List String} (h : p.Checked l types)

include h

theorem parts_of_inScope {pars : List NodeId} {state : String} (hscope : l.InScope pars state) :
    Parts state.toList := by
  obtain ⟨ws, htext⟩ := h.written
  obtain ⟨s, _, _, hs, _, _, rfl, _⟩ := hscope
  exact parts_stateName (htext.parts_stem hs) _

theorem spelled_of_target {s : Stretch} (hs : l.Has s) {t : Target} (ht : s.target = .ok t)
    {x : Landing} (hx : p.landing t = .ok x) : x.Spelled := by
  obtain ⟨x', hx', hwithin⟩ := h.yields.exists_landing hs ht
  obtain rfl := Except.ok.inj (hx.symm.trans hx')
  rintro name rfl
  exact h.parts_of_inScope hwithin

theorem spelled_start {x : Landing} (hx : p.landing p.start = .ok x) : x.Spelled :=
  h.spelled_of_target .whole h.yields.start hx

theorem spelled_of_mem_targets {r : Record} (hr : p.Lists r) {t : Target} (ht : t ∈ r.targets)
    {x : Landing} (hx : p.landing t = .ok x) : x.Spelled := by
  obtain ⟨s, hs, hrec⟩ := h.yields.exists_stretch hr
  obtain ⟨u, hu, htarget, _⟩ := hrec.exists_of_mem_targets Frame.pars_choice hs ht
  exact h.spelled_of_target hu htarget hx

theorem spelled_of_mem_branches {r : ParRecord} (hr : r ∈ p.pars) {t : Target}
    (ht : t ∈ r.branches) {x : Landing} (hx : p.landing t = .ok x) : x.Spelled := by
  obtain ⟨s, hs, hrec⟩ := h.yields.exists_stretch (r := .par r) hr
  obtain ⟨u, hu, htarget, _⟩ := hrec.exists_frames_of_mem_branches hs ht
  exact h.spelled_of_target hu htarget hx

end Projection.Checked

/-- What a message is sent or received with. -/
def MessageRecord.request (r : MessageRecord) : Api.Request where
  lookup :=
    match r.direction with
    | .send => .send
    | .receive => .recv
  role? := some r.peer

/-- What a choice is resolved with, where it is observed. -/
def ChoiceRecord.request? (r : ChoiceRecord) : Option Api.Request :=
  match r.role with
  | .chooser => none
  | .observer => some ⟨.waitAny, some r.chooser⟩

/-- The requests of all steps of a role. -/
def Projection.requests (p : Projection) : List Api.Request :=
  p.messages.map (·.request) ++ p.choices.filterMap (·.request?)

namespace Api

/-! ### Code without dots -/

theorem dotless_of_parts {cs : List Char} (h : Parts cs) : '.' ∉ cs := by
  intro hdot
  exact absurd (h _ hdot) (by decide)

theorem parts_toString (n : Nat) : Parts (toString n).toList := by
  have htext : (toString n).toList = Nat.toDigits 10 n := by simp
  rw [htext]
  exact parts_toDigits n

theorem dotless_commaList {items : List String} (h : ∀ item ∈ items, '.' ∉ item.toList) :
    '.' ∉ (commaList items).toList :=
  not_mem_intercalate (by decide) h

theorem parts_payloadNames {payloads : List String} :
    ∀ name ∈ payloadNames payloads, Parts name.toList := by
  intro name hname
  obtain ⟨i, _, rfl⟩ := List.mem_map.mp hname
  have htext : ("p" ++ toString i).toList = 'p' :: Nat.toDigits 10 i := by simp
  rw [htext, parts_cons]
  exact ⟨.inl rfl, parts_toDigits i⟩

theorem dotless_payloadNames {payloads : List String} :
    ∀ name ∈ payloadNames payloads, '.' ∉ name.toList := by
  intro name hname
  exact dotless_of_parts (parts_payloadNames name hname)

/-! ### Requests of the steps -/

section Message

variable {m : Message} {value : String} {next : Landing} (hname : Parts m.name.toList)
  (hpayloads : ∀ type ∈ m.payloads, Parts type.toList) (hvalue : Silent value)
  (hnext : next.Spelled)

include hname hpayloads hvalue hnext

end Message

/-- Code that stands on a line of its own in some items, two levels in. -/
structure Inner (items : List Paragraph) (code : String) : Prop where
  mem : pad (pad code) ∈ items.flatten
  isLine : Text.IsLine code.toList
  unpadded : unpadded code = code

theorem Inner.mono {items items' : List Paragraph} {code : String} (h : Inner items code)
    (hsub : items ⊆ items') : Inner items' code := by
  obtain ⟨paragraph, hparagraph, hline⟩ := List.mem_flatten.mp h.mem
  exact ⟨List.mem_flatten.mpr ⟨paragraph, hsub hparagraph, hline⟩, h.isLine, h.unpadded⟩

theorem mem_of_variantOf {vs : List Variant} {r : MessageRecord} {v : Variant}
    (h : variantOf vs r = .ok v) : v ∈ vs := by
  unfold variantOf at h
  split at h
  · rename_i hfind
    cases h
    exact List.mem_of_find?_eq_some hfind
  · cases h

section Steps

variable {p : Projection} {l : LocalProtocol} {types : List String} (hc : p.Checked l types)
  (hw : p.Lettered) {own : List Paragraph}

include hc

/-- The items of a message, and what is known of the words in them. -/
theorem exists_messageItems {vs : List Variant} (hvs : ∀ v ∈ vs, Parts v.name.toList)
    {r : MessageRecord} (hr : r ∈ p.messages) (h : messageItems p vs r = .ok own) :
    ∃ value next, Silent value ∧ '\n' ∉ value.toList ∧ next.Spelled ∧
      own = [stateType r.state (messageDoc r), implOf r.state
        (match r.direction with
        | .send => emitMethod r.message value next
        | .receive => awaitMethod r.message r.state value next)] := by
  obtain ⟨v, hv, h⟩ := bind_eq_ok.mp h
  obtain ⟨next, hlanding, h⟩ := bind_eq_ok.mp h
  have hvariant := hvs v (mem_of_variantOf hv)
  have hdots := dotless_of_parts hvariant
  have hlines := hvariant.newline_not_mem
  have hnames : '\n' ∉ (commaList (payloadNames r.message.payloads)).toList :=
    not_mem_intercalate (by decide) fun name hname => (parts_payloadNames name hname).newline_not_mem
  refine ⟨_, next, ?_, ?_,
    hc.spelled_of_mem_targets (r := .message r) hr (List.mem_singleton_self _) hlanding,
    (pure_eq_ok.mp h).symm⟩
  · apply Silent.of_dotless
    split
    · simp [hdots]
    · simp [hdots, dotless_commaList dotless_payloadNames]
  · split
    · simp [hlines]
    · simp [hlines, hnames]

include hw

omit hw

end Steps

end Api

end Parley
