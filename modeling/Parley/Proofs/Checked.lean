import Parley.Proofs.Declared
import Parley.Proofs.Outline
import Parley.Proofs.Signal
import Parley.Proofs.WellFormed

/-! What is known of a projection that comes from a protocol text: the text was read and its roles and
types are declared, and all words in it are identifiers. -/

namespace Parley

open Outcome

/-- A projection that was checked on its way from a protocol text. -/
structure Projection.Checked (p : Projection) (l : LocalProtocol) (types : List String) : Prop where
  written : ∃ ws, Grammar.LocalText ws l
  yields : l.Yields p
  declared : l.check types = .ok ()
  roles : p.roles = l.roles

/-- Each projection is that of a local protocol in a text that is read and declared. -/
theorem exists_local_of_compile {concurrent : Bool} {text : String} {c : Compiled}
    (h : compile concurrent text = .ok c) {p : Projection} (hp : p ∈ c.projections) :
    ∃ ws q, Grammar.Sections ws q ∧ q.check = .ok () ∧
      ∃ l ∈ q.locals, l.project q.moduleName? q.types = .ok p := by
  obtain ⟨q, hparse, h⟩ := bind_eq_ok.mp h
  obtain ⟨_, hverify, h⟩ := bind_eq_ok.mp h
  obtain ⟨ps, hproject, h⟩ := bind_eq_ok.mp h
  cases h
  obtain ⟨⟨q', s⟩, hread, rfl⟩ := map_eq_ok.mp (mapError_eq_ok.mp hparse)
  obtain ⟨⟨hrenders, _⟩, _⟩ := Grammar.protocolReading_eq_ok.mp hread
  exact ⟨_, q', hrenders.sections, mapError_eq_ok.mp hverify,
    exists_of_mem_mapM (mapError_eq_ok.mp hproject) hp⟩

theorem exists_checked_of_compile {concurrent : Bool} {text : String} {c : Compiled}
    (h : compile concurrent text = .ok c) {p : Projection} (hp : p ∈ c.projections) :
    ∃ l aliases, p.Checked l (nativeTypes ++ aliases) ∧
      (∀ name, name ∈ aliases ↔ ∃ t ∈ p.types, t.alias? = some name) ∧
      ∀ name ∈ aliases, Grammar.isIdentifier name = true := by
  obtain ⟨ws, q, hsections, hcheck, l, hl, hp⟩ := exists_local_of_compile h hp
  have y := LocalProtocol.yields_of_project_eq_ok hp
  obtain ⟨hroles, htypes⟩ := LocalProtocol.fields_of_project_eq_ok hp
  refine ⟨l, q.aliases, ⟨hsections.exists_localText hl, y, Protocol.check_of_mem hcheck hl, hroles⟩,
    ?_, ?_⟩
  · intro name
    rw [htypes, Protocol.aliases, List.mem_filterMap]
  · intro name hname
    obtain ⟨t, ht, halias⟩ := List.mem_filterMap.mp hname
    exact Grammar.isIdentifier_alias hsections ht halias

theorem Grammar.LocalText.exists_step {ws : List String} {l : LocalProtocol} (h : LocalText ws l)
    {s : Stretch} (hs : l.Has s) {n : Node} {ns : Conversation} (hr : s.rest = n :: ns) :
    ∃ us, StepText l.protagonist us n := by
  cases h with
  | localProtocol _ _ _ hbody => exact hbody.exists_inside n (hs.mem_preorder hr)

theorem Grammar.Bracketed.exists_of_mem {α : Type} {P : List String → α → Prop} {ws : List String}
    {as : List α} (h : Bracketed P ws as) {a : α} (ha : a ∈ as) : ∃ us, P us a := by
  cases h with
  | none => cases ha
  | some h =>
    induction h with
    | last hfirst =>
      obtain rfl := List.mem_singleton.mp ha
      exact ⟨_, hfirst⟩
    | more hfirst _ ih =>
      rcases List.mem_cons.mp ha with rfl | ha
      · exact ⟨_, hfirst⟩
      · exact ih ha

theorem Grammar.LocalText.isIdentifier_role {ws : List String} {l : LocalProtocol}
    (h : LocalText ws l) {role : String} (hrole : role ∈ l.roles) : isIdentifier role = true := by
  cases h with
  | localProtocol _ _ hroles _ =>
    obtain ⟨us, htext⟩ := hroles.exists_of_mem hrole
    cases htext with
    | role hid => exact hid

namespace Projection.Checked

variable {p : Projection} {l : LocalProtocol} {types : List String} (h : p.Checked l types)

include h

theorem message {r : MessageRecord} (hr : r ∈ p.messages) : r.message.Declared l types :=
  h.yields.message_declared h.declared hr

theorem direction {r : MessageRecord} (hr : r ∈ p.messages) :
    (r.direction = .send ↔ r.message.sender = p.protagonist) ∧
      (r.direction = .receive → r.message.receiver = p.protagonist) := by
  obtain ⟨s, _, ns, _, _, _, hdirection, _⟩ := h.yields.exists_stretch (r := .message r) hr
  rw [hdirection, LocalProtocol.directionOf, h.yields.protagonist]
  by_cases hs : r.message.sender = l.protagonist
  · simp [hs]
  · simpa [hs] using (h.message hr).involved

theorem peer {r : MessageRecord} (hr : r ∈ p.messages) :
    r.peer ∈ p.roles ∧ r.peer ≠ p.protagonist := by
  obtain ⟨hsend, hreceive⟩ := h.direction hr
  have hm := h.message hr
  rw [h.roles]
  cases hd : r.direction with
  | send =>
    rw [MessageRecord.peer, hd, ← hsend.mp hd]
    exact ⟨hm.receiver, hm.apart.symm⟩
  | receive =>
    rw [MessageRecord.peer, hd, ← hreceive hd]
    exact ⟨hm.sender, hm.apart⟩

theorem chooser {r : ChoiceRecord} (hr : r ∈ p.choices) : r.chooser ∈ p.roles :=
  h.roles ▸ h.yields.declared_chooser h.declared hr

theorem protagonist_mem : p.protagonist ∈ p.roles := by
  rw [h.roles, h.yields.protagonist]
  exact (LocalProtocol.check_eq_ok.mp h.declared).2.1

end Projection.Checked

/-- A projection of a local protocol whose words are identifiers. -/
structure Projection.Lettered (p : Projection) : Prop where
  protagonist : Grammar.isIdentifier p.protagonist = true
  roles : ∀ role ∈ p.roles, Grammar.isIdentifier role = true
  labels : ∀ r ∈ p.messages, Grammar.isIdentifier r.message.name = true
  payloads : ∀ r ∈ p.messages, ∀ type ∈ r.message.payloads, Grammar.isIdentifier type = true
  signals : ∀ r ∈ p.choices, ∀ b ∈ r.branches, ∀ s, b.signal? = some s →
    Grammar.isIdentifier s.label = true
  aliases : ∀ t ∈ p.types, ∀ name, t.alias? = some name → Grammar.isIdentifier name = true

theorem lettered_of_compile {concurrent : Bool} {text : String} {c : Compiled}
    (h : compile concurrent text = .ok c) {p : Projection} (hp : p ∈ c.projections) :
    p.Lettered := by
  obtain ⟨l, aliases, hchecked, haliases, hnames⟩ := exists_checked_of_compile h hp
  obtain ⟨ws, htext⟩ := hchecked.written
  have hroles : ∀ role ∈ p.roles, Grammar.isIdentifier role = true := by
    intro role hrole
    exact htext.isIdentifier_role (hchecked.roles ▸ hrole)
  have hlabels : ∀ r ∈ p.messages, Grammar.isIdentifier r.message.name = true := by
    intro r hr
    obtain ⟨s, hs, ns, hrest, _⟩ := hchecked.yields.exists_stretch (r := .message r) hr
    obtain ⟨vs, hstep⟩ := htext.exists_step hs hrest
    cases hstep with
    | message hname => exact hname
  refine ⟨hroles _ hchecked.protagonist_mem, hroles, hlabels, ?_, ?_, ?_⟩
  · intro r hr type htype
    rcases List.mem_append.mp ((hchecked.message hr).payloads type htype) with hnative | halias
    · have hall : ∀ type ∈ nativeTypes, Grammar.isIdentifier type = true := by decide
      exact hall type hnative
    · exact hnames type halias
  · intro r hr b hb signal hsignal
    obtain ⟨k, hk⟩ := List.mem_iff_getElem?.mp hb
    obtain ⟨m, hm, _, _, hname⟩ := hchecked.yields.exists_signal_record hr hk hsignal
    rw [← hname]
    exact hlabels m hm
  · intro t ht name halias
    exact hnames name ((haliases name).mpr ⟨t, ht, halias⟩)

theorem lettered_of_compileTexts {concurrent : Bool} {texts : List (Except FileError String)}
    {ps : List Projection} (h : compileTexts concurrent texts = .ok ps) :
    ∀ p ∈ ps, p.Lettered := by
  intro p hp
  obtain ⟨text, c, hc, hp⟩ := exists_compile_of_compileTexts h hp
  exact lettered_of_compile hc hp

end Parley
