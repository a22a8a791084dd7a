import Mathlib.Data.List.Induction
import Parley.Proofs.StepReading

/-! The reader of protocols against the grammar. Main statement: a protocol is read from a token list
if and only if the texts of the whole list stand for it and its steps hold the identifiers drawn in
order. -/

namespace Parley

/-- The steps hold the identifiers that reading the text of the protocol gives them. -/
def LocalProtocol.Identified (l : LocalProtocol) : Prop :=
  (Conversation.identify (IdSource.ofScope l.name) l.conversation).1 = l.conversation

namespace Grammar

open Outcome

section Readers

variable {stop : Position} {ts rest run : List Token}

theorem chain_names_eq_ok {names : List String} :
    chain (expectText .identifier stop) (fun ts => .ok (eat? "." ts)) ts = .ok (names, rest) ↔
      names ≠ [] ∧ (∀ name ∈ names, isIdentifier name = true) ∧
        Takes (names.intersperse ".") ts rest ∧ (texts rest).head? ≠ some "." := by
  have progress {ts mid next : List Token} {name : String}
      (hi : expectText .identifier stop ts = .ok (name, mid))
      (hm : (.ok (eat? "." mid) : Except ParseError _) = .ok (some next)) :
      next.length < ts.length := by
    have h₁ := (expectText_eq_ok.mp hi).1.length_eq
    have h₂ := (eat?_eq_some.mp (Except.ok.inj hm)).length_eq
    simp only [List.length_singleton] at h₁ h₂
    omega
  rw [chain_eq_ok progress]
  constructor
  · intro h
    induction h with
    | last hi hm =>
      obtain ⟨hname, hid⟩ := expectText_eq_ok.mp hi
      exact ⟨by simp, List.forall_mem_singleton.mpr hid, hname, eat?_eq_none.mp (Except.ok.inj hm)⟩
    | @more ts mid next rest name names hi hm _ ih =>
      obtain ⟨hname, hid⟩ := expectText_eq_ok.mp hi
      have hdot := eat?_eq_some.mp (Except.ok.inj hm)
      obtain ⟨hne, hids, hnames, hend⟩ := ih
      refine ⟨by simp, List.forall_mem_cons.mpr ⟨hid, hids⟩, ?_, hend⟩
      cases names with
      | nil => exact absurd rfl hne
      | cons name' names => exact hname.trans (hdot.trans hnames)
  · rintro ⟨hne, hids, hnames, hend⟩
    induction names generalizing ts with
    | nil => exact absurd rfl hne
    | cons name names ih =>
      obtain ⟨hid, hids⟩ := List.forall_mem_cons.mp hids
      cases names with
      | nil =>
        have hi : expectText .identifier stop ts = .ok (name, rest) :=
          expectText_eq_ok.mpr ⟨hnames, hid⟩
        exact .last hi (congrArg _ (eat?_eq_none.mpr hend))
      | cons name' names =>
        obtain ⟨mid, hname, hmid⟩ := takes_cons.mp hnames
        obtain ⟨next, hdot, hnext⟩ := takes_cons.mp hmid
        have hi : expectText .identifier stop ts = .ok (name, mid) :=
          expectText_eq_ok.mpr ⟨hname, hid⟩
        exact .more hi (congrArg _ (eat?_eq_some.mpr hdot)) (ih (by simp) hids hnext)

theorem readModule_eq_ok {name : String} :
    readModule run = .ok name ↔ ModuleText (texts run) name := by
  simp only [readModule, bind_eq_ok, pure_eq_ok, expectWord_eq_ok, expectEnd_eq_ok, Prod.exists,
    chain_names_eq_ok]
  constructor
  · rintro ⟨r₁, h₁, names, r₂, ⟨hne, hids, h₂, -⟩, r₃, h₃, _, rfl, rfl⟩
    have hrun : texts run = "module" :: names.intersperse "." ++ [";"] := by
      simpa using takes_all.mp (h₁.trans (h₂.trans h₃))
    rw [hrun]
    exact .names hne hids
  · intro h
    generalize hws : texts run = ws at h
    cases h with
    | @names names hne hids =>
      obtain ⟨r₁, h₁, h⟩ := takes_cons.mp (takes_all.mpr hws)
      obtain ⟨r₂, h₂, h₃⟩ := takes_append.mp h
      have hend : (texts r₂).head? ≠ some "." := by
        rw [h₃.head?_eq]
        decide
      exact ⟨r₁, h₁, names, r₂, ⟨hne, hids, h₂, hend⟩, [], h₃, (), rfl, rfl⟩

theorem textUntil_takes {w text : String} :
    (∃ mid, textUntil w ts = (text, mid) ∧ Takes [w] mid rest) ↔
      ∃ ws, Takes (ws ++ [w]) ts rest ∧ w ∉ ws ∧ text = String.join ws := by
  simp only [textUntil_eq, takes_append]
  constructor
  · rintro ⟨mid, ⟨ws, hws, hw, htext, -⟩, hmid⟩
    exact ⟨ws, ⟨mid, hws, hmid⟩, hw, htext⟩
  · rintro ⟨ws, ⟨mid, hws, hmid⟩, hw, htext⟩
    refine ⟨mid, ⟨ws, hws, hw, htext, ?_⟩, hmid⟩
    rw [hmid.head?_eq]
    simp

theorem quoted_eq_ok {text : String} : quoted stop ts = .ok (text, rest) ↔
    ∃ ws, Takes ("\"" :: ws ++ ["\""]) ts rest ∧ "\"" ∉ ws ∧ text = String.join ws := by
  simp only [quoted, bind_eq_ok, pure_eq_ok, expect_eq_ok, Prod.exists, Prod.mk.injEq, Wanted.admits,
    beq_iff_eq]
  constructor
  · rintro ⟨first, r₁, ⟨rfl, hfirst⟩, last, r₂, ⟨hlast, hl⟩, rfl, rfl⟩
    have hr₁ : ∃ mid, textUntil "\"" r₁ = (_, mid) ∧ Takes ["\""] mid r₂ :=
      ⟨_, rfl, takes_singleton.mpr ⟨last, hlast, hl⟩⟩
    obtain ⟨ws, hws, hq, htext⟩ := textUntil_takes.mp hr₁
    exact ⟨ws, takes_cons.mpr ⟨r₁, takes_singleton.mpr ⟨first, rfl, hfirst⟩, hws⟩, hq, htext⟩
  · rintro ⟨ws, hws, hq, htext⟩
    obtain ⟨r₁, h₁, h⟩ := takes_cons.mp hws
    obtain ⟨first, rfl, hfirst⟩ := takes_singleton.mp h₁
    obtain ⟨mid, hmid, hlast⟩ := textUntil_takes.mpr ⟨ws, h, hq, htext⟩
    obtain ⟨last, rfl, hl⟩ := takes_singleton.mp hlast
    exact ⟨first, r₁, ⟨rfl, hfirst⟩, last, rest, ⟨by rw [hmid], hl⟩, by rw [hmid], rfl⟩

theorem schemaName_eq_ok {text : String} : schemaName stop ts = .ok (text, rest) ↔
    ∃ ws, Takes ("<" :: ws ++ [">"]) ts rest ∧ ">" ∉ ws ∧ text = String.join ws ∧ text ≠ "" := by
  simp only [schemaName, bind_eq_ok, expectWord_eq_ok]
  constructor
  · rintro ⟨r₁, h₁, h⟩
    split at h
    · obtain ⟨_, _, he⟩ := bind_eq_ok.mp h
      cases he
    · rename_i hne
      simp only [bind_eq_ok, expectWord_eq_ok, pure_eq_ok, Prod.mk.injEq] at h
      obtain ⟨r₂, h₂, rfl, rfl⟩ := h
      obtain ⟨ws, hws, hgt, htext⟩ := textUntil_takes.mp ⟨_, Prod.eta _ |>.symm, h₂⟩
      exact ⟨ws, takes_cons.mpr ⟨r₁, h₁, hws⟩, hgt, htext, by simpa using hne⟩
  · rintro ⟨ws, hws, hgt, htext, hne⟩
    obtain ⟨r₁, h₁, h⟩ := takes_cons.mp hws
    obtain ⟨mid, hmid, hclose⟩ := textUntil_takes.mpr ⟨ws, h, hgt, htext⟩
    refine ⟨r₁, h₁, ?_⟩
    simp only [hmid, String.isEmpty_iff, if_neg hne, bind_eq_ok, expectWord_eq_ok, pure_eq_ok]
    exact ⟨rest, hclose, rfl⟩

theorem typeAlias_eq_ok {alias? : Option String} (hrest : (texts rest).head? ≠ some "as") :
    typeAlias stop ts = .ok (alias?, rest) ↔ ∃ ws, Takes ws ts rest ∧ AliasText ws alias? := by
  rw [typeAlias]
  constructor
  · intro h
    split at h
    · rename_i r₁ h₁
      simp only [map_eq_ok, Prod.exists, expectText_eq_ok, Prod.mk.injEq] at h
      obtain ⟨name, r₂, ⟨h₂, hid⟩, rfl, rfl⟩ := h
      exact ⟨_, (eat?_eq_some.mp h₁).trans h₂, .named hid⟩
    · cases h
      exact ⟨[], takes_nil.mpr rfl, .unnamed⟩
  · rintro ⟨ws, hws, h⟩
    cases h with
    | unnamed =>
      obtain rfl := takes_nil.mp hws
      rw [eat?_eq_none.mpr hrest]
    | named hid =>
      obtain ⟨r₁, h₁, h₂⟩ := takes_cons.mp hws
      rw [eat?_eq_some.mpr h₁]
      simp only [map_eq_ok, Prod.exists, expectText_eq_ok, Prod.mk.injEq]
      exact ⟨_, rest, ⟨h₂, hid⟩, rfl, rfl⟩

/-- The texts of a type import, wherever they stand. Nothing is said of braces or semicolons. -/
theorem readType_eq_ok {t : TypeImport} : readType run = .ok t ↔
    ∃ schema source file named, texts run = "type" :: "<" :: schema ++ ">" :: "\"" :: source ++
        "\"" :: "from" :: "\"" :: file ++ "\"" :: named ++ [";"] ∧
      (">" ∉ schema ∧ t.schema = String.join schema ∧ t.schema ≠ "") ∧
      ("\"" ∉ source ∧ t.source = String.join source) ∧
      ("\"" ∉ file ∧ t.fileName = String.join file) ∧ AliasText named t.alias? := by
  simp only [readType, bind_eq_ok, pure_eq_ok, expectWord_eq_ok, expectEnd_eq_ok, Prod.exists,
    schemaName_eq_ok, quoted_eq_ok]
  constructor
  · rintro ⟨r₁, h₁, schema, r₂, ⟨ws₂, h₂, hschema⟩, source, r₃, ⟨ws₃, h₃, hsource⟩, r₄, h₄, file, r₅,
      ⟨ws₅, h₅, hfile⟩, alias?, r₆, h₆, r₇, h₇, _, rfl, rfl⟩
    have hend : (texts r₆).head? ≠ some "as" := by
      rw [h₇.head?_eq]
      decide
    obtain ⟨ws₆, h₆, hnamed⟩ := (typeAlias_eq_ok hend).mp h₆
    refine ⟨ws₂, ws₃, ws₅, ws₆, ?_, hschema, hsource, hfile, hnamed⟩
    simpa using takes_all.mp
      (h₁.trans (h₂.trans (h₃.trans (h₄.trans (h₅.trans (h₆.trans h₇))))))
  · rintro ⟨schema, source, file, named, hws, hschema, hsource, hfile, hnamed⟩
    have h : Takes ("type" :: (("<" :: schema ++ [">"]) ++ (("\"" :: source ++ ["\""]) ++ ("from" ::
        (("\"" :: file ++ ["\""]) ++ (named ++ [";"])))))) run [] := by
      rw [takes_all, hws]
      simp
    obtain ⟨r₁, h₁, h⟩ := takes_cons.mp h
    obtain ⟨r₂, h₂, h⟩ := takes_append.mp h
    obtain ⟨r₃, h₃, h⟩ := takes_append.mp h
    obtain ⟨r₄, h₄, h⟩ := takes_cons.mp h
    obtain ⟨r₅, h₅, h⟩ := takes_append.mp h
    obtain ⟨r₆, h₆, h₇⟩ := takes_append.mp h
    have hend : (texts r₆).head? ≠ some "as" := by
      rw [h₇.head?_eq]
      decide
    exact ⟨r₁, h₁, t.schema, r₂, ⟨schema, h₂, hschema⟩, t.source, r₃, ⟨source, h₃, hsource⟩, r₄, h₄,
      t.fileName, r₅, ⟨file, h₅, hfile⟩, t.alias?, r₆, (typeAlias_eq_ok hend).mpr ⟨named, h₆, hnamed⟩,
      [], h₇, (), rfl, rfl⟩

open Reading in
/-- Numbering the steps again changes nothing when they were read in order. -/
theorem readLocal_eq_ok {concurrent : Bool} {l : LocalProtocol} {s s' : IdSource} :
    (readLocal concurrent run).run s = .ok (l, s') ↔
      (LocalText (texts run) l ∧ l.Identified) ∧ s = s' := by
  have hrenumber {name : String} {c : Conversation} {own : IdSource}
      (h : Conversation.identify (IdSource.ofScope name) c = (c, own)) :
      (if concurrent then (Conversation.renumber 0 c).1 else c) = c := by
    have hr : Conversation.renumber 0 c = _ := Conversation.renumber_of_identify_eq h
    rw [hr, ite_self]
  simp only [readLocal, run_lift_bind_eq_ok, expectText_eq_ok, expectWord_eq_ok, expect_eq_ok,
    expectEnd_eq_ok, block_eq_ok, commaItems_eq_ok readsItems_declaredRole admits_comma, Prod.exists,
    Wanted.admits, beq_iff_eq]
  simp only [run_bind_eq_ok, run_within_eq_ok, run_pure_eq_ok, readConversation_eq_ok]
  constructor
  · rintro ⟨r₁, h₁, r₂, h₂, name, r₃, ⟨h₃, hname⟩, r₄, h₄, protagonist, r₅, ⟨h₅, hprot⟩, r₆, h₆, roles,
      r₇, ⟨ws, h₇, hroles⟩, brace, r₈, ⟨rfl, hbrace⟩, b, r₉, ⟨rfl, hclose, -⟩, _, rfl, c, _,
      ⟨_, own, ⟨hc, hids⟩, rfl, rfl⟩, rfl, rfl⟩
    rw [hrenumber hids]
    have hrun : texts run = "local" :: "protocol" :: name :: "at" :: protagonist :: "(" :: ws ++
        openBrace :: texts b.inner ++ [closeBrace] := by
      have h := h₁.trans (h₂.trans (h₃.trans (h₄.trans (h₅.trans (h₆.trans h₇)))))
      simpa [hbrace, hclose] using h.texts_eq
    rw [hrun]
    exact ⟨⟨.localProtocol (l := ⟨name, protagonist, roles, _⟩) hname hprot hroles hc,
      congrArg Prod.fst hids⟩, rfl⟩
  · rintro ⟨⟨h, hids⟩, rfl⟩
    generalize hws : texts run = ws at h
    cases h with
    | @localProtocol l roles body hname hprot hroles hc =>
      simp only [List.cons_append, List.append_assoc] at hws
      obtain ⟨r₁, h₁, h⟩ := takes_cons.mp (takes_all.mpr hws)
      obtain ⟨r₂, h₂, h⟩ := takes_cons.mp h
      obtain ⟨r₃, h₃, h⟩ := takes_cons.mp h
      obtain ⟨r₄, h₄, h⟩ := takes_cons.mp h
      obtain ⟨r₅, h₅, h⟩ := takes_cons.mp h
      obtain ⟨r₆, h₆, h⟩ := takes_cons.mp h
      obtain ⟨r₇, h₇, h⟩ := takes_append.mp h
      obtain ⟨brace, b, close, r₈, rfl, hbrace, rfl, hclose, hr⟩ := texts_eq_block.mp (takes_all.mp h)
      obtain rfl := texts_eq_nil.mp hr
      have hids' : Conversation.identify (IdSource.ofScope l.name) l.conversation =
          (l.conversation, _) := Prod.ext hids rfl
      refine ⟨r₁, h₁, r₂, h₂, l.name, r₃, ⟨h₃, hname⟩, r₄, h₄, l.protagonist, r₅, ⟨h₅, hprot⟩, r₆, h₆,
        l.roles, _, ⟨roles, h₇, hroles⟩, brace, _, ⟨rfl, hbrace⟩, ⟨b, close⟩, [],
        ⟨rfl, hclose, hc.balanced⟩, (), rfl, l.conversation, _, ⟨_, _, ⟨hc, hids'⟩, rfl, rfl⟩, ?_, rfl⟩
      rw [hrenumber hids']

end Readers

/-- The texts of the run of one section. -/
inductive SectionRun : SectionKind → List String → Prop where
  | statement {kind : SectionKind} {body : List String} : kind ≠ .localProtocol →
      body.head? = some kind.keyword → (∀ w ∈ body, Plain w) → SectionRun kind (body ++ [";"])
  | block {head ws : List String} : head.head? = some "local" → (∀ w ∈ head, Plain w) →
      Balanced ws → SectionRun .localProtocol (head ++ openBrace :: ws ++ [closeBrace])

theorem SectionRun.ne_nil {kind : SectionKind} {run : List Token}
    (h : SectionRun kind (texts run)) : run ≠ [] := by
  rintro rfl
  generalize hws : texts [] = ws at h
  cases h <;> simp at hws

section Cuts

variable {stop : Position} {ts rest : List Token} {sec : Section}

theorem blockSection_eq_ok {run : List Token} : blockSection stop ts = .ok (run, rest) ↔
    ts = run ++ rest ∧ ∃ head ws, texts run = head ++ openBrace :: ws ++ [closeBrace] ∧
      (∀ w ∈ head, Plain w) ∧ Balanced ws := by
  constructor
  · intro h
    simp only [blockSection] at h
    split at h
    · cases h
    · rename_i head brace us hh
      obtain ⟨rfl, hhead, -⟩ := header_eq.mp hh
      split at h
      · rename_i hbrace
        simp only [bind_eq_ok, pure_eq_ok, Prod.mk.injEq, Prod.exists, block_eq_ok] at h
        obtain ⟨b, rest, ⟨rfl, hclose, hb⟩, rfl, rfl⟩ := h
        have hbrace : brace.text = openBrace := by simpa [Token.is] using hbrace
        exact ⟨by simp, texts head, texts b.inner, by simp [hbrace, hclose], hhead, hb⟩
      · cases h
  · rintro ⟨rfl, head, ws, hrun, hhead, hb⟩
    rw [List.append_assoc] at hrun
    obtain ⟨head, r, rfl, rfl, hr⟩ := texts_eq_append.mp hrun
    obtain ⟨brace, inner, close, r, rfl, hbrace, rfl, hclose, hr⟩ := texts_eq_block.mp hr
    obtain rfl := texts_eq_nil.mp hr
    have hts : head ++ brace :: (inner ++ [close]) ++ rest =
        head ++ brace :: (inner ++ close :: rest) := by
      simp
    have hh : header (head ++ brace :: (inner ++ close :: rest)) =
        (head, brace :: (inner ++ close :: rest)) := by
      refine header_eq.mpr ⟨rfl, hhead, ?_⟩
      simp [hbrace, Plain]
    have hblock : block brace (inner ++ close :: rest) = .ok (⟨inner, close⟩, rest) :=
      block_eq_ok.mpr ⟨rfl, hclose, hb⟩
    rw [hts]
    simp [blockSection, hh, Token.is, hbrace, hblock]

theorem statement_sectionRun {kind : SectionKind} (hkind : kind ≠ .localProtocol) {t : Token}
    (ht : t.text = kind.keyword) {run : List Token} (h : statement stop (t :: ts) = .ok (run, rest)) :
    t :: ts = run ++ rest ∧ SectionRun kind (texts run) := by
  obtain ⟨body, semi, hts, rfl, hsemi, hbody⟩ := statement_eq_ok.mp h
  refine ⟨by simpa using hts, ?_⟩
  cases body with
  | nil =>
    obtain ⟨rfl, -⟩ := List.cons.inj hts
    rw [ht] at hsemi
    cases kind <;> simp [SectionKind.keyword] at hsemi
  | cons u body =>
    obtain ⟨rfl, -⟩ := List.cons.inj hts
    have hfirst : (texts (t :: body)).head? = some kind.keyword := congrArg some ht
    simpa [hsemi] using SectionRun.statement hkind hfirst hbody

theorem blockSection_sectionRun {t : Token} (ht : t.text = "local") {run : List Token}
    (h : blockSection stop (t :: ts) = .ok (run, rest)) :
    t :: ts = run ++ rest ∧ SectionRun .localProtocol (texts run) := by
  obtain ⟨hts, head, ws, hrun, hhead, hws⟩ := blockSection_eq_ok.mp h
  refine ⟨hts, ?_⟩
  have hfirst : texts run ++ texts rest = "local" :: texts ts := by
    rw [← texts_append, ← hts, texts_cons, ht]
  rw [hrun] at hfirst ⊢
  cases head with
  | nil => simp [openBrace] at hfirst
  | cons w head =>
    obtain ⟨rfl, -⟩ := List.cons.inj hfirst
    exact .block rfl hhead hws

theorem readSection_eq_ok : readSection stop ts = .ok (sec, rest) ↔
    ts = sec.run ++ rest ∧ SectionRun sec.kind (texts sec.run) := by
  constructor
  · intro h
    cases ts with
    | nil => cases h
    | cons t ts =>
      simp only [readSection, Token.is, beq_iff_eq] at h
      split at h
      · simp only [bind_eq_ok, pure_eq_ok, Prod.mk.injEq, Prod.exists] at h
        obtain ⟨run, rest, hs, rfl, rfl⟩ := h
        exact statement_sectionRun (by simp) ‹_› hs
      · split at h
        · simp only [bind_eq_ok, pure_eq_ok, Prod.mk.injEq, Prod.exists] at h
          obtain ⟨run, rest, hs, rfl, rfl⟩ := h
          exact statement_sectionRun (by simp) ‹_› hs
        · split at h
          · simp only [bind_eq_ok, pure_eq_ok, Prod.mk.injEq, Prod.exists] at h
            obtain ⟨run, rest, hs, rfl, rfl⟩ := h
            exact blockSection_sectionRun ‹_› hs
          · cases h
  · rintro ⟨rfl, h⟩
    obtain ⟨kind, run⟩ := sec
    generalize hws : texts run = ws at h
    cases h with
    | @statement kind body hkind hfirst hbody =>
      obtain ⟨body, last, rfl, rfl, hlast⟩ := texts_eq_append.mp hws
      obtain ⟨semi, rfl, hsemi⟩ := texts_eq_singleton.mp hlast
      cases body with
      | nil => cases hfirst
      | cons t body =>
        have ht : t.text = kind.keyword := Option.some.inj hfirst
        have hs : statement stop (t :: (body ++ semi :: rest)) = .ok (t :: (body ++ [semi]), rest) :=
          statement_append hbody hsemi
        cases kind with
        | localProtocol => exact absurd rfl hkind
        | moduleName => simp [readSection, Token.is, ht, SectionKind.keyword, hs]
        | typeImport => simp [readSection, Token.is, ht, SectionKind.keyword, hs]
    | @block head ws hfirst hhead hb =>
      have hblock : blockSection stop (run ++ rest) = .ok (run, rest) :=
        blockSection_eq_ok.mpr ⟨rfl, head, ws, hws, hhead, hb⟩
      cases head with
      | nil => cases hfirst
      | cons w head =>
        obtain rfl : w = "local" := Option.some.inj hfirst
        obtain ⟨t, us, rfl, ht, -⟩ := texts_eq_cons.mp hws
        rw [List.cons_append] at hblock
        simp [readSection, Token.is, ht, hblock]

theorem length_readSection (h : readSection stop ts = .ok (sec, rest)) :
    rest.length < ts.length := by
  obtain ⟨kind, run⟩ := sec
  obtain ⟨rfl, hrun⟩ := readSection_eq_ok.mp h
  have hpos : 0 < run.length := List.length_pos_iff.mpr hrun.ne_nil
  show rest.length < (run ++ rest).length
  rw [List.length_append]
  omega

theorem splitSections_eq_ok {secs : List Section} :
    splitSections ts = .ok secs ↔ Cuts (readSection (endOf ts)) ts secs :=
  cut_eq_ok (fun _ h => by cases h) length_readSection

end Cuts

theorem readModules_eq_ok {runs : List (List Token)} {name? : Option String} :
    readModules runs = .ok name? ↔ (runs = [] ∧ name? = none) ∨
      ∃ run name, runs = [run] ∧ name? = some name ∧ ModuleText (texts run) name := by
  match runs with
  | [] => simp [readModules, eq_comm]
  | [run] =>
    simp only [readModules, map_eq_ok, readModule_eq_ok]
    constructor
    · rintro ⟨name, hname, rfl⟩
      exact .inr ⟨run, name, rfl, rfl, hname⟩
    · rintro (⟨h, -⟩ | ⟨run, name, h, rfl, hname⟩)
      · cases h
      · cases h
        exact ⟨name, hname, rfl⟩
  | run :: again :: runs =>
    simp only [readModules, bind_eq_ok]
    constructor
    · rintro ⟨_, _, h⟩
      exact absurd h throw_ne_ok
    · rintro (⟨h, -⟩ | ⟨_, _, h, -⟩) <;> cases h

theorem mem_of_mem_intersperse {α : Type} {sep w : α} {names : List α}
    (h : w ∈ names.intersperse sep) : w ∈ names ∨ w = sep := by
  induction names using List.twoStepInduction with
  | nil => simp at h
  | singleton name => exact .inl h
  | cons_cons name name' names _ ih =>
    rw [List.intersperse_cons_cons, List.mem_cons, List.mem_cons] at h
    rcases h with rfl | rfl | h
    · exact .inl List.mem_cons_self
    · exact .inr rfl
    · rcases ih name' h with h | h
      · exact .inl (List.mem_cons_of_mem _ h)
      · exact .inr h

theorem ModuleText.sectionRun {ws : List String} {name : String} (h : ModuleText ws name) :
    SectionRun .moduleName ws := by
  cases h with
  | @names names hne hids =>
    have hplain : ∀ w ∈ "module" :: names.intersperse ".", Plain w := by
      refine List.forall_mem_cons.mpr ⟨by decide, fun w hw => ?_⟩
      rcases mem_of_mem_intersperse hw with hw | rfl
      · exact plain_of_isIdentifier (hids w hw)
      · decide
    exact .statement (by decide) rfl hplain

theorem AliasText.plain {ws : List String} {alias? : Option String} (h : AliasText ws alias?) :
    ∀ w ∈ ws, Plain w := by
  cases h with
  | unnamed => simp
  | named hid =>
    have has : Plain "as" := by decide
    simp [has, plain_of_isIdentifier hid]

theorem TypeText.sectionRun {ws : List String} {t : TypeImport} (h : TypeText ws t) :
    SectionRun .typeImport ws := by
  cases h with
  | @typeImport t schema source file named hschema _ hsource hfile hnamed =>
    have hplain : ∀ w ∈ "type" :: "<" :: schema ++ ">" :: "\"" :: source ++ "\"" :: "from" :: "\"" ::
        file ++ "\"" :: named, Plain w := by
      simp only [List.forall_mem_append, List.forall_mem_cons]
      have hmark : Plain "type" ∧ Plain "<" ∧ Plain ">" ∧ Plain "\"" ∧ Plain "from" := by decide
      obtain ⟨htype, hlt, hgt, hquote, hfrom⟩ := hmark
      exact ⟨⟨⟨⟨htype, hlt, hschema.2.2⟩, hgt, hquote, hsource.2.2⟩, hquote, hfrom, hquote,
        hfile.2.2⟩, hquote, hnamed.plain⟩
    exact .statement (by decide) rfl hplain

theorem LocalText.sectionRun {ws : List String} {l : LocalProtocol} (h : LocalText ws l) :
    SectionRun .localProtocol ws := by
  cases h with
  | @localProtocol l roles body hname hprot hroles hbody =>
    have hplain : ∀ w ∈ "local" :: "protocol" :: l.name :: "at" :: l.protagonist :: "(" :: roles,
        Plain w := by
      simp only [List.forall_mem_cons]
      exact ⟨by decide, by decide, plain_of_isIdentifier hname, by decide, plain_of_isIdentifier hprot,
        by decide, hroles.plain fun _ _ h => h.plain⟩
    exact .block rfl hplain hbody.balanced

/-- In a statement no part of a type import has a brace or a semicolon. -/
theorem readType_eq_ok_of_sectionRun {run : List Token} {t : TypeImport}
    (hrun : SectionRun .typeImport (texts run)) :
    readType run = .ok t ↔ TypeText (texts run) t := by
  rw [readType_eq_ok]
  generalize texts run = ws at hrun ⊢
  constructor
  · rintro ⟨schema, source, file, named, rfl, ⟨hgt, hschema, hne⟩, ⟨hsq, hsource⟩, ⟨hfq, hfile⟩,
      hnamed⟩
    generalize hbody : "type" :: "<" :: schema ++ ">" :: "\"" :: source ++ "\"" :: "from" :: "\"" ::
      file ++ "\"" :: named ++ [";"] = ws at hrun
    cases hrun with
    | statement _ _ hplain =>
      obtain ⟨rfl, -⟩ := List.append_inj' hbody rfl
      simp only [List.forall_mem_append, List.forall_mem_cons] at hplain
      obtain ⟨⟨⟨⟨-, -, hp₁⟩, -, -, hp₂⟩, -, -, -, hp₃⟩, -, -⟩ := hplain
      rw [← hbody]
      exact .typeImport ⟨hschema, hgt, hp₁⟩ hne ⟨hsource, hsq, hp₂⟩ ⟨hfile, hfq, hp₃⟩ hnamed
  · intro h
    cases h with
    | @typeImport t schema source file named hschema hne hsource hfile hnamed =>
      exact ⟨schema, source, file, named, rfl, ⟨hschema.2.1, hschema.1, hne⟩, ⟨hsource.2.1, hsource.1⟩,
        ⟨hfile.2.1, hfile.1⟩, hnamed⟩

theorem runsOf_cons_self (kind : SectionKind) (run : List Token) (secs : List Section) :
    runsOf kind (⟨kind, run⟩ :: secs) = run :: runsOf kind secs := by
  simp [runsOf]

theorem runsOf_cons_of_ne {kind kind' : SectionKind} (h : kind' ≠ kind) (run : List Token)
    (secs : List Section) : runsOf kind (⟨kind', run⟩ :: secs) = runsOf kind secs := by
  simp [runsOf, h]

/-- The sections of a text, and what each of them stands for. -/
theorem exists_splitSections {ts : List Token} {p : Protocol} :
    (∃ secs, splitSections ts = .ok secs ∧
      readModules (runsOf .moduleName secs) = .ok p.moduleName? ∧
      List.Forall₂ (fun run t => readType run = .ok t) (runsOf .typeImport secs) p.types ∧
      List.Forall₂ (fun run l => LocalText (texts run) l) (runsOf .localProtocol secs) p.locals) ↔
      Sections (texts ts) p := by
  simp only [splitSections_eq_ok]
  generalize endOf ts = stop
  constructor
  · rintro ⟨secs, hcuts, hmodules, htypes, hlocals⟩
    obtain ⟨moduleName?, types, locals⟩ := p
    induction hcuts generalizing moduleName? types locals with
    | nil =>
      cases htypes
      cases hlocals
      cases hmodules
      exact .nil
    | @cons ts rest sec secs hsec _ ih =>
      obtain ⟨kind, run⟩ := sec
      obtain ⟨rfl, hrun⟩ := readSection_eq_ok.mp hsec
      rw [texts_append]
      cases kind with
      | moduleName =>
        rw [runsOf_cons_of_ne (by decide)] at htypes hlocals
        rw [runsOf_cons_self] at hmodules
        obtain ⟨h, -⟩ | ⟨run', name, h, rfl, hname⟩ := readModules_eq_ok.mp hmodules
        · cases h
        · obtain ⟨rfl, hnil⟩ := List.cons.inj h
          have hrest := ih none types locals (by rw [hnil]; rfl) htypes hlocals
          exact .moduleName hname hrest rfl
      | typeImport =>
        rw [runsOf_cons_of_ne (by decide)] at hmodules hlocals
        rw [runsOf_cons_self] at htypes
        cases htypes with
        | @cons _ t _ types ht htypes =>
          have ht := (readType_eq_ok_of_sectionRun hrun).mp ht
          exact .typeImport ht (ih moduleName? types locals hmodules htypes hlocals)
      | localProtocol =>
        rw [runsOf_cons_of_ne (by decide)] at hmodules htypes
        rw [runsOf_cons_self] at hlocals
        cases hlocals with
        | @cons _ l _ locals hl hlocals =>
          exact .localProtocol hl (ih moduleName? types locals hmodules htypes hlocals)
  · intro h
    generalize hws : texts ts = ws at h
    induction h generalizing ts with
    | nil =>
      obtain rfl := texts_eq_nil.mp hws
      exact ⟨[], .nil, rfl, .nil, .nil⟩
    | moduleName hus _ hnone ih =>
      obtain ⟨run, rest, rfl, rfl, rfl⟩ := texts_eq_append.mp hws
      obtain ⟨secs, hcuts, hmodules, htypes, hlocals⟩ := ih rfl
      have hsec : readSection stop (run ++ rest) = .ok (⟨.moduleName, run⟩, rest) :=
        readSection_eq_ok.mpr ⟨rfl, hus.sectionRun⟩
      refine ⟨⟨.moduleName, run⟩ :: secs, .cons hsec hcuts, ?_, htypes, hlocals⟩
      rw [hnone] at hmodules
      obtain ⟨hnil, -⟩ | ⟨_, _, _, h, _⟩ := readModules_eq_ok.mp hmodules
      · rw [runsOf_cons_self, hnil]
        exact readModules_eq_ok.mpr (.inr ⟨run, _, rfl, rfl, hus⟩)
      · cases h
    | typeImport hus _ ih =>
      obtain ⟨run, rest, rfl, rfl, rfl⟩ := texts_eq_append.mp hws
      obtain ⟨secs, hcuts, hmodules, htypes, hlocals⟩ := ih rfl
      have hsec : readSection stop (run ++ rest) = .ok (⟨.typeImport, run⟩, rest) :=
        readSection_eq_ok.mpr ⟨rfl, hus.sectionRun⟩
      have ht := (readType_eq_ok_of_sectionRun hus.sectionRun).mpr hus
      exact ⟨⟨.typeImport, run⟩ :: secs, .cons hsec hcuts, hmodules, .cons ht htypes, hlocals⟩
    | localProtocol hus _ ih =>
      obtain ⟨run, rest, rfl, rfl, rfl⟩ := texts_eq_append.mp hws
      obtain ⟨secs, hcuts, hmodules, htypes, hlocals⟩ := ih rfl
      have hsec : readSection stop (run ++ rest) = .ok (⟨.localProtocol, run⟩, rest) :=
        readSection_eq_ok.mpr ⟨rfl, hus.sectionRun⟩
      exact ⟨⟨.localProtocol, run⟩ :: secs, .cons hsec hcuts, hmodules, htypes, .cons hus hlocals⟩

section Whole

open Reading

variable {s s' : IdSource}

theorem threads_and_eq {α β : Type} {Q : α → β → Prop} {as : List α} {bs : List β} :
    Threads (fun a s b s' => Q a b ∧ s = s') as s bs s' ↔ List.Forall₂ Q as bs ∧ s = s' :=
  threads_and (E := fun s _ s' => s = s') (fun _ _ => Iff.rfl) (fun _ _ _ _ => by simp)

theorem forall₂_and_right {α β : Type} {R : α → β → Prop} {p : β → Prop} {as : List α} {bs : List β} :
    List.Forall₂ (fun a b => R a b ∧ p b) as bs ↔ List.Forall₂ R as bs ∧ ∀ b ∈ bs, p b := by
  constructor
  · intro h
    induction h with
    | nil => exact ⟨.nil, by simp⟩
    | cons hb _ ih => exact ⟨.cons hb.1 ih.1, List.forall_mem_cons.mpr ⟨hb.2, ih.2⟩⟩
  · rintro ⟨h, hp⟩
    induction h with
    | nil => exact .nil
    | cons hb _ ih =>
      obtain ⟨hpb, hp⟩ := List.forall_mem_cons.mp hp
      exact .cons ⟨hb, hpb⟩ (ih hp)

theorem protocolReading_eq_ok {concurrent : Bool} {ts : List Token} {p : Protocol} :
    (protocolReading concurrent ts).run s = .ok (p, s') ↔
      (Renders (texts ts) p ∧ ∀ l ∈ p.locals, l.Identified) ∧ s = s' := by
  simp only [protocolReading, run_lift_bind_eq_ok]
  simp only [run_bind_eq_ok, run_all_eq_ok, run_done_eq_ok, readLocal_eq_ok, threads_and_eq,
    forall₂_and_right]
  constructor
  · rintro ⟨secs, hsecs, moduleName?, hmodule, types, _, ⟨htypes, rfl⟩, locals, _,
      ⟨⟨hlocals, hids⟩, rfl⟩, h⟩
    split at h
    · cases (run_done_eq_ok.mp h).1
    · rename_i hne
      obtain ⟨rfl, rfl⟩ := run_pure_eq_ok.mp h
      have hsections : Sections (texts ts) ⟨moduleName?, types, locals⟩ :=
        exists_splitSections.mp ⟨secs, hsecs, hmodule, htypes, hlocals⟩
      exact ⟨⟨⟨hsections, by simpa using hne⟩, hids⟩, rfl⟩
  · rintro ⟨⟨⟨hsections, hne⟩, hids⟩, rfl⟩
    obtain ⟨secs, hsecs, hmodule, htypes, hlocals⟩ := exists_splitSections.mpr hsections
    refine ⟨secs, hsecs, p.moduleName?, hmodule, p.types, _, ⟨htypes, rfl⟩, p.locals, _,
      ⟨⟨hlocals, hids⟩, rfl⟩, ?_⟩
    rw [if_neg (by simpa using hne)]
    exact run_pure_eq_ok.mpr ⟨rfl, rfl⟩

end Whole

theorem identified_of_readProtocol {concurrent : Bool} {tokens : List Token} {p : Protocol}
    (h : readProtocol concurrent tokens = .ok p) : ∀ l ∈ p.locals, l.Identified := by
  obtain ⟨⟨q, s⟩, hread, rfl⟩ := map_eq_ok.mp h
  exact (protocolReading_eq_ok.mp hread).1.2

/-- A protocol is read exactly from the token lists whose texts, all of them, stand for it. Its steps
then hold the identifiers drawn in order, in either mode. -/
theorem readProtocol_eq_ok_iff_renders (concurrent : Bool) (tokens : List Token) (p : Protocol) :
    readProtocol concurrent tokens = .ok p ↔
      Renders (texts tokens) p ∧ ∀ l ∈ p.locals, l.Identified := by
  simp only [readProtocol, map_eq_ok, Prod.exists, protocolReading_eq_ok]
  constructor
  · rintro ⟨p, _, ⟨h, -⟩, rfl⟩
    exact h
  · intro h
    exact ⟨p, _, ⟨h, rfl⟩, rfl⟩

end Grammar

end Parley
