import Parley.Proofs.Drive
import Parley.Proofs.RoleCode

/-! Arrivals: how the code of a role goes on from a step. Looking up the loops that end at a target, one
after the other, comes to the landing of the target, and the expression written for a landing does with
the session in hand what arriving there does. -/

namespace Parley

open Outcome Text

/-- Where the loop ends from a target on lead, each followed through the record that has the identifier
of its loop. -/
inductive Projection.Follows (p : Projection) : Target → Except ApiError Landing → Prop where
  | step {id : NodeId} {kind : StepKind} {name : String} :
      p.Follows (.step id kind name) (.ok (.state name))
  | back {id : NodeId} {label name : String} : p.Follows (.back id label name) (.ok (.state name))
  | join {par : NodeId} {state : String} : p.Follows (.join par state) (.ok (.join par))
  | finish : p.Follows .finish (.ok .finish)
  | missing {id : NodeId} {label : String} :
      p.loop? id = none → p.Follows (.loopEnd id label) (.error (.noLoop label))
  | loopEnd {id : NodeId} {label : String} {r : LoopRecord} {x : Except ApiError Landing} :
      p.loop? id = some r → p.Follows r.next x → p.Follows (.loopEnd id label) x

theorem Projection.Follows.unique {p : Projection} {t : Target} {x x' : Except ApiError Landing}
    (h : p.Follows t x) (h' : p.Follows t x') : x = x' := by
  induction h with
  | step =>
    cases h'
    rfl
  | back =>
    cases h'
    rfl
  | join =>
    cases h'
    rfl
  | finish =>
    cases h'
    rfl
  | missing hr =>
    cases h' with
    | missing => rfl
    | loopEnd hr' => cases hr.symm.trans hr'
  | loopEnd hr _ ih =>
    cases h' with
    | missing hr' => cases hr.symm.trans hr'
    | loopEnd hr' hx' =>
      cases hr.symm.trans hr'
      exact ih hx'

namespace LocalProtocol

variable {l : LocalProtocol} {p : Projection} {s : Stretch} {t : Target}

theorem Yields.follows_landing (y : l.Yields p) (hs : l.Has s) (ht : s.target = .ok t) :
    p.Follows t (p.landing t) := by
  induction hs using LocalProtocol.Has.walk generalizing t with
  | @step s n ns hs hr hn =>
    cases n with
    | message m =>
      obtain rfl := Except.ok.inj ((Stretch.target_message hr).symm.trans ht)
      exact p.landing_step .. ▸ .step
    | choice id chooser bs =>
      obtain rfl := Except.ok.inj ((Stretch.target_choice hr).symm.trans ht)
      exact p.landing_step .. ▸ .step
    | par id bs =>
      obtain rfl := Except.ok.inj ((Stretch.target_par hr).symm.trans ht)
      exact p.landing_step .. ▸ .step
    | loop | call | jump => exact absurd trivial hn
  | enter hs hr =>
    obtain ⟨state, he⟩ := y.exists_entry hs hr
    obtain rfl := Except.ok.inj ((Stretch.target_loop hr he).symm.trans ht)
    exact p.landing_step .. ▸ .step
  | jump hs hr =>
    obtain ⟨inner, outer, state, _, _, htarget⟩ := y.exists_target_jump hs hr
    obtain rfl := Except.ok.inj (htarget.symm.trans ht)
    exact p.landing_back .. ▸ .back
  | call _ hr ih => exact ih ((Stretch.target_call hr).symm.trans ht)
  | root _ hr hf =>
    obtain rfl := Except.ok.inj ((Stretch.target_root hr hf).symm.trans ht)
    exact p.landing_finish ▸ .finish
  | par _ hr hf =>
    obtain rfl := Except.ok.inj ((Stretch.target_par_end hr hf).symm.trans ht)
    exact p.landing_join .. ▸ .join
  | choice _ hr hf ih => exact ih ((Stretch.target_choice_end hr hf).symm.trans ht)
  | @loop s inner outer hs hr hf ih =>
    obtain rfl := Except.ok.inj ((Stretch.target_loop_end hr hf).symm.trans ht)
    obtain ⟨u, following, hu, hur, huf, hinner⟩ := hs.enclosing_loop hf
    obtain ⟨r, hmem, a⟩ := y.exists_loopAt_of_rest hu hur hinner
    -- both ways go on from what follows the loop, which lies outside it
    have hfollows := ih hu hur huf a.next
    obtain ⟨t, hnext, hlanding⟩ := y.landing_loopEnd hu hur inner.label
    obtain rfl := Except.ok.inj (hnext.symm.trans a.next)
    rw [hlanding, a.id_eq]
    exact .loopEnd (y.loop?_eq_some hmem) hfollows

theorem Yields.follows_iff (y : l.Yields p) (hs : l.Has s) (ht : s.target = .ok t)
    {x : Except ApiError Landing} : p.Follows t x ↔ x = p.landing t := by
  have hlanding := y.follows_landing hs ht
  constructor
  · intro h
    exact h.unique hlanding
  · intro h
    exact h ▸ hlanding

/-- Looking loops up by their identifiers comes to an end from every target of a projection, and finds
just its landing. -/
theorem follows_iff_of_project {moduleName? : Option String} {types : List TypeImport}
    (h : l.project moduleName? types = .ok p) {x : Except ApiError Landing} :
    (p.Follows p.start x ↔ x = p.landing p.start) ∧
      (∀ r, p.Lists r → ∀ t ∈ r.targets, p.Follows t x ↔ x = p.landing t) ∧
      ∀ r ∈ p.pars, ∀ t ∈ r.branches, p.Follows t x ↔ x = p.landing t := by
  have y := yields_of_project_eq_ok h
  refine ⟨y.follows_iff .whole y.start, ?_, ?_⟩
  · intro r hr t ht
    obtain ⟨s, hs, hrec⟩ := y.exists_stretch hr
    obtain ⟨u, hu, htarget, _⟩ := hrec.exists_of_mem_targets Frame.pars_choice hs ht
    exact y.follows_iff hu htarget
  · intro r hr t ht
    obtain ⟨s, hs, hrec⟩ := y.exists_stretch (r := .par r) hr
    obtain ⟨u, hu, htarget, _⟩ := hrec.exists_frames_of_mem_branches hs ht
    exact y.follows_iff hu htarget

end LocalProtocol

namespace Api

/-- What becomes of a session: it is held in a state, or nothing is left to hold. -/
abbrev Ending := Session → Forks → Except SessionError (Option Post × Forks)

/-- The methods of the runtime that use a session up, under the names by which they are called. -/
def endings : List (String × Ending) :=
  [("complete_branch", fun s f => do
      let (_, f) ← s.complete f
      return (none, f)),
    ("finish", fun s f => do
      s.finish
      return (none, f))]

/-- What an expression does with the session in a variable: a call of a method of the session whose
failure is passed on, or the session in brackets behind the name of a state. -/
def evaluate? (session code : String) : Option Ending :=
  let name := code.toList.takeWhile (· != '(')
  let arguments := code.toList.dropWhile (· != '(')
  if arguments = ['(', ')', '?'] then
    (name.dropPrefix? (session.toList ++ ['.'])).bind fun method => endings.lookup (String.ofList method)
  else if arguments = '(' :: session.toList ++ [')'] then
    some fun s f => .ok (some ⟨String.ofList name, s⟩, f)
  else none

theorem bracketless_of_parts {cs : List Char} (h : Parts cs) : '(' ∉ cs := by
  intro hmem
  exact absurd (h _ hmem) (by decide)

theorem evaluate?_call {code session : String} {name arguments : List Char}
    (hcode : code.toList = name ++ '(' :: arguments) (hname : '(' ∉ name) :
    evaluate? session code =
      if '(' :: arguments = ['(', ')', '?'] then
        (name.dropPrefix? (session.toList ++ ['.'])).bind fun method =>
          endings.lookup (String.ofList method)
      else if '(' :: arguments = '(' :: session.toList ++ [')'] then
        some fun s f => .ok (some ⟨String.ofList name, s⟩, f)
      else none := by
  have hpass : ∀ c ∈ name, (c != '(') = true := by
    intro c hc
    simpa using fun he : c = '(' => hname (he ▸ hc)
  have htake : code.toList.takeWhile (· != '(') = name := by
    rw [hcode, List.takeWhile_append_of_pos hpass, List.takeWhile_cons_of_neg (by decide),
      List.append_nil]
  have hdrop : code.toList.dropWhile (· != '(') = '(' :: arguments := by
    rw [hcode, List.dropWhile_append_of_pos hpass, List.dropWhile_cons_of_neg (by decide)]
  rw [evaluate?, htake, hdrop]

theorem evaluate?_method {session code method : String} (hsession : '(' ∉ session.toList)
    (hmethod : '(' ∉ method.toList) (hcode : code = session ++ "." ++ method ++ "()?") :
    evaluate? session code = endings.lookup method := by
  have htext : code.toList = (session.toList ++ ['.'] ++ method.toList) ++ '(' :: [')', '?'] := by
    simp [hcode]
  have hname : '(' ∉ session.toList ++ ['.'] ++ method.toList := by
    simp [hsession, hmethod]
  have hrest : (session.toList ++ ['.'] ++ method.toList).dropPrefix? (session.toList ++ ['.']) =
      some method.toList :=
    List.dropPrefix?_eq_some_iff.mpr ⟨_, rfl, BEq.rfl⟩
  rw [evaluate?_call htext hname, if_pos rfl, hrest, Option.bind_some, String.ofList_toList]

/-- The expression written for a landing does what arriving there does. -/
theorem evaluate?_value {x : Landing} (hx : x.Spelled) {session : String}
    (hsession : '(' ∉ session.toList) :
    evaluate? session (x.value session) = some fun s f => s.arrive f x := by
  cases x with
  | state name =>
    have hname := bracketless_of_parts (hx name rfl)
    have hcode : (name ++ "(" ++ session ++ ")").toList =
        name.toList ++ '(' :: (session.toList ++ [')']) := by
      simp
    have hlast : '(' :: (session.toList ++ [')']) ≠ ['(', ')', '?'] := by
      intro he
      have hchars := congrArg List.getLast? he
      rw [← List.cons_append, List.getLast?_concat] at hchars
      exact absurd hchars (by decide)
    rw [Landing.value, evaluate?_call hcode hname, if_neg hlast, if_pos List.cons_append.symm,
      String.ofList_toList]
    rfl
  | join par =>
    have hcode : session ++ ".complete_branch()?" = session ++ "." ++ "complete_branch" ++ "()?" := by
      rw [String.append_assoc, String.append_assoc]
      rfl
    rw [Landing.value, evaluate?_method hsession (by decide) hcode]
    rfl
  | finish =>
    have hcode : session ++ ".finish()?" = session ++ "." ++ "finish" ++ "()?" := by
      rw [String.append_assoc, String.append_assoc]
      rfl
    rw [Landing.value, evaluate?_method hsession (by decide) hcode]
    rfl

/-- Code in which the session in a variable comes to a landing: an expression in one of the lines does
what arriving there does. -/
def Brings (code : List String) (session : String) (x : Landing) : Prop :=
  ∃ line ∈ code, ∃ front value back, line = front ++ value ++ back ∧
    evaluate? session value = some fun s f => s.arrive f x

section Brings

variable {code : List String} {session : String} {x : Landing}

theorem brings_of_mem {line front back : String} (hx : x.Spelled) (hsession : '(' ∉ session.toList)
    (hmem : line ∈ code) (hline : line = front ++ x.value session ++ back) : Brings code session x :=
  ⟨line, hmem, front, _, back, hline, evaluate?_value hx hsession⟩

theorem Brings.mono {code' : List String} (h : Brings code session x) (hsub : code ⊆ code') :
    Brings code' session x := by
  obtain ⟨line, hmem, h⟩ := h
  exact ⟨line, hsub hmem, h⟩

theorem Brings.block (h : Brings code session x) (head : String) :
    Brings (block head code) session x := by
  obtain ⟨line, hmem, front, value, back, hline, hvalue⟩ := h
  obtain ⟨blanks, hpad⟩ : ∃ blanks, pad line = blanks ++ line := by
    unfold pad
    split
    · rename_i hempty
      exact ⟨"", by rw [String.isEmpty_iff.mp hempty]; rfl⟩
    · exact ⟨_, rfl⟩
  refine ⟨_, pad_mem_block hmem, blanks ++ front, value, back, ?_, hvalue⟩
  rw [hpad, hline, String.append_assoc, String.append_assoc, String.append_assoc]

theorem exists_commaList_of_mem {items : List String} {item : String} (h : item ∈ items) :
    ∃ front back, commaList items = front ++ item ++ back := by
  obtain ⟨before, after, rfl⟩ := List.append_of_mem h
  induction before with
  | nil =>
    cases after with
    | nil => exact ⟨"", "", by simp [commaList]⟩
    | cons next after =>
      exact ⟨"", ", " ++ commaList (next :: after), by simp [commaList, String.append_assoc]⟩
  | cons first before ih =>
    obtain ⟨front, back, hrest⟩ := ih (by simp)
    refine ⟨first ++ ", " ++ front, back, ?_⟩
    have hcons : commaList (first :: (before ++ item :: after)) =
        first ++ ", " ++ commaList (before ++ item :: after) := by
      cases before <;> simp [commaList, String.append_assoc]
    rw [List.cons_append, hcons, hrest, ← String.append_assoc, ← String.append_assoc]

end Brings

/-- In the methods of a role the session comes to the landings of the targets of its steps. -/
structure Arrives (p : Projection) (items : List Paragraph) : Prop where
  start : ∃ x item, p.landing p.start = .ok x ∧ item ∈ items ∧ item[1]? = some
    ("pub fn start(endpoint: Endpoint<Msg>) -> " ++ resultOf x.typeName ++ " \x7b") ∧
      Brings item "session" x
  messages : ∀ r ∈ p.messages, ∃ x method, p.landing r.next = .ok x ∧
    implOf r.state method ∈ items ∧ Brings method "session" x
  choices : ∀ r ∈ p.choices, ∀ b ∈ r.branches, ∃ x method, p.landing b.entry = .ok x ∧
    implOf r.state method ∈ items ∧ Brings method "session" x
  forks : ∀ r ∈ p.pars, ∀ i t, r.branches[i]? = some t → ∃ x method, p.landing t = .ok x ∧
    implOf r.state method ∈ items ∧ Brings method ("b" ++ toString (i + 1)) x
  joins : ∀ r ∈ p.pars, ∃ x method, p.landing r.next = .ok x ∧
    implOf r.join method ∈ items ∧ Brings method "session" x

section Methods

variable {x : Landing} (hx : x.Spelled)

include hx

/-- A line that hands the landing out. -/
theorem brings_ok {code : List String} (hmem : "Ok(" ++ x.value "session" ++ ")" ∈ code) :
    Brings code "session" x :=
  brings_of_mem hx (by decide) hmem rfl

theorem brings_emitMethod (m : Message) (value : String) :
    Brings (emitMethod m value x) "session" x := by
  unfold emitMethod
  exact (brings_ok hx (List.mem_cons_of_mem _ (List.mem_cons_of_mem _ List.mem_cons_self))).block _

theorem brings_awaitMethod (m : Message) (state value : String) :
    Brings (awaitMethod m state value x) "session" x := by
  have hmethod {result front back : String} (hresult : result = front ++ x.value "session" ++ back)
      (signature : String) : Brings (block signature (takeSession ::
        block ("match session.recv(" ++ quote m.sender ++ ", " ++ quote m.name ++ ")?")
          ((value ++ " => Ok(" ++ result ++ "),") :: unexpectedArm "other" state m.name
            "other.label()"))) "session" x := by
    have harm : value ++ " => Ok(" ++ result ++ ")," =
        value ++ " => Ok(" ++ front ++ x.value "session" ++ (back ++ "),") := by
      simp only [hresult, String.append_assoc]
    refine Brings.block (Brings.mono (Brings.block ?_ _) (List.subset_cons_self _ _)) _
    exact brings_of_mem hx (by decide) List.mem_cons_self harm
  unfold awaitMethod
  by_cases hempty : m.payloads.isEmpty = true
  · rw [if_pos hempty]
    have hresult : x.value "session" = "" ++ x.value "session" ++ "" := by simp
    exact hmethod hresult _
  · rw [if_neg hempty]
    have hresult : "(" ++ x.value "session" ++ ", " ++ commaList (payloadNames m.payloads) ++ ")" =
        "(" ++ x.value "session" ++ (", " ++ commaList (payloadNames m.payloads) ++ ")") := by
      simp only [String.append_assoc]
    exact hmethod hresult _

end Methods

section Arrives

variable {p : Projection} {l : LocalProtocol} {types : List String} (hc : p.Checked l types)
  {own : List Paragraph}

include hc

theorem brings_messageItems {vs : List Variant} {r : MessageRecord} (hr : r ∈ p.messages)
    (h : messageItems p vs r = .ok own) : ∃ x method, p.landing r.next = .ok x ∧
      implOf r.state method ∈ own ∧ Brings method "session" x := by
  obtain ⟨v, _, h⟩ := bind_eq_ok.mp h
  obtain ⟨x, hlanding, h⟩ := bind_eq_ok.mp h
  obtain rfl := pure_eq_ok.mp h
  have hx := hc.spelled_of_mem_targets (r := .message r) hr (List.mem_singleton_self _) hlanding
  refine ⟨x, _, hlanding, List.mem_cons_of_mem _ List.mem_cons_self, ?_⟩
  cases r.direction with
  | send => exact brings_emitMethod hx ..
  | receive => exact brings_awaitMethod hx ..

theorem brings_choiceItems {r : ChoiceRecord} (hr : r ∈ p.choices) (h : choiceItems p r = .ok own)
    {b : ChoiceBranch} (hb : b ∈ r.branches) : ∃ x method, p.landing b.entry = .ok x ∧
      implOf r.state method ∈ own ∧ Brings method "session" x := by
  have hspelled {x : Landing} (hx : p.landing b.entry = .ok x) : x.Spelled :=
    hc.spelled_of_mem_targets (r := .choice r) hr (List.mem_cons_of_mem _ (List.mem_map_of_mem hb)) hx
  unfold choiceItems at h
  cases hrole : r.role with
  | chooser =>
    rw [hrole] at h
    obtain ⟨methods, hmethods, h⟩ := bind_eq_ok.mp h
    obtain rfl := pure_eq_ok.mp h
    obtain ⟨method, hmem, hmethod⟩ := exists_ok_of_mapM_eq_ok hmethods hb
    obtain ⟨x, hx, hmethod⟩ := bind_eq_ok.mp hmethod
    obtain rfl := pure_eq_ok.mp hmethod
    refine ⟨x, _, hx, List.mem_cons_of_mem _ List.mem_cons_self, ?_⟩
    refine Brings.mono (Brings.block ?_ _) fun line hline => List.mem_flatten.mpr ⟨_, hmem, hline⟩
    exact brings_ok (hspelled hx) (List.mem_cons_of_mem _ List.mem_cons_self)
  | observer =>
    rw [hrole] at h
    obtain ⟨labels, hlabels, h⟩ := bind_eq_ok.mp h
    obtain ⟨landings, hlandings, h⟩ := bind_eq_ok.mp h
    obtain rfl := pure_eq_ok.mp h
    obtain ⟨signals, hall, rfl, _⟩ := signals_of_observedLabels hlabels
    obtain ⟨i, hi⟩ := List.mem_iff_getElem?.mp hb
    obtain ⟨signal, hsignal⟩ := exists_getElem?_of_length_eq hall.length_eq hi
    obtain ⟨x, hx⟩ := exists_getElem?_of_length_eq (length_of_mapM_eq_ok hlandings).symm hi
    have hlanding := getElem?_of_mapM_eq_ok hlandings hi hx
    have hcase : ((signals.map (·.label)).zip landings)[i]? = some (signal.label, x) :=
      List.getElem?_zip_eq_some.mpr ⟨by rw [List.getElem?_map, hsignal, Option.map_some], hx⟩
    have harm : resolveArm r i signal.label x ∈ ((signals.map (·.label)).zip landings).zipIdx.map
        fun e => resolveArm r e.2 e.1.1 e.1.2 :=
      List.mem_map.mpr ⟨((signal.label, x), i), List.mem_zipIdx_iff_getElem?.mpr hcase, rfl⟩
    refine ⟨x, _, hlanding, List.mem_cons_of_mem _ (List.mem_cons_of_mem _ List.mem_cons_self), ?_⟩
    refine Brings.block (Brings.mono (Brings.block ?_ _) (List.subset_cons_self _ _)) _
    exact brings_of_mem (hspelled hlanding) (by decide) (List.mem_append_left _ harm) rfl

theorem brings_parItems {r : ParRecord} (hr : r ∈ p.pars) (h : parItems p r = .ok own) :
    (∀ i t, r.branches[i]? = some t → ∃ x method, p.landing t = .ok x ∧
      implOf r.state method ∈ own ∧ Brings method ("b" ++ toString (i + 1)) x) ∧
    ∃ x method, p.landing r.next = .ok x ∧ implOf r.join method ∈ own ∧ Brings method "session" x := by
  obtain ⟨landings, hlandings, h⟩ := bind_eq_ok.mp h
  obtain ⟨next, hnext, h⟩ := bind_eq_ok.mp h
  obtain rfl := pure_eq_ok.mp h
  have hafter := hc.spelled_of_mem_targets (r := .par r) hr (List.mem_singleton_self _) hnext
  constructor
  · intro i t ht
    obtain ⟨x, hx⟩ := exists_getElem?_of_length_eq (length_of_mapM_eq_ok hlandings).symm ht
    have hlanding := getElem?_of_mapM_eq_ok hlandings ht hx
    have hspelled := hc.spelled_of_mem_branches hr (List.mem_of_getElem? ht) hlanding
    have hname : ((List.range r.branches.length).map fun i => "b" ++ toString (i + 1))[i]? =
        some ("b" ++ toString (i + 1)) := by
      rw [List.getElem?_map, List.getElem?_range (List.getElem?_eq_some_iff.mp ht).1, Option.map_some]
    have hvalue : x.value ("b" ++ toString (i + 1)) ∈ (landings.zip ((List.range r.branches.length).map
        fun i => "b" ++ toString (i + 1))).map fun e => e.1.value e.2 :=
      List.mem_map.mpr ⟨(x, _), List.mem_of_getElem? (List.getElem?_zip_eq_some.mpr ⟨hx, hname⟩), rfl⟩
    obtain ⟨front, back, hlist⟩ :=
      exists_commaList_of_mem (List.mem_cons_of_mem (r.join ++ "(joiner)") hvalue)
    have hline : "Ok((" ++ commaList ((r.join ++ "(joiner)") :: (landings.zip
        ((List.range r.branches.length).map fun i => "b" ++ toString (i + 1))).map fun e =>
          e.1.value e.2) ++ "))" =
        "Ok((" ++ front ++ x.value ("b" ++ toString (i + 1)) ++ (back ++ "))") := by
      simp only [hlist, String.append_assoc]
    have hvariable : '(' ∉ ("b" ++ toString (i + 1)).toList := by
      have hdigits := bracketless_of_parts (parts_toString (i + 1))
      simpa using hdigits
    refine ⟨x, _, hlanding, List.mem_cons_of_mem _ List.mem_cons_self, Brings.block ?_ _⟩
    exact brings_of_mem hspelled hvariable (List.mem_cons_of_mem _ List.mem_cons_self) hline
  · refine ⟨next, _, hnext, List.mem_cons_of_mem _ (List.mem_cons_of_mem _ (List.mem_cons_of_mem _
      List.mem_cons_self)), ?_⟩
    refine Brings.mono (Brings.block ?_ _) (List.subset_append_right _ _)
    exact brings_ok hafter (List.mem_cons_of_mem _ List.mem_cons_self)

/-- The code of a role brings its sessions to where its steps lead. -/
theorem arrives_of_roleItems {vs : List Variant} {items : List Paragraph}
    (h : roleItems p vs = .ok items) : Arrives p items := by
  obtain ⟨hmessages, hchoices, hpars, _⟩ := roleItems_eq_ok h
  constructor
  · obtain ⟨start, hstart, h⟩ := bind_eq_ok.mp h
    obtain ⟨messages, _, h⟩ := bind_eq_ok.mp h
    obtain ⟨choices, _, h⟩ := bind_eq_ok.mp h
    obtain ⟨pars, _, h⟩ := bind_eq_ok.mp h
    obtain ⟨loops, _, h⟩ := bind_eq_ok.mp h
    obtain rfl := pure_eq_ok.mp h
    refine ⟨start, _, hstart, List.mem_append_left _ (List.mem_append_right _ List.mem_cons_self), rfl,
      Brings.mono (Brings.block ?_ _) (List.subset_cons_self _ _)⟩
    exact brings_ok (hc.spelled_start hstart) (List.mem_cons_of_mem _ List.mem_cons_self)
  · intro r hr
    obtain ⟨own, hown, hsub⟩ := hmessages r hr
    obtain ⟨x, method, hx, hmem, hbrings⟩ := brings_messageItems hc hr hown
    exact ⟨x, method, hx, hsub hmem, hbrings⟩
  · intro r hr b hb
    obtain ⟨own, hown, hsub⟩ := hchoices r hr
    obtain ⟨x, method, hx, hmem, hbrings⟩ := brings_choiceItems hc hr hown hb
    exact ⟨x, method, hx, hsub hmem, hbrings⟩
  · intro r hr i t ht
    obtain ⟨own, hown, hsub⟩ := hpars r hr
    obtain ⟨x, method, hx, hmem, hbrings⟩ := (brings_parItems hc hr hown).1 i t ht
    exact ⟨x, method, hx, hsub hmem, hbrings⟩
  · intro r hr
    obtain ⟨own, hown, hsub⟩ := hpars r hr
    obtain ⟨x, method, hx, hmem, hbrings⟩ := (brings_parItems hc hr hown).2
    exact ⟨x, method, hx, hsub hmem, hbrings⟩

end Arrives

end Api

/-- Whatever text it comes from, and with whatever variants its code is written, a role goes on in its
code as its sessions do. -/
theorem arrives_of_compile {concurrent : Bool} {text : String} {c : Compiled} {p : Projection}
    (h : compile concurrent text = .ok c) (hp : p ∈ c.projections) {vs : List Api.Variant}
    {items : List Api.Paragraph} (hitems : Api.roleItems p vs = .ok items) : Api.Arrives p items := by
  obtain ⟨l, aliases, hc, _⟩ := exists_checked_of_compile h hp
  exact Api.arrives_of_roleItems hc hitems

end Parley
