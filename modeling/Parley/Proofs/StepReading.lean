import Parley.Proofs.Numbering
import Parley.Proofs.StepRun

/-! The reader of conversations against the grammar. A conversation is read from a token list if and
only if the grammar has the texts stand for it and it holds the identifiers drawn in order. -/

namespace Parley.Grammar

open Outcome

section Items

variable {stop : Position} {ts rest : List Token}

theorem payload_stop {t : Token} (h : t.text = "," ∨ t.text = ")") :
    payload 0 (t :: ts) = .ok ("", t :: ts) := by
  rcases h with h | h <;> simp [payload, Token.is, h]

theorem payload_cons {depth : Nat} {t : Token} (h : ¬ (depth = 0 ∧ (t.text = "," ∨ t.text = ")"))) :
    payload depth (t :: ts) =
      match angleStep? depth t.text with
      | none => .error (unexpected t)
      | some d => (fun (text, rest) => (t.text ++ text, rest)) <$> payload d ts := by
  have hstop : (depth == 0 && (t.is "," || t.is ")")) = false := by
    rw [← Bool.not_eq_true]
    simpa [Token.is] using h
  have hstep : angleStep? depth t.text =
      if t.is "<" then some (depth + 1)
      else if t.is ">" then some (depth - 1)
      else if Token.isPunctuation t.text && !t.is "." && !t.is "," then none
      else some depth := by
    rw [angleStep?, if_neg h]
    simp [Token.is, and_assoc]
  rw [payload]
  simp only [hstop, Bool.false_eq_true, if_false, ← hstep]
  cases angleStep? depth t.text with
  | none => rfl
  | some d => cases hp : payload d ts <;> simp only [hp] <;> rfl

theorem payload_eq_ok (hrest : (texts rest).head? = some "," ∨ (texts rest).head? = some ")")
    {depth : Nat} {text : String} : payload depth ts = .ok (text, rest) ↔
      ∃ ws, Takes ws ts rest ∧ ws.foldlM angleStep? depth = some 0 ∧ text = String.join ws := by
  have hstop {depth : Nat} {w : String} (hw : depth = 0 ∧ (w = "," ∨ w = ")")) :
      angleStep? depth w = none := by rw [angleStep?, if_pos hw]
  constructor
  · intro h
    induction ts generalizing depth text with
    | nil =>
      rw [payload] at h
      cases h
      simp at hrest
    | cons t ts ih =>
      by_cases hs : depth = 0 ∧ (t.text = "," ∨ t.text = ")")
      · obtain ⟨rfl, ht⟩ := hs
        rw [payload_stop ht] at h
        cases h
        exact ⟨[], takes_nil.mpr rfl, rfl, rfl⟩
      · rw [payload_cons hs] at h
        split at h
        · cases h
        · rename_i d hd
          simp only [map_eq_ok, Prod.exists, Prod.mk.injEq] at h
          obtain ⟨text, rest, hp, rfl, rfl⟩ := h
          obtain ⟨ws, hws, hdepth, rfl⟩ := ih hp
          refine ⟨t.text :: ws, takes_cons.mpr ⟨ts, takes_singleton.mpr ⟨t, rfl, rfl⟩, hws⟩, ?_, ?_⟩
          · rw [List.foldlM_cons, hd]
            exact hdepth
          · exact String.join_cons.symm
  · rintro ⟨ws, hws, hdepth, rfl⟩
    induction ws generalizing ts depth with
    | nil =>
      obtain rfl := takes_nil.mp hws
      cases hdepth
      cases ts with
      | nil => simp at hrest
      | cons t ts => exact payload_stop (by simpa using hrest)
    | cons w ws ih =>
      obtain ⟨mid, hmid, hrest'⟩ := takes_cons.mp hws
      obtain ⟨t, rfl, rfl⟩ := takes_singleton.mp hmid
      rw [List.foldlM_cons] at hdepth
      obtain ⟨d, hd, hdepth⟩ := Option.bind_eq_some_iff.mp hdepth
      have hs : ¬ (depth = 0 ∧ (t.text = "," ∨ t.text = ")")) := by
        intro hs
        rw [hstop hs] at hd
        cases hd
      rw [payload_cons hs, hd]
      simp only [map_eq_ok, Prod.exists, Prod.mk.injEq]
      exact ⟨_, _, ih hrest' hdepth, String.join_cons.symm, rfl⟩

theorem readsItems_payload (name : String) :
    ReadsItems (messagePayload name stop) PayloadText where
  eq_ok := by
    intro ts rest text hrest
    simp only [messagePayload, bind_eq_ok, Prod.exists, PayloadText]
    constructor
    · rintro ⟨text, rest, hp, h⟩
      split at h
      · cases h
      · rename_i hne
        cases pure_eq_ok.mp h
        obtain ⟨ws, hws, hdepth, rfl⟩ := (payload_eq_ok hrest).mp hp
        exact ⟨ws, hws, hdepth, rfl, by simpa using hne⟩
    · rintro ⟨ws, hws, hdepth, rfl, hne⟩
      refine ⟨_, rest, (payload_eq_ok hrest).mpr ⟨ws, hws, hdepth, rfl⟩, ?_⟩
      simp [hne, pure_eq_ok]
  head_ne := by
    rintro ws text ⟨hdepth, rfl, hne⟩
    cases ws with
    | nil => exact absurd rfl hne
    | cons w ws =>
      refine ⟨w, ws, rfl, ?_⟩
      rintro rfl
      simp [angleStep?] at hdepth

theorem ne_of_isIdentifier {w v : String} (h : isIdentifier w = true) (hv : isIdentifier v = false) :
    w ≠ v := by
  rintro rfl
  rw [h] at hv
  cases hv

theorem readsItems_callRole : ReadsItems (callRole stop) CallRoleText where
  eq_ok := by
    intro ts rest role _
    rw [callRole]
    constructor
    · intro h
      obtain ⟨hrole, hid⟩ := expectText_eq_ok.mp h
      cases he : eat? "role" ts with
      | some mid =>
        rw [he] at hrole
        exact ⟨_, (eat?_eq_some.mp he).trans hrole, .marked hid⟩
      | none =>
        rw [he] at hrole
        have hne : role ≠ "role" := by
          rintro rfl
          exact eat?_eq_none.mp he hrole.head?_eq
        exact ⟨_, hrole, .bare hid hne⟩
    · rintro ⟨ws, hws, h⟩
      cases h with
      | bare hid hne =>
        have he : eat? "role" ts = none := by
          rw [eat?_eq_none, hws.head?_eq]
          simpa using hne
        rw [he]
        exact expectText_eq_ok.mpr ⟨hws, hid⟩
      | marked hid =>
        obtain ⟨mid, hmid, hrole⟩ := takes_cons.mp hws
        rw [eat?_eq_some.mpr hmid]
        exact expectText_eq_ok.mpr ⟨hrole, hid⟩
  head_ne := by
    rintro ws role h
    cases h with
    | bare hid _ => exact ⟨role, [], rfl, ne_of_isIdentifier hid (by decide)⟩
    | marked hid => exact ⟨"role", [role], rfl, by decide⟩

theorem readsItems_declaredRole : ReadsItems (declaredRole stop) RoleText where
  eq_ok := by
    intro ts rest role _
    simp only [declaredRole, bind_eq_ok, expectWord_eq_ok, expectText_eq_ok, Wanted.admits]
    constructor
    · rintro ⟨mid, hmid, hrole, hid⟩
      exact ⟨_, hmid.trans hrole, .role hid⟩
    · rintro ⟨ws, hws, ⟨hid⟩⟩
      obtain ⟨mid, hmid, hrole⟩ := takes_cons.mp hws
      exact ⟨mid, hmid, hrole, hid⟩
  head_ne := by
    rintro ws role ⟨hid⟩
    exact ⟨"role", [role], rfl, by decide⟩

theorem direction_eq_ok {protagonist : String} {ends : String × String} :
    direction protagonist stop ts = .ok (ends, rest) ↔
      ∃ ws, Takes ws ts rest ∧ DirectionText protagonist ws ends := by
  constructor
  · intro h
    unfold direction at h
    split at h
    · rename_i mid hmid
      simp only [bind_eq_ok, pure_eq_ok, Prod.exists, Prod.mk.injEq, expectText_eq_ok] at h
      obtain ⟨role, rest, ⟨hrole, hid⟩, rfl, rfl⟩ := h
      exact ⟨_, (eat?_eq_some.mp hmid).trans hrole, .inward hid⟩
    · rename_i mid hmid _
      simp only [bind_eq_ok, pure_eq_ok, Prod.exists, Prod.mk.injEq, expectText_eq_ok] at h
      obtain ⟨role, rest, ⟨hrole, hid⟩, rfl, rfl⟩ := h
      exact ⟨_, (eat?_eq_some.mp hmid).trans hrole, .outward hid⟩
    · cases h
    · cases h
  · rintro ⟨ws, hws, h⟩
    obtain ⟨mid, hmid, hrole⟩ : ∃ mid, Takes (ws.take 1) ts mid ∧ Takes (ws.drop 1) mid rest := by
      rw [← takes_append, List.take_append_drop]
      exact hws
    cases h with
    | inward hid =>
      have hfrom : eat? "from" ts = some mid := eat?_eq_some.mpr hmid
      simp only [direction, hfrom]
      simp only [bind_eq_ok, pure_eq_ok, Prod.exists, Prod.mk.injEq, expectText_eq_ok]
      exact ⟨_, _, ⟨hrole, hid⟩, ⟨rfl, trivial⟩, rfl⟩
    | outward hid =>
      have hfrom : eat? "from" ts = none := by
        rw [eat?_eq_none, hws.head?_eq]
        decide
      have hto : eat? "to" ts = some mid := eat?_eq_some.mpr hmid
      simp only [direction, hfrom, hto]
      simp only [bind_eq_ok, pure_eq_ok, Prod.exists, Prod.mk.injEq, expectText_eq_ok]
      exact ⟨_, _, ⟨hrole, hid⟩, ⟨trivial, rfl⟩, rfl⟩

end Items

section Steps

variable {protagonist : String} {stop : Position} {ts : List Token} {n : Node} {s s' : IdSource}

open Reading

theorem readMessage_eq_ok (hfirst : ∀ w ∈ (texts ts).head?, w ∉ stepKeywords) :
    (readMessage protagonist stop ts).run s = .ok (n, s') ↔
      StepText protagonist (texts ts) n ∧ n.identify s = (n, s') := by
  simp only [readMessage, run_lift_bind_eq_ok, run_issue_bind_eq_ok, run_pure_eq_ok,
    expectText_eq_ok, expectWord_eq_ok, expectEnd_eq_ok, direction_eq_ok, Prod.exists,
    commaItems_eq_ok (readsItems_payload _) admits_payloadEnd, Wanted.admits]
  constructor
  · rintro ⟨name, r₁, ⟨h₁, hid⟩, r₂, h₂, payloads, r₃, ⟨us, h₃, hp⟩, sender, receiver, r₄,
      ⟨ws, h₄, hd⟩, r₅, h₅, _, rfl, id, _, hnext, rfl, rfl⟩
    have hts : texts ts = name :: "(" :: us ++ ws ++ [";"] := by
      simpa using takes_all.mp (h₁.trans (h₂.trans (h₃.trans (h₄.trans h₅))))
    rw [hts] at hfirst ⊢
    refine ⟨?_, Node.identify_message.mpr hnext⟩
    exact StepText.message (m := ⟨id, name, sender, receiver, payloads⟩) hid (hfirst name rfl) hp hd
  · rintro ⟨h, hn⟩
    generalize hws : texts ts = ws at h hfirst
    cases h with
    | @message m _ _ hid _ hp hd =>
      simp only [List.cons_append, List.append_assoc] at hws
      obtain ⟨r₁, h₁, hr⟩ := takes_cons.mp (takes_all.mpr hws)
      obtain ⟨r₂, h₂, hr⟩ := takes_cons.mp hr
      obtain ⟨r₃, h₃, hr⟩ := takes_append.mp hr
      obtain ⟨r₄, h₄, h₅⟩ := takes_append.mp hr
      exact ⟨m.name, r₁, ⟨h₁, hid⟩, r₂, h₂, m.payloads, r₃, ⟨_, h₃, hp⟩, m.sender, m.receiver, r₄,
        ⟨_, h₄, hd⟩, [], h₅, (), rfl, m.id, _, Node.identify_message.mp hn, rfl, rfl⟩
    | choice => exact absurd (by decide) (hfirst _ rfl)
    | par => exact absurd (by decide) (hfirst _ rfl)
    | loop => exact absurd (by decide) (hfirst _ rfl)
    | call => exact absurd (by decide) (hfirst _ rfl)
    | jump => exact absurd (by decide) (hfirst _ rfl)

/-- A step that begins with a keyword is of the kind that the keyword names. -/
theorem StepText.kind_eq {ws : List String} {kind : StepKind} (hkind : kind ≠ .message)
    (h : StepText protagonist (kind.text :: ws) n) : n.kind = kind := by
  generalize hus : kind.text :: ws = us at h
  cases h with
  | message _ hkey =>
    obtain ⟨hname, -⟩ := List.cons.inj hus
    rw [← hname] at hkey
    cases kind <;> simp_all [StepKind.text, stepKeywords]
  | choice => cases kind <;> simp_all [StepKind.text, Node.kind]
  | par => cases kind <;> simp_all [StepKind.text, Node.kind]
  | loop => cases kind <;> simp_all [StepKind.text, Node.kind]
  | call => cases kind <;> simp_all [StepKind.text, Node.kind]
  | jump => cases kind <;> simp_all [StepKind.text, Node.kind]

variable (protagonist) in
theorem readCall_eq_ok : readCall stop ts = .ok n ↔ StepText protagonist ("do" :: texts ts) n := by
  simp only [readCall, bind_eq_ok, pure_eq_ok, expectText_eq_ok, expectWord_eq_ok, expectEnd_eq_ok,
    Prod.exists, commaItems_eq_ok readsItems_callRole admits_comma, Wanted.admits]
  constructor
  · rintro ⟨name, r₁, ⟨h₁, hid⟩, r₂, h₂, roles, r₃, ⟨ws, h₃, hr⟩, r₄, h₄, _, rfl, rfl⟩
    have hts : texts ts = name :: "(" :: ws ++ [";"] := by
      simpa using takes_all.mp (h₁.trans (h₂.trans (h₃.trans h₄)))
    rw [hts]
    exact .call hid hr
  · intro h
    have hkind : n.kind = .call := StepText.kind_eq (by decide) h
    generalize hws : "do" :: texts ts = ws at h
    cases h with
    | @call name us roles hid hr =>
      obtain ⟨r₁, h₁, h⟩ := takes_cons.mp (takes_all.mpr (List.cons.inj hws).2)
      obtain ⟨r₂, h₂, h⟩ := takes_cons.mp h
      obtain ⟨r₃, h₃, h₄⟩ := takes_append.mp h
      exact ⟨name, r₁, ⟨h₁, hid⟩, r₂, h₂, roles, r₃, ⟨us, h₃, hr⟩, [], h₄, (), rfl, rfl⟩
    | _ => cases hkind

theorem readJump_eq_ok : (readJump stop ts).run s = .ok (n, s') ↔
    StepText protagonist ("continue" :: texts ts) n ∧ n.identify s = (n, s') := by
  simp only [readJump, run_lift_bind_eq_ok, run_issue_bind_eq_ok, run_pure_eq_ok, expectText_eq_ok,
    expectWord_eq_ok, expectEnd_eq_ok, Prod.exists, Wanted.admits]
  constructor
  · rintro ⟨label, r₁, ⟨h₁, hid⟩, r₂, h₂, _, rfl, id, _, hnext, rfl, rfl⟩
    have hts : texts ts = [label, ";"] := takes_all.mp (h₁.trans h₂)
    rw [hts]
    exact ⟨.jump hid, Node.identify_jump.mpr hnext⟩
  · rintro ⟨h, hn⟩
    have hkind : n.kind = .jump := StepText.kind_eq (by decide) h
    generalize hws : "continue" :: texts ts = ws at h
    cases h with
    | @jump id label hid =>
      obtain ⟨r₁, h₁, h₂⟩ := takes_cons.mp (takes_all.mpr (List.cons.inj hws).2)
      exact ⟨label, r₁, ⟨h₁, hid⟩, [], h₂, (), rfl, id, _, Node.identify_jump.mp hn, rfl, rfl⟩
    | _ => cases hkind

/-- `inner` reads what stands in blocks of less than `bound` tokens by the grammar. -/
def ReadsWithin (protagonist : String) (inner : List Token → Reading Conversation) (bound : Nat) :
    Prop :=
  ∀ b : List Token, b.length < bound → ∀ s c s', (inner b).run s = .ok (c, s') ↔
    ConversationText protagonist (texts b) c ∧ Conversation.identify s c = (c, s')

theorem ReadsWithin.mono {inner : List Token → Reading Conversation} {bound bound' : Nat}
    (h : ReadsWithin protagonist inner bound) (hle : bound' ≤ bound) :
    ReadsWithin protagonist inner bound' :=
  fun b hb => h b (Nat.lt_of_lt_of_le hb hle)

variable {inner : List Token → Reading Conversation}

theorem threads_inner {bound : Nat} (hinner : ReadsWithin protagonist inner bound)
    {bs : List (List Token)} (hbs : ∀ b ∈ bs, b.length < bound) {cs : List Conversation} :
    Threads (fun b s c s' => (inner b).run s = .ok (c, s')) bs s cs s' ↔
      List.Forall₂ (fun b c => ConversationText protagonist (texts b) c) bs cs ∧
        identifyBranches s cs = (cs, s') := by
  rw [threads_congr fun b hb => hinner b (hbs b hb)]
  exact threads_and (E := fun s cs s' => identifyBranches s cs = (cs, s'))
    (fun _ _ => identifyBranches_nil) (fun _ _ _ _ => identifyBranches_cons)

theorem readLoop_eq_ok (hinner : ReadsWithin protagonist inner ts.length) :
    (readLoop inner stop ts).run s = .ok (n, s') ↔
      StepText protagonist ("rec" :: texts ts) n ∧ n.identify s = (n, s') := by
  simp only [readLoop, run_lift_bind_eq_ok, run_issue_bind_eq_ok, expectText_eq_ok, expect_eq_ok,
    expectEnd_eq_ok, block_eq_ok, Prod.exists, Wanted.admits, beq_iff_eq]
  simp only [run_bind_eq_ok, run_pure_eq_ok]
  constructor
  · rintro ⟨label, r₁, ⟨h₁, hid⟩, id, s₁, hnext, brace, r₂, ⟨rfl, hbrace⟩, b, r₃, ⟨rfl, hclose, hb⟩, _,
      rfl, body, _, hbody, rfl, rfl⟩
    have hlen := h₁.length_eq
    have hshort : b.inner.length < ts.length := by
      simp only [List.length_cons, List.length_append] at hlen
      omega
    obtain ⟨hbody, hids⟩ := (hinner _ hshort _ _ _).mp hbody
    have hts : texts ts = label :: openBrace :: texts b.inner ++ [closeBrace] := by
      simpa [hbrace, hclose] using h₁.texts_eq
    rw [hts]
    exact ⟨.loop hid hbody, Node.identify_loop.mpr ⟨s₁, hnext, hids⟩⟩
  · rintro ⟨h, hn⟩
    have hkind : n.kind = .loop := StepText.kind_eq (by decide) h
    generalize hws : "rec" :: texts ts = ws at h
    cases h with
    | @loop id label us body hid hbody =>
      obtain ⟨s₁, hnext, hids⟩ := Node.identify_loop.mp hn
      obtain ⟨r₁, h₁, h⟩ := takes_cons.mp (takes_all.mpr (List.cons.inj hws).2)
      obtain ⟨brace, b, close, r₂, rfl, hbrace, rfl, hclose, hr⟩ := texts_eq_block.mp (takes_all.mp h)
      obtain rfl := texts_eq_nil.mp hr
      have hlen := h₁.length_eq
      have hshort : b.length < ts.length := by
        simp only [List.length_cons, List.length_append] at hlen
        omega
      have hread := (hinner b hshort s₁ body s').mpr ⟨hbody, hids⟩
      exact ⟨label, _, ⟨h₁, hid⟩, id, s₁, hnext, brace, _, ⟨rfl, hbrace⟩, ⟨b, close⟩, [],
        ⟨rfl, hclose, hbody.balanced⟩, (), rfl, body, _, hread, rfl, rfl⟩
    | _ => cases hkind

theorem StepText.head_ne {ws : List String} (h : StepText protagonist ws n) :
    ∃ w us, ws = w :: us ∧ w ≠ openBrace := by
  cases h with
  | message hid => exact ⟨_, _, rfl, (plain_of_isIdentifier hid).1⟩
  | choice => exact ⟨_, _, rfl, by decide⟩
  | par => exact ⟨_, _, rfl, by decide⟩
  | loop => exact ⟨_, _, rfl, by decide⟩
  | call => exact ⟨_, _, rfl, by decide⟩
  | jump => exact ⟨_, _, rfl, by decide⟩

theorem not_steps_openBrace {ws : List String} {c : Conversation} :
    ¬ Steps (StepText protagonist) (openBrace :: ws) c := by
  intro h
  generalize hus : openBrace :: ws = us at h
  cases h with
  | nil => cases hus
  | cons hn _ _ =>
    obtain ⟨w, us, rfl, hw⟩ := hn.head_ne
    exact hw (List.cons.inj hus).1.symm

theorem readBranches_eq_ok (hinner : ReadsWithin protagonist inner ts.length) {sep : String}
    (hsep : Plain sep) {cs : List Conversation} :
    (∃ bs, branchBlocks sep ts = .ok bs ∧ (Reading.all (bs.map inner)).run s = .ok (cs, s')) ↔
      Branches (Steps (StepText protagonist)) sep (texts ts) cs ∧
        identifyBranches s cs = (cs, s') := by
  have hbranches : _ ↔ Branches (Steps (StepText protagonist)) sep (texts ts) cs :=
    exists_branchBlocks (fun _ _ h => h.balanced) (fun _ _ => not_steps_openBrace) hsep
  rw [← hbranches]
  constructor
  · rintro ⟨bs, hbs, hread⟩
    obtain ⟨hcs, hids⟩ := (threads_inner hinner (length_branchBlocks hbs)).mp (run_all_eq_ok.mp hread)
    exact ⟨⟨bs, hbs, hcs⟩, hids⟩
  · rintro ⟨⟨bs, hbs, hcs⟩, hids⟩
    have hread := (threads_inner hinner (length_branchBlocks hbs)).mpr ⟨hcs, hids⟩
    exact ⟨bs, hbs, run_all_eq_ok.mpr hread⟩

theorem readChoice_eq_ok (hinner : ReadsWithin protagonist inner ts.length) :
    (readChoice inner stop ts).run s = .ok (n, s') ↔
      StepText protagonist ("choice" :: texts ts) n ∧ n.identify s = (n, s') := by
  simp only [readChoice, run_lift_bind_eq_ok, run_issue_bind_eq_ok, expectText_eq_ok,
    expectWord_eq_ok, Prod.exists, Wanted.admits]
  simp only [run_bind_eq_ok, run_pure_eq_ok]
  constructor
  · rintro ⟨r₁, h₁, chooser, r₂, ⟨h₂, hid⟩, id, s₁, hnext, bs, hbs, cs, _, hread, rfl, rfl⟩
    have hlen := (h₁.trans h₂).length_eq
    have hwithin : ReadsWithin protagonist inner r₂.length := hinner.mono (by omega)
    obtain ⟨hcs, hids⟩ := (readBranches_eq_ok hwithin (by decide)).mp ⟨bs, hbs, hread⟩
    have hts : texts ts = "at" :: chooser :: texts r₂ := (h₁.trans h₂).texts_eq
    rw [hts]
    exact ⟨.choice hid hcs, Node.identify_choice.mpr ⟨s₁, hnext, hids⟩⟩
  · rintro ⟨h, hn⟩
    have hkind : n.kind = .choice := StepText.kind_eq (by decide) h
    generalize hws : "choice" :: texts ts = ws at h
    cases h with
    | @choice id chooser us cs hid hcs =>
      obtain ⟨s₁, hnext, hids⟩ := Node.identify_choice.mp hn
      obtain ⟨r₁, h₁, h⟩ := takes_cons.mp (takes_all.mpr (List.cons.inj hws).2)
      obtain ⟨r₂, h₂, h⟩ := takes_cons.mp h
      obtain rfl := takes_all.mp h
      have hlen := (h₁.trans h₂).length_eq
      have hwithin : ReadsWithin protagonist inner r₂.length := hinner.mono (by omega)
      obtain ⟨bs, hbs, hread⟩ := (readBranches_eq_ok hwithin (by decide)).mpr ⟨hcs, hids⟩
      exact ⟨r₁, h₁, chooser, r₂, ⟨h₂, hid⟩, id, s₁, hnext, bs, hbs, cs, _, hread, rfl, rfl⟩
    | _ => cases hkind

theorem readPar_eq_ok (hinner : ReadsWithin protagonist inner ts.length) :
    (readPar inner ts).run s = .ok (n, s') ↔
      StepText protagonist ("par" :: texts ts) n ∧ n.identify s = (n, s') := by
  simp only [readPar, run_lift_bind_eq_ok, run_issue_bind_eq_ok]
  simp only [run_bind_eq_ok, run_pure_eq_ok]
  constructor
  · rintro ⟨id, s₁, hnext, bs, hbs, cs, _, hread, rfl, rfl⟩
    obtain ⟨hcs, hids⟩ := (readBranches_eq_ok hinner (by decide)).mp ⟨bs, hbs, hread⟩
    exact ⟨.par hcs, Node.identify_par.mpr ⟨s₁, hnext, hids⟩⟩
  · rintro ⟨h, hn⟩
    have hkind : n.kind = .par := StepText.kind_eq (by decide) h
    generalize hws : "par" :: texts ts = ws at h
    cases h with
    | @par id us cs hcs =>
      obtain ⟨s₁, hnext, hids⟩ := Node.identify_par.mp hn
      obtain ⟨-, rfl⟩ := List.cons.inj hws
      obtain ⟨bs, hbs, hread⟩ := (readBranches_eq_ok hinner (by decide)).mpr ⟨hcs, hids⟩
      exact ⟨id, s₁, hnext, bs, hbs, cs, _, hread, rfl, rfl⟩
    | _ => cases hkind

theorem readStep_eq_ok {run : List Token} (hinner : ReadsWithin protagonist inner run.length) :
    (readStep protagonist inner run).run s = .ok (n, s') ↔
      StepText protagonist (texts run) n ∧ n.identify s = (n, s') := by
  cases run with
  | nil => exact readMessage_eq_ok (by simp)
  | cons t ts =>
    have hwithin : ReadsWithin protagonist inner ts.length := hinner.mono (by simp)
    rw [texts_cons, readStep]
    simp only [Token.is, beq_iff_eq]
    split
    · rename_i ht
      rw [ht, readLoop_eq_ok hwithin]
    · split
      · rename_i ht
        rw [ht, readChoice_eq_ok hwithin]
      · split
        · rename_i ht
          rw [ht, readPar_eq_ok hwithin]
        · split
          · rename_i ht
            rw [ht, readJump_eq_ok]
          · split
            · rename_i ht
              rw [ht, run_lift_eq_ok, readCall_eq_ok protagonist]
              refine and_congr_right fun h => ?_
              have hkind : n.kind = .call := StepText.kind_eq (by decide) h
              cases n <;> cases hkind
              exact Node.identify_call.symm
            · rename_i hrec hchoice hpar hcontinue hdo
              have hfirst : ∀ w ∈ (texts (t :: ts)).head?, w ∉ stepKeywords := by
                simp [stepKeywords, hrec, hchoice, hpar, hcontinue, hdo]
              exact readMessage_eq_ok hfirst

theorem threads_steps {bound : Nat} (hinner : ReadsWithin protagonist inner bound)
    {runs : List (List Token)} (hruns : ∀ run ∈ runs, run.length ≤ bound) {c : Conversation} :
    Threads (fun run s n s' => (readStep protagonist inner run).run s = .ok (n, s')) runs s c s' ↔
      List.Forall₂ (fun run n => StepText protagonist (texts run) n) runs c ∧
        Conversation.identify s c = (c, s') := by
  rw [threads_congr fun run hrun _ _ _ => readStep_eq_ok (hinner.mono (hruns run hrun))]
  exact threads_and (E := fun s c s' => Conversation.identify s c = (c, s'))
    (fun _ _ => Conversation.identify_nil) (fun _ _ _ _ => Conversation.identify_cons)

theorem StepText.run {ws : List String} (h : StepText protagonist ws n) : Run (separator? n) ws := by
  have hstatement {name : String} (hname : name ∉ stepKeywords) :
      name ∉ blockKeywords.map (·.1) := by
    simp only [stepKeywords, blockKeywords, List.mem_cons, List.map_cons, List.map_nil] at hname ⊢
    grind
  cases h with
  | @message m us ws hid hkey hp hd =>
    have hplain : ∀ w ∈ m.name :: "(" :: us ++ ws, Plain w := by
      simp only [List.forall_mem_append, List.forall_mem_cons]
      exact ⟨⟨plain_of_isIdentifier hid, by decide, hp.plain fun _ _ h => h.plain⟩, hd.plain⟩
    exact .statement hplain (by simpa using hstatement hkey)
  | @choice id chooser ws cs hid hcs =>
    have hhead : ∀ w ∈ ["at", chooser], Plain w := by
      simp only [List.forall_mem_cons]
      exact ⟨by decide, plain_of_isIdentifier hid, by simp⟩
    have hmem : ("choice", some "or") ∈ blockKeywords := by decide
    exact .blocks hmem hhead (hcs.row (fun _ _ h => h.balanced) (by decide))
  | @par id ws cs hcs =>
    have hmem : ("par", some "and") ∈ blockKeywords := by decide
    have hhead : ∀ w ∈ ([] : List String), Plain w := by simp
    exact .blocks hmem hhead (hcs.row (fun _ _ h => h.balanced) (by decide))
  | @loop id label ws body hid hbody =>
    have hmem : ("rec", none) ∈ blockKeywords := by decide
    have hhead : ∀ w ∈ [label], Plain w := by simpa using plain_of_isIdentifier hid
    have hblock : BlockRow none (openBrace :: ws ++ [closeBrace]) := .last hbody.balanced
    have hrun : Run none ("rec" :: [label] ++ (openBrace :: ws ++ [closeBrace])) :=
      .blocks hmem hhead hblock
    exact hrun
  | @call name ws roles hid hr =>
    have hplain : ∀ w ∈ "do" :: name :: "(" :: ws, Plain w := by
      simp only [List.forall_mem_cons]
      exact ⟨by decide, plain_of_isIdentifier hid, by decide, hr.plain fun _ _ h => h.plain⟩
    exact .statement hplain (by simp [blockKeywords])
  | @jump id label hid =>
    have hplain : ∀ w ∈ ["continue", label], Plain w := by
      simp only [List.forall_mem_cons]
      exact ⟨by decide, plain_of_isIdentifier hid, by simp⟩
    exact .statement hplain (by simp [blockKeywords])

end Steps

open Reading in
/-- A conversation is read exactly from the texts that stand for it. -/
theorem readConversation_eq_ok {protagonist : String} {ts : List Token} {c : Conversation}
    {s s' : IdSource} : (readConversation protagonist ts).run s = .ok (c, s') ↔
      ConversationText protagonist (texts ts) c ∧ Conversation.identify s c = (c, s') := by
  -- by the number of tokens: a block has fewer than what it stands in
  induction hk : ts.length using Nat.strongRecOn generalizing ts c s s' with
  | ind k ih =>
    subst hk
    have hinner : ReadsWithin protagonist (fun inner =>
        if inner.length < ts.length then readConversation protagonist inner
        else .done (.error ⟨.unclosed, startOf inner⟩)) ts.length := by
      intro b hb s c s'
      simp only [if_pos hb]
      exact ih b.length hb rfl
    rw [readConversation, ConversationText, ← exists_splitSteps fun _ _ h => h.run]
    simp only [run_lift_bind_eq_ok, run_mapM_eq_ok]
    constructor
    · rintro ⟨runs, hruns, h⟩
      obtain ⟨hc, hids⟩ := (threads_steps hinner (length_splitSteps hruns)).mp h
      exact ⟨⟨runs, hruns, hc⟩, hids⟩
    · rintro ⟨⟨runs, hruns, hc⟩, hids⟩
      have h := (threads_steps hinner (length_splitSteps hruns)).mpr ⟨hc, hids⟩
      exact ⟨runs, hruns, h⟩

end Parley.Grammar
