import Parley.Proofs.Outline
import Parley.Proofs.TwinReading

/-! Texts with the same tokens. How the tokens are spaced, and what is said in comments, changes no more
than the line and column of an error: the error is the same, and it is reported at the same end of the
same token. Each error is reported at an end of some token, unless there is none. -/

namespace Parley

open Grammar

/-- Places at the same end of the same token of two lists, or at the start of two texts without
tokens. -/
inductive SamePlace (ts us : List Token) : Position → Position → Prop where
  | start {i : Nat} {t u : Token} : ts[i]? = some t → us[i]? = some u →
      SamePlace ts us t.start u.start
  | stop {i : Nat} {t u : Token} : ts[i]? = some t → us[i]? = some u →
      SamePlace ts us t.stop u.stop
  | origin : ts = [] → us = [] → SamePlace ts us Position.origin Position.origin

section SamePlace

variable {ts us : List Token}

theorem twins_of_texts_eq (h : texts ts = texts us) : Twins (SamePlace ts us) ts us := by
  have hlen : ts.length = us.length := by rw [← length_texts, h, length_texts]
  refine List.forall₂_iff_get.mpr ⟨hlen, fun i hi hi' => ?_⟩
  have ht : ts[i]? = some (ts.get ⟨i, hi⟩) := List.getElem?_eq_getElem hi
  have hu : us[i]? = some (us.get ⟨i, hi'⟩) := List.getElem?_eq_getElem hi'
  refine ⟨?_, .start ht hu, .stop ht hu⟩
  have htext := congrArg (·[i]?) h
  simpa [texts, ht, hu] using htext

theorem samePlace_endOf (h : texts ts = texts us) : SamePlace ts us (endOf ts) (endOf us) := by
  by_cases hts : ts = []
  · subst hts
    obtain rfl : us = [] := texts_eq_nil.mp h.symm
    exact .origin rfl rfl
  · exact (twins_of_texts_eq h).endOf hts

theorem protocolReading_samePlace (concurrent : Bool) (h : texts ts = texts us) :
    Reading.Twin (SamePlace ts us) (protocolReading concurrent ts) (protocolReading concurrent us) :=
  protocolReading_twin concurrent (samePlace_endOf h) (twins_of_texts_eq h)

theorem readProtocol_samePlace (concurrent : Bool) (h : texts ts = texts us) :
    Matches (SamePlace ts us) Eq (readProtocol concurrent ts) (readProtocol concurrent us) :=
  ((protocolReading_samePlace concurrent h).run _).map fun _ _ heq => congrArg Prod.fst heq

end SamePlace

/-! ### Where errors point -/

/-- The place of a token, the place just past one, or the start of a text that has none. -/
def PointsInto (ts : List Token) (p : Position) : Prop :=
  (∃ t ∈ ts, p = t.start ∨ p = t.stop) ∨ ts = [] ∧ p = Position.origin

theorem SamePlace.pointsInto {ts us : List Token} {p q : Position} (h : SamePlace ts us p q) :
    PointsInto ts p := by
  cases h with
  | start ht _ => exact .inl ⟨_, List.mem_of_getElem? ht, .inl rfl⟩
  | stop ht _ => exact .inl ⟨_, List.mem_of_getElem? ht, .inr rfl⟩
  | origin hts _ => exact .inr ⟨hts, rfl⟩

/-- A text that cannot be read fails with an error that points into it. -/
theorem Protocol.pointsInto_of_parse {concurrent : Bool} {text : String} {e : CompileError}
    (h : Protocol.parse concurrent text = .error e) :
    ∃ cause place, e = .parse ⟨cause, place⟩ ∧ PointsInto (Token.scan text) place := by
  obtain ⟨⟨cause, place⟩, hread, rfl⟩ := Outcome.mapError_eq_error.mp h
  refine ⟨cause, place, rfl, ?_⟩
  -- a list of tokens is read as it is itself
  have hself := readProtocol_samePlace concurrent (rfl : texts (Token.scan text) = _)
  rw [hread] at hself
  cases hself with
  | error hp => exact hp.pointsInto

/-- A message inside a branch that is not closed by a semicolon. -/
def unendedText : String :=
  "local protocol Deal at Ann (role Ann, role Bob) \x7b
    choice at Ann \x7b Offer(int) to Bob \x7d or \x7b Quit() to Bob; \x7d
  \x7d"

theorem unendedText_pointsInto : ∃ e, Protocol.parse false unendedText = .error e ∧
    ∃ cause place, e = .parse ⟨cause, place⟩ ∧ PointsInto (Token.scan unendedText) place := by
  have hfail : (Protocol.parse false unendedText).toBool = false := by
    unfold Protocol.parse unendedText
    rw [Token.scan_ofList]
    decide +kernel
  obtain ⟨e, he⟩ := Outcome.exists_error_of_toBool hfail
  exact ⟨e, he, Protocol.pointsInto_of_parse he⟩

/-! ### Texts with the same tokens -/

/-- What becomes of a protocol text once its tokens have been read. -/
def Compiled.ofReading (outcome : Except ParseError Protocol) : Except CompileError Compiled := do
  let protocol ← outcome.mapError .parse
  protocol.verify
  return ⟨protocol, ← protocol.projections⟩

theorem compile_eq_ofReading (concurrent : Bool) (text : String) :
    compile concurrent text = Compiled.ofReading (readProtocol concurrent (Token.scan text)) := rfl

/-- The same result or the same error; where the error has a place, it is the same place. -/
inductive SameOutcome {α : Type} (ts us : List Token) :
    Except CompileError α → Except CompileError α → Prop where
  | ok {a : α} : SameOutcome ts us (.ok a) (.ok a)
  | parse {cause : Cause} {p q : Position} : SamePlace ts us p q →
      SameOutcome ts us (.error (.parse ⟨cause, p⟩)) (.error (.parse ⟨cause, q⟩))
  | error {e : CompileError} : (∀ e', e ≠ .parse e') → SameOutcome ts us (.error e) (.error e)

/-- What has been read fails for other reasons than how it reads. -/
theorem Compiled.ne_parse_of_ofReading {p : Protocol} {e : CompileError}
    (h : Compiled.ofReading (.ok p) = .error e) (e' : ParseError) : e ≠ .parse e' := by
  rintro rfl
  rcases Outcome.bind_eq_error.mp h with h | ⟨_, -, h⟩
  · cases h
  rcases Outcome.bind_eq_error.mp h with h | ⟨_, -, h⟩
  · obtain ⟨_, -, h⟩ := Outcome.mapError_eq_error.mp h
    cases h
  rcases Outcome.bind_eq_error.mp h with h | ⟨_, -, h⟩
  · obtain ⟨_, -, h⟩ := Outcome.mapError_eq_error.mp h
    cases h
  · cases h

theorem sameOutcome_ofReading {ts us : List Token} {x y : Except ParseError Protocol}
    (h : Matches (SamePlace ts us) Eq x y) :
    SameOutcome ts us (Compiled.ofReading x) (Compiled.ofReading y) := by
  cases h with
  | error hp => exact .parse hp
  | @ok p _ heq =>
    subst heq
    cases h : Compiled.ofReading (.ok p) with
    | ok c => exact .ok
    | error e => exact .error (Compiled.ne_parse_of_ofReading h)

theorem SameOutcome.eq_ok {α : Type} {ts us : List Token} {a : α} {y : Except CompileError α}
    (h : SameOutcome ts us (.ok a) y) : y = .ok a := by
  cases h
  rfl

theorem compileTexts_append_congr {concurrent : Bool} {text text' : String}
    (h : compile concurrent text = compile concurrent text')
    (before after : List (Except FileError String)) :
    compileTexts concurrent (before ++ .ok text :: after) =
      compileTexts concurrent (before ++ .ok text' :: after) := by
  induction before with
  | nil =>
    show (compile concurrent text >>= _) = (compile concurrent text' >>= _)
    rw [h]
  | cons first before ih => rw [List.cons_append, List.cons_append, compileTexts, compileTexts, ih]

/-- Two texts of which one may stand for the other. -/
structure Interchangeable (text text' : String) : Prop where
  compiled : ∀ concurrent, SameOutcome (Token.scan text) (Token.scan text')
    (compile concurrent text) (compile concurrent text')
  /-- Where one compiles, the same source is generated with either of them, whatever other texts go with
  it. -/
  generated : ∀ concurrent o before after c, compile concurrent text = .ok c →
    generate concurrent o (before ++ .ok text :: after) =
      generate concurrent o (before ++ .ok text' :: after)
  /-- Whatever one of them comes to when its parts are read in some order, the other comes to in the same
  order. -/
  scheduled : ∀ outcome s,
    Reading.Reaches (protocolReading true (Token.scan text)) (IdSource.ofScope "") (.done outcome) s →
    ∃ outcome', Reading.Reaches (protocolReading true (Token.scan text')) (IdSource.ofScope "")
        (.done outcome') s ∧
      SameOutcome (Token.scan text) (Token.scan text') (Compiled.ofReading outcome)
        (Compiled.ofReading outcome')

/-- Spacing and comments do not matter. -/
theorem interchangeable_of_texts_eq {text text' : String}
    (h : texts (Token.scan text) = texts (Token.scan text')) : Interchangeable text text' := by
  have hcompiled (concurrent : Bool) : SameOutcome (Token.scan text) (Token.scan text')
      (compile concurrent text) (compile concurrent text') := by
    rw [compile_eq_ofReading, compile_eq_ofReading]
    exact sameOutcome_ofReading (readProtocol_samePlace concurrent h)
  refine ⟨hcompiled, fun concurrent o before after c hc => ?_, fun outcome s hreach => ?_⟩
  · have heq : compile concurrent text = compile concurrent text' := by
      have hsame := hcompiled concurrent
      rw [hc] at hsame
      rw [hc, hsame.eq_ok]
    have hne (t : String) : (before ++ .ok t :: after).isEmpty = false := by simp
    rw [generate, generate, hne, hne, compileTexts_append_congr heq]
  · obtain ⟨_, hreach', htwin⟩ := (protocolReading_samePlace true h).reaches hreach
    obtain ⟨outcome', rfl, hmatches⟩ := htwin.eq_done
    exact ⟨outcome', hreach', sameOutcome_ofReading hmatches⟩

/-- The same message in the same branch, with remarks. -/
def remarkedText : String :=
  "/* what Ann sees */ local protocol Deal at Ann(role Ann,role Bob)\x7bchoice at Ann\x7b
  Offer // the price
  (int)to Bob\x7dor\x7bQuit()to Bob;\x7d\x7d"

/-- An offer by itself, which compiles. -/
def offerText : String :=
  "local protocol Deal at Ann (role Ann, role Bob) \x7b Offer(int) to Bob; \x7d"

def remarkedOfferText : String :=
  "local protocol Deal // a short one
  at Ann(role Ann,role Bob)\x7bOffer/* the price */(int)to Bob;\x7d"

theorem unendedText_remarkedText_interchangeable :
    (texts (Token.scan unendedText) = texts (Token.scan remarkedText) ∧
      Interchangeable unendedText remarkedText) ∧
    (texts (Token.scan offerText) = texts (Token.scan remarkedOfferText) ∧
      Interchangeable offerText remarkedOfferText) ∧
    ∃ source, generate false {} [.ok offerText] = .ok source ∧
      generate false {} [.ok remarkedOfferText] = .ok source := by
  have hunended : texts (Token.scan unendedText) = texts (Token.scan remarkedText) := by
    unfold unendedText remarkedText
    rw [Token.scan_ofList, Token.scan_ofList]
    decide +kernel
  have hoffer : texts (Token.scan offerText) = texts (Token.scan remarkedOfferText) := by
    unfold offerText remarkedOfferText
    rw [Token.scan_ofList, Token.scan_ofList]
    decide +kernel
  have hsource : ((compile false offerText).toOption.any fun c =>
      (Api.sourceOf {} c.projections).toBool) = true := by
    unfold compile Protocol.parse offerText
    rw [Token.scan_ofList]
    decide +kernel
  have hinterchangeable := interchangeable_of_texts_eq hoffer
  obtain ⟨c, hc, hsource⟩ := Outcome.exists_ok_of_any hsource
  obtain ⟨source, hsource⟩ := Outcome.exists_ok_of_toBool hsource
  have hgenerate : generate false {} [.ok offerText] = .ok source :=
    generate_eq_ok.mpr ⟨by simp, c.projections, compileTexts_singleton hc, hsource⟩
  refine ⟨⟨hunended, interchangeable_of_texts_eq hunended⟩, ⟨hoffer, hinterchangeable⟩, source,
    hgenerate, ?_⟩
  rw [← hgenerate]
  exact (hinterchangeable.generated false {} [] [] c hc).symm

end Parley
