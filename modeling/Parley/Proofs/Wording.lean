import Parley.Grammar
import Parley.Proofs.Braces

/-! The grammar of protocol texts, as a relation between the texts of tokens and what they stand for.
Steps may hold any identifiers, since a text does not say them. -/

namespace Parley.Grammar

section Items

variable {α : Type}

/-- How many angle brackets are open behind a text, unless a payload cannot go through it. -/
def angleStep? (depth : Nat) (w : String) : Option Nat :=
  if depth = 0 ∧ (w = "," ∨ w = ")") then none
  else if w = "<" then some (depth + 1)
  else if w = ">" then some (depth - 1)
  else if Token.isPunctuation w = true ∧ w ≠ "." ∧ w ≠ "," then none
  else some depth

/-- A payload goes through all its tokens and leaves no angle bracket open. -/
def PayloadText (ws : List String) (payload : String) : Prop :=
  ws.foldlM angleStep? 0 = some 0 ∧ payload = String.join ws ∧ payload ≠ ""

inductive RoleText : List String → String → Prop where
  | role {role : String} : isIdentifier role = true → RoleText ["role", role] role

inductive CallRoleText : List String → String → Prop where
  | bare {role : String} : isIdentifier role = true → role ≠ "role" → CallRoleText [role] role
  | marked {role : String} : isIdentifier role = true → CallRoleText ["role", role] role

/-- The sender and the receiver of a message, one of which is the protagonist. -/
inductive DirectionText (protagonist : String) : List String → String × String → Prop where
  | outward {role : String} : isIdentifier role = true →
      DirectionText protagonist ["to", role] (protagonist, role)
  | inward {role : String} : isIdentifier role = true →
      DirectionText protagonist ["from", role] (role, protagonist)

/-- Blocks with a separator between them. -/
inductive Blocks (P : List String → α → Prop) (separator : String) :
    List String → List α → Prop where
  | last {ws : List String} {a : α} : P ws a →
      Blocks P separator (openBrace :: ws ++ [closeBrace]) [a]
  | more {us ws : List String} {a : α} {as : List α} : P us a → Blocks P separator ws as →
      Blocks P separator (openBrace :: us ++ closeBrace :: separator :: ws) (a :: as)

/-- The blocks of a choice or a parallel step, which may stand in braces of their own. -/
inductive Branches (P : List String → α → Prop) (separator : String) :
    List String → List α → Prop where
  | plain {ws : List String} {as : List α} : Blocks P separator ws as → Branches P separator ws as
  | wrapped {ws : List String} {as : List α} : Blocks P separator ws as →
      Branches P separator (openBrace :: ws ++ [closeBrace]) as

end Items

/-- What joins another block to a step. -/
def separator? : Node → Option String
  | .choice .. => some "or"
  | .par .. => some "and"
  | _ => none

/-- Steps one after the other. What follows a step must not join it. -/
inductive Steps (P : List String → Node → Prop) : List String → Conversation → Prop where
  | nil : Steps P [] []
  | cons {us ws : List String} {n : Node} {ns : Conversation} : P us n → Steps P ws ns →
      (∀ w ∈ separator? n, ws.head? ≠ some w) → Steps P (us ++ ws) (n :: ns)

/-- The words that begin a step other than a message. -/
def stepKeywords : List String := ["rec", "choice", "par", "continue", "do"]

/-- The texts of one step in a local protocol at `protagonist`. -/
inductive StepText (protagonist : String) : List String → Node → Prop where
  | message {m : Message} {us ws : List String} : isIdentifier m.name = true →
      m.name ∉ stepKeywords → Bracketed PayloadText us m.payloads →
      DirectionText protagonist ws (m.sender, m.receiver) →
      StepText protagonist (m.name :: "(" :: us ++ ws ++ [";"]) (.message m)
  | choice {id : NodeId} {chooser : String} {ws : List String} {branches : List Conversation} :
      isIdentifier chooser = true → Branches (Steps (StepText protagonist)) "or" ws branches →
      StepText protagonist ("choice" :: "at" :: chooser :: ws) (.choice id chooser branches)
  | par {id : NodeId} {ws : List String} {branches : List Conversation} :
      Branches (Steps (StepText protagonist)) "and" ws branches →
      StepText protagonist ("par" :: ws) (.par id branches)
  | loop {id : NodeId} {label : String} {ws : List String} {body : Conversation} :
      isIdentifier label = true → Steps (StepText protagonist) ws body →
      StepText protagonist ("rec" :: label :: openBrace :: ws ++ [closeBrace]) (.loop id label body)
  | call {name : String} {ws : List String} {roles : List String} : isIdentifier name = true →
      Bracketed CallRoleText ws roles →
      StepText protagonist ("do" :: name :: "(" :: ws ++ [";"]) (.call name roles)
  | jump {id : NodeId} {label : String} : isIdentifier label = true →
      StepText protagonist ["continue", label, ";"] (.jump id label)

abbrev ConversationText (protagonist : String) : List String → Conversation → Prop :=
  Steps (StepText protagonist)

inductive ModuleText : List String → String → Prop where
  | names {names : List String} : names ≠ [] → (∀ name ∈ names, isIdentifier name = true) →
      ModuleText ("module" :: names.intersperse "." ++ [";"]) (".".intercalate names)

/-- A text put together from all tokens before `stop` within one statement. -/
def Spelled (stop : String) (ws : List String) (text : String) : Prop :=
  text = String.join ws ∧ stop ∉ ws ∧ ∀ w ∈ ws, Plain w

inductive AliasText : List String → Option String → Prop where
  | unnamed : AliasText [] none
  | named {name : String} : isIdentifier name = true → AliasText ["as", name] (some name)

inductive TypeText : List String → TypeImport → Prop where
  | typeImport {t : TypeImport} {schema source file named : List String} :
      Spelled ">" schema t.schema → t.schema ≠ "" → Spelled "\"" source t.source →
      Spelled "\"" file t.fileName → AliasText named t.alias? →
      TypeText ("type" :: "<" :: schema ++ ">" :: "\"" :: source ++ "\"" :: "from" :: "\"" :: file ++
        "\"" :: named ++ [";"]) t

inductive LocalText : List String → LocalProtocol → Prop where
  | localProtocol {l : LocalProtocol} {roles body : List String} : isIdentifier l.name = true →
      isIdentifier l.protagonist = true → Bracketed RoleText roles l.roles →
      ConversationText l.protagonist body l.conversation →
      LocalText ("local" :: "protocol" :: l.name :: "at" :: l.protagonist :: "(" :: roles ++
        openBrace :: body ++ [closeBrace]) l

/-- Sections in any order, with at most one module name among them. -/
inductive Sections : List String → Protocol → Prop where
  | nil : Sections [] ⟨none, [], []⟩
  | moduleName {us ws : List String} {name : String} {p : Protocol} : ModuleText us name →
      Sections ws p → p.moduleName? = none → Sections (us ++ ws) { p with moduleName? := some name }
  | typeImport {us ws : List String} {t : TypeImport} {p : Protocol} : TypeText us t →
      Sections ws p → Sections (us ++ ws) { p with types := t :: p.types }
  | localProtocol {us ws : List String} {l : LocalProtocol} {p : Protocol} : LocalText us l →
      Sections ws p → Sections (us ++ ws) { p with locals := l :: p.locals }

/-- The texts of a whole protocol, which has a local protocol at least. -/
structure Renders (ws : List String) (p : Protocol) : Prop where
  sections : Sections ws p
  locals_ne_nil : p.locals ≠ []

/-! ### Braces

A block can be found before its steps are read, because their braces pair up. -/

theorem plain_of_isIdentifier {w : String} (h : isIdentifier w = true) : Plain w := by
  refine ⟨?_, ?_, ?_⟩ <;>
  · rintro rfl
    revert h
    decide

theorem Listed.forall_mem {α : Type} {P : List String → α → Prop} {p : String → Prop}
    (hP : ∀ ws a, P ws a → ∀ w ∈ ws, p w) (hcomma : p ",") (hclose : p ")") {ws : List String}
    {as : List α} (h : Listed P ws as) : ∀ w ∈ ws, p w := by
  induction h with
  | last ha =>
    simp only [List.forall_mem_append, List.forall_mem_singleton]
    exact ⟨hP _ _ ha, hclose⟩
  | more ha _ ih =>
    simp only [List.forall_mem_append, List.forall_mem_cons]
    exact ⟨hP _ _ ha, hcomma, ih⟩

theorem Bracketed.plain {α : Type} {P : List String → α → Prop}
    (hP : ∀ ws a, P ws a → ∀ w ∈ ws, Plain w) {ws : List String} {as : List α}
    (h : Bracketed P ws as) : ∀ w ∈ ws, Plain w := by
  cases h with
  | none => decide
  | some h => exact h.forall_mem hP (by decide) (by decide)

theorem plain_of_angleStep? {depth d : Nat} {w : String} (h : angleStep? depth w = some d) :
    Plain w := by
  have hmark : ∀ w ∈ [openBrace, closeBrace, ";"], angleStep? depth w = none := by
    simp [angleStep?, openBrace, closeBrace, Token.isPunctuation, Token.isMark, Token.punctuation]
  refine ⟨?_, ?_, ?_⟩ <;>
  · rintro rfl
    rw [hmark _ (by simp)] at h
    cases h

theorem PayloadText.plain {ws : List String} {payload : String} (h : PayloadText ws payload) :
    ∀ w ∈ ws, Plain w := by
  have hfold : ∀ depth d, ws.foldlM angleStep? depth = some d → ∀ w ∈ ws, Plain w := by
    clear h
    induction ws with
    | nil => simp
    | cons w ws ih =>
      intro depth d h
      rw [List.foldlM_cons] at h
      obtain ⟨d', hw, hws⟩ := Option.bind_eq_some_iff.mp h
      exact List.forall_mem_cons.mpr ⟨plain_of_angleStep? hw, ih d' d hws⟩
  exact hfold 0 0 h.1

theorem RoleText.plain {ws : List String} {role : String} (h : RoleText ws role) :
    ∀ w ∈ ws, Plain w := by
  cases h with
  | role h =>
    have hrole : Plain "role" := by decide
    simp [hrole, plain_of_isIdentifier h]

theorem CallRoleText.plain {ws : List String} {role : String} (h : CallRoleText ws role) :
    ∀ w ∈ ws, Plain w := by
  cases h with
  | bare h _ => simp [plain_of_isIdentifier h]
  | marked h => exact (RoleText.role h).plain

theorem DirectionText.plain {protagonist : String} {ws : List String} {ends : String × String}
    (h : DirectionText protagonist ws ends) : ∀ w ∈ ws, Plain w := by
  cases h with
  | outward h =>
    have hto : Plain "to" := by decide
    simp [hto, plain_of_isIdentifier h]
  | inward h =>
    have hfrom : Plain "from" := by decide
    simp [hfrom, plain_of_isIdentifier h]

section Balanced

variable {protagonist : String}

theorem Branches.balanced {α : Type} {P : List String → α → Prop} {sep : String} {ws : List String}
    {as : List α} (h : Branches P sep ws as) (hblocks : ∀ ws, Blocks P sep ws as → Balanced ws) :
    Balanced ws := by
  cases h with
  | plain h => exact hblocks _ h
  | wrapped h => exact (hblocks _ h).block

-- structural in the step: its blocks hold smaller ones
mutual

theorem StepText.balanced {ws : List String} {n : Node} : StepText protagonist ws n → Balanced ws
  | .message hname _ hpayloads hdirection => by
    have hus := balanced_of_plain (hpayloads.plain fun _ _ h => h.plain)
    have hws := balanced_of_plain hdirection.plain
    have hopen : Plain "(" := by decide
    have hsemi : Balanced [";"] := rfl
    exact (((hus.cons hopen).cons (plain_of_isIdentifier hname)).append hws).append hsemi
  | .choice hchooser hbranches => by
    have hat : Plain "at" := by decide
    have hchoice : Plain "choice" := by decide
    have hrow := hbranches.balanced fun _ h => h.balanced (by decide)
    exact ((hrow.cons (plain_of_isIdentifier hchooser)).cons hat).cons hchoice
  | .par hbranches => by
    have hpar : Plain "par" := by decide
    exact (hbranches.balanced fun _ h => h.balanced (by decide)).cons hpar
  | .loop hlabel hbody => by
    have hrec : Plain "rec" := by decide
    exact (hbody.balanced.block.cons (plain_of_isIdentifier hlabel)).cons hrec
  | .call hname hroles => by
    have hws := balanced_of_plain (hroles.plain fun _ _ h => h.plain)
    have hopen : Plain "(" := by decide
    have hdo : Plain "do" := by decide
    have hsemi : Balanced [";"] := rfl
    exact (((hws.cons hopen).cons (plain_of_isIdentifier hname)).cons hdo).append hsemi
  | .jump hlabel => by
    have hcontinue : Plain "continue" := by decide
    have hsemi : Balanced [";"] := rfl
    exact (hsemi.cons (plain_of_isIdentifier hlabel)).cons hcontinue

theorem Steps.balanced {ws : List String} {c : Conversation} :
    Steps (StepText protagonist) ws c → Balanced ws
  | .nil => balanced_nil
  | .cons hn hns _ => hn.balanced.append hns.balanced

theorem Blocks.balanced {sep : String} {ws : List String} {bs : List Conversation} :
    Blocks (Steps (StepText protagonist)) sep ws bs → Plain sep → Balanced ws
  | .last hb, _ => hb.balanced.block
  | .more hb hbs, hsep => by
    have hblock := hb.balanced.block.append ((hbs.balanced hsep).cons hsep)
    simpa using hblock

end

end Balanced

end Parley.Grammar
