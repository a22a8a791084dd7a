import Parley.Proofs.Acceptance
import Parley.Proofs.Scanning

/-! Protocol texts from protocols, with single blanks between the tokens. Main statement: reading the
text of a protocol gives the protocol back, whichever form its branches are written in. -/

namespace Parley

open Grammar Token

/-- Which choices and parallel steps have braces around all of their branches. Each of them is asked
for by the way that leads to it. -/
abbrev Form := List Nat → Bool

def Form.under (form : Form) (k : Nat) : Form := fun way => form (k :: way)

/-- Items with commas between them, through the closing parenthesis. -/
def listed {α : Type} (item : α → List String) : List α → List String
  | [] => [")"]
  | [a] => item a ++ [")"]
  | a :: b :: as => item a ++ "," :: listed item (b :: as)

def wrap (wrapped : Bool) (ws : List String) : List String :=
  if wrapped then openBrace :: ws ++ [closeBrace] else ws

def Message.words (protagonist : String) (m : Message) : List String :=
  m.name :: "(" :: listed pieces m.payloads ++
    (if m.sender = protagonist then ["to", m.receiver] else ["from", m.sender]) ++ [";"]

mutual

def Node.words (protagonist : String) (form : Form) : Node → List String
  | .message m => m.words protagonist
  | .choice _ chooser branches =>
    "choice" :: "at" :: chooser :: wrap (form []) (branchWords protagonist "or" form 0 branches)
  | .par _ branches => "par" :: wrap (form []) (branchWords protagonist "and" form 0 branches)
  | .loop _ label body =>
    "rec" :: label :: openBrace :: Conversation.words protagonist form 0 body ++ [closeBrace]
  | .call name roles => "do" :: name :: "(" :: listed (fun role => [role]) roles ++ [";"]
  | .jump _ label => ["continue", label, ";"]

/-- The texts of the steps of a conversation, the first of which is asked for as number `k`. -/
def Conversation.words (protagonist : String) (form : Form) (k : Nat) : List Node → List String
  | [] => []
  | n :: ns => n.words protagonist (form.under k) ++ Conversation.words protagonist form (k + 1) ns

def branchWords (protagonist separator : String) (form : Form) (k : Nat) :
    List (List Node) → List String
  | [] => []
  | [b] => openBrace :: Conversation.words protagonist (form.under k) 0 b ++ [closeBrace]
  | b :: b' :: bs => openBrace :: Conversation.words protagonist (form.under k) 0 b ++
      closeBrace :: separator :: branchWords protagonist separator form (k + 1) (b' :: bs)

end

def TypeImport.words (t : TypeImport) : List String :=
  "type" :: "<" :: pieces t.schema ++ ">" :: "\"" :: pieces t.source ++ "\"" :: "from" :: "\"" ::
    pieces t.fileName ++ "\"" :: t.alias?.elim [] (fun name => ["as", name]) ++ [";"]

def LocalProtocol.words (form : Form) (l : LocalProtocol) : List String :=
  "local" :: "protocol" :: l.name :: "at" :: l.protagonist :: "(" ::
    listed (fun role => ["role", role]) l.roles ++
    openBrace :: Conversation.words l.protagonist form 0 l.conversation ++ [closeBrace]

def localsWords (form : Form) (k : Nat) : List LocalProtocol → List String
  | [] => []
  | l :: ls => l.words (form.under k) ++ localsWords form (k + 1) ls

def Protocol.words (form : Form) (p : Protocol) : List String :=
  p.moduleName?.elim [] (fun name => "module" :: pieces name ++ [";"]) ++
    p.types.flatMap TypeImport.words ++ localsWords form 0 p.locals

def Protocol.print (form : Form) (p : Protocol) : String := " ".intercalate (p.words form)

/-! ### What can be printed -/

/-- A text without blanks and without some characters. -/
def Solid (apart : List Char) (text : String) : Prop :=
  ∀ c ∈ text.toList, Text.isBlank c = false ∧ c ∉ apart

instance (apart : List Char) (text : String) : Decidable (Solid apart text) :=
  List.decidableBAll _ text.toList

structure TypeImport.Printable (t : TypeImport) : Prop where
  schema_ne : t.schema ≠ ""
  schema : Solid ['>', ';', '\x7b', '\x7d'] t.schema
  source : Solid ['"', ';', '\x7b', '\x7d'] t.source
  fileName : Solid ['"', ';', '\x7b', '\x7d'] t.fileName
  named : ∀ name ∈ t.alias?, isIdentifier name = true

structure Message.Printable (protagonist : String) (m : Message) : Prop where
  name : isIdentifier m.name = true
  name_free : m.name ∉ stepKeywords ∧ m.name ≠ "or" ∧ m.name ≠ "and"
  sender : isIdentifier m.sender = true
  receiver : isIdentifier m.receiver = true
  protagonist : m.sender = protagonist ∨ m.receiver = protagonist
  payloads : ∀ payload ∈ m.payloads, payload ≠ "" ∧ Solid [] payload ∧
    (pieces payload).foldlM angleStep? 0 = some 0

/-- What one step has to fulfil, apart from the steps in it. -/
def Node.Printable (protagonist : String) : Node → Prop
  | .message m => m.Printable protagonist
  | .choice _ chooser branches => isIdentifier chooser = true ∧ branches ≠ []
  | .par _ branches => branches ≠ []
  | .loop _ label _ => isIdentifier label = true
  | .call name roles =>
    isIdentifier name = true ∧ ∀ role ∈ roles, isIdentifier role = true ∧ role ≠ "role"
  | .jump _ label => isIdentifier label = true

structure LocalProtocol.Printable (l : LocalProtocol) : Prop where
  name : isIdentifier l.name = true
  protagonist : isIdentifier l.protagonist = true
  roles : ∀ role ∈ l.roles, isIdentifier role = true
  steps : ∀ n ∈ Conversation.preorder l.conversation, n.Printable l.protagonist

structure Protocol.Printable (p : Protocol) : Prop where
  moduleName : ∀ name ∈ p.moduleName?, ∃ names : List String, names ≠ [] ∧
    (∀ n ∈ names, isIdentifier n = true) ∧ name = ".".intercalate names
  types : ∀ t ∈ p.types, t.Printable
  locals : ∀ l ∈ p.locals, l.Printable
  locals_ne_nil : p.locals ≠ []

/-- A protocol with the identifiers that reading its text gives to its steps. -/
def LocalProtocol.identified (l : LocalProtocol) : LocalProtocol :=
  { l with conversation := (Conversation.identify (IdSource.ofScope l.name) l.conversation).1 }

def Protocol.identified (p : Protocol) : Protocol :=
  { p with locals := p.locals.map LocalProtocol.identified }

/-! ### The texts stand for the protocol -/

section Rendering

variable {α : Type} {P : List String → α → Prop} {item : α → List String}

theorem bracketed_listed {as : List α} (h : ∀ a ∈ as, P (item a) a) :
    Bracketed P (listed item as) as := by
  cases as with
  | nil => exact .none
  | cons a as =>
    refine .some ?_
    induction as generalizing a with
    | nil => exact .last (h a List.mem_cons_self)
    | cons b as ih =>
      obtain ⟨ha, hrest⟩ := List.forall_mem_cons.mp h
      exact .more ha (ih b hrest)

theorem branches_wrap {sep : String} {ws : List String} {as : List α} (wrapped : Bool)
    (h : Blocks P sep ws as) : Branches P sep (wrap wrapped ws) as := by
  cases wrapped with
  | false => exact .plain h
  | true => exact .wrapped h

variable {protagonist : String}

theorem Message.stepText_words {m : Message} (h : m.Printable protagonist) (id : NodeId) :
    StepText protagonist (m.words protagonist) (.message { m with id }) := by
  have hpayloads : Bracketed PayloadText (listed pieces m.payloads) m.payloads := by
    refine bracketed_listed fun payload hp => ?_
    obtain ⟨hne, -, hdepth⟩ := h.payloads payload hp
    exact ⟨hdepth, (join_pieces payload).symm, hne⟩
  have hdirection : DirectionText protagonist
      (if m.sender = protagonist then ["to", m.receiver] else ["from", m.sender])
      (m.sender, m.receiver) := by
    split
    · rename_i hs
      rw [hs]
      exact .outward h.receiver
    · rename_i hs
      rw [h.protagonist.resolve_left hs]
      exact .inward h.sender
  exact .message (m := { m with id }) h.name h.name_free.1 hpayloads hdirection

theorem Node.head?_words {n : Node} (h : n.Printable protagonist) (form : Form) {w : String}
    (hw : w = "or" ∨ w = "and") : (n.words protagonist form).head? ≠ some w := by
  cases n with
  | message m =>
    obtain ⟨-, hor, hand⟩ := h.name_free
    rcases hw with rfl | rfl <;> simpa [Node.words, Message.words]
  | choice => rcases hw with rfl | rfl <;> simp [Node.words]
  | par => rcases hw with rfl | rfl <;> simp [Node.words]
  | loop => rcases hw with rfl | rfl <;> simp [Node.words]
  | call => rcases hw with rfl | rfl <;> simp [Node.words]
  | jump => rcases hw with rfl | rfl <;> simp [Node.words]

theorem separator?_eq {n : Node} {w : String} (h : w ∈ separator? n) : w = "or" ∨ w = "and" := by
  cases n <;> simp_all [separator?, eq_comm]

theorem Node.printable_of_preorder {n : Node} (h : ∀ m ∈ n.preorder, m.Printable protagonist) :
    n.Printable protagonist := by
  cases n <;> exact h _ List.mem_cons_self

theorem Conversation.head?_words {c : Conversation}
    (h : ∀ m ∈ Conversation.preorder c, m.Printable protagonist) (form : Form) (k : Nat) {w : String}
    (hw : w = "or" ∨ w = "and") : (Conversation.words protagonist form k c).head? ≠ some w := by
  cases c with
  | nil => simp [Conversation.words]
  | cons n ns =>
    rw [Conversation.preorder, List.forall_mem_append] at h
    have hn := Node.head?_words (Node.printable_of_preorder h.1) (form.under k) hw
    have hne : n.words protagonist (form.under k) ≠ [] := by
      cases n <;> simp [Node.words, Message.words]
    rw [Conversation.words, List.head?_append_of_ne_nil _ hne]
    exact hn

mutual

theorem Node.stepText_words (n : Node) (h : ∀ m ∈ n.preorder, m.Printable protagonist) (form : Form)
    (s : IdSource) : StepText protagonist (n.words protagonist form) (n.identify s).1 := by
  have hn := Node.printable_of_preorder h
  cases n with
  | message m => exact Message.stepText_words hn _
  | choice id chooser branches =>
    rw [Node.preorder, List.forall_mem_cons] at h
    exact .choice hn.1 (branches_wrap _ (blocks_branchWords branches hn.2 h.2 "or" form 0 _))
  | par id branches =>
    rw [Node.preorder, List.forall_mem_cons] at h
    exact .par (branches_wrap _ (blocks_branchWords branches hn h.2 "and" form 0 _))
  | loop id label body =>
    rw [Node.preorder, List.forall_mem_cons] at h
    exact .loop hn (Conversation.steps_words body h.2 form 0 _)
  | call name roles =>
    have hroles : Bracketed CallRoleText (listed (fun role => [role]) roles) roles :=
      bracketed_listed fun role hr => .bare (hn.2 role hr).1 (hn.2 role hr).2
    exact .call hn.1 hroles
  | jump id label => exact .jump hn

theorem Conversation.steps_words (c : Conversation)
    (h : ∀ m ∈ Conversation.preorder c, m.Printable protagonist) (form : Form) (k : Nat)
    (s : IdSource) : Steps (StepText protagonist) (Conversation.words protagonist form k c)
      (Conversation.identify s c).1 := by
  cases c with
  | nil => exact .nil
  | cons n ns =>
    rw [Conversation.preorder, List.forall_mem_append] at h
    refine .cons (Node.stepText_words n h.1 _ s) (Conversation.steps_words ns h.2 form (k + 1) _) ?_
    exact fun w hw => Conversation.head?_words h.2 form (k + 1) (separator?_eq hw)

theorem blocks_branchWords (bs : List Conversation) (hne : bs ≠ [])
    (h : ∀ m ∈ branchesPreorder bs, m.Printable protagonist) (sep : String) (form : Form) (k : Nat)
    (s : IdSource) : Blocks (Steps (StepText protagonist)) sep (branchWords protagonist sep form k bs)
      (identifyBranches s bs).1 := by
  match bs with
  | [] => exact absurd rfl hne
  | [b] =>
    rw [branchesPreorder, List.forall_mem_append] at h
    exact .last (Conversation.steps_words b h.1 _ 0 s)
  | b :: b' :: bs =>
    rw [branchesPreorder, List.forall_mem_append] at h
    exact .more (Conversation.steps_words b h.1 _ 0 s)
      (blocks_branchWords (b' :: bs) (List.cons_ne_nil b' bs) h.2 sep form (k + 1) _)

end

end Rendering

section Sections

theorem Solid.not_mem_pieces {apart : List Char} {text : String} (h : Solid apart text) {c : Char}
    (hc : c ∈ apart) : String.singleton c ∉ pieces text := by
  intro hw
  have hmem : c ∈ text.toList := mem_of_mem_pieces hw (by simp)
  exact (h c hmem).2 hc

theorem Solid.spelled {stop : Char} {text : String} (h : Solid [stop, ';', '\x7b', '\x7d'] text) :
    Spelled (String.singleton stop) (pieces text) text := by
  refine ⟨(join_pieces text).symm, h.not_mem_pieces (by simp), fun w hw => ⟨?_, ?_, ?_⟩⟩
  · rintro rfl
    exact h.not_mem_pieces (c := '\x7b') (by simp) hw
  · rintro rfl
    exact h.not_mem_pieces (c := '\x7d') (by simp) hw
  · rintro rfl
    exact h.not_mem_pieces (c := ';') (by simp) hw

theorem TypeImport.typeText_words {t : TypeImport} (h : t.Printable) : TypeText t.words t := by
  have hnamed : AliasText (t.alias?.elim [] fun name => ["as", name]) t.alias? := by
    cases ha : t.alias? with
    | none => exact .unnamed
    | some name => exact .named (h.named name ha)
  exact .typeImport h.schema.spelled h.schema_ne h.source.spelled h.fileName.spelled hnamed

theorem isWordChar_of_isIdentifier {w : String} (h : isIdentifier w = true) :
    w ≠ "" ∧ ∀ c ∈ w.toList, isWordChar c = true := by
  rw [isIdentifier] at h
  split at h
  · cases h
  · rename_i c cs hw
    simp only [Bool.and_eq_true, List.all_eq_true] at h
    obtain ⟨hc, hcs⟩ := h
    refine ⟨?_, ?_⟩
    · rintro rfl
      cases hw
    · rw [hw]
      refine List.forall_mem_cons.mpr ⟨isWordChar_of_isAlphanum ?_, fun d hd => ?_⟩
      · simp only [Char.isAlphanum, Bool.or_eq_true] at hc ⊢
        exact hc.imp_left .inl
      · exact isWordChar_of_isAlphanum (hcs d hd)

theorem pieces_intercalate {names : List String} (hids : ∀ n ∈ names, isIdentifier n = true) :
    pieces (".".intercalate names) = names.intersperse "." := by
  refine pieces_intercalate_dot fun name hname => ?_
  obtain ⟨hne, hword⟩ := isWordChar_of_isIdentifier (hids name hname)
  refine ⟨hne, fun c hc => ?_⟩
  have hc := hword c hc
  simp only [isWordChar, Bool.and_eq_true, Bool.not_eq_true'] at hc
  exact hc.2

theorem LocalProtocol.localText_words {l : LocalProtocol} (h : l.Printable) (form : Form) :
    LocalText (l.words form) l.identified := by
  have hroles : Bracketed RoleText (listed (fun role => ["role", role]) l.roles) l.roles :=
    bracketed_listed fun role hr => .role (h.roles role hr)
  exact .localProtocol (l := l.identified) h.name h.protagonist hroles
    (Conversation.steps_words l.conversation h.steps form 0 _)

theorem Protocol.renders_words {p : Protocol} (h : p.Printable) (form : Form) :
    Renders (p.words form) p.identified := by
  have hlocals (k : Nat) (ls : List LocalProtocol) (hls : ∀ l ∈ ls, l.Printable) :
      Sections (localsWords form k ls) ⟨none, [], ls.map LocalProtocol.identified⟩ := by
    induction ls generalizing k with
    | nil => exact .nil
    | cons l ls ih =>
      obtain ⟨hl, hls⟩ := List.forall_mem_cons.mp hls
      exact .localProtocol (LocalProtocol.localText_words hl _) (ih (k + 1) hls)
  have htypes (ts : List TypeImport) (hts : ∀ t ∈ ts, t.Printable) :
      Sections (ts.flatMap TypeImport.words ++ localsWords form 0 p.locals)
        ⟨none, ts, p.identified.locals⟩ := by
    induction ts with
    | nil => exact hlocals 0 p.locals h.locals
    | cons t ts ih =>
      obtain ⟨ht, hts⟩ := List.forall_mem_cons.mp hts
      rw [List.flatMap_cons, List.append_assoc]
      exact .typeImport (TypeImport.typeText_words ht) (ih hts)
  refine ⟨?_, by simpa [Protocol.identified] using h.locals_ne_nil⟩
  have hsections := htypes p.types h.types
  rw [Protocol.words, List.append_assoc]
  obtain ⟨moduleName?, types, locals⟩ := p
  cases moduleName? with
  | none => exact hsections
  | some name =>
    obtain ⟨names, hne, hids, rfl⟩ := h.moduleName name rfl
    have hmodule := ModuleText.names hne hids
    rw [← pieces_intercalate hids] at hmodule
    exact .moduleName hmodule hsections rfl

end Sections

/-! ### The texts stay apart -/

section Tokens

theorem isTokenText_of_isIdentifier {w : String} (h : isIdentifier w = true) :
    isTokenText w = true := by
  obtain ⟨hne, hword⟩ := isWordChar_of_isIdentifier h
  simp only [isTokenText, Bool.or_eq_true, Bool.and_eq_true, bne_iff_ne, List.all_eq_true]
  exact .inr ⟨hne, hword⟩

theorem forall_listed {α : Type} {p : String → Prop} {item : α → List String} {as : List α}
    (h : ∀ a ∈ as, ∀ w ∈ item a, p w) (hcomma : p ",") (hclose : p ")") :
    ∀ w ∈ listed item as, p w := by
  fun_induction listed item as with
  | case1 => simpa using hclose
  | case2 a =>
    simp only [List.forall_mem_append, List.forall_mem_singleton]
    exact ⟨h a List.mem_cons_self, hclose⟩
  | case3 a b as ih =>
    obtain ⟨ha, hrest⟩ := List.forall_mem_cons.mp h
    simp only [List.forall_mem_append, List.forall_mem_cons]
    exact ⟨ha, hcomma, ih hrest⟩

theorem Solid.isTokenText_pieces {apart : List Char} {text : String} (h : Solid apart text) :
    ∀ w ∈ pieces text, isTokenText w = true :=
  fun _ hw => isTokenText_of_mem_pieces (fun c hc => (h c hc).1) hw

theorem isTokenText_wrap {ws : List String} (wrapped : Bool) (h : ∀ w ∈ ws, isTokenText w = true) :
    ∀ w ∈ wrap wrapped ws, isTokenText w = true := by
  cases wrapped with
  | false => exact h
  | true =>
    simp only [wrap, if_true, List.forall_mem_append, List.forall_mem_cons]
    exact ⟨⟨by decide, h⟩, by decide⟩

variable {protagonist : String}

theorem Message.isTokenText_words {m : Message} (h : m.Printable protagonist) :
    ∀ w ∈ m.words protagonist, isTokenText w = true := by
  have hpayloads : ∀ w ∈ listed pieces m.payloads, isTokenText w = true :=
    forall_listed (fun payload hp => (h.payloads payload hp).2.1.isTokenText_pieces) (by decide)
      (by decide)
  have hdirection : ∀ w ∈ (if m.sender = protagonist then ["to", m.receiver] else ["from", m.sender]),
      isTokenText w = true := by
    split
    · simp only [List.forall_mem_cons]
      exact ⟨by decide, isTokenText_of_isIdentifier h.receiver, by simp⟩
    · simp only [List.forall_mem_cons]
      exact ⟨by decide, isTokenText_of_isIdentifier h.sender, by simp⟩
  simp only [Message.words, List.forall_mem_append, List.forall_mem_cons]
  exact ⟨⟨⟨isTokenText_of_isIdentifier h.name, by decide, hpayloads⟩, hdirection⟩, by decide⟩

mutual

theorem Node.isTokenText_words (n : Node) (h : ∀ m ∈ n.preorder, m.Printable protagonist)
    (form : Form) : ∀ w ∈ n.words protagonist form, isTokenText w = true := by
  have hn := Node.printable_of_preorder h
  cases n with
  | message m => exact Message.isTokenText_words hn
  | choice id chooser branches =>
    rw [Node.preorder, List.forall_mem_cons] at h
    simp only [Node.words, List.forall_mem_cons]
    exact ⟨by decide, by decide, isTokenText_of_isIdentifier hn.1,
      isTokenText_wrap _ (isTokenText_branchWords branches h.2 (by decide) form 0)⟩
  | par id branches =>
    rw [Node.preorder, List.forall_mem_cons] at h
    simp only [Node.words, List.forall_mem_cons]
    exact ⟨by decide, isTokenText_wrap _ (isTokenText_branchWords branches h.2 (by decide) form 0)⟩
  | loop id label body =>
    rw [Node.preorder, List.forall_mem_cons] at h
    simp only [Node.words, List.forall_mem_append, List.forall_mem_cons]
    exact ⟨⟨by decide, isTokenText_of_isIdentifier hn, by decide,
      Conversation.isTokenText_words body h.2 form 0⟩, by decide⟩
  | call name roles =>
    have hroles : ∀ w ∈ listed (fun role => [role]) roles, isTokenText w = true :=
      forall_listed (fun role hr => by simpa using isTokenText_of_isIdentifier (hn.2 role hr).1)
        (by decide) (by decide)
    simp only [Node.words, List.forall_mem_append, List.forall_mem_cons]
    exact ⟨⟨by decide, isTokenText_of_isIdentifier hn.1, by decide, hroles⟩, by decide⟩
  | jump id label =>
    simp only [Node.words, List.forall_mem_cons]
    exact ⟨by decide, isTokenText_of_isIdentifier hn, by decide⟩

theorem Conversation.isTokenText_words (c : Conversation)
    (h : ∀ m ∈ Conversation.preorder c, m.Printable protagonist) (form : Form) (k : Nat) :
    ∀ w ∈ Conversation.words protagonist form k c, isTokenText w = true := by
  cases c with
  | nil => simp [Conversation.words]
  | cons n ns =>
    rw [Conversation.preorder, List.forall_mem_append] at h
    rw [Conversation.words, List.forall_mem_append]
    exact ⟨Node.isTokenText_words n h.1 _, Conversation.isTokenText_words ns h.2 form (k + 1)⟩

theorem isTokenText_branchWords (bs : List Conversation)
    (h : ∀ m ∈ branchesPreorder bs, m.Printable protagonist) {sep : String}
    (hsep : isTokenText sep = true) (form : Form) (k : Nat) :
    ∀ w ∈ branchWords protagonist sep form k bs, isTokenText w = true := by
  match bs with
  | [] => simp [branchWords]
  | [b] =>
    rw [branchesPreorder, List.forall_mem_append] at h
    simp only [branchWords, List.forall_mem_append, List.forall_mem_cons]
    exact ⟨⟨by decide, Conversation.isTokenText_words b h.1 _ 0⟩, by decide⟩
  | b :: b' :: bs =>
    rw [branchesPreorder, List.forall_mem_append] at h
    simp only [branchWords, List.forall_mem_append, List.forall_mem_cons]
    exact ⟨⟨by decide, Conversation.isTokenText_words b h.1 _ 0⟩, by decide, hsep,
      isTokenText_branchWords (b' :: bs) h.2 hsep form (k + 1)⟩

end

theorem TypeImport.isTokenText_words {t : TypeImport} (h : t.Printable) :
    ∀ w ∈ t.words, isTokenText w = true := by
  have hnamed : ∀ w ∈ t.alias?.elim [] (fun name => ["as", name]), isTokenText w = true := by
    cases ha : t.alias? with
    | none => simp
    | some name =>
      simp only [Option.elim_some, List.forall_mem_cons]
      exact ⟨by decide, isTokenText_of_isIdentifier (h.named name ha), by simp⟩
  simp only [TypeImport.words, List.forall_mem_append, List.forall_mem_cons]
  exact ⟨⟨⟨⟨⟨by decide, by decide, h.schema.isTokenText_pieces⟩, by decide, by decide,
    h.source.isTokenText_pieces⟩, by decide, by decide, by decide, h.fileName.isTokenText_pieces⟩,
    by decide, hnamed⟩, by decide⟩

theorem LocalProtocol.isTokenText_words {l : LocalProtocol} (h : l.Printable) (form : Form) :
    ∀ w ∈ l.words form, isTokenText w = true := by
  have hroles : ∀ w ∈ listed (fun role => ["role", role]) l.roles, isTokenText w = true := by
    refine forall_listed (fun role hr => ?_) (by decide) (by decide)
    simp only [List.forall_mem_cons]
    exact ⟨by decide, isTokenText_of_isIdentifier (h.roles role hr), by simp⟩
  simp only [LocalProtocol.words, List.forall_mem_append, List.forall_mem_cons]
  exact ⟨⟨⟨by decide, by decide, isTokenText_of_isIdentifier h.name, by decide,
    isTokenText_of_isIdentifier h.protagonist, by decide, hroles⟩, by decide,
    Conversation.isTokenText_words l.conversation h.steps form 0⟩, by decide⟩

theorem Protocol.isTokenText_words {p : Protocol} (h : p.Printable) (form : Form) :
    ∀ w ∈ p.words form, isTokenText w = true := by
  have hmodule : ∀ w ∈ p.moduleName?.elim [] (fun name => "module" :: pieces name ++ [";"]),
      isTokenText w = true := by
    cases hm : p.moduleName? with
    | none => simp
    | some name =>
      obtain ⟨names, -, hids, rfl⟩ := h.moduleName name hm
      simp only [Option.elim_some, List.forall_mem_append, List.forall_mem_cons,
        pieces_intercalate hids]
      refine ⟨⟨by decide, fun w hw => ?_⟩, by decide⟩
      rcases mem_of_mem_intersperse hw with hw | rfl
      · exact isTokenText_of_isIdentifier (hids w hw)
      · decide
  have hlocals (k : Nat) (ls : List LocalProtocol) (hls : ∀ l ∈ ls, l.Printable) :
      ∀ w ∈ localsWords form k ls, isTokenText w = true := by
    induction ls generalizing k with
    | nil => simp [localsWords]
    | cons l ls ih =>
      obtain ⟨hl, hls⟩ := List.forall_mem_cons.mp hls
      rw [localsWords, List.forall_mem_append]
      exact ⟨LocalProtocol.isTokenText_words hl _, ih (k + 1) hls⟩
  have htypes : ∀ w ∈ p.types.flatMap TypeImport.words, isTokenText w = true := by
    intro w hw
    obtain ⟨t, ht, hw⟩ := List.mem_flatMap.mp hw
    exact TypeImport.isTokenText_words (h.types t ht) w hw
  simp only [Protocol.words, List.forall_mem_append]
  exact ⟨⟨hmodule, htypes⟩, hlocals 0 p.locals h.locals⟩

end Tokens

theorem Protocol.identified_locals (p : Protocol) : ∀ l ∈ p.identified.locals, l.Identified := by
  intro l hl
  obtain ⟨l, -, rfl⟩ := List.mem_map.mp hl
  exact congrArg Prod.fst (Conversation.identify_identify (IdSource.ofScope l.name) l.conversation)

theorem Protocol.identified_eq_self {p : Protocol} (h : ∀ l ∈ p.locals, l.Identified) :
    p.identified = p := by
  have hmap : p.locals.map LocalProtocol.identified = p.locals := by
    refine (List.map_congr_left fun l hl => ?_).trans (List.map_id _)
    have hl : (Conversation.identify (IdSource.ofScope l.name) l.conversation).1 = l.conversation :=
      h l hl
    rw [LocalProtocol.identified, hl]
    rfl
  rw [Protocol.identified, hmap]

/-- Reading the text of a protocol gives the protocol back, with the identifiers drawn in order. A
protocol that already has them comes back as it is. -/
theorem Protocol.readProtocol_scan_print {p : Protocol} (h : p.Printable) (form : Form)
    (concurrent : Bool) : readProtocol concurrent (scan (p.print form)) = .ok p.identified ∧
      ((∀ l ∈ p.locals, l.Identified) → p.identified = p) := by
  have htexts : texts (scan (p.print form)) = p.words form :=
    texts_scan_intercalate (Protocol.isTokenText_words h form)
  have hrenders := Protocol.renders_words h form
  rw [← htexts] at hrenders
  refine ⟨?_, Protocol.identified_eq_self⟩
  have hread : (protocolReading concurrent (scan (p.print form))).run (IdSource.ofScope "") =
      .ok (p.identified, IdSource.ofScope "") :=
    protocolReading_eq_ok.mpr ⟨⟨hrenders, p.identified_locals⟩, rfl⟩
  rw [readProtocol, hread]
  rfl

/-- A protocol with every kind of step, with empty blocks and with marks in its texts. -/
def courier : Protocol :=
  let id : NodeId := ⟨"", "", 0⟩
  { moduleName? := some "post.night"
    types := [⟨"xsd/v1", "Parcel[]", "lib//parcel.xsd", some "Parcel"⟩]
    locals := [{
      name := "Round"
      protagonist := "Courier"
      roles := ["Courier", "Depot"]
      conversation := [
        .loop id "day" [
          .choice id "Depot" [
            [.message ⟨id, "load", "Depot", "Courier", ["Map<Stop,List<Parcel>>", "int"]⟩,
              .par id [[], [.call "Drive" ["Courier"]]], .jump id "day"],
            []]],
        .message ⟨id, "bye", "Courier", "Depot", []⟩] }] }

theorem courier_printable : courier.Printable where
  moduleName := by
    rintro name ⟨⟩
    exact ⟨["post", "night"], by decide, by decide, by decide⟩
  types := by
    rintro t ht
    obtain rfl := List.mem_singleton.mp ht
    exact ⟨by decide, by decide, by decide, by decide, by decide⟩
  locals := by
    rintro l hl
    obtain rfl := List.mem_singleton.mp hl
    refine ⟨by decide, by decide, by decide, ?_⟩
    simp only [Conversation.preorder, Node.preorder, branchesPreorder, List.append_nil,
      List.cons_append, List.nil_append, List.forall_mem_cons, Node.Printable]
    refine ⟨by decide, ⟨by decide, by simp⟩, ?_, by simp, by decide, by decide, ?_, by simp⟩
    · exact ⟨by decide, by decide, by decide, by decide, by decide, by decide +kernel⟩
    · exact ⟨by decide, by decide, by decide, by decide, by decide, by decide⟩
  locals_ne_nil := by simp [courier]

/-- The choice has braces around its branches, the parallel step has not. -/
theorem courier_readProtocol_scan_print : courier.Printable ∧
    courier.print (fun way => way.length == 3) =
      "module post . night ; " ++
        "type < xsd / v1 > \" Parcel [ ] \" from \" lib / / parcel . xsd \" as Parcel ; " ++
        "local protocol Round at Courier ( role Courier , role Depot ) \x7b rec day \x7b " ++
        "choice at Depot \x7b \x7b load ( Map < Stop , List < Parcel > > , int ) from Depot ; " ++
        "par \x7b \x7d and \x7b do Drive ( Courier ) ; \x7d continue day ; \x7d " ++
        "or \x7b \x7d \x7d \x7d bye ( ) to Depot ; \x7d" ∧
    readProtocol false (scan (courier.print fun way => way.length == 3)) = .ok courier.identified :=
  ⟨courier_printable, by decide +kernel, (Protocol.readProtocol_scan_print courier_printable _ _).1⟩

end Parley
