import Parley.Proofs.Reading
import Parley.Proofs.Slices

/-! Protocols read by index. A cursor goes along the tokens of a run, and what stands in a block is the
slice between its two braces. As with the cuts, an index or a slice that does not lie in its list is a
`fault`. Main statement: the readings are the same whatever the fault is, so that no token list makes a
reader look outside it, and what a list is cut into is the whole list. -/

namespace Parley.Grammar.Indexed

section Definitions

variable (fault : ParseError) (tokens : List Token)

/-- The token at the cursor, if it meets a want, and the cursor behind it. -/
def expectAt (wanted : Wanted) (i : Nat) : Except ParseError (Token × Nat) :=
  match tokens[i]? with
  | none => .error ⟨.ended wanted, endOf tokens⟩
  | some t =>
    if wanted.admits t.text then .ok (t, i + 1) else .error ⟨.found wanted t.text, t.start⟩

def expectWordAt (word : String) (i : Nat) : Except ParseError Nat :=
  (·.2) <$> expectAt tokens (.word word) i

def expectTextAt (wanted : Wanted) (i : Nat) : Except ParseError (String × Nat) :=
  (fun x => (x.1.text, x.2)) <$> expectAt tokens wanted i

/-- The cursor behind a word, if it comes next. -/
def eatAt? (word : String) (i : Nat) : Option Nat :=
  match tokens[i]? with
  | none => none
  | some t => if t.is word then some (i + 1) else none

def expectEndAt (i : Nat) : Except ParseError Unit :=
  match tokens[i]? with
  | none => .ok ()
  | some t => .error (unexpected t)

def roleAt (i : Nat) : Except ParseError (String × Nat) := do
  let name ← expectWordAt tokens "role" i
  expectTextAt tokens .identifier name

/-- The cursor behind a comma, unless the closing parenthesis comes first. -/
def commaAt? (i : Nat) : Except ParseError (Option Nat) :=
  match eatAt? tokens ")" i with
  | some _ => .ok none
  | none => some <$> expectWordAt tokens "," i

/-- The roles from the cursor on, through the closing parenthesis. -/
def rolesFrom (i : Nat) : Except ParseError (List String × Nat) := do
  let (role, behind) ← roleAt tokens i
  match ← commaAt? tokens behind with
  | none => return ([role], behind + 1)
  | some next =>
    if i < next ∧ next ≤ tokens.length then
      let (roles, last) ← rolesFrom next
      return (role :: roles, last)
    else throw fault
termination_by tokens.length - i

def rolesAt (i : Nat) : Except ParseError (List String × Nat) :=
  match eatAt? tokens ")" i with
  | some next => .ok ([], next)
  | none => rolesFrom fault tokens i

/-- Nothing may stand behind the brace that closes a protocol. -/
def expectLast (close : Nat) : Except ParseError Unit :=
  if close + 1 = tokens.length then .ok ()
  else do
    let t ← tokenAt fault tokens (close + 1)
    throw (unexpected t)

end Definitions

section Readings

variable (fault : ParseError)

def readLoop (inner : List Token → Reading Conversation) (run : List Token) : Reading Node := do
  let (label, i) ← expectTextAt run .identifier 1
  let id ← Reading.issue label
  let _ ← expectAt run (.word openBrace) i
  let close ← closeOf fault run i
  expectEndAt run (close + 1)
  let body ← slice fault run (i + 1) close
  return .loop id label (← inner body)

def readChoice (inner : List Token → Reading Conversation) (run : List Token) : Reading Node := do
  let i ← expectWordAt run "at" 1
  let (chooser, i) ← expectTextAt run .identifier i
  let id ← Reading.issue "choice"
  let behind ← slice fault run i run.length
  let blocks ← branchBlocks fault behind "or"
  return .choice id chooser (← Reading.all (blocks.map inner))

def readPar (inner : List Token → Reading Conversation) (run : List Token) : Reading Node := do
  let id ← Reading.issue "par"
  let behind ← slice fault run 1 run.length
  let blocks ← branchBlocks fault behind "and"
  return .par id (← Reading.all (blocks.map inner))

/-- The steps without blocks are read token by token as before. -/
def readStep (protagonist : String) (inner : List Token → Reading Conversation) (run : List Token) :
    Reading Node :=
  match run with
  | [] => readMessage protagonist (endOf run) []
  | t :: ts =>
    if t.is "rec" then readLoop fault inner run
    else if t.is "choice" then readChoice fault inner run
    else if t.is "par" then readPar fault inner run
    else if t.is "continue" then readJump (endOf run) ts
    else if t.is "do" then readCall (endOf run) ts
    else readMessage protagonist (endOf run) run

def readConversation (protagonist : String) (tokens : List Token) : Reading Conversation := do
  let runs ← splitSteps fault tokens
  runs.mapM <| readStep fault protagonist fun inner =>
    if inner.length < tokens.length then readConversation protagonist inner
    else .done (.error fault)
termination_by tokens.length

def readLocal (concurrent : Bool) (run : List Token) : Reading LocalProtocol := do
  let i ← expectWordAt run "local" 0
  let i ← expectWordAt run "protocol" i
  let (name, i) ← expectTextAt run .identifier i
  let i ← expectWordAt run "at" i
  let (protagonist, i) ← expectTextAt run .identifier i
  let i ← expectWordAt run "(" i
  let (roles, i) ← rolesAt fault run i
  let _ ← expectAt run (.word openBrace) i
  let close ← closeOf fault run i
  expectLast fault run close
  let body ← slice fault run (i + 1) close
  let conversation ← .within (IdSource.ofScope name) (readConversation fault protagonist body) pure
  return {
    name, protagonist, roles
    conversation := if concurrent then (Conversation.renumber 0 conversation).1 else conversation }

def readModules : List (List Token) → Except ParseError (Option String)
  | [] => .ok none
  | [run] => some <$> readModule run
  | run :: again :: _ => do
    let _ ← readModule run
    let t ← tokenAt fault again 0
    throw ⟨.moduleTwice, t.start⟩

def protocolReading (concurrent : Bool) (tokens : List Token) : Reading Protocol := do
  let sections ← splitSections fault tokens
  let moduleName? ← readModules fault (runsOf .moduleName sections)
  let types ← Reading.all ((runsOf .typeImport sections).map fun run => .done (readType run))
  let locals ← Reading.all ((runsOf .localProtocol sections).map (readLocal fault concurrent))
  if locals.isEmpty then .done (.error ⟨.noLocal, endOf tokens⟩)
  else return { moduleName?, types, locals }

end Readings

/-! ### Cursors -/

section Cursors

variable {fault : ParseError} {tokens ts : List Token} {i : Nat}

theorem expectAt_located {wanted : Wanted} (h : RestAt tokens i ts) :
    Matches Eq (Located tokens) (expectAt tokens wanted i) (expect wanted (endOf tokens) ts) := by
  rw [expectAt, h.getElem?_first]
  cases ts with
  | nil => exact .error rfl
  | cons t ts =>
    rw [expect]
    dsimp only [List.getElem?_cons_zero]
    split
    · exact .ok ⟨rfl, h.tail⟩
    · exact .error rfl

theorem expectWordAt_restAt {w : String} (h : RestAt tokens i ts) :
    Matches Eq (RestAt tokens) (expectWordAt tokens w i) (expectWord w (endOf tokens) ts) :=
  (expectAt_located h).map fun _ _ hx => hx.rest

theorem expectTextAt_located {wanted : Wanted} (h : RestAt tokens i ts) :
    Matches Eq (Located tokens) (expectTextAt tokens wanted i)
      (expectText wanted (endOf tokens) ts) :=
  (expectAt_located h).map fun _ _ hx => ⟨congrArg Token.text hx.fst_eq, hx.rest⟩

theorem eatAt?_restAt {w : String} (h : RestAt tokens i ts) :
    Option.Rel (RestAt tokens) (eatAt? tokens w i) (eat? w ts) := by
  rw [eatAt?, h.getElem?_first]
  cases ts with
  | nil => exact .none
  | cons t ts =>
    rw [eat?]
    dsimp only [List.getElem?_cons_zero]
    split
    · exact .some h.tail
    · exact .none

theorem expectEndAt_eq (h : RestAt tokens i ts) : expectEndAt tokens i = expectEnd ts := by
  rw [expectEndAt, h.getElem?_first]
  cases ts <;> rfl

theorem expectLast_eq {close : Nat} (h : RestAt tokens (close + 1) ts) :
    expectLast fault tokens close = expectEnd ts := by
  have hlen := h.length_eq
  cases ts with
  | nil =>
    rw [expectLast, if_pos (by simpa using hlen.symm)]
    rfl
  | cons t ts =>
    rw [List.length_cons] at hlen
    rw [expectLast, if_neg (by omega), tokenAt_eq_ok h]
    rfl

theorem RestAt.lt_of_length_lt {j : Nat} {rest : List Token} (h : RestAt tokens i ts)
    (hrest : RestAt tokens j rest) (hlt : rest.length < ts.length) : i < j ∧ j ≤ tokens.length := by
  have h₁ := h.length_eq
  have h₂ := hrest.length_eq
  omega

theorem roleAt_located (h : RestAt tokens i ts) :
    Matches Eq (Located tokens) (roleAt tokens i) (declaredRole (endOf tokens) ts) :=
  (expectWordAt_restAt h).bind fun _ _ _ hname => expectTextAt_located hname

theorem commaAt?_restAt (h : RestAt tokens i ts) :
    Matches Eq (Option.Rel (RestAt tokens)) (commaAt? tokens i)
      (nextItem? (.word ",") (endOf tokens) ts) := by
  have heat := eatAt?_restAt (w := ")") h
  rw [commaAt?, nextItem?]
  generalize eatAt? tokens ")" i = x at heat ⊢
  generalize eat? ")" ts = y at heat ⊢
  cases heat with
  | some _ => exact .ok .none
  | none =>
    rw [expectWordAt, ← comp_map]
    exact (expectAt_located h).map fun _ _ hx => .some hx.rest

theorem rolesFrom_chain (h : RestAt tokens i ts) :
    Matches Eq (Located tokens) (rolesFrom fault tokens i)
      (chain (declaredRole (endOf tokens)) (nextItem? (.word ",") (endOf tokens)) ts >>= fun x =>
        pure (x.1, x.2.tail)) := by
  induction hk : ts.length using Nat.strongRecOn generalizing i ts with
  | ind k ih =>
    subst hk
    have progress {role : String} {mid next : List Token}
        (hi : declaredRole (endOf tokens) ts = .ok (role, mid))
        (hm : nextItem? (.word ",") (endOf tokens) mid = .ok (some next)) :
        next.length < ts.length :=
      readsItems_declaredRole.length_lt admits_comma hi hm
    rw [rolesFrom, chain_eq_bind progress, bind_assoc]
    refine (roleAt_located h).with_right.bind fun x y _ hxy => ?_
    obtain ⟨role, behind⟩ := x
    obtain ⟨_, mid⟩ := y
    obtain ⟨hi, rfl, hmid⟩ := hxy
    rw [bind_assoc]
    refine (commaAt?_restAt hmid).with_right.bind fun next? rest? _ hnext => ?_
    obtain ⟨hm, hnext⟩ := hnext
    cases hnext with
    | none =>
      -- the parenthesis is still to be taken off
      have hhead := nextItem?_eq_none.mp hm
      cases mid with
      | nil => simp at hhead
      | cons t mid => exact .ok ⟨rfl, hmid.tail⟩
    | some hnext =>
      have hlt := progress hi hm
      dsimp only
      rw [if_pos (h.lt_of_length_lt hnext hlt), map_eq_pure_bind, bind_assoc]
      have hgo := (ih _ hlt hnext rfl).bind (Q := Located tokens)
        (f := fun x => pure (role :: x.1, x.2)) (g := fun x => pure (role :: x.1, x.2))
        fun x y _ hxy => .ok ⟨congrArg (role :: ·) hxy.fst_eq, hxy.rest⟩
      rwa [bind_assoc] at hgo

theorem rolesAt_located (h : RestAt tokens i ts) :
    Matches Eq (Located tokens) (rolesAt fault tokens i)
      (commaItems (declaredRole (endOf tokens)) (.word ",") (endOf tokens) ts) := by
  have heat := eatAt?_restAt (w := ")") h
  rw [rolesAt, commaItems]
  generalize eatAt? tokens ")" i = x at heat ⊢
  generalize eat? ")" ts = y at heat ⊢
  cases heat with
  | some hnext => exact .ok ⟨rfl, hnext⟩
  | none => exact rolesFrom_chain h

end Cursors

/-! ### Readings -/

section Readings

variable {fault : ParseError} {tokens run : List Token} {protagonist : String}
  {inner inner' : List Token → Reading Conversation}

theorem lift_bind_eq {α β γ : Type} {R : α → β → Prop} {x : Except ParseError α}
    {y : Except ParseError β} {f : α → Reading γ} {g : β → Reading γ} (h : Matches Eq R x y)
    (hfg : ∀ a b, y = .ok b → R a b → f a = g b) :
    ((liftM x : Reading α) >>= f) = (liftM y : Reading β) >>= g := by
  cases h with
  | ok hr => exact hfg _ _ rfl hr
  | error hp =>
    rw [hp]
    rfl

theorem lift_bind_located {α γ : Type} {x : Except ParseError (α × Nat)}
    {y : Except ParseError (α × List Token)} {f : α × Nat → Reading γ}
    {g : α × List Token → Reading γ} (h : Matches Eq (Located tokens) x y)
    (hfg : ∀ a i rest, RestAt tokens i rest → f (a, i) = g (a, rest)) :
    ((liftM x : Reading _) >>= f) = (liftM y : Reading _) >>= g := by
  refine lift_bind_eq h fun a b _ hab => ?_
  obtain ⟨a, i⟩ := a
  obtain ⟨_, rest⟩ := b
  obtain ⟨rfl, hrest⟩ := hab
  exact hfg a i rest hrest

theorem lift_bind_congr {α γ : Type} {x : Except ParseError α} {f g : α → Reading γ}
    (h : ∀ a, x = .ok a → f a = g a) :
    ((liftM x : Reading α) >>= f) = (liftM x : Reading α) >>= g := by
  cases x with
  | ok a => exact h a rfl
  | error e => rfl

theorem mapM_congr {α β : Type} {f g : α → Reading β} {as : List α} (h : ∀ a ∈ as, f a = g a) :
    as.mapM f = as.mapM g := by
  induction as with
  | nil => rfl
  | cons a as ih =>
    obtain ⟨ha, has⟩ := List.forall_mem_cons.mp h
    rw [List.mapM_cons, List.mapM_cons, ha, ih has]

/-- The two ways to read what stands in a block that nothing may follow. -/
theorem body_bind_eq {γ : Type} {i : Nat} {rest : List Token} {check : Nat → Except ParseError Unit}
    {f g : List Token → Reading γ} (h : RestAt run i rest)
    (hcheck : ∀ {close ts}, RestAt run (close + 1) ts → check close = expectEnd ts)
    (hfg : ∀ b, b.length < run.length → f b = g b) :
    (do
      let _ ← expectAt run (.word openBrace) i
      let close ← closeOf fault run i
      check close
      let body ← slice fault run (i + 1) close
      f body : Reading γ) =
    (do
      let x ← expect (.word openBrace) (endOf run) rest
      let y ← block x.1 x.2
      expectEnd y.2
      g y.1.inner) := by
  refine lift_bind_eq (expectAt_located h) fun x y hy hxy => ?_
  obtain ⟨brace, rest'⟩ := y
  obtain ⟨rfl, hbrace⟩ := expect_eq_ok.mp hy
  -- the brace that was wanted is the one whose partner is looked for
  have hbrace : brace.text = openBrace := by simpa [Wanted.admits] using hbrace
  refine lift_bind_eq (closeOf_block h hbrace) fun close y _ hc => ?_
  rw [hcheck hc.behind]
  refine bind_congr fun _ => ?_
  have hlen := hc.rest.length_eq
  rw [hc.slice_eq]
  simp only [List.length_append, List.length_cons] at hlen
  exact hfg y.1.inner (by omega)

theorem readLoop_eq {t : Token} {ts : List Token}
    (hinner : ∀ b, b.length < (t :: ts).length → inner b = inner' b) :
    readLoop fault inner (t :: ts) = Grammar.readLoop inner' (endOf (t :: ts)) ts := by
  rw [readLoop, Grammar.readLoop]
  refine lift_bind_located (expectTextAt_located (restAt_zero _).tail) fun label i rest hrest => ?_
  refine bind_congr (x := Reading.issue label) fun id => ?_
  exact body_bind_eq hrest expectEndAt_eq fun b hb => congrArg (· >>= _) (hinner b hb)

/-- The two ways to read the branches that make up the rest of a run. -/
theorem branches_bind_eq {γ : Type} {i : Nat} {rest : List Token} {sep : String}
    {f : List Conversation → Reading γ} (h : RestAt run i rest)
    (hinner : ∀ b, b.length < run.length → inner b = inner' b) :
    (do
      let behind ← slice fault run i run.length
      let blocks ← branchBlocks fault behind sep
      let branches ← Reading.all (blocks.map inner)
      f branches : Reading γ) =
    (do
      let blocks ← Grammar.branchBlocks sep rest
      let branches ← Reading.all (blocks.map inner')
      f branches) := by
  rw [slice_rest h, ← branchBlocks_eq fault]
  refine lift_bind_congr (x := branchBlocks fault rest sep) fun blocks hblocks => ?_
  rw [branchBlocks_eq] at hblocks
  have hmap : blocks.map inner = blocks.map inner' := by
    refine List.map_congr_left fun b hb => hinner b ?_
    have hlt := length_branchBlocks hblocks b hb
    have hlen := h.length_eq
    omega
  rw [hmap]

theorem readChoice_eq {t : Token} {ts : List Token}
    (hinner : ∀ b, b.length < (t :: ts).length → inner b = inner' b) :
    readChoice fault inner (t :: ts) = Grammar.readChoice inner' (endOf (t :: ts)) ts := by
  rw [readChoice, Grammar.readChoice]
  refine lift_bind_eq (expectWordAt_restAt (restAt_zero _).tail) fun i rest _ hrest => ?_
  refine lift_bind_located (expectTextAt_located hrest) fun chooser i rest hrest => ?_
  refine bind_congr (x := Reading.issue "choice") fun id => ?_
  exact branches_bind_eq hrest hinner

theorem readPar_eq {t : Token} {ts : List Token}
    (hinner : ∀ b, b.length < (t :: ts).length → inner b = inner' b) :
    readPar fault inner (t :: ts) = Grammar.readPar inner' ts := by
  rw [readPar, Grammar.readPar]
  refine bind_congr (x := Reading.issue "par") fun id => ?_
  exact branches_bind_eq (restAt_zero _).tail hinner

theorem readStep_eq (hinner : ∀ b, b.length < run.length → inner b = inner' b) :
    readStep fault protagonist inner run = Grammar.readStep protagonist inner' run := by
  cases run with
  | nil => rfl
  | cons t ts =>
    rw [readStep, Grammar.readStep, readLoop_eq hinner, readChoice_eq hinner, readPar_eq hinner]

theorem readConversation_eq (fault : ParseError) (protagonist : String) (tokens : List Token) :
    readConversation fault protagonist tokens = Grammar.readConversation protagonist tokens := by
  induction hk : tokens.length using Nat.strongRecOn generalizing tokens with
  | ind k ih =>
    subst hk
    rw [readConversation, Grammar.readConversation, splitSteps_eq]
    refine lift_bind_congr fun runs hruns => mapM_congr fun run hrun => readStep_eq fun b hb => ?_
    -- a block is shorter than its run, and a run is no longer than the tokens
    have hlt : b.length < tokens.length := Nat.lt_of_lt_of_le hb (length_splitSteps hruns run hrun)
    rw [if_pos hlt, if_pos hlt]
    exact ih _ hlt b rfl

theorem readLocal_eq (fault : ParseError) (concurrent : Bool) (run : List Token) :
    readLocal fault concurrent run = Grammar.readLocal concurrent run := by
  rw [readLocal, Grammar.readLocal]
  refine lift_bind_eq (expectWordAt_restAt (restAt_zero run)) fun i rest _ hrest => ?_
  refine lift_bind_eq (expectWordAt_restAt hrest) fun i rest _ hrest => ?_
  refine lift_bind_located (expectTextAt_located hrest) fun name i rest hrest => ?_
  refine lift_bind_eq (expectWordAt_restAt hrest) fun i rest _ hrest => ?_
  refine lift_bind_located (expectTextAt_located hrest) fun protagonist i rest hrest => ?_
  refine lift_bind_eq (expectWordAt_restAt hrest) fun i rest _ hrest => ?_
  refine lift_bind_located (rolesAt_located hrest) fun roles i rest hrest => ?_
  exact body_bind_eq hrest expectLast_eq fun b _ =>
    congrArg (fun c => Reading.within (IdSource.ofScope name) c pure >>= _)
      (readConversation_eq fault protagonist b)

theorem readModules_eq {runs : List (List Token)} (h : ∀ run ∈ runs, run ≠ []) :
    readModules fault runs = Grammar.readModules runs := by
  match runs with
  | [] => rfl
  | [run] => rfl
  | run :: again :: _ =>
    obtain ⟨t, ts, rfl⟩ := List.exists_cons_of_ne_nil (h again (by simp))
    rfl

theorem protocolReading_eq (fault : ParseError) (concurrent : Bool) (tokens : List Token) :
    protocolReading fault concurrent tokens = Grammar.protocolReading concurrent tokens := by
  rw [protocolReading, Grammar.protocolReading, splitSections_eq]
  refine lift_bind_congr fun sections hs => ?_
  have hparted := parted_of_splitSections hs
  have hruns : ∀ run ∈ runsOf .moduleName sections, run ≠ [] := by
    intro run hrun
    obtain ⟨sec, hsec, rfl⟩ := List.mem_map.mp hrun
    exact hparted.ne_nil _ (List.mem_map.mpr ⟨sec, (List.mem_filter.mp hsec).1, rfl⟩)
  rw [readModules_eq hruns, funext (readLocal_eq fault concurrent)]

end Readings

end Parley.Grammar.Indexed

namespace Parley.Grammar

/-- What holds of a token list when it is cut and read, whether or not it comes from a text. -/
structure Divided (tokens : List Token) : Prop where
  sections : ∀ secs, splitSections tokens = .ok secs →
    Parted [SectionKind.localProtocol.keyword] tokens (secs.map (·.run)) ∧
      ∀ sec ∈ secs, (texts sec.run).head? = some sec.kind.keyword
  steps : ∀ runs, splitSteps tokens = .ok runs → Parted (blockKeywords.map (·.1)) tokens runs
  branches : ∀ sep bs, splitBranches sep tokens = .ok bs →
    Rejoined sep bs tokens ∧ ∀ b ∈ bs, Balanced (texts b)
  /-- A block ends where no brace is open any more for the first time, or is refused for its brace. -/
  closes : ∀ fault i brace, tokens[i]? = some brace → brace.text = openBrace →
    (∀ j, Indexed.closeOf fault tokens i = .ok j ↔
      Indexed.ReturnsAt tokens i j ∧ ∀ k, Indexed.ReturnsAt tokens i k → j ≤ k) ∧
    (Indexed.closeOf fault tokens i = .error ⟨.unclosed, brace.start⟩ ↔
      ∀ j, ¬ Indexed.ReturnsAt tokens i j)
  /-- Cutting by index comes to the same whatever a bad index would do. -/
  cuts_within : ∀ fault, Indexed.splitSections fault tokens = splitSections tokens ∧
    Indexed.splitSteps fault tokens = splitSteps tokens ∧
    ∀ sep, Indexed.splitBranches fault tokens sep = splitBranches sep tokens
  /-- So does reading the whole list, part by part or at once. -/
  reading_within : ∀ fault concurrent,
    Indexed.protocolReading fault concurrent tokens = protocolReading concurrent tokens

theorem divided (tokens : List Token) : Divided tokens where
  sections _ h := ⟨parted_of_splitSections h, head?_of_splitSections h⟩
  steps _ h := parted_of_splitSteps h
  branches _ _ h := rejoined_of_splitBranches h
  closes fault i brace hget hbrace := by
    have hrest := Indexed.restAt_of_getElem? hget
    exact ⟨fun j => Indexed.closeOf_eq_ok_iff hrest hbrace,
      Indexed.closeOf_eq_unclosed_iff hrest hbrace⟩
  cuts_within fault := ⟨Indexed.splitSections_eq fault tokens, Indexed.splitSteps_eq fault tokens,
    Indexed.splitBranches_eq fault tokens⟩
  reading_within fault concurrent := Indexed.protocolReading_eq fault concurrent tokens

theorem divided_two_sections :
    let name : List Token := ["module", "m", ";"].map (⟨·, Position.origin⟩)
    let body : List Token := ["local", "p", openBrace, "x", ";", closeBrace].map (⟨·, Position.origin⟩)
    splitSections (name ++ body) = .ok [⟨.moduleName, name⟩, ⟨.localProtocol, body⟩] ∧
      Parted ["local"] (name ++ body) [name, body] := by
  intro name body
  have hsections : splitSections (name ++ body) =
      .ok [⟨.moduleName, name⟩, ⟨.localProtocol, body⟩] := by
    cbv
  exact ⟨hsections, ((divided (name ++ body)).sections _ hsections).1⟩

end Parley.Grammar
