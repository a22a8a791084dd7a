import Parley.Grammar.Reading
import Parley.Grammar.Run

/-! Conversations: the steps of a block, each over the run of tokens that it takes up. All runs of a
block are found before the first of them is read. -/

namespace Parley.Grammar

/-- A block as it stands, with the separator in front of it if there is one. -/
def blockRun (stop : Position) : Reader (List Token)
  | [] => .error ⟨.ended (.word openBrace), stop⟩
  | t :: ts =>
    if t.is openBrace then do
      let (b, rest) ← block t ts
      return (t :: b.inner ++ [b.close], rest)
    else
      match ts with
      | [] => .error ⟨.ended (.word openBrace), stop⟩
      | brace :: ts => do
        let (b, rest) ← block brace ts
        return (t :: brace :: b.inner ++ [b.close], rest)

/-- Whether a separator and another block follow. -/
def nextBlock? (separator? : Option String) (stop : Position) (tokens : List Token) :
    Except ParseError (Option (List Token)) :=
  match separator?, tokens with
  | some separator, t :: ts =>
    if t.is separator then
      match ts with
      | brace :: _ => if brace.is openBrace then .ok (some tokens) else .error (unexpected brace)
      | [] => .error ⟨.noBlockAfter separator, stop⟩
    else .ok none
  | _, _ => .ok none

/-- The run of a step that has blocks, with `separator?` between them. -/
def blockStep (separator? : Option String) (stop : Position) (keyword : Token) :
    Reader (List Token) := fun tokens =>
  match header tokens with
  | (_, []) => .error ⟨.ended (.word openBrace), stop⟩
  | (head, brace :: rest) =>
    if brace.is openBrace then do
      let (blocks, rest) ← chain (blockRun stop) (nextBlock? separator? stop) (brace :: rest)
      return (keyword :: head ++ blocks.flatten, rest)
    else .error ⟨.noBlock keyword.text brace.text, brace.start⟩

/-- The run of one step: through its blocks or through its semicolon. -/
def stepRun (stop : Position) : Reader (List Token)
  | [] => .error ⟨.ended (.word ";"), stop⟩
  | t :: ts =>
    if t.is "rec" then blockStep none stop t ts
    else if t.is "choice" then blockStep (some "or") stop t ts
    else if t.is "par" then blockStep (some "and") stop t ts
    else if t.is openBrace || t.is closeBrace then .error (unexpected t)
    else statement stop (t :: ts)

/-- The runs of the steps of a block. -/
def splitSteps (tokens : List Token) : Except ParseError (List (List Token)) :=
  cut (stepRun (endOf tokens)) tokens

/-- What stands inside the next block. -/
def branch (stop : Position) : Reader (List Token)
  | [] => .error ⟨.ended (.word openBrace), stop⟩
  | t :: ts =>
    if t.is openBrace then do
      let (b, rest) ← block t ts
      return (b.inner, rest)
    else .error (unexpected t)

def nextBranch? (separator : String) : List Token → Except ParseError (Option (List Token))
  | [] => .ok none
  | t :: ts => if t.is separator then .ok (some ts) else .error (unexpected t)

/-- What stands inside each of the blocks of a run that holds nothing but blocks and separators. -/
def splitBranches (separator : String) (tokens : List Token) :
    Except ParseError (List (List Token)) :=
  (·.1) <$> chain (branch (endOf tokens)) (nextBranch? separator) tokens

/-- The branches of a choice or a parallel step. One more pair of braces around all of them is
allowed. -/
def branchBlocks (separator : String) (tokens : List Token) :
    Except ParseError (List (List Token)) := do
  let branches ← splitBranches separator tokens
  match branches with
  | [t :: ts] => if t.is openBrace then splitBranches separator (t :: ts) else return branches
  | _ => return branches

/-- One payload type: all tokens up to a comma or parenthesis that stands in no angle brackets. -/
def payload (depth : Nat) : Reader String
  | [] => .ok ("", [])
  | t :: ts =>
    if depth == 0 && (t.is "," || t.is ")") then .ok ("", t :: ts)
    else
      let inner :=
        if t.is "<" then some (depth + 1)
        else if t.is ">" then some (depth - 1)
        else if Token.isPunctuation t.text && !t.is "." && !t.is "," then none
        else some depth
      match inner with
      | none => .error (unexpected t)
      | some depth =>
        match payload depth ts with
        | .error e => .error e
        | .ok (text, rest) => .ok (t.text ++ text, rest)

/-- A payload type of the message `name`, which may not be missing. -/
def messagePayload (name : String) (stop : Position) : Reader String := fun tokens => do
  let (text, rest) ← payload 0 tokens
  if text.isEmpty then .error ⟨.noPayload name, tokens.head?.elim stop (·.start)⟩
  else return (text, rest)

/-- The two ends of a message of which the text names one. -/
def direction (protagonist : String) (stop : Position) : Reader (String × String) := fun tokens =>
  match eat? "from" tokens, eat? "to" tokens, tokens with
  | some rest, _, _ => do
    let (role, rest) ← expectText .identifier stop rest
    return ((role, protagonist), rest)
  | _, some rest, _ => do
    let (role, rest) ← expectText .identifier stop rest
    return ((protagonist, role), rest)
  | _, _, t :: _ => .error ⟨.found .direction t.text, t.start⟩
  | _, _, [] => .error ⟨.ended .direction, stop⟩

def readMessage (protagonist : String) (stop : Position) (tokens : List Token) : Reading Node := do
  let (name, rest) ← expectText .messageName stop tokens
  let rest ← expectWord "(" stop rest
  let (payloads, rest) ← commaItems (messagePayload name stop) .payloadEnd stop rest
  let ((sender, receiver), rest) ← direction protagonist stop rest
  let rest ← expectWord ";" stop rest
  expectEnd rest
  let id ← Reading.issue name
  return .message { id, name, sender, receiver, payloads }

/-- A role in a call, with or without the word `role` before it. -/
def callRole (stop : Position) : Reader String := fun tokens =>
  expectText .identifier stop ((eat? "role" tokens).getD tokens)

def readCall (stop : Position) (tokens : List Token) : Except ParseError Node := do
  let (name, rest) ← expectText .identifier stop tokens
  let rest ← expectWord "(" stop rest
  let (roles, rest) ← commaItems (callRole stop) (.word ",") stop rest
  let rest ← expectWord ";" stop rest
  expectEnd rest
  return .call name roles

def readJump (stop : Position) (tokens : List Token) : Reading Node := do
  let (label, rest) ← expectText .identifier stop tokens
  let rest ← expectWord ";" stop rest
  expectEnd rest
  return .jump (← Reading.issue label) label

def readLoop (inner : List Token → Reading Conversation) (stop : Position) (tokens : List Token) :
    Reading Node := do
  let (label, rest) ← expectText .identifier stop tokens
  let id ← Reading.issue label
  let (brace, rest) ← expect (.word openBrace) stop rest
  let (b, rest) ← block brace rest
  expectEnd rest
  return .loop id label (← inner b.inner)

def readChoice (inner : List Token → Reading Conversation) (stop : Position) (tokens : List Token) :
    Reading Node := do
  let rest ← expectWord "at" stop tokens
  let (chooser, rest) ← expectText .identifier stop rest
  let id ← Reading.issue "choice"
  let blocks ← branchBlocks "or" rest
  return .choice id chooser (← Reading.all (blocks.map inner))

def readPar (inner : List Token → Reading Conversation) (tokens : List Token) : Reading Node := do
  let id ← Reading.issue "par"
  let blocks ← branchBlocks "and" tokens
  return .par id (← Reading.all (blocks.map inner))

/-- Reads the run of one step; `inner` reads what stands inside its blocks. -/
def readStep (protagonist : String) (inner : List Token → Reading Conversation) (run : List Token) :
    Reading Node :=
  let stop := endOf run
  match run with
  | [] => readMessage protagonist stop []
  | t :: ts =>
    if t.is "rec" then readLoop inner stop ts
    else if t.is "choice" then readChoice inner stop ts
    else if t.is "par" then readPar inner ts
    else if t.is "continue" then readJump stop ts
    else if t.is "do" then readCall stop ts
    else readMessage protagonist stop (t :: ts)

/-- Reads what stands inside a block, which is longer than any block in it. -/
def readConversation (protagonist : String) (tokens : List Token) : Reading Conversation := do
  let runs ← splitSteps tokens
  runs.mapM <| readStep protagonist fun inner =>
    if inner.length < tokens.length then readConversation protagonist inner
    else .done (.error ⟨.unclosed, startOf inner⟩)
termination_by tokens.length

end Parley.Grammar
