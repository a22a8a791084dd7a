import Parley.Protocol
import Parley.Text.Quoted

/-! Declarations: every role and payload type that a protocol uses is declared once, and every message
of a local protocol passes between its protagonist and somebody else. -/

namespace Parley

inductive DeclarationError where
  | noLocal
  | typeTwice (type : String)
  | localTwice (name protagonist : String)
  | roleTwice (role localName : String)
  | noProtagonist (role localName : String)
  | unknownRole (role localName : String)
  | toItself (message role : String)
  | bystander (message protagonist : String)
  | unknownType (type message : String)
deriving DecidableEq

open Text in
def DeclarationError.text : DeclarationError → String
  | .noLocal => "A protocol needs at least one local declaration"
  | .typeTwice type => "The type " ++ quote type ++ " is defined twice"
  | .localTwice name protagonist =>
    "The local protocol " ++ quote name ++ " at " ++ quote protagonist ++ " is declared twice"
  | .roleTwice role localName =>
    "The role " ++ quote role ++ " is declared twice in " ++ quote localName
  | .noProtagonist role localName =>
    "The protagonist " ++ quote role ++ " is not among the roles of " ++ quote localName
  | .unknownRole role localName =>
    "The role " ++ quote role ++ " is not declared in " ++ quote localName
  | .toItself message role =>
    "The message " ++ quote message ++ " is sent from " ++ quote role ++ " to itself"
  | .bystander message protagonist =>
    "The message " ++ quote message ++ " does not involve the protagonist " ++ quote protagonist
  | .unknownType type message =>
    "The type " ++ quote type ++ " is not defined for message " ++ quote message

/-- The first element that has occurred before. -/
def firstRepeat? [BEq α] (seen : List α) : List α → Option α
  | [] => none
  | a :: as => if seen.contains a then some a else firstRepeat? (a :: seen) as

namespace LocalProtocol

def checkRole (l : LocalProtocol) (role : String) : Except DeclarationError Unit :=
  if l.roles.contains role then .ok () else .error (.unknownRole role l.name)

def checkMessage (types : List String) (l : LocalProtocol) (m : Message) :
    Except DeclarationError Unit := do
  l.checkRole m.sender
  l.checkRole m.receiver
  if m.sender == m.receiver then throw (.toItself m.name m.sender)
  if m.sender != l.protagonist && m.receiver != l.protagonist then
    throw (.bystander m.name l.protagonist)
  match m.payloads.find? (!types.contains ·) with
  | some type => throw (.unknownType type m.name)
  | none => return ()

/-- Checks a step by itself; the steps inside it are checked on their own. -/
def checkNode (types : List String) (l : LocalProtocol) : Node → Except DeclarationError Unit
  | .message m => l.checkMessage types m
  | .choice _ chooser _ => l.checkRole chooser
  | .call _ roles => roles.forM l.checkRole
  | _ => .ok ()

def check (types : List String) (l : LocalProtocol) : Except DeclarationError Unit := do
  if let some role := firstRepeat? [] l.roles then throw (.roleTwice role l.name)
  if !l.roles.contains l.protagonist then throw (.noProtagonist l.protagonist l.name)
  (Conversation.preorder l.conversation).forM (l.checkNode types)

end LocalProtocol

namespace Protocol

/-- Checks the local protocols in order; `seen` holds the name and protagonist of those before. -/
def checkLocals (types : List String) (seen : List (String × String)) :
    List LocalProtocol → Except DeclarationError Unit
  | [] => .ok ()
  | l :: ls => do
    if seen.contains (l.name, l.protagonist) then throw (.localTwice l.name l.protagonist)
    l.check types
    checkLocals types ((l.name, l.protagonist) :: seen) ls

/-- Checks all declarations and reports the first that is amiss. -/
def check (p : Protocol) : Except DeclarationError Unit := do
  if p.locals.isEmpty then throw .noLocal
  if let some type := firstRepeat? nativeTypes p.aliases then throw (.typeTwice type)
  checkLocals (nativeTypes ++ p.aliases) [] p.locals

end Protocol

end Parley
