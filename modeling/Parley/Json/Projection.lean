import Parley.Json.Protocol
import Parley.Projection

/-! Projections as JSON documents. -/

namespace Parley

def Target.toJson : Target → Json
  | .step id kind state => .obj [("target", .str "step"), ("id", id.toJson),
      ("kind", .str kind.text), ("state", .str state)]
  | .back loop label state => .obj [("target", .str "loop"), ("rec", loop.toJson),
      ("label", .str label), ("state", .str state)]
  | .loopEnd loop label => .obj [("target", .str "rec_end"), ("rec", loop.toJson),
      ("label", .str label)]
  | .join par state => .obj [("target", .str "join"), ("par", par.toJson), ("state", .str state)]
  | .finish => .obj [("target", .str "end")]

def Direction.text : Direction → String
  | .send => "send"
  | .receive => "receive"

def ChoiceRole.text : ChoiceRole → String
  | .chooser => "chooser"
  | .observer => "observer"

def MessageRecord.toJson (r : MessageRecord) : Json :=
  .obj [("id", r.message.id.toJson), ("name", .str r.message.name),
    ("from", .str r.message.sender), ("to", .str r.message.receiver),
    ("payloads", .strs r.message.payloads), ("direction", .str r.direction.text),
    ("position", .nat r.position), ("state", .str r.state), ("next", r.next.toJson),
    ("choice_signal", r.choiceSignal?.elim .null NodeId.toJson)]

def Signal.toJson (s : Signal) : Json :=
  .obj [("id", s.id.toJson), ("label", .str s.label), ("from", .str s.sender),
    ("direction", .str s.direction.text)]

def ChoiceBranch.toJson (b : ChoiceBranch) : Json :=
  .obj [("index", .nat b.index), ("entry", b.entry.toJson),
    ("signal", b.signal?.elim .null Signal.toJson)]

def ChoiceRecord.toJson (r : ChoiceRecord) : Json :=
  .obj [("id", r.id.toJson), ("position", .nat r.position), ("state", .str r.state),
    ("chooser", .str r.chooser), ("role", .str r.role.text),
    ("branches", .arr (r.branches.map ChoiceBranch.toJson)), ("next", r.next.toJson)]

def ParRecord.toJson (r : ParRecord) : Json :=
  .obj [("id", r.id.toJson), ("position", .nat r.position), ("state", .str r.state),
    ("branches", .arr (r.branches.map Target.toJson)), ("join", .str r.join),
    ("next", r.next.toJson)]

def LoopRecord.toJson (r : LoopRecord) : Json :=
  .obj [("id", r.id.toJson), ("label", .str r.label), ("position", .nat r.position),
    ("prefix", .str r.stem), ("state", .str r.state), ("next", r.next.toJson)]

def JumpRecord.toJson (r : JumpRecord) : Json :=
  .obj [("id", r.id.toJson), ("label", .str r.label), ("position", .nat r.position),
    ("state", .str r.state), ("target", r.target.toJson)]

def CallRecord.toJson (r : CallRecord) : Json :=
  .obj [("name", .str r.name), ("roles", .strs r.roles), ("position", .nat r.position),
    ("state", .str r.state), ("next", r.next.toJson)]

def Projection.toJson (p : Projection) : Json :=
  .obj [("module", .optStr p.moduleName?), ("local", .str p.localName),
    ("protagonist", .str p.protagonist), ("roles", .strs p.roles),
    ("types", .arr (p.types.map TypeImport.toJson)), ("start", p.start.toJson),
    ("messages", .arr (p.messages.map MessageRecord.toJson)),
    ("choices", .arr (p.choices.map ChoiceRecord.toJson)),
    ("pars", .arr (p.pars.map ParRecord.toJson)),
    ("recs", .arr (p.loops.map LoopRecord.toJson)),
    ("continues", .arr (p.jumps.map JumpRecord.toJson)),
    ("calls", .arr (p.calls.map CallRecord.toJson))]

end Parley
