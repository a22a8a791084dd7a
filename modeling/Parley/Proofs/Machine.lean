import Parley.Api.Landing
import Parley.Proofs.Meaning

/-! The machine of a projection. It stands in a state named by a record, goes on through the targets of
that record, and knows nothing of the conversation. -/

namespace Parley

/-- Where the machine stands: at a landing, or in the state of a join with the branches that it waits
for. -/
inductive Control where
  | at (landing : Landing)
  | fork (join : String) (branches : List Control)

namespace Projection

/-- The moves of the machine. A branch has ended once it has landed in the join of its own parallel
step. -/
inductive Step (p : Projection) : Control → Option Action → Control → Prop where
  | message {r : MessageRecord} {x : Landing} : r ∈ p.messages → p.landing r.next = .ok x →
      Step p (.at (.state r.state)) (some (.exchange r.message)) (.at x)
  | choice {r : ChoiceRecord} {b : ChoiceBranch} {k : Nat} {x : Landing} : r ∈ p.choices →
      r.branches[k]? = some b → p.landing b.entry = .ok x →
      Step p (.at (.state r.state)) (some (.branch r.id r.chooser k)) (.at x)
  | fork {r : ParRecord} {xs : List Landing} : r ∈ p.pars → r.branches.mapM p.landing = .ok xs →
      Step p (.at (.state r.state)) (some (.fork r.id)) (.fork r.join (xs.map .at))
  | within {join : String} {cs : List Control} {c c' : Control} {x : Option Action} {k : Nat} :
      cs[k]? = some c → Step p c x c' → Step p (.fork join cs) x (.fork join (cs.set k c'))
  | join {r : ParRecord} {cs : List Control} {x : Landing} : r ∈ p.pars →
      (∀ c ∈ cs, c = .at (.join r.id)) → p.landing r.next = .ok x →
      Step p (.fork r.join cs) (some (.join r.id)) (.at x)

/-- The machine as a system; it has ended when the session is finished. -/
def system (p : Projection) : System Control Action := ⟨p.Step, fun c => c = .at .finish⟩

theorem not_step_none {p : Projection} {c c' : Control} : ¬ p.Step c none c' := by
  intro h
  generalize hx : (none : Option Action) = x at h
  induction h with
  | message | choice | fork | join => cases hx
  | within _ _ ih => exact ih hx

end Projection

end Parley
