import Parley.Text.Quoted

/-! Why no source can be generated. -/

namespace Parley

inductive ApiError where
  | variantClash (first second variant : String)
  | noVariant (message : String)
  | noLoop (label : String)
  | noSignal (branch : Nat) (state chooser : String)
  | signalTwice (state label : String)
  | branchClash (first second state variant : String)
  | notIdentifier (moduleName : String)
  | roleTwice (role : String)
  | noProjection
  | noFile
deriving DecidableEq

open Text in
def ApiError.text : ApiError → String
  | .variantClash first second variant =>
    "The messages " ++ quote first ++ " and " ++ quote second ++ " both map to Msg::" ++ variant
  | .noVariant message => "The message " ++ quote message ++ " has no Msg variant"
  | .noLoop label => "The rec " ++ quote label ++ " has no record"
  | .noSignal branch state chooser =>
    "Branch " ++ toString branch ++ " of the choice at " ++ quote state
      ++ " does not start with a message from " ++ quote chooser
  | .signalTwice state label =>
    "Two branches of the choice at " ++ quote state ++ " start with message " ++ quote label
  | .branchClash first second state variant =>
    "The branches " ++ quote first ++ " and " ++ quote second ++ " of the choice at " ++ quote state
      ++ " both map to variant " ++ variant
  | .notIdentifier moduleName =>
    "The module name " ++ quote moduleName ++ " is not a Rust identifier"
  | .roleTwice role => "The role " ++ quote role ++ " is projected twice"
  | .noProjection => "Nothing to generate"
  | .noFile => "No protocol files given"

end Parley
