import Parley.Api.Error
import Parley.Declaration
import Parley.Grammar.Error
import Parley.Layout

/-! Everything that can keep a protocol from being compiled, and how it is reported. -/

namespace Parley

/-- Why a file cannot be used. -/
inductive FileError where
  | missing
  | notText
  | isDirectory
  | notDirectory
  | alreadyExists
  | nameTooLong
deriving DecidableEq

def FileError.text : FileError → String
  | .missing => "No such file or directory (os error 2)"
  | .notText => "stream did not contain valid UTF-8"
  | .isDirectory => "Is a directory (os error 21)"
  | .notDirectory => "Not a directory (os error 20)"
  | .alreadyExists => "File exists (os error 17)"
  | .nameTooLong => "File name too long (os error 36)"

/-- What a report is about. -/
inductive ReportKind where
  | file
  | parse (place : Position)
  | shape
  | linkage
  | declaration
  | source
deriving DecidableEq

/-- The report with the given details. -/
def ReportKind.report : ReportKind → String → String
  | .file, detail => "I/O error: " ++ detail
  | .parse place, detail =>
    "Parse error at line " ++ toString place.line ++ ", column " ++ toString place.column ++ ": "
      ++ detail
  | .shape, detail => "Structural error: " ++ detail
  | .linkage, detail => "Linkage error: " ++ detail
  | .declaration, detail => "Verifier error: " ++ detail
  | .source, detail => "Code generation error: " ++ detail

inductive CompileError where
  | file (error : FileError)
  | parse (error : Grammar.ParseError)
  | layout (error : LayoutError)
  | declaration (error : DeclarationError)
  | source (error : ApiError)
deriving DecidableEq

namespace CompileError

def kind : CompileError → ReportKind
  | .file _ => .file
  | .parse e => .parse e.place
  | .layout e => if e.isLinkage then .linkage else .shape
  | .declaration _ => .declaration
  | .source _ => .source

def detail : CompileError → String
  | .file e => e.text
  | .parse e => e.cause.text
  | .layout e => e.text
  | .declaration e => e.text
  | .source e => e.text

def text (e : CompileError) : String := e.kind.report e.detail

end CompileError

end Parley
