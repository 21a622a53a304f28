/-
Module: MarkPress.Document
Purpose: Compiling a document: its header becomes metadata and its body becomes output.
Main exports:
  Document, DocumentError, DocumentError.message, Document.compile
-/
import MarkPress.Header.Metadata
import MarkPress.Scan.Run

namespace MarkPress

/-- A compiled document. -/
structure Document where
  html : Text
  metadata : Metadata
deriving Repr, Inhabited, DecidableEq

/-- Why a document can not be compiled. -/
inductive DocumentError where
  | header (error : HeaderError)
  | region (error : RegionError)
deriving Repr, Inhabited, DecidableEq

/-- The text that reports an error. -/
def DocumentError.message : DocumentError → Text
  | .header error => error.message
  | .region error => error.message

/-- Compile a document. A fault of the header is reported before the body is looked at. -/
def Document.compile (text : Text) : Except DocumentError Document :=
  let parts := Header.split text
  match Metadata.ofLines parts.header with
  | .error error => .error (.header error)
  | .ok metadata =>
      match render parts.body with
      | .error error => .error (.region error)
      | .ok html => .ok ⟨html, metadata⟩

end MarkPress
