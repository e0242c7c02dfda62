import ToleranceClustering.Duration

/-!
# Failures

Why a step of the library cannot be carried out, and how a call to a part that the caller supplied may end.
-/

namespace ToleranceClustering

/-- The causes of failure. -/
inductive Failure where
  /-- A setting lies outside its range. -/
  | invalidParameter (name requirement : String)
  /-- No pooled object became free while the caller waited. -/
  | poolExhausted (waited : Duration)
  /-- A document yields no usable terms. -/
  | malformedDocument (id : Nat) (reason : String)
  /-- No analyzer serves the language. -/
  | unsupportedLanguage (code : String)
  /-- A word list cannot be opened or read; `cause` is what the reader said. -/
  | unreadableResource (name cause : String)
  /-- The caller gave the run up. -/
  | cancelled
  /-- Any other cause, in words. -/
  | other (text : String)
deriving DecidableEq, Repr

namespace Failure

/-- The text shown for a failure. -/
def message : Failure → String
  | invalidParameter name requirement => "invalid parameter '" ++ name ++ "': " ++ requirement
  | poolExhausted waited => "resource pool exhausted: no object available after " ++ waited.text
  | malformedDocument id reason => "malformed document " ++ toString id ++ ": " ++ reason
  | unsupportedLanguage code => "unsupported language '" ++ code ++ "'"
  | unreadableResource name _ => "failed to load resource '" ++ name ++ "'"
  | cancelled => "clustering run cancelled"
  | other text => text

/-- The failure beneath, where there is one: what the reader said of an unreadable resource. -/
def cause? : Failure → Option String
  | unreadableResource _ cause => some cause
  | _ => none

/-- Whether the failure concerns single documents, so that a run may go on without them. -/
def isDocumentLocal : Failure → Bool
  | malformedDocument .. => true
  | unsupportedLanguage _ => true
  | _ => false

/-- Whether documents may be served without their language's analyzer after this failure: it concerns single
documents, or a word list is missing. -/
def permitsSubstitute : Failure → Bool
  | unreadableResource .. => true
  | f => f.isDocumentLocal

end Failure

/-- How a call to a supplied part ends: with a value, with a failure, or with a crash that unwinds the caller. -/
inductive Outcome (β : Type) where
  | done (value : β)
  | failed (cause : Failure)
  | crashed

/-- The same ending, with another value. -/
def Outcome.map {β γ : Type} (f : β → γ) : Outcome β → Outcome γ
  | .done b => .done (f b)
  | .failed cause => .failed cause
  | .crashed => .crashed

/-- Fails unless the setting `name` meets its requirement. -/
def Failure.unless (holds : Bool) (name requirement : String) : Except Failure Unit :=
  if holds then .ok () else .error (.invalidParameter name requirement)

end ToleranceClustering
