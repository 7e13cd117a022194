import Mustache.Defect
import Mustache.Text.Quoted

/-!
# Failures

Why reading data, fetching a partial, or rendering can fail, and the words for each cause.

## Shape decisions

* **One type per activity.** A cause carries what is needed to word it and nothing else; the
  wording is one function per type.
* `Error` is what a caller of the renderer sees. The other types are its causes.
-/

namespace Mustache

/-- Why a value has no data form. -/
inductive Unwritable
  /-- A lambda is code, not data. -/
  | lambda
  /-- A sealed object failed to give its text. -/
  | noText
  deriving DecidableEq, Repr

def Unwritable.message : Unwritable → String
  | lambda => "a lambda cannot be serialized"
  | noText => "an error occurred when formatting an argument"

/-- Why host data cannot be captured as a value. -/
inductive CaptureError
  /-- An integer of this type is wider than any value. -/
  | tooWide (type : String)
  /-- A key of a mapping is null. -/
  | nullKey
  /-- A key of a mapping is a sequence, a mapping or a record. -/
  | compoundKey
  /-- A mapping has a value with no key in front of it. -/
  | valueWithoutKey
  /-- A value inside the data has no data form. -/
  | unwritable (cause : Unwritable)
  /-- The data itself reports a failure. -/
  | reported (text : String)
  deriving DecidableEq, Repr

def CaptureError.message : CaptureError → String
  | tooWide type => type ++ " is not supported"
  | nullKey => "map key cannot be null"
  | compoundKey => "map key must be a string or a scalar"
  | valueWithoutKey => "map value without a key"
  | unwritable cause => cause.message
  | reported text => text

/-- Why a file cannot be read or a sink not be written to. -/
inductive IoError
  | notFound
  | notADirectory
  | isADirectory
  | nameTooLong
  /-- A name holds the character that ends names. -/
  | nulInName
  /-- The bytes of a file are no text. -/
  | notUtf8
  /-- A sink takes no more bytes. -/
  | sinkFull
  deriving DecidableEq, Repr

def IoError.message : IoError → String
  | notFound => "No such file or directory (os error 2)"
  | notADirectory => "Not a directory (os error 20)"
  | isADirectory => "Is a directory (os error 21)"
  | nameTooLong => "File name too long (os error 36)"
  | nulInName => "file name contained an unexpected NUL byte"
  | notUtf8 => "stream did not contain valid UTF-8"
  | sinkFull => "sink full"

/-- Why a provider of partials fails. -/
inductive ProviderError
  /-- The name leads out of the search paths. -/
  | unsafeName (name : String)
  | io (cause : IoError)
  /-- The host's own provider reports a failure. -/
  | reported (text : String)
  deriving DecidableEq, Repr

def ProviderError.message : ProviderError → String
  | unsafeName name => "unsafe partial name: " ++ name
  | io cause => cause.message
  | reported text => text

/-- Why compiling or rendering fails. -/
inductive Error
  /-- The text of a template has a defect. -/
  | malformed (m : Malformed)
  | missingVariable (name : String)
  /-- The provider failed to fetch a partial. -/
  | partialFailed (name : String) (cause : ProviderError)
  /-- A partial is asked for and there is no provider. -/
  | noProvider (name : String)
  | lambdaFailed (text : String)
  /-- A value could not be turned into text. -/
  | stringifyFailed (text : String)
  | captureFailed (cause : CaptureError)
  | io (cause : IoError)
  /-- A host object failed to give its text. -/
  | noText
  deriving DecidableEq, Repr

def Error.message : Error → String
  | malformed m => m.message
  | missingVariable name => "missing variable " ++ Text.quoted name
  | partialFailed name cause => "partial " ++ Text.quoted name ++ ": " ++ cause.message
  | noProvider name => "no partial provider for " ++ Text.quoted name
  | lambdaFailed text => "lambda failed: " ++ text
  | stringifyFailed text => "cannot stringify value: " ++ text
  | captureFailed cause => cause.message
  | io cause => cause.message
  | noText => "formatter error"

end Mustache
