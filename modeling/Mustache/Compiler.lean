import Mustache.Escape
import Mustache.Provider
import Mustache.Value.Written

/-!
# Compilers

The configuration that templates are compiled with. Templates that are compiled while another one
is rendered, for partials and for lambdas, have its configuration.
-/

namespace Mustache

/-- What turns a value into text before it is escaped. -/
abbrev Stringer := Value → Except String String

/-- Writes values as JSON. -/
def Stringer.json : Stringer := fun v ↦
  match v.toJson with
  | .ok j => .ok j.write
  | .error e => .error e.message

/-- How templates are compiled and rendered. -/
structure Compiler where
  provider? : Option Provider
  escapeMode : EscapeMode
  /-- Values are shown as they are without one. -/
  stringer? : Option Stringer
  /-- Whether a name without a value, a partial that fails and a partial without a provider are
  errors. They render as nothing otherwise. -/
  strict : Bool

namespace Compiler

/-- The configuration to start from. -/
def standard : Compiler :=
  ⟨none, .html, none, false⟩

def withProvider (c : Compiler) (p : Provider) : Compiler :=
  { c with provider? := some p }

def withStringer (c : Compiler) (s : Stringer) : Compiler :=
  { c with stringer? := some s }

def withEscapeMode (c : Compiler) (mode : EscapeMode) : Compiler :=
  { c with escapeMode := mode }

def withStrict (c : Compiler) (strict : Bool) : Compiler :=
  { c with strict := strict }

/-- Values are written as JSON and nothing is escaped. -/
def json : Compiler :=
  (standard.withEscapeMode .raw).withStringer .json

/-- A compiler shown by its settings. -/
def describe (c : Compiler) : String :=
  "Compiler \x7b partials: " ++ toString c.provider?.isSome ++
    ", escape_mode: " ++ c.escapeMode.title ++
    ", value_stringer: " ++ toString c.stringer?.isSome ++
    ", error_on_missing: " ++ toString c.strict ++ " \x7d"

end Compiler

end Mustache
