import Mustache.Error
import Mustache.Tree

/-!
# Notices

What compiling and rendering report about their progress, beside their result.

## Shape decisions

* **A notice holds what it is about,** more than its line in a log shows: the whole tree that was
  compiled, and the source that a lambda is called with. What a rendering went through can be read
  off its notices.
-/

namespace Mustache

/-- A report about progress. -/
inductive Notice
  /-- A template was compiled. -/
  | compiled (tree : Tree)
  /-- A method of a host object failed, which counts as its absence. -/
  | methodFailed (name object cause : String)
  /-- A lambda is about to be called with the source of its section. -/
  | calling (name source : String)
  /-- A partial is about to be fetched. -/
  | fetching (name : String)
  /-- A partial was found in a file. -/
  | found (name file : String)
  /-- A partial is left out because there is no provider. -/
  | unprovided (name : String)
  /-- A partial is left out because it failed. -/
  | skipped (name : String) (cause : Error)

/-- The line of a notice in a log, its level in front. -/
def Notice.line : Notice → String
  | compiled tree =>
    "DEBUG compiled template: " ++ toString tree.elements.length ++ " elements, delimiters " ++
      String.ofList tree.delimiters.opening ++ " " ++ String.ofList tree.delimiters.closing
  | methodFailed name object cause =>
    "WARN calling " ++ Text.quoted name ++ " on " ++ object ++ " failed: " ++ cause
  | calling name _ => "TRACE calling lambda " ++ Text.quoted name
  | fetching name => "TRACE fetching partial " ++ Text.quoted name
  | found name file => "TRACE partial " ++ name ++ " read from " ++ file
  | unprovided name => "WARN no partial provider, skipping partial " ++ Text.quoted name
  | skipped name cause => "WARN skipping partial " ++ Text.quoted name ++ ": " ++ cause.message

end Mustache
