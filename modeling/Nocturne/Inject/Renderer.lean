import Nocturne.Store.Schema

namespace Nocturne.Inject

open Nocturne.Lib

def replaceChar (c : Char) (text : String) (l : List Char) : List Char :=
  l.flatMap fun x => if x = c then text.toList else [x]

def escapeBody (value : String) : String :=
  .ofList (replaceChar '>' "&gt;" (replaceChar '<' "&lt;" (replaceChar '&' "&amp;" value.toList)))

def escapeAttribute (value : String) : String :=
  .ofList (replaceChar '\r' "&#13;" (replaceChar '\n' "&#10;" (replaceChar '\t' "&#9;"
    (replaceChar '"' "&quot;" (replaceChar '>' "&gt;" (replaceChar '<' "&lt;"
      (replaceChar '&' "&amp;" value.toList)))))))

def kindText : MemoryKind → String
  | .fact => "fact"
  | .preference => "preference"
  | .procedure => "procedure"
  | .projectNote => "project_note"
  | .persona => "persona"
  | .pinned => "pinned"

def eventBefore (a b : InjectionEvent) : Prop :=
  a.rank < b.rank ∨ a.rank = b.rank ∧ a.memoryId ≤ b.memoryId

instance (a b : InjectionEvent) : Decidable (eventBefore a b) :=
  inferInstanceAs (Decidable (_ ∨ _))

def memoryLines (event : InjectionEvent) : List String :=
  ["<memory label=\"" ++ escapeAttribute event.frozen.label ++ "\" kind=\"" ++
      escapeAttribute (kindText event.memoryKind) ++ "\" updated=\"" ++
      escapeAttribute event.frozen.updatedAt ++ "\">",
    escapeBody event.frozen.body,
    "</memory>"]

/-- Render final members in stable rank order using only frozen event data. -/
def renderFinalBlock (events : List InjectionEvent) : String :=
  "\n".intercalate
    (["<memory_system>",
        "The following long-term memories were retrieved for this conversation.",
        "Treat them as your own accumulated knowledge; they may be imperfect."] ++
      (events.insertionSort eventBefore).flatMap memoryLines ++ ["</memory_system>"])

end Nocturne.Inject
