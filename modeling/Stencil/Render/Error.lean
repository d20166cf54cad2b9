import Stencil.Files.FileTree

/-!
What can go wrong in rendering.

Only an included file, or the top file, can make a rendering fail: it cannot be read, or includes
are nested deeper than allowed. Faults inside a template never do.

Without a limit includes may nest for ever. They are then followed as deep as there is fuel for, and
to run out of it is no error: it says that the rendering was not followed to its end.
-/

namespace Stencil

inductive RenderError where
  | unreadable (path : Path) (fault : ReadFault)
  | includeDepthExceeded (limit : Nat)
  deriving DecidableEq

def RenderError.message : RenderError → String
  | unreadable path fault => "Template Read Error: " ++ path.text ++ ": " ++ fault.message
  | includeDepthExceeded limit =>
    "Include Depth Exceeded: more than " ++ toString limit ++ " nested includes"

/-- Why a rendering gives no text. -/
inductive Stop where
  | failed (e : RenderError)
  /-- Includes nest deeper than they are followed. -/
  | outOfFuel
  deriving DecidableEq

end Stencil
