import Stencil.Render.Forest

/-!
Includes, and templates from their source or file.

An include names a file and may give values for names: it renders the file in a copy of the context
with these values laid over it, and none of the values sees another. Targets are resolved against
the directory of the file that holds the include. `Loader` renders a file; `loader` builds one that
allows so many nested includes. Where no limit is set, fuel says how many of them are followed; a
rendering that ends within its fuel ends so with any more of it.
-/

namespace Stencil

/-- Renders the file at a path in a context. -/
abbrev Loader := Path → Context → Except Stop String

/-- Lays `name=value` over the context `laid`, where the value is that of the raw text in `c`. A
word that does not assign to a name changes nothing. -/
def overlayParam (c laid : Context) (word : List Char) : Context :=
  match splitOnce '=' word with
  | some (name, raw) =>
    if isName name && !raw.isEmpty then laid.set (String.ofList name) (attributeValue raw c)
    else laid
  | none => laid

def overlay (c : Context) (params : List (List Char)) : Context := params.foldl (overlayParam c) c

/-- The path of an include target, for includes that are resolved against `base`. -/
def targetPath (base : Path) (target : List Char) : Path :=
  base.join ⟨String.ofList (unquote (trim target))⟩

/-- An include without a target renders nothing. -/
def includeWith (load : Loader) (base : Path) : Includer := fun args c =>
  match words args.toList with
  | [] => .ok ""
  | target :: params => load (targetPath base target) (overlay c params)

/-- Renders a source whose includes are resolved against `base`. -/
def renderSource (load : Loader) (base : Path) (source : List Char) (c : Context) :
    Except Stop String :=
  (renderForest (includeWith load base) (Forest.parse source) c).1

/-- Reads and renders a file whose own includes are rendered by `load`. -/
def renderFileWith (files : FileSource) (load : Loader) : Loader := fun path c =>
  match files path with
  | .error fault => .error (.failed (.unreadable path fault))
  | .ok source => renderSource load path.directory source.toList c

/-- The loader for includes that may nest `depth` deep; beyond that `overrun` is the answer. -/
def loader (files : FileSource) (overrun : Stop) : Nat → Loader
  | 0 => fun _ _ => .error overrun
  | depth + 1 => renderFileWith files (loader files overrun depth)

structure RenderOptions where
  /-- How deep includes may nest; without a limit, as deep as they do. -/
  maxIncludeDepth : Option Nat

/-- With a limit, includes are followed as deep as it allows. Without one they are followed as deep
as the fuel lasts. -/
def RenderOptions.loader (o : RenderOptions) (files : FileSource) (fuel : Nat) : Loader :=
  match o.maxIncludeDepth with
  | some n => Stencil.loader files (.failed (.includeDepthExceeded n)) n
  | none => Stencil.loader files .outOfFuel fuel

theorem RenderOptions.exists_loader_eq (o : RenderOptions) (files : FileSource) (fuel : Nat) :
    ∃ overrun depth, o.loader files fuel = Stencil.loader files overrun depth := by
  unfold RenderOptions.loader
  split
  · exact ⟨_, _, rfl⟩
  · exact ⟨_, _, rfl⟩

/-- Renders a template source. -/
def render (o : RenderOptions) (files : FileSource) (fuel : Nat) (base : Path) (source : String)
    (c : Context) : Except Stop String :=
  renderSource (o.loader files fuel) base source.toList c

/-- Renders a template file. -/
def renderFile (o : RenderOptions) (files : FileSource) (fuel : Nat) (path : Path) (c : Context) :
    Except Stop String :=
  renderFileWith files (o.loader files fuel) path c

end Stencil
