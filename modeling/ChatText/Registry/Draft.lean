import ChatText.Registry.Basic

/-!
# Registering emoticons step by step

A registry is put together by a list of steps. On the way the draft remembers the category that
icons are placed under and the icon that glyphs are attached to.
-/

namespace ChatText

namespace Registry

/-! ## Changes of a registry -/

/-- Starts a category. If its id was started before, it keeps its position, takes the new
balance and loses the codes placed under it. -/
def startCategory (r : Registry) (c : Category) : Registry :=
  { r with
    categories :=
      if r.categories.any (·.id == c.id) then
        r.categories.map fun old => if old.id = c.id then c else old
      else r.categories ++ [c]
    placements := r.placements.filter (·.category != c.id) }

/-- Records an emoticon in place of any other with its code and places it under its category. -/
def addEmoticon (r : Registry) (e : Emoticon) : Registry :=
  { r with
    emoticons := r.emoticons.filter (·.code != e.code) ++ [e]
    placements := r.placements ++ [⟨e.category.id, e.code⟩] }

/-- Lets a glyph stand for a code. A glyph that stands for another code moves, one that stands
for this code already stays where it is, and the empty glyph is ignored. -/
def registerGlyph (r : Registry) (glyph : Text) (code : UInt32) : Registry :=
  if glyph = [] then r
  else
    match r.codeFor? glyph with
    | none => { r with glyphs := r.glyphs ++ [glyph], owners := r.owners ++ [(glyph, code)] }
    | some owner =>
      if owner = code then r
      else { r with owners := r.owners.filter (·.1 != glyph) ++ [(glyph, code)] }

/-- Corrects the image size of a code, if it is known. -/
def resize (r : Registry) (code width height : UInt32) : Registry :=
  { r with
    emoticons := r.emoticons.map fun e =>
      if e.code = code then { e with width := width, height := height } else e }

/-! ## Steps -/

/-- One step of putting a registry together. -/
inductive Step where
  /-- Later icons go under this category. -/
  | startCategory (id minBalance : UInt32)
  /-- An icon of the current category; later glyphs are attached to it. -/
  | icon (code width height price : UInt32)
  /-- A glyph for the last icon; ignored before the first one. -/
  | glyph (glyph : Text)
  /-- A glyph for a code of any kind, known or not. -/
  | register (glyph : Text) (code : UInt32)
  /-- The real size of an image. -/
  | resize (code width height : UInt32)
  deriving DecidableEq, Repr

/-- The id of the category that icons belong to before the first category is started. -/
def unknownCategory : UInt32 := 0

/-- A registry in the making. -/
structure Draft where
  registry : Registry := .empty
  /-- The category that icons are placed under. -/
  category : Category := ⟨unknownCategory, 0⟩
  /-- The icon that glyphs are attached to. -/
  icon? : Option UInt32 := none
  deriving DecidableEq, Repr

/-- The draft after one more step. -/
def Draft.step (d : Draft) : Step → Draft
  | .startCategory id minBalance =>
    { d with registry := d.registry.startCategory ⟨id, minBalance⟩, category := ⟨id, minBalance⟩ }
  | .icon code width height price =>
    { d with
      registry := d.registry.addEmoticon ⟨code, width, height, price, d.category⟩
      icon? := some code }
  | .glyph glyph =>
    match d.icon? with
    | none => d
    | some code => { d with registry := d.registry.registerGlyph glyph code }
  | .register glyph code => { d with registry := d.registry.registerGlyph glyph code }
  | .resize code width height => { d with registry := d.registry.resize code width height }

/-- The draft after a list of steps. -/
def Draft.ofSteps (steps : List Step) : Draft := steps.foldl Draft.step {}

/-- The registry that a list of steps puts together. -/
def ofSteps (steps : List Step) : Registry := (Draft.ofSteps steps).registry

end Registry

end ChatText
