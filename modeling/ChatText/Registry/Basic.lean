import ChatText.Text.Decimal

/-!
# The registry of emoticons

A registry knows emoticons by their code, the categories they are offered under, and the glyphs
that are typed for them. It is plain data, held in the order in which it was registered:

* `emoticons`, at most one per code;
* `categories`, at most one per id, in the order of their first start;
* `placements`, the codes that were put under each category since its last start;
* `glyphs`, in the order of their first registration;
* `owners`, each glyph with its code, in the order in which glyphs came to their codes.

Everything a reader asks for is a view of these lists.
-/

namespace ChatText

/-- A group of emoticons that opens up to wallets with a minimum balance. -/
structure Category where
  id : UInt32
  minBalance : UInt32
  deriving DecidableEq, Repr

/-- May a wallet that holds `balance` use the category? -/
def Category.isUnlocked (c : Category) (balance : UInt32) : Bool := c.minBalance ≤ balance

/-- The image, the price and the category of an emoticon code. -/
structure Emoticon where
  code : UInt32
  width : UInt32
  height : UInt32
  price : UInt32
  category : Category
  deriving DecidableEq, Repr

/-- Where the image of an emoticon is found. -/
def Emoticon.imageRef (e : Emoticon) : Text :=
  "images/smileys/".toList ++ decimal e.code.toNat ++ ".gif".toList

/-- An emoticon code under the category it is offered in. -/
structure Placement where
  category : UInt32
  code : UInt32
  deriving DecidableEq, Repr

/-- Emoticons, categories and glyphs, as they were registered. -/
structure Registry where
  emoticons : List Emoticon := []
  categories : List Category := []
  placements : List Placement := []
  glyphs : List Text := []
  owners : List (Text × UInt32) := []
  deriving DecidableEq, Repr

namespace Registry

/-- The registry that knows nothing. -/
def empty : Registry := {}

/-! ## Emoticons -/

/-- The emoticon with the given code. -/
def emoticon? (r : Registry) (code : UInt32) : Option Emoticon :=
  r.emoticons.find? (·.code == code)

/-- Is there an emoticon with the given code? -/
def isKnown (r : Registry) (code : UInt32) : Bool := (r.emoticon? code).isSome

/-- The number of emoticons. -/
def size (r : Registry) : Nat := r.emoticons.length

/-- The height of the image of a code; unknown codes have height zero. -/
def heightOf (r : Registry) (code : UInt32) : UInt32 := ((r.emoticon? code).map (·.height)).getD 0

/-- The price of a code; unknown codes are free. -/
def priceOf (r : Registry) (code : UInt32) : UInt32 := ((r.emoticon? code).map (·.price)).getD 0

/-! ## Categories -/

/-- The category with the given id. -/
def category? (r : Registry) (id : UInt32) : Option Category := r.categories.find? (·.id == id)

/-- The categories that a wallet with the given balance may use, in their order. -/
def categoriesFor (r : Registry) (balance : UInt32) : List Category :=
  r.categories.filter (·.isUnlocked balance)

/-- The codes placed under a category, lower images first; images of one height keep the order
in which they were placed. -/
def codesIn (r : Registry) (id : UInt32) : List UInt32 :=
  ((r.placements.filter (·.category == id)).map (·.code)).mergeSort
    fun a b => r.heightOf a ≤ r.heightOf b

/-! ## Glyphs -/

/-- The code that a glyph stands for. -/
def codeFor? (r : Registry) (glyph : Text) : Option UInt32 := r.owners.lookup glyph

/-- The glyphs that stand for a code, in the order in which they came to it. -/
def glyphsFor (r : Registry) (code : UInt32) : List Text :=
  (r.owners.filter (·.2 == code)).map (·.1)

/-- All glyphs, longer ones first; glyphs of one length keep the order of their registration. -/
def glyphsLongestFirst (r : Registry) : List Text :=
  r.glyphs.mergeSort fun a b => b.length ≤ a.length

end Registry

end ChatText
