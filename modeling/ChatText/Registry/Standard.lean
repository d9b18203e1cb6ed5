import ChatText.Registry.Draft

/-!
# The standard registry

The emoticons every user has. Free categories list their icons one by one, with the glyphs typed
for them; paid categories are runs of consecutive codes that share one size and one price, and
open up to a wallet that holds the price of one of their icons.
-/

namespace ChatText

namespace Registry

/-! ## Category ids -/

/-- The user's own selection; it starts empty. -/
def favoritesCategory : UInt32 := 1
def presentsCategory : UInt32 := 2
def teasingCategory : UInt32 := 3
def talkingCategory : UInt32 := 4
def relaxingCategory : UInt32 := 5
def emotionsCategory : UInt32 := 6
def loveCategory : UInt32 := 7
def miscCategory : UInt32 := 8
def funnyCategory : UInt32 := 9
def adultTier3CCategory : UInt32 := 10
def adultTier2ACategory : UInt32 := 11
def facesCategory : UInt32 := 12
def adultTier3BCategory : UInt32 := 13
def adultTier3ACategory : UInt32 := 14
def adultTier2CCategory : UInt32 := 16
def adultTier2BCategory : UInt32 := 17
def adultTier1Category : UInt32 := 18

/-! ## Free icons -/

/-- An icon of a free category with its glyphs. -/
structure FreeIcon where
  code : UInt32
  width : UInt32
  height : UInt32
  glyphs : List String

/-- Starts a free category and fills it. -/
def freeSteps (id : UInt32) (icons : List FreeIcon) : List Step :=
  .startCategory id 0 :: icons.flatMap fun i =>
    .icon i.code i.width i.height 0 :: i.glyphs.map fun g => .glyph g.toList

def relaxingIcons : List FreeIcon :=
  [⟨5, 117, 38, []⟩, ⟨9, 89, 40, ["^__~"]⟩, ⟨34, 32, 32, ["@_@"]⟩, ⟨43, 109, 38, []⟩,
   ⟨49, 94, 76, ["(ip)"]⟩, ⟨172, 69, 34, []⟩, ⟨190, 76, 44, []⟩, ⟨191, 71, 43, []⟩,
   ⟨532, 103, 38, []⟩, ⟨533, 113, 60, []⟩, ⟨534, 113, 53, []⟩, ⟨535, 97, 32, []⟩,
   ⟨536, 112, 43, []⟩, ⟨537, 106, 46, []⟩, ⟨538, 116, 48, []⟩, ⟨539, 116, 47, []⟩,
   ⟨540, 73, 32, []⟩, ⟨541, 99, 37, []⟩, ⟨1, 58, 32, [":*)"]⟩, ⟨102, 58, 32, ["<:O)"]⟩,
   ⟨168, 41, 39, []⟩, ⟨200, 54, 32, []⟩, ⟨169, 99, 48, []⟩, ⟨81, 72, 32, []⟩, ⟨82, 64, 32, []⟩,
   ⟨4, 101, 32, ["<:o)"]⟩, ⟨63, 94, 52, ["(G)"]⟩, ⟨100, 122, 42, []⟩, ⟨101, 129, 32, []⟩,
   ⟨208, 129, 32, []⟩, ⟨48, 132, 68, ["(^)"]⟩, ⟨244, 103, 42, []⟩, ⟨245, 128, 45, []⟩,
   ⟨524, 107, 76, []⟩, ⟨525, 61, 62, []⟩, ⟨526, 210, 48, []⟩, ⟨527, 105, 63, []⟩,
   ⟨528, 107, 58, []⟩, ⟨529, 86, 45, []⟩, ⟨530, 133, 73, []⟩, ⟨531, 66, 57, []⟩]

def teasingIcons : List FreeIcon :=
  [⟨89, 32, 32, [";-)"]⟩, ⟨10, 32, 32, [";)"]⟩, ⟨20, 32, 32, ["!o)"]⟩, ⟨2, 32, 32, [":p"]⟩,
   ⟨13, 121, 31, [":-p"]⟩, ⟨183, 36, 32, []⟩, ⟨19, 91, 32, [":P"]⟩, ⟨39, 82, 38, []⟩,
   ⟨56, 32, 32, []⟩, ⟨70, 53, 32, []⟩, ⟨92, 78, 32, []⟩, ⟨94, 67, 35, [":-P"]⟩, ⟨152, 32, 32, []⟩,
   ⟨153, 40, 32, []⟩, ⟨207, 44, 32, []⟩, ⟨154, 32, 32, []⟩, ⟨155, 32, 32, []⟩, ⟨156, 32, 32, []⟩,
   ⟨157, 32, 32, []⟩, ⟨158, 32, 32, []⟩, ⟨159, 32, 32, []⟩, ⟨160, 32, 31, []⟩, ⟨162, 41, 32, []⟩,
   ⟨181, 52, 32, []⟩, ⟨163, 32, 32, []⟩, ⟨165, 32, 32, []⟩, ⟨238, 91, 40, []⟩, ⟨239, 93, 69, []⟩,
   ⟨240, 83, 42, []⟩, ⟨241, 66, 40, []⟩, ⟨242, 50, 35, []⟩, ⟨543, 125, 45, []⟩, ⟨544, 46, 30, []⟩,
   ⟨545, 91, 37, []⟩, ⟨546, 114, 34, []⟩, ⟨547, 67, 56, []⟩]

def talkingIcons : List FreeIcon :=
  [⟨7, 81, 32, []⟩, ⟨16, 97, 32, []⟩, ⟨30, 94, 32, []⟩, ⟨62, 97, 32, []⟩, ⟨15, 172, 32, []⟩,
   ⟨31, 174, 32, []⟩, ⟨52, 105, 32, []⟩, ⟨32, 98, 32, []⟩, ⟨38, 112, 32, []⟩, ⟨35, 166, 32, []⟩,
   ⟨53, 91, 32, []⟩, ⟨54, 126, 32, []⟩, ⟨36, 187, 32, []⟩, ⟨87, 114, 32, []⟩, ⟨202, 126, 32, []⟩,
   ⟨209, 143, 32, []⟩, ⟨212, 97, 32, []⟩, ⟨213, 108, 32, []⟩, ⟨243, 177, 32, []⟩,
   ⟨542, 187, 32, []⟩, ⟨554, 176, 45, []⟩]

def emotionsIcons : List FreeIcon :=
  [⟨26, 32, 32, [";-(", "(("]⟩, ⟨46, 32, 32, [":'(", "((("]⟩, ⟨73, 32, 32, [";("]⟩,
   ⟨84, 32, 32, [":(", "u_u"]⟩, ⟨104, 32, 32, [":-("]⟩, ⟨211, 63, 32, []⟩, ⟨11, 48, 32, [":@"]⟩,
   ⟨14, 72, 32, [":-@"]⟩, ⟨41, 71, 32, [">:-("]⟩, ⟨96, 46, 32, []⟩, ⟨78, 84, 32, []⟩,
   ⟨23, 109, 36, [">:-("]⟩, ⟨90, 82, 32, []⟩, ⟨33, 125, 32, []⟩, ⟨199, 122, 32, []⟩,
   ⟨189, 78, 32, []⟩, ⟨97, 31, 36, [">:-]"]⟩, ⟨167, 32, 32, []⟩, ⟨170, 39, 32, []⟩,
   ⟨173, 59, 32, []⟩, ⟨174, 72, 32, []⟩, ⟨193, 42, 32, []⟩, ⟨182, 32, 37, []⟩,
   ⟨111, 32, 32, [":)"]⟩, ⟨177, 49, 32, []⟩, ⟨77, 37, 32, [":-)"]⟩, ⟨22, 73, 32, ["^ ^"]⟩,
   ⟨176, 66, 32, []⟩, ⟨57, 46, 32, [":-D", "))"]⟩, ⟨59, 32, 32, ["^-^"]⟩,
   ⟨61, 32, 32, [":D", "))))"]⟩, ⟨72, 32, 32, ["^^"]⟩, ⟨76, 42, 40, ["^__^"]⟩, ⟨179, 58, 32, []⟩,
   ⟨85, 51, 32, ["LOL", ")))))"]⟩, ⟨166, 32, 32, ["=)", ")))"]⟩, ⟨161, 32, 32, []⟩,
   ⟨175, 37, 32, []⟩, ⟨180, 33, 32, []⟩, ⟨185, 32, 32, []⟩, ⟨201, 90, 32, []⟩, ⟨210, 69, 32, []⟩,
   ⟨24, 32, 32, ["o:-)", "o:)"]⟩, ⟨25, 80, 41, ["O:-)", "O:)"]⟩, ⟨64, 32, 32, [":-["]⟩,
   ⟨65, 54, 32, [":["]⟩, ⟨105, 32, 32, []⟩, ⟨279, 82, 42, []⟩, ⟨280, 71, 32, []⟩,
   ⟨281, 71, 32, []⟩, ⟨282, 97, 86, []⟩, ⟨283, 80, 59, []⟩, ⟨485, 100, 37, []⟩, ⟨486, 39, 32, []⟩,
   ⟨487, 107, 42, []⟩, ⟨488, 80, 42, []⟩, ⟨489, 36, 37, []⟩, ⟨490, 64, 41, []⟩, ⟨491, 38, 39, []⟩,
   ⟨492, 32, 32, []⟩, ⟨493, 102, 32, []⟩, ⟨494, 33, 36, []⟩, ⟨495, 57, 32, []⟩, ⟨496, 64, 40, []⟩,
   ⟨497, 48, 32, []⟩, ⟨498, 103, 38, []⟩, ⟨499, 79, 32, []⟩]

def loveIcons : List FreeIcon :=
  [⟨27, 76, 32, [":-*", ":-)*(-:"]⟩, ⟨40, 92, 32, ["(H)", "(( )):**"]⟩, ⟨47, 37, 31, ["(h)"]⟩,
   ⟨58, 87, 41, ["(l)", "<3"]⟩, ⟨79, 85, 32, []⟩, ⟨74, 59, 32, ["(L)"]⟩,
   ⟨88, 69, 32, [":*", ":-\x7b\x7d", ":\x7b\x7d", ":-#"]⟩, ⟨186, 69, 32, []⟩,
   ⟨99, 98, 32, ["@-\x7d--", "@->--", "@>--"]⟩, ⟨178, 66, 32, []⟩, ⟨187, 72, 32, []⟩,
   ⟨171, 73, 32, []⟩, ⟨118, 45, 35, []⟩, ⟨120, 46, 41, []⟩, ⟨121, 50, 35, []⟩, ⟨21, 200, 42, []⟩,
   ⟨98, 189, 48, []⟩, ⟨112, 50, 50, []⟩, ⟨113, 46, 51, []⟩, ⟨122, 50, 50, []⟩, ⟨123, 46, 41, []⟩,
   ⟨124, 46, 46, []⟩, ⟨115, 50, 50, []⟩, ⟨126, 65, 57, []⟩, ⟨127, 46, 39, []⟩, ⟨125, 50, 50, []⟩,
   ⟨114, 47, 40, []⟩, ⟨117, 26, 35, []⟩, ⟨271, 68, 35, []⟩, ⟨272, 109, 49, []⟩,
   ⟨273, 225, 32, []⟩, ⟨274, 96, 32, []⟩, ⟨275, 86, 58, []⟩, ⟨276, 105, 34, []⟩,
   ⟨277, 115, 32, []⟩, ⟨278, 86, 45, []⟩, ⟨500, 102, 32, []⟩, ⟨501, 115, 32, []⟩,
   ⟨502, 130, 38, []⟩, ⟨503, 78, 32, []⟩, ⟨504, 83, 38, []⟩, ⟨505, 106, 67, []⟩,
   ⟨506, 77, 43, []⟩, ⟨507, 83, 32, []⟩, ⟨508, 38, 36, []⟩, ⟨509, 142, 42, []⟩,
   ⟨510, 122, 38, []⟩, ⟨548, 95, 32, []⟩, ⟨549, 73, 51, []⟩, ⟨550, 132, 32, []⟩,
   ⟨551, 53, 33, []⟩, ⟨552, 53, 33, []⟩, ⟨553, 127, 32, []⟩]

def miscIcons : List FreeIcon :=
  [⟨18, 45, 37, []⟩, ⟨42, 69, 32, []⟩, ⟨51, 58, 32, ["\x7d:>", "\x7d:->"]⟩, ⟨68, 80, 32, ["|:o"]⟩,
   ⟨75, 49, 32, [":-\\"]⟩, ⟨188, 49, 32, [":~/"]⟩, ⟨95, 42, 32, ["\\-o"]⟩, ⟨28, 42, 35, []⟩,
   ⟨44, 50, 43, []⟩, ⟨110, 32, 32, []⟩, ⟨83, 41, 32, []⟩, ⟨107, 32, 32, []⟩, ⟨108, 37, 32, []⟩,
   ⟨184, 58, 32, []⟩, ⟨60, 209, 32, []⟩, ⟨8, 113, 49, ["(h5)", "^5"]⟩, ⟨69, 61, 48, []⟩,
   ⟨37, 57, 51, []⟩, ⟨196, 36, 50, []⟩, ⟨194, 67, 38, []⟩, ⟨128, 50, 50, []⟩, ⟨129, 50, 50, []⟩,
   ⟨130, 50, 50, []⟩, ⟨246, 78, 61, []⟩, ⟨247, 138, 50, []⟩, ⟨248, 89, 41, []⟩,
   ⟨249, 134, 62, []⟩, ⟨250, 64, 81, []⟩, ⟨251, 32, 32, []⟩, ⟨252, 92, 46, []⟩, ⟨253, 60, 61, []⟩,
   ⟨254, 53, 85, []⟩, ⟨255, 107, 84, []⟩, ⟨256, 70, 56, []⟩, ⟨258, 74, 32, []⟩,
   ⟨260, 108, 63, []⟩, ⟨261, 118, 50, []⟩, ⟨262, 43, 43, []⟩, ⟨263, 72, 55, []⟩,
   ⟨264, 49, 32, []⟩, ⟨265, 43, 69, []⟩, ⟨267, 104, 58, []⟩, ⟨268, 90, 64, []⟩, ⟨269, 94, 53, []⟩,
   ⟨270, 66, 63, []⟩, ⟨511, 76, 56, []⟩, ⟨512, 100, 56, []⟩, ⟨513, 86, 50, []⟩, ⟨514, 65, 40, []⟩,
   ⟨515, 99, 55, []⟩, ⟨516, 83, 35, []⟩, ⟨517, 49, 49, []⟩, ⟨518, 78, 41, []⟩, ⟨519, 82, 32, []⟩,
   ⟨520, 75, 70, []⟩, ⟨521, 33, 39, []⟩, ⟨522, 120, 45, []⟩, ⟨523, 74, 55, []⟩,
   ⟨12, 45, 32, [":-X", ":X"]⟩, ⟨109, 32, 38, [":-x", ":x"]⟩, ⟨66, 32, 32, [":-|", ":-/"]⟩,
   ⟨192, 75, 32, [":|"]⟩, ⟨198, 45, 37, []⟩, ⟨71, 32, 32, [":o", ":-o"]⟩,
   ⟨91, 49, 32, [":O", ":-O"]⟩, ⟨103, 60, 42, []⟩, ⟨106, 32, 32, []⟩]

/-! ## Paid icons -/

/-- Starts a paid category whose icons have the codes of the given runs, ends included. -/
def paidSteps (id price width height : UInt32) (runs : List (Nat × Nat)) : List Step :=
  .startCategory id price :: runs.flatMap fun (first, last) =>
    (List.range' first (last + 1 - first)).map fun code =>
      .icon (UInt32.ofNat code) width height price

/-! ## The registry -/

/-- The steps that put the standard registry together. The last ones give the images whose real
size differs from that of their run. -/
def standardSteps : List Step :=
  [.startCategory favoritesCategory 0]
    ++ freeSteps relaxingCategory relaxingIcons
    ++ freeSteps teasingCategory teasingIcons
    ++ freeSteps talkingCategory talkingIcons
    ++ freeSteps emotionsCategory emotionsIcons
    ++ freeSteps loveCategory loveIcons
    ++ freeSteps miscCategory miscIcons
    ++ paidSteps presentsCategory 1 70 70 [(555, 639)]
    ++ paidSteps funnyCategory 1 50 50 [(133, 150), (214, 237)]
    ++ paidSteps facesCategory 1 50 50 [(311, 331)]
    ++ paidSteps adultTier1Category 1 50 50 [(332, 353)]
    ++ paidSteps adultTier2ACategory 2 50 50 [(354, 385)]
    ++ paidSteps adultTier2BCategory 2 50 50 [(386, 418)]
    ++ paidSteps adultTier2CCategory 2 50 50 [(419, 444)]
    ++ paidSteps adultTier3ACategory 3 50 50 [(445, 463)]
    ++ paidSteps adultTier3BCategory 3 50 50 [(464, 484)]
    ++ paidSteps adultTier3CCategory 3 50 50 [(284, 310)]
    ++ [.resize 136 48 48, .resize 142 50 38, .resize 233 60 47, .resize 341 50 47,
        .resize 287 50 51, .resize 293 50 46]

/-- The emoticons every user has. -/
def standard : Registry := ofSteps standardSteps

end Registry

end ChatText
