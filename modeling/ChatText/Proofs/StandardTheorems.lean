import ChatText.Marker.Encode
import ChatText.Proofs.RegistryTheorems
import ChatText.Registry.Standard

/-!
# The glyphs of the standard registry
-/

namespace ChatText
namespace Registry

/-- The standard glyphs in the order in which they are looked for, with their codes. -/
def standardGlyphs : List (String × UInt32) :=
  [("(( )):**", 40), (":-)*(-:", 27), (")))))", 85), ("@-\x7d--", 99), ("@->--", 99), ("^__~", 9),
   ("(ip)", 49), ("<:O)", 102), ("<:o)", 4), (">:-(", 23), (">:-]", 97), ("))))", 61),
   ("^__^", 76), ("o:-)", 24), ("O:-)", 25), (":-\x7b\x7d", 88), ("@>--", 99), ("\x7d:->", 51),
   ("(h5)", 8), ("@_@", 34), (":*)", 1), ("(G)", 63), ("(^)", 48), (";-)", 89), ("!o)", 20),
   (":-p", 13), (":-P", 94), (";-(", 26), (":'(", 46), ("(((", 46), ("u_u", 84), (":-(", 104),
   (":-@", 14), (":-)", 77), ("^ ^", 22), (":-D", 57), ("^-^", 59), ("LOL", 85), (")))", 166),
   ("o:)", 24), ("O:)", 25), (":-[", 64), (":-*", 27), ("(H)", 40), ("(h)", 47), ("(l)", 58),
   ("(L)", 74), (":\x7b\x7d", 88), (":-#", 88), ("\x7d:>", 51), ("|:o", 68), (":-\\", 75),
   (":~/", 188), ("\\-o", 95), (":-X", 12), (":-x", 109), (":-|", 66), (":-/", 66), (":-o", 71),
   (":-O", 91), (";)", 10), (":p", 2), (":P", 19), ("((", 26), (";(", 73), (":(", 84), (":@", 11),
   (":)", 111), ("))", 57), (":D", 61), ("^^", 72), ("=)", 166), (":[", 65), ("<3", 58),
   (":*", 88), ("^5", 8), (":X", 12), (":x", 109), (":|", 192), (":o", 71), (":O", 91)]

/-- The standard registry substitutes these glyphs, in this order. -/
theorem substitutions_standard :
    standard.substitutions = standardGlyphs.map fun (g, code) => (g.toList, code) := by
  rw [substitutions, glyphsLongestFirst_eq, mergeSort_notShorter]
  decide +kernel

end Registry
end ChatText
