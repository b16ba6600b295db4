import Mathlib.Data.List.Infix

/-! The string operations of the Rust standard library that the modelled code calls. -/
namespace Text

/-- `char::is_whitespace`: the Unicode `White_Space` property. -/
def isWhitespace (c : Char) : Bool :=
  let n := c.toNat
  (9 ≤ n && n ≤ 13) || n == 0x20 || n == 0x85 || n == 0xA0 || n == 0x1680 ||
    (0x2000 ≤ n && n ≤ 0x200A) || n == 0x2028 || n == 0x2029 || n == 0x202F ||
    n == 0x205F || n == 0x3000

def trimStart (s : String) : String := String.ofList (s.toList.dropWhile isWhitespace)

def trimEnd (s : String) : String :=
  String.ofList (s.toList.reverse.dropWhile isWhitespace).reverse

/-- `str::trim`. -/
def trim (s : String) : String := trimEnd (trimStart s)

/-- `str::to_ascii_lowercase`; `Char.toLower` changes `A` to `Z` only. -/
def toAsciiLowercase (s : String) : String := String.ofList (s.toList.map Char.toLower)

/-- `[..].join(sep)`. -/
def join (sep : String) : List String → String
  | [] => ""
  | [s] => s
  | s :: rest => s ++ sep ++ join sep rest

/-- `str::starts_with`. -/
def startsWith (s start : String) : Bool := start.toList.isPrefixOf s.toList

/-- `str::contains`. -/
def contains (s part : String) : Bool := s.toList.tails.any fun rest => part.toList.isPrefixOf rest

example : toAsciiLowercase (trim " Verified\n") = "verified" := by decide

/-- A text without `c` does not go on behind one. -/
theorem prefix_before {part xs rest : List Char} {c : Char} (hc : c ∉ part)
    (h : part <+: xs ++ c :: rest) : part <+: xs := by
  have hline : xs ++ [c] <+: xs ++ c :: rest := ⟨rest, by simp⟩
  rcases List.prefix_or_prefix_of_prefix h hline with hshort | hlong
  · rcases List.prefix_concat_iff.mp hshort with rfl | hx
    · exact absurd (by simp) hc
    · exact hx
  · exact absurd (hlong.subset (by simp)) hc

end Text
