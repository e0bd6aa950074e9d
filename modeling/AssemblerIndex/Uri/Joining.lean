import AssemblerIndex.Text.Marks

/-!
# Joiners in names

Two invisible characters ask that the letters around them be joined or not joined.  In a name they may
stand only where they change what is written.
-/

namespace AssemblerIndex.Uri

open AssemblerIndex.Text

/-- On which sides a letter joins others. -/
inductive Joining where
  | none | leading | trailing | both | transparent
  deriving DecidableEq, Repr, Inhabited

/-- The way of joining that a mark of the table stands for. -/
def Joining.ofMark (mark : List Char) : Joining :=
  match mark with
  | ['L'] => .leading
  | ['R'] => .trailing
  | ['D'] => .both
  | ['T'] => .transparent
  | _ => .none

/-- Code points with their ways of joining: `L` with the next letter, `R` with the one in front, `D` with
both, `T` as if they were not there, `U` not at all. -/
def joiningCode : String :=
  "173U 1T 594U 112T 275U 7T 263U 45T 1U 1T 1U 2T 1U 2T 1U 9T 64U 11T 1U 1T 3U 1D 1U 4R 1D 1R 1D
   1R 5D 4R 13D 1U 7D 1R 2D 21T 14U 2D 1T 3R 1U 3R 16D 18R 38D 1R 2D 9R 1D 1R 1D 1R 2D 2R 1U 1R
   7T 2U 6T 2U 2T 1U 4T 2R 10U 3D 2U 1D 15U 1T 1R 1T 3D 5R 4D 1R 9D 1R 1D 1R 1D 1R 2D 1R 29T 1R
   11D 3R 15D 2R 4D 1R 1D 2R 3D 2R 6D 38U 11T 25U 33D 9T 9U 1T 24U 4T 1U 9T 1U 3T 1U 7T 16U 1R 5D
   2R 1D 1R 10D 1R 1D 3R 5T 2U 1D 1U 4D 1U 1R 1D 26R 3U 1D 2U 5D 1R 1D 7U 9T 10D 3R 1U 1R 2D 2R
   6D 1R 15D 1U 24T 1U 32T 55U 1T 1U 1T 4U 8T 4U 1T 3U 7T 10U 2T 29U 1T 58U 1T 4U 6T 6U 1T 20U 4T
   24U 5T 57U 2T 3U 24T 23U 2T 3U 1T 11U 2T 57U 1T 4U 8T 4U 3T 18U 4T 20U 8T 58U 1T 2U 1T 1U 6T
   6U 10T 11U 4T 28U 1T 61U 1T 12U 3T 48U 1T 3U 1T 55U 1T 1U 3T 5U 18T 10U 4T 27U 1T 58U 1T 2U 1T
   6U 1T 5U 9T 13U 4T 26U 2T 57U 2T 4U 5T 7U 1T 20U 4T 27U 1T 72U 5T 3U 6T 89U 1T 2U 11T 8U 8T
   98U 1T 2U 9T 11U 8T 72U 2T 27U 1T 1U 1T 1U 1T 55U 14T 1U 5T 1U 2T 5U 49T 8U 1T 102U 4T 1U 6T
   1U 2T 2U 2T 25U 2T 4U 3T 16U 4T 13U 1T 2U 2T 6U 1T 15U 1T 703U 3T 946U 3T 29U 2T 30U 14T 18U
   14T 52U 2T 1U 7T 8U 1T 2U 11T 9U 3T 39U 1D 3U 3T 1U 1T 16U 96D 5U 2T 34D 1T 6D 112U 3T 4U 2T
   9U 1T 6U 7T 215U 2T 2U 3T 56U 1T 1U 9T 1U 1T 2U 8T 6U 13T 48U 84T 48U 1T 1U 5T 1U 1T 5U 1T 40U
   9T 12U 2T 32U 4T 2U 2T 1U 3T 56U 1T 1U 2T 3U 1T 1U 3T 58U 8T 2U 5T 149U 3T 1U 13T 1U 7T 4U 1T
   6U 1T 3U 2T 198U 64T 523U 1T 2U 2T 26U 5T 49U 6T 4U 6T 96U 48T 3055U 3T 141U 1T 96U 32T 554U
   4T 107U 2T 30164U 4T 1U 10T 32U 2T 80U 2T 272U 1T 3U 1T 4U 1T 25U 2T 5U 4T 16U 50D 1L 81U 10T
   18U 18T 13U 1T 38U 8T 25U 11T 46U 3T 48U 1T 2U 4T 2U 2T 39U 1T 67U 6T 2U 2T 2U 11T 3U 1T 8U 1T
   47U 1T 51U 1T 1U 3T 2U 2T 5U 2T 1U 1T 42U 2T 8U 11T 228U 1T 2U 1T 4U 3T 20270U 1T 737U 16T 16U
   16T 207U 2T 248U 3T 513U 131T 96U 1T 149U 10T 1665U 15T 40U 8T 128U 5D 1R 1U 1R 1U 2R 2U 1L 5R
   4D 1L 5D 1R 3D 1R 2U 1R 6T 4D 1R 144U 1D 1R 1D 3R 3D 1R 2D 1R 1D 2R 1D 8R 16U 4R 2D 337U 1L
   33D 1R 1D 12T 57U 5T 317U 2T 21U 1R 2D 1U 10D 42U 6T 48U 3D 1R 17D 1U 11T 3D 1R 27U 4D 2R 12D
   4T 42U 1D 1U 2D 3R 1U 1D 2R 2D 1R 2D 1U 1D 2R 1D 4U 1R 1D 21L 33U 1T 54U 15T 41U 1T 2U 2T 10U
   3T 49U 4T 2U 2T 7U 11T 51U 3T 36U 5T 1U 9T 61U 1T 12U 2T 52U 9T 10U 4T 2U 1T 95U 3T 2U 1T 1U
   2T 6U 1T 2U 63T 95U 1T 3U 13T 16U 2T 57U 2T 3U 1T 37U 26T 59U 7T 12U 1T 1U 1T 1U 1T 14U 31T
   56U 8T 2U 3T 1U 1T 23U 1T 84U 6T 1U 1T 4U 2T 1U 2T 238U 6T 4U 2T 1U 2T 27U 36T 51U 8T 2U 1T 1U
   2T 106U 1T 1U 1T 2U 6T 1U 1T 101U 1T 1U 1T 2U 4T 1U 9T 255U 9T 1U 2T 256U 2T 1U 1T 4U 1T 144U
   8T 4U 1T 32U 10T 40U 6T 2U 4T 8U 9T 1U 6T 2U 3T 46U 13T 1U 2T 198U 1T 1U 3T 1U 1T 201U 14T 1U
   1T 82U 23T 1U 7T 1U 2T 1U 75T 49U 21T 1U 9T 64U 3T 2U 1T 1U 1T 347U 2T 11U 2T 52U 8T 2U 1T 1U
   1T 23U 86T 5248U 17T 6U 25T 11454U 12T 3U 3T 2496U 5T 59U 7T 1048U 1T 63U 4T 81U 12T 19629U 2T
   1U 3936T 768U 80T 535U 3T 9U 16T 2U 7T 30U 4T 148U 3T 1979U 55T 4U 50T 8U 1T 14U 1T 22U 1125T
   256U 48T 95U 113T 48U 7T 375U 18T 44U 4T 508U 4T 254U 2T 243U 1T 2U 1T 7U 2T 5U 9T 466U 48T
   68D 12T 792241U 65535T 131072U"

/-- The way of joining of each character. -/
def joinings : CharacterProperty Joining := .ofCode Joining.ofMark joiningCode

/-- The way of joining of a character. -/
def joining (c : Char) : Joining := (joinings.value? c).getD .none

/-- The nearest letter that is not transparent has one of the given ways of joining. -/
def meetsJoining (ways : List Joining) (s : List Char) : Bool :=
  ((s.map joining).dropWhile (· == .transparent)).head?.any ways.contains

/-- Every joiner of a label may stand where it does; `before` is what stands in front, last one first.
Behind a mark that suppresses a vowel both are allowed, elsewhere the one that keeps two joining letters
apart. -/
def joinersFit (before : List Char) : List Char → Bool
  | [] => true
  | c :: rest =>
    (if c = '\u200c' then
      before.head?.any isVirama
        || (meetsJoining [.leading, .both] before && meetsJoining [.trailing, .both] rest)
    else if c = '\u200d' then before.head?.any isVirama
    else true) && joinersFit (c :: before) rest

end AssemblerIndex.Uri
