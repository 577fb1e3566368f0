import Sketch.Text.Ranges

/-!
Letters and numbers of every script: the characters with the property Alphabetic or of a numeric
category.
-/

namespace Sketch.Text

/-- Alphabetic characters and numbers. -/
def alphanumericRanges : Array (Nat × Nat) := ranges [
  48,9,7,25,6,25,47,0,7,1,1,0,3,1,1,2,1,22,1,30,1,457,4,11,14,4,7,0,1,0,86,0,29,17,1,1,2,3,1,0,6,0,1,2,1,0,1,19,1,82,1,
  138,8,165,1,37,2,0,6,40,39,13,1,0,1,1,1,1,1,0,8,26,4,3,29,10,5,55,1,16,4,101,1,7,4,7,4,15,2,0,16,47,13,100,14,42,9,1,
  4,0,5,23,2,18,19,24,7,10,5,23,1,6,7,0,8,41,10,11,3,6,6,75,1,15,1,2,4,14,2,9,1,18,1,7,2,1,2,21,1,6,1,0,3,3,3,7,2,1,2,
  1,1,0,8,0,4,1,1,4,2,11,2,5,2,0,4,2,1,5,4,1,2,21,1,6,1,1,1,1,1,1,4,4,4,1,2,1,4,0,7,3,1,0,7,15,11,2,1,8,1,2,1,21,1,6,1,
  1,1,4,3,8,1,2,1,1,3,0,15,3,2,9,9,3,4,2,1,7,2,1,2,21,1,6,1,1,1,4,3,7,2,1,2,1,9,1,4,1,1,4,2,9,1,6,10,1,1,5,3,2,1,3,3,1,
  1,0,1,1,3,1,3,2,3,11,4,4,3,2,1,2,3,0,6,0,14,12,13,12,1,2,1,22,1,15,3,7,1,2,1,2,8,1,1,2,1,1,2,3,2,9,8,6,1,3,1,7,1,2,1,
  22,1,9,1,4,3,7,1,2,1,2,8,1,5,2,1,3,2,9,1,2,12,12,1,2,1,40,2,7,1,2,1,2,1,0,5,15,2,18,1,5,1,2,1,17,3,23,1,8,1,0,2,6,8,
  5,1,0,1,7,6,9,2,1,13,57,5,6,6,0,2,9,39,1,1,0,1,4,1,23,1,0,1,18,1,2,2,4,1,0,6,0,2,9,2,3,32,0,31,19,12,7,1,35,4,18,4,
  15,1,35,67,54,1,0,2,14,6,77,2,37,1,0,5,0,2,42,1,332,1,3,2,6,1,0,1,3,2,40,1,3,2,32,1,3,2,6,1,0,1,3,2,14,1,56,1,3,2,66,
  14,19,3,15,16,85,2,5,3,619,2,16,1,25,5,74,3,10,7,19,11,20,12,19,12,12,1,2,1,1,12,51,2,18,14,0,4,0,3,9,6,9,22,9,6,88,
  7,42,5,69,10,30,1,11,4,8,13,39,2,4,11,43,4,25,6,10,37,27,4,62,2,19,11,9,6,9,13,0,23,1,11,2,49,51,1,14,1,7,3,9,38,41,
  2,57,1,10,14,54,9,9,3,48,2,10,5,42,2,2,41,3,1,5,1,1,3,0,5,191,19,33,11,277,2,5,2,37,2,5,2,7,1,0,1,0,1,0,1,30,2,52,1,
  6,1,0,3,2,1,6,3,3,2,5,4,12,5,2,1,6,115,1,2,5,5,10,6,12,101,0,4,0,2,9,1,0,3,4,6,0,1,0,1,0,1,3,1,10,2,3,5,4,4,0,1,57,
  726,59,26,73,630,29,1132,228,6,3,3,1,9,0,2,37,1,0,5,0,2,55,7,0,16,22,9,6,1,6,1,6,1,6,1,6,1,6,1,6,1,6,1,31,47,0,469,2,
  25,8,7,4,2,4,4,85,6,2,1,89,1,3,5,42,1,93,3,3,10,31,48,15,32,9,30,7,1,14,32,9,39,14,320,6591,64,22156,67,45,2,268,3,
  27,20,46,5,7,3,112,39,8,2,102,2,81,20,20,1,32,8,5,10,51,12,67,1,0,10,9,24,5,3,0,1,45,5,34,13,28,3,50,1,11,15,10,6,30,
  1,54,9,13,2,9,6,22,3,68,1,0,1,0,24,2,2,15,2,3,11,5,2,5,2,5,9,6,1,6,1,42,1,13,6,122,5,9,6,11171,12,22,4,48,8452,365,2,
  105,38,6,12,4,5,11,1,12,1,4,1,0,1,1,1,1,1,107,33,362,18,63,2,53,40,11,116,4,1,134,19,9,7,25,6,25,11,88,3,5,2,5,2,5,2,
  2,35,11,1,25,1,18,1,1,1,14,2,13,34,122,12,44,12,56,17,1,244,28,3,48,16,26,4,35,9,29,5,42,5,29,2,35,4,7,1,4,42,157,2,
  9,6,35,4,35,4,39,8,51,12,10,1,14,1,6,1,1,1,10,1,14,1,6,1,1,3,51,12,310,9,21,10,7,24,5,1,41,1,8,69,5,2,0,1,43,1,1,3,0,
  2,22,2,30,2,37,8,8,48,18,1,1,5,32,4,25,6,25,38,55,4,19,2,49,1,1,5,7,1,2,1,28,10,8,23,30,1,31,32,7,1,27,6,4,16,53,10,
  21,2,26,5,25,23,6,80,72,55,50,13,50,7,45,8,9,6,37,3,0,5,22,218,30,1,41,1,1,3,1,16,5,50,2,3,39,8,21,11,3,27,17,46,27,
  20,22,9,69,12,29,1,4,10,56,9,0,13,24,7,9,6,50,3,9,4,3,8,34,3,0,9,63,1,3,9,12,1,0,4,19,11,17,1,33,2,0,6,3,62,6,1,0,1,
  3,1,14,1,9,7,56,7,9,6,3,1,7,2,1,2,21,1,6,1,1,1,4,3,7,2,1,2,1,3,0,6,0,5,6,28,9,1,0,2,0,1,37,1,9,1,0,2,0,1,3,1,1,3,0,1,
  0,44,65,1,2,1,3,5,9,5,2,30,65,2,1,1,0,8,9,166,53,2,6,25,5,34,62,1,0,3,0,11,9,38,53,2,0,7,9,6,19,28,26,2,13,5,11,4,6,
  185,56,103,82,12,7,2,0,2,7,1,1,1,29,1,1,2,1,2,3,13,9,70,7,2,45,2,5,1,0,1,1,27,50,2,9,17,71,5,0,18,72,103,7,88,32,15,
  9,6,8,1,44,1,6,1,0,15,28,5,29,2,21,1,13,73,6,1,1,1,43,3,0,1,1,1,2,1,0,2,1,8,9,6,5,1,1,1,36,1,1,1,3,1,0,7,9,6,43,4,9,
  246,22,9,16,1,40,3,2,15,9,86,0,15,20,43,921,102,110,17,195,2636,96,15,1071,17,5,25,3994,5,582,6841,46,1,9,1734,568,7,
  30,1,9,6,78,1,9,6,29,18,47,16,3,12,9,1,6,1,20,5,18,432,44,3,9,198,86,9,24,2,24,44,74,4,56,7,16,64,1,1,0,12,6,9,7381,
  41,31,97,114,8701,3,1,6,1,1,1,290,15,0,29,2,2,0,14,3,8,395,2308,106,5,12,3,8,7,9,4,0,4177,9,1478,19,12,19,108,24,135,
  84,1,70,1,1,2,0,2,1,2,3,1,11,1,0,1,6,1,64,1,3,2,7,1,6,1,27,1,3,1,4,1,0,3,6,1,339,2,24,1,24,1,30,1,24,1,30,1,24,1,30,
  1,24,1,30,1,24,1,7,2,49,1792,30,6,5,213,6,1,16,2,6,1,1,1,4,5,61,33,0,112,44,10,6,2,9,4,0,321,29,18,43,4,9,470,27,4,9,
  214,29,2,10,197,30,1,21,8,1,224,6,1,3,1,1,1,14,1,196,2,8,48,67,3,0,3,0,4,9,791,58,1,2,1,3,76,44,1,14,194,3,1,26,1,1,
  1,0,2,0,1,9,1,3,1,0,1,0,6,0,4,0,1,0,1,0,1,2,1,1,1,0,2,0,1,0,1,0,1,0,1,0,1,1,1,0,2,3,1,6,1,3,1,3,1,0,1,9,1,16,5,2,1,4,
  1,16,580,12,35,25,6,25,6,25,2662,9,1030,42719,32,4381,2,5773,2,7472,15,621,2466,541,1506,4938,5,8489]

/-- Whether `c` is a letter or a number in some script. -/
def isAlphanumeric (c : Char) : Bool :=
  if c.toNat < 128 then c.isAlphanum else inRanges alphanumericRanges c

/-- The characters that a word of source text is made of. -/
def isWordChar (c : Char) : Bool := isAlphanumeric c || c = '_'

end Sketch.Text
