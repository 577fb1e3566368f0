import Sketch.Text.Ranges

/-!
Characters that cannot stand for themselves in quoted text: controls, formats, unassigned and private code points,
separators, fillers that are drawn as nothing, and marks that would combine with the quote.
-/

namespace Sketch.Text

/-- Code points that are shown by number. -/
def unprintableRanges : Array (Nat × Nat) := ranges [
  0,31,95,33,12,0,594,111,8,1,6,3,7,0,1,0,20,0,224,6,166,0,38,1,50,1,3,45,1,0,1,1,1,1,1,8,27,3,6,16,10,10,1,0,46,20,16,
  0,101,7,1,5,2,1,1,3,32,1,1,0,30,28,89,10,1,13,43,8,7,2,24,3,1,8,1,2,1,6,15,0,25,4,1,0,11,4,32,15,42,56,55,0,1,0,4,7,
  4,0,3,6,10,1,29,0,2,0,8,1,2,1,22,0,7,0,1,2,4,2,1,0,2,5,2,1,2,0,1,12,2,0,3,3,24,4,1,0,6,3,2,1,22,0,7,0,2,0,2,0,2,3,3,
  23,4,0,1,6,10,1,3,0,1,11,1,0,9,0,3,0,22,0,7,0,2,0,5,2,4,7,1,0,2,2,1,14,2,3,12,6,1,7,2,0,8,1,2,1,22,0,7,0,2,0,5,2,1,1,
  1,5,2,1,2,14,2,0,3,3,18,10,1,0,6,2,3,0,4,2,2,0,1,0,2,2,2,2,3,2,12,4,1,0,2,2,3,0,3,2,1,20,21,5,3,0,8,0,3,0,23,0,16,2,
  1,2,4,18,3,0,2,1,2,3,10,6,10,0,11,0,3,0,23,0,10,0,5,2,2,1,1,0,2,22,3,0,2,3,10,0,3,13,11,0,3,0,41,1,1,0,2,4,3,0,3,0,2,
  3,3,0,10,3,26,1,2,0,18,2,24,0,9,0,1,1,7,8,2,5,7,6,10,1,3,11,48,0,2,10,8,7,13,36,2,0,1,0,5,0,24,0,1,0,10,0,2,8,1,1,5,
  0,1,8,10,1,4,31,24,1,27,0,1,0,1,0,14,0,36,17,1,4,1,1,5,48,8,0,6,0,13,36,45,3,1,5,1,1,2,1,25,1,4,2,16,3,13,0,2,1,6,0,
  15,0,40,0,1,4,1,1,143,1,232,0,4,1,7,0,1,0,4,1,41,0,4,1,33,0,4,1,7,0,1,0,4,1,15,0,57,0,4,1,67,4,29,2,26,5,86,1,6,1,
  640,0,28,2,89,6,18,12,19,2,2,8,18,13,13,0,3,14,52,1,1,6,8,0,2,10,9,2,10,5,10,5,11,4,10,5,89,6,5,1,34,0,1,4,70,9,31,3,
  4,1,3,3,2,0,6,6,1,2,42,1,5,10,44,3,26,5,11,2,57,1,2,2,56,0,1,8,1,0,2,7,6,12,10,5,10,5,14,85,48,9,4,2,8,0,29,8,12,1,
  32,3,2,5,56,0,1,1,3,0,1,12,48,7,2,4,15,2,62,4,43,1,11,10,1,12,1,6,4,0,6,0,3,1,1,4,192,63,278,1,6,1,38,1,6,1,8,0,1,0,
  1,0,1,0,31,1,53,0,15,0,14,1,6,0,19,1,3,0,9,16,24,7,47,16,2,1,27,0,13,2,34,61,140,3,666,21,11,20,1812,1,377,2,2,4,45,
  0,1,4,1,1,56,6,2,14,23,8,7,0,7,0,7,0,7,0,7,0,7,0,7,0,7,32,94,33,26,0,89,11,214,25,16,0,41,5,16,0,86,3,101,4,43,0,51,
  0,42,0,86,8,48,0,29293,2,55,8,348,19,47,3,1,9,32,1,80,1,6,7,221,19,17,0,3,0,4,0,25,1,5,3,10,5,56,7,68,9,12,23,13,0,
  38,7,25,10,1,11,30,5,48,0,2,3,2,1,2,0,13,0,11,3,7,0,25,0,41,5,2,1,2,10,3,0,8,0,1,1,10,1,32,0,51,0,1,2,2,1,5,1,1,0,1,
  23,17,1,8,10,6,1,6,1,6,8,7,0,7,0,60,3,117,0,2,0,4,2,10,5,11172,11,23,3,49,8451,366,1,106,37,7,11,5,4,1,0,24,0,5,0,1,
  0,2,0,2,0,650,31,16,15,10,21,35,0,19,0,4,3,5,0,135,3,159,0,30,2,6,1,6,1,6,1,3,2,7,0,7,12,2,1,12,0,26,0,19,0,2,0,15,1,
  14,33,123,4,3,3,45,2,88,0,13,2,1,46,45,130,29,2,49,15,27,3,36,8,30,4,38,9,30,0,37,3,14,41,158,1,10,5,36,3,36,3,40,7,
  52,10,12,0,15,0,7,0,2,0,11,0,15,0,7,0,2,2,52,11,311,8,22,9,8,23,6,0,42,0,9,68,6,1,1,0,44,0,2,2,1,1,23,0,72,7,9,47,19,
  0,2,4,33,2,27,4,27,37,56,3,20,1,47,14,4,0,3,0,29,9,9,6,9,6,64,31,37,5,12,8,54,2,29,1,27,4,26,6,4,11,7,79,73,54,51,12,
  51,6,42,11,10,5,38,7,24,7,2,207,31,0,42,2,1,1,2,15,6,7,9,38,40,7,22,10,9,21,18,3,4,37,28,19,23,8,1,0,54,14,7,3,30,0,
  2,1,1,11,49,3,2,1,2,0,4,13,25,6,10,8,36,4,1,8,18,7,35,0,3,10,52,8,1,0,8,3,2,0,16,0,20,10,18,0,28,2,2,3,6,0,2,62,7,0,
  1,0,4,0,15,0,11,5,47,0,3,12,10,7,2,0,8,1,2,1,22,0,7,0,2,0,5,2,1,0,1,0,4,1,2,1,2,2,1,11,7,27,10,0,1,1,1,0,38,0,1,0,2,
  14,1,0,2,2,1,0,3,0,2,38,56,7,2,2,1,0,21,0,1,0,3,29,48,0,2,5,1,0,2,0,1,1,1,1,4,7,10,165,47,0,2,5,4,1,1,1,27,35,51,7,2,
  0,1,1,4,10,10,5,13,18,43,0,1,0,2,7,2,5,10,5,20,27,27,2,1,0,2,3,1,8,23,184,47,8,1,1,1,99,83,11,8,1,1,1,8,0,2,0,24,0,5,
  0,2,5,4,0,3,8,10,69,8,1,42,7,4,0,4,26,1,9,40,5,2,3,8,8,1,5,2,2,46,12,1,1,9,12,73,6,10,86,1,2,1,0,1,87,34,13,10,5,9,0,
  38,13,1,0,6,9,29,2,32,24,1,6,1,1,1,74,7,0,2,0,38,20,1,8,10,5,6,0,2,0,37,3,2,0,1,0,1,6,10,5,44,3,10,245,19,1,4,8,15,0,
  36,7,2,2,23,85,1,14,50,12,923,101,111,0,5,10,196,2635,99,12,1072,16,6,24,3995,4,583,6840,30,11,3,2,10,1733,569,6,31,
  0,10,3,81,0,10,5,30,6,1,9,48,6,15,9,10,0,7,0,21,4,19,431,58,197,91,4,25,1,25,43,75,4,56,10,13,63,4,13,5,8,7382,40,32,
  96,115,8700,4,0,7,0,2,0,291,14,1,28,3,1,1,13,4,7,396,2307,107,4,13,2,9,6,10,1,1,1,1,3935,253,2,436,5,23,14,17,94,116,
  59,246,9,39,1,60,4,3,21,2,6,30,3,61,20,66,2,1,121,20,11,20,11,87,8,25,134,85,0,71,0,2,1,1,1,2,1,4,0,12,0,1,0,7,0,65,
  0,4,1,8,0,7,0,28,0,4,0,5,0,1,2,7,0,340,1,292,1,562,54,4,49,8,0,14,0,7,1139,31,5,6,260,62,145,45,9,7,1,10,3,2,319,30,
  17,44,3,10,4,1,463,28,3,10,213,30,1,11,3,1,191,31,0,3,0,2,0,7,1,5,8,2,223,7,0,4,0,2,0,15,0,197,1,9,47,68,6,1,3,10,3,
  2,784,68,75,61,193,4,0,27,0,2,0,1,1,1,0,10,0,4,0,1,0,1,5,1,3,1,0,1,0,1,0,3,0,2,0,1,1,1,0,1,0,1,0,1,0,1,0,2,0,1,1,4,0,
  7,0,4,0,4,0,1,0,10,0,17,4,3,0,5,0,17,51,2,269,44,3,100,11,15,1,15,0,15,0,37,9,174,55,29,12,44,3,9,6,2,13,6,153,985,2,
  17,2,13,2,218,5,12,3,1,14,12,3,56,7,10,5,40,7,30,1,12,3,2,13,9,38,344,7,14,1,13,2,11,2,57,0,1,3,16,1,12,3,10,6,147,0,
  103,1028,42720,31,4382,1,5774,1,7473,14,622,2465,542,1505,4939,4,8490,904069]

/-- Whether `c` has no visible form of its own. -/
def isUnprintable (c : Char) : Bool :=
  if 0x20 ≤ c.toNat && c.toNat < 0x7f then false else inRanges unprintableRanges c

end Sketch.Text
