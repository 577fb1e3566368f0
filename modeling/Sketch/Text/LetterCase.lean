import Sketch.Text.Ranges

/-!
Upper and lower case of whole texts. Most characters map to one a fixed distance away; a few grow into several. The
Greek capital sigma has two small forms, one of them for the end of a word.
-/

namespace Sketch.Text

/-- Every `step`-th code point from `first` to `last` maps to the one `distance` away. -/
structure CaseRange where
  first : Nat
  last : Nat
  step : Nat
  distance : Int
deriving Repr, Inhabited

/-- The image of code point `n`, if the range has it. -/
def CaseRange.map? (r : CaseRange) (n : Nat) : Option Nat :=
  if r.first ≤ n ∧ n ≤ r.last ∧ (n - r.first) % r.step = 0 then some (n + r.distance).toNat else none

/-- The way back. -/
def CaseRange.inverse (r : CaseRange) : CaseRange :=
  ⟨(r.first + r.distance).toNat, (r.last + r.distance).toNat, r.step, -r.distance⟩

/-- The ranges from `start` on, by what is left out before each, its steps, their length and the distance. -/
def caseRangesFrom (start : Nat) : List Int → List CaseRange
  | gap :: more :: step :: distance :: rest =>
    let first := start + gap.toNat
    let last := first + more.toNat * step.toNat
    ⟨first, last, step.toNat, distance⟩ :: caseRangesFrom (last + 1) rest
  | _ => []

@[inherit_doc caseRangesFrom]
def caseRanges (gaps : List Int) : Array CaseRange := (caseRangesFrom 0 gaps).toArray

/-- Characters with a lower case form of one character. -/
def lowerRanges : Array CaseRange := caseRanges [
  65,25,1,32,101,22,1,32,1,6,1,32,33,23,2,1,3,2,2,1,2,7,2,1,2,22,2,1,1,0,1,-121,0,2,2,1,3,0,1,210,0,1,2,1,1,0,1,206,0,
  0,1,1,1,1,1,205,0,0,1,1,2,0,1,79,0,0,1,202,0,0,1,203,0,0,1,1,1,0,1,205,0,0,1,207,1,0,1,211,0,0,1,209,0,0,1,1,3,0,1,
  211,0,0,1,213,1,0,1,214,0,2,2,1,1,0,1,218,0,0,1,1,1,0,1,218,2,0,1,1,1,0,1,218,0,0,1,1,1,1,1,217,0,1,2,1,1,0,1,219,0,
  0,1,1,3,0,1,1,7,0,1,2,0,0,1,1,1,0,1,2,0,0,1,1,1,0,1,2,0,8,2,1,2,8,2,1,2,0,1,2,0,1,2,1,1,0,1,-97,0,0,1,-56,0,19,2,1,1,
  0,1,-130,1,8,2,1,7,0,1,10795,0,0,1,1,1,0,1,-163,0,0,1,10792,2,0,1,1,1,0,1,-195,0,0,1,69,0,0,1,71,0,4,2,1,289,1,2,1,3,
  0,1,1,8,0,1,116,6,0,1,38,1,2,1,37,1,0,1,64,1,1,1,63,1,16,1,32,1,8,1,32,35,0,1,8,8,11,2,1,5,0,1,-60,2,0,1,1,1,0,1,-7,
  0,0,1,1,2,2,1,-130,0,15,1,80,0,31,1,32,48,16,2,1,9,26,2,1,1,0,1,15,0,6,2,1,2,47,2,1,2,37,1,48,2889,37,1,7264,1,0,1,
  7264,5,0,1,7264,722,79,1,38864,0,5,1,8,2195,0,1,1,6,42,1,-3008,2,2,1,-3008,320,74,2,1,9,0,1,-7615,1,47,2,1,9,7,1,-8,
  8,5,1,-8,10,7,1,-8,8,7,1,-8,8,5,1,-8,11,3,2,-8,8,7,1,-8,24,7,1,-8,8,7,1,-8,8,7,1,-8,8,1,1,-8,0,1,1,-74,0,0,1,-9,11,3,
  1,-86,0,0,1,-9,11,1,1,-8,0,1,1,-100,12,1,1,-8,0,1,1,-112,0,0,1,-7,11,1,1,-128,0,1,1,-126,0,0,1,-9,297,0,1,-7517,3,0,
  1,-8383,0,0,1,-8262,6,0,1,28,45,15,1,16,19,0,1,1,818,25,1,26,1840,47,1,48,48,0,1,1,1,0,1,-10743,0,0,1,-3814,0,0,1,
  -10727,2,2,2,1,1,0,1,-10780,0,0,1,-10749,0,0,1,-10783,0,0,1,-10782,1,0,1,1,2,0,1,1,8,1,1,-10815,0,49,2,1,8,1,2,1,4,0,
  1,1,31053,22,2,1,19,13,2,1,135,6,2,1,3,30,2,1,10,1,2,1,1,0,1,-35332,0,4,2,1,4,0,1,1,1,0,1,-42280,2,1,2,1,3,9,2,1,1,0,
  1,-42308,0,0,1,-42319,0,0,1,-42315,0,0,1,-42305,0,0,1,-42308,1,0,1,-42258,0,0,1,-42282,0,0,1,-42261,0,0,1,928,0,7,2,
  1,1,0,1,-48,0,0,1,-42307,0,0,1,-35384,0,1,2,1,1,0,1,-42343,0,7,2,1,1,0,1,-42561,24,0,1,1,22315,25,1,32,1221,39,1,40,
  136,35,1,40,156,10,1,39,1,14,1,39,1,6,1,39,1,1,1,39,1770,50,1,64,157,21,1,32,2874,31,1,32,21888,31,1,32,64,24,1,27,
  31303,33,1,34]

/-- Characters that are the lower case form of another one, of which the first counts. -/
def upperRanges : Array CaseRange := lowerRanges.map CaseRange.inverse

/-- Small Greek letters with a mark below, from `small` on. The upper case form has the mark as a letter. -/
def upperMarked : List (Nat × List Nat) :=
  [(0x1f80, 0x1f08), (0x1f90, 0x1f28), (0x1fa0, 0x1f68)].flatMap fun (small, capital) =>
    (List.range 16).map fun n => (small + n, [capital + n % 8, 0x399])

/-- Characters that their upper case form does not have as its lower case form. -/
def upperSpecial : List (Nat × List Nat) := upperMarked ++ [
  (0xb5, [0x39c]), (0xdf, [0x53, 0x53]), (0x131, [0x49]), (0x149, [0x2bc, 0x4e]), (0x17f, [0x53]), (0x1c5, [0x1c4]),
  (0x1c8, [0x1c7]), (0x1cb, [0x1ca]), (0x1f0, [0x4a, 0x30c]), (0x1f2, [0x1f1]), (0x345, [0x399]),
  (0x390, [0x399, 0x308, 0x301]), (0x3b0, [0x3a5, 0x308, 0x301]), (0x3c2, [0x3a3]), (0x3d0, [0x392]),
  (0x3d1, [0x398]), (0x3d5, [0x3a6]), (0x3d6, [0x3a0]), (0x3f0, [0x39a]), (0x3f1, [0x3a1]), (0x3f5, [0x395]),
  (0x587, [0x535, 0x552]), (0x1c80, [0x412]), (0x1c81, [0x414]), (0x1c82, [0x41e]), (0x1c83, [0x421]),
  (0x1c84, [0x422]), (0x1c85, [0x422]), (0x1c86, [0x42a]), (0x1c87, [0x462]), (0x1c88, [0xa64a]),
  (0x1e96, [0x48, 0x331]), (0x1e97, [0x54, 0x308]), (0x1e98, [0x57, 0x30a]), (0x1e99, [0x59, 0x30a]),
  (0x1e9a, [0x41, 0x2be]), (0x1e9b, [0x1e60]), (0x1f50, [0x3a5, 0x313]), (0x1f52, [0x3a5, 0x313, 0x300]),
  (0x1f54, [0x3a5, 0x313, 0x301]), (0x1f56, [0x3a5, 0x313, 0x342]), (0x1fb2, [0x1fba, 0x399]),
  (0x1fb3, [0x391, 0x399]), (0x1fb4, [0x386, 0x399]), (0x1fb6, [0x391, 0x342]), (0x1fb7, [0x391, 0x342, 0x399]),
  (0x1fbc, [0x391, 0x399]), (0x1fbe, [0x399]), (0x1fc2, [0x1fca, 0x399]), (0x1fc3, [0x397, 0x399]),
  (0x1fc4, [0x389, 0x399]), (0x1fc6, [0x397, 0x342]), (0x1fc7, [0x397, 0x342, 0x399]), (0x1fcc, [0x397, 0x399]),
  (0x1fd2, [0x399, 0x308, 0x300]), (0x1fd3, [0x399, 0x308, 0x301]), (0x1fd6, [0x399, 0x342]),
  (0x1fd7, [0x399, 0x308, 0x342]), (0x1fe2, [0x3a5, 0x308, 0x300]), (0x1fe3, [0x3a5, 0x308, 0x301]),
  (0x1fe4, [0x3a1, 0x313]), (0x1fe6, [0x3a5, 0x342]), (0x1fe7, [0x3a5, 0x308, 0x342]), (0x1ff2, [0x1ffa, 0x399]),
  (0x1ff3, [0x3a9, 0x399]), (0x1ff4, [0x38f, 0x399]), (0x1ff6, [0x3a9, 0x342]), (0x1ff7, [0x3a9, 0x342, 0x399]),
  (0x1ffc, [0x3a9, 0x399]), (0xfb00, [0x46, 0x46]), (0xfb01, [0x46, 0x49]), (0xfb02, [0x46, 0x4c]),
  (0xfb03, [0x46, 0x46, 0x49]), (0xfb04, [0x46, 0x46, 0x4c]), (0xfb05, [0x53, 0x54]), (0xfb06, [0x53, 0x54]),
  (0xfb13, [0x544, 0x546]), (0xfb14, [0x544, 0x535]), (0xfb15, [0x544, 0x53b]), (0xfb16, [0x54e, 0x546]),
  (0xfb17, [0x544, 0x53d])]

def casedRanges : Array (Nat × Nat) := ranges [
  65,25,6,25,47,0,10,0,4,0,5,22,1,30,1,194,1,3,4,207,2,34,7,1,30,4,96,0,42,3,2,1,2,3,1,0,6,0,1,2,1,0,1,19,1,82,1,138,8,
  165,1,37,9,40,2839,37,1,0,5,0,2,42,1,3,672,85,2,5,2178,10,5,42,2,2,64,191,64,277,2,5,2,37,2,5,2,7,1,0,1,0,1,0,1,30,2,
  52,1,6,1,0,3,2,1,6,3,3,2,5,4,12,5,2,1,6,116,0,13,0,16,12,101,0,4,0,2,9,1,0,3,4,6,0,1,0,1,0,1,3,1,5,4,0,2,3,5,4,4,0,
  17,31,3,1,817,51,1814,228,6,3,3,1,12,37,1,0,5,0,30994,45,18,29,132,101,3,3,1,76,20,5,1,2,821,42,1,13,6,79,20288,6,12,
  4,1033,25,6,25,1189,79,96,35,4,35,116,10,1,14,1,6,1,1,1,10,1,14,1,6,1,1,451,0,2,2,1,41,1,8,1221,50,13,50,93,21,10,21,
  2842,63,21856,63,32,24,2,24,25900,84,1,70,1,1,2,0,2,1,2,3,1,11,1,0,1,6,1,64,1,3,2,7,1,6,1,27,1,3,1,4,1,0,3,6,1,339,2,
  24,1,24,1,30,1,24,1,30,1,24,1,30,1,24,1,30,1,24,1,7,1844,9,1,19,6,5,261,61,2194,67,2028,25,6,25,6,25]

/-- Characters that are skipped when the end of a word is looked for. -/
def caseIgnorableRanges : Array (Nat × Nat) := ranges [
  39,0,6,0,11,0,35,0,1,0,71,0,4,0,1,0,4,0,2,1,503,191,4,1,4,0,9,1,1,0,251,6,207,0,5,0,49,44,1,0,1,1,1,1,1,0,44,0,11,5,
  10,10,1,0,35,0,10,20,16,0,101,7,1,9,1,3,33,0,1,0,30,26,91,10,58,10,4,0,2,0,24,23,43,2,44,0,7,1,5,8,41,57,55,0,1,0,4,
  7,4,0,3,6,10,1,13,0,15,0,58,0,4,3,8,0,20,1,26,0,2,1,57,0,4,1,4,1,2,2,3,0,30,1,3,0,11,1,57,0,4,4,1,1,4,0,20,1,22,5,1,
  0,58,0,2,0,1,3,8,0,7,1,11,1,30,0,61,0,12,0,50,0,3,0,55,0,1,2,5,2,1,3,7,1,11,1,29,0,58,0,2,0,6,0,5,1,20,1,28,1,57,1,4,
  3,8,0,20,1,29,0,72,0,7,2,1,0,90,0,2,6,11,8,98,0,2,8,9,0,1,6,73,1,27,0,1,0,1,0,55,13,1,4,1,1,5,10,1,35,9,0,102,3,1,5,
  1,1,2,1,25,1,4,2,16,3,13,0,2,1,6,0,15,0,94,0,608,2,946,2,29,1,30,1,30,1,64,1,1,6,8,0,2,10,3,0,5,0,45,4,51,0,65,1,34,
  0,118,2,4,1,9,0,6,2,219,1,2,0,58,0,1,6,1,0,1,0,2,7,6,9,2,0,39,0,8,45,2,11,20,3,48,0,1,4,1,0,5,0,40,8,12,1,32,3,2,1,1,
  2,56,0,1,1,3,0,1,2,58,7,2,1,64,5,82,2,1,12,1,6,4,0,6,0,3,1,50,62,13,0,34,100,445,0,1,2,11,2,13,2,13,2,13,1,12,4,8,1,
  10,0,2,0,2,4,49,4,1,9,1,0,13,0,16,12,51,32,2955,1,113,2,125,0,15,0,96,31,47,0,469,0,36,3,3,4,5,0,93,5,93,2,28438,0,
  1250,5,270,0,98,3,1,9,1,0,28,3,80,1,14,33,78,0,23,2,102,3,3,1,8,0,3,0,4,0,25,1,5,0,151,1,26,17,13,0,38,7,25,10,46,2,
  48,0,2,3,2,1,17,0,21,1,66,5,2,1,2,1,12,0,8,0,35,0,11,0,51,0,1,2,2,1,5,1,1,0,27,0,14,1,5,1,1,0,100,4,9,2,121,0,2,0,4,
  0,20272,0,147,16,573,15,3,0,12,15,34,0,2,0,169,0,7,0,6,0,11,0,35,0,1,0,47,0,45,1,67,0,21,2,513,0,226,0,149,4,1029,5,
  1,41,1,8,582,2,1,1,5,3,40,2,4,0,165,1,573,3,38,0,26,4,1,0,315,1,24,0,52,5,70,10,49,3,123,0,54,14,41,0,2,1,10,2,49,3,
  2,1,2,0,4,0,10,0,50,2,36,4,1,7,62,0,12,1,52,8,10,3,2,0,95,2,2,0,1,1,6,0,2,0,157,0,3,7,21,1,57,1,3,0,37,6,3,4,70,5,13,
  0,1,0,1,0,14,1,85,7,2,2,1,0,23,0,84,5,1,0,4,1,1,1,238,3,6,1,1,1,27,1,85,7,2,0,1,1,106,0,1,0,2,5,1,0,101,0,1,0,2,3,1,
  4,259,8,1,1,256,1,1,0,4,0,144,3,2,1,4,0,32,9,40,5,2,3,8,0,9,5,2,2,46,12,1,1,198,0,1,2,1,0,201,6,1,5,1,0,82,21,2,6,1,
  1,1,1,122,5,3,0,1,1,1,6,1,0,72,1,3,0,1,0,65,0,281,1,11,1,52,4,5,0,1,0,23,0,5333,16,6,14,11464,11,3,2,2496,4,59,6,9,3,
  508,2,40,1,482,0,63,16,64,1,1,1,13,1,16380,3,1,6,1,1,3230,1,1,3,4700,45,2,22,544,2,9,15,2,6,30,3,148,2,1979,54,4,49,
  8,0,14,0,22,4,1,14,1360,6,1,16,2,6,1,1,1,4,5,61,33,0,160,13,368,0,61,3,507,4,254,1,243,0,2,0,7,1,5,0,9,0,464,6,109,7,
  2735,4,789505,0,30,95,128,239]

/-- The lower case form of one character, apart from a final sigma. The dotted capital I keeps its dot. -/
def lowerChar (c : Char) : List Char :=
  if c.toNat < 128 then [c.toLower]
  else if c.toNat = 0x130 then ['i', Char.ofNat 0x307]
  else
    match lowerRanges.findSome? (·.map? c.toNat) with
    | some n => [Char.ofNat n]
    | none => [c]

def upperChar (c : Char) : List Char :=
  if c.toNat < 128 then [c.toUpper]
  else
    match upperSpecial.find? (·.1 = c.toNat) with
    | some (_, ns) => ns.map Char.ofNat
    | none =>
      match upperRanges.findSome? (·.map? c.toNat) with
      | some n => [Char.ofNat n]
      | none => [c]

/-- Whether the first character that counts is one with a case. -/
def startsCased (cs : List Char) : Bool :=
  match cs.dropWhile (inRanges caseIgnorableRanges) with
  | c :: _ => inRanges casedRanges c
  | [] => false

/-- Lower case of `cs`, with the characters before it at hand, the nearest first. -/
def lowerFrom (before : List Char) : List Char → List Char
  | [] => []
  | c :: rest =>
    let form :=
      if c.toNat = 0x3a3 then
        [Char.ofNat (if startsCased before && !startsCased rest then 0x3c2 else 0x3c3)]
      else lowerChar c
    form ++ lowerFrom (c :: before) rest

def lower (s : String) : String := String.ofList (lowerFrom [] s.toList)

def upper (s : String) : String := String.ofList (s.toList.flatMap upperChar)

end Sketch.Text
