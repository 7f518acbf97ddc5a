namespace ProgramTree

/-- Code points that may open an identifier without being alphabetic: two symbols, `℘` and `℮`, and
letters too recent to be in the alphabetic repertoire. -/
def unalphabeticStartRanges : List (Nat × Nat) :=
  [(0x558, 0x558), (0x58B, 0x58C), (0x208F, 0x208F), (0x209D, 0x209F), (0x2118, 0x2118),
   (0x212E, 0x212E), (0xA7DD, 0xA7DD), (0xA7E2, 0xA7E2), (0xAB6C, 0xAB6D), (0x107BB, 0x107BF),
   (0x10ED9, 0x10EEE), (0x11B0A, 0x11B0A), (0x11DF1, 0x11DF1), (0x1246F, 0x1246F),
   (0x12475, 0x1247F), (0x12550, 0x12686), (0x18CD6, 0x18CDA), (0x18D1F, 0x18D20),
   (0x18E00, 0x19191), (0x191A0, 0x191D2), (0x1B123, 0x1B128), (0x1B168, 0x1B168),
   (0x1D6A6, 0x1D6A6), (0x1DF1F, 0x1DF24), (0x1DF2B, 0x1DF81), (0x1DF90, 0x1DF96),
   (0x1DFCD, 0x1DFFF), (0x2B81E, 0x2B81E), (0x3D000, 0x3FC3F)]

end ProgramTree
