import SmolVlm2Kv260.Kernel.ApproxRegisters

/-!
# The script that validates the approximations

`validate_approximations.py` has its own copies of the tables of `approx_math.h`, and of the
functions, on the unbounded integers of Python.  They give what the registers of the kernels hold.
-/

set_option autoImplicit false

namespace Kv260.ValidateApproximations

/-! ### Tables -/

def kRsqrtLutQ15 : List ℤ :=
  [32640, 32390, 32145, 31906, 31672, 31444, 31220, 31001, 30786, 30576, 30370, 30168, 29971,
   29777, 29586, 29400, 29217, 29037, 28860, 28687, 28517, 28349, 28185, 28024, 27865, 27709,
   27555, 27404, 27256, 27109, 26966, 26824, 26685, 26548, 26412, 26279, 26148, 26019, 25892,
   25767, 25643, 25521, 25401, 25283, 25166, 25051, 24937, 24825, 24714, 24605, 24498, 24391,
   24286, 24183, 24081, 23980, 23880, 23781, 23684, 23588, 23493, 23399, 23307, 23215]

def kExpNegLutQ15 : List ℤ :=
  [32767, 32259, 31759, 31266, 30782, 30305, 29835, 29372, 28917, 28468, 28027, 27593, 27165,
   26744, 26329, 25921, 25519, 25123, 24734, 24350, 23973, 23601, 23235, 22875, 22520, 22171,
   21828, 21489, 21156, 20828, 20505, 20187, 19874, 19566, 19263, 18964, 18670, 18381, 18096,
   17815, 17539, 17267, 16999, 16736, 16476, 16221, 15969, 15722, 15478, 15238, 15002, 14769,
   14540, 14315, 14093, 13874, 13659, 13448, 13239, 13034, 12832, 12633, 12437, 12244, 12054,
   11867, 11683, 11502, 11324, 11148, 10976, 10805, 10638, 10473, 10311, 10151, 9993, 9838,
   9686, 9536, 9388, 9242, 9099, 8958, 8819, 8682, 8548, 8415, 8285, 8156, 8030, 7905, 7783,
   7662, 7543, 7426, 7311, 7198, 7086, 6976, 6868, 6762, 6657, 6554, 6452, 6352, 6254, 6157,
   6061, 5967, 5875, 5784, 5694, 5606, 5519, 5433, 5349, 5266, 5184, 5104, 5025, 4947, 4870,
   4795, 4721, 4647, 4575, 4504, 4435, 4366, 4298, 4231, 4166, 4101, 4038, 3975, 3913, 3853,
   3793, 3734, 3676, 3619, 3563, 3508, 3454, 3400, 3347, 3295, 3244, 3194, 3145, 3096, 3048,
   3001, 2954, 2908, 2863, 2819, 2775, 2732, 2690, 2648, 2607, 2567, 2527, 2488, 2449, 2411,
   2374, 2337, 2301, 2265, 2230, 2195, 2161, 2128, 2095, 2062, 2030, 1999, 1968, 1937, 1907,
   1878, 1849, 1820, 1792, 1764, 1737, 1710, 1683, 1657, 1631, 1606, 1581, 1557, 1533, 1509,
   1485, 1462, 1440, 1417, 1395, 1374, 1352, 1331, 1311, 1291, 1271, 1251, 1231, 1212, 1194,
   1175, 1157, 1139, 1121, 1104, 1087, 1070, 1053, 1037, 1021, 1005, 989, 974, 959, 944, 930,
   915, 901, 887, 873, 860, 846, 833, 820, 808, 795, 783, 771, 759, 747, 735, 724, 713, 702,
   691, 680, 670, 659, 649, 639, 629, 619, 610, 600, 591, 582, 573, 564, 555, 546, 538, 530,
   521, 513, 505, 498, 490, 482, 475, 467, 460, 453, 446, 439, 432, 426, 419, 412, 406, 400,
   394, 387, 381, 376, 370, 364, 358, 353, 347, 342, 337, 331, 326, 321, 316, 311, 307, 302,
   297, 292, 288, 283, 279, 275, 271, 266, 262, 258, 254, 250, 246, 242, 239, 235, 231, 228,
   224, 221, 217, 214, 211, 207, 204, 201, 198, 195, 192, 189, 186, 183, 180, 177, 175, 172,
   169, 167, 164, 162, 159, 157, 154, 152, 149, 147, 145, 143, 140, 138, 136, 134, 132, 130,
   128, 126, 124, 122, 120, 118, 116, 115, 113, 111, 109, 108, 106, 104, 103, 101, 100, 98, 96,
   95, 93, 92, 91, 89, 88, 86, 85, 84, 83, 81, 80, 79, 78, 76, 75, 74, 73, 72, 71, 69, 68, 67,
   66, 65, 64, 63, 62, 61, 60, 59, 59, 58, 57, 56, 55, 54, 53, 52, 52, 51, 50, 49, 48, 48, 47,
   46, 46, 45, 44, 43, 43, 42, 41, 41, 40, 40, 39, 38, 38, 37, 37, 36, 35, 35, 34, 34, 33, 33,
   32, 32, 31, 31, 30, 30, 29, 29, 29, 28, 28, 27, 27, 26, 26, 26, 25, 25, 24, 24, 24, 23, 23,
   23, 22, 22, 22, 21, 21, 21, 20, 20, 20, 19, 19, 19, 18, 18, 18, 18, 17, 17, 17, 17, 16, 16,
   16, 16, 15, 15, 15, 15, 14, 14, 14, 14, 13, 13, 13, 13, 13, 12, 12, 12, 12, 12, 12, 11, 11]

def kSiluLutQ8_8 : List ℤ :=
  [0, 0, 0, 0, 0, 0, 0, 0, 0, 0, 0, 0, 0, 0, 0, 0, 0, 0, 0, 0, 0, 0, 0, 0, 0, 0, 0, 0, 0, 0, 0,
   0, 0, 0, 0, 0, 0, 0, 0, 0, 0, 0, 0, 0, 0, 0, 0, 0, 0, 0, 0, 0, 0, 0, 0, 0, 0, 0, 0, -1, -1,
   -1, -1, -1, -1, -1, -1, -1, -1, -1, -1, -1, -1, -1, -1, -1, -1, -1, -1, -2, -2, -2, -2, -2,
   -2, -2, -2, -2, -2, -3, -3, -3, -3, -3, -3, -4, -4, -4, -4, -4, -5, -5, -5, -5, -6, -6, -6,
   -7, -7, -7, -8, -8, -9, -9, -9, -10, -10, -11, -11, -12, -13, -13, -14, -15, -15, -16, -17,
   -18, -18, -19, -20, -21, -22, -23, -24, -25, -26, -27, -29, -30, -31, -32, -34, -35, -36,
   -38, -39, -41, -42, -44, -45, -47, -49, -50, -52, -53, -55, -56, -58, -60, -61, -62, -64,
   -65, -66, -67, -68, -69, -70, -71, -71, -71, -71, -71, -71, -70, -69, -68, -66, -64, -62,
   -59, -56, -52, -48, -44, -39, -34, -28, -22, -15, -8, 0, 8, 17, 26, 36, 46, 57, 68, 80, 92,
   104, 117, 130, 144, 158, 172, 187, 202, 217, 233, 249, 265, 281, 297, 314, 331, 348, 365,
   382, 399, 416, 434, 451, 468, 486, 504, 521, 539, 556, 574, 591, 609, 627, 644, 662, 679,
   697, 714, 732, 749, 766, 784, 801, 818, 835, 853, 870, 887, 904, 921, 938, 955, 972, 989,
   1006, 1022, 1039, 1056, 1073, 1089, 1106, 1123, 1139, 1156, 1173, 1189, 1206, 1222, 1239,
   1255, 1271, 1288, 1304, 1321, 1337, 1353, 1370, 1386, 1402, 1419, 1435, 1451, 1467, 1484,
   1500, 1516, 1532, 1548, 1565, 1581, 1597, 1613, 1629, 1645, 1662, 1678, 1694, 1710, 1726,
   1742, 1758, 1774, 1790, 1806, 1823, 1839, 1855, 1871, 1887, 1903, 1919, 1935, 1951, 1967,
   1983, 1999, 2015, 2031, 2047, 2063, 2079, 2095, 2111, 2127, 2144, 2160, 2176, 2192, 2208,
   2224, 2240, 2256, 2272, 2288, 2304, 2320, 2336, 2352, 2368, 2384, 2400, 2416, 2432, 2448,
   2464, 2480, 2496, 2512, 2528, 2544, 2560, 2576, 2592, 2608, 2624, 2640, 2656, 2672, 2688,
   2704, 2720, 2736, 2752, 2768, 2784, 2800, 2816, 2832, 2848, 2864, 2880, 2896, 2912, 2928,
   2944, 2960, 2976, 2992, 3008, 3024, 3040, 3056, 3072]

def kQuarterSinLutQ15 : List ℤ :=
  [0, 101, 201, 302, 402, 503, 603, 704, 804, 905, 1005, 1106, 1206, 1307, 1407, 1507, 1608,
   1708, 1809, 1909, 2009, 2110, 2210, 2310, 2410, 2511, 2611, 2711, 2811, 2911, 3012, 3112,
   3212, 3312, 3412, 3512, 3612, 3712, 3811, 3911, 4011, 4111, 4210, 4310, 4410, 4509, 4609,
   4708, 4808, 4907, 5007, 5106, 5205, 5305, 5404, 5503, 5602, 5701, 5800, 5899, 5998, 6096,
   6195, 6294, 6393, 6491, 6590, 6688, 6786, 6885, 6983, 7081, 7179, 7277, 7375, 7473, 7571,
   7669, 7767, 7864, 7962, 8059, 8157, 8254, 8351, 8448, 8545, 8642, 8739, 8836, 8933, 9030,
   9126, 9223, 9319, 9416, 9512, 9608, 9704, 9800, 9896, 9992, 10087, 10183, 10278, 10374,
   10469, 10564, 10659, 10754, 10849, 10944, 11039, 11133, 11228, 11322, 11417, 11511, 11605,
   11699, 11793, 11886, 11980, 12074, 12167, 12260, 12353, 12446, 12539, 12632, 12725, 12817,
   12910, 13002, 13094, 13187, 13279, 13370, 13462, 13554, 13645, 13736, 13828, 13919, 14010,
   14101, 14191, 14282, 14372, 14462, 14553, 14643, 14732, 14822, 14912, 15001, 15090, 15180,
   15269, 15358, 15446, 15535, 15623, 15712, 15800, 15888, 15976, 16063, 16151, 16238, 16325,
   16413, 16499, 16586, 16673, 16759, 16846, 16932, 17018, 17104, 17189, 17275, 17360, 17445,
   17530, 17615, 17700, 17784, 17869, 17953, 18037, 18121, 18204, 18288, 18371, 18454, 18537,
   18620, 18703, 18785, 18868, 18950, 19032, 19113, 19195, 19276, 19357, 19438, 19519, 19600,
   19680, 19761, 19841, 19921, 20000, 20080, 20159, 20238, 20317, 20396, 20475, 20553, 20631,
   20709, 20787, 20865, 20942, 21019, 21096, 21173, 21250, 21326, 21403, 21479, 21554, 21630,
   21705, 21781, 21856, 21930, 22005, 22079, 22154, 22227, 22301, 22375, 22448, 22521, 22594,
   22667, 22739, 22812, 22884, 22956, 23027, 23099, 23170, 23241, 23311, 23382, 23452, 23522,
   23592, 23662, 23731, 23801, 23870, 23938, 24007, 24075, 24143, 24211, 24279, 24346, 24413,
   24480, 24547, 24613, 24680, 24746, 24811, 24877, 24942, 25007, 25072, 25137, 25201, 25265,
   25329, 25393, 25456, 25519, 25582, 25645, 25708, 25770, 25832, 25893, 25955, 26016, 26077,
   26138, 26198, 26259, 26319, 26378, 26438, 26497, 26556, 26615, 26674, 26732, 26790, 26848,
   26905, 26962, 27019, 27076, 27133, 27189, 27245, 27300, 27356, 27411, 27466, 27521, 27575,
   27629, 27683, 27737, 27790, 27843, 27896, 27949, 28001, 28053, 28105, 28157, 28208, 28259,
   28310, 28360, 28411, 28460, 28510, 28560, 28609, 28658, 28706, 28755, 28803, 28850, 28898,
   28945, 28992, 29039, 29085, 29131, 29177, 29223, 29268, 29313, 29358, 29403, 29447, 29491,
   29534, 29578, 29621, 29664, 29706, 29749, 29791, 29832, 29874, 29915, 29956, 29997, 30037,
   30077, 30117, 30156, 30195, 30234, 30273, 30311, 30349, 30387, 30424, 30462, 30498, 30535,
   30571, 30607, 30643, 30679, 30714, 30749, 30783, 30818, 30852, 30885, 30919, 30952, 30985,
   31017, 31050, 31082, 31113, 31145, 31176, 31206, 31237, 31267, 31297, 31327, 31356, 31385,
   31414, 31442, 31470, 31498, 31526, 31553, 31580, 31607, 31633, 31659, 31685, 31710, 31736,
   31760, 31785, 31809, 31833, 31857, 31880, 31903, 31926, 31949, 31971, 31993, 32014, 32036,
   32057, 32077, 32098, 32118, 32137, 32157, 32176, 32195, 32213, 32232, 32250, 32267, 32285,
   32302, 32318, 32335, 32351, 32367, 32382, 32397, 32412, 32427, 32441, 32455, 32469, 32482,
   32495, 32508, 32521, 32533, 32545, 32556, 32567, 32578, 32589, 32599, 32609, 32619, 32628,
   32637, 32646, 32655, 32663, 32671, 32678, 32685, 32692, 32699, 32705, 32711, 32717, 32722,
   32728, 32732, 32737, 32741, 32745, 32748, 32752, 32755, 32757, 32759, 32761, 32763, 32765,
   32766, 32766, 32767, 32767]

def kRopeStepTurnsQ32 : List ℤ :=
  [683565276, 512601642, 384397003, 288257087, 216162320, 162098872, 121557005, 91154895,
   68356528, 51260164, 38439700, 28825709, 21616232, 16209887, 12155701, 9115489, 6835653,
   5126016, 3843970, 2882571, 2161623, 1620989, 1215570, 911549, 683565, 512602, 384397, 288257,
   216162, 162099, 121557, 91155]

/-! ### The functions -/

/-- `l[i]`, where a negative index counts from the end.  `none` is an `IndexError`. -/
def index (l : List ℤ) (i : ℤ) : Option ℤ :=
  if 0 ≤ i then l[i.toNat]? else if 0 ≤ l.length + i then l[(l.length + i).toNat]? else none

/-- `x.bit_length()`. -/
def bitLength (x : ℤ) : ℤ := if x = 0 then 0 else x.natAbs.log2 + 1

/-- `Q15_ONE`. -/
def q15One : ℤ := 32767

/-- `Q15_INV_SQRT2`. -/
def q15InvSqrt2 : ℤ := 23170

/-- `SILU_X_CLAMP`. -/
def siluXClamp : ℤ := 768

abbrev siluLutStepLog2 : ℕ := 2
abbrev ropeQuarterBits : ℕ := 30
abbrev ropeInterpBits : ℕ := 21

/-- `approx_rsqrt_q15`. -/
def approxRsqrtQ15 (x : ℤ) : Option ℤ :=
  if x ≤ 1 then some q15One
  else do
    let msb := bitLength x - 1
    let normQ6 := if 6 ≤ msb then x >>> (msb - 6).toNat else x <<< (6 - msb).toNat
    let normQ6 := min (max normQ6 64) 127
    let value ← index kRsqrtLutQ15 (normQ6 - 64)
    let value := if msb % 2 = 1 then (value * q15InvSqrt2) >>> (15 : ℕ) else value
    let value := value >>> (msb / 2).toNat
    return max value 1

/-- `approx_exp_q15`. -/
def approxExpQ15 (xScaled : ℤ) : Option ℤ :=
  if 0 ≤ xScaled then some q15One
  else if kExpNegLutQ15.length ≤ -xScaled then some 0
  else index kExpNegLutQ15 (-xScaled)

/-- `approx_silu_q8_8`. -/
def approxSiluQ8_8 (xScaled : ℤ) : Option ℤ :=
  if xScaled ≤ -siluXClamp then index kSiluLutQ8_8 0
  else if siluXClamp ≤ xScaled then index kSiluLutQ8_8 (-1)
  else do
    let shifted := xScaled + siluXClamp
    let idx := shifted >>> siluLutStepLog2
    let frac := shifted % 2 ^ siluLutStepLog2
    let y0 ← index kSiluLutQ8_8 idx
    let y1 ← index kSiluLutQ8_8 (idx + 1)
    return y0 + ((y1 - y0) * frac + 2).fdiv 4

/-- `quarter_wave_lookup_q15`. -/
def quarterWaveLookupQ15 (phaseQuarter : ℤ) : Option ℤ :=
  if 2 ^ ropeQuarterBits ≤ phaseQuarter then some q15One
  else do
    let idx := phaseQuarter >>> ropeInterpBits
    let frac := phaseQuarter % 2 ^ ropeInterpBits
    let y0 ← index kQuarterSinLutQ15 idx
    let y1 ← index kQuarterSinLutQ15 (idx + 1)
    return y0 + ((y1 - y0) * frac + 2 ^ (ropeInterpBits - 1)).fdiv (2 ^ ropeInterpBits)

/-- `sin_turns_q15`. -/
def sinTurnsQ15 (phaseTurns : ℤ) : Option ℤ := do
  let quadrant := phaseTurns >>> ropeQuarterBits
  let offset := phaseTurns % 2 ^ ropeQuarterBits
  let reflected := if quadrant % 2 = 1 then 2 ^ ropeQuarterBits - offset else offset
  let mag ← quarterWaveLookupQ15 reflected
  return if quadrant / 2 % 2 = 1 then -mag else mag

/-- `cos_turns_q15`. -/
def cosTurnsQ15 (phaseTurns : ℤ) : Option ℤ := sinTurnsQ15 ((phaseTurns + 2 ^ ropeQuarterBits) % 2 ^ 32)

/-- `approx_rope_sincos_q15`. -/
def approxRopeSincosQ15 (pairIdx pos : ℤ) : Option (ℤ × ℤ) := do
  let turn ← index kRopeStepTurnsQ32 pairIdx
  let phaseTurns := turn * pos % 2 ^ 32
  let cosV ← cosTurnsQ15 phaseTurns
  let sinV ← sinTurnsQ15 phaseTurns
  return (cosV, sinV)

/-! ### The tables of the kernels -/

theorem tables_eq :
  kRsqrtLutQ15 = Kv260.kRsqrtLutQ15 ∧ kExpNegLutQ15 = Kv260.kExpNegLutQ15 ∧
    kSiluLutQ8_8 = Kv260.kSiluLutQ8_8 ∧ kQuarterSinLutQ15 = Kv260.kQuarterSinLutQ15 ∧
    kRopeStepTurnsQ32 = Kv260.kRopeStepTurnsQ32.map Nat.cast
  := by
  decide +kernel

/-- An index within the list. -/
theorem index_natCast {l : List ℤ} {i : ℕ} (h : i < l.length) :
  index l i = some (l.getD i 0)
  := by
  rw [index, if_pos (Int.natCast_nonneg i), Int.toNat_natCast, List.getElem?_eq_getElem h,
    List.getD_eq_getElem _ _ h]

/-- `x.bit_length() - 1` is the position of the highest one. -/
theorem bitLength_sub_one {n : ℕ} (hn : 0 < n) :
  bitLength n - 1 = n.log2
  := by
  rw [bitLength, if_neg (by omega), Int.natAbs_natCast]
  omega

/-! ### The functions of the kernels -/

open FixedWidth Interpolation Registers

theorem approxRsqrtQ15_eq_kernel (n : ℕ) :
  approxRsqrtQ15 n = some (Kv260.approxRsqrtQ15 n)
  := by
  rw [approxRsqrtQ15_eq, approxRsqrtQ15]
  rcases Nat.lt_or_ge n 2 with small | large
  · rw [if_pos (by omega), rsqrtValue, if_pos (by omega)]
    rfl
  · obtain ⟨low, high⟩ := leading_mem large
    have within : (min (max ((64 * n / 2 ^ n.log2 : ℕ) : ℤ) 64) 127 - 64 : ℤ)
        = (64 * n / 2 ^ n.log2 - 64 : ℕ) := by
      omega
    have length := length_kRsqrtLutQ15
    rw [if_neg (by omega), rsqrtValue, if_neg (by omega), rsqrtMantissa_eq_leading large]
    dsimp only
    rw [bitLength_sub_one (by omega), shifted_eq, within, tables_eq.1, index_natCast (by omega)]
    simp only [natCast_mod_two_eq_one, toNat_natCast_div_two]
    rfl

theorem approxExpQ15_eq_kernel {x : ℤ} (h : -2 ^ 31 < x) (h' : x < 2 ^ 31) :
  approxExpQ15 x = some (Kv260.approxExpQ15 x)
  := by
  have length := length_kExpNegLutQ15
  rw [approxExpQ15_eq h h', expNeg, approxExpQ15, tables_eq.2.1, length]
  split
  case isTrue => rfl
  case isFalse negative =>
    split
    case isTrue far =>
      rw [if_pos (by omega)]
    case isFalse near =>
      have dist : -x = (-x).toNat := by omega
      rw [if_neg (by omega), dist, index_natCast (by omega), Int.toNat_natCast]

theorem approxSiluQ8_8_eq_kernel (x : ℤ) :
  approxSiluQ8_8 x = some (Kv260.approxSiluQ8_8 x)
  := by
  obtain ⟨-, -, table, -, -⟩ := tables_eq
  rcases le_or_gt x (-768) with low | low
  · rw [Kv260.approxSiluQ8_8, approxSiluQ8_8, table, siluXClamp, Kv260.siluXClamp, if_pos low,
      if_pos low]
    decide +kernel
  rcases le_or_gt 768 x with high | high
  · rw [Kv260.approxSiluQ8_8, approxSiluQ8_8, table, siluXClamp, Kv260.siluXClamp,
      if_neg (not_le.mpr low), if_neg (not_le.mpr low), if_pos high, if_pos high]
    decide +kernel
  · obtain ⟨n, hn⟩ : ∃ n : ℕ, x + 768 = n := ⟨(x + 768).toNat, by omega⟩
    obtain rfl : x = n - 768 := by omega
    have length := length_kSiluLutQ8_8
    have idx : (n : ℤ) >>> siluLutStepLog2 = (n / 4 : ℕ) := natCast_shiftRight n 2
    rw [approxSiluQ8_8_eq (by omega) (by omega), approxSiluQ8_8, table, siluXClamp,
      if_neg (not_le.mpr low), if_neg (not_le.mpr high)]
    dsimp only
    rw [hn, idx, index_natCast (by omega), ← Nat.cast_succ, index_natCast (by omega),
      interpolate, part, ← Int.fdiv_eq_ediv_of_nonneg _ (Int.natCast_nonneg 4)]
    rfl

theorem quarterWaveLookupQ15_eq_kernel {n : ℕ} (h : n ≤ 2 ^ 30) :
  quarterWaveLookupQ15 n = some (Kv260.quarterWaveLookupQ15 n)
  := by
  obtain ⟨-, -, -, table, -⟩ := tables_eq
  rw [quarterWaveLookupQ15]
  split
  case isTrue full =>
    obtain rfl : n = 2 ^ 30 := by
      rw [ropeQuarterBits] at full
      omega
    decide
  case isFalse within =>
    rw [ropeQuarterBits] at within
    have length := length_kQuarterSinLutQ15
    have idx : (n : ℤ) >>> ropeInterpBits = (n / 2 ^ 21 : ℕ) := natCast_shiftRight n 21
    rw [quarterWaveLookupQ15_eq h, table]
    dsimp only
    rw [idx, index_natCast (by omega), ← Nat.cast_succ, index_natCast (by omega), interpolate,
      part, ← Int.fdiv_eq_ediv_of_nonneg _ (Int.natCast_nonneg (2 ^ 21))]
    rfl

theorem sinTurnsQ15_eq_kernel {n : ℕ} (h : n < 2 ^ 32) :
  sinTurnsQ15 n = some (Kv260.sinTurnsQ15 n)
  := by
  have quadrant : (n : ℤ) >>> ropeQuarterBits = (n / 2 ^ 30 : ℕ) := natCast_shiftRight n 30
  have second_half : (((n / 2 ^ 30 : ℕ) : ℤ) / 2 % 2 = 1) = (n / 2 ^ 31 % 2 = 1) :=
    propext (by omega)
  rw [sinTurnsQ15_eq, sinTurnsQ15, quadrant, ropeQuarterBits, reflectedPhase_eq,
    quarterWaveLookupQ15_eq_kernel (reflectedPhase_le n)]
  simp only [second_half]
  rfl

theorem cosTurnsQ15_eq_kernel (n : ℕ) :
  cosTurnsQ15 n = some (Kv260.cosTurnsQ15 n)
  := by
  have turned : ((n : ℤ) + 2 ^ ropeQuarterBits) % 2 ^ 32
      = ((n + 2 ^ 30) % 2 ^ 32 : ℕ) := by
    rw [ropeQuarterBits]
    omega
  rw [cosTurnsQ15, turned, sinTurnsQ15_eq_kernel (by omega)]
  rfl

theorem approxRopeSincosQ15_eq_kernel {pairIdx : ℕ} (h : pairIdx < 32) (pos : ℕ) :
  approxRopeSincosQ15 pairIdx pos = some (Kv260.approxRopeSincosQ15 pairIdx pos)
  := by
  obtain ⟨-, -, -, -, table⟩ := tables_eq
  have length := length_kRopeStepTurnsQ32
  obtain ⟨entry, -⟩ := kRopeStepTurnsQ32_mem pairIdx h
  have phase : (Kv260.kRopeStepTurnsQ32.getD pairIdx 0 : ℤ) * pos % 2 ^ 32
      = (pos * Kv260.kRopeStepTurnsQ32.getD pairIdx 0 % 2 ^ 32 : ℕ) := by
    rw [mul_comm, Int.natCast_mod, Nat.cast_mul]
    rfl
  rw [approxRopeSincosQ15, table, index_natCast (by omega), entry]
  rw [Option.bind_eq_bind, Option.bind_some]
  dsimp only
  rw [phase, cosTurnsQ15_eq_kernel, sinTurnsQ15_eq_kernel (by omega)]
  rfl

/-- The script returns what the registers hold in the end, and no register and no index loses
anything on the way. -/
def Agrees {α : Type} (script : Option α) (registers : Registers.Traced α) : Prop :=
  ∃ result, script = some result ∧ registers.Exact result

/-- The script has the functions of the kernels. -/
theorem script_agrees :
  (∀ x : ℕ, x < 2 ^ 32 → Agrees (approxRsqrtQ15 x) (FixedWidth.approxRsqrtQ15 x)) ∧
    (∀ x : ℤ, -2 ^ 31 < x → x < 2 ^ 31 →
      Agrees (approxExpQ15 x) (FixedWidth.approxExpQ15 x) ∧
      Agrees (approxSiluQ8_8 x) (FixedWidth.approxSiluQ8_8 x)) ∧
    (∀ phase : ℕ, phase < 2 ^ 32 →
      Agrees (sinTurnsQ15 phase) (FixedWidth.sinTurnsQ15 phase) ∧
      Agrees (cosTurnsQ15 phase) (FixedWidth.cosTurnsQ15 phase)) ∧
    ∀ pairIdx pos : ℕ, pairIdx < 32 → pos < 2 ^ 31 →
      Agrees (approxRopeSincosQ15 pairIdx pos) (FixedWidth.approxRopeSincosQ15 pairIdx pos)
  := by
  refine ⟨?_, ?_, ?_, ?_⟩
  · intro x h
    exact ⟨_, approxRsqrtQ15_eq_kernel x, exact_approxRsqrtQ15 h⟩
  · intro x h h'
    exact ⟨⟨_, approxExpQ15_eq_kernel h h', exact_approxExpQ15 h h'⟩,
      _, approxSiluQ8_8_eq_kernel x, exact_approxSiluQ8_8 h.le h'⟩
  · intro phase h
    exact ⟨⟨_, sinTurnsQ15_eq_kernel h, exact_sinTurnsQ15 h⟩,
      _, cosTurnsQ15_eq_kernel phase, exact_cosTurnsQ15 phase⟩
  · intro pairIdx pos h h'
    exact ⟨_, approxRopeSincosQ15_eq_kernel h pos, exact_approxRopeSincosQ15 h h'⟩

/-- The largest arguments. -/
theorem script_agrees_largest :
  Agrees (approxRsqrtQ15 (2 ^ 32 - 1 : ℕ)) (FixedWidth.approxRsqrtQ15 (2 ^ 32 - 1 : ℕ)) ∧
    Agrees (approxExpQ15 (-2 ^ 31 + 1)) (FixedWidth.approxExpQ15 (-2 ^ 31 + 1)) ∧
    Agrees (cosTurnsQ15 (2 ^ 32 - 1 : ℕ)) (FixedWidth.cosTurnsQ15 (2 ^ 32 - 1 : ℕ)) ∧
    Agrees (approxRopeSincosQ15 (31 : ℕ) (2 ^ 31 - 1 : ℕ))
      (FixedWidth.approxRopeSincosQ15 (31 : ℕ) (2 ^ 31 - 1 : ℕ))
  := by
  obtain ⟨rsqrt, expSilu, turns, rope⟩ := script_agrees
  refine ⟨rsqrt _ (by decide), (expSilu _ (by decide) (by decide)).1, (turns _ (by decide)).2,
    rope _ _ (by decide) (by decide)⟩

end Kv260.ValidateApproximations
