import SmolVlm2Kv260.Kernel.Quant

/-!
# The KV cache

The part of `attention.h` that keeps keys and values: the cache in DDR, the two banks of
`kv_buf` on the chip, and the functions that quantise a head into both and load a head
from one into the other.  Keys and values are treated alike, so `KvSide` is the state of
either of them and `KvState` holds both.

A bank is addressed by cells: cell `pos * 2 + g` is the group `g` of position `pos`.  The
cells of a head lie one after the other in the cache, from half word `headBase` on.
-/

set_option autoImplicit false

namespace Kv260

open Proc

/-! ### Half words of the cache -/

/-- `axi_read_128_half`. -/
def axiRead128Half (base : ℕ → AXI256) (halfIdx : ℕ) : BitVec 128 :=
  let word := base (halfIdx / 2)
  if halfIdx % 2 = 0 then word.extractLsb' 0 128 else word.extractLsb' 128 128

/-- `axi_write_128_half`. -/
def axiWrite128Half (base : ℕ → AXI256) (halfIdx : ℕ) (value : BitVec 128) : ℕ → AXI256 :=
  let word := base (halfIdx / 2)
  Function.update base (halfIdx / 2)
    (if halfIdx % 2 = 0 then setRange word 0 value else setRange word 128 value)

theorem axiRead128Half_write (base : ℕ → AXI256) (i j : ℕ) (value : BitVec 128) :
  axiRead128Half (axiWrite128Half base i value) j
    = if j = i then value else axiRead128Half base j
  := by
  have hlow : ∀ w : AXI256, (setRange w 0 value).extractLsb' 0 128 = value := fun w =>
    extractLsb'_setRange w value (by decide)
  have hhigh : ∀ w : AXI256, (setRange w 128 value).extractLsb' 128 128 = value := fun w =>
    extractLsb'_setRange w value (by decide)
  have hlow' : ∀ w : AXI256, (setRange w 128 value).extractLsb' 0 128 = w.extractLsb' 0 128 :=
    fun w => extractLsb'_setRange_of_disjoint w value (by decide) (by decide)
  have hhigh' : ∀ w : AXI256,
      (setRange w 0 value).extractLsb' 128 128 = w.extractLsb' 128 128 :=
    fun w => extractLsb'_setRange_of_disjoint w value (by decide) (by decide)
  unfold axiRead128Half axiWrite128Half
  rcases eq_or_ne (j / 2) (i / 2) with heq | hne
  · rw [heq, Function.update_self]
    rcases Nat.mod_two_eq_zero_or_one i with hi | hi <;>
      rcases Nat.mod_two_eq_zero_or_one j with hj | hj
    · have hji : j = i := by omega
      simp only [hi, if_true, hlow, hji]
    · have hji : ¬ j = i := by omega
      simp only [hi, hj, if_true, one_ne_zero, if_false, hhigh', hji]
    · have hji : ¬ j = i := by omega
      simp only [hi, hj, if_true, one_ne_zero, if_false, hlow', hji]
    · have hji : j = i := by omega
      simp only [hi, one_ne_zero, if_false, hhigh, hji, if_true]
  · have hji : ¬ j = i := by
      rintro rfl
      apply hne rfl
    rw [Function.update_of_ne hne, if_neg hji]

/-- The index of a half word within a layer. -/
def kvCacheHalfIndex (headId pos group : ℕ) : ℕ :=
  headId * maxSeq * (dHead / grp) + pos * (dHead / grp) + group

/-- The index of a half word of the cache. -/
def cacheIndex (layerId headId pos group : ℕ) : ℕ :=
  layerId * hKv * maxSeq * (dHead / grp) + kvCacheHalfIndex headId pos group

/-- The index of the first half word of a head. -/
def headBase (layerId headId : ℕ) : ℕ :=
  layerId * hKv * maxSeq * (dHead / grp) + headId * maxSeq * (dHead / grp)

/-- The cell of a bank that holds group `g` of position `pos`. -/
def bufIdx (pos g : ℕ) : ℕ := pos * (dHead / grp) + g

theorem bufIdx_eq (pos g : ℕ) :
  bufIdx pos g = pos * 2 + g
  := rfl

theorem bufIdx_div_two {g : ℕ} (pos : ℕ) (hg : g < 2) :
  bufIdx pos g / 2 = pos
  := by
  rw [bufIdx_eq]
  omega

theorem bufIdx_mod_two {g : ℕ} (pos : ℕ) (hg : g < 2) :
  bufIdx pos g % 2 = g
  := by
  rw [bufIdx_eq]
  omega

theorem range_groups :
  List.range (dHead / grp) = [0, 1]
  := rfl

theorem cacheIndex_eq (layerId headId pos g : ℕ) :
  cacheIndex layerId headId pos g = headBase layerId headId + bufIdx pos g
  := by
  simp only [cacheIndex, kvCacheHalfIndex, headBase, bufIdx]
  omega

/-! ### Quantisation -/

/-- The scale of a group: an eighth of its largest absolute value, in an `INT8`. -/
def groupScale (vals : List ℤ) : ℤ :=
  let sc := apInt 8 (absmax vals >>> (3 : ℕ))
  if sc = 0 then 1 else sc

/-- A value divided by the scale, offset by 8 and cut to four bits. -/
def quantNibble (sc x : ℤ) : BitVec 4 :=
  let q := apInt 8 (x.tdiv sc + 8)
  BitVec.ofInt 4 (if q < 0 then 0 else if q > 15 then 15 else q)

/-- The pack of group `g` of a head. -/
def quantPack (vec : List ℤ) (g : ℕ) : BitVec 128 :=
  let vals := (vec.drop (g * grp)).take grp
  packLanes 128 grp fun i => quantNibble (groupScale vals) (vals.getD i 0)

/-! ### Keys or values -/

/-- The keys, or the values: the packs in the two banks, and the cache. -/
structure KvSide where
  pack : Fin 2 → ℕ → BitVec 128
  cache : ℕ → AXI256

namespace KvSide

/-- Write a pack to a bank and to the cache. -/
def store (bank : Fin 2) (buf half : ℕ) (value : BitVec 128) (s : KvSide) : KvSide where
  pack := Function.update s.pack bank (Function.update (s.pack bank) buf value)
  cache := axiWrite128Half s.cache half value

/-- Copy a pack from the cache to a bank. -/
def fetch (bank : Fin 2) (buf half : ℕ) (s : KvSide) : KvSide where
  pack := Function.update s.pack bank
    (Function.update (s.pack bank) buf (axiRead128Half s.cache half))
  cache := s.cache

theorem store_pack (bank : Fin 2) (buf half : ℕ) (value : BitVec 128) (s : KvSide) (b : Fin 2)
    (c : ℕ) :
  (s.store bank buf half value).pack b c = if b = bank ∧ c = buf then value else s.pack b c
  := by
  rcases eq_or_ne b bank with rfl | hb
  · rcases eq_or_ne c buf with rfl | hc
    · simp only [store, Function.update_self, and_self, if_true]
    · simp only [store, Function.update_self, Function.update_of_ne hc, hc, and_false, if_false]
  · simp only [store, Function.update_of_ne hb, hb, false_and, if_false]

theorem store_cache (bank : Fin 2) (buf half : ℕ) (value : BitVec 128) (s : KvSide) (i : ℕ) :
  axiRead128Half (s.store bank buf half value).cache i
    = if i = half then value else axiRead128Half s.cache i
  := axiRead128Half_write s.cache half i value

theorem fetch_pack (bank : Fin 2) (buf half : ℕ) (s : KvSide) (b : Fin 2) (c : ℕ) :
  (s.fetch bank buf half).pack b c
    = if b = bank ∧ c = buf then axiRead128Half s.cache half else s.pack b c
  := store_pack bank buf half (axiRead128Half s.cache half) s b c

/-- Quantise a head of one token into its cells. -/
def writeToken (layerId headId : ℕ) (bank : Fin 2) (pos : ℕ) (vec : List ℤ) (s : KvSide) :
    KvSide :=
  (List.range (dHead / grp)).foldl (fun s g =>
    s.store bank (bufIdx pos g) (cacheIndex layerId headId pos g) (quantPack vec g)) s

/-- Quantise the heads `vec 0, …, vec (n - 1)` of `n` tokens from `curPos` on. -/
def writeTokens (layerId headId : ℕ) (bank : Fin 2) (curPos : ℕ) (vec : ℕ → List ℤ) (n : ℕ)
    (s : KvSide) : KvSide :=
  (List.range n).foldl (fun s t => s.writeToken layerId headId bank (curPos + t) (vec t)) s

/-- Load the first `kvLen` positions of a head. -/
def loadHead (kvLen layerId headId : ℕ) (bank : Fin 2) (s : KvSide) : KvSide :=
  (List.range kvLen).foldl (fun s pos =>
    (List.range (dHead / grp)).foldl (fun s g =>
      s.fetch bank (bufIdx pos g) (cacheIndex layerId headId pos g)) s) s

/-- Two writes to the two cells of a token. -/
theorem ite_token_cells {α : Type} (x : ℕ → α) (y : α) (pos c : ℕ) :
  (if c = pos * 2 + 1 then x 1 else if c = pos * 2 then x 0 else y)
    = if c / 2 = pos then x (c % 2) else y
  := by
  rcases eq_or_ne (c / 2) pos with hc | hc
  · rcases Nat.mod_two_eq_zero_or_one c with h | h
    · rw [if_neg (by omega), if_pos (by omega), if_pos hc, h]
    · rw [if_pos (by omega), if_pos hc, h]
  · rw [if_neg (by omega), if_neg (by omega), if_neg hc]

variable (layerId headId : ℕ) (bank : Fin 2) (s : KvSide)

/-! ### Writing -/

/-- A token has two cells, one for each group. -/
theorem writeToken_eq (pos : ℕ) (vec : List ℤ) :
  s.writeToken layerId headId bank pos vec
    = (s.store bank (pos * 2) (headBase layerId headId + pos * 2) (quantPack vec 0)).store bank
        (pos * 2 + 1) (headBase layerId headId + (pos * 2 + 1)) (quantPack vec 1)
  := by
  simp only [writeToken, range_groups, List.foldl_cons,
    List.foldl_nil, cacheIndex_eq]
  rfl

/-- The cells of a token are those of its quantised head; the others are as before. -/
theorem writeToken_pack (pos : ℕ) (vec : List ℤ) (b : Fin 2) (c : ℕ) :
  (s.writeToken layerId headId bank pos vec).pack b c
    = if b = bank ∧ c / 2 = pos then quantPack vec (c % 2) else s.pack b c
  := by
  rw [writeToken_eq, store_pack, store_pack]
  rcases eq_or_ne b bank with hb | hb
  · simp only [hb, true_and]
    apply ite_token_cells (quantPack vec)
  · simp only [hb, false_and, if_false]

theorem writeToken_cache (pos : ℕ) (vec : List ℤ) (i : ℕ) :
  axiRead128Half (s.writeToken layerId headId bank pos vec).cache i
    = if headBase layerId headId ≤ i ∧ (i - headBase layerId headId) / 2 = pos
      then quantPack vec ((i - headBase layerId headId) % 2) else axiRead128Half s.cache i
  := by
  rw [writeToken_eq, store_cache, store_cache]
  generalize headBase layerId headId = base
  rcases Nat.lt_or_ge i base with hi | hi
  · rw [if_neg (by omega), if_neg (by omega), if_neg (by omega)]
  obtain ⟨c, rfl⟩ := Nat.exists_eq_add_of_le hi
  simp only [Nat.add_sub_cancel_left, Nat.add_left_cancel_iff, Nat.le_add_right, true_and]
  apply ite_token_cells (quantPack vec)

theorem writeTokens_succ (curPos : ℕ) (vec : ℕ → List ℤ) (n : ℕ) :
  s.writeTokens layerId headId bank curPos vec (n + 1)
    = (s.writeTokens layerId headId bank curPos vec n).writeToken layerId headId bank
        (curPos + n) (vec n)
  := by
  rw [writeTokens, List.range_succ, List.foldl_append]
  rfl

/-- One more position is written after the positions from `curPos` to `curPos + n - 1`. -/
theorem ite_position_succ {α : Type} (p : Prop) [Decidable p] (curPos n c : ℕ) (f : ℕ → α)
    (old : α) :
  (if p ∧ c = curPos + n then f n
    else if p ∧ curPos ≤ c ∧ c < curPos + n then f (c - curPos) else old)
    = if p ∧ curPos ≤ c ∧ c < curPos + (n + 1) then f (c - curPos) else old
  := by
  rcases Nat.lt_trichotomy c (curPos + n) with hlt | rfl | hgt
  · rw [if_neg (by omega)]
    simp only [hlt, Nat.lt_succ_of_lt hlt, ← Nat.add_assoc]
  · rw [Nat.add_sub_cancel_left]
    simp only [and_true, Nat.le_add_right, Nat.lt_irrefl, and_false, if_false,
      ← Nat.add_assoc, Nat.lt_succ_self]
  · rw [if_neg (by omega), if_neg (by omega), if_neg (by omega)]

/-- The cells of the positions `curPos, …, curPos + n - 1` are those of the quantised heads;
the others are as before. -/
theorem writeTokens_pack (curPos : ℕ) (vec : ℕ → List ℤ) (n : ℕ) (b : Fin 2) (c : ℕ) :
  (s.writeTokens layerId headId bank curPos vec n).pack b c
    = if b = bank ∧ curPos ≤ c / 2 ∧ c / 2 < curPos + n
      then quantPack (vec (c / 2 - curPos)) (c % 2) else s.pack b c
  := by
  induction n with
  | zero =>
      rw [if_neg (by omega)]
      rfl
  | succ n ih =>
      rw [writeTokens_succ, writeToken_pack, ih]
      apply ite_position_succ (b = bank) curPos n (c / 2) fun t => quantPack (vec t) (c % 2)

theorem writeTokens_cache (curPos : ℕ) (vec : ℕ → List ℤ) (n : ℕ) (i : ℕ) :
  axiRead128Half (s.writeTokens layerId headId bank curPos vec n).cache i
    = if headBase layerId headId ≤ i ∧ curPos ≤ (i - headBase layerId headId) / 2
        ∧ (i - headBase layerId headId) / 2 < curPos + n
      then quantPack (vec ((i - headBase layerId headId) / 2 - curPos))
        ((i - headBase layerId headId) % 2)
      else axiRead128Half s.cache i
  := by
  induction n with
  | zero =>
      rw [if_neg (by omega)]
      rfl
  | succ n ih =>
      rw [writeTokens_succ, writeToken_cache, ih]
      apply ite_position_succ (headBase layerId headId ≤ i) curPos n
        ((i - headBase layerId headId) / 2)
        fun t => quantPack (vec t) ((i - headBase layerId headId) % 2)

/-! ### Loading -/

theorem loadHead_succ (kvLen : ℕ) :
  s.loadHead (kvLen + 1) layerId headId bank
    = ((s.loadHead kvLen layerId headId bank).fetch bank (kvLen * 2)
        (headBase layerId headId + kvLen * 2)).fetch bank (kvLen * 2 + 1)
        (headBase layerId headId + (kvLen * 2 + 1))
  := by
  simp only [loadHead, List.range_succ (n := kvLen), List.foldl_append, List.foldl_cons,
    List.foldl_nil, range_groups, cacheIndex_eq]
  rfl

theorem loadHead_cache (kvLen : ℕ) :
  (s.loadHead kvLen layerId headId bank).cache = s.cache
  := by
  induction kvLen with
  | zero => rfl
  | succ kvLen ih =>
      rw [loadHead_succ]
      apply ih

/-- The cells of the loaded positions are those of the cache; the others are as before. -/
theorem loadHead_pack (kvLen : ℕ) (b : Fin 2) (c : ℕ) :
  (s.loadHead kvLen layerId headId bank).pack b c
    = if b = bank ∧ c / 2 < kvLen then axiRead128Half s.cache (headBase layerId headId + c)
      else s.pack b c
  := by
  induction kvLen with
  | zero =>
      rw [if_neg (by omega)]
      rfl
  | succ kvLen ih =>
      have hcache := loadHead_cache layerId headId bank s kvLen
      rw [loadHead_succ, fetch_pack, fetch_pack, ih]
      change (if _ then axiRead128Half (s.loadHead kvLen layerId headId bank).cache _ else _) = _
      rw [hcache]
      rcases eq_or_ne b bank with hb | hb
      · rcases Nat.lt_trichotomy (c / 2) kvLen with hlt | heq | hgt
        · rw [if_neg (by omega), if_neg (by omega), if_pos (by omega), if_pos (by omega)]
        · have hlt : b = bank ∧ c / 2 < kvLen + 1 := ⟨hb, by omega⟩
          rw [if_pos hlt]
          rcases Nat.mod_two_eq_zero_or_one c with h | h
          · have hc : kvLen * 2 = c := by omega
            rw [if_neg (by omega), if_pos (by omega), hc]
          · have hc : kvLen * 2 + 1 = c := by omega
            rw [if_pos (by omega), hc]
        · rw [if_neg (by omega), if_neg (by omega), if_neg (by omega), if_neg (by omega)]
      · simp only [hb, false_and, if_false]

/-! ### Loading and then writing -/

/-- Load the positions before `curPos`, and write `n` tokens from there on. -/
def prepare (curPos layerId headId : ℕ) (bank : Fin 2) (vec : ℕ → List ℤ) (n : ℕ)
    (s : KvSide) : KvSide :=
  (s.loadHead curPos layerId headId bank).writeTokens layerId headId bank curPos vec n

variable (curPos : ℕ) (vec : ℕ → List ℤ) (n : ℕ)

/-- A loaded position holds what the cache holds. -/
theorem prepare_pack_loaded {p g : ℕ} (hp : p < curPos) (hg : g < 2) :
  (s.prepare curPos layerId headId bank vec n).pack bank (bufIdx p g)
    = axiRead128Half s.cache (cacheIndex layerId headId p g)
  := by
  rw [prepare, writeTokens_pack, loadHead_pack, cacheIndex_eq, bufIdx_div_two p hg,
    if_neg (by omega), if_pos ⟨rfl, hp⟩]

/-- A written position holds the quantised head of its token. -/
theorem prepare_pack_written {t g : ℕ} (ht : t < n) (hg : g < 2) :
  (s.prepare curPos layerId headId bank vec n).pack bank (bufIdx (curPos + t) g)
    = quantPack (vec t) g
  := by
  rw [prepare, writeTokens_pack, bufIdx_div_two _ hg, bufIdx_mod_two _ hg, if_pos (by omega),
    Nat.add_sub_cancel_left]

/-- A written position is also in the cache. -/
theorem prepare_cache_written {t g : ℕ} (ht : t < n) (hg : g < 2) :
  axiRead128Half (s.prepare curPos layerId headId bank vec n).cache
      (cacheIndex layerId headId (curPos + t) g)
    = quantPack (vec t) g
  := by
  rw [prepare, writeTokens_cache, cacheIndex_eq, Nat.add_sub_cancel_left, bufIdx_div_two _ hg,
    bufIdx_mod_two _ hg, if_pos (by omega), Nat.add_sub_cancel_left]

end KvSide

/-! ### The functions of the source -/

/-- Both sides. -/
structure KvState where
  k : KvSide
  v : KvSide

/-- The packs of one bank of `kv_buf`. -/
structure KVCacheHead where
  kPack : ℕ → BitVec 128
  vPack : ℕ → BitVec 128

/-- `kv_buf[bank]`. -/
def KvState.kvBuf (st : KvState) (bank : Fin 2) : KVCacheHead :=
  ⟨st.k.pack bank, st.v.pack bank⟩

/-- Empty banks and an empty cache. -/
def KvState.init : KvState := ⟨⟨fun _ _ => 0, fun _ => 0⟩, ⟨fun _ _ => 0, fun _ => 0⟩⟩

/-- `kv_cache_load_head`. -/
def kvCacheLoadHead (kvLen layerId headId : ℕ) (bank : Fin 2) (st : KvState) : KvState :=
  ⟨st.k.loadHead kvLen layerId headId bank, st.v.loadHead kvLen layerId headId bank⟩

/-- `kv_cache_write`. -/
def kvCacheWrite {ι : Type} (kS vS : ι) (curPos nTokens layerId headId : ℕ) (bank : Fin 2)
    (st : KvState) : Proc ι ℤ KvState :=
  forLoop nTokens st fun t st => do
    let (kVec, vVec) ← readPairs kS vS dHead
    return ⟨st.k.writeToken layerId headId bank (curPos + t) kVec,
      st.v.writeToken layerId headId bank (curPos + t) vVec⟩

/-- The write takes a head for each token from both streams and quantises them. -/
theorem run_kvCacheWrite {ι : Type} [DecidableEq ι] {kS vS : ι} (hne : kS ≠ vS)
    (curPos nTokens layerId headId : ℕ) (bank : Fin 2) (st : KvState) {kVec vVec : ℕ → List ℤ}
    (hk : ∀ t, (kVec t).length = dHead) (hv : ∀ t, (vVec t).length = dHead)
    {σ : Store ι ℤ} {restK restV : List ℤ}
    (hkS : σ kS = (List.range nTokens).flatMap kVec ++ restK)
    (hvS : σ vS = (List.range nTokens).flatMap vVec ++ restV) :
  (kvCacheWrite kS vS curPos nTokens layerId headId bank st).run σ
    = some (⟨st.k.writeTokens layerId headId bank curPos kVec nTokens,
        st.v.writeTokens layerId headId bank curPos vVec nTokens⟩,
      Function.update (Function.update σ kS restK) vS restV)
  := by
  induction nTokens generalizing restK restV with
  | zero =>
      rw [List.range_zero, List.flatMap_nil, List.nil_append] at hkS hvS
      rw [← hkS, Function.update_eq_self, ← hvS, Function.update_eq_self]
      rfl
  | succ n ih =>
      rw [List.range_succ, List.flatMap_append, List.flatMap_singleton, List.append_assoc]
        at hkS hvS
      have hfirst := ih hkS hvS
      have hkS' : Function.update (Function.update σ kS (kVec n ++ restK)) vS (vVec n ++ restV) kS
          = kVec n ++ restK := by
        rw [Function.update_of_ne hne, Function.update_self]
      have hlast := run_readPairs hne (hk n) (hv n) hkS' (Function.update_self vS _ _)
      rw [kvCacheWrite, forLoop]
      rw [kvCacheWrite] at hfirst
      rw [run_bind_of_run hfirst, run_bind_of_run hlast, Function.update_comm hne,
        Function.update_idem, Function.update_comm hne.symm, Function.update_idem,
        KvSide.writeTokens_succ, KvSide.writeTokens_succ]
      rfl

end Kv260
