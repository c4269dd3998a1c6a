import Mathlib.Algebra.Order.Group.Abs
import Mathlib.Data.Finset.Lattice.Fold
import Mathlib.Data.List.GetD
import Mathlib.Order.Lattice.Nat
import SmolVlm2Kv260.Kernel.MultiHead
import SmolVlm2Kv260.Kernel.QuantSound

/-!
# Reading back a quantised head

`kv_cache_write` divides a group by its scale and stores nibbles; the scale is not stored.
`flash_attention_head` reads a nibble as its value less 8, whatever the scale was.  So the
two agree only as long as the scale is one, and a value is read back within a step of its
group exactly when all values are so small.
-/

set_option autoImplicit false

namespace Kv260

open Proc

/-! ### Steps -/

/-- The largest absolute value in the group of dimension `d`. -/
def groupAbsmax (vec : List ℤ) (d : ℕ) : ℕ :=
  (Finset.range grp).sup fun i => (vec.getD (d / grp * grp + i) 0).natAbs

/-- The quantisation step of the group of dimension `d`: an eighth of its largest absolute
value, rounded up, and at least one. -/
def quantStep (vec : List ℤ) (d : ℕ) : ℕ := max 1 ((groupAbsmax vec d + 7) / 8)

/-- Every dimension of a head is read back within a step of its group. -/
def ReadsBack (pack : ℕ → BitVec 128) (pos : ℕ) (vec : List ℤ) : Prop :=
  ∀ d < dHead, |dequantNibble pack pos d - vec.getD d 0| ≤ quantStep vec d

/-- The values whose scale is one and that four bits hold up to a step. -/
def WithinNibble (vec : List ℤ) : Prop :=
  ∀ x ∈ vec, -10 ≤ x ∧ x ≤ 9

theorem natAbs_le_groupAbsmax (vec : List ℤ) (d : ℕ) :
  (vec.getD d 0).natAbs ≤ groupAbsmax vec d
  := by
  have hmem : d % grp ∈ Finset.range grp := Finset.mem_range.mpr (Nat.mod_lt d (by decide))
  have hle := Finset.le_sup (f := fun i => (vec.getD (d / grp * grp + i) 0).natAbs) hmem
  simp only [Nat.div_add_mod'] at hle
  apply hle

/-- The largest absolute value of a group is that of one of its dimensions. -/
theorem exists_natAbs_eq_groupAbsmax (vec : List ℤ) {d : ℕ} (hd : d < dHead) :
  ∃ e < dHead, e / grp = d / grp ∧ (vec.getD e 0).natAbs = groupAbsmax vec d
  := by
  obtain ⟨i, hi, heq⟩ := Finset.exists_mem_eq_sup (Finset.range grp)
    (Finset.nonempty_range_iff.mpr (by decide))
    fun i => (vec.getD (d / grp * grp + i) 0).natAbs
  have hlt : i < 32 := Finset.mem_range.mp hi
  have hd' : d < 64 := hd
  use d / grp * grp + i
  refine ⟨?_, ?_, heq.symm⟩
  · change d / 32 * 32 + i < 64
    omega
  · change (d / 32 * 32 + i) / 32 = d / 32
    omega

/-! ### Nibbles -/

/-- The value of a nibble, before it is offset. -/
theorem quantNibble_toNat (sc x : ℤ) :
  ((quantNibble sc x).toNat : ℤ) = max 0 (min 15 (apInt 8 (x.tdiv sc + 8)))
  := by
  unfold quantNibble
  generalize apInt 8 (x.tdiv sc + 8) = q
  simp only [BitVec.toNat_ofInt]
  split
  · omega
  · split
    · omega
    · omega

/-- What the reader makes of a stored value. -/
def readBack (sc x : ℤ) : ℤ := max 0 (min 15 (apInt 8 (x.tdiv sc + 8))) - 8

theorem readBack_mem (sc x : ℤ) :
  -8 ≤ readBack sc x ∧ readBack sc x ≤ 7
  := by
  unfold readBack
  omega

/-- With scale one, a small value is cut to four bits. -/
theorem readBack_one {x : ℤ} (h : -10 ≤ x) (h' : x ≤ 9) :
  readBack 1 x = max (-8) (min 7 x)
  := by
  have hfits : apInt 8 (x + 8) = x + 8 := apInt_of_mem (by decide) (by omega) (by omega)
  rw [readBack, Int.tdiv_one, hfits]
  omega

/-- The reader finds the nibbles of a quantised head. -/
theorem dequantNibble_quantPack {pack : ℕ → BitVec 128} {pos : ℕ} {vec : List ℤ}
    (hpack : ∀ g < dHead / grp, pack (bufIdx pos g) = quantPack vec g) {d : ℕ} (hd : d < dHead) :
  dequantNibble pack pos d
    = readBack (groupScale ((vec.drop (d / grp * grp)).take grp)) (vec.getD d 0)
  := by
  have hmod : d % grp < grp := Nat.mod_lt d (by decide)
  have hget : ((vec.drop (d / grp * grp)).take grp).getD (d % grp) 0 = vec.getD d 0 := by
    rw [List.getD_eq_getElem?_getD, List.getD_eq_getElem?_getD, List.getElem?_take_of_lt hmod,
      List.getElem?_drop, Nat.div_add_mod']
  have hnibble : (pack (bufIdx pos (d / grp))).extractLsb' (d % grp * 4) 4
      = quantNibble (groupScale ((vec.drop (d / grp * grp)).take grp)) (vec.getD d 0) := by
    rw [hpack _ (Nat.div_lt_of_lt_mul hd), quantPack, extractLsb'_packLanes _ (by decide) hmod,
      hget]
  have hrange := readBack_mem (groupScale ((vec.drop (d / grp * grp)).take grp)) (vec.getD d 0)
  unfold readBack at hrange ⊢
  rw [dequantNibble, hnibble, quantNibble_toNat, apInt_of_mem (w := 5) (by decide) (by omega)
    (by omega), apInt_of_mem (by decide) (by omega) (by omega)]

/-! ### Scales -/

/-- The scale of a group of small values is one. -/
theorem groupScale_eq_one {vals : List ℤ} (h : WithinNibble vals) :
  groupScale vals = 1
  := by
  have habs : ∀ x ∈ vals, absI32 x ≤ 10 := by
    intro x hx
    obtain ⟨hlow, hhigh⟩ := h x hx
    have hx : |x| ≤ 10 := by
      apply abs_le.mpr
      omega
    rw [absI32_eq (by omega)]
    apply hx
  have hlow := absmax_nonneg vals
  have hhigh := (absmax_le_iff (by decide)).mpr habs
  have hshift : absmax vals >>> (3 : ℕ) = 0 ∨ absmax vals >>> (3 : ℕ) = 1 := by
    rw [Int.shiftRight_eq_div_pow]
    omega
  unfold groupScale
  rcases hshift with hsc | hsc
  · rw [hsc]
    rfl
  · rw [hsc]
    rfl

/-! ### The round trip -/

/-- Small values are read back within a step. -/
theorem readsBack_of_withinNibble {pack : ℕ → BitVec 128} {pos : ℕ} {vec : List ℤ}
    (hlen : vec.length = dHead)
    (hpack : ∀ g < dHead / grp, pack (bufIdx pos g) = quantPack vec g) (h : WithinNibble vec) :
  ReadsBack pack pos vec
  := by
  intro d hd
  have hscale : groupScale ((vec.drop (d / grp * grp)).take grp) = 1 :=
    groupScale_eq_one fun x hx => h x (List.mem_of_mem_drop (List.mem_of_mem_take hx))
  have hmem : vec.getD d 0 ∈ vec := by
    rw [List.getD_eq_getElem _ _ (hlen.symm ▸ hd)]
    apply List.getElem_mem
  obtain ⟨hlow, hhigh⟩ := h _ hmem
  have hmax := natAbs_le_groupAbsmax vec d
  rw [dequantNibble_quantPack hpack hd, hscale, readBack_one hlow hhigh, abs_le, quantStep]
  omega

/-- A head with a larger value is not: the value of the largest absolute value in its group is
off by more than a step. -/
theorem withinNibble_of_readsBack {pack : ℕ → BitVec 128} {pos : ℕ} {vec : List ℤ}
    (hlen : vec.length = dHead)
    (hpack : ∀ g < dHead / grp, pack (bufIdx pos g) = quantPack vec g)
    (h : ReadsBack pack pos vec) :
  WithinNibble vec
  := by
  intro x hx
  obtain ⟨d, hd, hget⟩ := List.getElem_of_mem hx
  have hd' : d < dHead := by rwa [← hlen]
  have hxd : vec.getD d 0 = x := by rw [List.getD_eq_getElem _ _ hd, hget]
  have hmax := natAbs_le_groupAbsmax vec d
  obtain ⟨e, he, hgroup, hattained⟩ := exists_natAbs_eq_groupAbsmax vec hd'
  have hsame : quantStep vec e = quantStep vec d := by
    rw [quantStep, groupAbsmax, hgroup]
    rfl
  have herrD := h d hd'
  have herrE := h e he
  rw [dequantNibble_quantPack hpack hd', abs_le, quantStep] at herrD
  rw [dequantNibble_quantPack hpack he, hsame, abs_le, quantStep] at herrE
  have hreadD := readBack_mem (groupScale ((vec.drop (d / grp * grp)).take grp)) (vec.getD d 0)
  have hreadE := readBack_mem (groupScale ((vec.drop (e / grp * grp)).take grp)) (vec.getD e 0)
  rw [hxd] at hmax herrD hreadD
  omega

theorem readsBack_iff {pack : ℕ → BitVec 128} {pos : ℕ} {vec : List ℤ}
    (hlen : vec.length = dHead)
    (hpack : ∀ g < dHead / grp, pack (bufIdx pos g) = quantPack vec g) :
  ReadsBack pack pos vec ↔ WithinNibble vec
  := ⟨withinNibble_of_readsBack hlen hpack, readsBack_of_withinNibble hlen hpack⟩

/-- A written position holds the quantised head of its token. -/
theorem KvSide.writeTokens_pack_written (layerId headId : ℕ) (bank : Fin 2) (s : KvSide)
    (curPos : ℕ) (vec : ℕ → List ℤ) {n t g : ℕ} (ht : t < n) (hg : g < dHead / grp) :
  (s.writeTokens layerId headId bank curPos vec n).pack bank (bufIdx (curPos + t) g)
    = quantPack (vec t) g
  := by
  have hg' : g < 2 := hg
  rw [writeTokens_pack, bufIdx_div_two _ hg', bufIdx_mod_two _ hg', if_pos (by omega),
    Nat.add_sub_cancel_left]

/-- After `kv_cache_write`, a key or a value is read back within a step in each of its
dimensions exactly when all of them lie between -10 and 9. -/
theorem kvCacheWrite_readsBack_iff {ι : Type} [DecidableEq ι] {kS vS : ι} (hne : kS ≠ vS)
    (curPos nTokens layerId headId : ℕ) (bank : Fin 2) (st : KvState) {kVec vVec : ℕ → List ℤ}
    (hk : ∀ t, (kVec t).length = dHead) (hv : ∀ t, (vVec t).length = dHead)
    {σ : Store ι ℤ} {restK restV : List ℤ}
    (hkS : σ kS = (List.range nTokens).flatMap kVec ++ restK)
    (hvS : σ vS = (List.range nTokens).flatMap vVec ++ restV) :
  ∃ st' σ', (kvCacheWrite kS vS curPos nTokens layerId headId bank st).run σ = some (st', σ')
    ∧ ∀ t < nTokens,
      (ReadsBack (st'.kvBuf bank).kPack (curPos + t) (kVec t) ↔ WithinNibble (kVec t))
      ∧ (ReadsBack (st'.kvBuf bank).vPack (curPos + t) (vVec t) ↔ WithinNibble (vVec t))
  := by
  refine ⟨_, _, run_kvCacheWrite hne curPos nTokens layerId headId bank st hk hv hkS hvS, ?_⟩
  intro t ht
  constructor
  · apply readsBack_iff (hk t)
    intro g hg
    apply st.k.writeTokens_pack_written layerId headId bank curPos kVec ht hg
  · apply readsBack_iff (hv t)
    intro g hg
    apply st.v.writeTokens_pack_written layerId headId bank curPos vVec ht hg

/-- One token whose key dimensions are all `x`, and whose value dimensions are zero. -/
def constantToken (x : ℤ) : AttnStreams :=
  { kRot := List.replicate dHead x, vPass := List.replicate dHead 0 }

/-- Its streams hold one head each. -/
theorem constantToken_streams (x : ℤ) :
  (∀ t : ℕ, ((fun _ : ℕ => List.replicate dHead x) t).length = dHead)
    ∧ (∀ t : ℕ, ((fun _ : ℕ => List.replicate dHead (0 : ℤ)) t).length = dHead)
    ∧ (constantToken x).store .kRot
      = (List.range 1).flatMap (fun _ => List.replicate dHead x) ++ []
    ∧ (constantToken x).store .vPass
      = (List.range 1).flatMap (fun _ => List.replicate dHead 0) ++ []
  := ⟨fun _ => List.length_replicate, fun _ => List.length_replicate, rfl, rfl⟩

/-- A key of nines is read back within a step. -/
theorem kvCacheWrite_readsBack_nines :
  ∃ st' σ', (kvCacheWrite .kRot .vPass 5 1 2 3 1 KvState.init).run (constantToken 9).store
      = some (st', σ')
    ∧ ReadsBack (st'.kvBuf 1).kPack 5 (List.replicate dHead 9)
  := by
  obtain ⟨hkLen, hvLen, hk, hv⟩ := constantToken_streams 9
  obtain ⟨st', σ', hrun, hiff⟩ := kvCacheWrite_readsBack_iff
    (show AttnChan.kRot ≠ .vPass by decide) 5 1 2 3 1 KvState.init hkLen hvLen hk hv
  refine ⟨st', σ', hrun, (hiff 0 (by decide)).1.mpr ?_⟩
  intro x hx
  rw [List.eq_of_mem_replicate hx]
  decide

/-- A key of sixty-fours is not: its dimensions come back as 7, and a step is 8. -/
theorem kvCacheWrite_readsBack_fails :
  ∃ st' σ', (kvCacheWrite .kRot .vPass 0 1 0 0 0 KvState.init).run (constantToken 64).store
      = some (st', σ')
    ∧ ¬ ReadsBack (st'.kvBuf 0).kPack 0 (List.replicate dHead 64)
  := by
  obtain ⟨hkLen, hvLen, hk, hv⟩ := constantToken_streams 64
  refine ⟨_, _, run_kvCacheWrite (show AttnChan.kRot ≠ .vPass by decide) 0 1 0 0 0 KvState.init
    hkLen hvLen hk hv, ?_⟩
  intro h
  have hsmall := withinNibble_of_readsBack List.length_replicate (fun g hg =>
    KvState.init.k.writeTokens_pack_written 0 0 0 0 (fun _ => List.replicate dHead 64)
      (n := 1) (t := 0) (by decide) hg) h
  have hmem := hsmall 64 (List.mem_replicate.mpr ⟨by decide, rfl⟩)
  omega

end Kv260
