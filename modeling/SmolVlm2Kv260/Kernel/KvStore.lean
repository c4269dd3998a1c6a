import SmolVlm2Kv260.Kernel.MultiHead
import SmolVlm2Kv260.Memory.Cells

/-!
# The KV cache as a keyed store

The cache keeps a pack for each layer, KV head, position and group.  These four numbers are
the key of the pack, and `KvKey.index` is the half word at which it lies.  Seen through the
keys, a launch of `multi_head_attention` is a list of loads and writes; after any number of
launches a half word holds what was written to its key last, and the bank of a head holds
the half words of the head when its attention starts.
-/

set_option autoImplicit false

namespace Kv260

open Blocks Memory

/-! ### Keys -/

/-- The key of a pack. -/
structure KvKey where
  layer : ℕ
  head : ℕ
  pos : ℕ
  group : ℕ
  deriving DecidableEq

namespace KvKey

/-- The keys of the cache. -/
def Valid (κ : KvKey) : Prop :=
  κ.layer < numLayers ∧ κ.head < hKv ∧ κ.pos < maxSeq ∧ κ.group < dHead / grp

/-- The half word of a key. -/
def index (κ : KvKey) : ℕ := cacheIndex κ.layer κ.head κ.pos κ.group

theorem index_eq (κ : KvKey) :
  κ.index = ((κ.layer * 5 + κ.head) * 2048 + κ.pos) * 2 + κ.group
  := by
  simp only [index, cacheIndex, kvCacheHalfIndex, hKv, maxSeq, hwMaxSeq, dHead, grp,
    Nat.reduceDiv]
  omega

theorem index_lt {κ : KvKey} (h : κ.Valid) :
  κ.index < 32 * 5 * 2048 * 2
  := by
  have hvalid : κ.layer < 32 ∧ κ.head < 5 ∧ κ.pos < 2048 ∧ κ.group < 2 := h
  rw [index_eq]
  omega

/-- Different keys have different half words. -/
theorem index_injOn :
  Set.InjOn index {κ | κ.Valid}
  := by
  rintro ⟨l, h, p, g⟩ hκ ⟨l', h', p', g'⟩ hκ' heq
  have hvalid : l < 32 ∧ h < 5 ∧ p < 2048 ∧ g < 2 := hκ
  have hvalid' : l' < 32 ∧ h' < 5 ∧ p' < 2048 ∧ g' < 2 := hκ'
  rw [index_eq, index_eq] at heq
  simp only at heq
  obtain ⟨rfl, rfl, rfl, rfl⟩ : l = l' ∧ h = h' ∧ p = p' ∧ g = g' := by omega
  rfl

end KvKey

/-- The half words of a cache; two of them share a word. -/
def halfWords : Cells (ℕ → AXI256) ℕ (BitVec 128) where
  read := axiRead128Half
  write := axiWrite128Half
  read_write base i value j := axiRead128Half_write base i j value

/-! ### Accesses -/

/-- An access to the cache: a pack is loaded into the bank, or a pack is written to the cache
and the bank. -/
inductive KvAccess where
  | load (key : KvKey)
  | write (key : KvKey) (pack : BitVec 128)

namespace KvAccess

def key : KvAccess → KvKey
  | .load κ => κ
  | .write κ _ => κ

/-- What an access writes to the cache. -/
def write? : KvAccess → Option (KvKey × BitVec 128)
  | .load _ => none
  | .write κ v => some (κ, v)

/-- The write log of a list of accesses. -/
def writes (accesses : List KvAccess) : List (KvKey × BitVec 128) :=
  accesses.filterMap write?

theorem writes_append (as as' : List KvAccess) :
  writes (as ++ as') = writes as ++ writes as'
  := List.filterMap_append

theorem key_of_mem_writes {as : List KvAccess} {w : KvKey × BitVec 128} (h : w ∈ writes as) :
  ∃ a ∈ as, a.key = w.1
  := by
  obtain ⟨a, ha, hw⟩ := List.mem_filterMap.mp h
  use a, ha
  rcases a with κ | ⟨κ, v⟩
  · cases hw
  · cases hw
    rfl

end KvAccess

/-- A write log over keys as one over half words. -/
def byIndex (log : List (KvKey × BitVec 128)) : List (ℕ × BitVec 128) :=
  log.map (Prod.map KvKey.index id)

theorem byIndex_append (log log' : List (KvKey × BitVec 128)) :
  byIndex (log ++ log') = byIndex log ++ byIndex log'
  := List.map_append

namespace KvSide

/-- One access, with the given bank. -/
def access (bank : Fin 2) (s : KvSide) : KvAccess → KvSide
  | .load κ => s.fetch bank (bufIdx κ.pos κ.group) κ.index
  | .write κ v => s.store bank (bufIdx κ.pos κ.group) κ.index v

/-- A write to a key changes the half word of no other key. -/
theorem access_write_cache_of_ne (bank : Fin 2) (s : KvSide) {κ ν : KvKey} (v : BitVec 128)
    (hκ : κ.Valid) (hν : ν.Valid) (hne : ν ≠ κ) :
  axiRead128Half (s.access bank (.write κ v)).cache ν.index = axiRead128Half s.cache ν.index
  := by
  have hindex : ν.index ≠ κ.index := fun h => hne (KvKey.index_injOn hν hκ h)
  apply halfWords.read_write_of_ne _ v hindex

/-- Accesses change the cache by their writes. -/
theorem cache_foldl_access (bank : Fin 2) (s : KvSide) (as : List KvAccess) :
  (as.foldl (access bank) s).cache
    = halfWords.writeAll s.cache (byIndex (KvAccess.writes as))
  := by
  induction as generalizing s with
  | nil => rfl
  | cons a as ih =>
      rw [List.foldl_cons, ih]
      rcases a with κ | ⟨κ, v⟩
      · rfl
      · rfl

/-- After the positions of a head are loaded and written, its bank holds what the cache
holds. -/
theorem prepare_pack_eq_cache (layerId headId : ℕ) (bank : Fin 2) (s : KvSide) (curPos : ℕ)
    (vec : ℕ → List ℤ) (n : ℕ) {p g : ℕ} (hp : p < curPos + n) (hg : g < 2) :
  (s.prepare curPos layerId headId bank vec n).pack bank (bufIdx p g)
    = axiRead128Half (s.prepare curPos layerId headId bank vec n).cache
        (cacheIndex layerId headId p g)
  := by
  rcases Nat.lt_or_ge p curPos with hlt | hge
  · rw [prepare_pack_loaded layerId headId bank s curPos vec n hlt hg, prepare,
      writeTokens_cache, loadHead_cache, cacheIndex_eq, Nat.add_sub_cancel_left,
      bufIdx_div_two p hg, if_neg (by omega)]
  · obtain ⟨t, rfl⟩ := Nat.exists_eq_add_of_le hge
    have ht : t < n := by omega
    rw [prepare_pack_written layerId headId bank s curPos vec n ht hg,
      prepare_cache_written layerId headId bank s curPos vec n ht hg]

end KvSide

/-! ### Launches -/

/-- The arguments of a launch and the contents of its input streams.  The layer and the
positions are within the cache, and the streams have the length the launch reads. -/
structure MhaLaunch where
  layerId : ℕ
  curPos : ℕ
  kvLen : ℕ
  qLen : ℕ
  q : List ℤ
  k : List ℤ
  v : List ℤ
  layerId_lt : layerId < numLayers
  fits : curPos + qLen ≤ maxSeq
  q_length : q.length = hKv * (qLen * gqaRatio) * dHead
  k_length : k.length = hKv * qLen * dHead
  v_length : v.length = hKv * qLen * dHead

namespace MhaLaunch

/-- The `i`-th head of a stream. -/
def headVec (xs : List ℤ) (i : ℕ) : List ℤ :=
  (List.range dHead).map fun d => xs.getD (i * dHead + d) 0

theorem length_headVec (xs : List ℤ) (i : ℕ) :
  (headVec xs i).length = dHead
  := by rw [headVec, List.length_map, List.length_range]

theorem flatMap_headVec {xs : List ℤ} {n : ℕ} (h : xs.length = n * dHead) :
  (List.range n).flatMap (headVec xs) = xs
  := by
  unfold headVec
  rw [map_range_mul n dHead fun i => xs.getD i 0, map_range_getD h]

variable (l : MhaLaunch)

/-- The input streams. -/
def streams : AttnStreams := { qRot := l.q, kRot := l.k, vPass := l.v }

/-- The state after a launch, if its processes terminate. -/
def run (st : KvState) : Option KvState :=
  ((multiHeadAttention .qRot .kRot .vPass .attnO l.curPos l.kvLen l.qLen l.layerId st).run
    l.streams.store).map Prod.fst

/-- The state of a launch after the load and write phases of head `h`. -/
def untilFlash (h : ℕ) (st : KvState) : Option KvState :=
  ((mhaUntilFlash .qRot .kRot .vPass .attnO l.curPos l.kvLen l.qLen l.layerId h st).run
    l.streams.store).map Prod.fst

/-- The loads and writes of head `h` on one side, when the `i`-th head of the stream is
`vec i`. -/
def headAccesses (vec : ℕ → List ℤ) (h : ℕ) : List KvAccess :=
  ((List.range l.curPos).flatMap fun pos =>
    (List.range (dHead / grp)).map fun g => .load ⟨l.layerId, h, pos, g⟩)
  ++ (List.range l.qLen).flatMap fun t =>
    (List.range (dHead / grp)).map fun g =>
      .write ⟨l.layerId, h, l.curPos + t, g⟩ (quantPack (vec (h * l.qLen + t)) g)

/-- The accesses of the first `n` heads. -/
def accesses (vec : ℕ → List ℤ) (n : ℕ) : List KvAccess :=
  (List.range n).flatMap (l.headAccesses vec)

/-- One side after the accesses of the first `n` heads, each with its bank. -/
def sideAfter (vec : ℕ → List ℤ) (s : KvSide) (n : ℕ) : KvSide :=
  (List.range n).foldl (fun s h => (l.headAccesses vec h).foldl (KvSide.access (headBank h)) s) s

theorem accesses_succ (vec : ℕ → List ℤ) (n : ℕ) :
  l.accesses vec (n + 1) = l.accesses vec n ++ l.headAccesses vec n
  := by rw [accesses, List.range_succ, List.flatMap_append, List.flatMap_singleton]; rfl

theorem sideAfter_succ (vec : ℕ → List ℤ) (s : KvSide) (n : ℕ) :
  l.sideAfter vec s (n + 1)
    = (l.headAccesses vec n).foldl (KvSide.access (headBank n)) (l.sideAfter vec s n)
  := by rw [sideAfter, List.range_succ, List.foldl_append]; rfl

/-- The keys of a launch are keys of the cache. -/
theorem valid_of_mem_accesses {vec : ℕ → List ℤ} {n : ℕ} (hn : n ≤ hKv) {a : KvAccess}
    (ha : a ∈ l.accesses vec n) :
  a.key.Valid
  := by
  obtain ⟨h, hh, ha⟩ := List.mem_flatMap.mp ha
  have hlt := Nat.lt_of_lt_of_le (List.mem_range.mp hh) hn
  have hfits := l.fits
  rcases List.mem_append.mp ha with ha | ha
  · obtain ⟨pos, hpos, ha⟩ := List.mem_flatMap.mp ha
    obtain ⟨g, hg, rfl⟩ := List.mem_map.mp ha
    have hp := List.mem_range.mp hpos
    exact ⟨l.layerId_lt, hlt, by change pos < maxSeq; omega, List.mem_range.mp hg⟩
  · obtain ⟨t, ht, ha⟩ := List.mem_flatMap.mp ha
    obtain ⟨g, hg, rfl⟩ := List.mem_map.mp ha
    have hp := List.mem_range.mp ht
    exact ⟨l.layerId_lt, hlt, by change l.curPos + t < maxSeq; omega, List.mem_range.mp hg⟩

/-- The loops of a head make its accesses. -/
theorem prepare_eq_foldl (vec : ℕ → List ℤ) (h : ℕ) (s : KvSide) :
  s.prepare l.curPos l.layerId h (headBank h) (fun t => vec (h * l.qLen + t)) l.qLen
    = (l.headAccesses vec h).foldl (KvSide.access (headBank h)) s
  := by
  rw [headAccesses, List.foldl_append, List.foldl_flatMap, List.foldl_flatMap]
  simp only [List.foldl_map]
  rfl

theorem stateAfterHeads_eq (st : KvState) (kVec vVec : ℕ → List ℤ) (n : ℕ) :
  stateAfterHeads l.curPos l.qLen l.layerId kVec vVec st n
    = ⟨l.sideAfter kVec st.k n, l.sideAfter vVec st.v n⟩
  := by
  induction n with
  | zero => rfl
  | succ n ih =>
      rw [stateAfterHeads, preparedHead, prepare_eq_foldl, prepare_eq_foldl, ih, sideAfter_succ,
        sideAfter_succ]

theorem run_eq (st : KvState) :
  l.run st = some ⟨l.sideAfter (headVec l.k) st.k hKv, l.sideAfter (headVec l.v) st.v hKv⟩
  := by
  have hrun := run_multiHeadAttentionWith l.curPos l.qLen l.layerId flashRow l.kvLen st
    (length_headVec l.k) (length_headVec l.v) (length_headVec l.q) l.streams
    (flatMap_headVec l.k_length).symm (flatMap_headVec l.v_length).symm
    (flatMap_headVec l.q_length).symm
  rw [run, multiHeadAttention, hrun, stateAfterHeads_eq]
  rfl

/-- The first heads of a stream, followed by the others. -/
theorem headVec_split {xs : List ℤ} {n m : ℕ} (h : xs.length = n * dHead) (hm : m ≤ n) :
  ∃ rest, xs = (List.range m).flatMap (headVec xs) ++ rest
  := by
  use (List.range (n - m)).flatMap fun i => headVec xs (m + i)
  rw [← flatMap_range_split _ hm, flatMap_headVec h]

theorem untilFlash_eq {h : ℕ} (hh : h < hKv) (st : KvState) :
  l.untilFlash h st
    = some ⟨l.sideAfter (headVec l.k) st.k (h + 1), l.sideAfter (headVec l.v) st.v (h + 1)⟩
  := by
  obtain ⟨restK, hk⟩ := headVec_split l.k_length (Nat.mul_le_mul_right l.qLen hh)
  obtain ⟨restV, hv⟩ := headVec_split l.v_length (Nat.mul_le_mul_right l.qLen hh)
  obtain ⟨restQ, hq⟩ := headVec_split l.q_length
    (Nat.mul_le_mul_right (l.qLen * gqaRatio) (Nat.le_of_lt hh))
  have hrun := run_mhaUntilFlash l.curPos l.qLen l.layerId l.kvLen st (length_headVec l.k)
    (length_headVec l.v) (length_headVec l.q) h l.streams hk hv hq
  rw [untilFlash, hrun, stateAfterHeads_eq]
  rfl

/-- What a launch does to the cache is what it writes. -/
theorem cache_sideAfter (vec : ℕ → List ℤ) (s : KvSide) (n : ℕ) :
  (l.sideAfter vec s n).cache
    = halfWords.writeAll s.cache (byIndex (KvAccess.writes (l.accesses vec n)))
  := by
  induction n with
  | zero => rfl
  | succ n ih =>
      rw [sideAfter_succ, KvSide.cache_foldl_access, ih, accesses_succ, KvAccess.writes_append,
        byIndex_append, Cells.writeAll_append]

/-- When the attention of head `h` starts, its bank holds what the cache holds. -/
theorem sideAfter_pack (vec : ℕ → List ℤ) (s : KvSide) (h : ℕ) {p g : ℕ}
    (hp : p < l.curPos + l.qLen) (hg : g < 2) :
  (l.sideAfter vec s (h + 1)).pack (headBank h) (bufIdx p g)
    = axiRead128Half (l.sideAfter vec s (h + 1)).cache (KvKey.index ⟨l.layerId, h, p, g⟩)
  := by
  rw [sideAfter_succ, ← prepare_eq_foldl]
  apply KvSide.prepare_pack_eq_cache _ _ _ _ _ _ _ hp hg

end MhaLaunch

/-! ### Sequences of launches -/

/-- The state after launches, if they all terminate. -/
def runLaunches (ls : List MhaLaunch) (st : KvState) : Option KvState :=
  ls.foldlM (fun st l => l.run st) st

/-- What launches write on one side, where `side l` is the stream of launch `l`. -/
def launchLog (side : MhaLaunch → List ℤ) (ls : List MhaLaunch) : List (KvKey × BitVec 128) :=
  ls.flatMap fun l => KvAccess.writes (l.accesses (MhaLaunch.headVec (side l)) hKv)

/-- What launches write, and then launch `l` up to the attention of head `h`. -/
def logUntilFlash (side : MhaLaunch → List ℤ) (ls : List MhaLaunch) (l : MhaLaunch) (h : ℕ) :
    List (KvKey × BitVec 128) :=
  launchLog side ls ++ KvAccess.writes (l.accesses (MhaLaunch.headVec (side l)) (h + 1))

/-- One side after launches. -/
def sideAfterLaunches (side : MhaLaunch → List ℤ) (ls : List MhaLaunch) (s : KvSide) : KvSide :=
  ls.foldl (fun s l => l.sideAfter (MhaLaunch.headVec (side l)) s hKv) s

theorem runLaunches_eq (ls : List MhaLaunch) (st : KvState) :
  runLaunches ls st
    = some ⟨sideAfterLaunches MhaLaunch.k ls st.k, sideAfterLaunches MhaLaunch.v ls st.v⟩
  := by
  induction ls generalizing st with
  | nil => rfl
  | cons l ls ih =>
      have hrun : runLaunches (l :: ls) st = l.run st >>= runLaunches ls := rfl
      rw [hrun, l.run_eq]
      apply ih

theorem cache_sideAfterLaunches (side : MhaLaunch → List ℤ) (ls : List MhaLaunch) (s : KvSide) :
  (sideAfterLaunches side ls s).cache
    = halfWords.writeAll s.cache (byIndex (launchLog side ls))
  := by
  induction ls generalizing s with
  | nil => rfl
  | cons l ls ih =>
      have hlog : launchLog side (l :: ls)
          = KvAccess.writes (l.accesses (MhaLaunch.headVec (side l)) hKv) ++ launchLog side ls :=
        rfl
      have hside : sideAfterLaunches side (l :: ls) s
          = sideAfterLaunches side ls (l.sideAfter (MhaLaunch.headVec (side l)) s hKv) := rfl
      rw [hside, ih, l.cache_sideAfter, hlog, byIndex_append, Cells.writeAll_append]

theorem valid_of_mem_logUntilFlash (side : MhaLaunch → List ℤ) (ls : List MhaLaunch)
    (l : MhaLaunch) {h : ℕ} (hh : h < hKv) {w : KvKey × BitVec 128}
    (hw : w ∈ logUntilFlash side ls l h) :
  w.1.Valid
  := by
  rcases List.mem_append.mp hw with hw | hw
  · obtain ⟨l', -, hw⟩ := List.mem_flatMap.mp hw
    obtain ⟨a, ha, hkey⟩ := KvAccess.key_of_mem_writes hw
    rw [← hkey]
    apply l'.valid_of_mem_accesses (Nat.le_refl _) ha
  · obtain ⟨a, ha, hkey⟩ := KvAccess.key_of_mem_writes hw
    rw [← hkey]
    apply l.valid_of_mem_accesses hh ha

/-- On either side, the bank of a head holds what was last written to the keys of the head
when the attention of the head starts. -/
theorem pack_eq_latest (side : MhaLaunch → List ℤ) (ls : List MhaLaunch) (l : MhaLaunch)
    {h : ℕ} (hh : h < hKv) (s : KvSide) {p g : ℕ} (hp : p < l.curPos + l.qLen) (hg : g < 2) :
  (l.sideAfter (MhaLaunch.headVec (side l)) (sideAfterLaunches side ls s) (h + 1)).pack
      (headBank h) (bufIdx p g)
    = (latest (logUntilFlash side ls l h) ⟨l.layerId, h, p, g⟩).getD
        (axiRead128Half s.cache (KvKey.index ⟨l.layerId, h, p, g⟩))
  := by
  have hkey : KvKey.Valid ⟨l.layerId, h, p, g⟩ :=
    ⟨l.layerId_lt, hh, Nat.lt_of_lt_of_le hp l.fits, hg⟩
  have hlog := latest_map KvKey.index_injOn
    (fun w hw => valid_of_mem_logUntilFlash side ls l hh (w := w) hw) hkey
  rw [l.sideAfter_pack _ _ h hp hg, l.cache_sideAfter, cache_sideAfterLaunches,
    ← Cells.writeAll_append, ← byIndex_append, ← hlog]
  apply halfWords.read_writeAll

/-- The cache is a keyed store.  After any launches, and the load and write phases of a head
`h` of a further launch, the bank of the head holds for each position and group the pack most
recently written to its key, or what the cache held at first if none was; the state is the one
before the launch after the accesses of the launch, which stay within the cache; and no write
to a key changes the half word of another one. -/
theorem multiHeadAttention_keyedStore (st : KvState) (ls : List MhaLaunch) (l : MhaLaunch)
    {h : ℕ} (hh : h < hKv) :
  ∃ before prepared, runLaunches ls st = some before
    ∧ l.untilFlash h before = some prepared
    ∧ (∀ p < l.curPos + l.qLen, ∀ g < 2,
        (prepared.kvBuf (headBank h)).kPack (bufIdx p g)
          = (latest (logUntilFlash MhaLaunch.k ls l h) ⟨l.layerId, h, p, g⟩).getD
              (axiRead128Half st.k.cache (KvKey.index ⟨l.layerId, h, p, g⟩))
        ∧ (prepared.kvBuf (headBank h)).vPack (bufIdx p g)
          = (latest (logUntilFlash MhaLaunch.v ls l h) ⟨l.layerId, h, p, g⟩).getD
              (axiRead128Half st.v.cache (KvKey.index ⟨l.layerId, h, p, g⟩)))
    ∧ prepared = ⟨l.sideAfter (MhaLaunch.headVec l.k) before.k (h + 1),
        l.sideAfter (MhaLaunch.headVec l.v) before.v (h + 1)⟩
    ∧ (∀ xs, ∀ a ∈ l.accesses (MhaLaunch.headVec xs) (h + 1),
        a.key.Valid ∧ a.key.index < 32 * 5 * 2048 * 2)
    ∧ ∀ (s : KvSide) (bank : Fin 2) (κ ν : KvKey) (pack : BitVec 128), κ.Valid → ν.Valid →
        ν ≠ κ → axiRead128Half (s.access bank (.write κ pack)).cache ν.index
          = axiRead128Half s.cache ν.index
  := by
  refine ⟨_, _, runLaunches_eq ls st, l.untilFlash_eq hh _, ?_, rfl, ?_, ?_⟩
  · intro p hp g hg
    constructor
    · apply pack_eq_latest MhaLaunch.k ls l hh st.k hp hg
    · apply pack_eq_latest MhaLaunch.v ls l hh st.v hp hg
  · intro xs a ha
    have hvalid := l.valid_of_mem_accesses hh ha
    exact ⟨hvalid, KvKey.index_lt hvalid⟩
  · intro s bank κ ν pack hκ hν hne
    apply KvSide.access_write_cache_of_ne bank s pack hκ hν hne

/-- A launch of one token in layer 3 whose streams hold zeros. -/
def zeroLaunch (curPos : ℕ) (h : curPos + 1 ≤ maxSeq) : MhaLaunch where
  layerId := 3
  curPos := curPos
  kvLen := curPos + 1
  qLen := 1
  q := List.replicate (hKv * (1 * gqaRatio) * dHead) 0
  k := List.replicate (hKv * 1 * dHead) 0
  v := List.replicate (hKv * 1 * dHead) 0
  layerId_lt := by decide
  fits := h
  q_length := List.length_replicate
  k_length := List.length_replicate
  v_length := List.length_replicate

/-- The second token of a layer finds the keys of the first one in the bank. -/
theorem multiHeadAttention_keyedStore_secondToken :
  ∃ before prepared, runLaunches [zeroLaunch 0 (by decide)] KvState.init = some before
    ∧ (zeroLaunch 1 (by decide)).untilFlash 0 before = some prepared
    ∧ (prepared.kvBuf 0).kPack (bufIdx 0 1)
      = quantPack (MhaLaunch.headVec (List.replicate (hKv * 1 * dHead) 0) 0) 1
  := by
  obtain ⟨before, prepared, hbefore, hprepared, hbank, -⟩ := multiHeadAttention_keyedStore
    KvState.init [zeroLaunch 0 (by decide)] (zeroLaunch 1 (by decide)) (h := 0) (by decide)
  have hkey := (hbank 0 (by decide) 1 (by decide)).1
  exact ⟨before, prepared, hbefore, hprepared, hkey⟩

end Kv260
