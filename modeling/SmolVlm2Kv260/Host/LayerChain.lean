import SmolVlm2Kv260.Host.Runner

/-!
# The layers of a run

Each launch reads the rows of its tile from one activation buffer and writes what its layer
makes of them to another.  The host swaps the buffers on the ports from layer to layer and
the kernel selects a port by `use_ping`, which undoes the swap: every layer reads
`act_ping_`.  So a run computes the composition of its odd layers, not that of all layers.
-/

set_option autoImplicit false

namespace Kv260

open Blocks

/-! ### Launches on the buffers -/

section Launches

variable {Row : Type}

/-- The contents of the activation buffers, row by row. -/
abbrev ActRows (Row : Type) : Type := ActBuffer → ℕ → Row

/-- What the layers compute: a row of the result, from the rows of a tile. -/
abbrev LayerFns (Row : Type) : Type := ℕ → ℕ × ℕ → List Row → ℕ → Row

/-- The rows of a tile. -/
def tileRows (buf : ℕ → Row) (tile : ℕ × ℕ) : List Row :=
  (List.range tile.2).map fun t => buf (tile.1 + t)

/-- The work tokens of a launch. -/
def Launch.workTile (l : Launch) : ℕ × ℕ := (l.workTokenOffset, l.workTokenCount)

/-- A launch replaces the rows of its tile in the buffer on port `act_out` by what its layer
makes of those that `load_act` reads. -/
def Launch.apply (f : LayerFns Row) (m : ActRows Row) (l : Launch) : ActRows Row :=
  Function.update m l.actOut fun r =>
    if l.workTokenOffset ≤ r ∧ r < l.workTokenOffset + l.workTokenCount then
      f l.layerId l.workTile (tileRows (m l.src) l.workTile) (r - l.workTokenOffset)
    else m l.actOut r

/-- What a layer makes of the rows of a tile. -/
def layerRows (f : LayerFns Row) (layer : ℕ) (tile : ℕ × ℕ) (rows : List Row) : List Row :=
  (List.range tile.2).map (f layer tile rows)

/-- The composition of the first layers. -/
def layerChain (f : LayerFns Row) (tile : ℕ × ℕ) (rows : List Row) : ℕ → List Row
  | 0 => rows
  | n + 1 => layerRows f n tile (layerChain f tile rows n)

/-- The composition of the odd ones among the first layers. -/
def oddLayerChain (f : LayerFns Row) (tile : ℕ × ℕ) (rows : List Row) : ℕ → List Row
  | 0 => rows
  | n + 1 =>
      if n % 2 = 0 then oddLayerChain f tile rows n
      else layerRows f n tile (oddLayerChain f tile rows n)

theorem length_layerRows (f : LayerFns Row) (layer : ℕ) (tile : ℕ × ℕ) (rows : List Row) :
  (layerRows f layer tile rows).length = tile.2
  := by
  rw [layerRows, List.length_map, List.length_range]

theorem length_layerChain (f : LayerFns Row) {tile : ℕ × ℕ} {rows : List Row}
    (h : rows.length = tile.2) (n : ℕ) :
  (layerChain f tile rows n).length = tile.2
  := by
  cases n with
  | zero => apply h
  | succ n => apply length_layerRows

theorem length_oddLayerChain (f : LayerFns Row) {tile : ℕ × ℕ} {rows : List Row}
    (h : rows.length = tile.2) (n : ℕ) :
  (oddLayerChain f tile rows n).length = tile.2
  := by
  induction n with
  | zero => apply h
  | succ n ih =>
      rw [oddLayerChain]
      split_ifs
      · apply ih
      · apply length_layerRows

variable (f : LayerFns Row) (m : ActRows Row) (l : Launch)

/-- Only the buffer on port `act_out` changes. -/
theorem apply_of_ne {b : ActBuffer} (hb : b ≠ l.actOut) :
  l.apply f m b = m b
  := Function.update_of_ne hb _ _

/-- The rows of the tile of a launch. -/
theorem tileRows_apply_self :
  tileRows (l.apply f m l.actOut) l.workTile
    = layerRows f l.layerId l.workTile (tileRows (m l.src) l.workTile)
  := by
  apply List.map_congr_left
  intro t ht
  have hlt : t < l.workTokenCount := List.mem_range.mp ht
  have hle : l.workTile.1 ≤ l.workTile.1 + t := Nat.le_add_right _ _
  rw [Launch.apply, Function.update_self, if_pos ⟨hle, Nat.add_lt_add_left hlt _⟩, Launch.workTile,
    Nat.add_sub_cancel_left]

/-- The rows of a tile apart from that of the launch. -/
theorem tileRows_apply_of_disjoint (b : ActBuffer) {tile : ℕ × ℕ}
    (h : tile.1 + tile.2 ≤ l.workTile.1 ∨ l.workTile.1 + l.workTile.2 ≤ tile.1) :
  tileRows (l.apply f m b) tile = tileRows (m b) tile
  := by
  rcases eq_or_ne b l.actOut with rfl | hb
  · apply List.map_congr_left
    intro t ht
    have hlt := List.mem_range.mp ht
    have hout : ¬(l.workTokenOffset ≤ tile.1 + t
        ∧ tile.1 + t < l.workTokenOffset + l.workTokenCount) := by
      change tile.1 + tile.2 ≤ l.workTokenOffset
        ∨ l.workTokenOffset + l.workTokenCount ≤ tile.1 at h
      omega
    rw [Launch.apply, Function.update_self, if_neg hout]
  · rw [apply_of_ne f m l hb]

end Launches

/-! ### A layer -/

section Layer

variable {Row : Type} (f : LayerFns Row) (call : RunnerCall) (offsets : List WeightOffsets)
variable (layer : ℕ)

/-- The buffers after the launches of a layer for some tiles. -/
def applyTiles (tiles : List (ℕ × ℕ)) (m : ActRows Row) : ActRows Row :=
  (tiles.map fun tile => call.launch offsets layer tile).foldl (Launch.apply f) m

theorem applyTiles_cons (tile : ℕ × ℕ) (tiles : List (ℕ × ℕ)) (m : ActRows Row) :
  applyTiles f call offsets layer (tile :: tiles) m
    = applyTiles f call offsets layer tiles ((call.launch offsets layer tile).apply f m)
  := rfl

theorem workTile_launch {tile : ℕ × ℕ} (h : tile ∈ call.tiles) :
  (call.launch offsets layer tile).workTile = tile
  := by
  rw [Launch.workTile, call.workTokenOffset_launch offsets layer h,
    call.workTokenCount_launch offsets layer h]

/-- An even layer leaves `act_ping_` as it is. -/
theorem applyTiles_even (heven : layer % 2 = 0) (tiles : List (ℕ × ℕ)) (m : ActRows Row) :
  applyTiles f call offsets layer tiles m .ping = m .ping
  := by
  induction tiles generalizing m with
  | nil => rfl
  | cons tile tiles ih =>
      have hout : ActBuffer.ping ≠ (call.launch offsets layer tile).actOut := by
        rw [call.actOut_launch, if_pos heven]
        decide
      rw [applyTiles_cons, ih, apply_of_ne f m _ hout]

/-- The launches for other tiles leave the rows of a tile as they are. -/
theorem tileRows_applyTiles_of_disjoint (b : ActBuffer) {tile : ℕ × ℕ} {tiles : List (ℕ × ℕ)}
    (hsub : ∀ t ∈ tiles, t ∈ call.tiles) (hdisj : ∀ t ∈ tiles, tile.1 + tile.2 ≤ t.1)
    (m : ActRows Row) :
  tileRows (applyTiles f call offsets layer tiles m b) tile = tileRows (m b) tile
  := by
  induction tiles generalizing m with
  | nil => rfl
  | cons t tiles ih =>
      obtain ⟨ht, hsub⟩ := List.forall_mem_cons.mp hsub
      obtain ⟨hdt, hdisj⟩ := List.forall_mem_cons.mp hdisj
      rw [applyTiles_cons, ih hsub hdisj]
      apply tileRows_apply_of_disjoint
      rw [workTile_launch call offsets layer ht]
      exact .inl hdt

/-- An odd layer replaces the rows of each tile in `act_ping_`. -/
theorem tileRows_applyTiles_odd (hodd : layer % 2 = 1) {tile : ℕ × ℕ} {tiles : List (ℕ × ℕ)}
    (hsub : ∀ t ∈ tiles, t ∈ call.tiles) (hpair : tiles.Pairwise fun t t' => t.1 + t.2 ≤ t'.1)
    (ht : tile ∈ tiles) (m : ActRows Row) :
  tileRows (applyTiles f call offsets layer tiles m .ping) tile
    = layerRows f layer tile (tileRows (m .ping) tile)
  := by
  induction tiles generalizing m with
  | nil => cases ht
  | cons t tiles ih =>
      obtain ⟨hmem, hrest⟩ := List.forall_mem_cons.mp hsub
      obtain ⟨hlater, hpair⟩ := List.pairwise_cons.mp hpair
      have hout : (call.launch offsets layer t).actOut = .ping := by
        rw [call.actOut_launch, if_neg (by omega)]
      rw [applyTiles_cons]
      rcases List.mem_cons.mp ht with rfl | ht
      · -- the launch for the tile itself, before those for the later tiles
        have hself := tileRows_apply_self f m (call.launch offsets layer tile)
        rw [hout, workTile_launch call offsets layer hmem, call.layerId_launch,
          call.src_launch] at hself
        rw [tileRows_applyTiles_of_disjoint f call offsets layer _ hrest hlater, hself]
      · rw [ih hrest hpair ht, tileRows_apply_of_disjoint]
        rw [workTile_launch call offsets layer hmem]
        exact .inr (hlater tile ht)

end Layer

/-! ### All layers -/

section Run

variable {Row : Type} (f : LayerFns Row) (call : RunnerCall) (offsets : List WeightOffsets)

/-- The buffers after the first layers. -/
def runLayers (n : ℕ) (m : ActRows Row) : ActRows Row :=
  ((List.range n).flatMap (call.layerLaunches offsets)).foldl (Launch.apply f) m

theorem runLayers_succ (n : ℕ) (m : ActRows Row) :
  runLayers f call offsets (n + 1) m
    = applyTiles f call offsets n call.tiles (runLayers f call offsets n m)
  := by
  rw [runLayers, List.range_succ, List.flatMap_append, List.flatMap_singleton, List.foldl_append]
  rfl

/-- After any number of layers, `act_ping_` holds the composition of the odd ones. -/
theorem tileRows_runLayers {tile : ℕ × ℕ} (ht : tile ∈ call.tiles) (m : ActRows Row) (n : ℕ) :
  tileRows (runLayers f call offsets n m .ping) tile
    = oddLayerChain f tile (tileRows (m .ping) tile) n
  := by
  induction n with
  | zero => rfl
  | succ n ih =>
      rw [runLayers_succ, oddLayerChain]
      rcases Nat.mod_two_eq_zero_or_one n with h | h
      · rw [if_pos h, applyTiles_even f call offsets n h, ih]
      · rw [if_neg (by omega), tileRows_applyTiles_odd f call offsets n h (fun _ => id)
          call.pairwise_tiles ht, ih]

end Run

/-! ### The composition of all layers -/

/-- After the launches of a call, the buffer that the last layer writes holds the
composition of all layers, for every tile. -/
def RunnerCall.ChainsLayers (call : RunnerCall) : Prop :=
  ∀ (Row : Type) (f : LayerFns Row) (offsets : List WeightOffsets) (m : ActRows Row),
    ∀ tile ∈ call.tiles,
      tileRows ((call.launches offsets).foldl (Launch.apply f) m
          (call.launch offsets (numLayers - 1) tile).actOut) tile
        = layerChain f tile (tileRows (m .ping) tile) numLayers

namespace RunnerCall

variable (call : RunnerCall)

theorem chainsLayers_iff_chains :
  call.ChainsLayers ↔ ∀ (Row : Type) (f : LayerFns Row) (m : ActRows Row), ∀ tile ∈ call.tiles,
    oddLayerChain f tile (tileRows (m .ping) tile) numLayers
      = layerChain f tile (tileRows (m .ping) tile) numLayers
  := by
  have hout : ∀ offsets tile, (call.launch offsets (numLayers - 1) tile).actOut = .ping :=
    fun offsets tile => call.actOut_launch offsets (numLayers - 1) tile
  constructor
  · intro h Row f m tile ht
    have hrun := tileRows_runLayers f call [] ht m numLayers
    rw [← hrun, ← h Row f [] m tile ht, hout]
    rfl
  · intro h Row f offsets m tile ht
    rw [hout, ← h Row f m tile ht, ← tileRows_runLayers f call offsets ht m numLayers]
    rfl

/-- A call without tokens has empty tiles only. -/
theorem tokens_eq_zero_iff :
  call.tokens = 0 ↔ ∀ tile ∈ call.tiles, tile.2 = 0
  := by
  cases call with
  | prefillThroughput seqLen =>
      constructor
      · intro h tile ht
        obtain ⟨i, hi, rfl⟩ := List.mem_map.mp ht
        change seqLen = 0 at h
        subst h
        cases List.mem_range.mp hi
      · intro h
        rw [tokens, ← List.range_eq_nil, ← range_tiles (by decide : 0 < prefillTokenTile) seqLen,
          List.flatMap_eq_nil_iff]
        intro i hi
        have hlen : tileLen prefillTokenTile seqLen i = 0 := h _ (List.mem_map_of_mem hi)
        rw [hlen]
        rfl
  | decodeTtftToken pos kvLen => simp [tokens, tiles]
  | decodeThroughputWindow pos kvLen windowTokens => simp [tokens, tiles]

/-! ### The layers that are left out -/

/-- The first layer turns every row into `true`, the others leave the rows as they are. -/
def markFirstLayer : LayerFns Bool := fun layer _ rows t =>
  if layer = 0 then true else rows.getD t false

/-- A layer that returns its rows. -/
theorem layerRows_getD {layer : ℕ} (hl : layer ≠ 0) (tile : ℕ × ℕ) (b : Bool) :
  layerRows markFirstLayer layer tile (List.replicate tile.2 b) = List.replicate tile.2 b
  := by
  have hrow : markFirstLayer layer tile (List.replicate tile.2 b)
      = fun t => (List.replicate tile.2 b).getD t false := by
    funext t
    apply if_neg hl
  rw [layerRows, hrow, map_range_getD List.length_replicate]

theorem layerChain_markFirstLayer (tile : ℕ × ℕ) (rows : List Bool) (n : ℕ) :
  layerChain markFirstLayer tile rows (n + 1) = List.replicate tile.2 true
  := by
  induction n with
  | zero =>
      rw [layerChain, layerRows]
      apply List.eq_replicate_iff.mpr
      constructor
      · rw [List.length_map, List.length_range]
      · intro b hb
        obtain ⟨t, -, rfl⟩ := List.mem_map.mp hb
        rfl
  | succ n ih => rw [layerChain, ih, layerRows_getD n.succ_ne_zero]

theorem oddLayerChain_markFirstLayer (tile : ℕ × ℕ) (n : ℕ) :
  oddLayerChain markFirstLayer tile (List.replicate tile.2 false) n = List.replicate tile.2 false
  := by
  induction n with
  | zero => rfl
  | succ n ih =>
      rw [oddLayerChain, ih]
      split_ifs with h
      · rfl
      · apply layerRows_getD
        rintro rfl
        apply h rfl

/-- A row shows that the first layer is left out. -/
theorem not_chainsLayers {tile : ℕ × ℕ} (ht : tile ∈ call.tiles) (hpos : tile.2 ≠ 0) :
  ¬ call.ChainsLayers
  := by
  intro h
  have hrows : tileRows (fun _ => false) tile = List.replicate tile.2 false := by
    rw [tileRows, List.map_const', List.length_range]
  have heq := call.chainsLayers_iff_chains.mp h Bool markFirstLayer (fun _ _ => false) tile ht
  rw [hrows, oddLayerChain_markFirstLayer, layerChain_markFirstLayer] at heq
  apply hpos
  cases List.replicate_inj.mp heq with
  | intro _ hor => simpa using hor

/-- The layers are chained only when there are no tokens. -/
theorem chainsLayers_iff :
  call.ChainsLayers ↔ call.tokens = 0
  := by
  constructor
  · intro h
    apply call.tokens_eq_zero_iff.mpr
    intro tile ht
    by_contra hpos
    apply call.not_chainsLayers ht hpos h
  · intro h
    apply call.chainsLayers_iff_chains.mpr
    intro Row f m tile ht
    have hzero := call.tokens_eq_zero_iff.mp h tile ht
    have hlen : (tileRows (m .ping) tile).length = tile.2 := by
      rw [tileRows, List.length_map, List.length_range]
    rw [List.eq_nil_of_length_eq_zero ((length_oddLayerChain f hlen _).trans hzero),
      List.eq_nil_of_length_eq_zero ((length_layerChain f hlen _).trans hzero)]

/-- A decoded token only passes through every other layer. -/
theorem not_chainsLayers_decode :
  ¬ (decodeTtftToken 64 64).ChainsLayers
  := not_chainsLayers _ (List.mem_singleton_self (0, 1)) (by decide)

end RunnerCall

end Kv260
