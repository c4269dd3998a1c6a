import SmolVlm2Kv260.Ggml.MulMat

/-!
# Graphs on the accelerator

`ggml_backend_xrt_graph_compute` computes the nodes of a graph in their order: a multiplication on
the accelerator, and nothing for a view of another tensor.  The buffers and the unpacked weights
stay from graph to graph.  For graphs of supported multiplications this is the plain evaluation of
the nodes, row by row, whatever was computed before, up to the node whose step on the device
throws.  That the kernel computes a row of results from a row of activations and the weights, and
that nobody changes the weights, is part of the types.
-/

set_option autoImplicit false

namespace Kv260

open Fallible

variable {ι X : Type}

/-! ### Nodes -/

/-- A multiplication in a graph: the tensors of its operands, and where in the memory of the host
the activation is and the result goes to. -/
structure MulMatNode (b : XrtBackend ι X X) where
  src0 : ι
  src1 : GgmlTensor
  src1Data : ℕ
  dst : ℕ
  env : XrtEnv X
  canMulMat : (b.weight src0).tensor.ne 0 = src1.ne 0

/-- The operations that the backend looks at. -/
inductive GraphNode (b : XrtBackend ι X X) where
  | mulMat (node : MulMatNode b)
  | none
  | reshape
  | view
  | permute
  | transpose
  | other (desc : String)

/-- The memory of the host, and the state of the backend. -/
structure GraphState (ι X : Type) where
  memory : ℕ → X
  backend : XrtState ι X

/-- How a computation ends when it does not return. -/
inductive GraphFailure where
  | exception
  | outOfBounds
  | abort (message : String)

/-- `ggml_status`. -/
inductive GgmlStatus where
  | success
  | failed

/-- `memcpy` of rows to `dst`. -/
def writeRows (memory : ℕ → X) (dst : ℕ) (rows : List X) (a : ℕ) : X :=
  if dst ≤ a then rows[a - dst]?.getD (memory a) else memory a

variable {b : XrtBackend ι X X}

/-- The multiplication, with the activation that is in the memory. -/
def MulMatNode.call (node : MulMatNode b) (memory : ℕ → X) : MulMatCall b where
  src0 := node.src0
  src1 := node.src1
  data := (List.range ((node.src1.ne 1).toNat * (node.src1.ne 0).toNat)).map fun i =>
    memory (node.src1Data + i)
  env := node.env
  canMulMat := node.canMulMat
  length_data := by rw [List.length_map, List.length_range]

/-! ### The computation -/

section Compute

variable [DecidableEq ι]

/-- `ggml_backend_xrt_mul_mat` of a node. -/
def MulMatNode.compute (node : MulMatNode b) : Fallible (GraphState ι X) GraphFailure Unit :=
  ⟨fun st =>
    match (node.call st.memory).mulMat.run st.backend with
    | (.ok rows, backend) => (.ok (), ⟨writeRows st.memory node.dst rows, backend⟩)
    | (.error .exception, backend) => (.error .exception, ⟨st.memory, backend⟩)
    | (.error .outOfBounds, backend) => (.error .outOfBounds, ⟨st.memory, backend⟩)⟩

/-- The `switch` of `ggml_backend_xrt_graph_compute`. -/
def GraphNode.compute : GraphNode b → Fallible (GraphState ι X) GraphFailure Unit
  | .mulMat node => node.compute
  | .none | .reshape | .view | .permute | .transpose => pure ()
  | .other desc =>
      throw (.abort s!"ggml-xrt: unsupported op {desc} (supports_op should have rejected)")

/-- Its loop over the nodes. -/
def computeNodes : List (GraphNode b) → Fallible (GraphState ι X) GraphFailure Unit
  | [] => pure ()
  | node :: nodes => do
      node.compute
      computeNodes nodes

/-- `ggml_backend_xrt_graph_compute`, which catches exceptions. -/
def graphCompute (nodes : List (GraphNode b)) :
    Fallible (GraphState ι X) GraphFailure GgmlStatus :=
  tryCatch
    (do
      computeNodes nodes
      pure .success)
    fun
      | .exception => pure .failed
      | failure => throw failure

end Compute

/-! ### The plain evaluation -/

/-- The rows of a multiplication are those of the call alone. -/
def GraphNode.eval (memory : ℕ → X) : GraphNode b → ℕ → X
  | .mulMat node => writeRows memory node.dst (node.call memory).rows
  | _ => memory

/-- The nodes are evaluated in their order. -/
def evalNodes (memory : ℕ → X) (nodes : List (GraphNode b)) : ℕ → X :=
  nodes.foldl GraphNode.eval memory

/-- A multiplication is allowed when `supports_op` accepts it, its weight has all of its blocks,
and no step throws between the first allocation of a new scratch and its key. -/
structure MulMatNode.Allowed (node : MulMatNode b) : Prop where
  supported : b.rt.supportsOp ⟨.mulMat, some (b.weight node.src0).tensor, some node.src1⟩ = true
  source : b.SourceInBounds node.src0
  rekeys : node.env.fails .allocAct = true
    ∨ node.env.fails .allocActS = false ∧ node.env.fails .allocOut = false
      ∧ node.env.fails .resizeWorkbuf = false ∧ node.env.fails .resizeOutHost = false

/-- An allowed multiplication, or a view. -/
def GraphNode.Allowed : GraphNode b → Prop
  | .mulMat node => node.Allowed
  | .none | .reshape | .view | .permute | .transpose => True
  | .other _ => False

/-- A multiplication one of whose steps throws. -/
def GraphNode.Throws : GraphNode b → Prop
  | .mulMat node => ∃ step, node.env.fails step = true
  | _ => False

/-- The status is success, and the memory is that of the evaluation of all nodes, or the status is
failure, and it is that of the nodes before one that throws. -/
inductive Computes (memory : ℕ → X) (nodes : List (GraphNode b)) :
    Except GraphFailure GgmlStatus × GraphState ι X → Prop
  | success (backend : XrtState ι X) :
    Computes memory nodes (.ok .success, ⟨evalNodes memory nodes, backend⟩)
  | failed {k : ℕ} {node : GraphNode b} (backend : XrtState ι X) (hk : nodes[k]? = some node)
      (hthrows : node.Throws) :
    Computes memory nodes (.ok .failed, ⟨evalNodes memory (nodes.take k), backend⟩)

section Compute

variable [DecidableEq ι]

/-- One node: it is evaluated, or it throws and leaves the memory as it is. -/
theorem run_compute {node : GraphNode b} (hnode : node.Allowed) {st : GraphState ι X}
    (hst : st.backend.Consistent b) :
  (∃ backend, node.compute.run st = (.ok (), ⟨node.eval st.memory, backend⟩)
      ∧ backend.Consistent b)
    ∨ ∃ backend, node.compute.run st = (.error .exception, ⟨st.memory, backend⟩)
      ∧ backend.Consistent b ∧ node.Throws
  := by
  cases node with
  | mulMat node =>
      have hclean : (node.call st.memory).Clean st.backend :=
        ⟨fun _ => hnode.source, fun _ => hnode.rekeys⟩
      rcases MulMatCall.mulMat_cases (c := node.call st.memory) hnode.supported hst hclean with
        ⟨backend, hrun, hready⟩ | ⟨backend, hrun, hfails, hbackend⟩
      · left
        refine ⟨backend, ?_, hready.1⟩
        rw [GraphNode.compute, MulMatNode.compute]
        dsimp only
        rw [hrun]
        rfl
      · right
        refine ⟨backend, ?_, hbackend, hfails⟩
        rw [GraphNode.compute, MulMatNode.compute]
        dsimp only
        rw [hrun]
  | other desc => exact hnode.elim
  | none => exact .inl ⟨st.backend, rfl, hst⟩
  | reshape => exact .inl ⟨st.backend, rfl, hst⟩
  | view => exact .inl ⟨st.backend, rfl, hst⟩
  | permute => exact .inl ⟨st.backend, rfl, hst⟩
  | transpose => exact .inl ⟨st.backend, rfl, hst⟩

/-- All nodes, by induction on the list: they are evaluated up to one that throws. -/
theorem run_computeNodes {nodes : List (GraphNode b)} (hnodes : ∀ node ∈ nodes, node.Allowed)
    (st : GraphState ι X) (hst : st.backend.Consistent b) :
  (∃ backend, (computeNodes nodes).run st = (.ok (), ⟨evalNodes st.memory nodes, backend⟩)
      ∧ backend.Consistent b)
    ∨ ∃ k node backend, nodes[k]? = some node ∧ node.Throws
      ∧ (computeNodes nodes).run st
        = (.error .exception, ⟨evalNodes st.memory (nodes.take k), backend⟩)
      ∧ backend.Consistent b
  := by
  induction nodes generalizing st with
  | nil => exact .inl ⟨st.backend, rfl, hst⟩
  | cons node nodes ih =>
      rcases run_compute (hnodes node List.mem_cons_self) hst with
        ⟨backend, hrun, hbackend⟩ | ⟨backend, hrun, hbackend, hthrows⟩
      · have hrest := ih (fun n hn => hnodes n (List.mem_cons_of_mem _ hn))
          ⟨node.eval st.memory, backend⟩ hbackend
        rw [computeNodes, run_bind_of_ok hrun]
        rcases hrest with ⟨backend', hrun', hbackend'⟩ | ⟨k, node', backend', hk, hthrows, hrun',
          hbackend'⟩
        · exact .inl ⟨backend', hrun', hbackend'⟩
        · exact .inr ⟨k + 1, node', backend', hk, hthrows, hrun', hbackend'⟩
      · right
        refine ⟨0, node, backend, rfl, hthrows, ?_, hbackend⟩
        rw [computeNodes, run_bind_of_error hrun]
        rfl

/-! ### Runs -/

/-- The states of the backend after graphs of allowed nodes, each with a memory of its own. -/
inductive Served (b : XrtBackend ι X X) : XrtState ι X → Prop
  | init : Served b .init
  | graph {st : XrtState ι X} (memory : ℕ → X) (nodes : List (GraphNode b)) (hst : Served b st)
      (hnodes : ∀ node ∈ nodes, node.Allowed) :
    Served b ((graphCompute nodes).run ⟨memory, st⟩).2.backend

/-- How a graph ends. -/
theorem graphCompute_cases {nodes : List (GraphNode b)} (hnodes : ∀ node ∈ nodes, node.Allowed)
    (st : GraphState ι X) (hst : st.backend.Consistent b) :
  (∃ backend, (graphCompute nodes).run st
        = (.ok .success, ⟨evalNodes st.memory nodes, backend⟩)
      ∧ backend.Consistent b)
    ∨ ∃ k node backend, nodes[k]? = some node ∧ node.Throws
      ∧ (graphCompute nodes).run st
        = (.ok .failed, ⟨evalNodes st.memory (nodes.take k), backend⟩)
      ∧ backend.Consistent b
  := by
  rcases run_computeNodes hnodes st hst with
    ⟨backend, hrun, hbackend⟩ | ⟨k, node, backend, hk, hthrows, hrun, hbackend⟩
  · left
    refine ⟨backend, ?_, hbackend⟩
    rw [graphCompute, run_tryCatch, run_bind_of_ok hrun]
    rfl
  · right
    refine ⟨k, node, backend, hk, hthrows, ?_, hbackend⟩
    rw [graphCompute, run_tryCatch, run_bind_of_error hrun]
    rfl

theorem consistent_of_served {st : XrtState ι X} (h : Served b st) :
  st.Consistent b
  := by
  induction h with
  | init => apply XrtState.consistent_init
  | @graph st memory nodes hst hnodes ih =>
      rcases graphCompute_cases hnodes ⟨memory, st⟩ ih with
        ⟨backend, hrun, hbackend⟩ | ⟨k, node, backend, -, -, hrun, hbackend⟩
      · rw [hrun]
        exact hbackend
      · rw [hrun]
        exact hbackend

/-- For every graph of allowed nodes, after every sequence of such graphs, with whatever memories
and with whatever steps that threw: the graph is computed as the plain evaluation of its nodes, or
of those before one that throws.  The backend neither aborts nor leaves its buffers. -/
theorem computes_graphCompute {st : XrtState ι X} (hst : Served b st)
    {nodes : List (GraphNode b)} (hnodes : ∀ node ∈ nodes, node.Allowed) (memory : ℕ → X) :
  Computes memory nodes ((graphCompute nodes).run ⟨memory, st⟩)
  := by
  rcases graphCompute_cases hnodes ⟨memory, st⟩ (consistent_of_served hst) with
    ⟨backend, hrun, -⟩ | ⟨k, node, backend, hk, hthrows, hrun, -⟩
  · rw [hrun]
    exact .success backend
  · rw [hrun]
    exact .failed backend hk hthrows

/-- A multiplication of `m` rows, at the start of the memory. -/
def dotNode (i : Bool) (m dst : ℕ) : MulMatNode dotBackend where
  src0 := i
  src1 := dotSource i m
  src1Data := 0
  dst := dst
  env := dotEnv none
  canMulMat := canMulMat_dotSource i m

theorem allowed_dotNode (i : Bool) {m : ℕ} (hpos : 0 < m) (hle : m ≤ 1024) (dst : ℕ) :
  (dotNode i m dst).Allowed
  := by
  refine ⟨?_, sourceInBounds_dotBackend i, .inr ⟨rfl, rfl, rfl, rfl⟩⟩
  have hsupported := supported_dotCall i hpos hle none
  exact hsupported

/-- Multiplications of two shapes, with a view in between. -/
def dotGraph (m : ℕ) : List (GraphNode dotBackend) :=
  [.mulMat (dotNode true m 100000), .view, .mulMat (dotNode false 3 200000)]

theorem allowed_dotGraph {m : ℕ} (hpos : 0 < m) (hle : m ≤ 1024) :
  ∀ node ∈ dotGraph m, node.Allowed
  := by
  intro node hnode
  simp only [dotGraph, List.mem_cons, List.not_mem_nil, or_false] at hnode
  rcases hnode with rfl | rfl | rfl
  · exact allowed_dotNode true hpos hle _
  · exact True.intro
  · exact allowed_dotNode false (by decide) (by decide) _

/-- Two graphs of different sizes, on different memories. -/
theorem computes_graphCompute_twice :
  Computes dotMemory (dotGraph 100) ((graphCompute (dotGraph 100)).run
    ⟨dotMemory, ((graphCompute (dotGraph 70)).run ⟨fun a => -dotMemory a, .init⟩).2.backend⟩)
  := computes_graphCompute
    (.graph _ (dotGraph 70) .init (allowed_dotGraph (by decide) (by decide)))
    (allowed_dotGraph (by decide) (by decide)) dotMemory

end Compute

end Kv260
