import WeightedCnf.Proofs.BranchBound.Solve

namespace WeightedCnf.BranchBound
open Occurrences State

section Steps
variable {N : Type} [OfNat N 1] [Add N]

inductive Reached (nVars : Nat) (index : Occurrences) (first : Search N) : Nat → Search N → Prop where
  | start : Reached nVars index first 0 first
  | step {count : Nat} {s next : Search N} {frame : Frame} {below : List Frame} :
      Reached nVars index first count s → s.stack = frame :: below →
      advance nVars index frame below s = .ok next → Reached nVars index first (count + 1) next

variable {nVars : Nat} {index : Occurrences} {frame : Frame} {below : List Frame}

inductive Records (frame : Frame) (s next : Search N) : Prop where
  | nothing (incumbent : next.incumbent = s.incumbent) (trace : next.stats.trace = s.stats.trace)
  | improvement (heavier : improves s.incumbent frame.current = true)
      (satisfied : s.state.isSatisfied = true)
      (incumbent : next.incumbent = some ⟨frame.current, s.state.toAssignment⟩)
      (trace : next.stats.trace = s.stats.trace.push ⟨frame.current, frame.var - 1⟩)

inductive Does (nVars : Nat) (frame : Frame) (below : List Frame) (s next : Search N) : Prop where
  | enters (stage : frame.stage = .enter) (nodes : next.stats.nodes = s.stats.nodes + 1)
      (stack : next.stack = below ∨
        frame.var ≤ nVars ∧ next.stack = { frame with stage := .tryFalse } :: below)
      (records : Records frame s next)
  | branches (value : Bool) (child : Frame)
      (stage : frame.stage = if value then .tryTrue else .tryFalse)
      (var : child.var = frame.var + 1) (fresh : child.stage = .enter)
      (stack : next.stack =
        child :: { frame with stage := if value then .leave else .tryTrue } :: below)
      (incumbent : next.incumbent = s.incumbent) (stats : next.stats = s.stats)
  | leaves (stage : frame.stage = .leave) (stack : next.stack = below)
      (incumbent : next.incumbent = s.incumbent) (stats : next.stats = s.stats)

variable {s next : Search N}

theorem proceed_records {state : State} {incumbent : Option Incumbent} {stats : Stats N}
    (proceeded : proceed nVars frame below state incumbent stats = .ok next) :
    next.stats.nodes = stats.nodes ∧
      (next.stack = below ∨
        frame.var ≤ nVars ∧ next.stack = { frame with stage := .tryFalse } :: below) ∧
      next.incumbent = incumbent ∧ next.stats.trace = stats.trace := by
  unfold proceed at proceeded
  split at proceeded
  · cases proceeded
  · cases proceeded
    exact ⟨rfl, .inl rfl, rfl, rfl⟩
  · split at proceeded
    · cases proceeded
      exact ⟨rfl, .inl rfl, rfl, rfl⟩
    · rename_i inside
      cases proceeded
      exact ⟨rfl, .inr ⟨Nat.not_lt.mp inside, rfl⟩, rfl, rfl⟩

theorem enter_does (stage : frame.stage = .enter) (entered : enter nVars frame below s = .ok next) :
    Does nVars frame below s next := by
  unfold enter at entered
  simp only at entered
  split at entered
  · cases entered
    exact .enters stage rfl (.inl rfl) (.nothing rfl rfl)
  · split at entered
    · rename_i found
      obtain ⟨heavier, satisfied⟩ := Bool.and_eq_true_iff.mp found
      obtain ⟨nodes, stack, incumbent, trace⟩ := proceed_records entered
      exact .enters stage nodes stack (.improvement heavier satisfied incumbent trace)
    · obtain ⟨nodes, stack, incumbent, trace⟩ := proceed_records entered
      exact .enters stage nodes stack (.nothing incumbent trace)

theorem advance_does (stepped : advance nVars index frame below s = .ok next) :
    Does nVars frame below s next := by
  unfold advance at stepped
  split at stepped
  · rename_i stage
    exact enter_does stage stepped
  · rename_i stage
    simp only [bind_eq_ok_iff] at stepped
    obtain ⟨child, made, _, _, equal⟩ := stepped
    cases equal
    obtain ⟨var, fresh⟩ := child_eq_ok made
    exact .branches false child stage var fresh rfl rfl rfl
  · rename_i stage
    simp only [bind_eq_ok_iff] at stepped
    obtain ⟨child, made, _, _, _, _, equal⟩ := stepped
    cases equal
    obtain ⟨var, fresh⟩ := child_eq_ok made
    exact .branches true child stage var fresh rfl rfl rfl
  · rename_i stage
    simp only [bind_eq_ok_iff] at stepped
    obtain ⟨_, _, equal⟩ := stepped
    cases equal
    exact .leaves stage rfl rfl rfl

end Steps

section Nodes
variable {nVars : Nat} {frame : Frame} {below : List Frame} {s next : Search Nat}

def fullNodes : Nat → Nat
  | 0 => 1
  | height + 1 => 1 + 2 * fullNodes height

def Frame.openNodes (nVars : Nat) (frame : Frame) : Nat :=
  let height := nVars + 1 - frame.var
  match frame.stage with
  | .enter => fullNodes height
  | .tryFalse => 2 * fullNodes (height - 1)
  | .tryTrue => fullNodes (height - 1)
  | .leave => 0

def openNodes (nVars : Nat) (stack : List Frame) : Nat := total (stack.map (Frame.openNodes nVars))

theorem openNodes_cons (nVars : Nat) (frame : Frame) (below : List Frame) :
    openNodes nVars (frame :: below) = frame.openNodes nVars + openNodes nVars below := rfl

theorem fullNodes_pos (height : Nat) : 0 < fullNodes height := by
  cases height with
  | zero => exact Nat.one_pos
  | succ height => rw [fullNodes]; omega

theorem fullNodes_eq (height : Nat) : fullNodes height = Nat.pow 2 (height + 1) - 1 := by
  induction height with
  | zero => rfl
  | succ height ih =>
    have positive : 0 < Nat.pow 2 (height + 1) := Nat.pow_pos (by decide)
    have double : Nat.pow 2 (height + 2) = Nat.pow 2 (height + 1) * 2 := rfl
    rw [fullNodes, ih, double]
    omega

theorem Does.nodes_le (does : Does nVars frame below s next) :
    next.stats.nodes + openNodes nVars next.stack ≤ s.stats.nodes + openNodes nVars (frame :: below) := by
  cases does with
  | enters stage nodes stack _ =>
    have own := fullNodes_pos (nVars + 1 - frame.var)
    rcases stack with left | ⟨inside, branched⟩
    · rw [nodes, left, openNodes_cons, Frame.openNodes, stage]
      simp only
      omega
    · obtain ⟨height, equal⟩ : ∃ height, nVars + 1 - frame.var = height + 1 :=
        ⟨nVars - frame.var, by omega⟩
      rw [nodes, branched, openNodes_cons, openNodes_cons]
      simp only [Frame.openNodes, stage, equal, fullNodes, Nat.add_sub_cancel]
      omega
  | branches value child stage var fresh stack _ stats =>
    have shorter : nVars + 1 - (frame.var + 1) = nVars + 1 - frame.var - 1 := by omega
    rw [stats, stack, openNodes_cons, openNodes_cons, openNodes_cons]
    cases value <;> simp only [Frame.openNodes, stage, fresh, var, shorter, Bool.false_eq_true,
      if_false, if_true] <;> omega
  | leaves stage stack _ stats =>
    rw [stats, stack, openNodes_cons]
    omega

end Nodes

variable {f : Formula} {index : Occurrences} {decided : List Bool} {below : List Frame}
  {s : Search Nat}

def node (f : Formula) (decided : List Bool) (stage : Stage) : Frame :=
  ⟨decided.length + 1, openWeight f decided.length, bitWeight f decided, stage⟩

-- Frames that wait for a branch to end, with the values of the branches.
inductive Trail (f : Formula) : List Bool → List Frame → Prop where
  | root : Trail f [] []
  | tried {decided : List Bool} {below : List Frame} (value : Bool) :
      decided.length < f.nVars → Trail f decided below →
      Trail f (decided ++ [value]) (node f decided (if value then .leave else .tryTrue) :: below)

namespace Trail

theorem length_le (trail : Trail f decided below) : decided.length ≤ f.nVars := by
  cases trail with
  | root => exact Nat.zero_le _
  | tried value more _ =>
    rw [List.length_append, List.length_singleton]
    omega

theorem length_eq (trail : Trail f decided below) : below.length = decided.length := by
  induction trail with
  | root => rfl
  | tried value _ _ ih => simp [ih]

theorem vars_eq (trail : Trail f decided below) :
    below.map (·.var) = (List.range' 1 decided.length).reverse := by
  induction trail with
  | root => rfl
  | tried value _ _ ih => simp [ih, node, List.range'_concat, Nat.add_comm]

theorem weight_le (valid : f.Valid) (trail : Trail f decided below) :
    bitWeight f decided + openWeight f decided.length ≤ total f.weights.toList := by
  induction trail with
  | root =>
    apply Nat.le_of_eq
    rw [bitWeight_nil, List.length_nil, openWeight_zero valid, Nat.zero_add]
  | @tried decided _ value more _ ih =>
    have step := openWeight_step valid more
    rw [List.length_append, List.length_singleton, bitWeight_append_singleton more]
    split <;> omega

theorem fits (valid : f.Valid) (trail : Trail f decided below) :
    bitWeight f decided + openWeight f decided.length < word64 :=
  Nat.lt_of_le_of_lt (trail.weight_le valid) valid.total_lt

theorem mem_node (trail : Trail f decided below) {frame : Frame} (member : frame ∈ below) :
    ∃ start stage rest, frame = node f start stage ∧ start <+: decided ∧ Trail f start rest := by
  induction trail with
  | root => cases member
  | tried value _ trail ih =>
    rcases List.mem_cons.mp member with equal | later
    · exact ⟨_, _, _, equal, List.prefix_append _ _, trail⟩
    · obtain ⟨start, stage, rest, equal, before, shorter⟩ := ih later
      exact ⟨start, stage, rest, equal, before.trans (List.prefix_append _ _), shorter⟩

end Trail

-- Where a search stands: at a node that is entered or about to branch, or back from a branch. The walk
-- is over when it is back at the root.
inductive OnTrail (f : Formula) (s : Search Nat) : Prop where
  | entering {decided : List Bool} {below : List Frame} (trail : Trail f decided below)
      (stack : s.stack = node f decided .enter :: below)
      (state : s.state = recount f (valuesOf f.nVars decided))
  | branching {decided : List Bool} {below : List Frame} (trail : Trail f decided below)
      (more : decided.length < f.nVars) (stack : s.stack = node f decided .tryFalse :: below)
      (state : s.state = recount f (valuesOf f.nVars decided))
  | returning {decided : List Bool} (trail : Trail f decided s.stack)
      (state : s.state = recount f (valuesOf f.nVars decided))

def Search.tour (s : Search Nat) : Tour := ⟨s.incumbent, s.stats⟩

theorem node_next (more : decided.length < f.nVars) (value : Bool) :
    node f (decided ++ [value]) .enter =
      ⟨decided.length + 2, openWeight f (decided.length + 1),
        if value then bitWeight f decided + f.weights.getD (decided.length + 1) 0
          else bitWeight f decided, .enter⟩ := by
  simp only [node, bitWeight_append_singleton more, List.length_append, List.length_singleton]
  split <;> rfl

section Kept
variable (fit : f.Searchable) (tables : Tables f f.positions index)
include fit tables

omit tables in
theorem advance_entering (trail : Trail f decided below)
    (state : s.state = recount f (valuesOf f.nVars decided)) :
    ∃ next, advance f.nVars index (node f decided .enter) below s = .ok next ∧ OnTrail f next := by
  have entered := @enter_eq f decided (bitWeight f decided) (openWeight f decided.length) below s.tour
    s.stack (trail.fits fit.toValid)
  rw [← state] at entered
  refine ⟨_, entered, ?_⟩
  split
  · exact .returning trail state
  · unfold Tour.settle
    split
    · exact .returning trail state
    · split
      · exact .returning trail state
      · rename_i inside
        exact .branching trail (Nat.not_lt.mp inside) rfl state

theorem advance_branching (trail : Trail f decided below) (more : decided.length < f.nVars)
    (state : s.state = recount f (valuesOf f.nVars decided)) :
    ∃ next, advance f.nVars index (node f decided .tryFalse) below s = .ok next ∧ OnTrail f next := by
  have stepped := @advance_tryFalse f index decided (bitWeight f decided) below fit tables more
    (trail.fits fit.toValid) s.tour s.stack
  rw [← state] at stepped
  refine ⟨_, stepped, .entering (trail.tried false more) ?_ rfl⟩
  rw [node_next more]
  rfl

theorem advance_returning {frame : Frame} (trail : Trail f decided (frame :: below))
    (state : s.state = recount f (valuesOf f.nVars decided)) :
    ∃ next, advance f.nVars index frame below s = .ok next ∧ OnTrail f next := by
  cases trail with
  | @tried decided _ value more trail =>
    cases value with
    | false =>
      have stepped := @advance_tryTrue f index decided (bitWeight f decided) below fit tables more
        (trail.fits fit.toValid) s.tour s.stack
      rw [← state] at stepped
      refine ⟨_, stepped, .entering (trail.tried true more) ?_ rfl⟩
      rw [node_next more]
      rfl
    | true =>
      have stepped := @advance_leave f index decided (bitWeight f decided) below fit tables more
        s.tour s.stack (openWeight f decided.length)
      rw [← state] at stepped
      exact ⟨_, stepped, .returning trail rfl⟩

-- No step from a search on its trail faults, and the next search is on its trail again.
theorem OnTrail.advance_ok (on : OnTrail f s) {frame : Frame} (top : s.stack = frame :: below) :
    ∃ next, advance f.nVars index frame below s = .ok next ∧ OnTrail f next := by
  cases on with
  | entering trail stack state =>
    rw [top] at stack
    cases stack
    exact advance_entering fit trail state
  | branching trail more stack state =>
    rw [top] at stack
    cases stack
    exact advance_branching fit tables trail more state
  | returning trail state =>
    rw [top] at trail
    exact advance_returning fit tables trail state

theorem start_onTrail : OnTrail f (.start index (total f.weights.toList)) := by
  refine .entering .root ?_ (fresh_eq_recount fit tables)
  simp only [Search.start, node, bitWeight_nil, List.length_nil, openWeight_zero fit.toValid]

theorem Reached.onTrail {count : Nat}
    (reached : Reached f.nVars index (.start index (total f.weights.toList)) count s) : OnTrail f s := by
  induction reached with
  | start => exact start_onTrail fit tables
  | step _ top stepped ih =>
    obtain ⟨next, advanced, on⟩ := ih.advance_ok fit tables top
    rw [stepped] at advanced
    cases advanced
    exact on

end Kept

theorem OnTrail.entered (on : OnTrail f s) {frame : Frame} (top : s.stack = frame :: below)
    (stage : frame.stage = .enter) :
    ∃ decided, frame = node f decided .enter ∧ Trail f decided below ∧
      s.state = recount f (valuesOf f.nVars decided) := by
  cases on with
  | entering trail stack state =>
    rw [top] at stack
    cases stack
    exact ⟨_, rfl, trail, state⟩
  | branching trail more stack state =>
    rw [top] at stack
    cases stack
    cases stage
  | returning trail state =>
    rw [top] at trail
    cases trail with
    | tried value _ _ => cases value <;> cases stage

def weightFrom (f : Formula) (var : Nat) : Nat :=
  total ((List.range' var (f.nVars + 1 - var)).map fun v => f.weights.getD v 0)

def trueWeightBefore (f : Formula) (values : Array (Option Bool)) (var : Nat) : Nat :=
  total (((List.range' 1 (var - 1)).filter fun v => values[v]? == some (some true)).map
    fun v => f.weights.getD v 0)

def Stage.value? : Stage → Option Bool
  | enter => none
  | tryFalse => none
  | tryTrue => some false
  | leave => some true

-- What the stack says of the state, and the state of the stack.
structure Coherent {N : Type} (f : Formula) (s : Search N) : Prop where
  vars : s.stack.map (·.var) = (List.range' 1 s.stack.length).reverse
  depth : s.stack.length ≤ f.nVars + 1
  remaining : ∀ frame ∈ s.stack, frame.remaining = weightFrom f frame.var
  current : ∀ frame ∈ s.stack, frame.current = trueWeightBefore f s.state.values frame.var
  bounded : ∀ frame ∈ s.stack, frame.current + frame.remaining < word64
  covered : ∀ frame ∈ s.stack, frame.var ≤ f.nVars → f.weights.getD frame.var 0 ≤ frame.remaining
  before : ∀ frame ∈ s.stack.head?, ∀ var, 0 < var → var < frame.var →
    ∃ value, s.state.values[var]? = some (some value)
  innermost : ∀ frame ∈ s.stack.head?, frame.var ≤ f.nVars →
    s.state.values[frame.var]? = some frame.stage.value?
  after : ∀ frame ∈ s.stack.head?, ∀ var, frame.var < var → var ≤ f.nVars →
    s.state.values[var]? = some none

theorem openWeight_eq_weightFrom (valid : f.Valid) (depth : Nat) :
    openWeight f depth = weightFrom f (depth + 1) := by
  have listed := congrArg (List.drop depth) valid.map_weights
  rw [← List.map_drop, Formula.vars, List.drop_range', List.drop_tail] at listed
  have first : 1 + depth * 1 = depth + 1 := by omega
  have count : f.nVars + 1 - (depth + 1) = f.nVars - depth := by omega
  rw [openWeight, weightFrom, count, ← listed, first]

theorem bitWeight_eq_trueWeightBefore {start : List Bool} (before : start <+: decided)
    (fits : decided.length ≤ f.nVars) :
    bitWeight f start = trueWeightBefore f (valuesOf f.nVars decided) (start.length + 1) := by
  obtain ⟨more, rfl⟩ := before
  rw [List.length_append] at fits
  have parts : f.vars = List.range' 1 start.length ++
      List.range' (1 + start.length) (f.nVars - start.length) := by
    rw [List.range'_append_1, Formula.vars]
    congr 1
    omega
  have early : (List.range' 1 start.length).filter
        (fun var => (valuesOf f.nVars start)[var]? == some (some true)) =
      (List.range' 1 start.length).filter
        (fun var => (valuesOf f.nVars (start ++ more))[var]? == some (some true)) := by
    apply List.filter_congr
    intro var member
    obtain ⟨first, last⟩ := List.mem_range'_1.mp member
    obtain ⟨i, rfl⟩ : ∃ i, var = i + 1 := ⟨var - 1, by omega⟩
    have inside : i < start.length := by omega
    have longer : i < (start ++ more).length := by rw [List.length_append]; omega
    rw [getElem?_valuesOf_decided inside, getElem?_valuesOf_decided longer,
      List.getElem?_append_left inside]
  have late : (List.range' (1 + start.length) (f.nVars - start.length)).filter
      (fun var => (valuesOf f.nVars start)[var]? == some (some true)) = [] := by
    rw [List.filter_eq_nil_iff]
    intro var member
    obtain ⟨first, last⟩ := List.mem_range'_1.mp member
    obtain ⟨i, rfl⟩ : ∃ i, var = i + 1 := ⟨var - 1, by omega⟩
    rw [getElem?_valuesOf_open (by omega) (by omega)]
    simp
  rw [bitWeight, Formula.weightUnder]
  simp only [parts, List.filter_append, late, List.append_nil, early]
  rfl

theorem valuesOf_before {nVars var : Nat} (first : 0 < var) (last : var ≤ decided.length) :
    ∃ value, (valuesOf nVars decided)[var]? = some (some value) := by
  obtain ⟨i, rfl⟩ : ∃ i, var = i + 1 := ⟨var - 1, by omega⟩
  have inside : i < decided.length := by omega
  exact ⟨decided[i], by rw [getElem?_valuesOf_decided inside, List.getElem?_eq_getElem inside]⟩

theorem valuesOf_after {nVars var : Nat} (later : decided.length < var) (last : var ≤ nVars) :
    (valuesOf nVars decided)[var]? = some none := by
  obtain ⟨i, rfl⟩ : ∃ i, var = i + 1 := ⟨var - 1, by omega⟩
  exact getElem?_valuesOf_open (by omega) (by omega)

theorem coherent_of_nodes (valid : f.Valid) (fits : decided.length ≤ f.nVars)
    (values : s.state.values = valuesOf f.nVars decided)
    (vars : s.stack.map (·.var) = (List.range' 1 s.stack.length).reverse)
    (depth : s.stack.length ≤ f.nVars + 1)
    (nodes : ∀ frame ∈ s.stack, ∃ start stage rest, frame = node f start stage ∧ start <+: decided ∧
      Trail f start rest)
    (near : ∀ frame ∈ s.stack.head?, decided.length ≤ frame.var ∧ frame.var ≤ decided.length + 1)
    (innermost : ∀ frame ∈ s.stack.head?, frame.var ≤ f.nVars →
      (valuesOf f.nVars decided)[frame.var]? = some frame.stage.value?) : Coherent f s := by
  refine ⟨vars, depth, ?_, ?_, ?_, ?_, ?_, ?_, ?_⟩
  · intro frame member
    obtain ⟨start, stage, rest, rfl, before, trail⟩ := nodes frame member
    exact openWeight_eq_weightFrom valid start.length
  · intro frame member
    obtain ⟨start, stage, rest, rfl, before, trail⟩ := nodes frame member
    rw [values]
    exact bitWeight_eq_trueWeightBefore before fits
  · intro frame member
    obtain ⟨start, stage, rest, rfl, before, trail⟩ := nodes frame member
    exact trail.fits valid
  · intro frame member inside
    obtain ⟨start, stage, rest, rfl, before, trail⟩ := nodes frame member
    have step := openWeight_step valid (show start.length < f.nVars from inside)
    simp only [node]
    omega
  · intro frame top var first earlier
    have limit := near frame top
    rw [values]
    exact valuesOf_before first (by omega)
  · rw [values]
    exact innermost
  · intro frame top var later last
    have limit := near frame top
    rw [values]
    exact valuesOf_after (by omega) last

-- Before the first branch of a node its variable has no value.
theorem coherent_ahead (valid : f.Valid) (trail : Trail f decided below) {stage : Stage}
    (unset : stage.value? = none) (stack : s.stack = node f decided stage :: below)
    (state : s.state = recount f (valuesOf f.nVars decided)) : Coherent f s := by
  have top : ∀ frame ∈ s.stack.head?, frame = node f decided stage := by
    intro frame head
    rw [stack] at head
    exact (Option.some.inj head).symm
  have fits := trail.length_le
  apply coherent_of_nodes valid fits (by rw [state]; rfl)
  · rw [stack, List.map_cons, trail.vars_eq, List.length_cons, trail.length_eq, List.range'_concat]
    simp [node, Nat.add_comm]
  · rw [stack, List.length_cons, trail.length_eq]
    omega
  · intro frame member
    rw [stack] at member
    rcases List.mem_cons.mp member with equal | later
    · exact ⟨decided, stage, below, equal, List.prefix_rfl, trail⟩
    · exact trail.mem_node later
  · intro frame head
    rw [top frame head]
    exact ⟨Nat.le_succ _, Nat.le_refl _⟩
  · intro frame head inside
    rw [top frame head] at inside ⊢
    exact (valuesOf_after (Nat.lt_succ_self _) inside).trans (congrArg some unset.symm)

-- Back from a branch the variable of the innermost frame still has the value of the branch.
theorem Trail.innermost {frame : Frame} (trail : Trail f decided (frame :: below)) :
    frame.var = decided.length ∧
      (valuesOf f.nVars decided)[frame.var]? = some frame.stage.value? := by
  cases trail with
  | @tried start _ value more _ =>
    have known : (valuesOf f.nVars (start ++ [value]))[start.length + 1]? = some (some value) := by
      rw [getElem?_valuesOf_decided (by simp)]
      simp
    refine ⟨by simp [node], known.trans ?_⟩
    cases value <;> rfl

theorem coherent_returning (valid : f.Valid) (trail : Trail f decided s.stack)
    (state : s.state = recount f (valuesOf f.nVars decided)) : Coherent f s := by
  have top : ∀ frame ∈ s.stack.head?, frame.var = decided.length ∧
      (valuesOf f.nVars decided)[frame.var]? = some frame.stage.value? := by
    intro frame head
    obtain ⟨below, split⟩ := List.head?_eq_some_iff.mp head
    rw [split] at trail
    exact trail.innermost
  have fits := trail.length_le
  apply coherent_of_nodes valid fits (by rw [state]; rfl)
  · rw [trail.vars_eq, trail.length_eq]
  · rw [trail.length_eq]
    omega
  · intro frame member
    exact trail.mem_node member
  · intro frame head
    have equal := (top frame head).1
    omega
  · intro frame head _
    exact (top frame head).2

theorem OnTrail.coherent (valid : f.Valid) (on : OnTrail f s) : Coherent f s := by
  cases on with
  | entering trail stack state => exact coherent_ahead valid trail rfl stack state
  | branching trail _ stack state => exact coherent_ahead valid trail rfl stack state
  | returning trail state => exact coherent_returning valid trail state

section Ends
variable {nVars count : Nat} {first : Search Nat}

theorem Reached.count_le (reached : Reached nVars index first count s) :
    count + cost nVars s.stack ≤ cost nVars first.stack := by
  induction reached with
  | start => exact Nat.le_of_eq (Nat.zero_add _)
  | step _ top stepped ih =>
    have less := advance_cost_lt stepped
    rw [top] at ih
    omega

theorem Reached.nodes_le (reached : Reached nVars index first count s) :
    s.stats.nodes + openNodes nVars s.stack ≤ first.stats.nodes + openNodes nVars first.stack := by
  induction reached with
  | start => exact Nat.le_refl _
  | step _ top stepped ih =>
    have less := (advance_does stepped).nodes_le
    rw [top] at ih
    omega

-- A walk on its trail goes on to the empty stack; the induction is over what the stack can cost.
theorem OnTrail.run_reaches (fit : f.Searchable) (tables : Tables f f.positions index)
    (on : OnTrail f s) (reached : Reached f.nVars index first count s) :
    ∃ steps final, run f.nVars index s = .ok final ∧ Reached f.nVars index first steps final ∧
      final.stack = [] := by
  induction left : cost f.nVars s.stack using Nat.strongRecOn generalizing s count with
  | ind left ih =>
    cases top : s.stack with
    | nil => exact ⟨count, s, run_nil top, reached, top⟩
    | cons frame below =>
      obtain ⟨next, stepped, after⟩ := on.advance_ok fit tables top
      have less := advance_cost_lt stepped
      rw [← top] at less
      obtain ⟨steps, final, ran, ends, empty⟩ :=
        ih _ (by omega) after (reached.step top stepped) rfl
      exact ⟨steps, final, (run_step top stepped).trans ran, ends, empty⟩

theorem OnTrail.fresh_of_empty (fit : f.Searchable) (tables : Tables f f.positions index)
    (on : OnTrail f s) (empty : s.stack = []) : s.state = State.fresh index := by
  cases on with
  | entering _ stack _ => rw [empty] at stack; cases stack
  | branching _ _ stack _ => rw [empty] at stack; cases stack
  | returning trail state =>
    rw [empty] at trail
    cases trail
    rw [state, fresh_eq_recount fit tables]

end Ends

theorem reached_walkAll (fit : f.Searchable) (tables : Tables f f.positions index) :
    ∃ steps final, run f.nVars index (.start index (total f.weights.toList)) = .ok final ∧
      Reached f.nVars index (.start index (total f.weights.toList)) steps final ∧ final.stack = [] ∧
      final.tour = walkAll f := by
  obtain ⟨steps, final, ran, ends, empty⟩ := (start_onTrail fit tables).run_reaches fit tables .start
  have walked := run_start fit tables
  rw [ran] at walked
  cases walked
  exact ⟨steps, _, ran, ends, empty, rfl⟩

theorem reached_nodes_le {nVars sum count : Nat}
    (reached : Reached nVars index (.start index sum) count s) :
    s.stats.nodes ≤ Nat.pow 2 (nVars + 1) - 1 := by
  have few := reached.nodes_le
  have full : openNodes nVars (Search.start index sum : Search Nat).stack = fullNodes nVars := rfl
  have none : (Search.start index sum : Search Nat).stats.nodes = 0 := rfl
  rw [full, fullNodes_eq, none] at few
  omega

theorem Reached.words {nVars count : Nat} {first : Search Nat}
    (reached : Reached nVars index first count s) : Reached nVars index first.words count s.words := by
  induction reached with
  | start => exact .start
  | step _ top stepped ih => exact .step ih top (advance_words_ok stepped)

theorem Reached.counted {nVars sum count : Nat} {s : Search UInt64}
    (reached : Reached nVars index (.start index sum) count s) :
    ∃ counted : Search Nat, Reached nVars index (.start index sum) count counted ∧ s = counted.words := by
  induction reached with
  | start => exact ⟨.start index sum, .start, rfl⟩
  | step _ top stepped ih =>
    obtain ⟨counted, before, rfl⟩ := ih
    rw [advance_words, map_eq_ok_iff] at stepped
    obtain ⟨next, stepped, rfl⟩ := stepped
    exact ⟨next, before.step top stepped, rfl⟩

theorem Coherent.words (coherent : Coherent f s) : Coherent f s.words :=
  ⟨coherent.vars, coherent.depth, coherent.remaining, coherent.current, coherent.bounded,
    coherent.covered, coherent.before, coherent.innermost, coherent.after⟩

-- The walk ends, after a number of steps and of nodes that the number of variables bounds, with the
-- fresh state. At every step on the way the stack is a path from the root, stack and state tell the
-- same about every variable and every weight, and the step that follows does not fault. The nodes are
-- counted by the walk in natural numbers that is as far as the one in words.
theorem loop_walks_one_path {nVars : Nat} {weights : List Nat} {clauses : List (List Literal)}
    (built : Formula.build nVars weights (clauses.map Clause.ofLiterals) = .ok f)
    (short : ∀ c ∈ f.clauses, c.size < word32) :
    ∃ index sum steps, ∃ final : Search UInt64, ∃ outcome, Occurrences.ofFormula f = .ok index ∧
      f.totalWeight = .ok sum ∧ run f.nVars index (.start index sum) = .ok final ∧
      Reached f.nVars index (.start index sum) steps final ∧ final.stack = [] ∧
      solve f = .ok outcome ∧ outcome.stats = final.stats ∧
      ∀ count, ∀ s : Search UInt64, Reached f.nVars index (.start index sum) count s →
        count ≤ fullCost f.nVars ∧
        (∃ counted : Search Nat, Reached f.nVars index (.start index sum) count counted ∧
          s = counted.words ∧ counted.stats.nodes ≤ Nat.pow 2 (f.nVars + 1) - 1) ∧
        Coherent f s ∧ (s.stack = [] → s.state = State.fresh index) ∧
        ∀ frame below, s.stack = frame :: below →
          ∃ next, advance f.nVars index frame below s = .ok next := by
  have fit : f.Searchable := ⟨Formula.valid_of_build built, short⟩
  have valid := fit.toValid
  obtain ⟨index, made, tables⟩ := ofFormula_tables valid
  obtain ⟨steps, final, ran, ends, empty, walked⟩ := reached_walkAll fit tables
  refine ⟨index, _, steps, final.words, _, made, totalWeight_eq valid, run_words ran, ends.words, empty,
    solve_eq fit, ?_, ?_⟩
  · rw [← walked]
    rfl
  intro count s reached
  obtain ⟨counted, beside, rfl⟩ := reached.counted
  have on := beside.onTrail fit tables
  have cheap := beside.count_le
  simp only [Search.start, cost, List.map_cons, List.map_nil, total, Frame.cost, Nat.add_sub_cancel]
    at cheap
  refine ⟨by omega, ⟨counted, beside, rfl, reached_nodes_le beside⟩, (on.coherent valid).words,
    on.fresh_of_empty fit tables, ?_⟩
  intro frame below top
  obtain ⟨next, stepped, _⟩ := on.advance_ok fit tables top
  exact ⟨next.words, advance_words_ok stepped⟩

-- Seven nodes of two variables are the most that there can be, and all of them are entered here.
theorem loop_walks_one_path_full :
    let clauses : List (List Literal) := [[.positive 1, .positive 2], [.negative 1, .negative 2]]
    let f := Formula.ofParts 2 [3, 2] (clauses.map Clause.mk)
    Formula.build 2 [3, 2] (clauses.map Clause.ofLiterals) = .ok f ∧ (walkAll f).stats.nodes = 7 ∧
      ∃ index sum steps, ∃ final : Search UInt64, ∃ outcome, Occurrences.ofFormula f = .ok index ∧
        f.totalWeight = .ok sum ∧ run f.nVars index (.start index sum) = .ok final ∧
        Reached f.nVars index (.start index sum) steps final ∧ final.stack = [] ∧
        solve f = .ok outcome ∧ outcome.stats = final.stats ∧
        ∀ count, ∀ s : Search UInt64, Reached f.nVars index (.start index sum) count s →
          count ≤ fullCost f.nVars ∧
          (∃ counted : Search Nat, Reached f.nVars index (.start index sum) count counted ∧
            s = counted.words ∧ counted.stats.nodes ≤ Nat.pow 2 (f.nVars + 1) - 1) ∧
          Coherent f s ∧ (s.stack = [] → s.state = State.fresh index) ∧
          ∀ frame below, s.stack = frame :: below →
            ∃ next, advance f.nVars index frame below s = .ok next := by
  intro clauses f
  have built : Formula.build 2 [3, 2] (clauses.map Clause.ofLiterals) = .ok f := rfl
  have short : ∀ c ∈ f.clauses, c.size < word32 := by decide
  exact ⟨built, by decide, loop_walks_one_path built short⟩

end WeightedCnf.BranchBound
