import Tangent.Exec.Run
import Tangent.Proofs.NameMap
import Tangent.Proofs.Program.Check
import Tangent.Proofs.Vector.Kernels

/-! One instruction at a time: what it asks for, where its operands are, and what it does. -/

namespace Tangent

variable {ε α : Type}

/-- The kernels of memory, one for each operation. -/
def Host.kernels [Elem α] : Kernels (Host α) ε α View where
  alloc := Host.alloc
  free := Host.free
  fill value dst n := Host.fill dst value n
  zero := Host.zero
  copy := Host.copy
  add := Host.add
  mul := Host.mul
  exp := Host.exp

/-- The symbols of memory link to its kernels. -/
theorem Host.link_symbols [Elem α] :
    (Host.symbols : SymbolTable (Host α) ε α View).link = .ok Host.kernels := by
  -- Each symbol is found under its own name, with the kernel it was entered with.
  simp only [SymbolTable.link, SymbolTable.fitting, Host.symbols, NameMap.ofList, List.foldl_cons,
    List.foldl_nil, NameMap.find?_insert, Op.symbol, String.reduceEq, if_true, if_false]
  rfl

/-- The buffer behind an operand, if there is one. -/
def Frame.find? (f : Frame) (temps : TempTable View) (r : Ref) : Option View :=
  match r.space with
  | .value => some f.value
  | .deriv => some f.deriv
  | .var => if r.index < 0 then none else f.vars[r.index.toNatClampNeg]?
  | .temp => temps.find? r.index
  | .other _ _ => none

/-- The `n` elements of an operand, of which there are none without a buffer. -/
def Frame.part (f : Frame) (temps : TempTable View) (r : Ref) (n : Int64) : View :=
  (((f.find? temps r).getD .empty).drop r.offset.toNatClampNeg).take n.toNatClampNeg

/-- Data that is there and long enough is found, name by name. -/
theorem Frame.bindVars_ok {paths : Int64} {data : NameMap View} {names : List String}
    (there : ∀ name ∈ names, ∃ v, data.find? name = some v ∧ paths.toInt ≤ v.length) :
    ∃ views, Frame.bindVars paths data names = .ok views ∧
      ∀ i : Nat, views[i]? = names[i]?.bind data.find? := by
  induction names with
  | nil => exact ⟨[], rfl, fun i => by simp⟩
  | cons name rest ih =>
    -- The data of the first name comes first, so positions behind it shift by one.
    obtain ⟨view, known, long⟩ := there name (by simp)
    obtain ⟨views, others, found⟩ := ih (fun name listed => there name (by simp [listed]))
    refine ⟨view :: views, ?_, fun i => ?_⟩
    · rw [Frame.bindVars]
      simp only [known, others, if_neg (Int.not_lt.mpr long), Except.map]
    · cases i with
      | zero => simp [known]
      | succ i => simp [found]

namespace Machine

/-- A safe program has its frame, once its data is found and both registers cover its paths. -/
theorem prepare_ok [Written α] {p : Program α} {memory : Memory} {views : List View}
    (safe : p.validate = .ok ()) (value : p.paths.toInt ≤ memory.value.length)
    (deriv : p.paths.toInt ≤ memory.deriv.length)
    (bound : Frame.bindVars p.paths memory.vars p.vars = .ok views) :
    prepare p memory = .ok ⟨memory.value, memory.deriv, views⟩ := by
  -- What is left of the checks is about the registers.
  have frame : Frame.bind p memory = .ok ⟨memory.value, memory.deriv, views⟩ := by
    simp [Frame.bind, bound, Int.not_lt.mpr value, Int.not_lt.mpr deriv, Except.map]
  rw [prepare, safe]
  exact frame

/-- An instruction is performed by its task. -/
theorem step_eq [Elem α] (f : Frame) (i : Instr α) :
    step Host.kernels f i =
      match i.task with
      | .alloc => beginTemp Host.kernels i.dst.index i.len
      | .free => endTemp Host.kernels i.dst.index
      | .one op => onOne f i (fun dst => Host.backend.one op dst i.len)
      | .two op => onTwo f i (Host.backend.two op)
      | .unknown name => (resolve f i.dst i.len >>= fun _ => Action.fail (.unknownOp name)) := by
  -- The tasks sort the operations in the way in which they are performed.
  unfold step Instr.task
  cases i.op <;> rfl

variable {f : Frame} {m : Machine α} {r : Ref} {v : View}

/-- A buffer that is there is found. -/
theorem bufferOf_ok (found : f.find? m.temps r = some v) : bufferOf f r m = .ok v m := by
  simp only [Frame.find?] at found
  unfold bufferOf
  -- Each space has its own place to look, and both sides look there.
  cases space : r.space with
  | value =>
    simp only [space, Option.some.injEq] at found
    simp [found]
  | deriv =>
    simp only [space, Option.some.injEq] at found
    simp [found]
  | var =>
    simp only [space] at found
    simp [found]
  | temp =>
    simp only [space] at found
    simp [found]
  | other code above => simp [space] at found

/-- Elements that lie inside their buffer are found. -/
theorem resolve_ok {k n : Nat} (found : f.find? m.temps r = some v)
    (start : r.offset = Int64.ofNat k) (inside : k + n ≤ v.length) (bounded : k + n < 2 ^ 63) :
    resolve f r (Int64.ofNat n) m = .ok ((v.drop k).take n) m := by
  -- Start and end are exact, so all comparisons are those of the counts.
  have last : (r.offset + Int64.ofNat n).toInt = k + n := by
    rw [start, ← Int64.ofNat_add, Int64.toInt_ofNat_of_lt bounded]
    omega
  have first : r.offset.toInt = k := by rw [start, Int64.toInt_ofNat_of_lt (by omega)]
  have nonneg : ¬ r.offset < 0 := by
    rw [start]
    exact ofNat_not_neg (by omega)
  have within : ¬ (r.offset + Int64.ofNat n).toInt > v.length := by omega
  have forward : ¬ r.offset + Int64.ofNat n < r.offset := by
    rw [Int64.lt_iff_toInt_lt, last, first]
    omega
  have starts : r.offset.toNatClampNeg = k := by
    rw [start, Int64.toNatClampNeg_ofNat_of_lt (by omega)]
  have counts : (Int64.ofNat n).toNatClampNeg = n := Int64.toNatClampNeg_ofNat_of_lt (by omega)
  rw [resolve, Action.bind_ok (bufferOf_ok found)]
  simp only [nonneg, within, forward, starts, counts, decide_false, Bool.or_self,
    Bool.false_eq_true, if_false]
  rfl

/-- A kernel that goes through on memory goes through on the machine. -/
theorem onHost_ok {τ : Type} {kernel : Action (Host α) StepError τ} {x : τ} {h : Host α}
    (ran : kernel m.host = .ok x h) : onHost kernel m = .ok x { m with host := h } :=
  -- The other parts of the machine are put back around the memory.
  Action.focus_ok ran

/-- A kernel that stops stops the machine. -/
theorem onHost_error {τ : Type} {kernel : Action (Host α) StepError τ} {h : Host α}
    {halt : Halt StepError} (stopped : kernel m.host = .error halt h) :
    onHost kernel m = .error halt { m with host := h } :=
  -- The other parts of the machine are put back around the memory.
  Action.focus_error stopped

section Steps

variable [Elem α] {i : Instr α} {src dst view : View} {h : Host α} {index len : Int64}

/-- An operation on one operand changes its elements. -/
theorem onOne_ok (op : Unary α) (found : resolve f i.dst i.len m = .ok dst m)
    (long : i.len.toInt ≤ dst.length) :
    onOne f i (fun dst => Host.backend.one op dst i.len) m =
      .ok () { m with
        host := m.host.afterChunks i.len (op.onRange dst)
        meter := m.meter.kernel i.op } :=
  -- The operand is found first, then its elements are changed, and then the call is counted.
  (Action.bind_ok found).trans (Action.bind_ok (onHost_ok (Host.one_ok op long m.host)))

/-- An operation on two operands changes the elements of the destination. -/
theorem onTwo_ok (op : Binary) (target : resolve f i.dst i.len m = .ok dst m)
    (source : resolve f i.src i.len m = .ok src m) (long : i.len.toInt ≤ dst.length)
    (enough : i.len.toInt ≤ src.length) :
    onTwo f i (Host.backend.two op) m =
      .ok () { m with
        host := m.host.afterChunks i.len (op.onRange src dst)
        meter := m.meter.kernel i.op } :=
  -- Both operands are found before any element is changed.
  (Action.bind_ok target).trans ((Action.bind_ok source).trans
    (Action.bind_ok (onHost_ok (Host.two_ok op enough long m.host))))

/-- A temporary begins with the block that memory lends. -/
theorem beginTemp_ok
    (lent : (Host.alloc len : Action (Host α) StepError _) m.host = .ok (.ok view) h) :
    beginTemp Host.kernels index len m =
      .ok () { m with
        host := h
        meter := (m.meter.kernel .alloc).alloc len.toInt
        temps := m.temps.insert index view } :=
  -- The block is counted and entered only after it was lent.
  Action.bind_ok (onHost_ok lent)

/-- A temporary does not begin when memory refuses its block. -/
theorem beginTemp_refused {cause : AllocError}
    (refused : (Host.alloc len : Action (Host α) StepError _) m.host = .ok (.error cause) h) :
    beginTemp Host.kernels index len m = .error (.error (.alloc cause)) { m with host := h } :=
  -- An error of memory is handed on before anything is counted.
  Action.bind_ok (onHost_ok refused)

/-- A temporary ends when memory takes its block back. -/
theorem endTemp_ok (known : m.temps.find? index = some view)
    (freed : (Host.free view : Action (Host α) StepError Unit) m.host = .ok () h) :
    endTemp Host.kernels index m =
      .ok () { m with
        host := h
        meter := (m.meter.kernel .free).release view.length
        temps := m.temps.erase index } := by
  -- The temporary is forgotten first, which memory does not see.
  unfold endTemp
  rw [Action.get_bind, known, Action.modify_bind]
  exact Action.bind_ok (onHost_ok (m := { m with temps := m.temps.erase index }) freed)

end Steps

/-- Without a limit on its patience a machine goes on. -/
theorem poll_ok (patient : m.patience = none) (pc : Nat) :
    (poll pc : Action (Machine α) RunError Unit) m = .ok () m := by
  -- Without a limit there is nothing to use up.
  unfold poll
  rw [Action.get_bind, patient]
  rfl

/-- Instructions are performed in one go or in two. -/
theorem perform_append [Written α] (k : MachineKernels α) (f : Frame) (pc : Nat)
    (first second : List (Instr α)) :
    perform k f pc (first ++ second) =
      (do perform k f pc first; perform k f (pc + first.length) second) := by
  -- The position moves on with every instruction of the first part.
  induction first generalizing pc with
  | nil => simp [perform]
  | cons i rest ih =>
    simp only [List.cons_append, perform, ih, bind_assoc, List.length_cons]
    rw [Nat.add_assoc, Nat.add_comm 1]

/-- One more instruction is performed after the others. -/
theorem perform_concat [Written α] {k : MachineKernels α} {m' m'' : Machine α} {pc : Nat}
    {done : List (Instr α)} {i : Instr α} (performed : perform k f pc done m = .ok () m')
    (patient : m'.patience = none) (stepped : step k f i m' = .ok () m'') :
    perform k f pc (done ++ [i]) m = .ok () m'' := by
  -- The machine is asked before the step, and nothing follows it.
  rw [perform_append]
  refine (Action.bind_ok performed).trans ((Action.bind_ok (poll_ok patient _)).trans ?_)
  exact (Action.bind_ok (Action.adapt_ok stepped)).trans rfl

/-- Nothing is given back without temporaries. -/
theorem releaseAll_nil (k : MachineKernels α) (returned : m.temps = []) :
    releaseAll k m = .ok () m := by
  -- The table is looked at first, and it is empty.
  unfold releaseAll
  rw [Action.get_bind]
  simp only [returned]
  rfl

/-- A run that performs its instructions and gives everything back goes through. -/
theorem run_ok [Written α] {k : MachineKernels α} {p : Program α} {memory : Memory}
    {m' : Machine α} (prepared : prepare p memory = .ok f)
    (performed : perform k f 0 p.instrs m = .ok () m') (returned : m'.temps = []) :
    run k p memory m = .ok () { m' with meter := m'.meter.run true } := by
  have body : counted (perform k f 0 p.instrs) m =
      .ok () { m' with meter := m'.meter.run true } := by
    rw [counted, performed]
  -- With nothing left to give back, the end of the run changes nothing.
  have close : (releaseAll k) { m' with meter := m'.meter.run true } =
      .ok () { m' with meter := m'.meter.run true } := releaseAll_nil k returned
  rw [run, prepared]
  exact Action.closing_ok body (Action.adapt_ok close)

end Machine

end Tangent
