import Tangent.Proofs.Exec.Step
import Tangent.Proofs.Vector.Host

/-!
A program that the check accepts runs safely.

While it runs, the machine has the temporaries that the check counts as live, each with a block of
the size the check knows, so every operand that was accepted is found.
-/

namespace Tangent

variable {α : Type}

/-- An instruction whose operands end before machine integers do, and whose block can be lent. -/
structure Instr.Small (i : Instr α) : Prop where
  dst : i.dst.offset.toInt ≤ 2 ^ 48
  src : i.src.offset.toInt ≤ 2 ^ 48
  len : i.len.toInt ≤ 2 ^ 48
  block : i.op = .alloc → i.len.toInt ≤ Host.room

/-- An operand whose end is out of reach of machine integers, so that its sum wraps around. -/
def Ref.Wraps (r : Ref) (n : Int64) : Prop := 2 ^ 63 ≤ r.offset.toInt + n.toInt

/-- The operands whose elements an instruction works on, in the order they are looked for. -/
def Instr.operands (i : Instr α) : List Ref :=
  match i.task with
  | .one _ => [i.dst]
  | .two _ => [i.dst, i.src]
  | _ => []

/-- An instruction that works on an operand whose end wraps around. -/
def Instr.Wraps (i : Instr α) : Prop := ∃ r ∈ i.operands, r.Wraps i.len

/-- No operand of a small instruction comes near the end of the machine integers. -/
theorem Instr.Small.exact {i : Instr α} (small : i.Small) : ¬ i.Wraps := by
  -- Its operands are among its two references, and both have small offsets.
  rintro ⟨r, listed, wraps⟩
  have near : r = i.dst ∨ r = i.src := by
    unfold Instr.operands at listed
    split at listed <;> simp_all
  have := small.len
  unfold Ref.Wraps at wraps
  rcases near with rfl | rfl
  · have := small.dst
    omega
  · have := small.src
    omega

/-- The elements of an operand lie in a buffer, from position `k` on. -/
structure Frame.Lies (f : Frame) (temps : TempTable View) (r : Ref) (len : Int64) (buffer : View)
    (k n : Nat) : Prop where
  found : f.find? temps r = some buffer
  start : r.offset = Int64.ofNat k
  count : len = Int64.ofNat n
  inside : k + n ≤ buffer.length
  bounded : k + n < 2 ^ 63

/-- Elements that lie in a buffer are a part of it. -/
theorem Frame.Lies.part_eq {f : Frame} {temps : TempTable View} {r : Ref} {len : Int64}
    {buffer : View} {k n : Nat} (lies : f.Lies temps r len buffer k n) :
    f.part temps r len = (buffer.drop k).take n := by
  -- Both numbers are small, so they come back unchanged from machine integers.
  have bounded := lies.bounded
  simp only [Frame.part, lies.found, lies.start, lies.count, Option.getD_some,
    Int64.toNatClampNeg_ofNat_of_lt (show k < 2 ^ 63 by omega),
    Int64.toNatClampNeg_ofNat_of_lt (show n < 2 ^ 63 by omega)]

/-- Operands of one length have as many elements. -/
theorem Frame.Lies.count_unique {f : Frame} {temps : TempTable View} {r r' : Ref} {len : Int64}
    {buffer buffer' : View} {k k' n n' : Nat} (lies : f.Lies temps r len buffer k n)
    (lies' : f.Lies temps r' len buffer' k' n') : n = n' := by
  -- Both numbers are small, so the one machine integer stands for either.
  have bounded := lies.bounded
  have bounded' := lies'.bounded
  have same := congrArg Int64.toInt (lies.count.symm.trans lies'.count)
  rw [Int64.toInt_ofNat_of_lt (by omega), Int64.toInt_ofNat_of_lt (by omega)] at same
  omega

namespace Program

variable {p : Program α} {v v' : Validation} {pc : Nat} {r : Ref} {n : Int64} {i : Instr α}

/-- What the check accepts ends inside its buffer, or wraps around to a negative end. -/
theorem checkOperand_cases (accepted : p.checkOperand v pc r n = .ok ()) :
    ∃ size, p.operandSize v pc r = .ok size ∧ 0 ≤ r.offset ∧ 0 ≤ n ∧
      (¬ r.Wraps n ∧ r.offset.toInt + n.toInt ≤ size.toInt ∨
        r.Wraps n ∧ (r.offset + n).toInt < 0) := by
  obtain ⟨size, known, nonneg, forward, inside⟩ := checkOperand_eq_ok.mp accepted
  refine ⟨size, known, nonneg, forward, ?_⟩
  rw [Int64.le_iff_toInt_le, Int64.toInt_zero] at nonneg forward
  rw [Int64.le_iff_toInt_le] at inside
  have first := Int64.toInt_lt r.offset
  have last := Int64.toInt_lt n
  -- The sum of two numbers below `2 ^ 63` wraps around at most once.
  have sum := Int64.toInt_add r.offset n
  rw [Int.bmod_def] at sum
  unfold Ref.Wraps
  split at sum <;> omega

/-- An accepted instruction works on accepted operands. -/
theorem Accepted.checkOperand (accepted : p.Accepted v pc i v') (listed : r ∈ i.operands) :
    p.checkOperand v pc r i.len = .ok () := by
  -- Only tasks on one or two operands have any, and all of them were checked.
  unfold Accepted at accepted
  unfold Instr.operands at listed
  cases task : i.task with
  | one op =>
    simp only [task, List.mem_singleton] at accepted listed
    exact listed ▸ accepted.1
  | two op =>
    simp only [task, List.mem_cons, List.not_mem_nil, or_false] at accepted listed
    rcases listed with rfl | rfl
    · exact accepted.2.1
    · exact accepted.1
  | _ => simp [task] at listed

end Program

/-- Memory that has elements for all paths of a program, in both registers and for each variable. -/
structure Memory.Covers (memory : Memory) (p : Program α) : Prop where
  value : p.paths.toInt ≤ memory.value.length
  deriv : p.paths.toInt ≤ memory.deriv.length
  vars : ∀ name ∈ p.vars, ∃ v, memory.vars.find? name = some v ∧ p.paths.toInt ≤ v.length

/-- A frame that has elements for all paths of a program. -/
structure Frame.Covers (f : Frame) (p : Program α) : Prop where
  value : p.paths.toInt ≤ f.value.length
  deriv : p.paths.toInt ≤ f.deriv.length
  vars : ∀ i < p.vars.length, ∃ v, f.vars[i]? = some v ∧ p.paths.toInt ≤ v.length

/-- Memory that covers a safe program makes a frame that does. -/
theorem Memory.Covers.prepare [Written α] {memory : Memory} {p : Program α}
    (covers : memory.Covers p) (safe : p.validate = .ok ()) :
    ∃ f, Machine.prepare p memory = .ok f ∧ f.Covers p := by
  obtain ⟨views, bound, found⟩ := Frame.bindVars_ok covers.vars
  refine ⟨⟨memory.value, memory.deriv, views⟩,
    Machine.prepare_ok safe covers.value covers.deriv bound, covers.value, covers.deriv,
    fun i inside => ?_⟩
  -- A variable is found in the frame at the position of its name.
  obtain ⟨v, known, long⟩ := covers.vars p.vars[i] (List.getElem_mem inside)
  exact ⟨v, by rw [found, List.getElem?_eq_getElem inside]; exact known, long⟩

/-- The temporaries of a machine are those that the check knows, each with a block on loan. -/
structure Machine.Tracks (m : Machine α) (v : Validation) : Prop where
  sizes : v.live = m.temps.mapValues (fun view => Int64.ofNat view.length)
  blocks : ∀ entry ∈ m.temps, entry.2.start = 0 ∧ 0 < entry.2.length ∧
    entry.2.length ≤ Host.room ∧ entry.2.block < m.host.store.blocks.size ∧
    (m.host.live.lookup entry.2.block).isSome
  distinct : m.temps.Pairwise (fun a b => b.2.block ≠ a.2.block)

/-- The ways in which a run of a safe program may end early. -/
inductive RunError.Excused (limit : Int64) (patience : Option Nat) : RunError → Prop where
  | refused (pc : Nat) (instr : String) (cause : AllocError) (limited : 0 < limit) :
    Excused limit patience (.step pc instr (.alloc cause))
  | canceled (pc : Nat) (impatient : patience ≠ none) : Excused limit patience (.canceled pc)

/-- An excuse holds for every run that could be called off as well. -/
theorem RunError.Excused.mono {limit : Int64} {patience patience' : Option Nat} {cause : RunError}
    (excused : cause.Excused limit patience) (impatient : patience ≠ none → patience' ≠ none) :
    cause.Excused limit patience' := by
  -- A refused block has nothing to do with patience.
  cases excused with
  | refused pc instr cause limited => exact .refused pc instr cause limited
  | canceled pc called => exact .canceled pc (impatient called)

/-- Entries of a list that differ pairwise in a key have different keys. -/
theorem ne_of_pairwise {β γ : Type} {key : β → γ} {list : List β}
    (distinct : list.Pairwise (fun a b => key b ≠ key a)) {a b : β} (first : a ∈ list)
    (second : b ∈ list) (differ : a ≠ b) : key b ≠ key a := by
  -- The order in which the two come does not matter.
  have symmetric : Std.Symm (fun a b => key b ≠ key a) := ⟨fun _ _ differ => differ.symm⟩
  exact distinct.forall first second differ

/-- Loans of other blocks are not touched when one is taken back. -/
theorem lookup_filter_ne {live : List (Nat × Int64)} {block other : Nat} (differ : other ≠ block) :
    (live.filter (fun entry => entry.1 != block)).lookup other = live.lookup other := by
  induction live with
  | nil => rfl
  | cons entry rest ih =>
    obtain ⟨held, size⟩ := entry
    by_cases same : held = block
    · -- The loan that goes is not the one that is looked for.
      subst same
      have apart : (other == held) = false := by simpa using differ
      simp [ih, List.lookup, apart]
    · simp [same, ih, List.lookup]

namespace Machine

/-- A run goes on, or is called off because it could be. -/
theorem poll_cases (m : Machine α) (pc : Nat) :
    (∃ m', (poll pc : Action (Machine α) RunError Unit) m = .ok () m' ∧ m'.host = m.host ∧
      m'.temps = m.temps ∧ (m'.patience ≠ none → m.patience ≠ none)) ∨
    (poll pc : Action (Machine α) RunError Unit) m = .error (.error (.canceled pc)) m ∧
      m.patience ≠ none := by
  unfold poll
  rw [Action.get_bind]
  -- Patience is without end, used up, or less by one afterwards.
  cases patience : m.patience with
  | none => exact .inl ⟨m, rfl, rfl, rfl, by simp [patience]⟩
  | some left =>
    cases left with
    | zero => exact .inr ⟨rfl, by simp⟩
    | succ left => exact .inl ⟨{ m with patience := some left }, rfl, rfl, rfl, by simp⟩

/-- Temporaries with blocks of their own on loan are given back one after the other. -/
theorem releaseEach_ok [Elem α] {entries : List (Int64 × View)} {m : Machine α}
    (blocks : ∀ entry ∈ entries, entry.2.start = 0 ∧ 0 < entry.2.length ∧
      (m.host.live.lookup entry.2.block).isSome)
    (distinct : entries.Pairwise (fun a b => b.2.block ≠ a.2.block)) :
    ∃ m', releaseEach Host.kernels entries m = .ok () m' := by
  -- Taking one block back leaves the loans of the others.
  induction entries generalizing m with
  | nil => exact ⟨m, rfl⟩
  | cons entry rest ih =>
    obtain ⟨start, nonempty, lent⟩ := blocks entry (by simp)
    obtain ⟨size, found⟩ := Option.isSome_iff_exists.mp lent
    obtain ⟨apart, others⟩ := List.pairwise_cons.mp distinct
    have freed := onHost_ok (m := m) (Host.free_live start nonempty found)
    obtain ⟨m', released⟩ := ih (m := { m with
        host := { m.host with
          live := m.host.live.filter (fun held => held.1 != entry.2.block)
          liveElements := m.host.liveElements - size }
        meter := m.meter.release entry.2.length
        temps := m.temps.erase entry.1 })
      (fun other listed => by
        obtain ⟨start, nonempty, lent⟩ := blocks other (by simp [listed])
        exact ⟨start, nonempty, by rw [lookup_filter_ne (apart other listed)]; exact lent⟩) others
    exact ⟨m', (Action.bind_ok freed).trans released⟩

end Machine

namespace Machine.Tracks

variable {m : Machine α} {v v' : Validation} {f : Frame} {p : Program α} {pc : Nat} {r : Ref}
  {n : Int64}

/-- Every operand whose size the check knows has a buffer of at least that size. -/
theorem exists_buffer (tracks : m.Tracks v) (covers : f.Covers p) {size : Int64}
    (known : p.operandSize v pc r = .ok size) :
    ∃ buffer, f.find? m.temps r = some buffer ∧ size.toInt ≤ buffer.length := by
  unfold Program.operandSize at known
  unfold Frame.find?
  -- The check and the frame look into the same space.
  cases space : r.space with
  | value =>
    simp only [space, Except.ok.injEq] at known
    exact ⟨f.value, rfl, known ▸ covers.value⟩
  | deriv =>
    simp only [space, Except.ok.injEq] at known
    exact ⟨f.deriv, rfl, known ▸ covers.deriv⟩
  | var =>
    simp only [space] at known
    split at known
    · simp at known
    · -- The check has compared the number of the variable with how many there are.
      rename_i inside
      simp only [Bool.or_eq_true, decide_eq_true_eq, not_or] at inside
      obtain ⟨k, index, count⟩ := exists_eq_ofNat (Int64.not_lt.mp inside.1)
      obtain ⟨view, found, long⟩ := covers.vars k (by omega)
      have clamped : r.index.toNatClampNeg = k := by rw [Int64.toNatClampNeg, count]; rfl
      refine ⟨view, ?_, ?_⟩
      · simp [inside.1, clamped, found]
      · simpa using (Except.ok.inj known) ▸ long
  | temp =>
    simp only [space, tracks.sizes, TempTable.find?_mapValues] at known
    cases found : m.temps.find? r.index with
    | none => simp [found] at known
    | some view =>
      -- The size that the check knows is that of the block, which is small enough to be exact.
      refine ⟨view, rfl, ?_⟩
      simp only [found, Option.map_some, Except.ok.injEq] at known
      obtain ⟨entry, listed, same⟩ := Option.map_eq_some_iff.mp found
      have small := (tracks.blocks entry (List.mem_of_find?_eq_some listed)).2.2.1
      rw [same] at small
      rw [← known, Host.toInt_ofNat_of_le_room small]
  | other code above => simp [space] at known

/-- Elements that the check accepts lie in a buffer if their end is within reach of integers. -/
theorem exists_lies (tracks : m.Tracks v) (covers : f.Covers p)
    (accepted : p.checkOperand v pc r n = .ok ()) (exact : ¬ r.Wraps n) :
    ∃ buffer k l, f.Lies m.temps r n buffer k l := by
  -- The check compares offset and length with a size, and the buffer is as long as that at least.
  obtain ⟨size, known, nonneg, forward, inside⟩ := Program.checkOperand_cases accepted
  obtain ⟨buffer, found, long⟩ := tracks.exists_buffer covers known
  obtain ⟨k, offset, first⟩ := exists_eq_ofNat nonneg
  obtain ⟨l, count, last⟩ := exists_eq_ofNat forward
  obtain ⟨_, inside⟩ := inside.resolve_right (fun wraps => exact wraps.1)
  have bounded := exact
  rw [Ref.Wraps, first, last] at bounded
  exact ⟨buffer, k, l, found, offset, count, by omega, by omega⟩

/-- Elements that the check accepts are found if their end is within reach of machine integers. -/
theorem resolve_exact (tracks : m.Tracks v) (covers : f.Covers p)
    (accepted : p.checkOperand v pc r n = .ok ()) (exact : ¬ r.Wraps n) :
    Machine.resolve f r n m = .ok (f.part m.temps r n) m ∧
      n.toInt ≤ (f.part m.temps r n).length := by
  -- The part starts inside the buffer and ends inside of it.
  obtain ⟨buffer, k, l, lies⟩ := tracks.exists_lies covers accepted exact
  have inside := lies.inside
  have count := Int64.toInt_ofNat_of_lt (show l < 2 ^ 63 by have := lies.bounded; omega)
  rw [lies.part_eq]
  obtain rfl := lies.count
  refine ⟨Machine.resolve_ok lies.found lies.start inside lies.bounded, ?_⟩
  rw [count]
  simp only [View.take, View.drop]
  omega

/-- Elements that the check accepts although their end wraps around lead out of memory. -/
theorem resolve_wraps (tracks : m.Tracks v) (covers : f.Covers p)
    (accepted : p.checkOperand v pc r n = .ok ()) (wraps : r.Wraps n) :
    Machine.resolve f r n m = .error (.fault .access) m := by
  obtain ⟨size, known, nonneg, _, inside⟩ := Program.checkOperand_cases accepted
  obtain ⟨buffer, found, _⟩ := tracks.exists_buffer covers known
  obtain ⟨_, negative⟩ := inside.resolve_left (fun exact => exact.1 wraps)
  -- The end is negative, which every comparison but the last lets through.
  have short : ¬ (r.offset + n).toInt > buffer.length := by omega
  have backward : r.offset + n < r.offset := by
    rw [Int64.le_iff_toInt_le, Int64.toInt_zero] at nonneg
    rw [Int64.lt_iff_toInt_lt]
    omega
  unfold Machine.resolve
  rw [Action.bind_ok (Machine.bufferOf_ok found)]
  simp only [Int64.not_lt.mpr nonneg, short, backward, decide_false, Bool.or_self,
    Bool.false_eq_true, if_false, if_true]
  rfl

/-- How one instruction ends: it is performed, or memory with a limit refuses a block. -/
def Ends (m : Machine α) (v v' : Validation) (step : Action (Machine α) StepError Unit) : Prop :=
  (∃ m', step m = .ok () m' ∧ m'.Tracks v' ∧ m'.patience = m.patience ∧
    m'.host.limit = m.host.limit) ∨
  ∃ cause m', step m = .error (.error (.alloc cause)) m' ∧ m'.Tracks v ∧ 0 < m.host.limit

/-- Kernels keep the temporaries. -/
theorem afterChunks (tracks : m.Tracks v) (len : Int64) {work : Nat → Nat → Store α → Store α}
    (still : ∀ start count s, (work start count s).blocks.size = s.blocks.size) (meter : Meter) :
    Machine.Tracks { m with host := m.host.afterChunks len work, meter } v where
  sizes := tracks.sizes
  blocks entry found := by
    -- Kernels change elements, they neither add blocks nor touch loans.
    have size : (m.host.afterChunks len work).store.blocks.size = m.host.store.blocks.size :=
      Host.size_afterChunks _ _ still
    show _ ∧ _ ∧ _ ∧ entry.2.block < (m.host.afterChunks len work).store.blocks.size ∧ _
    rw [size]
    exact tracks.blocks entry found
  distinct := tracks.distinct

variable [Elem α] {i : Instr α}

/-- A temporary begins, or memory with a limit refuses its block. -/
theorem beginTemp (tracks : m.Tracks v) {index len : Int64} (positive : 0 < len)
    (small : len.toInt ≤ Host.room) (seen : TempTable Unit) :
    Ends m v ⟨v.live.insert index len, seen⟩ (Machine.beginTemp Host.kernels index len) := by
  -- The size of the block is a positive count that memory can lend.
  obtain ⟨n, rfl, count⟩ := exists_eq_ofNat (Int64.le_of_lt positive)
  rw [Int64.lt_iff_toInt_lt, Int64.toInt_zero] at positive
  have few : n ≤ Host.room := by omega
  have some : 0 < n := by omega
  cases refusal : Host.refusal m.host.limit m.host.liveElements (Int64.ofNat n) with
  | some cause =>
    -- Only memory with a limit refuses.
    refine .inr ⟨cause, _, Machine.beginTemp_refused (Host.alloc_refused some few refusal),
      tracks, ?_⟩
    by_contra unlimited
    rw [Host.refusal_eq_none (Int64.not_lt.mp unlimited)] at refusal
    exact absurd refusal (by simp)
  | none =>
    refine .inl ⟨_, Machine.beginTemp_ok (Host.alloc_granted some few refusal), ?_, rfl, rfl⟩
    have kept : ∀ entry ∈ m.temps.erase index, entry ∈ m.temps :=
      fun entry found => List.mem_of_mem_filter found
    exact {
      sizes := by
        show TempTable.insert v.live index (Int64.ofNat n) = _
        rw [tracks.sizes]
        exact TempTable.insert_mapValues (fun view : View => Int64.ofNat view.length) m.temps index
          (m.host.nextBlock n)
      blocks := fun entry found => by
        show _ ∧ _ ∧ _ ∧ entry.2.block < (m.host.lend n).store.blocks.size ∧
          ((m.host.lend n).live.lookup entry.2.block).isSome
        rw [Host.size_lend]
        -- The new block has the next number, which no earlier loan has.
        rcases List.mem_cons.mp found with rfl | found
        · exact ⟨rfl, some, few, Nat.lt_succ_self _, by simp [Host.lend, Host.nextBlock]⟩
        · obtain ⟨start, nonempty, short, there, lent⟩ := tracks.blocks entry (kept entry found)
          exact ⟨start, nonempty, short, Nat.lt_succ_of_lt there,
            by rwa [m.host.lookup_lend n there]⟩
      distinct := List.pairwise_cons.mpr
        ⟨fun entry found => Nat.ne_of_lt (tracks.blocks entry (kept entry found)).2.2.2.1,
          tracks.distinct.sublist List.filter_sublist⟩ }

omit [Elem α] in
/-- A temporary that stays has another block than the one that ends. -/
theorem block_ne (tracks : m.Tracks v) {index : Int64} {view : View}
    (known : m.temps.find? index = some view) {other : Int64 × View}
    (remains : other ∈ m.temps.erase index) : other.2.block ≠ view.block := by
  obtain ⟨entry, found, rfl⟩ := Option.map_eq_some_iff.mp known
  have named : entry.1 = index := by simpa using List.find?_some found
  obtain ⟨among, renamed⟩ := List.mem_filter.mp remains
  refine ne_of_pairwise tracks.distinct (List.mem_of_find?_eq_some found) among ?_
  -- What stays has another number.
  rintro rfl
  simp [named] at renamed

/-- A live temporary ends. -/
theorem endTemp (tracks : m.Tracks v) {index : Int64} (live : (v.live.find? index).isSome) :
    Ends m v ⟨v.live.erase index, v.seen⟩ (Machine.endTemp Host.kernels index) := by
  -- What the check counts as live the machine has, with its block on loan.
  rw [tracks.sizes, TempTable.find?_mapValues, Option.isSome_map] at live
  obtain ⟨view, known⟩ := Option.isSome_iff_exists.mp live
  obtain ⟨entry, found, rfl⟩ := Option.map_eq_some_iff.mp known
  obtain ⟨start, nonempty, _, _, lent⟩ := tracks.blocks entry (List.mem_of_find?_eq_some found)
  obtain ⟨size, lookup⟩ := Option.isSome_iff_exists.mp lent
  refine .inl ⟨_, Machine.endTemp_ok known (Host.free_live start nonempty lookup), ?_, rfl, rfl⟩
  exact {
    sizes := by
      show TempTable.erase v.live index = _
      rw [tracks.sizes]
      exact TempTable.erase_mapValues _ m.temps index
    blocks := fun other remains => by
      -- Another temporary has another block, whose loan goes on.
      obtain ⟨start, nonempty, short, there, lent⟩ :=
        tracks.blocks other (List.mem_of_mem_filter remains)
      refine ⟨start, nonempty, short, there, ?_⟩
      rw [lookup_filter_ne (tracks.block_ne known remains)]
      exact lent
    distinct := tracks.distinct.sublist List.filter_sublist }

/-- An instruction that the check accepts is performed, unless its block is refused. -/
theorem step (tracks : m.Tracks v) (covers : f.Covers p) (exact : ¬ i.Wraps)
    (block : i.op = .alloc → i.len.toInt ≤ Host.room) (accepted : p.Accepted v pc i v') :
    Ends m v v' (Machine.step Host.kernels f i) := by
  have resolve {r : Ref} (listed : r ∈ i.operands) :=
    tracks.resolve_exact covers (accepted.checkOperand listed)
      (fun wraps => exact ⟨r, listed, wraps⟩)
  -- Check and machine treat an instruction by its task.
  rw [Machine.step_eq]
  unfold Program.Accepted at accepted
  cases task : i.task with
  | alloc =>
    simp only [task] at accepted ⊢
    obtain ⟨positive, _, rfl⟩ := accepted
    exact tracks.beginTemp positive (block (Instr.task_eq_alloc.mp task)) _
  | free =>
    simp only [task] at accepted ⊢
    obtain ⟨live, rfl⟩ := accepted
    exact tracks.endTemp live
  | one op =>
    simp only [task] at accepted ⊢
    obtain ⟨_, rfl⟩ := accepted
    obtain ⟨found, long⟩ := resolve (r := i.dst) (by simp [Instr.operands, task])
    exact .inl ⟨_, Machine.onOne_ok op found long, tracks.afterChunks _ (op.size_onRange _) _,
      rfl, rfl⟩
  | two op =>
    simp only [task] at accepted ⊢
    obtain ⟨_, _, rfl⟩ := accepted
    obtain ⟨found, long⟩ := resolve (r := i.dst) (by simp [Instr.operands, task])
    obtain ⟨found', long'⟩ := resolve (r := i.src) (by simp [Instr.operands, task])
    exact .inl ⟨_, Machine.onTwo_ok op found found' long long',
      tracks.afterChunks _ (op.size_onRange _ _) _, rfl, rfl⟩
  | unknown name => simp [task] at accepted

/-- Accepted instructions are performed to their end, unless the run has an excuse. -/
theorem perform [Written α] (covers : f.Covers p) {is : List (Instr α)}
    (small : ∀ i ∈ is, i.Small) :
    ∀ {m : Machine α} {v : Validation} {pc : Nat}, m.Tracks v →
      p.checkInstrs v pc is = .ok v' →
      (∃ m', Machine.perform Host.kernels f pc is m = .ok () m' ∧ m'.Tracks v') ∨
      ∃ cause m' w, Machine.perform Host.kernels f pc is m = .error (.error cause) m' ∧
        cause.Excused m.host.limit m.patience ∧ m'.Tracks w := by
  -- The machine tracks what the check knows, before and after each instruction.
  induction is with
  | nil =>
    intro m v pc tracks checked
    exact .inl ⟨m, rfl, Except.ok.inj checked ▸ tracks⟩
  | cons i rest ih =>
    intro m v pc tracks checked
    obtain ⟨w, accepted, others⟩ := Program.checkInstrs_cons_ok checked
    rcases poll_cases m pc with ⟨m₁, polled, host, temps, impatient⟩ | ⟨called, impatient⟩
    · -- Asking changes the patience only.
      have tracks : m₁.Tracks v := ⟨temps ▸ tracks.sizes, by rw [host, temps]; exact tracks.blocks,
        temps ▸ tracks.distinct⟩
      rcases tracks.step covers (small i (by simp)).exact (small i (by simp)).block accepted with
        ⟨m₂, stepped, tracks, patience, limit⟩ | ⟨cause, m₂, refused, tracks, limited⟩
      · have begun : Machine.perform Host.kernels f pc (i :: rest) m =
            Machine.perform Host.kernels f (pc + 1) rest m₂ :=
          (Action.bind_ok polled).trans (Action.bind_ok (Action.adapt_ok stepped))
        rw [begun]
        rcases ih (fun i listed => small i (by simp [listed])) tracks others with
          done | ⟨cause, m₃, w, stopped, excused, tracks⟩
        · exact .inl done
        · -- An excuse of the rest is one of the whole, since limits stay and patience wears off.
          rw [limit, host, patience] at excused
          exact .inr ⟨cause, m₃, w, stopped, excused.mono impatient, tracks⟩
      · rw [host] at limited
        exact .inr ⟨_, m₂, v, (Action.bind_ok polled).trans
          (Action.bind_error (Action.adapt_error refused)), .refused _ _ _ limited, tracks⟩
    · exact .inr ⟨_, m, v, Action.bind_error called, .canceled _ impatient, tracks⟩

/-- Every temporary is given back. -/
theorem releaseAll (tracks : m.Tracks v) : ∃ m', Machine.releaseAll Host.kernels m = .ok () m' := by
  -- Only what the machine has on loan is given back.
  have lent : ∀ entry ∈ m.temps, entry.2.start = 0 ∧ 0 < entry.2.length ∧
      (m.host.live.lookup entry.2.block).isSome := by
    intro entry listed
    obtain ⟨start, nonempty, _, _, lent⟩ := tracks.blocks entry listed
    exact ⟨start, nonempty, lent⟩
  exact releaseEach_ok (m := m) lent tracks.distinct

end Machine.Tracks

variable [Elem α] [Written α] {p : Program α} {memory : Memory}

/-- A safe program runs to its end in a frame that covers it, unless the run has an excuse. -/
theorem Machine.runIn_safe {f : Frame} (covers : f.Covers p) (safe : p.validate = .ok ())
    (small : ∀ i ∈ p.instrs, i.Small) {m : Machine α} (unused : m.temps = []) :
    (∃ m', Machine.runIn Host.kernels p f m = .ok () m') ∨
    ∃ cause m', Machine.runIn Host.kernels p f m = .error (.error cause) m' ∧
      cause.Excused m.host.limit m.patience := by
  -- A machine without temporaries tracks what the check starts from.
  obtain ⟨_, v, checked⟩ := Program.checkInstrs_of_validate safe
  have start : m.Tracks ⟨[], []⟩ := ⟨by rw [unused]; rfl, by simp [unused], by simp [unused]⟩
  rcases start.perform covers small checked with
    ⟨m₁, performed, tracks⟩ | ⟨cause, m₁, w, stopped, excused, tracks⟩
  · have body : Machine.counted (Machine.perform Host.kernels f 0 p.instrs) m =
        .ok () { m₁ with meter := m₁.meter.run true } := by
      rw [Machine.counted, performed]
    obtain ⟨m₂, released⟩ := Machine.Tracks.releaseAll
      (m := { m₁ with meter := m₁.meter.run true }) ⟨tracks.sizes, tracks.blocks, tracks.distinct⟩
    exact .inl ⟨m₂, Action.closing_ok body (Action.adapt_ok released)⟩
  · -- A run that ends early has its temporaries left, and gives them back all the same.
    have body : Machine.counted (Machine.perform Host.kernels f 0 p.instrs) m =
        .error (.error cause) { m₁ with meter := m₁.meter.run false } := by
      rw [Machine.counted, stopped]
    obtain ⟨m₂, released⟩ := Machine.Tracks.releaseAll
      (m := { m₁ with meter := m₁.meter.run false }) ⟨tracks.sizes, tracks.blocks, tracks.distinct⟩
    exact .inr ⟨cause, m₂, Action.closing_error body (Action.adapt_ok released), excused⟩

/-- A safe program runs to its end on memory that covers it, unless the run has an excuse. -/
theorem Machine.run_safe (covers : memory.Covers p) (safe : p.validate = .ok ())
    (small : ∀ i ∈ p.instrs, i.Small) {m : Machine α} (unused : m.temps = []) :
    (∃ m', Machine.run Host.kernels p memory m = .ok () m') ∨
    ∃ cause m', Machine.run Host.kernels p memory m = .error (.error cause) m' ∧
      cause.Excused m.host.limit m.patience := by
  -- With a frame at hand, running is running in it.
  obtain ⟨f, prepared, covered⟩ := covers.prepare safe
  have same : Machine.run Host.kernels p memory m = Machine.runIn Host.kernels p f m := by
    rw [Machine.run, prepared]
    rfl
  rw [same]
  exact Machine.runIn_safe covered safe small unused

end Tangent
