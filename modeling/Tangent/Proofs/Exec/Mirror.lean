import Tangent.Proofs.Exec.Step
import Tangent.Proofs.Program.Recording
import Tangent.Proofs.Vector.Counted
import Tangent.Proofs.Vector.Host

/-!
A walk on memory and the recording of the same walk.

Whatever has been recorded brings a machine, when performed, to the memory that the walk has
reached, with the same blocks on loan under the numbers of their temporaries.
-/

namespace Tangent

variable {α : Type} [Elem α] [Written α]

omit [Elem α] [Written α] in
/-- A tally that agrees with a recording still does after one more call and its instruction. -/
theorem Tally.count_bump_eq_countP {calls : Tally} {recorded : List (Instr α)}
    (agree : ∀ op, calls.count op = recorded.countP (fun i => decide (i.op = op))) (i : Instr α)
    (op : Op) :
    (calls.bump i.op).count op = (i :: recorded).countP (fun i => decide (i.op = op)) := by
  -- Both are raised by one for the operation of the instruction.
  rw [Tally.count_bump, agree op, List.countP_cons]
  by_cases same : i.op = op <;> simp [same]

/--
A walk on memory, with its calls counted, and its recording.

The temporaries of the recording are the blocks on loan, each under its number.
-/
structure Mirror (m₀ : Machine α) (f : Frame) (n : Nat) (names : List String)
    (temps : List (Nat × View)) (loans : Nat) (s : Counted (Host α) View) (r : Recorder α) :
    Prop where
  sound : ∃ next, r.Sound n names temps View.length next ∧ next + loans ≤ 2 ^ 63
  performed : ∃ m, Machine.perform Host.kernels f 0 r.recorded.reverse m₀ = .ok () m ∧
    m.host = s.inner ∧ m.patience = none ∧ m.temps = TempTable.ofEntries id temps
  calls : ∀ op, s.calls.count op = r.recorded.countP (fun i => decide (i.op = op))
  balance : s.calls.count .alloc = s.calls.count .free + temps.length
  elements : s.inner.liveElements = r.liveElements ∧ s.liveElements = r.liveElements ∧
    s.peakElements = r.peakElements
  limit : s.inner.limit = r.limit
  handles : s.handles = temps.map (fun entry => (entry.2, Int64.ofNat entry.2.length))
  lent : s.inner.live = temps.map (fun entry => (entry.2.block, Int64.ofNat entry.2.length))
  blocks : ∀ entry ∈ temps, entry.2.start = 0 ∧ 0 < entry.2.length ∧
    entry.2.block < s.inner.store.blocks.size
  distinct : temps.Pairwise (fun a b => b.2.block ≠ a.2.block)

/-- The refusal of a block in memory and in its recording, with the same numbers. -/
inductive AllocError.Recorded : AllocError → AllocError → Prop where
  | limit (requested inUse limit : Int64) :
    Recorded (.memoryLimit requested inUse limit) (.recordLimit requested inUse limit)

/-- A block of memory and the temporary that stands for it. -/
def Mirror.Whole (loan : Nat × View) (x : View) (y : Ref) : Prop :=
  x = loan.2 ∧ y = ⟨.temp, Int64.ofNat loan.1, 0⟩

/-- A stretch of memory and the operand that stands for it. -/
def Mirror.Same (f : Frame) (n : Nat) (names : List String) (temps : List (Nat × View))
    (area : Area) (m : Nat) (x : View) (y : Ref) : Prop :=
  ∃ base total k buffer, area.At names n temps View.length base total ∧
    y = { base with offset := Int64.ofNat k } ∧ k + m ≤ total ∧
    f.find? (TempTable.ofEntries id temps) base = some buffer ∧ total ≤ buffer.length ∧
    x = buffer.drop k

namespace Mirror

variable {m₀ : Machine α} {f : Frame} {n : Nat} {names : List String} {temps : List (Nat × View)}
  {loans count : Nat} {s : Counted (Host α) View} {r : Recorder α}

/-- One more instruction that works on memory as the walk does. -/
theorem record (mirror : Mirror m₀ f n names temps loans s r) {i : Instr α} {h : Host α}
    (other : i.op ≠ .alloc ∧ i.op ≠ .free)
    (sound : ∀ next, r.Sound n names temps View.length next →
      (r.record i).Sound n names temps View.length next)
    (stepped : ∀ m : Machine α, m.host = s.inner → m.temps = TempTable.ofEntries id temps →
      Machine.step Host.kernels f i m =
        .ok () { m with host := h, meter := m.meter.kernel i.op })
    (still : h.liveElements = s.inner.liveElements ∧ h.limit = s.inner.limit ∧
      h.live = s.inner.live ∧ h.store.blocks.size = s.inner.store.blocks.size) :
    Mirror m₀ f n names temps loans { s with inner := h, calls := s.calls.bump i.op }
      (r.record i) where
  sound := by
    obtain ⟨next, ok, room⟩ := mirror.sound
    exact ⟨next, sound next ok, room⟩
  performed := by
    -- What was recorded before leads to the memory that the new instruction starts from.
    obtain ⟨m, ran, host, patient, table⟩ := mirror.performed
    refine ⟨{ m with host := h, meter := m.meter.kernel i.op }, ?_, rfl, patient, table⟩
    rw [Recorder.record, List.reverse_cons]
    exact Machine.perform_concat ran patient (stepped m host table)
  calls op := Tally.count_bump_eq_countP mirror.calls i op
  -- Only lending and taking back count for the balance.
  balance := by simp [Tally.count_bump, other, mirror.balance]
  elements := by
    rw [still.1]
    exact mirror.elements
  limit := still.2.1.trans mirror.limit
  handles := mirror.handles
  lent := still.2.2.1.trans mirror.lent
  blocks entry found := by
    rw [still.2.2.2]
    exact mirror.blocks entry found
  distinct := mirror.distinct

omit [Elem α] [Written α] in
/-- A stretch of memory has the elements that its operand stands for. -/
theorem Same.long {area : Area} {x : View} {y : Ref} (same : Same f n names temps area count x y)
    (small : count ≤ Host.room) : (Int64.ofNat count).toInt ≤ x.length := by
  -- The stretch ends inside its buffer.
  obtain ⟨base, total, k, buffer, _, _, inside, _, long, rfl⟩ := same
  rw [Host.toInt_ofNat_of_le_room small]
  simp only [View.drop]
  omega

omit [Elem α] in
/-- The machine finds the elements that the operand of a stretch stands for. -/
theorem Same.resolve {area : Area} {x : View} {y : Ref} {next : Nat}
    (same : Same f n names temps area count x y)
    (sound : r.Sound n names temps View.length next) {m : Machine α}
    (table : m.temps = TempTable.ofEntries id temps) :
    Machine.resolve f y (Int64.ofNat count) m = .ok (x.take count) m := by
  -- The machine looks the buffer up in the table that the walk keeps, and counts from its start.
  obtain ⟨base, total, k, buffer, placed, rfl, inside, found, long, rfl⟩ := same
  have bounded := sound.total_lt placed
  rw [← table] at found
  exact Machine.resolve_ok found rfl (by omega) (by omega)

omit [Elem α] [Written α] in
/-- A stretch that is cut to its elements still has them. -/
theorem Same.long_take {area : Area} {x : View} {y : Ref}
    (same : Same f n names temps area count x y) (small : count ≤ Host.room) :
    (Int64.ofNat count).toInt ≤ (x.take count).length := by
  -- The stretch is no shorter than what is cut from it.
  have long := same.long small
  rw [Host.toInt_ofNat_of_le_room small] at long ⊢
  simp only [View.take]
  omega

omit [Elem α] [Written α] in
/-- An operand starts inside an area that it does not leave. -/
theorem Same.placed {area : Area} {x : View} {y : Ref}
    (same : Same f n names temps area count x y) :
    ∃ base total k, area.At names n temps View.length base total ∧
      y = { base with offset := Int64.ofNat k } ∧ k + count ≤ total := by
  -- The area is a part of being the same.
  obtain ⟨base, total, k, _, placed, operand, inside, _⟩ := same
  exact ⟨base, total, k, placed, operand, inside⟩

/-- An operation on one buffer goes through in memory and in the recording. -/
theorem one (mirror : Mirror m₀ f n names temps loans s r) (op : Unary α) {area : Area} {x : View}
    {y : Ref} (small : count ≤ Host.room) (dst : Same f n names temps area count x y) :
    Action.Both ((Counted.backend Host.backend).one op x (Int64.ofNat count))
      (Recorder.backend.one op y (Int64.ofNat count) : Action (Recorder α) WalkError Unit)
      (Mirror m₀ f n names temps loans) s r := by
  -- The walk's call goes through, and the recorder takes the instruction down for it.
  obtain ⟨next, sound, _⟩ := mirror.sound
  obtain ⟨base, total, k, placed, rfl, inside⟩ := dst.placed
  have ran := Host.one_ok (ε := WalkError) op (dst.long small) s.inner
  refine ⟨_, _, Counted.one_ok ran, (sound.one_ok op placed inside).1, ?_⟩
  have opcode : (op.instr { base with offset := Int64.ofNat k } (Int64.ofNat count)).op = op.op :=
    rfl
  rw [← opcode]
  refine mirror.record op.op_ne
    (fun next sound => (sound.one_ok (ε := WalkError) op placed inside).2)
    (fun m host table => ?_) ⟨rfl, rfl, rfl, Host.size_afterChunks _ _ (op.size_onRange _)⟩
  -- The machine works on the stretch cut to its elements, which changes nothing.
  rw [Machine.step_eq, Unary.task_instr]
  refine (Machine.onOne_ok (i := op.instr { base with offset := Int64.ofNat k } _) op
    (dst.resolve sound table) (dst.long_take small)).trans ?_
  rw [op.onRange_take, host]
  rfl

/-- An operation on two buffers goes through in memory and in the recording. -/
theorem two (mirror : Mirror m₀ f n names temps loans s r) (op : Binary) {source target : Area}
    {x y : View} {v w : Ref} (small : count ≤ Host.room)
    (src : Same f n names temps source count x v) (dst : Same f n names temps target count y w) :
    Action.Both ((Counted.backend Host.backend).two op x y (Int64.ofNat count))
      (Recorder.backend.two op v w (Int64.ofNat count) : Action (Recorder α) WalkError Unit)
      (Mirror m₀ f n names temps loans) s r := by
  obtain ⟨next, sound, _⟩ := mirror.sound
  obtain ⟨base, total, k, placed, rfl, inside⟩ := src.placed
  obtain ⟨base', total', k', placed', rfl, inside'⟩ := dst.placed
  have ran := Host.two_ok (ε := WalkError) op (src.long small) (dst.long small) s.inner
  refine ⟨_, _, Counted.two_ok ran, (sound.two_ok op placed placed' inside inside').1, ?_⟩
  have opcode : (op.instr { base with offset := Int64.ofNat k }
    { base' with offset := Int64.ofNat k' } (Int64.ofNat count) : Instr α).op = op.op := rfl
  rw [← opcode]
  refine mirror.record op.op_ne
    (fun next sound => (sound.two_ok (ε := WalkError) op placed placed' inside inside').2)
    (fun m host table => ?_) ⟨rfl, rfl, rfl, Host.size_afterChunks _ _ (op.size_onRange _ _)⟩
  -- The machine works on both stretches cut to their elements, which changes nothing.
  rw [Machine.step_eq, Binary.task_instr]
  refine (Machine.onTwo_ok (i := op.instr { base with offset := Int64.ofNat k }
    { base' with offset := Int64.ofNat k' } _) op (dst.resolve sound table)
    (src.resolve sound table) (dst.long_take small) (src.long_take small)).trans ?_
  rw [op.onRange_take, host]
  rfl

omit [Written α] in
/-- The rest of a stretch is the same in memory and in the recording. -/
theorem offset {area : Area} {m k : Nat} {x : View} {y : Ref} (small : m ≤ Host.room)
    (same : Same f n names temps area m x y) (inside : k ≤ m) :
    ∃ x' y', ((Counted.backend Host.backend).offset x (Int64.ofNat k) :
        Action (Counted (Host α) View) WalkError View) s = .ok x' s ∧
      (Recorder.backend.offset y (Int64.ofNat k) : Action (Recorder α) WalkError Ref) r =
        .ok y' r ∧
      Same f n names temps area (m - k) x' y' := by
  -- Both count the start of the stretch from the start of its buffer.
  obtain ⟨base, total, start, buffer, placed, rfl, fits, found, long, rfl⟩ := same
  have ran := Host.offset_ok (ε := WalkError) (v := buffer.drop start) (k := k)
    (by simp only [View.drop]; omega) (Nat.le_trans inside small) s.inner
  have counted : ((Counted.backend Host.backend).offset (buffer.drop start) (Int64.ofNat k) :
      Action (Counted (Host α) View) WalkError View) s = .ok ((buffer.drop start).drop k) s :=
    Counted.offset_ok ran
  refine ⟨_, _, counted, rfl, base, total, start + k, buffer, placed, ?_, by omega, found, long, ?_⟩
  · simp only [Int64.ofNat_add]
  · simp only [View.drop, View.mk.injEq, true_and]
    omega

/-- A block that memory lends begins as a temporary of the recording. -/
theorem opened (mirror : Mirror m₀ f n names temps (loans + 1) s r) {next m : Nat}
    (sound : r.Sound n names temps View.length next) (room : next + (loans + 1) ≤ 2 ^ 63)
    (positive : 0 < m) (small : m ≤ Host.room)
    (granted : Host.refusal s.inner.limit s.inner.liveElements (Int64.ofNat m) = none) :
    Mirror m₀ f n names ((next, s.inner.nextBlock m) :: temps) loans
      { s with
        inner := s.inner.lend m
        calls := s.calls.bump .alloc
        handles := (s.inner.nextBlock m, Int64.ofNat m) :: s.handles
        liveElements := s.liveElements + Int64.ofNat m
        peakElements := max s.peakElements (s.liveElements + Int64.ofNat m) }
      (r.opened (Int64.ofNat m)) where
  sound := ⟨next + 1, sound.opened rfl positive (Host.lt_of_le_room small) (by omega), by omega⟩
  performed := by
    -- The machine asks the same memory for the same block.
    obtain ⟨p, ran, host, patient, table⟩ := mirror.performed
    have lent : (Host.alloc (Int64.ofNat m) : Action (Host α) StepError _) p.host =
        .ok (.ok (s.inner.nextBlock m)) (s.inner.lend m) := by
      rw [host]
      exact Host.alloc_granted positive small granted
    refine ⟨{ p with
        host := s.inner.lend m
        meter := (p.meter.kernel .alloc).alloc (Int64.ofNat m).toInt
        temps := p.temps.insert r.nextTemp (s.inner.nextBlock m) }, ?_, rfl, patient, ?_⟩
    · rw [Recorder.opened, List.reverse_cons]
      exact Machine.perform_concat ran patient (Machine.beginTemp_ok lent)
    · -- The table of the machine gets the number that the recorder counts next.
      show p.temps.insert r.nextTemp _ = _
      rw [table, sound.counter]
      exact TempTable.insert_ofEntries (f := id) sound.numbered (by omega) _
  calls op := Tally.count_bump_eq_countP mirror.calls
    ⟨.alloc, ⟨.temp, r.nextTemp, 0⟩, .value, Elem.zero, Int64.ofNat m⟩ op
  balance := by simp [Tally.count_bump, mirror.balance, Nat.add_assoc]
  elements := by
    obtain ⟨inner, counted, peak⟩ := mirror.elements
    simp [Host.lend, Recorder.opened, inner, counted, peak]
  limit := mirror.limit
  handles := by simp [mirror.handles, Host.nextBlock]
  lent := by simp [Host.lend, mirror.lent, Host.nextBlock]
  blocks entry found := by
    rw [Host.size_lend]
    -- The new block comes behind all that were there.
    rcases List.mem_cons.mp found with rfl | found
    · exact ⟨rfl, positive, Nat.lt_succ_self _⟩
    · obtain ⟨start, nonempty, there⟩ := mirror.blocks entry found
      exact ⟨start, nonempty, Nat.lt_succ_of_lt there⟩
  distinct := List.pairwise_cons.mpr
    ⟨fun entry found => Nat.ne_of_lt (mirror.blocks entry found).2.2, mirror.distinct⟩

/-- Where memory lends a block the recording begins a temporary, and both refuse together. -/
theorem alloc (mirror : Mirror m₀ f n names temps (loans + 1) s r) {m : Nat} (positive : 0 < m)
    (small : m ≤ Host.room) :
    (∃ cause cause' s' r', ((Counted.backend Host.backend).alloc (Int64.ofNat m) :
        Action (Counted (Host α) View) WalkError _) s = .ok (.error cause) s' ∧
      (Recorder.backend.alloc (Int64.ofNat m) : Action (Recorder α) WalkError _) r =
        .ok (.error cause') r' ∧
      AllocError.Recorded cause cause' ∧ Mirror m₀ f n names temps loans s' r') ∨
    ∃ loan x y s' r', ((Counted.backend Host.backend).alloc (Int64.ofNat m) :
        Action (Counted (Host α) View) WalkError _) s = .ok (.ok x) s' ∧
      (Recorder.backend.alloc (Int64.ofNat m) : Action (Recorder α) WalkError _) r =
        .ok (.ok y) r' ∧
      Whole loan x y ∧ Same f n names (loan :: temps) (.block temps.length) m x y ∧
      Mirror m₀ f n names (loan :: temps) loans s' r' := by
  obtain ⟨next, sound, room⟩ := mirror.sound
  have bounded : m < 2 ^ 63 := Host.lt_of_le_room small
  have agree : s.inner.liveElements = r.liveElements := mirror.elements.1
  -- Both compare the same sum of the same numbers with the same limit.
  by_cases exceeded : (r.limit > 0 && r.liveElements + Int64.ofNat m > r.limit) = true
  · have refused : Host.refusal s.inner.limit s.inner.liveElements (Int64.ofNat m) =
        some (.memoryLimit (Int64.ofNat m) r.liveElements r.limit) := by
      rw [Host.refusal, mirror.limit, agree, if_pos exceeded]
    have asked : (Recorder.backend.alloc (Int64.ofNat m) : Action (Recorder α) WalkError _) r =
        .ok (.error (.recordLimit (Int64.ofNat m) r.liveElements r.limit)) r := by
      show Recorder.alloc (Int64.ofNat m) r = _
      rw [Recorder.alloc, if_neg (ofNat_pos positive bounded), Action.get_bind, if_pos exceeded]
      rfl
    exact .inl ⟨_, _, _, _, Counted.alloc_refused (Host.alloc_refused positive small refused),
      asked, .limit _ _ _, { mirror with sound := ⟨next, sound, by omega⟩ }⟩
  · have granted : Host.refusal s.inner.limit s.inner.liveElements (Int64.ofNat m) = none := by
      rw [Host.refusal, mirror.limit, agree, if_neg exceeded]
    exact .inr ⟨(next, s.inner.nextBlock m), _, _, _, _,
      Counted.alloc_ok (Host.alloc_granted positive small granted),
      sound.alloc_ok positive bounded exceeded, ⟨rfl, rfl⟩,
      ⟨⟨.temp, Int64.ofNat next, 0⟩, m, 0, s.inner.nextBlock m, .block List.mem_cons_self, rfl,
        by omega, by simp [Frame.find?, TempTable.ofEntries, TempTable.find?], Nat.le_refl m, rfl⟩,
      mirror.opened sound room positive small granted⟩

/-- The latest block is given back where the latest temporary ends. -/
theorem closed {loan : Nat × View} {next : Nat}
    (mirror : Mirror m₀ f n names (loan :: temps) loans s r)
    (sound : r.Sound n names (loan :: temps) View.length next) (room : next + loans ≤ 2 ^ 63)
    {h : Host α} (kept : h.liveElements = s.inner.liveElements - Int64.ofNat loan.2.length ∧
      h.limit = s.inner.limit ∧ h.store = s.inner.store ∧
      h.live = temps.map (fun entry => (entry.2.block, Int64.ofNat entry.2.length)))
    (freed : (Host.free loan.2 : Action (Host α) StepError Unit) s.inner = .ok () h) :
    Mirror m₀ f n names temps loans
      { s with
        inner := h
        calls := s.calls.bump .free
        handles := temps.map (fun entry => (entry.2, Int64.ofNat entry.2.length))
        liveElements := s.liveElements - Int64.ofNat loan.2.length }
      (r.closed (Int64.ofNat loan.1) (Int64.ofNat loan.2.length)) where
  sound := ⟨next, sound.closed, room⟩
  performed := by
    -- The machine has the block under the number of the temporary.
    obtain ⟨p, ran, host, patient, table⟩ := mirror.performed
    have known : p.temps.find? (Int64.ofNat loan.1) = some loan.2 := by
      rw [table]
      exact TempTable.find?_ofEntries sound.numbered List.mem_cons_self
    refine ⟨{ p with
        host := h
        meter := (p.meter.kernel .free).release loan.2.length
        temps := p.temps.erase (Int64.ofNat loan.1) }, ?_, rfl, patient, ?_⟩
    · rw [Recorder.closed, List.reverse_cons]
      exact Machine.perform_concat ran patient
        (Machine.endTemp_ok known (by rw [host]; exact freed))
    · show p.temps.erase (Int64.ofNat loan.1) = _
      rw [table]
      exact TempTable.erase_ofEntries sound.numbered
  calls op := Tally.count_bump_eq_countP mirror.calls
    ⟨.free, ⟨.temp, Int64.ofNat loan.1, 0⟩, .value, Elem.zero, 0⟩ op
  balance := by
    have := mirror.balance
    simp only [Tally.count_bump, List.length_cons] at this ⊢
    simp
    omega
  elements := by
    obtain ⟨inner, counted, peak⟩ := mirror.elements
    simp [Recorder.closed, kept.1, inner, counted, peak]
  limit := kept.2.1.trans mirror.limit
  handles := rfl
  lent := kept.2.2.2
  blocks entry found := by
    rw [kept.2.2.1]
    exact mirror.blocks entry (List.mem_cons_of_mem _ found)
  distinct := (List.pairwise_cons.mp mirror.distinct).2

/-- The latest block can be given back where the latest temporary can end. -/
theorem free {loan : Nat × View} {x : View} {y : Ref}
    (mirror : Mirror m₀ f n names (loan :: temps) loans s r) (whole : Whole loan x y) :
    Action.Both ((Counted.backend Host.backend).free x)
      (Recorder.backend.free y : Action (Recorder α) WalkError Unit)
      (Mirror m₀ f n names temps loans) s r := by
  obtain ⟨rfl, rfl⟩ := whole
  obtain ⟨next, sound, room⟩ := mirror.sound
  obtain ⟨start, nonempty, _⟩ := mirror.blocks loan List.mem_cons_self
  have handles := mirror.handles
  have lent := mirror.lent
  rw [List.map_cons] at handles lent
  -- Blocks are numbered apart, so memory takes back this one only.
  have others : ∀ entry ∈ temps.map (fun entry => (entry.2.block, Int64.ofNat entry.2.length)),
      entry.1 ≠ loan.2.block := by
    intro entry listed
    obtain ⟨source, among, rfl⟩ := List.mem_map.mp listed
    exact (List.pairwise_cons.mp mirror.distinct).1 source among
  refine ⟨_, _, Counted.free_ok handles (by simp [Handle.same])
    (Host.free_latest start nonempty lent others), sound.free_ok, ?_⟩
  exact mirror.closed sound room ⟨rfl, rfl, rfl, rfl⟩ (Host.free_latest start nonempty lent others)

/-- Memory with its calls counted is like its recording. -/
def likeness (m₀ : Machine α) (f : Frame) (n : Nat) (names : List String) :
    Likeness (Counted.backend Host.backend : Backend (Counted (Host α) View) WalkError α View)
      Recorder.backend (Nat × View) where
  top := Host.room
  bounded := Host.room_lt
  state := Mirror m₀ f n names
  same := Same f n names
  whole := Whole
  refused := AllocError.Recorded
  fewer mirror := by
    obtain ⟨next, sound, room⟩ := mirror.sound
    exact { mirror with sound := ⟨next, sound, by omega⟩ }
  shorter same fewer := by
    obtain ⟨base, total, k, buffer, placed, operand, inside, rest⟩ := same
    exact ⟨base, total, k, buffer, placed, operand, by omega, rest⟩
  one op mirror small same _ := mirror.one op small same
  two op mirror small src dst _ _ := mirror.two op small src dst
  offset _ small same inside := offset small same inside
  alloc mirror positive small := mirror.alloc positive small
  free mirror whole := mirror.free whole

end Mirror

end Tangent
