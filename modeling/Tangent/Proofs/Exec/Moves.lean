import Tangent.Proofs.Exec.Contents

/-!
What a run changes in memory that it shares.

An instruction of a compiled program goes through on memory without a limit. It changes elements of
the registers and temporaries of its own run, takes a new block for a temporary, or gives the block
of one back. All else in memory stays.
-/

namespace Tangent

variable {α : Type}

/-- Memory without a limit that lends zeros and whose kernels cut their ranges properly. -/
structure Host.Plain [Elem α] (h : Host α) : Prop where
  unlimited : h.limit ≤ 0
  zeroed : ∀ block p, h.blank block p = Elem.zero
  cut : h.chunking.Proper Host.room

/-- An instruction on buffers that can be lent is small. -/
theorem Instr.Tidy.small {i : Instr α} {vars next : Nat} (tidy : i.Tidy vars next Host.room) :
    i.Small := by
  -- All of memory has fewer elements than machine integers can count.
  have room := Host.room_eq
  have dst := tidy.dst.near
  have src := tidy.src.near
  have short := tidy.short
  exact ⟨by omega, by omega, by omega, fun _ => short⟩

/-- The buffers that a run writes to. -/
def Frame.writable (f : Frame) (temps : TempTable View) : List View :=
  f.registers ++ temps.map (·.2)

/-- What a run writes to is a register or a temporary. -/
theorem Frame.mem_writable {f : Frame} {temps : TempTable View} {r : Ref} {v : View}
    (found : f.find? temps r = some v) (written : r.space ≠ .var) : v ∈ f.writable temps := by
  -- Temporaries are told from registers by the space of the operand.
  by_cases temp : r.space = .temp
  · exact List.mem_append_right _ (List.mem_map_of_mem (mem_of_find?_temp found temp))
  · exact List.mem_append_left _ (mem_registers found temp written)

namespace Machine

/-- A machine amid a run whose temporaries have blocks behind the first `base`. -/
structure Underway (base : Nat) (v : Validation) (m : Machine α) : Prop where
  tracks : m.Tracks v
  begun : v.Begun
  unique : m.temps.Unique
  fresh : ∀ entry ∈ m.temps, base ≤ entry.2.block
  lent : ∀ entry ∈ m.temps,
    m.host.live.lookup entry.2.block = some (Int64.ofNat entry.2.length)
  grown : base ≤ m.host.store.blocks.size

/-- What an instruction makes of a machine. -/
inductive Moves (f : Frame) (i : Instr α) (m : Machine α) : Machine α → Prop where
  /-- Elements of a register or of a temporary change. -/
  | works {v : View} {t : Store α} (writes : v ∈ f.writable m.temps)
    (size : t.blocks.size = m.host.store.blocks.size)
    (changed : m.host.store.Changes (v.spots v.length) t) :
    Moves f i m { m with
      host := { m.host with store := t }
      meter := m.meter.kernel i.op }
  /-- A temporary begins. -/
  | begins {n : Nat} (asks : i.op = .alloc) (unknown : m.temps.find? i.dst.index = none) :
    Moves f i m { m with
      host := m.host.lend n
      meter := (m.meter.kernel .alloc).alloc i.len.toInt
      temps := m.temps.insert i.dst.index (m.host.nextBlock n) }
  /-- A temporary ends. -/
  | ends {view : View} (gives : i.op = .free) (known : m.temps.find? i.dst.index = some view) :
    Moves f i m { m with
      host := { m.host with
        live := m.host.live.filter (fun entry => entry.1 != view.block)
        liveElements := m.host.liveElements - Int64.ofNat view.length }
      meter := (m.meter.kernel .free).release view.length
      temps := m.temps.erase i.dst.index }

end Machine

/-- The entry under a number is the one that is found. -/
theorem TempTable.Unique.eq_of_find? {ν : Type} {table : TempTable ν} {index : Int64} {known : ν}
    (unique : table.Unique) (found : table.find? index = some known) {entry : Int64 × ν}
    (listed : entry ∈ table) (named : entry.1 = index) : entry.2 = known := by
  obtain ⟨other, first, rfl⟩ := Option.map_eq_some_iff.mp found
  have same : other.1 = index := by simpa using List.find?_some first
  -- Another entry under the number would have to have another number.
  by_contra differ
  exact ne_of_pairwise unique (List.mem_of_find?_eq_some first) listed
    (fun same => differ (by rw [same])) (named.trans same.symm)

namespace Machine.Moves

variable {f : Frame} {i : Instr α} {m m' : Machine α} {v v' : Validation} {base : Nat}

/-- Work on elements that lie in a buffer is a move. -/
theorem of_lies {len : Int64} {view : View} {k n : Nat} {t : Store α}
    (target : f.Lies m.temps i.dst len view k n) (written : i.dst.space ≠ .var)
    (changed : m.host.store.Changes (((view.drop k).take n).spots n) t)
    (size : t.blocks.size = m.host.store.blocks.size) :
    Moves f i m { m with
      host := { m.host with store := t }
      meter := m.meter.kernel i.op } := by
  -- The elements that change are among those of the whole buffer.
  refine .works (Frame.mem_writable target.found written) size (changed.mono ?_)
  rintro block p ⟨same, first, last⟩
  have inside := target.inside
  simp only [View.take, View.drop] at same first last
  exact ⟨same, by omega, by omega⟩

/-- A move keeps the limits of memory and what new blocks hold. -/
theorem plain [Elem α] (moves : Moves f i m m') (plain : m.host.Plain) : m'.host.Plain := by
  -- None of the three moves touches the limit, the filling or the chunks.
  obtain ⟨unlimited, zeroed, cut⟩ := plain
  cases moves <;> exact ⟨unlimited, zeroed, cut⟩

/-- A move keeps the patience of a machine. -/
theorem patience (moves : Moves f i m m') : m'.patience = m.patience := by
  -- Patience is used up between the moves.
  cases moves <;> rfl

/-- A move changes elements of registers and temporaries only. -/
theorem changes (moves : Moves f i m m') :
    m.host.store.Changes (fun block p => ∃ v ∈ f.writable m.temps, v.spots v.length block p)
      m'.host.store := by
  cases moves with
  | works writes size changed => exact changed.mono (fun block p inside => ⟨_, writes, inside⟩)
  -- A new block leaves the others alone, and a block that is given back stays in memory.
  | begins => exact m.host.changes_lend _ _
  | ends => exact .refl _ _

/-- Temporaries after a move were there before or have the next block. -/
theorem temps_cases (moves : Moves f i m m') :
    ∀ entry ∈ m'.temps, entry ∈ m.temps ∨ entry.2.block = m.host.store.blocks.size := by
  -- Only a temporary that begins brings an entry of its own, with the block made for it.
  intro entry listed
  cases moves with
  | works => exact .inl listed
  | begins _ unknown =>
    dsimp only at listed
    rw [TempTable.insert_absent unknown] at listed
    rcases List.mem_cons.mp listed with rfl | listed
    · exact .inr rfl
    · exact .inl listed
  | ends => exact .inl (List.mem_of_mem_filter listed)

/-- A move keeps the loans of blocks that are none of its run's. -/
theorem lookup (moves : Moves f i m m') {block : Nat}
    (other : ∀ entry ∈ m.temps, entry.2.block ≠ block) (old : block < m.host.store.blocks.size) :
    m'.host.live.lookup block = m.host.live.lookup block := by
  cases moves with
  | works => rfl
  | begins => exact m.host.lookup_lend _ old
  | ends _ known =>
    -- The loan that goes is that of a temporary of the run.
    obtain ⟨entry, found, rfl⟩ := Option.map_eq_some_iff.mp known
    exact lookup_filter_ne (other entry (List.mem_of_find?_eq_some found)).symm

/-- A move of a run keeps the loans of the first blocks. -/
theorem earlier (moves : Moves f i m m') (under : m.Underway base v) :
    m'.host.live.filter (fun entry => entry.1 < base) =
      m.host.live.filter (fun entry => entry.1 < base) := by
  cases moves with
  | works => rfl
  | begins =>
    -- A new block comes behind all that are there.
    have later := under.grown
    simp [Host.lend, Nat.not_lt.mpr later]
  | ends _ known =>
    -- The block of a temporary is a later one.
    obtain ⟨entry, found, rfl⟩ := Option.map_eq_some_iff.mp known
    have later := under.fresh entry (List.mem_of_find?_eq_some found)
    dsimp only
    rw [List.filter_filter]
    refine List.filter_congr (fun held _ => ?_)
    by_cases first : held.1 < base
    · have differ : held.1 ≠ entry.2.block := by omega
      simp [first, differ]
    · simp [first]

/-- A loan after a move is one from before whose temporary goes on, or that of a temporary. -/
theorem live_cases (moves : Moves f i m m') (under : m.Underway base v) :
    ∀ entry ∈ m'.host.live,
      (entry ∈ m.host.live ∧ ∀ temp ∈ m.temps, temp.2.block = entry.1 → temp ∈ m'.temps) ∨
      ∃ temp ∈ m'.temps, temp.2.block = entry.1 := by
  intro entry held
  cases moves with
  | works => exact .inl ⟨held, fun temp listed _ => listed⟩
  | begins _ unknown =>
    dsimp only
    rw [TempTable.insert_absent unknown]
    rcases List.mem_cons.mp held with rfl | held
    · exact .inr ⟨_, List.mem_cons_self, rfl⟩
    · exact .inl ⟨held, fun temp listed _ => List.mem_cons_of_mem _ listed⟩
  | ends _ known =>
    obtain ⟨held, differ⟩ := List.mem_filter.mp held
    refine .inl ⟨held, fun temp listed same => List.mem_filter.mpr ⟨listed, ?_⟩⟩
    -- The temporary that ends has the block that is given back.
    by_contra named
    have found := under.unique.eq_of_find? known listed (by simpa using named)
    simp [← same, found] at differ

/-- A move counts as many elements on loan as its run has more of them. -/
theorem elements (moves : Moves f i m m') (under : m.Underway base v) :
    m'.host.liveElements + Int64.ofNat m.temps.held =
      m.host.liveElements + Int64.ofNat m'.temps.held := by
  cases moves with
  | works => rfl
  | @begins n _ unknown =>
    dsimp only
    rw [TempTable.insert_absent unknown]
    show m.host.liveElements + Int64.ofNat n + Int64.ofNat m.temps.held =
      m.host.liveElements + Int64.ofNat (n + m.temps.held)
    rw [Int64.ofNat_add, Int64.add_assoc]
  | @ends view _ known =>
    -- What the temporary had is no longer counted on either side.
    dsimp only
    rw [under.unique.held_erase known, Nat.add_comm, Int64.ofNat_add, ← Int64.add_assoc,
      Int64.sub_add_cancel]

/-- A move counts one call of its kernel. -/
theorem count (moves : Moves f i m m') (op : Op) :
    m'.meter.kernelCalls.count op =
      m.meter.kernelCalls.count op + if i.op = op then 1 else 0 := by
  -- Each move bumps the counter of the operation that was asked for.
  cases moves with
  | works => exact Tally.count_bump _ _ _
  | begins asks => rw [asks]; exact Tally.count_bump _ _ _
  | ends gives => rw [gives]; exact Tally.count_bump _ _ _

/-- A machine that tracks the check after a move is still amid its run. -/
theorem underway (moves : Moves f i m m') (under : m.Underway base v) (tracks : m'.Tracks v')
    (begun : v'.Begun) : m'.Underway base v' := by
  -- Blocks only get later, and none of them disappears.
  have fresh : ∀ entry ∈ m'.temps, base ≤ entry.2.block := by
    intro entry listed
    rcases moves.temps_cases entry listed with old | new
    · exact under.fresh entry old
    · exact new ▸ under.grown
  refine ⟨tracks, begun, ?_, fresh, ?_, Nat.le_trans under.grown moves.changes.grows⟩
  · cases moves with
    | works => exact under.unique
    | begins _ unknown =>
      dsimp only
      rw [TempTable.insert_absent unknown]
      exact List.pairwise_cons.mpr ⟨TempTable.ne_of_absent unknown, under.unique⟩
    | ends => exact under.unique.sublist List.filter_sublist
  · intro entry listed
    cases moves with
    | works => exact under.lent entry listed
    | begins _ unknown =>
      dsimp only at listed
      rw [TempTable.insert_absent unknown] at listed
      rcases List.mem_cons.mp listed with rfl | listed
      · simp [Host.lend, Host.nextBlock]
      · rw [m.host.lookup_lend _ (under.tracks.blocks entry listed).2.2.2.1]
        exact under.lent entry listed
    | ends _ known =>
      dsimp only
      rw [lookup_filter_ne (under.tracks.block_ne known listed)]
      exact under.lent entry (List.mem_of_mem_filter listed)

end Machine.Moves

namespace Machine.Underway

variable {f : Frame} {i : Instr α} {m : Machine α} {v v' : Validation} {base pc vars next : Nat}
  {p : Program α}

/-- Only memory and temporaries tell how far a run has come. -/
theorem of_same {m' : Machine α} (under : m.Underway base v) (host : m'.host = m.host)
    (temps : m'.temps = m.temps) : m'.Underway base v := by
  -- The counters and the patience are the other parts of a machine.
  obtain ⟨_, _, _, _⟩ := m'
  obtain rfl := host
  obtain rfl := temps
  exact { under with tracks := { under.tracks with } }

/-- The buffers of a run are apart from each other. -/
theorem separate (under : m.Underway base v) (apart : f.Apart base) : f.Separate base m.temps :=
  -- Temporaries lie in blocks made by the run, and no two of them in the same one.
  { apart with
    fresh := under.fresh
    distinct := under.tracks.distinct }

/-- The buffers of a run are in memory. -/
theorem block_lt (under : m.Underway base v) (apart : f.Apart base) {r : Ref} {view : View}
    (found : f.find? m.temps r = some view) : view.block < m.host.store.blocks.size := by
  -- Temporaries have blocks made by the run, and other buffers had theirs when it started.
  by_cases temp : r.space = .temp
  · exact (under.tracks.blocks _ (Frame.mem_of_find?_temp found temp)).2.2.2.1
  · exact Nat.lt_of_lt_of_le (apart.old view (Frame.mem_buffers found temp)) under.grown

variable [Elem α]

/-- An instruction that the check accepts moves the machine, and shows what it makes of operands. -/
theorem step (under : m.Underway base v) (plain : m.host.Plain) (apart : f.Apart base)
    (covers : f.Covers p) (accepted : p.Accepted v pc i v') (tidy : i.Tidy vars next Host.room) :
    ∃ m', Machine.step Host.kernels f i m = .ok () m' ∧ Moves f i m m' ∧
      f.contents m'.host.store m'.temps = i.act (f.contents m.host.store m.temps) := by
  -- Operands are near the start of small buffers, so no sum wraps around.
  have separate := under.separate apart
  have exact {r : Ref} (listed : r ∈ i.operands) : ¬ r.Wraps i.len :=
    fun wraps => tidy.small.exact ⟨r, listed, wraps⟩
  have few {n : Nat} (count : i.len = Int64.ofNat n) (bounded : n < 2 ^ 63) : n ≤ Host.room := by
    have short := tidy.short
    rw [count, Int64.toInt_ofNat_of_lt bounded] at short
    omega
  rw [Machine.step_eq]
  unfold Program.Accepted at accepted
  cases task : i.task with
  | alloc =>
    simp only [task] at accepted ⊢
    obtain ⟨positive, unseen, _⟩ := accepted
    obtain ⟨n, count, size⟩ := exists_eq_ofNat (Int64.le_of_lt positive)
    have some : 0 < n := by
      rw [Int64.lt_iff_toInt_lt, Int64.toInt_zero] at positive
      omega
    have small := few count (by have := Int64.toInt_lt i.len; omega)
    -- Memory without a limit refuses nothing.
    have granted := Host.alloc_granted (ε := StepError) some small
      (Host.refusal_eq_none plain.unlimited m.host.liveElements (Int64.ofNat n))
    refine ⟨_, Machine.beginTemp_ok (count ▸ granted),
      .begins (Instr.task_eq_alloc.mp task) (under.tracks.absent under.begun unseen), ?_⟩
    exact Frame.contents_begin plain.zeroed task count small (fun _ _ => under.block_lt apart)
  | free =>
    -- What the check counts as live the machine has, with its block on loan.
    simp only [task] at accepted ⊢
    have live := accepted.1
    rw [under.tracks.sizes, TempTable.find?_mapValues, Option.isSome_map] at live
    obtain ⟨view, known⟩ := Option.isSome_iff_exists.mp live
    obtain ⟨entry, found, rfl⟩ := Option.map_eq_some_iff.mp known
    have listed := List.mem_of_find?_eq_some found
    obtain ⟨start, nonempty, _⟩ := under.tracks.blocks entry listed
    exact ⟨_, Machine.endTemp_ok known (Host.free_live start nonempty (under.lent entry listed)),
      .ends (Instr.task_eq_free.mp task) known, Frame.contents_end _ task⟩
  | one op =>
    simp only [task] at accepted ⊢
    have near := exact (r := i.dst) (by simp [Instr.operands, task])
    obtain ⟨view, k, n, target⟩ := under.tracks.exists_lies covers accepted.1 near
    obtain ⟨found, long⟩ := under.tracks.resolve_exact covers accepted.1 near
    have small := few target.count (by have := target.bounded; omega)
    have changed : m.host.store.Changes (((view.drop k).take n).spots n)
        (m.host.afterChunks i.len (op.onRange (f.part m.temps i.dst i.len))).store := by
      rw [target.part_eq, target.count, Host.store_one plain.cut small]
      exact Store.changes_mapRange op.apply _ n _
    exact ⟨_, Machine.onOne_ok op found long,
      .of_lies target tidy.written changed (Host.size_afterChunks _ _ (op.size_onRange _)),
      separate.contents_one plain.cut task tidy.written target small⟩
  | two op =>
    simp only [task] at accepted ⊢
    have near := exact (r := i.dst) (by simp [Instr.operands, task])
    have near' := exact (r := i.src) (by simp [Instr.operands, task])
    obtain ⟨view, k, n, target⟩ := under.tracks.exists_lies covers accepted.2.1 near
    obtain ⟨found, long⟩ := under.tracks.resolve_exact covers accepted.2.1 near
    obtain ⟨view', k', n', source⟩ := under.tracks.exists_lies covers accepted.1 near'
    obtain ⟨found', long'⟩ := under.tracks.resolve_exact covers accepted.1 near'
    obtain rfl := target.count_unique source
    have small := few target.count (by have := target.bounded; omega)
    have disjoint := tidy.apart op task
    have parts := separate.parts tidy.written target source disjoint
    have changed : m.host.store.Changes (((view.drop k).take n).spots n) (m.host.afterChunks i.len
        (op.onRange (f.part m.temps i.src i.len) (f.part m.temps i.dst i.len))).store := by
      rw [target.part_eq, source.part_eq, target.count, Host.store_two plain.cut small op parts]
      exact Store.changes_zipRange op.apply parts _
    exact ⟨_, Machine.onTwo_ok op found found' long long',
      .of_lies target tidy.written changed (Host.size_afterChunks _ _ (op.size_onRange _ _)),
      separate.contents_two plain.cut task tidy.written target source disjoint small⟩
  | unknown name => simp [task] at accepted

/-- After an instruction that the check accepts a machine is still amid its run. -/
theorem of_step {m' : Machine α} (under : m.Underway base v) (covers : f.Covers p)
    (accepted : p.Accepted v pc i v') (tidy : i.Tidy vars next Host.room)
    (stepped : Machine.step Host.kernels f i m = .ok () m') (moves : Moves f i m m') :
    m'.Underway base v' :=
  -- The step tells which temporaries live, and the move what became of memory.
  have ends := under.tracks.step covers tidy.small.exact tidy.small.block accepted
  moves.underway under (ends.of_ok stepped).1 (under.begun.accepted accepted)

end Machine.Underway

namespace Machine.Moves

variable {f g : Frame} {i : Instr α} {m m' n n' : Machine α} {w : Validation} {base : Nat}

/-- A move keeps another run in the same memory amid its instructions. -/
theorem aside (moves : Moves f i m m') (under : n.Underway base w) (shared : n.host = m.host)
    (shared' : n'.host = m'.host) (kept : n'.temps = n.temps)
    (apart : ∀ a ∈ m.temps, ∀ b ∈ n.temps, a.2.block ≠ b.2.block) : n'.Underway base w := by
  -- Its blocks are none of those that the move gives back, and the new one is not among them.
  have grows := moves.changes.grows
  have loan {entry : Int64 × View} (listed : entry ∈ n.temps) :
      n'.host.live.lookup entry.2.block = n.host.live.lookup entry.2.block := by
    rw [shared', shared]
    refine moves.lookup (fun own owned => apart own owned entry listed) ?_
    rw [← shared]
    exact (under.tracks.blocks entry listed).2.2.2.1
  rw [← shared, ← shared'] at grows
  refine ⟨⟨?_, ?_, ?_⟩, under.begun, ?_, ?_, ?_, Nat.le_trans under.grown grows⟩ <;> rw [kept]
  · exact under.tracks.sizes
  · intro entry listed
    obtain ⟨start, nonempty, short, there, lent⟩ := under.tracks.blocks entry listed
    exact ⟨start, nonempty, short, Nat.lt_of_lt_of_le there grows, by rw [loan listed]; exact lent⟩
  · exact under.tracks.distinct
  · exact under.unique
  · exact under.fresh
  · intro entry listed
    rw [loan listed]
    exact under.lent entry listed

/-- A move changes nothing in buffers that have no element in common with those it writes to. -/
theorem contents_aside (moves : Moves f i m m') {temps : TempTable View}
    (there : ∀ r v, g.find? temps r = some v → v.block < m.host.store.blocks.size)
    (disjoint : ∀ u ∈ f.writable m.temps, ∀ r v, g.find? temps r = some v → u.Disjoint v) :
    g.contents m'.host.store temps = g.contents m.host.store temps := by
  -- An element that changes would belong to two buffers without a common one.
  refine Frame.contents_of_changes moves.changes there ?_
  rintro r v p found below ⟨u, listed, same, first, last⟩
  have order := disjoint u listed r v found same.symm
  omega

end Machine.Moves

end Tangent
