import Tangent.Proofs.Count
import Tangent.Proofs.Program.Check

/-!
Well-formed programs, told by the positions of their instructions.

Which temporaries are live is read off the instructions before a position, and where operands end
is a matter of exact sums. The check of a program keeps tables in place of the first and adds
machine integers in place of the second, and accepts the same programs.
-/

namespace Tangent

variable {α : Type}

/-- An instruction that begins the temporary of a number. -/
structure Instr.Begins (i : Instr α) (index : Int64) : Prop where
  op : i.op = .alloc
  space : i.dst.space = .temp
  index : i.dst.index = index

/-- An instruction that ends the temporary of a number. -/
structure Instr.Ends (i : Instr α) (index : Int64) : Prop where
  op : i.op = .free
  space : i.dst.space = .temp
  index : i.dst.index = index

/-- Instructions of one kind never do the work of the other. -/
theorem Instr.Begins.not_ends {i : Instr α} {index other : Int64} (begins : i.Begins index) :
    ¬ i.Ends other := by
  -- They have different operations.
  intro ends
  have same := begins.op.symm.trans ends.op
  cases same

/-- Offsets and lengths of an instruction that are not too large for records. -/
@[mk_iff]
structure Instr.Ranged (i : Instr α) : Prop where
  dst : i.dst.offset.toInt ≤ 2 ^ 48
  src : i.src.offset.toInt ≤ 2 ^ 48
  len : i.len.toInt ≤ 2 ^ 48

instance (i : Instr α) : Decidable i.Ranged :=
  decidable_of_iff (_ ∧ _ ∧ _) (Iff.symm (Instr.ranged_iff i))

namespace Program

/-- A temporary that began before a position with some elements, and did not end before it. -/
def LiveAt (p : Program α) (pc : Nat) (index size : Int64) : Prop :=
  ∃ (start : Nat) (i : Instr α), start < pc ∧ p.instrs[start]? = some i ∧ i.Begins index ∧
    i.len = size ∧ ∀ k j, start < k → k < pc → p.instrs[k]? = some j → ¬ Instr.Ends j index

/-- A number that no temporary began under before a position. -/
def UnusedAt (p : Program α) (pc : Nat) (index : Int64) : Prop :=
  ∀ k j, k < pc → p.instrs[k]? = some j → ¬ Instr.Begins j index

/-- The buffers that can be named before a position, with their sizes. -/
inductive Buffer (p : Program α) (pc : Nat) : Space → Int64 → Int → Prop where
  | value (index : Int64) : Buffer p pc .value index p.paths.toInt
  | deriv (index : Int64) : Buffer p pc .deriv index p.paths.toInt
  | var {index : Int64} (nonneg : 0 ≤ index.toInt) (listed : index.toInt < p.vars.length) :
    Buffer p pc .var index p.paths.toInt
  | temp {index size : Int64} (live : p.LiveAt pc index size) : Buffer p pc .temp index size.toInt

/-- An operand of which `n` elements lie inside a buffer that is there before a position. -/
def Inside (p : Program α) (pc : Nat) (r : Ref) (n : Int64) : Prop :=
  0 ≤ r.offset.toInt ∧ 0 ≤ n.toInt ∧
    ∃ size, p.Buffer pc r.space r.index size ∧ r.offset.toInt + n.toInt ≤ size

/-- An instruction that is in order at its position. -/
@[mk_iff]
structure ProperAt (p : Program α) (pc : Nat) (i : Instr α) : Prop where
  known : i.op ∈ Op.known
  /-- A temporary begins with elements, under a number that was never used. -/
  alloc : i.op = .alloc → i.dst.space = .temp ∧ i.dst.offset = 0 ∧ 0 < i.len.toInt ∧
    p.UnusedAt pc i.dst.index
  /-- Only a temporary that is live ends. -/
  free : i.op = .free → i.dst.space = .temp ∧ i.dst.offset = 0 ∧
    ∃ size, p.LiveAt pc i.dst.index size
  /-- All other operations write to a destination. -/
  dst : i.op ≠ .alloc → i.op ≠ .free → p.Inside pc i.dst i.len
  /-- Some of them also read from a source. -/
  src : i.op ∈ [.copy, .add, .mul] → p.Inside pc i.src i.len

/-- A program that has paths, with instructions in order that leave no temporary behind. -/
structure WellFormed (p : Program α) : Prop where
  paths : 0 < p.paths.toInt
  proper : ∀ pc i, p.instrs[pc]? = some i → p.ProperAt pc i
  ended : ∀ (pc : Nat) (i : Instr α) index, p.instrs[pc]? = some i → i.Begins index →
    ∃ (later : Nat) (j : Instr α), pc < later ∧ p.instrs[later]? = some j ∧ j.Ends index

/-- What is known before a position agrees with the instructions before it. -/
structure Knows (p : Program α) (pc : Nat) (v : Validation) : Prop where
  live : ∀ index size, v.live.find? index = some size ↔ p.LiveAt pc index size
  seen : ∀ index, v.seen.find? index = none ↔ p.UnusedAt pc index

variable {p : Program α} {v v' : Validation} {pc : Nat} {i : Instr α} {r : Ref} {n : Int64}

/-- Before the first instruction nothing is known. -/
theorem knows_nil (p : Program α) : p.Knows 0 ⟨[], []⟩ := by
  -- There is no position at which anything could have begun.
  refine ⟨fun index size => ⟨nofun, ?_⟩, fun index => ⟨fun _ k _ below => absurd below (by omega),
    fun _ => rfl⟩⟩
  rintro ⟨start, _, below, _⟩
  omega

/-- What holds at every position up to one holds at that one, and at every position before it. -/
theorem forall_lt_succ (here : p.instrs[pc]? = some i) {holds : Nat → Instr α → Prop} :
    (∀ k j, k < pc + 1 → p.instrs[k]? = some j → holds k j) ↔
      holds pc i ∧ ∀ k j, k < pc → p.instrs[k]? = some j → holds k j := by
  constructor
  · intro each
    exact ⟨each pc i (by omega) here, fun k j below => each k j (by omega)⟩
  · rintro ⟨now, before⟩ k j below found
    -- The last position is the new one, and the others are as before.
    rcases Nat.lt_or_ge k pc with earlier | last
    · exact before k j earlier found
    · obtain rfl : k = pc := by omega
      rw [here, Option.some.injEq] at found
      exact found ▸ now

/-- A temporary is live after an instruction that begins it, or does not end it. -/
theorem liveAt_succ (here : p.instrs[pc]? = some i) {index size : Int64} :
    p.LiveAt (pc + 1) index size ↔
      i.Begins index ∧ i.len = size ∨ p.LiveAt pc index size ∧ ¬ i.Ends index := by
  constructor
  · rintro ⟨start, j, below, found, begins, len, lasts⟩
    -- It began with this instruction, or it was live before.
    rcases Nat.lt_or_ge start pc with earlier | last
    · have stays := lasts pc i earlier (by omega) here
      refine .inr ⟨⟨start, j, earlier, found, begins, len, fun k other above under => ?_⟩, stays⟩
      exact lasts k other above (by omega)
    · obtain rfl : start = pc := by omega
      rw [here, Option.some.injEq] at found
      subst found
      exact .inl ⟨begins, len⟩
  · rintro (⟨begins, len⟩ | ⟨⟨start, j, below, found, begins, len, lasts⟩, stays⟩)
    · exact ⟨pc, i, by omega, here, begins, len, fun k _ above under => by omega⟩
    · -- Of the instructions since then only the last one was not looked at before.
      have since : ∀ k j, k < pc + 1 → p.instrs[k]? = some j → start < k → ¬ Instr.Ends j index :=
        (forall_lt_succ here).mpr
          ⟨fun _ => stays, fun k j under there above => lasts k j above under there⟩
      exact ⟨start, j, by omega, found, begins, len,
        fun k j above under there => since k j under there above⟩

/-- A number is unused after an instruction if it was before and the instruction does not use it. -/
theorem unusedAt_succ (here : p.instrs[pc]? = some i) {index : Int64} :
    p.UnusedAt (pc + 1) index ↔ ¬ i.Begins index ∧ p.UnusedAt pc index :=
  -- The position of the instruction is the last one below the next.
  forall_lt_succ here

/-- A temporary that is live has a number that was used. -/
theorem LiveAt.used {index size : Int64} (live : p.LiveAt pc index size) :
    ¬ p.UnusedAt pc index := by
  -- It was begun at an earlier position.
  obtain ⟨start, j, below, found, begins, _⟩ := live
  exact fun never => never start j below found begins

namespace Knows

/-- A size that the check finds is the one of a buffer that is there. -/
theorem buffer_of_operandSize (knows : p.Knows pc v) {size : Int64}
    (found : p.operandSize v pc r = .ok size) : p.Buffer pc r.space r.index size.toInt := by
  unfold operandSize at found
  cases space : r.space with
  | value =>
    simp only [space, Except.ok.injEq] at found
    exact found ▸ .value _
  | deriv =>
    simp only [space, Except.ok.injEq] at found
    exact found ▸ .deriv _
  | var =>
    simp only [space] at found
    split at found
    · cases found
    · -- Past the complaint the position is one of the list.
      rename_i listed
      simp only [Bool.or_eq_true, decide_eq_true_eq, not_or, Int64.lt_iff_toInt_lt,
        Int64.toInt_zero] at listed
      rw [← Except.ok.inj found]
      exact .var (by omega) (by omega)
  | temp =>
    simp only [space] at found
    split at found
    · rename_i known
      rw [← Except.ok.inj found]
      exact .temp ((knows.live _ _).mp known)
    · cases found
  | other code above => simp [space] at found

/-- A buffer that is there has its size found by the check. -/
theorem exists_operandSize (knows : p.Knows pc v) {size : Int}
    (buffer : p.Buffer pc r.space r.index size) :
    ∃ found, p.operandSize v pc r = .ok found ∧ found.toInt = size := by
  obtain ⟨space, index, offset⟩ := r
  dsimp only at buffer
  unfold operandSize
  cases buffer with
  | value => exact ⟨_, rfl, rfl⟩
  | deriv => exact ⟨_, rfl, rfl⟩
  | var nonneg listed =>
    -- The check makes no complaint about a position of the list.
    refine ⟨p.paths, if_neg ?_, rfl⟩
    simp only [Bool.or_eq_true, decide_eq_true_eq, not_or, Int64.lt_iff_toInt_lt, Int64.toInt_zero]
    omega
  | temp live =>
    dsimp only
    rw [(knows.live _ _).mpr live]
    exact ⟨_, rfl, rfl⟩

/-- Within the range of records, the check accepts exactly the operands that lie inside. -/
theorem checkOperand_iff (knows : p.Knows pc v) (start : r.offset.toInt ≤ 2 ^ 48)
    (count : n.toInt ≤ 2 ^ 48) : p.checkOperand v pc r n = .ok () ↔ p.Inside pc r n := by
  -- Numbers that are not negative and so small have a sum that does not wrap around.
  have exact (nonneg : 0 ≤ r.offset) (forward : 0 ≤ n) :
      (r.offset + n).toInt = r.offset.toInt + n.toInt := by
    obtain ⟨a, first, first'⟩ := exists_eq_ofNat nonneg
    obtain ⟨b, second, second'⟩ := exists_eq_ofNat forward
    rw [first', second', first, second, ← Int64.ofNat_add, Int64.toInt_ofNat_of_lt (by omega)]
    omega
  have order (x : Int64) : 0 ≤ x ↔ 0 ≤ x.toInt := by
    rw [Int64.le_iff_toInt_le, Int64.toInt_zero]
  rw [checkOperand_eq_ok]
  constructor
  · rintro ⟨size, found, nonneg, forward, inside⟩
    rw [Int64.le_iff_toInt_le, exact nonneg forward] at inside
    exact ⟨(order _).mp nonneg, (order _).mp forward, _, knows.buffer_of_operandSize found, inside⟩
  · rintro ⟨nonneg, forward, size, buffer, inside⟩
    obtain ⟨found, known, rfl⟩ := knows.exists_operandSize buffer
    have nonneg' := (order _).mpr nonneg
    have forward' := (order _).mpr forward
    refine ⟨found, known, nonneg', forward', ?_⟩
    rwa [Int64.le_iff_toInt_le, exact nonneg' forward']

end Knows

/-- An instruction is accepted for what it asks for, with a temporary from its start if any. -/
theorem checkInstr_eq_ok [Written α] :
    p.checkInstr v pc i = .ok v' ↔
      p.Accepted v pc i v' ∧
        (i.op = .alloc ∨ i.op = .free → i.dst.space = .temp ∧ i.dst.offset = 0) := by
  constructor
  · intro accepted
    refine ⟨accepted_of_checkInstr accepted, ?_⟩
    -- The check complains about any other destination.
    rw [checkInstr_eq] at accepted
    rintro (asks | ends)
    · rw [Instr.task_eq_alloc.mpr asks] at accepted
      dsimp only at accepted
      split at accepted
      · cases accepted
      · rename_i proper
        simp only [ne_eq, Bool.or_eq_true, decide_eq_true_eq, not_or, not_not] at proper
        exact proper.1
    · rw [Instr.task_eq_free.mpr ends] at accepted
      dsimp only at accepted
      split at accepted
      · cases accepted
      · rename_i proper
        simpa only [ne_eq, Bool.or_eq_true, decide_eq_true_eq, not_or, not_not] using proper
  · rintro ⟨accepted, placed⟩
    rw [checkInstr_eq]
    unfold Accepted at accepted
    -- Each task has its own complaints, and none of them is made.
    cases task : i.task with
    | alloc =>
      simp only [task] at accepted
      obtain ⟨positive, fresh, rfl⟩ := accepted
      obtain ⟨space, offset⟩ := placed (.inl (Instr.task_eq_alloc.mp task))
      simp [space, offset, fresh, Int64.not_le.mpr positive]
    | free =>
      simp only [task] at accepted
      obtain ⟨live, rfl⟩ := accepted
      obtain ⟨space, offset⟩ := placed (.inr (Instr.task_eq_free.mp task))
      have found : (v.live.find? i.dst.index).isNone = false := by
        rw [← Option.not_isSome, live]
        rfl
      simp [space, offset, found]
    | one op =>
      simp only [task] at accepted
      obtain ⟨target, rfl⟩ := accepted
      rw [target]
      rfl
    | two op =>
      simp only [task] at accepted
      obtain ⟨source, target, rfl⟩ := accepted
      simp only [checkPair, source, target]
      rfl
    | unknown name => simp [task] at accepted

/-- What is known after an accepted instruction agrees with one instruction more. -/
theorem Knows.succ (knows : p.Knows pc v) (here : p.instrs[pc]? = some i)
    (accepted : p.Accepted v pc i v')
    (placed : i.op = .alloc ∨ i.op = .free → i.dst.space = .temp ∧ i.dst.offset = 0) :
    p.Knows (pc + 1) v' := by
  -- Operations on elements begin and end nothing.
  have other (begins : i.task ≠ .alloc) (ends : i.task ≠ .free) : p.Knows (pc + 1) v := by
    have quiet (index : Int64) : ¬ i.Begins index ∧ ¬ i.Ends index :=
      ⟨fun does => begins (Instr.task_eq_alloc.mpr does.op),
        fun does => ends (Instr.task_eq_free.mpr does.op)⟩
    refine ⟨fun index size => ?_, fun index => ?_⟩
    · rw [knows.live, liveAt_succ here]
      simp [quiet index]
    · rw [knows.seen, unusedAt_succ here]
      simp [quiet index]
  unfold Accepted at accepted
  cases task : i.task with
  | alloc =>
    -- It begins under a number that was not used, and nothing ends.
    simp only [task] at accepted
    obtain ⟨_, fresh, rfl⟩ := accepted
    have asks := Instr.task_eq_alloc.mp task
    have begins (index : Int64) : i.Begins index ↔ i.dst.index = index :=
      ⟨Instr.Begins.index, fun same => ⟨asks, (placed (.inl asks)).1, same⟩⟩
    have lasts (index : Int64) : ¬ i.Ends index := ((begins i.dst.index).mpr rfl).not_ends
    refine ⟨fun index size => ?_, fun index => ?_⟩
    · rw [TempTable.find?_insert, liveAt_succ here, begins]
      by_cases same : i.dst.index = index
      · -- The number was never used, so nothing else is live under it.
        have dead : ¬ p.LiveAt pc index size := fun live =>
          live.used ((knows.seen index).mp (same ▸ fresh))
        simp [same, dead]
      · simp [same, lasts, knows.live]
    · rw [TempTable.find?_insert, unusedAt_succ here, begins, ← knows.seen]
      by_cases same : i.dst.index = index <;> simp [same]
  | free =>
    -- It ends, and nothing begins.
    simp only [task] at accepted
    obtain ⟨_, rfl⟩ := accepted
    have asks := Instr.task_eq_free.mp task
    have ends (index : Int64) : i.Ends index ↔ i.dst.index = index :=
      ⟨Instr.Ends.index, fun same => ⟨asks, (placed (.inr asks)).1, same⟩⟩
    have idle (index : Int64) : ¬ i.Begins index := fun does =>
      does.not_ends ((ends i.dst.index).mpr rfl)
    refine ⟨fun index size => ?_, fun index => ?_⟩
    · -- What has ended is gone from the table, and all else stays as it was.
      rw [TempTable.find?_erase, liveAt_succ here, ends]
      by_cases same : i.dst.index = index
      · simp [same, idle]
      · simp [same, idle, knows.live]
    · rw [knows.seen, unusedAt_succ here]
      simp [idle]
  | one op =>
    simp only [task] at accepted
    obtain ⟨_, rfl⟩ := accepted
    exact other (by simp [task]) (by simp [task])
  | two op =>
    simp only [task] at accepted
    obtain ⟨_, _, rfl⟩ := accepted
    exact other (by simp [task]) (by simp [task])
  | unknown name => simp [task] at accepted

/-- Instructions are accepted with one more when that one is accepted after them. -/
theorem checkInstrs_concat_eq_ok [Written α] {done : List (Instr α)} :
    p.checkInstrs v pc (done ++ [i]) = .ok v' ↔
      ∃ w, p.checkInstrs v pc done = .ok w ∧ p.checkInstr w (pc + done.length) i = .ok v' := by
  -- The check of the last one starts with what the others leave.
  constructor
  · intro checked
    rw [checkInstrs_append] at checked
    obtain ⟨w, first, last⟩ := ok_of_bind checked
    obtain ⟨w', accepted, rest⟩ := ok_of_bind last
    exact ⟨w, first, rest ▸ accepted⟩
  · rintro ⟨w, first, last⟩
    exact checkInstrs_concat first last

/-- What is in order at a position is told by the task of an instruction. -/
theorem properAt_iff_task :
    p.ProperAt pc i ↔ match i.task with
      | .alloc => i.dst.space = .temp ∧ i.dst.offset = 0 ∧ 0 < i.len.toInt ∧
        p.UnusedAt pc i.dst.index
      | .free => i.dst.space = .temp ∧ i.dst.offset = 0 ∧ ∃ size, p.LiveAt pc i.dst.index size
      | .one _ => p.Inside pc i.dst i.len
      | .two _ => p.Inside pc i.src i.len ∧ p.Inside pc i.dst i.len
      | .unknown _ => False := by
  rw [properAt_iff]
  unfold Instr.task
  -- An operation has one task, and all conditions on other operations fall away.
  cases op : i.op <;> simp [Op.known, and_comm]

/-- Within the range of records, an instruction is accepted exactly where it is in order. -/
theorem Knows.exists_checkInstr_iff [Written α] (knows : p.Knows pc v) (ranged : i.Ranged) :
    (∃ v', p.checkInstr v pc i = .ok v') ↔ p.ProperAt pc i := by
  have dst := knows.checkOperand_iff ranged.dst ranged.len
  have src := knows.checkOperand_iff ranged.src ranged.len
  have positive : 0 < i.len ↔ 0 < i.len.toInt := by
    rw [Int64.lt_iff_toInt_lt, Int64.toInt_zero]
  simp only [checkInstr_eq_ok, properAt_iff_task, Accepted]
  -- Where a temporary begins or ends, its place is asked for; elsewhere only operands are.
  cases task : i.task with
  | alloc =>
    have asks := Instr.task_eq_alloc.mp task
    simp only [asks, true_or, true_implies, positive, knows.seen]
    constructor
    · rintro ⟨_, ⟨some, unused, _⟩, space, offset⟩
      exact ⟨space, offset, some, unused⟩
    · rintro ⟨space, offset, some, unused⟩
      exact ⟨_, ⟨some, unused, rfl⟩, space, offset⟩
  | free =>
    have asks := Instr.task_eq_free.mp task
    simp only [asks, or_true, true_implies, Option.isSome_iff_exists, knows.live]
    constructor
    · rintro ⟨_, ⟨live, _⟩, space, offset⟩
      exact ⟨space, offset, live⟩
    · rintro ⟨space, offset, live⟩
      exact ⟨_, ⟨live, rfl⟩, space, offset⟩
  | one op =>
    have apart : ¬ (i.op = .alloc ∨ i.op = .free) := by
      rw [← Instr.task_eq_alloc, ← Instr.task_eq_free, task]
      simp
    simp [apart, dst]
  | two op =>
    have apart : ¬ (i.op = .alloc ∨ i.op = .free) := by
      rw [← Instr.task_eq_alloc, ← Instr.task_eq_free, task]
      simp
    simp [apart, dst, src]
  | unknown name => simp

/-- The check gets to a position exactly when all instructions before it are in order. -/
theorem checkInstrs_take_iff [Written α] (ranged : ∀ i ∈ p.instrs, i.Ranged) :
    ∀ pc ≤ p.instrs.length,
      ((∃ v, p.checkInstrs ⟨[], []⟩ 0 (p.instrs.take pc) = .ok v) ↔
        ∀ k i, k < pc → p.instrs[k]? = some i → p.ProperAt k i) ∧
      ∀ v, p.checkInstrs ⟨[], []⟩ 0 (p.instrs.take pc) = .ok v → p.Knows pc v := by
  -- Each instruction is checked with what is known of those before it.
  intro pc
  induction pc with
  | zero =>
    intro _
    refine ⟨⟨fun _ k _ below => absurd below (by omega), fun _ => ⟨_, rfl⟩⟩, fun v checked => ?_⟩
    rw [← Except.ok.inj checked]
    exact p.knows_nil
  | succ pc ih =>
    intro within
    obtain ⟨reached, knows⟩ := ih (by omega)
    obtain ⟨i, here⟩ : ∃ i, p.instrs[pc]? = some i := ⟨_, List.getElem?_eq_getElem (by omega)⟩
    have own := ranged i (List.mem_of_getElem? here)
    have more : p.instrs.take (pc + 1) = p.instrs.take pc ++ [i] := by
      rw [List.take_add_one, here, Option.toList_some]
    have position : 0 + (p.instrs.take pc).length = pc := by
      rw [List.length_take_of_le (by omega), Nat.zero_add]
    rw [more, forall_lt_succ here, ← reached]
    simp only [checkInstrs_concat_eq_ok, position]
    refine ⟨⟨?_, ?_⟩, ?_⟩
    · -- The instruction was accepted with what was known before it, so it is in order there.
      rintro ⟨v', w, checked, accepted⟩
      exact ⟨((knows w checked).exists_checkInstr_iff own).mp ⟨v', accepted⟩, w, checked⟩
    · rintro ⟨proper, w, checked⟩
      obtain ⟨v', accepted⟩ := ((knows w checked).exists_checkInstr_iff own).mpr proper
      exact ⟨v', w, checked, accepted⟩
    · rintro v ⟨w, checked, accepted⟩
      obtain ⟨does, placed⟩ := checkInstr_eq_ok.mp accepted
      exact (knows w checked).succ here does placed

/-- Nothing is live at the end exactly when every temporary that begins ends later. -/
theorem Knows.live_eq_nil_iff (knows : p.Knows p.instrs.length v) :
    v.live = [] ↔ ∀ (pc : Nat) (i : Instr α) index, p.instrs[pc]? = some i → i.Begins index →
      ∃ (later : Nat) (j : Instr α), pc < later ∧ p.instrs[later]? = some j ∧ j.Ends index := by
  constructor
  · intro none pc i index here begins
    -- A temporary that never ended would still be known.
    by_contra never
    push Not at never
    have within := (List.getElem?_eq_some_iff.mp here).1
    have live : p.LiveAt p.instrs.length index i.len :=
      ⟨pc, i, within, here, begins, rfl, fun k j above _ found => never k j above found⟩
    have known := (knows.live index i.len).mpr live
    rw [none] at known
    cases known
  · intro ended
    -- The first of those left would have ended.
    cases left : v.live with
    | nil => rfl
    | cons entry rest =>
      have known : v.live.find? entry.1 = some entry.2 := by simp [left, TempTable.find?]
      obtain ⟨start, i, _, here, begins, _, lasts⟩ := (knows.live _ _).mp known
      obtain ⟨later, j, after, found, ends⟩ := ended start i entry.1 here begins
      have within := (List.getElem?_eq_some_iff.mp found).1
      exact absurd ends (lasts later j after within found)

/-- A program is safe when it has paths and its instructions leave nothing live. -/
theorem validate_eq_ok [Written α] :
    p.validate = .ok () ↔ 0 < p.paths ∧
      ∃ v, p.checkInstrs ⟨[], []⟩ 0 p.instrs = .ok v ∧ v.live = [] := by
  -- The check asks for paths, then goes through the instructions, and then looks at what lives.
  constructor
  · intro safe
    obtain ⟨some, v, checked⟩ := checkInstrs_of_validate safe
    exact ⟨some, v, checked, live_of_validate safe checked⟩
  · rintro ⟨some, v, checked, none⟩
    unfold validate
    dsimp only
    rw [if_neg (Int64.not_le.mpr some), checked]
    simp only [Bind.bind, Except.bind, none, List.isEmpty_nil, if_true]
    rfl

/--
The check of a program decides whether it is well-formed.

Offsets and lengths have to be in the range of records, as they are in programs that were read.
-/
theorem validate_iff_wellFormed [Written α] (ranged : ∀ i ∈ p.instrs, i.Ranged) :
    p.validate = .ok () ↔ p.WellFormed := by
  obtain ⟨reached, knows⟩ := checkInstrs_take_iff ranged p.instrs.length (Nat.le_refl _)
  rw [List.take_length] at reached knows
  have positive : 0 < p.paths ↔ 0 < p.paths.toInt := by
    rw [Int64.lt_iff_toInt_lt, Int64.toInt_zero]
  rw [validate_eq_ok, positive]
  constructor
  · -- The check gets to the end, where nothing is left.
    rintro ⟨some, v, checked, none⟩
    refine ⟨some, fun pc i here => ?_, (knows v checked).live_eq_nil_iff.mp none⟩
    exact reached.mp ⟨v, checked⟩ pc i (List.getElem?_eq_some_iff.mp here).1 here
  · rintro ⟨some, proper, ended⟩
    obtain ⟨v, checked⟩ := reached.mpr (fun k i _ here => proper k i here)
    exact ⟨some, v, checked, (knows v checked).live_eq_nil_iff.mpr ended⟩

/-- A program with two temporaries, of which the one that began first ends first. -/
def crossing : Program Float where
  paths := 4
  vars? := some ["x", "y"]
  seeds? := some [1, 0]
  source := ""
  instrs :=
    [⟨.alloc, ⟨.temp, 7, 0⟩, .value, 0, 8⟩,
      ⟨.copy, ⟨.temp, 7, 4⟩, .var 1, 0, 4⟩,
      ⟨.alloc, ⟨.temp, 2, 0⟩, .value, 0, 3⟩,
      ⟨.mul, ⟨.temp, 2, 0⟩, ⟨.temp, 7, 5⟩, 0, 3⟩,
      ⟨.free, ⟨.temp, 7, 0⟩, .value, 0, 0⟩,
      ⟨.add, ⟨.value, 0, 1⟩, ⟨.temp, 2, 0⟩, 0, 3⟩,
      ⟨.free, ⟨.temp, 2, 0⟩, .value, 0, 0⟩]
  peak := 11

/-- The check accepts the program with temporaries that cross, so it is well-formed. -/
theorem validate_iff_wellFormed_crossing :
    (∀ i ∈ crossing.instrs, i.Ranged) ∧ crossing.validate = .ok () ∧ crossing.WellFormed := by
  -- No sum of an offset and a length wraps around in it.
  have ranged : ∀ i ∈ crossing.instrs, i.Ranged := by decide
  have safe : crossing.validate = .ok () := by rfl
  exact ⟨ranged, safe, (validate_iff_wellFormed ranged).mp safe⟩

end Program

end Tangent
