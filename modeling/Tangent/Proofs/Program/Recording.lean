import Tangent.Program.Recorder
import Tangent.Proofs.Program.Check
import Tangent.Proofs.Walk.Likeness

/-!
What a recorder has written down so far is accepted by the check of programs.

Temporaries are numbered in the order in which they begin, and the latest one ends first, so the
live ones are a list that grows and shrinks at its front.
-/

namespace Tangent

variable {ε α ν μ : Type}

/-- Entries with falling numbers below the next one. -/
structure Numbered (entries : List (Nat × ν)) (next : Nat) : Prop where
  bounded : next ≤ 2 ^ 63
  below : ∀ entry ∈ entries, entry.1 < next
  falling : entries.Pairwise (fun a b => b.1 < a.1)

/-- The next number can be given out. -/
theorem Numbered.cons {entries : List (Nat × ν)} {next : Nat} (numbered : Numbered entries next)
    (room : next + 1 ≤ 2 ^ 63) (x : ν) : Numbered ((next, x) :: entries) (next + 1) where
  bounded := room
  below entry found := by
    -- The new number is the largest.
    rcases List.mem_cons.mp found with rfl | found
    · exact Nat.lt_succ_self next
    · exact Nat.lt_succ_of_lt (numbered.below entry found)
  falling := List.pairwise_cons.mpr
    ⟨fun entry found => numbered.below entry found, numbered.falling⟩

/-- The latest entry can be dropped. -/
theorem Numbered.tail {entry : Nat × ν} {entries : List (Nat × ν)} {next : Nat}
    (numbered : Numbered (entry :: entries) next) : Numbered entries next :=
  -- The numbers of the others fall below that of the latest one.
  ⟨numbered.bounded, fun entry found => numbered.below entry (by simp [found]),
    (List.pairwise_cons.mp numbered.falling).2⟩

namespace TempTable

/-- A table of numbered entries. -/
def ofEntries (f : ν → μ) (entries : List (Nat × ν)) : TempTable μ :=
  entries.map (fun entry => (Int64.ofNat entry.1, f entry.2))

variable {f : ν → μ} {entries : List (Nat × ν)} {next : Nat}

/-- Entries with other numbers are not touched. -/
theorem filter_ofEntries {i : Nat} (bounded : i < 2 ^ 63)
    (others : ∀ entry ∈ entries, entry.1 ≠ i ∧ entry.1 < 2 ^ 63) :
    List.filter (fun entry => entry.1 != Int64.ofNat i) (ofEntries f entries) =
      ofEntries f entries := by
  -- Different numbers make different machine integers, so nothing is filtered out.
  refine List.filter_eq_self.mpr (fun entry found => ?_)
  obtain ⟨source, listed, rfl⟩ := List.mem_map.mp found
  obtain ⟨differ, small⟩ := others source listed
  simpa using ofNat_ne differ small bounded

/-- A numbered entry is found under its number. -/
theorem find?_ofEntries (numbered : Numbered entries next) {i : Nat} {x : ν}
    (found : (i, x) ∈ entries) : (ofEntries f entries).find? (Int64.ofNat i) = some (f x) := by
  induction entries with
  | nil => simp at found
  | cons entry rest ih =>
    have bounded := numbered.bounded
    have small := numbered.below entry (by simp)
    have smaller := numbered.below (i, x) found
    rcases List.mem_cons.mp found with rfl | found
    · simp [ofEntries, find?]
    · -- Entries further down have smaller numbers, so the first one is passed over.
      have later := (List.pairwise_cons.mp numbered.falling).1 (i, x) found
      have differ : Int64.ofNat entry.1 ≠ Int64.ofNat i :=
        ofNat_ne (by omega) (by omega) (by omega)
      have rest := ih numbered.tail found
      simp only [find?, ofEntries, List.map_cons] at rest ⊢
      rw [List.find?_cons_of_neg (by simpa using differ)]
      exact rest

/-- An entry with the next number is put first. -/
theorem insert_ofEntries (numbered : Numbered entries next) (room : next < 2 ^ 63) (x : ν) :
    (ofEntries f entries).insert (Int64.ofNat next) (f x) = ofEntries f ((next, x) :: entries) := by
  -- The next number is above all others, so no entry is replaced.
  rw [insert, filter_ofEntries room (fun entry found => by
    have := numbered.below entry found
    omega)]
  rfl

/-- The latest entry is taken off the front. -/
theorem erase_ofEntries {i : Nat} {x : ν} (numbered : Numbered ((i, x) :: entries) next) :
    (ofEntries f ((i, x) :: entries)).erase (Int64.ofNat i) = ofEntries f entries := by
  have bounded := numbered.bounded
  have small := numbered.below (i, x) (by simp)
  have lower := (List.pairwise_cons.mp numbered.falling).1
  -- All other numbers are smaller, so the filter drops the front entry only.
  have rest : List.filter (fun entry => entry.1 != Int64.ofNat i) (ofEntries f entries) =
      ofEntries f entries :=
    filter_ofEntries (by omega) (fun entry found => by
      have := lower entry found
      omega)
  rw [← rest]
  simp [erase, ofEntries]

end TempTable

/-- The operand that stands for an area from its start, and the number of its elements. -/
inductive Area.At (names : List String) (n : Nat) (temps : List (Nat × ν)) (size : ν → Nat) :
    Area → Ref → Nat → Prop where
  | value : At names n temps size .value .value n
  | deriv : At names n temps size .deriv .deriv n
  | data {i : Nat} {name : String} (listed : names[i]? = some name) (bounded : i < 2 ^ 63) :
    At names n temps size (.data name) (.var (Int64.ofNat i)) n
  | block {i depth : Nat} {x : ν} (live : (i, x) ∈ temps) :
    At names n temps size (.block depth) ⟨.temp, Int64.ofNat i, 0⟩ (size x)

/--
A recorder whose instructions are accepted, with the live temporaries known to the check.

The check looks at the paths and the variables of a program, so it accepts the instructions in
whatever program with those of the recorder they end up.
-/
structure Recorder.Sound [Written α] (r : Recorder α) (n : Nat) (names : List String)
    (temps : List (Nat × ν)) (size : ν → Nat) (next : Nat) : Prop where
  header : r.paths = Int64.ofNat n ∧ r.declared.reverse.map (·.1) = names
  numbered : Numbered temps next
  counter : r.nextTemp = Int64.ofNat next
  live : r.live = TempTable.ofEntries (fun x => Int64.ofNat (size x)) temps
  sizes : n < 2 ^ 63 ∧ ∀ entry ∈ temps, size entry.2 < 2 ^ 63
  checked : ∃ seen : TempTable Unit,
    (∀ index, (seen.find? index).isSome → ∃ j < next, index = Int64.ofNat j) ∧
    ∀ p : Program α, p.paths = Int64.ofNat n → p.vars = names →
      p.checkInstrs ⟨[], []⟩ 0 r.recorded.reverse = .ok ⟨r.live, seen⟩

/-- The instruction of an operation on one operand. -/
def Unary.instr [Elem α] (op : Unary α) (dst : Ref) (n : Int64) : Instr α :=
  ⟨op.op, dst, .value, match op with | .fill value => value | _ => Elem.zero, n⟩

/-- The instruction of an operation on two operands. -/
def Binary.instr [Elem α] (op : Binary) (src dst : Ref) (n : Int64) : Instr α :=
  ⟨op.op, dst, src, Elem.zero, n⟩

/-- The instruction of an operation asks for it. -/
theorem Unary.task_instr [Elem α] (op : Unary α) (dst : Ref) (n : Int64) :
    (op.instr dst n).task = .one op := by
  -- Each operation records the instruction by which it is asked for.
  cases op <;> rfl

/-- The instruction of an operation asks for it. -/
theorem Binary.task_instr [Elem α] (op : Binary) (src dst : Ref) (n : Int64) :
    (op.instr src dst n : Instr α).task = .two op := by
  -- Each operation records the instruction by which it is asked for.
  cases op <;> rfl

/-- A recorder with one more instruction. -/
def Recorder.record (r : Recorder α) (i : Instr α) : Recorder α :=
  { r with recorded := i :: r.recorded }

/-- A recorder with one more temporary. -/
def Recorder.opened [Elem α] (r : Recorder α) (m : Int64) : Recorder α :=
  { r with
    nextTemp := r.nextTemp + 1
    live := r.live.insert r.nextTemp m
    liveElements := r.liveElements + m
    peakElements := max r.peakElements (r.liveElements + m)
    recorded := ⟨.alloc, ⟨.temp, r.nextTemp, 0⟩, .value, Elem.zero, m⟩ :: r.recorded }

/-- A recorder whose latest temporary has ended. -/
def Recorder.closed [Elem α] (r : Recorder α) (index size : Int64) : Recorder α :=
  { r with
    live := r.live.erase index
    liveElements := r.liveElements - size
    recorded := ⟨.free, ⟨.temp, index, 0⟩, .value, Elem.zero, 0⟩ :: r.recorded }

namespace Recorder.Sound

variable [Written α] {r : Recorder α} {n : Nat} {names : List String} {temps : List (Nat × ν)}
  {size : ν → Nat} {next : Nat} {area source target : Area} {base : Ref} {total k m : Nat}

/-- The check knows the size of every buffer. -/
theorem operandSize_eq (sound : r.Sound n names temps size next)
    (placed : area.At names n temps size base total) {p : Program α}
    (paths : p.paths = Int64.ofNat n) (vars : p.vars = names) (seen : TempTable Unit) (pc : Nat)
    (offset : Int64) :
    p.operandSize ⟨r.live, seen⟩ pc { base with offset } = .ok (Int64.ofNat total) := by
  -- Registers and data have an element for each path, temporaries the size they began with.
  cases placed with
  | value => simp [Program.operandSize, Ref.value, paths]
  | deriv => simp [Program.operandSize, Ref.deriv, paths]
  | @data i name listed bounded =>
    have inside : i < names.length := (List.getElem?_eq_some_iff.mp listed).1
    have index : (Int64.ofNat i).toInt = i := Int64.toInt_ofNat_of_lt bounded
    have within : ¬ (Int64.ofNat i).toInt ≥ (names.length : Int) := by omega
    simp only [Program.operandSize, Ref.var, vars, ofNat_not_neg bounded, within, decide_false,
      Bool.or_self, Bool.false_eq_true, if_false, paths]
  | block live =>
    simp only [Program.operandSize, sound.live, TempTable.find?_ofEntries sound.numbered live]

/-- No buffer is larger than a machine integer can count. -/
theorem total_lt (sound : r.Sound n names temps size next)
    (placed : area.At names n temps size base total) : total < 2 ^ 63 := by
  -- Registers and data have an element for each path.
  cases placed with
  | value => exact sound.sizes.1
  | deriv => exact sound.sizes.1
  | data => exact sound.sizes.1
  | block live => exact sound.sizes.2 _ live

/-- The check accepts elements that lie inside their buffer. -/
theorem checkOperand_ok (sound : r.Sound n names temps size next)
    (placed : area.At names n temps size base total) (inside : k + m ≤ total) {p : Program α}
    (paths : p.paths = Int64.ofNat n) (vars : p.vars = names) (seen : TempTable Unit) (pc : Nat) :
    p.checkOperand ⟨r.live, seen⟩ pc { base with offset := Int64.ofNat k } (Int64.ofNat m) =
      .ok () := by
  -- The end of the elements is a count that does not pass that of the buffer.
  have bounded := sound.total_lt placed
  refine Program.checkOperand_eq_ok.mpr ⟨_, sound.operandSize_eq placed paths vars seen pc _,
    ?_, ?_, ?_⟩
  · exact Int64.not_lt.mp (ofNat_not_neg (by omega))
  · exact Int64.not_lt.mp (ofNat_not_neg (by omega))
  · show Int64.ofNat k + Int64.ofNat m ≤ Int64.ofNat total
    rw [← Int64.ofNat_add, Int64.le_iff_toInt_le, Int64.toInt_ofNat_of_lt (by omega),
      Int64.toInt_ofNat_of_lt bounded]
    omega

/-- An operand that stands for an area can be used. -/
theorem use_ok (sound : r.Sound n names temps size next)
    (placed : area.At names n temps size base total) (offset : Int64) :
    (Recorder.use { base with offset } : Action (Recorder α) ε Unit) r = .ok () r := by
  unfold Recorder.use
  rw [Action.get_bind]
  -- Only temporaries are looked up, and this one is live.
  cases placed with
  | value => rfl
  | deriv => rfl
  | data => rfl
  | block live =>
    have known := TempTable.find?_ofEntries (f := fun x => Int64.ofNat (size x)) sound.numbered live
    simp [sound.live, known]

/-- An instruction that is accepted and changes no temporary is written down. -/
theorem record (sound : r.Sound n names temps size next) {i : Instr α}
    (accepted : ∀ (p : Program α), p.paths = Int64.ofNat n → p.vars = names → ∀ seen pc,
      p.checkInstr ⟨r.live, seen⟩ pc i = .ok ⟨r.live, seen⟩) :
    (r.record i).Sound n names temps size next where
  header := sound.header
  numbered := sound.numbered
  counter := sound.counter
  live := sound.live
  sizes := sound.sizes
  checked := by
    obtain ⟨seen, known, checked⟩ := sound.checked
    refine ⟨seen, known, fun p paths vars => ?_⟩
    -- The latest instruction is first in the recording and last in the program.
    rw [Recorder.record, List.reverse_cons]
    exact Program.checkInstrs_concat (checked p paths vars) (accepted p paths vars seen _)

/-- A recorder without live temporaries makes a safe program. -/
theorem validate (sound : r.Sound n names ([] : List (Nat × ν)) size next) (positive : 0 < n)
    {p : Program α} (paths : p.paths = r.paths) (vars : p.vars = r.declared.reverse.map (·.1))
    (instrs : p.instrs = r.recorded.reverse) : p.validate = .ok () := by
  -- The program has paths, and at its end no temporary is live.
  obtain ⟨seen, _, checked⟩ := sound.checked
  have accepted := checked p (paths.trans sound.header.1) (vars.trans sound.header.2)
  have some : ¬ p.paths ≤ 0 := by
    rw [paths, sound.header.1]
    exact ofNat_pos positive sound.sizes.1
  rw [Program.validate, if_neg some, instrs, accepted, sound.live]
  rfl

/-- The latest temporary is live, with the size it began with. -/
theorem find?_latest {i : Nat} {x : ν} (sound : r.Sound n names ((i, x) :: temps) size next) :
    r.live.find? (Int64.ofNat i) = some (Int64.ofNat (size x)) := by
  -- Live temporaries are those of the list, whose numbers differ.
  rw [sound.live]
  exact TempTable.find?_ofEntries sound.numbered List.mem_cons_self

variable [Elem α]

/-- An operation on one operand is written down. -/
theorem one_ok (sound : r.Sound n names temps size next) (op : Unary α)
    (placed : area.At names n temps size base total) (inside : k + m ≤ total) :
    (Recorder.backend.one op { base with offset := Int64.ofNat k } (Int64.ofNat m) :
        Action (Recorder α) ε Unit) r =
      .ok () (r.record (op.instr { base with offset := Int64.ofNat k } (Int64.ofNat m))) ∧
    (r.record (op.instr { base with offset := Int64.ofNat k } (Int64.ofNat m))).Sound n names temps
      size next := by
  -- Recording asks whether the operand may be used, and the check where its elements end.
  constructor
  · cases op <;> exact Action.bind_ok (sound.use_ok placed _)
  · refine sound.record (fun p paths vars seen pc => ?_)
    rw [Program.checkInstr_eq, Unary.task_instr]
    simp only [Unary.instr, sound.checkOperand_ok placed inside paths vars, Except.map]

/-- An operation on two operands is written down. -/
theorem two_ok (sound : r.Sound n names temps size next) (op : Binary) {base' : Ref}
    {total' k' : Nat} (from' : source.At names n temps size base total)
    (into : target.At names n temps size base' total') (inside : k + m ≤ total)
    (inside' : k' + m ≤ total') :
    (Recorder.backend.two op { base with offset := Int64.ofNat k }
        { base' with offset := Int64.ofNat k' } (Int64.ofNat m) : Action (Recorder α) ε Unit) r =
      .ok () (r.record (op.instr { base with offset := Int64.ofNat k }
        { base' with offset := Int64.ofNat k' } (Int64.ofNat m))) ∧
    (r.record (op.instr { base with offset := Int64.ofNat k }
      { base' with offset := Int64.ofNat k' } (Int64.ofNat m))).Sound n names temps size next := by
  -- The source comes first, for the recorder as for the check.
  constructor
  · cases op <;>
      exact (Action.bind_ok (sound.use_ok from' _)).trans (Action.bind_ok (sound.use_ok into _))
  · refine sound.record (fun p paths vars seen pc => ?_)
    rw [Program.checkInstr_eq, Binary.task_instr]
    simp only [Binary.instr, Program.checkPair, sound.checkOperand_ok from' inside paths vars,
      sound.checkOperand_ok into inside' paths vars, Bind.bind, Except.bind, Except.map]

/-- The next temporary begins, unless the limit is passed. -/
theorem alloc_ok (sound : r.Sound n names temps size next) (positive : 0 < m) (bounded : m < 2 ^ 63)
    (granted : ¬ (r.limit > 0 && r.liveElements + Int64.ofNat m > r.limit) = true) :
    (Recorder.backend.alloc (Int64.ofNat m) : Action (Recorder α) ε _) r =
      .ok (.ok ⟨.temp, Int64.ofNat next, 0⟩) (r.opened (Int64.ofNat m)) := by
  -- The recorder hands out the number it has counted up to.
  show Recorder.alloc (Int64.ofNat m) r = _
  rw [Recorder.alloc, if_neg (ofNat_pos positive bounded), Action.get_bind, if_neg granted,
    ← sound.counter]
  rfl

/-- A temporary that begins is accepted. -/
theorem opened (sound : r.Sound n names temps size next) {x : ν} (length : size x = m)
    (positive : 0 < m) (bounded : m < 2 ^ 63) (room : next + 1 ≤ 2 ^ 63) :
    (r.opened (Int64.ofNat m)).Sound n names ((next, x) :: temps) size (next + 1) where
  header := sound.header
  numbered := sound.numbered.cons room x
  counter := by
    show r.nextTemp + 1 = _
    rw [sound.counter, Int64.ofNat_add]
    rfl
  live := by
    show r.live.insert r.nextTemp (Int64.ofNat m) = _
    rw [sound.live, sound.counter, ← length]
    exact TempTable.insert_ofEntries sound.numbered room x
  sizes := by
    refine ⟨sound.sizes.1, fun entry found => ?_⟩
    rcases List.mem_cons.mp found with rfl | found
    · rw [length]
      exact bounded
    · exact sound.sizes.2 entry found
  checked := by
    obtain ⟨seen, known, checked⟩ := sound.checked
    -- Every number that was ever used is below the next one.
    have fresh : (seen.find? r.nextTemp).isSome = false := by
      by_contra used
      obtain ⟨j, lower, same⟩ := known r.nextTemp ((Bool.not_eq_false _).mp used)
      rw [sound.counter] at same
      exact ofNat_ne (by omega) (by omega) (by omega) same
    refine ⟨seen.insert r.nextTemp (), fun index used => ?_, fun p paths vars => ?_⟩
    · -- After that the new number is used as well, which is still below the next.
      rw [TempTable.find?_insert] at used
      split at used
      · rename_i same
        exact ⟨next, Nat.lt_succ_self next, by rw [← same, sound.counter]⟩
      · obtain ⟨j, lower, same⟩ := known index used
        exact ⟨j, Nat.lt_succ_of_lt lower, same⟩
    · have reversed : (r.opened (Int64.ofNat m)).recorded.reverse = r.recorded.reverse ++
          [⟨.alloc, ⟨.temp, r.nextTemp, 0⟩, .value, Elem.zero, Int64.ofNat m⟩] :=
        List.reverse_cons
      rw [reversed]
      refine Program.checkInstrs_concat (checked p paths vars) ?_
      rw [Program.checkInstr_eq]
      simp [Instr.task, ofNat_pos positive bounded, fresh, Recorder.opened]

/-- The latest temporary ends. -/
theorem free_ok {i : Nat} {x : ν} (sound : r.Sound n names ((i, x) :: temps) size next) :
    (Recorder.backend.free ⟨.temp, Int64.ofNat i, 0⟩ : Action (Recorder α) ε Unit) r =
      .ok () (r.closed (Int64.ofNat i) (Int64.ofNat (size x))) := by
  -- The temporary is live, with the size it began with.
  have known := sound.find?_latest
  show Recorder.free ⟨.temp, Int64.ofNat i, 0⟩ r = _
  simp only [Recorder.free, ne_eq, not_true_eq_false, decide_false, Bool.or_self,
    Bool.false_eq_true, if_false]
  show (get >>= _ : Action (Recorder α) ε Unit) r = _
  rw [Action.get_bind, known]
  rfl

/-- A temporary that ends is accepted. -/
theorem closed {i : Nat} {x : ν} (sound : r.Sound n names ((i, x) :: temps) size next) :
    (r.closed (Int64.ofNat i) (Int64.ofNat (size x))).Sound n names temps size next where
  header := sound.header
  numbered := sound.numbered.tail
  counter := sound.counter
  live := by
    show r.live.erase (Int64.ofNat i) = _
    rw [sound.live]
    exact TempTable.erase_ofEntries sound.numbered
  sizes := ⟨sound.sizes.1, fun entry found => sound.sizes.2 entry (by simp [found])⟩
  checked := by
    obtain ⟨seen, known, checked⟩ := sound.checked
    have live := sound.find?_latest
    -- A number counts as used even after its temporary has ended.
    refine ⟨seen, known, fun p paths vars => ?_⟩
    have reversed : (r.closed (Int64.ofNat i) (Int64.ofNat (size x))).recorded.reverse =
        r.recorded.reverse ++ [⟨.free, ⟨.temp, Int64.ofNat i, 0⟩, .value, Elem.zero, 0⟩] :=
      List.reverse_cons
    rw [reversed]
    refine Program.checkInstrs_concat (checked p paths vars) ?_
    rw [Program.checkInstr_eq]
    simp [Instr.task, live, Recorder.closed]

end Recorder.Sound

end Tangent
