import Tangent.Proofs.Program.Recording
import Tangent.Proofs.Vector.Host
import Tangent.Proofs.Vector.Kernels
import Tangent.Proofs.Vector.Loans
import Tangent.Proofs.Walk.PerPath

/-!
A walk gives back what it borrows.

However a walk ends, with an answer, with an error or at a misuse, the blocks on loan are those that
were on loan before it. This holds in memory and in a recording, for all trees and buffers.
-/

namespace Tangent

variable {σ α β κ : Type}

namespace Lender.Settles

section Steps

variable [DecidableEq β] {be : Backend σ WalkError α β} {L : Lender be κ}

/-- An operation on one buffer has no loan to settle. -/
theorem one (op : Unary α) (x : β) (n : Int64) : L.Settles 0 ((Traced.backend be).one op x n) := by
  -- Each of the operations is a step of the backend that leaves its ledger alone.
  cases op with
  | fill value => exact within (L.one (.fill value) x n)
  | zero => exact within (L.one .zero x n)
  | exp => exact within (L.one .exp x n)

/-- An operation on two buffers has no loan to settle. -/
theorem two (op : Binary) (x y : β) (n : Int64) :
    L.Settles 0 ((Traced.backend be).two op x y n) := by
  -- Each of the operations is a step of the backend that leaves its ledger alone.
  cases op with
  | copy => exact within (L.two .copy x y n)
  | add => exact within (L.two .add x y n)
  | mul => exact within (L.two .mul x y n)

/-- Writing a constant has no loan to settle. -/
theorem set [Elem α] (x : β) (value : α) (n : Int64) :
    L.Settles 0 ((Traced.backend be).set x value n) := by
  -- A constant is written by an operation on one buffer.
  rw [Backend.set_eq_one]
  exact one _ x n

/-- A stretch of a block is no loan of its own. -/
theorem slot (temp : Temp β) (i stride : Int64) :
    L.Settles 0 ((Traced.backend be).slot temp i stride) := by
  -- A stretch outside its block is a misuse, which leaves everything as it is.
  unfold Backend.slot
  split
  · exact still (fun _ => rfl)
  · exact within (L.offset temp.buffer (i * stride))

/-- Stretches of a block are no loans of their own. -/
theorem slots (temp : Temp β) (stride : Int64) (count : Nat) :
    ∀ i, L.Settles 0 ((Traced.backend be).slots temp stride i count) := by
  -- The stretches are asked for one after the other, and none of them is lent.
  induction count with
  | zero => exact fun i => still (fun _ => rfl)
  | succ count ih =>
    intro i
    refine (slot temp i stride).after (fun first => ?_)
    exact (ih (i + 1)).after (fun others => still (fun _ => rfl))

/-- Multiplications by a source have no loan to settle. -/
theorem mulEach (src : β) (n : Int64) (xs : List β) :
    L.Settles 0 (Walk.mulEach (Traced.backend be) src n xs) := by
  -- The multiplications follow each other, and none of them borrows.
  induction xs with
  | nil => exact still (fun _ => rfl)
  | cons x xs ih => exact (two .mul src x n).after (fun _ => ih)

/-- Additions to a destination have no loan to settle. -/
theorem addEach (dst : β) (n : Int64) (xs : List β) :
    L.Settles 0 (Walk.addEach (Traced.backend be) dst n xs) := by
  -- The additions follow each other, and none of them borrows.
  induction xs with
  | nil => exact still (fun _ => rfl)
  | cons x xs ih => exact (two .add x dst n).after (fun _ => ih)

/-- The sum of partial products has no loan to settle. -/
theorem sumPartials (deriv : β) (n : Int64) (xs : List β) :
    L.Settles 0 (Walk.sumPartials (Traced.backend be) deriv n xs) := by
  -- The first partial product is copied and the others are added, all without a loan.
  cases xs with
  | nil => exact still (fun _ => rfl)
  | cons x xs => exact (two .copy x deriv n).after (fun _ => addEach deriv n xs)

variable [Elem α] {c : Context α β}

/-- Sums settle the loans of their operands. -/
theorem visitSum (value deriv : β) {operands : List (Expr α)}
    (each : ∀ e ∈ operands, L.Settles e.blocks (Walk.visit (Traced.backend be) c e)) :
    L.Settles (Expr.blocksOf operands)
      (Walk.visitSum (Traced.backend be) c value deriv operands) := by
  induction operands with
  | nil => exact still (fun _ => rfl)
  | cons e rest ih =>
    -- The operand's loans are settled before its results are added.
    have others := ih (fun e found => each e (by simp [found]))
    refine (each e (by simp)).bind (fun _ => ?_)
    refine (two .add c.value value c.paths).after (fun _ => ?_)
    exact (two .add c.deriv deriv c.paths).after (fun _ => others)

/-- Products settle the loans of their factors. -/
theorem visitProduct (value : β) {operands : List (Expr α)}
    (each : ∀ e ∈ operands, L.Settles e.blocks (Walk.visit (Traced.backend be) c e)) :
    ∀ before after, L.Settles (Expr.blocksOf operands)
      (Walk.visitProduct (Traced.backend be) c value before after operands) := by
  induction operands with
  | nil => exact fun _ _ => still (fun _ => rfl)
  | cons e rest ih =>
    intro before after
    have others := ih (fun e found => each e (by simp [found]))
    -- The factor is done with its own blocks before its results are multiplied.
    refine (each e (by simp)).bind (fun _ => ?_)
    refine (two .mul c.value value c.paths).after (fun _ => ?_)
    cases after with
    | nil =>
      -- Without a stretch for the factor the walk ends here, and needs fewer loans.
      exact (still (L := L) (fun _ => rfl)).enough (Nat.zero_le _)
    | cons own after =>
      refine (two .mul c.deriv own c.paths).after (fun _ => ?_)
      refine (mulEach c.value c.paths before).after (fun _ => ?_)
      exact (mulEach c.value c.paths after).after (fun _ => others _ _)

/-- A walk settles the loans of all its blocks. -/
theorem visit (e : Expr α) : L.Settles e.blocks (Walk.visit (Traced.backend be) c e) := by
  induction e using Expr.induction with
  | const value => exact (set c.value value c.paths).after (fun _ => one .zero c.deriv c.paths)
  | var name =>
    refine (ofExcept (c.lookup name)).after (fun binding => ?_)
    exact (two .copy binding.data c.value c.paths).after (fun _ => set c.deriv binding.seed c.paths)
  | add operands ih =>
    simp only [Walk.visit, Expr.blocks]
    split
    · -- Without operands the walk stops before it borrows.
      exact (still (L := L) (fun _ => rfl)).enough (Nat.zero_le _)
    · -- Everything between the loan of the sum and its return is settled on its own.
      refine withTemp (fun temp => ?_)
      refine (slot temp 0 c.paths).after (fun value => ?_)
      refine (slot temp 1 c.paths).after (fun deriv => ?_)
      refine (one .zero temp.buffer (2 * c.paths)).after (fun _ => ?_)
      refine (visitSum value deriv ih).before (fun _ => ?_)
      exact (two .copy value c.value c.paths).after (fun _ => two .copy deriv c.deriv c.paths)
  | mul operands ih =>
    simp only [Walk.visit, Expr.blocks]
    split
    · exact (still (L := L) (fun _ => rfl)).enough (Nat.zero_le _)
    · -- The stretches are found, the factors are visited, and the partial products are added up.
      refine withTemp (fun temp => ?_)
      refine (slot temp 0 c.paths).after (fun value => ?_)
      refine (slots temp c.paths operands.length 1).after (fun partials => ?_)
      refine (one (.fill Elem.one) temp.buffer _).after (fun _ => ?_)
      refine (visitProduct value ih [] partials).before (fun _ => ?_)
      refine (sumPartials c.deriv c.paths partials).after (fun _ => ?_)
      exact two .copy value c.value c.paths
  | exp exponent ih =>
    refine ih.before (fun _ => ?_)
    exact (one .exp c.value c.paths).after (fun _ => two .mul c.value c.deriv c.paths)
  | hole => exact still (fun _ => rfl)
  | unset kind => exact still (fun _ => rfl)

/-- A walk over a whole tree settles its loans. -/
theorem generate (root : Expr α) :
    L.Settles root.blocks (Walk.generate (Traced.backend be) c root) :=
  -- The context is checked before the walk, without a loan.
  (ofExcept c.validate).after (fun _ => visit root)

end Steps

end Lender.Settles

namespace Host

variable {ε : Type}

/-- A buffer that is too short is complained about. -/
theorem need_short (operation : String) {v : View} {n : Int64} (short : ¬ n.toInt ≤ v.length)
    (h : Host α) : ∃ text, (need operation v n : Action (Host α) ε Unit) h =
      .error (.fault (.panic text)) h := by
  -- The complaint is made before anything is touched.
  rw [need, if_pos (by omega)]
  exact ⟨_, rfl⟩

variable [Elem α]

/-- An operation on one buffer changes elements at most, whether it goes through or not. -/
theorem left_one (op : Unary α) (x : View) (n : Int64) (h : Host α) :
    ∃ t, (backend.one op x n : Action (Host α) ε Unit).left h = { h with store := t } ∧
      t.blocks.size = h.store.blocks.size := by
  by_cases long : n.toInt ≤ x.length
  · rw [Action.left_of_ok (one_ok op long h)]
    exact ⟨_, rfl, size_afterChunks h n (op.size_onRange x)⟩
  · -- A buffer that is too short is noticed before anything is changed.
    have short : ∃ text, (backend.one op x n : Action (Host α) ε Unit) h =
        .error (.fault (.panic text)) h := by
      cases op with
      | fill value => exact (need_short "fill" long h).imp (fun _ => Action.bind_error)
      | zero => exact (need_short "zero" long h).imp (fun _ => Action.bind_error)
      | exp => exact (need_short "exp" long h).imp (fun _ => Action.bind_error)
    obtain ⟨text, stopped⟩ := short
    exact ⟨h.store, Action.left_of_error stopped, rfl⟩

/-- An operation on two buffers changes elements at most, whether it goes through or not. -/
theorem left_two (op : Binary) (x y : View) (n : Int64) (h : Host α) :
    ∃ t, (backend.two op x y n : Action (Host α) ε Unit).left h = { h with store := t } ∧
      t.blocks.size = h.store.blocks.size := by
  by_cases long : n.toInt ≤ x.length ∧ n.toInt ≤ y.length
  · rw [Action.left_of_ok (two_ok op long.1 long.2 h)]
    exact ⟨_, rfl, size_afterChunks h n (op.size_onRange x y)⟩
  · have asked (operation : String) (next : Unit → Action (Host α) ε Unit) :
        ∃ text, (need operation x n >>= fun _ => need operation y n >>= next) h =
          .error (.fault (.panic text)) h := by
      by_cases source : n.toInt ≤ x.length
      · -- The destination is asked for once the source is long enough.
        rw [Action.bind_ok (need_enough operation source h)]
        exact (need_short operation (fun target => long ⟨source, target⟩) h).imp
          (fun _ => Action.bind_error)
      · exact (need_short operation source h).imp (fun _ => Action.bind_error)
    have short : ∃ text, (backend.two op x y n : Action (Host α) ε Unit) h =
        .error (.fault (.panic text)) h := by
      cases op with
      | copy => exact asked "copy" _
      | add => exact asked "add" _
      | mul => exact asked "mul" _
    obtain ⟨text, stopped⟩ := short
    exact ⟨h.store, Action.left_of_error stopped, rfl⟩

/-- Memory numbers its blocks, and never runs out of numbers. -/
def lender : Lender (backend : Backend (Host α) ε α View) (List (Nat × Int64) × Int64) where
  ledger h := (h.loans, h.store.blocks.size)
  number v := v.block
  ready _ account := ∀ entry ∈ account.1.1, entry.1 < account.2
  fewer ready := ready
  -- An offset leaves memory alone, whether the place is there or not.
  offset x off h := by
    have kept : (backend.offset x off : Action (Host α) ε View).left h = h := by
      show (offset x off : Action (Host α) ε View).left h = h
      unfold offset
      split <;> rfl
    rw [kept]
  one op x n h := by
    obtain ⟨t, kept, size⟩ := left_one (ε := ε) op x n h
    rw [kept]
    exact Prod.ext rfl size
  two op x y n h := by
    obtain ⟨t, kept, size⟩ := left_two (ε := ε) op x y n h
    rw [kept]
    exact Prod.ext rfl size
  alloc {b h} n ready := by
    rcases alloc_cases (ε := ε) n h with
      ⟨cause, refused⟩ | stopped | ⟨m, positive, _, _, granted⟩
    · -- A request that is not granted leaves the books as they are.
      refine .inl ⟨fun x h' lent => ?_, by
        rw [Action.left_of_ok (show backend.alloc n h = _ from refused)]⟩
      cases refused.symm.trans lent
    · refine .inl ⟨fun x h' lent => ?_, by
        rw [Action.left_of_error (show backend.alloc n h = _ from stopped)]⟩
      cases stopped.symm.trans lent
    · refine .inr ⟨h.nextBlock m, h.lend m, granted, rfl, size_lend h m, Numbered.lend ready m, ?_⟩
      -- Whatever happened in between, the block is the latest one again when it is given back.
      intro u same
      have live : u.live = (h.store.blocks.size, Int64.ofNat m) :: h.live :=
        congrArg Prod.fst same
      have elements : u.liveElements = h.liveElements + Int64.ofNat m := congrArg Prod.snd same
      have freed := free_latest (ε := ε) (h := u) (v := h.nextBlock m) rfl positive live
        (fun entry found => Nat.ne_of_lt (ready entry found))
      refine ⟨_, freed, ?_, fun _ numbered entry found => numbered entry ?_⟩
      · simp [loans, elements, Int64.add_sub_cancel]
      · show entry ∈ u.live
        rw [live]
        exact List.mem_cons_of_mem _ found

end Host

namespace Recorder

variable {ε : Type}

/-- A recorder that can number so many more temporaries, with none of these numbers in use. -/
def Fresh (r : Recorder α) (more : Nat) : Prop :=
  r.nextTemp.toUInt64.toNat + more < 2 ^ 64 ∧
    ∀ entry ∈ r.live, entry.1.toUInt64.toNat < r.nextTemp.toUInt64.toNat

/-- A number that is left is not the last one. -/
theorem Fresh.next {r : Recorder α} {more : Nat} (fresh : r.Fresh (more + 1)) :
    (r.nextTemp + 1).toUInt64.toNat = r.nextTemp.toUInt64.toNat + 1 := by
  -- The next number does not wrap around, as there is room for one more.
  have room := fresh.1
  rw [Int64.toUInt64_add, UInt64.toNat_add, show (1 : Int64).toUInt64.toNat = 1 from rfl]
  exact Nat.mod_eq_of_lt (by omega)

/-- No live temporary has the next number. -/
theorem Fresh.apart {r : Recorder α} {more : Nat} (fresh : r.Fresh more) :
    ∀ entry ∈ r.live, entry.1 ≠ r.nextTemp := by
  -- All live temporaries have smaller numbers.
  intro entry found same
  have smaller := fresh.2 entry found
  rw [same] at smaller
  exact Nat.lt_irrefl _ smaller

/-- Ending the temporary with the next number drops no other. -/
theorem Fresh.absent {r : Recorder α} {more : Nat} (fresh : r.Fresh more) :
    r.live.erase r.nextTemp = r.live :=
  -- There is none with that number to be dropped.
  List.filter_eq_self.mpr (fun entry found => by simpa using fresh.apart entry found)

/-- What is live: the temporaries with their sizes, and the sum of these. -/
def loans (r : Recorder α) : TempTable Int64 × Int64 := (r.live, r.liveElements)

/-- Asking whether an operand may be used leaves the recorder alone. -/
theorem use_cases (ref : Ref) (r : Recorder α) :
    (use ref : Action (Recorder α) ε Unit) r = .ok () r ∨
      ∃ text, (use ref : Action (Recorder α) ε Unit) r = .error (.fault (.panic text)) r := by
  -- The operand is refused or not, and nothing is written down for the question.
  unfold use
  rw [Action.get_bind]
  split
  · exact .inr ⟨_, rfl⟩
  · exact .inl rfl

variable [Elem α]

/-- An operation on one operand is written down, or leaves the recorder alone. -/
theorem left_one (op : Unary α) (x : Ref) (n : Int64) (r : Recorder α) :
    (backend.one op x n : Action (Recorder α) ε Unit).left r = r ∨
      (backend.one op x n : Action (Recorder α) ε Unit).left r = r.record (op.instr x n) := by
  -- The operand is asked for before anything is written down.
  rcases use_cases (ε := ε) x r with used | ⟨text, stopped⟩
  · refine .inr (Action.left_of_ok (a := ()) ?_)
    cases op <;> exact Action.bind_ok used
  · have ran : (backend.one op x n : Action (Recorder α) ε Unit) r =
        .error (.fault (.panic text)) r := by
      cases op <;> exact Action.bind_error stopped
    exact .inl (Action.left_of_error ran)

/-- An operation on two operands is written down, or leaves the recorder alone. -/
theorem left_two (op : Binary) (x y : Ref) (n : Int64) (r : Recorder α) :
    (backend.two op x y n : Action (Recorder α) ε Unit).left r = r ∨
      (backend.two op x y n : Action (Recorder α) ε Unit).left r = r.record (op.instr x y n) := by
  -- The source is asked for first, and the destination only after it.
  rcases use_cases (ε := ε) x r with source | ⟨text, stopped⟩
  · rcases use_cases (ε := ε) y r with target | ⟨text, stopped⟩
    · refine .inr (Action.left_of_ok (a := ()) ?_)
      cases op <;> exact (Action.bind_ok source).trans (Action.bind_ok target)
    · have ran : (backend.two op x y n : Action (Recorder α) ε Unit) r =
          .error (.fault (.panic text)) r := by
        cases op <;> exact (Action.bind_ok source).trans (Action.bind_error stopped)
      exact .inl (Action.left_of_error ran)
  · have ran : (backend.two op x y n : Action (Recorder α) ε Unit) r =
        .error (.fault (.panic text)) r := by
      cases op <;> exact Action.bind_error stopped
    exact .inl (Action.left_of_error ran)

section Requests

variable {n : Int64} {r : Recorder α}

/-- A size that is not positive is refused. -/
theorem alloc_improper (improper : n ≤ 0) :
    (alloc n : Action (Recorder α) ε _) r = .ok (.error (.size n)) r := by
  -- The size is looked at before anything else.
  rw [alloc, if_pos improper]
  rfl

/-- A block that the limit leaves no room for is refused. -/
theorem alloc_limited (proper : ¬ n ≤ 0)
    (limited : (r.limit > 0 && r.liveElements + n > r.limit) = true) :
    (alloc n : Action (Recorder α) ε _) r =
      .ok (.error (.recordLimit n r.liveElements r.limit)) r := by
  -- The size is proper, so the limit decides, and nothing is written down.
  rw [alloc, if_neg proper, Action.get_bind, if_pos limited]
  rfl

/-- Any other block is the next temporary. -/
theorem alloc_granted (proper : ¬ n ≤ 0)
    (within : ¬ (r.limit > 0 && r.liveElements + n > r.limit) = true) :
    (alloc n : Action (Recorder α) ε _) r =
      .ok (.ok ⟨.temp, r.nextTemp, 0⟩) (r.opened n) := by
  -- Neither the size nor the limit is in the way.
  rw [alloc, if_neg proper, Action.get_bind, if_neg within]
  rfl

end Requests

/-- A recorder answers a request with an error, or begins its next temporary. -/
theorem alloc_cases (n : Int64) (r : Recorder α) :
    (∃ cause, (alloc n : Action (Recorder α) ε _) r = .ok (.error cause) r) ∨
    (alloc n : Action (Recorder α) ε _) r = .ok (.ok ⟨.temp, r.nextTemp, 0⟩) (r.opened n) := by
  -- The size is looked at first, and then the limit.
  by_cases proper : n ≤ 0
  · exact .inl ⟨_, alloc_improper proper⟩
  by_cases limited : (r.limit > 0 && r.liveElements + n > r.limit) = true
  · exact .inl ⟨_, alloc_limited proper limited⟩
  · exact .inr (alloc_granted proper limited)

/-- A live temporary is ended. -/
theorem free_live {r : Recorder α} {index size : Int64} (live : r.live.find? index = some size) :
    (free ⟨.temp, index, 0⟩ : Action (Recorder α) ε Unit) r = .ok () (r.closed index size) := by
  -- The temporary is found under its number, and its end is written down.
  simp [free, live, emit, closed]

/-- One number less is left once a temporary has begun. -/
theorem Fresh.opened {r : Recorder α} {more : Nat} (fresh : r.Fresh (more + 1)) (n : Int64) :
    (r.opened n).Fresh more := by
  have next := fresh.next
  obtain ⟨room, below⟩ := fresh
  constructor
  · show (r.nextTemp + 1).toUInt64.toNat + more < 2 ^ 64
    omega
  · intro entry found
    show entry.1.toUInt64.toNat < (r.nextTemp + 1).toUInt64.toNat
    rw [next]
    -- A temporary that is live has an earlier number, and the new one has the last.
    rcases List.mem_cons.mp found with rfl | found
    · exact Nat.lt_succ_self _
    · exact Nat.lt_succ_of_lt (below entry (List.mem_of_mem_filter found))

/-- A recorder numbers its temporaries, as long as it has numbers left. -/
def lender : Lender (backend : Backend (Recorder α) ε α Ref) (TempTable Int64 × Int64) where
  ledger r := (r.loans, r.nextTemp.toUInt64.toNat)
  number ref := ref.index.toUInt64.toNat
  ready more account := account.2 + more < 2 ^ 64 ∧
    ∀ entry ∈ account.1.1, entry.1.toUInt64.toNat < account.2
  fewer ready := ⟨by omega, ready.2⟩
  offset x off r := rfl
  one op x n r := by
    -- Writing down an instruction changes neither the books nor the numbers.
    rcases left_one (ε := ε) op x n r with same | same
    · rw [same]
    · rw [same]
      rfl
  two op x y n r := by
    rcases left_two (ε := ε) op x y n r with same | same
    · rw [same]
    · rw [same]
      rfl
  alloc {b r} n ready := by
    rcases alloc_cases (ε := ε) n r with ⟨cause, refused⟩ | granted
    · -- A request that is refused leaves the recorder as it was.
      refine .inl ⟨fun x r' lent => ?_, by
        rw [Action.left_of_ok (show backend.alloc n r = _ from refused)]⟩
      cases refused.symm.trans lent
    · -- The new number is not live, so the table has grown by one entry in front.
      have others := Fresh.absent ready
      have opened : (r.opened n).live = (r.nextTemp, n) :: r.live :=
        congrArg ((r.nextTemp, n) :: ·) others
      refine .inr ⟨⟨.temp, r.nextTemp, 0⟩, r.opened n, granted, rfl, Fresh.next ready,
        Fresh.opened ready n, ?_⟩
      intro u same
      have live : u.live = (r.nextTemp, n) :: r.live := (congrArg Prod.fst same).trans opened
      have elements : u.liveElements = r.liveElements + n := congrArg Prod.snd same
      have found : u.live.find? r.nextTemp = some n := by simp [live, TempTable.find?]
      have erased : u.live.erase r.nextTemp = r.live := by
        rw [live, TempTable.erase, List.filter_cons_of_neg (by simp)]
        exact others
      refine ⟨_, free_live found, ?_,
        fun _ ready => ⟨ready.1, fun entry found => ready.2 entry ?_⟩⟩
      · simp [loans, closed, erased, elements, Int64.add_sub_cancel]
      · show entry ∈ u.live
        rw [live]
        exact List.mem_cons_of_mem _ (erased ▸ found)

end Recorder

/-- What happens to blocks while a computation runs on a backend, in order. -/
def Backend.events {ε : Type} (be : Backend σ ε α β)
    (run : ∀ τ : Type, Backend τ ε α β → Action τ ε Unit) (s : σ) : List (Loan β) :=
  ((run _ (Traced.backend be)).left ⟨s, []⟩).trace

/--
A computation on a backend gives back what it borrows, however it ends.

Next to the computation runs the one that writes down what happens to blocks. It does the same, and
what it writes down says that every block was given back once, always the latest first.
-/
structure Returns [DecidableEq β] {ε κ : Type} (loans : σ → κ) (ready : σ → Prop)
    (be : Backend σ ε α β) (run : ∀ τ : Type, Backend τ ε α β → Action τ ε Unit) (s : σ) :
    Prop where
  same : loans ((run σ be).left s) = loans s
  ready : ready ((run σ be).left s)
  watched : (run σ be).outcome s =
    ((run _ (Traced.backend be)).outcome ⟨s, []⟩).map id Traced.inner
  nested : Loan.outstanding [] (be.events run s) = some []
  once : ∀ x, (be.events run s).count (.returned x) = (be.events run s).count (.lent x) ∧
    (be.events run s).count (.lent x) ≤ 1

/-- A computation that settles its loans gives back what it borrows. -/
theorem Lender.Settles.returns [DecidableEq β] {ε : Type} {be : Backend σ ε α β} {L : Lender be κ}
    (run : ∀ τ : Type, Backend τ ε α β → Action τ ε Unit) {b more : Nat} {s : σ}
    (settles : L.Settles more (run _ (Traced.backend be)))
    (watched : Action.Shadows Traced.inner (run _ (Traced.backend be)) (run σ be))
    (ready : L.ready (b + more) (L.ledger s)) :
    Returns (fun s => (L.ledger s).1) (fun s => L.ready b (L.ledger s)) be run s := by
  obtain ⟨events, written, settled⟩ := settles b ⟨s, []⟩ ready
  -- The state of the watched computation is the one inside the watching one.
  have outcome : (run σ be).outcome s =
      ((run _ (Traced.backend be)).outcome ⟨s, []⟩).map id Traced.inner := by
    have same := watched ⟨s, []⟩
    rw [Action.outcome, Action.outcome, same]
    cases run _ (Traced.backend be) ⟨s, []⟩ <;> rfl
  have inner : (run σ be).left s = ((run _ (Traced.backend be)).left ⟨s, []⟩).inner :=
    congrArg Prod.snd outcome
  have nested : Loan.outstanding [] events = some [] := settled.nested []
  have story : be.events run s = events := written
  exact {
    same := by rw [inner]; exact settled.same
    ready := by rw [inner]; exact settled.ready
    watched := outcome
    nested := by rw [story]; exact nested
    -- A block is lent once, and comes back as often as it was lent.
    once := fun x => by
      have counted := Loan.count_outstanding nested x
      have few := List.nodup_iff_count_le_one.mp settled.distinct x
      rw [Loan.count_blocks] at few
      rw [story]
      exact ⟨by simpa using counted.symm, few⟩ }

namespace Walk

/--
A walk gives back what it borrows, in memory and in a recording.

This is so for all trees, however incomplete, and for all numbers of paths and all buffers, however
short. What was on loan before is on loan afterwards, whether the walk ends with an answer, with an
error or at a misuse.
-/
theorem loans_returned [Elem α] (root : Expr α) :
    (∀ (c : Context α View) (h : Host α), h.Numbered →
      Returns Host.loans Host.Numbered Host.backend (fun _ be => visit be c root) h ∧
      Returns Host.loans Host.Numbered Host.backend (fun _ be => generate be c root) h) ∧
    (∀ (c : Context α Ref) (r : Recorder α) (spare : Nat), r.Fresh (spare + root.blocks) →
      Returns Recorder.loans (Recorder.Fresh · spare) Recorder.backend
        (fun _ be => visit be c root) r ∧
      Returns Recorder.loans (Recorder.Fresh · spare) Recorder.backend
        (fun _ be => generate be c root) r) := by
  constructor
  · intro c h numbered
    -- Memory never runs out of numbers, so nothing is asked of how many there are.
    have watches := Traced.watches (Host.backend : Backend (Host α) WalkError α View)
    have visited := Lender.Settles.visit (L := Host.lender) (c := c) root
    have generated := Lender.Settles.generate (L := Host.lender) (c := c) root
    exact ⟨visited.returns (fun _ be => visit be c root) (b := 0) (watches.visit c root) numbered,
      generated.returns (fun _ be => generate be c root) (b := 0) (watches.generate c root)
        numbered⟩
  · intro c r spare fresh
    have watches := Traced.watches (Recorder.backend : Backend (Recorder α) WalkError α Ref)
    have visited := Lender.Settles.visit (L := Recorder.lender) (c := c) root
    have generated := Lender.Settles.generate (L := Recorder.lender) (c := c) root
    exact ⟨visited.returns (fun _ be => visit be c root) (watches.visit c root) fresh,
      generated.returns (fun _ be => generate be c root) (watches.generate c root) fresh⟩

/-- A product in a sum, with an operand missing. -/
def brokenTree : Expr Float := .add [.mul [.var "x", .hole]]

/-- Two paths with a register for one. -/
def shortContext : Context Float View := ⟨2, ⟨0, 0, 1⟩, ⟨1, 0, 3⟩, sampleInputs⟩

/--
A walk stops at the first copy into a register that is too short, with two blocks on loan, and a
recording is refused its second temporary. Both give back what they have.
-/
theorem loans_returned_broken :
    ((sampleHost : Host Float).Numbered ∧
      (∃ text, ((visit Host.backend shortContext brokenTree).outcome sampleHost).1 =
        .error (.fault (.panic text))) ∧
      Host.backend.events (fun _ be => visit be shortContext brokenTree) sampleHost =
        [.lent ⟨3, 0, 4⟩, .lent ⟨4, 0, 6⟩, .returned ⟨4, 0, 6⟩, .returned ⟨3, 0, 4⟩] ∧
      Returns Host.loans Host.Numbered Host.backend
        (fun _ be => visit be shortContext brokenTree) sampleHost) ∧
    (Recorder.new 2 5 : Recorder Float).Fresh (0 + brokenTree.blocks) ∧
      Recorder.backend.events
          (fun _ be => visit be (Context.new 2 .value .deriv) brokenTree) (Recorder.new 2 5) =
        [.lent ⟨.temp, 0, 0⟩, .returned ⟨.temp, 0, 0⟩] ∧
      Returns Recorder.loans (Recorder.Fresh · 0) Recorder.backend
        (fun _ be => visit be (Context.new 2 .value .deriv) brokenTree) (Recorder.new 2 5) := by
  -- Nothing is on loan at the start, on memory as well as in the recorder.
  have numbered : (sampleHost : Host Float).Numbered := fun _ found => absurd found List.not_mem_nil
  have fresh : (Recorder.new 2 5 : Recorder Float).Fresh (0 + brokenTree.blocks) :=
    ⟨by decide, fun _ found => absurd found List.not_mem_nil⟩
  refine ⟨⟨numbered, ⟨_, rfl⟩, rfl, ((loans_returned _).1 _ _ numbered).1⟩, fresh, rfl,
    ((loans_returned _).2 _ _ 0 fresh).1⟩

end Walk

end Tangent
