/-
# `ChipEight.Proofs.Agreement` — what an instruction depends on

Two machines agree but for some hidden components when they are equal elsewhere: in
the registers, in every component that is not hidden, and, as far as the machine looks
at them, in index, program counter, stack pointer and stack entries.  These four are
compared modulo 4096 and 16, because each use of them reduces them, while a return
copies a stack entry as it is.

An instruction that reads nothing hidden does the same to both machines, and a cell
that it writes is no longer hidden.  What is proved about pairs of runs follows from
this one fact, for each choice of what is hidden.

**Proved here**, of machines that agree:

    one instruction that reads nothing hidden keeps them in agreement     (`Agree.apply`)
    afterwards they agree in the cells that it wrote                      (`Agree.apply_stores`)
    a step reads the same word and ends in the same way                   (`Agree.word`, `Agree.step`)
    so does any number of steps, if a hidden cell is read only
    once the run has written it                                           (`Agree.steps`)
    in range, what is compared after reduction is equal                   (`Agree.eq_in_range`)
-/
import ChipEight.Proofs.History
import ChipEight.Proofs.RomImage

namespace ChipEight

/-- A part of the machine that may be hidden. -/
inductive Component where
  | cell (a : Address)
  | keypad
  | screen
  | delay
  | sound
  | source
  deriving DecidableEq, Repr

namespace Machine

/-! ## What is read and what is written -/

/-- What an instruction reads besides registers, index, program counter and stack. -/
def reads (m : Machine) : Instruction → List Component
  | .skip (.held _) | .skip (.free _) | .awaitKey _ => [.keypad]
  | .random _ _ => [.source]
  | .draw _ _ n => .screen :: (Memory.block m.index n.val).map .cell
  | .readDelay _ => [.delay]
  | .fill x => (Memory.block m.index (x.val + 1)).map .cell
  | _ => []

/-- The cells that an instruction writes. -/
def stores (m : Machine) : Instruction → List Address
  | .decimal _ => Memory.block m.index 3
  | .dump x => Memory.block m.index (x.val + 1)
  | _ => []

theorem length_regsUpTo (m : Machine) (x : Register) : (m.regsUpTo x).length = x.val + 1 := by
  have hx := x.isLt
  rw [regsUpTo, List.length_take, Vector.length_toList]
  omega

theorem read_apply_of_not_stored (m : Machine) (i : Instruction) {addr : Int}
    (h : residue 4096 addr ∉ m.stores i) : (m.apply i).memory.read addr = m.memory.read addr := by
  cases i with
  | skip c =>
      rw [apply]
      split
      · rfl
      · rfl
  | combine o x y =>
      simp only [apply, combineInto]
      split
      · rfl
      · rfl
  | awaitKey x =>
      rw [apply, awaitKeyInto]
      split
      · rfl
      · rfl
  | decimal x => exact m.memory.read_load_of_not_mem_block h
  | dump x =>
      rw [stores, ← length_regsUpTo m x] at h
      exact m.memory.read_load_of_not_mem_block h
  | fill x => simp only [apply, fillUpTo]
  | _ => rfl

/-- What the execution of a word reads; an unassigned word reads nothing. -/
def wordReads (m : Machine) (w : Word) : List Component :=
  match w.decode with
  | some i => m.reads i
  | none => []

def wordStores (m : Machine) (w : Word) : List Address :=
  match w.decode with
  | some i => m.stores i
  | none => []

/-- What a step reads: the two cells of its word, and then what the word reads. -/
def stepReads (m : Machine) : List Component :=
  (Memory.block m.pc 2).map .cell ++ m.wordReads m.word

def stepStores (m : Machine) : List Address := m.wordStores m.word

/-- One of the first `n` steps writes the cell. -/
def Written (m : Machine) (n : Nat) (a : Address) : Prop :=
  ∃ k, k < n ∧ ∃ mid, m.steps k = .ok mid ∧ a ∈ mid.stepStores

theorem not_written_zero (m : Machine) (a : Address) : ¬ m.Written 0 a := by
  rintro ⟨k, hk, -⟩
  exact Nat.not_lt_zero k hk

theorem written_succ_of_ok {m next : Machine} (h : m.step = .ok next) {n : Nat} {a : Address} :
    m.Written (n + 1) a ↔ a ∈ m.stepStores ∨ next.Written n a := by
  constructor
  · rintro ⟨k, hk, mid, hmid, hmem⟩
    cases k with
    | zero =>
        cases hmid
        exact .inl hmem
    | succ k =>
        rw [steps_succ_of_ok h] at hmid
        exact .inr ⟨k, Nat.lt_of_succ_lt_succ hk, mid, hmid, hmem⟩
  · rintro (hmem | ⟨k, hk, mid, hmid, hmem⟩)
    · exact ⟨0, Nat.succ_pos n, m, rfl, hmem⟩
    · exact ⟨k + 1, Nat.succ_lt_succ hk, mid, (steps_succ_of_ok h k).trans hmid, hmem⟩

theorem not_written_of_error {m : Machine} {halt : Halt} (h : m.step = .error halt) (n : Nat)
    (a : Address) : ¬ m.Written n a := by
  rintro ⟨k, -, mid, hmid, hmem⟩
  cases k with
  | zero =>
      cases hmid
      rw [stepStores, wordStores, (step_eq_error_iff.1 h).1] at hmem
      cases hmem
  | succ k =>
      rw [steps_succ_of_error h] at hmid
      cases hmid

end Machine

/-- What is still hidden when the cells in `written` no longer are. -/
def unwritten (hidden : Component → Prop) (written : Address → Prop) : Component → Prop
  | .cell a => hidden (.cell a) ∧ ¬ written a
  | c => hidden c

section

variable {hidden : Component → Prop} {written : Address → Prop} {c : Component}

theorem hidden_of_unwritten (h : unwritten hidden written c) : hidden c := by
  cases c with
  | cell a => exact h.1
  | _ => exact h

theorem unwritten_of_hidden (h : hidden c) (hnone : ∀ a, ¬ written a) :
    unwritten hidden written c := by
  cases c with
  | cell a => exact ⟨h, hnone a⟩
  | _ => exact h

theorem unwritten_of_unwritten {first later : Address → Prop}
    (h : unwritten (unwritten hidden first) later c) (hone : ∀ a, written a → first a ∨ later a) :
    unwritten hidden written c := by
  cases c with
  | cell a =>
      obtain ⟨⟨hhidden, hfirst⟩, hlater⟩ := h
      exact ⟨hhidden, fun ha => (hone a ha).elim hfirst hlater⟩
  | _ => exact h

end

namespace Machine

/-! ## Agreement -/

structure Agree (hidden : Component → Prop) (m m' : Machine) : Prop where
  registers : m.registers = m'.registers
  memory : ∀ addr : Int, ¬ hidden (.cell (residue 4096 addr)) →
    m.memory.read addr = m'.memory.read addr
  stack : ∀ slot : Fin 16, m.stack.get slot % 4096 = m'.stack.get slot % 4096
  keypad : ¬ hidden .keypad → m.keypad = m'.keypad
  screen : ¬ hidden .screen → m.screen = m'.screen
  index : m.index % 4096 = m'.index % 4096
  pc : m.pc % 4096 = m'.pc % 4096
  sp : m.sp % 16 = m'.sp % 16
  delay : ¬ hidden .delay → m.delay = m'.delay
  sound : ¬ hidden .sound → m.sound = m'.sound
  source : ¬ hidden .source → m.source = m'.source

namespace Agree

variable {hidden : Component → Prop} {m m' : Machine}

theorem mono {more : Component → Prop} (h : Agree hidden m m') (hmore : ∀ c, hidden c → more c) :
    Agree more m m' where
  registers := h.registers
  memory addr hc := h.memory addr (mt (hmore _) hc)
  stack := h.stack
  keypad hc := h.keypad (mt (hmore _) hc)
  screen hc := h.screen (mt (hmore _) hc)
  index := h.index
  pc := h.pc
  sp := h.sp
  delay hc := h.delay (mt (hmore _) hc)
  sound hc := h.sound (mt (hmore _) hc)
  source hc := h.source (mt (hmore _) hc)

theorem refl (m : Machine) : Agree hidden m m :=
  ⟨rfl, fun _ _ => rfl, fun _ => rfl, fun _ => rfl, fun _ => rfl, rfl, rfl, rfl, fun _ => rfl,
    fun _ => rfl, fun _ => rfl⟩

theorem symm (h : Agree hidden m m') : Agree hidden m' m where
  registers := h.registers.symm
  memory addr hc := (h.memory addr hc).symm
  stack slot := (h.stack slot).symm
  keypad hc := (h.keypad hc).symm
  screen hc := (h.screen hc).symm
  index := h.index.symm
  pc := h.pc.symm
  sp := h.sp.symm
  delay hc := (h.delay hc).symm
  sound hc := (h.sound hc).symm
  source hc := (h.source hc).symm

theorem trans {m'' : Machine} (h : Agree hidden m m') (h' : Agree hidden m' m'') :
    Agree hidden m m'' where
  registers := h.registers.trans h'.registers
  memory addr hc := (h.memory addr hc).trans (h'.memory addr hc)
  stack slot := (h.stack slot).trans (h'.stack slot)
  keypad hc := (h.keypad hc).trans (h'.keypad hc)
  screen hc := (h.screen hc).trans (h'.screen hc)
  index := h.index.trans h'.index
  pc := h.pc.trans h'.pc
  sp := h.sp.trans h'.sp
  delay hc := (h.delay hc).trans (h'.delay hc)
  sound hc := (h.sound hc).trans (h'.sound hc)
  source hc := (h.source hc).trans (h'.source hc)

theorem eq_of_emod_eq {n a b : Int} (ha : 0 ≤ a ∧ a < n) (hb : 0 ≤ b ∧ b < n)
    (h : a % n = b % n) : a = b := by
  rwa [Int.emod_eq_of_lt ha.1 ha.2, Int.emod_eq_of_lt hb.1 hb.2] at h

/-- In range, the numbers that agreement compares after reduction are equal. -/
theorem eq_in_range (h : Agree hidden m m') (hm : m.WellFormed) (hm' : m'.WellFormed) :
    m.stack = m'.stack ∧ m.index = m'.index ∧ m.pc = m'.pc ∧ m.sp = m'.sp := by
  refine ⟨Vector.ext ?_, eq_of_emod_eq hm.index hm'.index h.index,
    eq_of_emod_eq hm.pc hm'.pc h.pc, eq_of_emod_eq hm.sp hm'.sp h.sp⟩
  intro k hk
  exact eq_of_emod_eq (hm.stack ⟨k, hk⟩) (hm'.stack ⟨k, hk⟩) (h.stack ⟨k, hk⟩)

/-! ## Reading -/

theorem reg (h : Agree hidden m m') (x : Register) : m.reg x = m'.reg x := by
  rw [Machine.reg, Machine.reg, h.registers]

theorem regsUpTo (h : Agree hidden m m') (x : Register) : m.regsUpTo x = m'.regsUpTo x := by
  rw [Machine.regsUpTo, Machine.regsUpTo, h.registers]

theorem read (h : Agree hidden m m') {addr addr' : Int} (haddr : addr % 4096 = addr' % 4096)
    (hc : ¬ hidden (.cell (residue 4096 addr))) : m.memory.read addr = m'.memory.read addr' := by
  rw [h.memory addr hc, m'.memory.read_congr haddr]

theorem range (h : Agree hidden m m') {base base' : Int} (hbase : base % 4096 = base' % 4096)
    {n : Nat} (hcells : ∀ a ∈ Memory.block base n, ¬ hidden (.cell a)) :
    m.memory.range base n = m'.memory.range base' n := by
  refine List.map_congr_left ?_
  intro k hk
  have hlt : k < n := by simpa using hk
  exact h.read (by omega) (hcells _ (Memory.mem_block_iff.2 ⟨k, hlt, rfl⟩))

theorem word (h : Agree hidden m m') (hcells : ∀ a ∈ Memory.block m.pc 2, ¬ hidden (.cell a)) :
    m.word = m'.word := by
  have hhigh : m.memory.read m.pc = m'.memory.read m'.pc :=
    h.read h.pc (hcells _ (Memory.mem_block_iff.2 ⟨0, by omega, by simp⟩))
  have hlow : m.memory.read (m.pc + 1) = m'.memory.read (m'.pc + 1) :=
    h.read (by have hpc := h.pc; omega) (hcells _ (Memory.mem_block_iff.2 ⟨1, by omega, rfl⟩))
  rw [Machine.word, Machine.word, hhigh, hlow]

theorem holds (h : Agree hidden m m') {c : Condition}
    (hreads : ∀ d ∈ m.reads (.skip c), ¬ hidden d) : m.holds c = m'.holds c := by
  cases c with
  | isByte x b => rw [Machine.holds, Machine.holds, h.reg]
  | notByte x b => rw [Machine.holds, Machine.holds, h.reg]
  | same x y => rw [Machine.holds, Machine.holds, h.reg, h.reg]
  | differ x y => rw [Machine.holds, Machine.holds, h.reg, h.reg]
  | held x =>
      have hkeypad := h.keypad (hreads _ (List.mem_singleton_self _))
      rw [Machine.holds, Machine.holds, h.reg, hkeypad]
  | free x =>
      have hkeypad := h.keypad (hreads _ (List.mem_singleton_self _))
      rw [Machine.holds, Machine.holds, h.reg, hkeypad]

/-! ## Parts of a machine -/

theorem withPc (h : Agree hidden m m') {pc pc' : Int} (hpc : pc % 4096 = pc' % 4096) :
    Agree hidden { m with pc } { m' with pc := pc' } :=
  { h with pc := hpc }

theorem withIndex (h : Agree hidden m m') {index index' : Int}
    (hindex : index % 4096 = index' % 4096) :
    Agree hidden { m with index } { m' with index := index' } :=
  { h with index := hindex }

theorem withScreen (h : Agree hidden m m') (screen : Screen) :
    Agree hidden { m with screen } { m' with screen } :=
  { h with screen := fun _ => rfl }

theorem withSource (h : Agree hidden m m') (source : RandomSource) :
    Agree hidden { m with source } { m' with source } :=
  { h with source := fun _ => rfl }

theorem withRegisters (h : Agree hidden m m') (registers : Vector Byte 16) :
    Agree hidden { m with registers } { m' with registers } :=
  { h with registers := rfl }

theorem setReg (h : Agree hidden m m') (x : Register) (b : Byte) :
    Agree hidden (m.setReg x b) (m'.setReg x b) := by
  rw [Machine.setReg, Machine.setReg, h.registers]
  exact h.withRegisters _

theorem setFlag (h : Agree hidden m m') (f : Bool) : Agree hidden (m.setFlag f) (m'.setFlag f) :=
  h.setReg flagRegister _

/-- A block of bytes written in both memories. -/
theorem loadBytes (h : Agree hidden m m') (bytes : List Byte) {base base' : Int}
    (hbase : base % 4096 = base' % 4096) :
    Agree hidden (m.loadBytes bytes base) (m'.loadBytes bytes base') :=
  { h with memory := fun addr hc => Memory.read_load_congr bytes hbase (.inr (h.memory addr hc)) }

/-! ## Instructions -/

theorem skipNext (h : Agree hidden m m') : Agree hidden m.skipNext m'.skipNext := by
  have hpc := h.pc
  exact h.withPc (by omega)

theorem rewind (h : Agree hidden m m') : Agree hidden m.rewind m'.rewind := by
  have hpc := h.pc
  exact h.withPc (by omega)

theorem callAt (h : Agree hidden m m') (target : Address) :
    Agree hidden (m.callAt target) (m'.callAt target) := by
  have hslot : residue 16 m.sp = residue 16 m'.sp := (residue_eq_residue_iff 16 _ _).2 h.sp
  have hsp := h.sp
  refine { h with stack := ?_, pc := rfl, sp := ?_ }
  · intro slot
    show (m.stack.set (residue 16 m.sp) m.pc)[slot.val] % 4096 =
      (m'.stack.set (residue 16 m'.sp) m'.pc)[slot.val] % 4096
    rw [Vector.getElem_set, Vector.getElem_set, hslot]
    split
    · exact h.pc
    · exact h.stack slot
  · show (m.sp + 1) % 16 % 16 = (m'.sp + 1) % 16 % 16
    omega

theorem resume (h : Agree hidden m m') : Agree hidden m.resume m'.resume := by
  have hsp := h.sp
  have hslot : residue 16 (m.sp - 1) = residue 16 (m'.sp - 1) :=
    (residue_eq_residue_iff 16 _ _).2 (by omega)
  rw [Machine.resume, Machine.resume, hslot]
  exact { h with pc := h.stack _, sp := rfl }

theorem combineInto (h : Agree hidden m m') (o : Operation) (x y : Register) :
    Agree hidden (m.combineInto o x y) (m'.combineInto o x y) := by
  simp only [Machine.combineInto, h.reg]
  split
  · exact h.setReg x _
  · exact (h.setFlag _).setReg x _

theorem randomInto (h : Agree hidden m m') (x : Register) (mask : Byte)
    (hsource : ¬ hidden .source) : Agree hidden (m.randomInto x mask) (m'.randomInto x mask) := by
  rw [Machine.randomInto, Machine.randomInto, h.source hsource]
  exact (h.withSource _).setReg x _

theorem awaitKeyInto (h : Agree hidden m m') (x : Register) (hkeypad : ¬ hidden .keypad) :
    Agree hidden (m.awaitKeyInto x) (m'.awaitKeyInto x) := by
  rw [Machine.awaitKeyInto, Machine.awaitKeyInto, h.keypad hkeypad]
  split
  · exact h.setReg x _
  · exact h.rewind

theorem drawSprite (h : Agree hidden m m') (x y : Register) (n : Fin 16)
    (hscreen : ¬ hidden .screen) (hcells : ∀ a ∈ Memory.block m.index n.val, ¬ hidden (.cell a)) :
    Agree hidden (m.drawSprite x y n) (m'.drawSprite x y n) := by
  simp only [Machine.drawSprite, h.reg, h.screen hscreen, h.range h.index hcells]
  exact (h.withScreen _).setFlag _

theorem fillUpTo (h : Agree hidden m m') (x : Register)
    (hcells : ∀ a ∈ Memory.block m.index (x.val + 1), ¬ hidden (.cell a)) :
    Agree hidden (m.fillUpTo x) (m'.fillUpTo x) := by
  have hregisters :
      (fun r : Register => if r ≤ x then m.memory.read (m.index + r.val) else m.reg r) =
        fun r : Register => if r ≤ x then m'.memory.read (m'.index + r.val) else m'.reg r := by
    funext r
    split
    · next hr =>
        have hindex := h.index
        have hlt : r.val < x.val + 1 := Nat.lt_succ_of_le hr
        exact h.read (by omega) (hcells _ (Memory.mem_block_iff.2 ⟨r.val, hlt, rfl⟩))
    · exact h.reg r
  rw [Machine.fillUpTo, Machine.fillUpTo, hregisters]
  exact h.withRegisters _

theorem apply (h : Agree hidden m m') {i : Instruction} (hreads : ∀ c ∈ m.reads i, ¬ hidden c) :
    Agree hidden (m.apply i) (m'.apply i) := by
  cases i with
  | clear => exact h.withScreen _
  | ret => exact h.resume
  | jump target => exact h.withPc rfl
  | call target => exact h.callAt target
  | skip c =>
      rw [Machine.apply, Machine.apply, h.holds hreads]
      split
      · exact h.skipNext
      · exact h
  | put x b => exact h.setReg x b
  | bump x b =>
      rw [Machine.apply, Machine.apply, h.reg]
      exact h.setReg x _
  | combine o x y => exact h.combineInto o x y
  | point target => exact h.withIndex rfl
  | jumpOffset target =>
      rw [Machine.apply, Machine.apply, h.reg]
      exact h.withPc rfl
  | random x mask => exact h.randomInto x mask (hreads _ (List.mem_singleton_self _))
  | draw x y n =>
      obtain ⟨hscreen, hcells⟩ := List.forall_mem_cons.1 hreads
      exact h.drawSprite x y n hscreen fun a ha => hcells _ (List.mem_map_of_mem ha)
  | readDelay x =>
      rw [Machine.apply, Machine.apply, h.delay (hreads _ (List.mem_singleton_self _))]
      exact h.setReg x _
  | awaitKey x => exact h.awaitKeyInto x (hreads _ (List.mem_singleton_self _))
  | setDelay x =>
      rw [Machine.apply, Machine.apply, h.reg]
      exact { h with delay := fun _ => rfl }
  | setSound x =>
      rw [Machine.apply, Machine.apply, h.reg]
      exact { h with sound := fun _ => rfl }
  | advance x =>
      have hindex := h.index
      rw [Machine.apply, Machine.apply, h.reg]
      exact h.withIndex (by omega)
  | glyph x =>
      rw [Machine.apply, Machine.apply, h.reg]
      exact h.withIndex rfl
  | decimal x =>
      rw [Machine.apply, Machine.apply, storeDecimal, storeDecimal, h.reg]
      exact h.loadBytes _ h.index
  | dump x =>
      rw [Machine.apply, Machine.apply, dumpUpTo, dumpUpTo, h.regsUpTo]
      exact h.loadBytes _ h.index
  | fill x => exact h.fillUpTo x fun a ha => hreads _ (List.mem_map_of_mem ha)

theorem apply_stores (h : Agree hidden m m') (i : Instruction) {addr : Int}
    (hmem : residue 4096 addr ∈ m.stores i) :
    (m.apply i).memory.read addr = (m'.apply i).memory.read addr := by
  cases i with
  | decimal x =>
      rw [Machine.apply, Machine.apply, storeDecimal, storeDecimal, h.reg]
      exact Memory.read_load_congr _ h.index (.inl hmem)
  | dump x =>
      rw [stores, ← length_regsUpTo m x, h.regsUpTo] at hmem
      rw [Machine.apply, Machine.apply, dumpUpTo, dumpUpTo, h.regsUpTo]
      exact Memory.read_load_congr _ h.index (.inl hmem)
  | _ => cases hmem

theorem faultAt (h : Agree hidden m m') (w : Word) : m.faultAt w = m'.faultAt w := by
  have hpc := h.pc
  have haddress : residue 4096 (m.pc - 2) = residue 4096 (m'.pc - 2) :=
    (residue_eq_residue_iff 4096 _ _).2 (by omega)
  rw [Machine.faultAt, Machine.faultAt, haddress]

theorem decay (h : Agree hidden m m') : Agree hidden m.decay m'.decay :=
  { h with
    delay := fun hc => congrArg Machine.countDown (h.delay hc)
    sound := fun hc => congrArg Machine.countDown (h.sound hc) }

end Agree

/-! ## Words, steps and cycles -/

/-- Two computations that end in the same way, in machines that agree. -/
inductive SameOutcome (hidden : Component → Prop) : Except Halt Machine → Except Halt Machine → Prop
  | ok {next next' : Machine} (h : Agree hidden next next') :
      SameOutcome hidden (.ok next) (.ok next')
  | error {left left' : Machine} (fault : Fault) (h : Agree hidden left left') :
      SameOutcome hidden (.error ⟨fault, left⟩) (.error ⟨fault, left'⟩)

theorem SameOutcome.mono {hidden more : Component → Prop} {r r' : Except Halt Machine}
    (h : SameOutcome hidden r r') (hmore : ∀ c, hidden c → more c) : SameOutcome more r r' := by
  cases h with
  | ok h => exact .ok (h.mono hmore)
  | error fault h => exact .error fault (h.mono hmore)

theorem SameOutcome.leftBy {hidden : Component → Prop} {r r' : Except Halt Machine}
    (h : SameOutcome hidden r r') : Agree hidden (leftBy r) (Machine.leftBy r') := by
  cases h with
  | ok h => exact h
  | error _ h => exact h

namespace Agree

variable {hidden : Component → Prop} {m m' : Machine}

/-- The cells that an instruction writes are no longer hidden. -/
theorem apply_unwritten (h : Agree hidden m m') {i : Instruction}
    (hreads : ∀ c ∈ m.reads i, ¬ hidden c) :
    Agree (unwritten hidden (· ∈ m.stores i)) (m.apply i) (m'.apply i) := by
  have hkept := h.apply hreads
  refine { hkept with memory := ?_ }
  intro addr hc
  by_cases hmem : residue 4096 addr ∈ m.stores i
  · exact h.apply_stores i hmem
  · exact hkept.memory addr fun hidden => hc ⟨hidden, hmem⟩

theorem execute (h : Agree hidden m m') {w : Word} (hreads : ∀ c ∈ m.wordReads w, ¬ hidden c) :
    SameOutcome (unwritten hidden (· ∈ m.wordStores w)) (m.execute w) (m'.execute w) := by
  rw [wordReads] at hreads
  rw [Machine.execute, Machine.execute, wordStores]
  cases hw : w.decode with
  | some i =>
      rw [hw] at hreads
      exact .ok (h.apply_unwritten hreads)
  | none =>
      rw [carryOut, carryOut, h.faultAt]
      exact .error _ (h.mono fun c hc => unwritten_of_hidden hc fun a => List.not_mem_nil)

theorem step (h : Agree hidden m m') (hreads : ∀ c ∈ m.stepReads, ¬ hidden c) :
    m.word = m'.word ∧
      SameOutcome (unwritten hidden (· ∈ m.stepStores)) m.step m'.step := by
  have hword : m.word = m'.word := by
    refine h.word ?_
    intro a ha
    exact hreads _ (List.mem_append_left _ (List.mem_map_of_mem ha))
  have hrest : ∀ c ∈ m.fetched.wordReads m.word, ¬ hidden c := by
    intro c hc
    exact hreads c (List.mem_append_right _ hc)
  refine ⟨hword, ?_⟩
  rw [Machine.step, Machine.step, ← hword]
  exact h.skipNext.execute hrest

/-- By induction on the number of steps: a cell that the first step writes is not hidden from the
steps behind it. -/
theorem steps (n : Nat) : ∀ {hidden : Component → Prop} {m m' : Machine}, Agree hidden m m' →
    (∀ i, i < n → ∀ mid, m.steps i = .ok mid → ∀ c ∈ mid.stepReads,
      ¬ unwritten hidden (m.Written i) c) →
    SameOutcome (unwritten hidden (m.Written n)) (m.steps n) (m'.steps n) := by
  induction n with
  | zero =>
      intro hidden m m' h _
      exact .ok (h.mono fun c hc => unwritten_of_hidden hc m.not_written_zero)
  | succ n ih =>
      intro hidden m m' h hreads
      have hfirst : ∀ c ∈ m.stepReads, ¬ hidden c := fun c hc hhidden =>
        hreads 0 (Nat.succ_pos n) m rfl c hc (unwritten_of_hidden hhidden m.not_written_zero)
      obtain ⟨-, hstep⟩ := h.step hfirst
      rw [Machine.steps, Machine.steps]
      cases hm : m.step with
      | ok next =>
          have hone : ∀ i a, m.Written (i + 1) a → a ∈ m.stepStores ∨ next.Written i a :=
            fun i a => (written_succ_of_ok hm).1
          rw [hm] at hstep
          generalize m'.step = r' at hstep
          cases hstep with
          | ok hnext =>
              refine (ih hnext ?_).mono fun c hc => unwritten_of_unwritten hc (hone n)
              intro i hi mid hmid c hc hhidden
              have hmid' : m.steps (i + 1) = .ok mid := (steps_succ_of_ok hm i).trans hmid
              exact hreads (i + 1) (Nat.succ_lt_succ hi) mid hmid' c hc
                (unwritten_of_unwritten hhidden (hone i))
      | error halt =>
          rw [hm] at hstep
          generalize m'.step = r' at hstep
          cases hstep with
          | error fault hleft =>
              exact .error fault (hleft.mono fun c hc =>
                unwritten_of_hidden (hidden_of_unwritten hc) (not_written_of_error hm (n + 1)))

theorem cycle (h : Agree hidden m m') {n : Int}
    (hreads : ∀ i, i < n.toNat → ∀ mid, m.steps i = .ok mid → ∀ c ∈ mid.stepReads, ¬ hidden c) :
    SameOutcome hidden (m.cycle n) (m'.cycle n) := by
  have hsteps := (h.steps n.toNat fun i hi mid hmid c hc hhidden =>
    hreads i hi mid hmid c hc (hidden_of_unwritten hhidden)).mono fun _ => hidden_of_unwritten
  rw [Machine.cycle, Machine.cycle]
  generalize m.steps n.toNat = r, m'.steps n.toNat = r' at hsteps
  cases hsteps with
  | ok hlast => exact .ok hlast.decay
  | error fault hleft => exact .error fault hleft

end Agree

end Machine

end ChipEight
