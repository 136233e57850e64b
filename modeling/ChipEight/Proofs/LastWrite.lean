/-
# `ChipEight.Proofs.LastWrite` — the memory holds what was last written

A host changes the memory by single writes and by loads, with any integers for addresses,
and a load may be so long that it comes round to its own beginning.  Seen from one cell
all this is a sequence of writes of single bytes, of which only the last one to that cell
counts.

**Proved here.**

    a call is the single writes that it comes to, in order      (`perform_eq_foldl`)
    a cell holds the byte of its last write, or what it held    (`read_foldl`)
    the end of a loaded block is read back in one piece         (`range_load`)
    so the memory is a store of last writes                     (`last_write_wins`)
-/
import ChipEight.Proofs.RomImage

namespace ChipEight.Memory

/-- A call that changes the memory. -/
inductive Store where
  | write (addr value : Int)
  | load (data : List Byte) (base : Int)

/-- The memory after a call. -/
def perform (m : Memory) : Store → Memory
  | .write addr value => m.write addr value
  | .load data base => m.load data base

/-- The writes of single bytes that a call comes to, each with its address and its value. -/
def Store.writes : Store → List (Int × Int)
  | .write addr value => [(addr, value)]
  | .load data base => data.mapIdx fun k b => (base + k, b.toNat)

/-- The value of the last write to the cell of an address. -/
def lastWrite? (addr : Int) (writes : List (Int × Int)) : Option Int :=
  (writes.filter fun w => w.1 % 4096 == addr % 4096).getLast?.map (·.2)

/-! ## Calls as single writes -/

theorem write_toNat (m : Memory) (addr : Int) (b : Byte) : m.write addr b.toNat = m.set addr b := by
  rw [write, BitVec.ofInt_natCast, BitVec.ofNat_toNat, BitVec.setWidth_eq]

theorem load_eq_foldl (data : List Byte) : ∀ (m : Memory) (base : Int),
    m.load data base = (Store.load data base).writes.foldl (fun m w => m.write w.1 w.2) m := by
  induction data with
  | nil => exact fun _ _ => rfl
  | cons b data ih =>
      intro m base
      have hshift : ∀ k : Nat, base + ((k + 1 : Nat) : Int) = base + 1 + (k : Int) := by
        intro k
        omega
      simp only [Store.writes, List.mapIdx_cons, List.foldl_cons, hshift, Int.natCast_zero,
        Int.add_zero, write_toNat]
      exact ih (m.set base b) (base + 1)

theorem perform_eq_foldl (m : Memory) (s : Store) :
    m.perform s = s.writes.foldl (fun m w => m.write w.1 w.2) m := by
  cases s with
  | write addr value => rfl
  | load data base => exact load_eq_foldl data m base

theorem foldl_perform (stores : List Store) (m : Memory) :
    stores.foldl perform m =
      (stores.flatMap Store.writes).foldl (fun m w => m.write w.1 w.2) m := by
  rw [List.foldl_flatMap]
  exact congrArg (List.foldl · m stores) (funext fun m => funext fun s => perform_eq_foldl m s)

/-! ## The last write -/

theorem lastWrite?_cons (addr : Int) (w : Int × Int) (writes : List (Int × Int)) :
    lastWrite? addr (w :: writes) =
      if w.1 % 4096 = addr % 4096 then some ((lastWrite? addr writes).getD w.2)
      else lastWrite? addr writes := by
  rw [lastWrite?, List.filter_cons]
  by_cases h : w.1 % 4096 = addr % 4096
  · rw [if_pos (beq_iff_eq.2 h), if_pos h, List.getLast?_cons, lastWrite?]
    cases (writes.filter fun w => w.1 % 4096 == addr % 4096).getLast? <;> rfl
  · rw [if_neg (mt beq_iff_eq.1 h), if_neg h, lastWrite?]

theorem toNat_read_write (m : Memory) (addr value query : Int) :
    (((m.write addr value).read query).toNat : Int) =
      if addr % 4096 = query % 4096 then value % 256 else (m.read query).toNat := by
  rw [write, read_set]
  split
  · rw [BitVec.toNat_ofInt]
    omega
  · rfl

/-- By induction on the writes: the first of them counts only where no later one does. -/
theorem read_foldl (query : Int) (writes : List (Int × Int)) : ∀ m : Memory,
    (((writes.foldl (fun m w => m.write w.1 w.2) m).read query).toNat : Int) =
      ((lastWrite? query writes).map fun value => value % 256).getD ((m.read query).toNat : Int) := by
  induction writes with
  | nil => exact fun _ => rfl
  | cons w writes ih =>
      intro m
      rw [List.foldl_cons, ih, toNat_read_write, lastWrite?_cons]
      split
      · cases lastWrite? query writes <;> rfl
      · rfl

/-! ## Blocks -/

theorem range_load (m : Memory) (data : List Byte) (base : Int) {k : Nat}
    (hlast : data.length ≤ k + 4096) :
    (m.load data base).range (base + k) (data.length - k : Nat) = data.drop k := by
  refine List.ext_getElem (by simp [range]) fun i hi hi' => ?_
  have hlt : k + i < data.length := by
    rw [List.length_drop] at hi'
    omega
  simp only [range, List.getElem_map, List.getElem_range, List.getElem_drop]
  rw [Int.add_assoc, ← Int.natCast_add]
  exact read_load_of_last data m base (k + i) hlt (by omega)

theorem getElem?_range (m : Memory) (start : Int) {n : Int} {i : Nat} (hi : (i : Int) < n) :
    (m.range start n)[i]? = some (m.read (start + i)) := by
  rw [range, List.getElem?_map, List.getElem?_range (by omega)]
  rfl

theorem toList_eq_range (m : Memory) : m.toList = m.range 0 4096 := by
  refine List.ext_getElem (by simp [toList, range]) fun i hi _ => ?_
  have hi' : i < 4096 := by simpa [toList] using hi
  have hcell : residue 4096 (0 + (i : Int)) = ⟨i, hi'⟩ := by
    rw [Int.zero_add]
    exact residue_natCast_of_fin ⟨i, hi'⟩
  simp only [toList, range, List.getElem_map, List.getElem_range, Vector.getElem_toList, read,
    hcell, get_eq_getElem]

/-- After any calls a cell holds, modulo 256, the value of the last write of a single byte to it; a
load counts as the writes of its bytes, in order.  A cell with no write holds what it held.  So a
block that has been loaded is read back, or its last 4096 bytes if it is longer than the memory.
What is read from the memory repeats itself after 4096 bytes, and the first 4096 from address 0 on
are all its cells. -/
theorem last_write_wins (m : Memory) :
    (∀ (stores : List Store) (query : Int),
      (((stores.foldl perform m).read query).toNat : Int) =
        ((lastWrite? query (stores.flatMap Store.writes)).map fun value => value % 256).getD
          ((m.read query).toNat : Int)) ∧
    (∀ (data : List Byte) (base : Int),
      (data.length ≤ 4096 → (m.load data base).range base data.length = data) ∧
      (4096 < data.length → (m.load data base).range (base + data.length - 4096) 4096 =
        data.drop (data.length - 4096))) ∧
    (∀ start n : Int, (m.range start n).length = n.toNat ∧
      ∀ i : Nat, (i : Int) + 4096 < n →
        (m.range start n)[i + 4096]? = (m.range start n)[i]?) ∧
    m.toList = m.range 0 4096 := by
  refine ⟨fun stores query => ?_, fun data base => ⟨fun hlength => ?_, fun hlength => ?_⟩,
    fun start n => ⟨by simp [range], fun i hi => ?_⟩, toList_eq_range m⟩
  · rw [foldl_perform]
    exact read_foldl query _ m
  · have hall := range_load m data base (k := 0) (by omega)
    rwa [Int.natCast_zero, Int.add_zero, Nat.sub_zero, List.drop_zero] at hall
  · have hend := range_load m data base (k := data.length - 4096) (by omega)
    rwa [show data.length - (data.length - 4096) = 4096 by omega,
      show base + ((data.length - 4096 : Nat) : Int) = base + data.length - 4096 by omega] at hend
  · have hshift : start + ((i + 4096 : Nat) : Int) = start + i + 4096 := by omega
    have hcell : m.read (start + (i + 4096 : Nat)) = m.read (start + i) :=
      m.read_congr (by rw [hshift, Int.add_emod_right])
    rw [getElem?_range m start (i := i + 4096) (by omega), getElem?_range m start (by omega), hcell]

/-- Two calls write the last cell and the load between them the last two and the first; then a block
of 4097 bytes ends on its own beginning. -/
theorem last_write_wins_over_itself :
    let stores : List Store := [.write (-1) 300, .load [1, 2, 3] 4094, .write 8191 (-1)]
    let data : List Byte := 1 :: List.replicate 4096 7
    ((stores.foldl perform zero).read (-4097)).toNat = 255 ∧
      ((stores.foldl perform zero).read 4096).toNat = 3 ∧
      ((stores.foldl perform zero).read 5).toNat = 0 ∧
      4096 < data.length ∧ (zero.load data (-3)).range (-2) 4096 = List.replicate 4096 7 ∧
      ((0 : Nat) : Int) + 4096 < 5000 ∧
      (zero.range (-3) 5000)[4096]? = (zero.range (-3) 5000)[0]? := by
  intro stores data
  obtain ⟨hread, hload, hperiod, -⟩ := last_write_wins zero
  have hlength : data.length = 4097 := by simp only [data, List.length_cons, List.length_replicate]
  have hdrop : data.drop (4097 - 4096) = List.replicate 4096 7 := rfl
  have hzero : (zero.read 5).toNat = 0 := rfl
  have hend := (hload data (-3)).2 (by omega)
  rw [hlength, hdrop] at hend
  refine ⟨?_, ?_, ?_, by omega, hend, by decide, (hperiod (-3) 5000).2 0 (by decide)⟩
  · exact Int.ofNat_inj.1 ((hread stores (-4097)).trans rfl)
  · exact Int.ofNat_inj.1 ((hread stores 4096).trans rfl)
  · exact Int.ofNat_inj.1 ((hread stores 5).trans (congrArg Int.ofNat hzero))

end ChipEight.Memory
