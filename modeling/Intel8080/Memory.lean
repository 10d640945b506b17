import Intel8080.Fault

/-! A memory image of fixed size, at least one byte and at most what sixteen-bit addresses
reach. Addresses beyond its size are refused. -/

namespace Intel8080

structure Memory where
  bytes : Array Byte
  size_pos : 0 < bytes.size
  size_le : bytes.size ≤ maxMemorySize

namespace Memory

/-- Number of bytes. -/
def size (m : Memory) : Nat := m.bytes.size

/-- Zeroed memory of the given size. -/
def ofSize (n : Nat) : Except Fault Memory :=
  if h : 0 < n ∧ n ≤ maxMemorySize then
    .ok ⟨Array.replicate n 0, by simpa using h.1, by simpa using h.2⟩
  else
    .error (.invalidMemorySize n)

/-- The size of an image for which none is given. -/
def defaultSize : Nat := 16384

instance : Inhabited Memory :=
  ⟨Array.replicate defaultSize 0, by simp [defaultSize], by simp [defaultSize, maxMemorySize]⟩

def read (m : Memory) (addr : Word) : Except Fault Byte :=
  if h : addr.toNat < m.bytes.size then
    .ok m.bytes[addr.toNat]
  else
    .error (.addressOutOfRange addr m.size)

/-- A refused write leaves the memory as it was. -/
def write (m : Memory) (addr : Word) (v : Byte) : Except Fault Unit × Memory :=
  if h : addr.toNat < m.bytes.size then
    (.ok (), ⟨m.bytes.set addr.toNat v, by simpa using m.size_pos, by simpa using m.size_le⟩)
  else
    (.error (.addressOutOfRange addr m.size), m)

/-- Copy of a whole program, which has to fit. -/
def load (m : Memory) (offset : Word) (program : Array Byte) : Except Fault Memory :=
  if h : offset.toNat + program.size ≤ m.bytes.size then
    .ok
      { bytes :=
          m.bytes.extract 0 offset.toNat ++ program ++
            m.bytes.extract (offset.toNat + program.size)
        size_pos := by
          have := m.size_pos
          simp only [Array.size_append, Array.size_extract]
          omega
        size_le := by
          have := m.size_le
          simp only [Array.size_append, Array.size_extract]
          omega }
  else
    .error (.programTooLarge program.size offset m.size)

theorem read_eq_ok (m : Memory) {addr : Word} (h : addr.toNat < m.bytes.size) :
    m.read addr = .ok m.bytes[addr.toNat] := dif_pos h

theorem read_eq_error (m : Memory) {addr : Word} (h : m.size ≤ addr.toNat) :
    m.read addr = .error (.addressOutOfRange addr m.size) := dif_neg (Nat.not_lt.mpr h)

@[simp] theorem size_write (m : Memory) (addr : Word) (v : Byte) :
    (m.write addr v).2.size = m.size := by
  unfold write
  split <;> simp [size]

theorem read_write_self (m : Memory) {addr : Word} (v : Byte) (h : addr.toNat < m.bytes.size) :
    (m.write addr v).2.read addr = .ok v := by
  simp [write, read, h]

theorem read_write_of_ne (m : Memory) {addr other : Word} (v : Byte) (h : other ≠ addr) :
    (m.write addr v).2.read other = m.read other := by
  have hn : addr.toNat ≠ other.toNat := fun e => h (UInt16.toNat_inj.mp e.symm)
  by_cases ha : addr.toNat < m.bytes.size
  · simp only [write, ha, ↓reduceDIte, read, size, Array.size_set]
    split
    · rw [Array.getElem_set_ne _ _ hn]
    · rfl
  · simp [write, ha]

theorem size_load {m m' : Memory} {offset : Word} {program : Array Byte}
    (h : m.load offset program = .ok m') : m'.size = m.size := by
  unfold load at h
  split at h
  · cases h
    simp only [size, Array.size_append, Array.size_extract]
    omega
  · contradiction

end Memory

end Intel8080
